import Marshal.Proofs.Registry.RoundTrip

namespace Marshal

/-- What a leaf and the data of a node are in a graph: a leaf is a scalar or bytes, data are bytes
or a list of slots. -/
def Tree.Formed (g : Graph) : Tree → Prop
  | .hole => True
  | .leaf v => v.isPrimitive = true ∨ g.isBytes v = true
  | .packed _ data => g.isBytes data = true
  | .tuple _ kind _ => kind.any (·.isWithin (.numbers .uint8)) = false

def Tree.Names (t : Tree) (tag : String) : Prop := ∃ d u, t.Has d u ∧ u.tag? = some tag

namespace Registry

open Marshal.Effect
open Marshal.Step

theorem Proper.formed {r : Registry} {g : Graph} {depth : Nat} {t : Tree}
    (h : r.Proper g depth t) : t.Formed g := by
  cases t with
  | hole => trivial
  | leaf v => exact Bool.or_eq_true_iff.1 h
  | packed | tuple => exact h.2.2

theorem KeepsBytes.formed {r : Registry} (keeps : r.KeepsBytes) {g k : Graph}
    (onward : Onward r g k) {t : Tree} (h : t.Formed g) : t.Formed k := by
  cases t with
  | hole | tuple => exact h
  | leaf v => exact h.imp id (keeps g k onward v)
  | packed tag data => exact keeps g k onward data h

/-- The failures that the codecs of a tree account for: what one of them throws while the tree is
read, wrapped unless it is a failure of a registry already. -/
inductive CodecThrew (r : Registry) (t : Tree) (g : Graph) : Fault → Prop where
  | wrapped {e : Entry} {data : Value} {k k' : Graph} {cause : Cause} (used : r.Uses e)
      (named : t.Names e.tag) (reached : Onward r g k)
      (threw : (e.codec.deserialize.run data).run k = (.error (.cause cause), k')) :
    CodecThrew r t g (.registry (.codecFailure e.tag e.typeName .deserialize cause))
  | unchanged {e : Entry} {data : Value} {k k' : Graph} {error : RegistryError} (used : r.Uses e)
      (named : t.Names e.tag) (reached : Onward r g k)
      (threw : (e.codec.deserialize.run data).run k = (.error (.registry error), k')) :
    CodecThrew r t g (.registry error)
  /-- No failure can be made of an error that has no text for its message. -/
  | wordless {e : Entry} {data : Value} {k k' : Graph} {kind : ErrorKind} {raised : Fault}
      (used : r.Uses e) (named : t.Names e.tag) (reached : Onward r g k)
      (threw : (e.codec.deserialize.run data).run k = (.error (.wordless kind raised), k')) :
    CodecThrew r t g raised

theorem CodecThrew.since {r : Registry} {t : Tree} {g h : Graph} {fault : Fault}
    (threw : r.CodecThrew t h fault) (onward : Onward r g h) : r.CodecThrew t g fault := by
  cases threw with
  | wrapped used named reached threw => exact .wrapped used named (onward.trans reached) threw
  | unchanged used named reached threw => exact .unchanged used named (onward.trans reached) threw
  | wordless used named reached threw => exact .wordless used named (onward.trans reached) threw

/-- An end in which the bindings are as they were, the graph is of a sort still and the result is of
another, or in which a codec of the tree has failed. -/
def EndsByCodec {α : Type} (r : Registry) (t : Tree) (K : Graph → Prop) (Q : α → Prop) (g : Graph) :
    Except Fault α × Scene → Prop
  | (.ok a, s) => s.registry.forget = r.forget ∧ Onward r g s.graph ∧ K s.graph ∧ Q a
  | (.error fault, _) => r.CodecThrew t g fault

/-- A step that leads from graphs of a sort to graphs of that sort, and fails only where a codec of
the tree does. -/
def FailsByCodec {α : Type} (r : Registry) (t : Tree) (K : Graph → Prop) (x : Step α)
    (Q : α → Prop) : Prop :=
  ∀ s, s.registry.forget = r.forget → K s.graph → r.EndsByCodec t K Q s.graph (x.run s)

namespace FailsByCodec

variable {r : Registry} {t : Tree} {K : Graph → Prop} {α β : Type}

theorem pure {a : α} {Q : α → Prop} (sort : Q a) : FailsByCodec r t K (pure a : Step α) Q :=
  fun _ same kept => ⟨same, .refl, kept, sort⟩

theorem bind {x : Step α} {f : α → Step β} {P : α → Prop} {Q : β → Prop}
    (hx : FailsByCodec r t K x P) (hf : ∀ a, P a → FailsByCodec r t K (f a) Q) :
    FailsByCodec r t K (x >>= f) Q := by
  intro s same kept
  have first := hx s same kept
  rw [run_bind]
  cases h : x.run s with
  | mk result middle =>
    rw [h] at first
    cases result with
    | error fault => exact first
    | ok a =>
      obtain ⟨same', onward, kept', sort⟩ := first
      have second := hf a sort middle same' kept'
      dsimp only
      cases h' : (f a).run middle with
      | mk result last =>
        rw [h'] at second
        cases result with
        | error fault => exact second.since onward
        | ok b => exact ⟨second.1, onward.trans second.2.1, second.2.2⟩

theorem rebuild {e : Entry} (used : r.Uses e) (named : t.Names e.tag) {data : Value} {s : Scene}
    {g : Graph} (same : s.registry.forget = r.forget) (onward : Onward r g s.graph)
    (kept : K ((e.codec.deserialize.run data).run s.graph).2) :
    r.EndsByCodec t K (fun _ => True) g ((rebuild e data).run s) := by
  rw [Registry.rebuild, run_bind, act_run]
  cases h : (e.codec.deserialize.run data).run s.graph with
  | mk result after =>
    rw [h] at kept
    rcases result with (error | cause | ⟨kind, raised⟩) | x
    · exact .unchanged used named onward h
    · exact .wrapped used named onward h
    · exact .wordless used named onward h
    · exact ⟨same, onward.deserialized used h, kept, trivial⟩

end FailsByCodec

/-- A part of a tree, at a depth, whose nodes have tags of entries that the tree names and stand no
deeper than nodes may. -/
def Readable (r : Registry) (t : Tree) (depth : Nat) (part : Tree) : Prop :=
  ∀ d u, part.Has d u → u.isNode = true →
    (∃ e, r.Uses e ∧ t.Names e.tag ∧ u.tag? = some e.tag) ∧ r.Allows (depth + d)

theorem Readable.slot {r : Registry} {t part u : Tree} {depth : Nat}
    (h : r.Readable t depth part) (mem : u ∈ part.slots) : r.Readable t (depth + 1) u := by
  intro d n below node
  obtain ⟨tagged, allowed⟩ := h (d + 1) n (.slot mem below) node
  exact ⟨tagged, by rwa [Nat.add_assoc, Nat.add_comm 1 d]⟩

theorem Writes.readable {r : Registry} (consistent : r.Consistent) {depth : Nat} {g last : Graph}
    {v : Value} {trace : Trace} (h : Writes r depth g v trace last) :
    r.Readable trace.tree depth trace.tree := by
  intro d u has node
  obtain ⟨k, -, -, proper⟩ := h.proper consistent has
  cases u with
  | hole | leaf => cases node
  | packed | tuple =>
    obtain ⟨⟨e, used, rfl⟩, allowed, -⟩ := proper
    exact ⟨⟨e, used, ⟨d, _, has, rfl⟩, rfl⟩, allowed⟩

mutual

theorem FailsByCodec.deserializeAt {r : Registry} (consistent : r.Consistent) {t : Tree}
    {K : Graph → Prop} {fuel depth : Nat} {data : Value} {tag : String} : (part : Tree) →
    part.tag? = some tag → r.Readable t depth part → part.Within fuel → r.Spares K part →
      part.FoundBelow K data →
        FailsByCodec r t K (deserializeAt fuel depth tag data) fun _ => True
  | .hole, root, _, _, _, _ | .leaf _, root, _, _, _, _ => by cases root
  | .packed _ own, root, readable, within, spares, found => by
    intro s same kept
    obtain ⟨fuel, rfl⟩ := within.exists_succ rfl
    obtain ⟨⟨e, used, named, tagged⟩, allowed⟩ := readable 0 _ (.root _) rfl
    rw [Nat.add_zero] at allowed
    cases root
    cases tagged
    obtain ⟨rfl, bytes⟩ := found
    rw [deserializeAt_bytes_run consistent used allowed same (bytes _ kept)]
    exact rebuild used named same .refl (spares.packed 0 e _ _ (.root _) used kept)
  | .tuple _ kind slots, root, readable, within, spares, found => by
    intro s same kept
    obtain ⟨fuel, rfl⟩ := within.exists_succ rfl
    obtain ⟨⟨e, used, named, tagged⟩, allowed⟩ := readable 0 _ (.root _) rfl
    rw [Nat.add_zero] at allowed
    cases root
    cases tagged
    have items := mapItems consistent slots (fun u mem => readable.slot mem)
      (fun u mem => within.slot mem) (fun u mem => spares.slot mem) found.2 s same kept
    rw [deserializeAt_list_run consistent used allowed same (found.1 _ kept), run_bind]
    cases ran : (Registry.mapItems (decodeItem (Registry.deserializeAt fuel (depth + 1))) data 0
      slots.length).run s with
    | mk result s₁ =>
      rw [ran] at items
      cases result with
      | error fault => exact items
      | ok xs =>
        obtain ⟨same₁, onward₁, kept₁, length⟩ := items
        dsimp only
        rw [run_bind, newObject_run]
        exact rebuild (s := { s₁ with graph := (s₁.graph.addList kind xs).2 }) used named same₁
          (onward₁.addList kind xs)
          (spares.tuple 0 e kind slots xs s₁.graph (.root _) used kept₁ length)

theorem FailsByCodec.mapItems {r : Registry} (consistent : r.Consistent) {t : Tree}
    {K : Graph → Prop} {fuel depth start : Nat} {list : Value} : (slots : List Tree) →
    (∀ u ∈ slots, r.Readable t depth u) → (∀ u ∈ slots, u.Within fuel) →
      (∀ u ∈ slots, r.Spares K u) → Tree.AllFoundAt K list start slots →
        FailsByCodec r t K
          (mapItems (decodeItem (Registry.deserializeAt fuel depth)) list start slots.length)
          fun xs => xs.length = slots.length
  | [], _, _, _, _ => pure rfl
  | u :: rest, readable, within, spares, found => by
    obtain ⟨⟨item, held, first⟩, others⟩ := found
    obtain ⟨readable, readables⟩ := List.forall_mem_cons.1 readable
    obtain ⟨inside, insides⟩ := List.forall_mem_cons.1 within
    obtain ⟨spared, spares⟩ := List.forall_mem_cons.1 spares
    have decoded : FailsByCodec r t K (decodeItem (Registry.deserializeAt fuel depth) item)
        fun _ => True := by
      cases root : u.tag? with
      | some tag =>
        intro s same kept
        obtain ⟨v, data, rfl, node, below⟩ := first.exists_data root
        rw [decodeItem_node_run _ (node _ kept)]
        exact bind (deserializeAt consistent u root readable inside spared below)
          (fun _ _ => pure trivial) s same kept
      | none =>
        cases u with
        | packed | tuple => cases root
        | hole =>
          obtain rfl : item = none := first
          exact pure trivial
        | leaf v =>
          obtain ⟨rfl, leaf⟩ := first
          intro s same kept
          rw [decodeItem_leaf_run _ (leaf _ kept)]
          exact ⟨same, .refl, kept, trivial⟩
    intro s same kept
    rw [List.length_cons, Registry.mapItems, run_bind, run_get]
    dsimp only
    rw [held _ kept]
    exact bind decoded (fun x _ => bind (mapItems consistent rest readables insides spares others)
      fun xs length => pure (congrArg (· + 1) length)) s same kept

end

namespace Sample

def fragileCodec : Codec :=
  { pairCodec with deserialize := ⟨some "fragile", fun _ => throw (.error "fragile")⟩ }

def fragile : Registry := pairing fragileCodec

def fragileFailure : Fault :=
  .registry (.codecFailure "Pair" "Pair" .deserialize (.error .error "fragile"))

end Sample

end Registry

end Marshal
