import Marshal.Proofs.Datum
import Marshal.Proofs.Registry.Arrival

namespace Marshal

open Marshal.Action (madeList)

namespace Value

theorem same_eq_false_of_object {v w : Value} {ref : Ref}
    (object : v = .object ref ∨ w = .object ref) (other : v ≠ w) : v.same w = false := by
  rcases object with rfl | rfl
  · cases w <;> exact beq_eq_false_iff_ne.2 other
  · cases v <;> exact beq_eq_false_iff_ne.2 other

end Value

namespace Registry

open Marshal.Effect
open Marshal.Step

def Keyed (g : Graph) (v : Value) : Prop := ∃ vs, g.objectOf? v = some (madeList vs) ∧ Keys vs

/-- What became of a value: the value still, or an object that was added since. A list of keys is
one still. -/
structure Renewed (g : Graph) (since : Nat) (k : Graph) (v w : Value) : Prop where
  settled : w = v ∨ ∃ ref, w = .object ref ∧ since ≤ ref
  keyed : Keyed g v → Keyed k w

/-- What a value that held the datum in the graph `g` is read as. -/
def Regains (g : Graph) (d : Datum) (v : Value) (since : Nat) (k : Graph) (w : Value) : Prop :=
  d.ShownBy true k w ∧ Renewed g since k v w

def RegainsAll (g : Graph) (data : List Datum) (vs : List Value) (since : Nat) (k : Graph)
    (ws : List Value) : Prop :=
  Datum.AllShownBy true k data ws ∧ List.Forall₂ (Renewed g since k) vs ws ∧ (Keys vs → Keys ws)

section Keep

variable {g k l : Graph} {v w : Value} {since since' : Nat} {dense : Bool} {d : Datum}

theorem Keyed.of_extends (ext : g.Extends k) (h : Keyed g v) : Keyed k v := by
  obtain ⟨vs, found, keys⟩ := h
  exact ⟨vs, ext.objectOf? found, keys⟩

theorem Keyed.keys {vs : List Value} (h : Keyed g v)
    (found : g.objectOf? v = some (madeList vs)) : Keys vs := by
  obtain ⟨ws, found', keys⟩ := h
  have same := congrArg Object.body (Option.some.inj (found'.symm.trans found))
  have items : ws.map some = vs.map some := (Body.list.injEq _ _).mp same
  rwa [← List.map_injective_iff.2 (Option.some_injective _) items]

theorem Keyed.of_shownBy (shown : d.ShownBy dense g v) (ext : g.Extends k) (h : Keyed k v) :
    Keyed g v := by
  obtain ⟨vs, found, keys⟩ := h
  exact ⟨vs, (shown.objectOf?_of_extends ext found).1, keys⟩

theorem Renewed.later (h : Renewed g since k v w) (ext : k.Extends l) (le : since' ≤ since) :
    Renewed g since' l v w := by
  refine ⟨h.settled.imp id ?_, fun keyed => (h.keyed keyed).of_extends ext⟩
  rintro ⟨ref, rfl, bound⟩
  exact ⟨ref, rfl, le.trans bound⟩

theorem Renewed.from (shown : d.ShownBy dense g v) (ext : g.Extends l)
    (h : Renewed g since k v w) : Renewed l since k v w :=
  ⟨h.settled, fun keyed => h.keyed (keyed.of_shownBy shown ext)⟩

theorem Renewed.kept (ext : g.Extends k) : Renewed g since k v v :=
  ⟨.inl rfl, fun keyed => keyed.of_extends ext⟩

end Keep

theorem keys_cons {since next : Nat} {v w : Value} {vs ws : List Value}
    (old : ∀ u ∈ vs, ∀ ref, u = .object ref → ref < since)
    (first : w = v ∨ ∃ ref, w = .object ref ∧ since ≤ ref)
    (inside : ∀ ref, w = .object ref → ref < next)
    (rest : List.Forall₂ (fun u x => x = u ∨ ∃ ref, x = .object ref ∧ next ≤ ref) vs ws)
    (others : Keys vs → Keys ws) (keys : Keys (v :: vs)) : Keys (w :: ws) := by
  obtain ⟨apart, distinct⟩ := List.pairwise_cons.1 keys.distinct
  obtain ⟨stored, storedRest⟩ := List.forall_mem_cons.1 keys.stored
  obtain ⟨distinct', stored'⟩ := others ⟨distinct, storedRest⟩
  refine ⟨List.pairwise_cons.2 ⟨?_, distinct'⟩, List.forall_mem_cons.2 ⟨?_, stored'⟩⟩
  · intro x mem
    obtain ⟨u, mem', settled⟩ : ∃ u ∈ vs, x = u ∨ ∃ ref, x = .object ref ∧ next ≤ ref := by
      obtain ⟨i, inside, rfl⟩ := List.getElem_of_mem mem
      have inside' : i < vs.length := rest.length_eq ▸ inside
      exact ⟨vs[i], List.getElem_mem inside', rest.get inside' inside⟩
    -- of two that differ now one was added after the other was there
    rcases settled with rfl | ⟨ref, rfl, fresh⟩
    · rcases first with rfl | ⟨ref, rfl, fresh⟩
      · exact apart x mem'
      · refine Value.same_eq_false_of_object (.inl rfl) fun same => ?_
        exact Nat.not_lt.2 fresh (old x mem' ref same.symm)
    · refine Value.same_eq_false_of_object (.inr rfl) fun same => ?_
      exact Nat.not_lt.2 fresh (inside ref same)
  · rcases first with rfl | ⟨ref, rfl, -⟩
    · exact stored
    · rfl

/-- A value that holds the datum is written as a node that is read as one again, unless that is too
deep. -/
def Travels (r : Registry) (d : Datum) : Prop :=
  ∀ ⦃stack fuel depth s v⦄, Stands r stack fuel depth s → d.ShownBy false s.graph v →
    Arrives r stack (depth + d.depth) s (serializeAt fuel depth v) fun t last =>
      ReadAs r last depth (Regains last d v) t

/-- So it is in a slot. Only a node can be too deep there. -/
def Sits (r : Registry) (d : Datum) : Prop :=
  ∀ ⦃stack fuel depth lowest s v⦄, Stands r stack fuel depth s → d.ShownBy false s.graph v →
    (d.isLeaf = false → depth + d.depth ≤ lowest) →
    Arrives r stack lowest s (encodeItem (serializeAt fuel depth) (some v)) fun t last =>
      SlotReadAs r last depth (Regains last d v) t

section Slots

variable {r : Registry} {d : Datum}

theorem sits_of_isLeaf (leaf : ∀ g v, d.ShownBy false g v → g.isLeaf v = true) : Sits r d := by
  intro stack fuel depth lowest s v stands shown _
  have kept := leaf s.graph v shown
  have later (k : Graph) (ext : s.graph.Extends k) :=
    (shown.of_extends ext).of_isLeaf (leaf k v (shown.of_extends ext))
  refine .ok ?_ stands.alike (.refl _) (slotReadAs_leaf (fun k ext => (later k ext).2) ?_)
  · rw [encodeItem_run, if_pos kept]
  · exact fun k ext => ⟨(later k ext).1, .kept ext⟩

theorem sits_scalar (v : Value) : Sits r (.scalar v) := by
  refine sits_of_isLeaf fun g w shown => ?_
  obtain ⟨rfl, primitive⟩ := shown
  rw [Graph.isLeaf, primitive, Bool.true_or]

theorem sits_bytes (bytes : ByteArray) : Sits r (.numbers .uint8 bytes) := by
  refine sits_of_isLeaf fun g w shown => ?_
  have array : g.isBytes w = true := by
    rw [Graph.isBytes, Graph.kindOf?, shown.2.2]
    rfl
  rw [Graph.isLeaf, array, Bool.or_true]

theorem sits_of_travels (h : d.isLeaf = false → Travels r d) : Sits r d := by
  cases leaf : d.isLeaf with
  | true =>
    cases d with
    | scalar v => exact sits_scalar v
    | numbers kind bytes =>
      obtain rfl := of_decide_eq_true leaf
      exact sits_bytes bytes
    | _ => cases leaf
  | false =>
    intro stack fuel depth lowest s v stands shown le
    have node : s.graph.isLeaf v = false := by
      rw [Bool.eq_false_iff]
      intro kept
      rcases shown.leaf_cases kept with rfl | ⟨bytes, rfl⟩ <;> cases leaf
    refine .of_run ?_ (.refl _) (((h leaf stands shown).mono (le leaf)).imp fun _ _ => ReadAs.slot)
    rw [encodeItem_run, node, if_neg Bool.false_ne_true]

theorem slotsReadAs_cons {g : Graph} {depth : Nat} {v : Value} {t : Tree} {data : List Datum}
    {vs : List Value} {slots : List Tree} (shown : Datum.AllShownBy false g data vs)
    (first : SlotReadAs r g depth (Regains g d v) t)
    (rest : SlotsReadAs r g depth (RegainsAll g data vs) slots) :
    SlotsReadAs r g depth (RegainsAll g (d :: data) (v :: vs)) (t :: slots) := by
  refine .cons first rest fun h k l w ws ext grown first grown' rest => ?_
  obtain ⟨shown₁, renewed₁⟩ := first
  obtain ⟨shown₂, renewed₂, keys₂⟩ := rest
  refine ⟨⟨w, ws, rfl, shown₁.of_extends grown', shown₂⟩,
    .cons (renewed₁.later grown' le_rfl)
      (renewed₂.imp fun _ _ renewed => renewed.later (.refl _) grown.size_le), ?_⟩
  refine keys_cons ?_ renewed₁.settled ?_ (renewed₂.imp fun _ _ renewed => renewed.settled) keys₂
  · rintro u mem ref rfl
    obtain ⟨d', -, shown'⟩ := shown.exists_of_mem mem
    exact shown'.ref_lt.trans_le ext.size_le
  · rintro ref rfl
    exact shown₁.ref_lt

theorem arrives_slots {data : List Datum} (sits : ∀ d ∈ data, Sits r d) {vs : List Value}
    {stack fuel depth lowest start : Nat} {list : Value} {s : Scene}
    (stands : Stands r stack fuel depth s) (shown : Datum.AllShownBy false s.graph data vs)
    (held : ∀ k, s.graph.Extends k → ∀ i, k.item? list (start + i) = vs[i]?)
    (le : ∀ d ∈ data, d.isLeaf = false → depth + d.depth ≤ lowest) :
    Arrives r stack lowest s (mapItems (encodeItem (serializeAt fuel depth)) list start vs.length)
      fun slots last => SlotsReadAs r last depth (RegainsAll last data vs) slots := by
  induction data generalizing vs s start with
  | nil =>
    obtain rfl : vs = [] := shown
    exact .pure stands.alike (slotsReadAs_nil fun _ _ => ⟨rfl, .nil, id⟩)
  | cons d rest ih =>
    obtain ⟨v, others, rfl, first, all⟩ := shown
    obtain ⟨sit, sits⟩ := List.forall_mem_cons.1 sits
    obtain ⟨bound, bounds⟩ := List.forall_mem_cons.1 le
    refine arrives_mapItems_cons (held _ (.refl _) 0) (sit stands first bound) ?_
    intro t s₁ alike₁ ext₁ reads₁
    have held₁ (k : Graph) (ext : s₁.graph.Extends k) (i : Nat) :
        k.item? list (start + 1 + i) = others[i]? := by
      rw [Nat.add_assoc, Nat.add_comm 1]
      exact held k (ext₁.trans ext) (i + 1)
    have all₁ := all.of_extends ext₁
    refine (ih sits ⟨stands.room, alike₁⟩ all₁ held₁ bounds).imp fun slots last reads₂ ext₂ => ?_
    have first₁ := first.of_extends ext₁
    refine slotsReadAs_cons (all₁.of_extends ext₂) (reads₁.of_extends ext₂ ?_) reads₂
    exact fun since l w _ regained => ⟨regained.1, regained.2.from first₁ ext₂⟩

end Slots

structure Regained (g : Graph) (data : List Datum) (parts : List Value) (k : Graph)
    (ws : List Value) : Prop where
  ext : g.Extends k
  shown : Datum.AllShownBy true k data ws
  keyed : List.Forall₂ (fun v w => Keyed g v → Keyed k w) parts ws
  keys : Keys parts → Keys ws

/-- From a list of the parts that were regained a codec builds a value that holds the datum. -/
def Rebuilds (codec : Codec) (d : Datum) (g : Graph) (v : Value) (k : Graph) (ws : List Value) :
    Prop :=
  ∃ w last, (codec.deserialize.run (.object k.size)).run (k.add (madeList ws)) = (.ok w, last) ∧
    (k.add (madeList ws)).Extends last ∧ d.ShownBy true last w ∧ Renewed g k.size last v w

/-- A codec that takes values holding the datum apart into values holding the data, and puts them
together again. -/
def Handles (codec : Codec) (data : List Datum) (d : Datum) : Prop :=
  ∀ g v, d.ShownBy false g v → ∃ ref parts k,
    (codec.serialize.run v).run g = (.ok (.object ref), k) ∧ g.Extends k ∧
      k.get? ref = some (madeList parts) ∧ Datum.AllShownBy false k data parts ∧
      ∀ h ws, Regained k data parts h ws → Rebuilds codec d g v h ws

theorem Travels.of_handles {r : Registry} (consistent : r.Consistent) {e : Entry} {d : Datum}
    {data : List Datum} (entry : ∀ g v, d.ShownBy false g v → r.entryFor g v = e)
    (handles : Handles e.codec data d) (deeper : Datum.slotsDepth data ≤ d.depth)
    (sits : ∀ part ∈ data, Sits r part) : Travels r d := by
  intro stack fuel depth s v stands shown
  obtain rfl := entry s.graph v shown
  have used := consistent.uses_entryFor s.graph v
  obtain ⟨ref, parts, k, wrote, ext, made, shownParts, rebuilds⟩ := handles s.graph v shown
  refine arrives_of_parts stands (Nat.le_add_right _ _) wrote ext made ?_ ?_
    (P := fun slots last => SlotsReadAs r last (depth + 1) (RegainsAll last data parts) slots)
  · rintro fuel s' stands' rfl
    refine arrives_slots sits stands' shownParts (item?_madeList made) fun part mem node => ?_
    have := Datum.depth_lt_slotsDepth mem node
    omega
  · intro allowed slots last ext' reads
    refine reads.tuple consistent used allowed fun h l ws later grown regained => ?_
    obtain ⟨shownAll, renewed, keys⟩ := regained
    have keyed := renewed.imp fun _ _ renewed (keyed : Keyed k _) =>
      renewed.keyed (keyed.of_extends ext')
    obtain ⟨w, rebuilt, ran, grown', shown', renewed'⟩ :=
      rebuilds l ws ⟨(ext'.trans later).trans grown, shownAll, keyed, keys⟩
    exact ⟨w, rebuilt, ran, grown', shown',
      (renewed'.from shown (ext.trans ext')).later (.refl _) grown.size_le⟩

end Registry

end Marshal
