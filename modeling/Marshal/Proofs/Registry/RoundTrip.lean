import Mathlib.Data.List.Forall2
import Marshal.Proofs.Registry.Written

namespace Marshal.Registry

open Marshal.Effect
open Marshal.Step

/-- A value with the graph it is looked at in. -/
structure Located where
  graph : Graph
  value : Value

namespace Visit

def met (visit : Visit) : Located := ⟨visit.before, visit.value⟩

/-- From these data the codec of the visit builds a value that is related to the one visited. -/
def ReadsTo (R : Located → Located → Prop) (visit : Visit) (k : Graph) (data : Value) : Prop :=
  ∃ x k', (visit.entry.codec.deserialize.run data).run k = (.ok x, k') ∧ R ⟨k', x⟩ visit.met

end Visit

namespace Trace

def visit? : Trace → Option Visit
  | hole | leaf _ => none
  | packed visit | tuple visit _ => some visit

/-- What can stand in place of an item when a tuple is read: holes and leaves are the same, anything
else is related to what it was, as it came out of reading. -/
inductive Rebuilt (r : Registry) (R : Located → Located → Prop) (k : Graph) :
    Trace → Option Value → Prop where
  | hole : Rebuilt r R k hole none
  | leaf (v : Value) : Rebuilt r R k (leaf v) (some v)
  | node {trace : Trace} {visit : Visit} {x : Value} {k₀ : Graph}
      (visited : trace.visit? = some visit) (earlier : Onward r k₀ k)
      (related : R ⟨k₀, x⟩ visit.met) : Rebuilt r R k trace (some x)

mutual

/-- The codecs on the way undo themselves up to a relation: from its bytes each builds a value
related to the one it took apart, and so it does from every list that agrees with its tuple in
holes and leaves and is related to it in the other items. -/
def Lawful (r : Registry) (R : Located → Located → Prop) : Trace → Prop
  | hole | leaf _ => True
  | packed visit => ∀ k, Onward r visit.after k → visit.ReadsTo R k visit.representation
  | tuple visit slots =>
    (∀ k items, Onward r visit.after k → List.Forall₂ (Rebuilt r R k) slots items →
      visit.ReadsTo R (k.addList (visit.after.kindOf? visit.representation) items).2
        (k.addList (visit.after.kindOf? visit.representation) items).1) ∧
    AllLawful r R slots

def AllLawful (r : Registry) (R : Located → Located → Prop) : List Trace → Prop
  | [] => True
  | t :: rest => t.Lawful r R ∧ AllLawful r R rest

end

end Trace

theorem Writes.visited {r : Registry} {depth : Nat} {g last : Graph} {v : Value} {trace : Trace}
    (h : Writes r depth g v trace last) :
    ∃ visit, trace.visit? = some visit ∧ visit.met = ⟨g, v⟩ := by
  cases h <;> exact ⟨_, rfl, rfl⟩

theorem enter_ok {r : Registry} {s : Scene} {e : Entry} {depth : Nat}
    (unchanged : s.registry.forget = r.forget) (allowed : r.Allows depth)
    (bound : r.entryForTag? e.tag = some e) :
    (enter e.tag depth).run s = (.ok e, s) := by
  have depthLimit : s.registry.maxDepth = r.maxDepth :=
    (congrArg Registry.maxDepth unchanged :)
  have entries : s.registry.entryForTag? e.tag = r.entryForTag? e.tag :=
    (congrArg (Registry.entryForTag? · e.tag) unchanged :)
  have within : r.maxDepth.exceededBy depth = false := allowed
  rw [enter_run, depthLimit, entries, bound, within, if_neg Bool.false_ne_true]

section Reading

variable {r : Registry} {e : Entry} {fuel depth : Nat} {s : Scene} {data : Value}

theorem deserializeAt_bytes_run (consistent : r.Consistent) (used : r.Uses e)
    (allowed : r.Allows depth) (same : s.registry.forget = r.forget)
    (bytes : s.graph.isBytes data = true) :
    (deserializeAt (fuel + 1) depth e.tag data).run s = (rebuild e data).run s := by
  rw [deserializeAt, run_bind, enter_ok same allowed (consistent.entryForTag?_tag used)]
  dsimp only
  rw [run_bind, input_bytes_run _ bytes]

theorem deserializeAt_list_run (consistent : r.Consistent) (used : r.Uses e)
    (allowed : r.Allows depth) (same : s.registry.forget = r.forget) {kind : Option Class}
    {count : Nat} (list : Tree.ListOf s.graph kind count data) :
    (deserializeAt (fuel + 1) depth e.tag data).run s =
      (mapItems (decodeItem (deserializeAt fuel (depth + 1))) data 0 count >>= fun items =>
        newObject { kind, body := .list items } >>= rebuild e).run s := by
  obtain ⟨other, own, items, found, length⟩ := list
  rw [deserializeAt, run_bind, enter_ok same allowed (consistent.entryForTag?_tag used)]
  dsimp only
  rw [run_bind, input_list_run _ other found, own, length, ← bind_assoc, ← run_bind]

end Reading

/-- The codecs of the nodes of a tree, given what reading gives them, lead from graphs of a sort to
graphs of that sort. -/
structure Spares (r : Registry) (K : Graph → Prop) (t : Tree) : Prop where
  packed : ∀ d e data k, t.Has d (.packed e.tag data) → r.Uses e → K k →
    K ((e.codec.deserialize.run data).run k).2
  tuple : ∀ d e kind slots items k, t.Has d (.tuple e.tag kind slots) → r.Uses e → K k →
    items.length = slots.length →
      K ((e.codec.deserialize.run (k.addList kind items).1).run (k.addList kind items).2).2

theorem Spares.slot {r : Registry} {K : Graph → Prop} {t u : Tree} (h : r.Spares K t)
    (mem : u ∈ t.slots) : r.Spares K u where
  packed d e data k has := h.packed (d + 1) e data k (.slot mem has)
  tuple d e kind slots items k has := h.tuple (d + 1) e kind slots items k (.slot mem has)

theorem Trace.length_trees (slots : List Trace) : (Trace.trees slots).length = slots.length := by
  induction slots with
  | nil => rfl
  | cons first rest ih => exact congrArg (· + 1) ih

mutual

/-- Whatever lawful codecs wrote is read as something related, wherever it is found. -/
theorem Writes.reads {r : Registry} (consistent : r.Consistent) {R : Located → Located → Prop}
    {K : Graph → Prop} {fuel depth : Nat} {g last : Graph} {v : Value} {trace : Trace}
    (h : Writes r depth g v trace last) (lawful : trace.Lawful r R)
    (within : trace.tree.Within fuel) (spares : r.Spares K trace.tree) {s : Scene}
    (unchanged : s.registry.forget = r.forget) (later : Onward r last s.graph) (kept : K s.graph)
    {tag : String} {data : Value} (root : trace.tree.tag? = some tag)
    (found : trace.tree.FoundBelow K data) :
    ∃ x s', (deserializeAt fuel depth tag data).run s = (.ok x, s') ∧
      s'.registry = s.registry ∧ Onward r s.graph s'.graph ∧ K s'.graph ∧
      R ⟨s'.graph, x⟩ ⟨g, v⟩ := by
  obtain ⟨fuel, rfl⟩ := within.exists_succ h.isNode_tree
  cases h with
  | @packed _ visit allowed happens _ =>
    cases root
    obtain ⟨rfl, bytes⟩ := found
    have used := happens.uses consistent
    obtain ⟨x, k, built, related⟩ := lawful s.graph later
    have spared := spares.packed 0 visit.entry _ s.graph (.root _) used kept
    rw [built] at spared
    refine ⟨x, { s with graph := k }, ?_, rfl, Onward.refl.deserialized used built, spared, related⟩
    rw [deserializeAt_bytes_run consistent used allowed unchanged (bytes _ kept), rebuild_ok built]
  | @tuple _ visit _ slots _ allowed happens _ _ _ inner =>
    cases root
    obtain ⟨lists, all⟩ := found
    have used := happens.uses consistent
    obtain ⟨items, s₁, ran, same, onward, kept₁, rebuilt⟩ :=
      inner.reads consistent lawful.2 (fun u mem => within.slot mem)
        (fun u mem => spares.slot mem) unchanged later kept all
    -- the law of the tuple is used in the graph that the reading of its items leaves
    have since : Onward r visit.after s₁.graph :=
      ((inner.onward consistent).trans later).trans onward
    obtain ⟨x, k, built, related⟩ := lawful.1 s₁.graph items since rebuilt
    have after := (onward.addList _ _).deserialized used built
    have length : items.length = (Trace.trees slots).length := by
      rw [← rebuilt.length_eq, Trace.length_trees]
    have spared := spares.tuple 0 visit.entry _ _ items s₁.graph (.root _) used kept₁ length
    rw [built] at spared
    refine ⟨x, { s₁ with graph := k }, ?_, same, after, spared, related⟩
    have again := rebuild_ok (s := { s₁ with graph := (s₁.graph.addList _ items).2 }) built
    rw [deserializeAt_list_run consistent used allowed unchanged (lists _ kept), run_bind, ran]
    dsimp only
    rw [run_bind, newObject_run]
    exact again

theorem WritesItems.reads {r : Registry} (consistent : r.Consistent)
    {R : Located → Located → Prop} {K : Graph → Prop} {fuel depth start start' : Nat}
    {g last : Graph} {list data : Value} {slots : List Trace}
    (h : WritesItems r list depth start g slots last) (lawful : Trace.AllLawful r R slots)
    (within : ∀ u ∈ Trace.trees slots, u.Within fuel)
    (spares : ∀ u ∈ Trace.trees slots, r.Spares K u) {s : Scene}
    (unchanged : s.registry.forget = r.forget) (later : Onward r last s.graph) (kept : K s.graph)
    (found : Tree.AllFoundAt K data start' (Trace.trees slots)) :
    ∃ xs s', (mapItems (decodeItem (deserializeAt fuel depth)) data start'
        (Trace.trees slots).length).run s = (.ok xs, s') ∧
      s'.registry = s.registry ∧ Onward r s.graph s'.graph ∧ K s'.graph ∧
      List.Forall₂ (Trace.Rebuilt r R s'.graph) slots xs := by
  cases slots with
  | nil => exact ⟨[], s, rfl, rfl, .refl, kept, .nil⟩
  | cons slot slots =>
    obtain ⟨⟨item, held, first⟩, others⟩ := found
    obtain ⟨inside, insides⟩ := List.forall_mem_cons.1 within
    obtain ⟨spared, spares⟩ := List.forall_mem_cons.1 spares
    -- one item and then the others, whatever the item is
    have step {x : Option Value} {s₁ : Scene} {middle : Graph}
        (ran₁ : (decodeItem (deserializeAt fuel depth) item).run s = (.ok x, s₁))
        (same₁ : s₁.registry = s.registry) (onward₁ : Onward r s.graph s₁.graph)
        (kept₁ : K s₁.graph) (rest : WritesItems r list depth (start + 1) middle slots last)
        (rebuilt₁ : ∀ k, Onward r s₁.graph k → Trace.Rebuilt r R k slot x) :
        ∃ xs s', (mapItems (decodeItem (deserializeAt fuel depth)) data start'
            (Trace.trees (slot :: slots)).length).run s = (.ok xs, s') ∧
          s'.registry = s.registry ∧ Onward r s.graph s'.graph ∧ K s'.graph ∧
          List.Forall₂ (Trace.Rebuilt r R s'.graph) (slot :: slots) xs := by
      obtain ⟨xs, s', ran, same, onward, kept', rebuilt⟩ :=
        rest.reads consistent lawful.2 insides spares (same₁ ▸ unchanged) (later.trans onward₁)
          kept₁ others
      refine ⟨x :: xs, s', ?_, same.trans same₁, onward₁.trans onward, kept',
        .cons (rebuilt₁ _ onward) rebuilt⟩
      rw [Trace.trees, List.length_cons, mapItems, run_bind, run_get]
      dsimp only
      rw [held _ kept, run_bind, ran₁]
      dsimp only
      rw [run_bind, ran]
      rfl
    cases h with
    | hole _ rest =>
      obtain rfl : item = none := first
      exact step rfl rfl .refl kept rest fun k _ => .hole
    | leaf _ _ rest =>
      obtain ⟨rfl, leaf⟩ := first
      exact step (decodeItem_leaf_run _ (leaf _ kept)) rfl .refl kept rest fun k _ => .leaf _
    | node _ _ written rest =>
      obtain ⟨visit, visited, met⟩ := written.visited
      obtain ⟨tag, root⟩ := written.tag?_tree
      obtain ⟨w, below, rfl, node, foundBelow⟩ := first.exists_data root
      obtain ⟨x, s₁, ran₁, same₁, onward₁, kept₁, related⟩ :=
        written.reads consistent lawful.1 inside spared unchanged
          ((rest.onward consistent).trans later) kept root foundBelow
      refine step (x := some x) ?_ same₁ onward₁ kept₁ rest fun k onward =>
        .node visited onward (met ▸ related)
      rw [decodeItem_node_run _ (node _ kept), run_bind, ran₁]
      rfl

end

/-- What can become of the graph in which a tree was placed while it is read: the tree and its place
are as they were. -/
structure Kept (r : Registry) (base : Graph) (t : Tree) (k : Graph) : Prop where
  onward : Onward r (base.place t).2 k
  place : (base.place t).2.ExtendsFrom base.size k
  intact : t.Intact k

theorem Kept.foundBelow {r : Registry} {base : Graph} {t : Tree} {tag : String}
    (root : t.tag? = some tag) : t.FoundBelow (r.Kept base t) (base.place t).1 :=
  (Graph.foundBelow_place (Nat.le_refl _) root fun _ kept => kept.place).2 fun _ kept => kept.intact

namespace Sample

def pair : Class := .top "Pair"

def pairCodec : Codec where
  serialize := ⟨some "pair", fun v => do
    match ← Action.objectOf? v with
    | some o => Action.newList (o.fields.map Prod.snd)
    | none => throw .misuse⟩
  deserialize := ⟨some "pair", fun data => do
    let items := ((← get).items? data).getD []
    Action.add
      { kind := some pair, fields := ["left", "right"].zip (items.map (·.getD .undefined)) }⟩

def refusal : ByteCodec := ⟨"refusal", fun _ => throw .misuse, fun _ => throw .misuse⟩

def pairOptions : Options := { fallback := some refusal }

def pairing (codec : Codec) : Registry :=
  (new pairOptions).run [.register ⟨"Pair", some pair⟩ "Pair" codec]

def pairs : Registry := pairing pairCodec

def IsPair (x _ : Located) : Prop := x.graph.classOf? x.value = some pair

def nested : Graph :=
  ⟨#[{ kind := some pair, fields := [("left", .nat 1), ("right", .nat 2)] },
    { kind := some pair, fields := [("left", .object 0), ("right", .nat 3)] }]⟩

theorem codec_of_happens {visit : Visit} (h : visit.Happens pairs) :
    visit.entry.codec = pairCodec := by
  have used := h.uses ((sound_new pairOptions).run _).consistent
  rcases used with fallback | mem
  · have ran := h.run
    rw [fallback] at ran
    cases ran
  · exact (congrArg Entry.codec (List.mem_singleton.1 mem) :)

theorem readsTo_pair {visit : Visit} (h : visit.Happens pairs) (k : Graph) (data : Value) :
    visit.ReadsTo IsPair k data := by
  rw [Visit.ReadsTo, codec_of_happens h]
  refine ⟨.object k.size, _, rfl, ?_⟩
  rw [IsPair, Graph.classOf?, Graph.get?_add_size]
  rfl

mutual

theorem lawful_pairs {depth : Nat} {g last : Graph} {v : Value} {trace : Trace}
    (h : Writes pairs depth g v trace last) : trace.Lawful pairs IsPair := by
  cases h with
  | packed _ happens _ => exact fun k _ => readsTo_pair happens k _
  | tuple _ happens _ _ _ inner =>
    exact ⟨fun k items _ _ => readsTo_pair happens _ _, allLawful_pairs inner⟩

theorem allLawful_pairs {depth start : Nat} {list : Value} {g last : Graph} {slots : List Trace}
    (h : WritesItems pairs list depth start g slots last) :
    Trace.AllLawful pairs IsPair slots := by
  cases h with
  | nil => trivial
  | hole _ rest | leaf _ _ rest => exact ⟨trivial, allLawful_pairs rest⟩
  | node _ _ first rest => exact ⟨lawful_pairs first, allLawful_pairs rest⟩

end

theorem refusal_run (data : Value) (k : Graph) :
    ∃ cause, ((Pickle.codec refusal none).deserialize.run data).run k =
      (.error (.cause cause), k) := by
  change ∃ cause, ((Pickle.bytesOf "refusal" data >>= fun _ =>
    (throw .misuse >>= Pure.pure : Action Value)).run k) = _
  rw [run_bind, Pickle.bytesOf, run_bind, run_get]
  dsimp only
  cases k.bytes? data with
  | some bytes => exact ⟨_, rfl⟩
  | none =>
    dsimp only
    cases ((k.objectOf? data).bind (·.kind)).any (·.isWithin (.numbers .uint8)) with
    | true => exact ⟨_, rfl⟩
    | false => exact ⟨_, rfl⟩

theorem extends_of_refusal {r : Registry} (refuses : r.fallback = refusal)
    (adds : ∀ e ∈ r.byTag.values, ∀ (h : Graph) v,
      h.Extends ((e.codec.serialize.run v).run h).2 ∧
        h.Extends ((e.codec.deserialize.run v).run h).2)
    {g k : Graph} (onward : Onward r g k) : g.Extends k := by
  refine onward.extends fun e used h v => ?_
  rcases used with rfl | mem
  · obtain ⟨cause, refused⟩ := refusal_run v h
    rw [fallbackEntry, refuses]
    dsimp only
    rw [refused]
    exact ⟨.refl h, .refl h⟩
  · exact adds e mem h v

def begun (r : Registry) (g : Graph) : Scene := { registry := r, graph := g, stack := 10 }

def written (r : Registry) (g : Graph) (v : Value) : Scene := ((serialize v).run (begun r g)).2

end Sample

end Marshal.Registry
