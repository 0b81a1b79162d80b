import Marshal.Proofs.Registry.Run
import Marshal.Proofs.Registry.Steps
import Marshal.Proofs.Tree

namespace Marshal.Registry

open Marshal.Effect
open Marshal.Step

def Uses (r : Registry) (e : Entry) : Prop := e = r.fallbackEntry ∨ e ∈ r.byTag.values

/-- What can become of a graph while a registry works on it: objects are added, and codecs do what
they do. -/
inductive Onward (r : Registry) (g : Graph) : Graph → Prop where
  | refl : Onward r g g
  | add {k : Graph} (h : Onward r g k) (o : Object) : Onward r g (k.add o)
  | serialize {k : Graph} {e : Entry} (h : Onward r g k) (used : r.Uses e) (v : Value) :
    Onward r g ((e.codec.serialize.run v).run k).2
  | deserialize {k : Graph} {e : Entry} (h : Onward r g k) (used : r.Uses e) (data : Value) :
    Onward r g ((e.codec.deserialize.run data).run k).2

theorem Onward.trans {r : Registry} {g h k : Graph} (left : Onward r g h) (right : Onward r h k) :
    Onward r g k := by
  induction right with
  | refl => exact left
  | add _ o ih => exact ih.add o
  | serialize _ used v ih => exact ih.serialize used v
  | deserialize _ used data ih => exact ih.deserialize used data

theorem Onward.serialized {r : Registry} {g k k' : Graph} {e : Entry} {v : Value}
    {result : Except Fault Value} (h : Onward r g k) (used : r.Uses e)
    (run : (e.codec.serialize.run v).run k = (result, k')) : Onward r g k' := by
  have step := h.serialize used v
  rw [run] at step
  exact step

theorem Onward.deserialized {r : Registry} {g k k' : Graph} {e : Entry} {data : Value}
    {result : Except Fault Value} (h : Onward r g k) (used : r.Uses e)
    (run : (e.codec.deserialize.run data).run k = (result, k')) : Onward r g k' := by
  have step := h.deserialize used data
  rw [run] at step
  exact step

theorem Onward.addList {r : Registry} {g k : Graph} (h : Onward r g k) (kind : Option Class)
    (items : List (Option Value)) : Onward r g (k.addList kind items).2 :=
  h.add _

theorem Onward.extends {r : Registry} {g k : Graph}
    (adds : ∀ e, r.Uses e → ∀ (h : Graph) v, h.Extends ((e.codec.serialize.run v).run h).2 ∧
      h.Extends ((e.codec.deserialize.run v).run h).2) (h : Onward r g k) : g.Extends k := by
  induction h with
  | refl => exact .refl g
  | add _ o ih => exact ih.trans (Graph.extends_add _ o)
  | serialize _ used v ih => exact ih.trans (adds _ used _ v).1
  | deserialize _ used data ih => exact ih.trans (adds _ used _ data).2

/-- Depths at which nodes are written and read. -/
def Allows (r : Registry) (depth : Nat) : Prop := r.maxDepth.exceededBy depth = false

theorem Consistent.uses_entryFor {r : Registry} (h : r.Consistent) (g : Graph) (v : Value) :
    r.Uses (r.entryFor g v) := by
  have chosen : r.DispatchesTo g v (r.entryFor g v) := dispatchesTo_iff.2 rfl
  generalize r.entryFor g v = e at chosen
  cases chosen with
  | nearest _ _ bound _ =>
    exact .inr (h.mem_byTag_values_iff.2 (h.ofClass _ _ bound).2)
  | unbound | outside => exact .inl rfl

theorem Consistent.entryForTag?_tag {r : Registry} (h : r.Consistent) {e : Entry}
    (used : r.Uses e) : r.entryForTag? e.tag = some e := by
  rcases used with rfl | mem
  · rfl
  · have held := h.mem_byTag_values_iff.1 mem
    rw [entryForTag?, beq_eq_false_iff_ne.2 (h.ne_fallbackTag held), if_neg Bool.false_ne_true,
      held]

theorem Uses.tag {r : Registry} {e : Entry} (h : r.Uses e) (consistent : r.Consistent) :
    e.tag = fallbackTag ∨ e.tag ∈ r.tags := by
  rcases h with rfl | mem
  · exact .inl rfl
  · right
    rw [tags, ← consistent.map_tag_values]
    exact List.mem_map_of_mem mem

/-- A value on the way of a serialization: the graph it was met in, the entry it dispatched to, what
the codec of the entry made of it, and the graph that left. -/
structure Visit where
  before : Graph
  value : Value
  entry : Entry
  representation : Value
  after : Graph

structure Visit.Happens (r : Registry) (visit : Visit) : Prop where
  entry : visit.entry = r.entryFor visit.before visit.value
  run : (visit.entry.codec.serialize.run visit.value).run visit.before =
    (.ok visit.representation, visit.after)

theorem Visit.Happens.uses {r : Registry} {visit : Visit} (h : visit.Happens r)
    (consistent : r.Consistent) : r.Uses visit.entry :=
  h.entry ▸ consistent.uses_entryFor visit.before visit.value

theorem Visit.Happens.onward {r : Registry} {visit : Visit} (h : visit.Happens r)
    (consistent : r.Consistent) : Onward r visit.before visit.after :=
  Onward.refl.serialized (h.uses consistent) h.run

/-- How a tree came about. -/
inductive Trace where
  | hole
  | leaf (v : Value)
  | packed (visit : Visit)
  | tuple (visit : Visit) (slots : List Trace)

namespace Trace

mutual

def tree : Trace → Tree
  | hole => .hole
  | leaf v => .leaf v
  | packed visit => .packed visit.entry.tag visit.representation
  | tuple visit slots =>
    .tuple visit.entry.tag (visit.after.kindOf? visit.representation) (trees slots)

def trees : List Trace → List Tree
  | [] => []
  | t :: rest => t.tree :: trees rest

end

end Trace

mutual

/-- The value is written at the given depth, which leaves the second graph. -/
inductive Writes (r : Registry) : Nat → Graph → Value → Trace → Graph → Prop where
  | packed {depth : Nat} {visit : Visit} (allowed : r.Allows depth) (happens : visit.Happens r)
      (bytes : visit.after.isBytes visit.representation = true) :
    Writes r depth visit.before visit.value (.packed visit) visit.after
  | tuple {depth : Nat} {visit : Visit} {items : List (Option Value)} {slots : List Trace}
      {last : Graph} (allowed : r.Allows depth) (happens : visit.Happens r)
      (list : visit.after.isBytes visit.representation = false)
      (found : visit.after.items? visit.representation = some items)
      (length : slots.length = items.length)
      (inner : WritesItems r visit.representation (depth + 1) 0 visit.after slots last) :
    Writes r depth visit.before visit.value (.tuple visit slots) last

/-- So are the items of a list from a position on, each as it is found when its turn comes. -/
inductive WritesItems (r : Registry) :
    (list : Value) → (depth start : Nat) → Graph → List Trace → Graph → Prop where
  | nil {list : Value} {depth start : Nat} {g : Graph} : WritesItems r list depth start g [] g
  | hole {list : Value} {depth start : Nat} {g last : Graph} {slots : List Trace}
      (absent : g.item? list start = none)
      (rest : WritesItems r list depth (start + 1) g slots last) :
    WritesItems r list depth start g (.hole :: slots) last
  | leaf {list v : Value} {depth start : Nat} {g last : Graph} {slots : List Trace}
      (found : g.item? list start = some v) (kept : g.isLeaf v = true)
      (rest : WritesItems r list depth (start + 1) g slots last) :
    WritesItems r list depth start g (.leaf v :: slots) last
  | node {list v : Value} {depth start : Nat} {g middle last : Graph} {slot : Trace}
      {slots : List Trace} (found : g.item? list start = some v) (dispatched : g.isLeaf v = false)
      (first : Writes r depth g v slot middle)
      (rest : WritesItems r list depth (start + 1) middle slots last) :
    WritesItems r list depth start g (slot :: slots) last

end

/-- A step that, where it succeeds, writes a value at the given depth, with at most so many levels.
-/
def Records (r : Registry) (levels depth : Nat) (write : Value → Step Tree) : Prop :=
  ∀ v t s s', s.registry.Alike r → (write v).run s = (.ok t, s') →
    ∃ trace, Writes r depth s.graph v trace s'.graph ∧ trace.tree = t ∧ t.Within levels ∧
      s'.registry.Alike r

theorem Records.items {r : Registry} {levels depth : Nat} {write : Value → Step Tree}
    (h : Records r levels depth write) {list : Value} {start count : Nat} {slots : List Tree}
    {s s' : Scene} (alike : s.registry.Alike r)
    (run : (mapItems (encodeItem write) list start count).run s = (.ok slots, s')) :
    ∃ traces, WritesItems r list depth start s.graph traces s'.graph ∧ traces.length = count ∧
      Trace.trees traces = slots ∧ (∀ t ∈ slots, t.Within levels) ∧ s'.registry.Alike r := by
  induction count generalizing start s slots with
  | zero =>
    cases run
    exact ⟨[], .nil, rfl, rfl, fun _ mem => absurd mem List.not_mem_nil, alike⟩
  | succ count ih =>
    rw [mapItems, run_bind_eq_ok] at run
    obtain ⟨_, _, ⟨⟩, run⟩ := run
    rw [run_bind_eq_ok] at run
    obtain ⟨slot, middle, first, run⟩ := run
    rw [run_bind_eq_ok] at run
    obtain ⟨others, last, run, done⟩ := run
    cases done
    cases item : s.graph.item? list start with
    | none =>
      rw [item] at first
      cases first
      obtain ⟨traces, written, rfl, rfl, within, alike'⟩ := ih alike run
      exact ⟨.hole :: traces, .hole item written, rfl, rfl,
        List.forall_mem_cons.2 ⟨Tree.within_of_slots_eq_nil rfl rfl, within⟩, alike'⟩
    | some v =>
      rw [item, encodeItem_run] at first
      split at first
      next kept =>
        cases first
        obtain ⟨traces, written, rfl, rfl, within, alike'⟩ := ih alike run
        exact ⟨.leaf v :: traces, .leaf item kept written, rfl, rfl,
          List.forall_mem_cons.2 ⟨Tree.within_of_slots_eq_nil rfl rfl, within⟩, alike'⟩
      next dispatched =>
        obtain ⟨trace, writes, rfl, inside, alike'⟩ := h v slot s middle alike first
        obtain ⟨traces, written, rfl, rfl, within, alike''⟩ := ih alike' run
        exact ⟨trace :: traces, .node item (Bool.eq_false_iff.2 dispatched) writes written, rfl,
          rfl, List.forall_mem_cons.2 ⟨inside, within⟩, alike''⟩

theorem records_serializeAt {r : Registry} (fuel depth : Nat) :
    Records r fuel depth (serializeAt fuel depth) := by
  induction fuel generalizing depth with
  | zero =>
    intro v t s s' _ run
    cases run
  | succ fuel ih =>
    intro v t s s' alike run
    rw [serializeAt, run_bind_eq_ok] at run
    obtain ⟨_, _, checked, run⟩ := run
    obtain ⟨within, rfl⟩ := checkDepth_ok checked
    rw [run_bind_eq_ok] at run
    obtain ⟨e, s₁, dispatched, run⟩ := run
    have alike₁ := (Related.dispatch v).keeps alike dispatched
    obtain ⟨rfl, graph⟩ := dispatch_ok alike.left dispatched
    rw [run_bind_eq_ok] at run
    obtain ⟨representation, s₂, represented, run⟩ := run
    have alike₂ := (Related.represent _ v).keeps alike₁ represented
    obtain ⟨ran, accepted⟩ := represent_ok represented
    rw [graph] at ran
    rw [run_bind_eq_ok] at run
    obtain ⟨_, _, ⟨⟩, run⟩ := run
    have allowed : r.Allows depth := by
      rw [Allows, ← within]
      exact (congrArg (·.maxDepth.exceededBy depth) alike.forget_eq.symm :)
    have happens : Visit.Happens r
        ⟨s.graph, v, s.registry.entryFor s.graph v, representation, s₂.graph⟩ :=
      ⟨congrFun (congrFun alike.entryFor_eq s.graph) v, ran⟩
    dsimp only at run
    split at run
    next bytes =>
      cases run
      exact ⟨_, .packed allowed happens bytes, rfl,
        Tree.within_succ fun _ mem => absurd mem List.not_mem_nil, alike₂⟩
    next list =>
      rw [Bool.eq_false_iff.2 list, Bool.false_or, Option.isSome_iff_exists] at accepted
      obtain ⟨items, found⟩ := accepted
      rw [run_bind_eq_ok, found] at run
      obtain ⟨slots, s₃, inner, run⟩ := run
      cases run
      obtain ⟨traces, written, length, rfl, inside, alike₃⟩ := (ih (depth + 1)).items alike₂ inner
      exact ⟨_, .tuple allowed happens (Bool.eq_false_iff.2 list) found length written, rfl,
        Tree.within_succ inside, alike₃⟩

mutual

theorem Writes.onward {r : Registry} (consistent : r.Consistent) {depth : Nat} {g last : Graph}
    {v : Value} {trace : Trace} (h : Writes r depth g v trace last) : Onward r g last := by
  cases h with
  | packed _ happens _ => exact happens.onward consistent
  | tuple _ happens _ _ _ inner => exact (happens.onward consistent).trans (inner.onward consistent)

theorem WritesItems.onward {r : Registry} (consistent : r.Consistent) {list : Value}
    {depth start : Nat} {g last : Graph} {slots : List Trace}
    (h : WritesItems r list depth start g slots last) : Onward r g last := by
  cases h with
  | nil => exact .refl
  | hole _ rest | leaf _ _ rest => exact rest.onward consistent
  | node _ _ first rest => exact (first.onward consistent).trans (rest.onward consistent)

end

/-- What stands in a tree at a depth, as it was when it was written: a leaf is a scalar or bytes, a
node has the tag of an entry, and its data are bytes or a list. -/
def Proper (r : Registry) (g : Graph) (depth : Nat) : Tree → Prop
  | .hole => True
  | .leaf v => g.isLeaf v = true
  | .packed tag data => (∃ e, r.Uses e ∧ e.tag = tag) ∧ r.Allows depth ∧ g.isBytes data = true
  | .tuple tag kind _ => (∃ e, r.Uses e ∧ e.tag = tag) ∧ r.Allows depth ∧
    kind.any (·.isWithin (.numbers .uint8)) = false

mutual

theorem Writes.proper {r : Registry} (consistent : r.Consistent) {depth d : Nat} {g last : Graph}
    {v : Value} {trace : Trace} {u : Tree} (h : Writes r depth g v trace last)
    (has : trace.tree.Has d u) :
    ∃ k, Onward r g k ∧ Onward r k last ∧ r.Proper k (depth + d) u := by
  cases h with
  | packed allowed happens bytes =>
    cases has with
    | root =>
      exact ⟨_, happens.onward consistent, .refl, ⟨_, happens.uses consistent, rfl⟩, allowed, bytes⟩
    | slot mem _ => cases mem
  | tuple allowed happens list found length inner =>
    cases has with
    | root =>
      exact ⟨_, happens.onward consistent, inner.onward consistent,
        ⟨_, happens.uses consistent, rfl⟩, allowed, list⟩
    | slot mem below =>
      obtain ⟨k, left, right, proper⟩ := inner.proper consistent mem below
      refine ⟨k, (happens.onward consistent).trans left, right, ?_⟩
      rw [← Nat.add_assoc, Nat.add_right_comm]
      exact proper

theorem WritesItems.proper {r : Registry} (consistent : r.Consistent) {list : Value}
    {depth start d : Nat} {g last : Graph} {slots : List Trace} {t u : Tree}
    (h : WritesItems r list depth start g slots last) (mem : t ∈ Trace.trees slots)
    (has : t.Has d u) :
    ∃ k, Onward r g k ∧ Onward r k last ∧ r.Proper k (depth + d) u := by
  cases h with
  | nil => cases mem
  | hole _ rest =>
    rcases List.mem_cons.1 mem with rfl | later
    · cases has with
      | root => exact ⟨_, .refl, rest.onward consistent, trivial⟩
      | slot mem _ => cases mem
    · exact rest.proper consistent later has
  | leaf _ kept rest =>
    rcases List.mem_cons.1 mem with rfl | later
    · cases has with
      | root => exact ⟨_, .refl, rest.onward consistent, kept⟩
      | slot mem _ => cases mem
    · exact rest.proper consistent later has
  | node _ _ first rest =>
    rcases List.mem_cons.1 mem with rfl | later
    · obtain ⟨k, left, right, proper⟩ := first.proper consistent has
      exact ⟨k, left, right.trans (rest.onward consistent), proper⟩
    · obtain ⟨k, left, right, proper⟩ := rest.proper consistent later has
      exact ⟨k, (first.onward consistent).trans left, right, proper⟩

end

theorem writes_of_serialize {s s' : Scene} {v : Value} {t : Tree}
    (remembers : s.registry.Remembers) (run : (serialize v).run s = (.ok t, s')) :
    ∃ trace, Writes s.registry 0 s.graph v trace s'.graph ∧ trace.tree = t ∧ t.Within s.stack := by
  obtain ⟨trace, writes, same, within, -⟩ :=
    records_serializeAt s.stack 0 v t s s' remembers.alike run
  exact ⟨trace, writes, same, within⟩

theorem Writes.tag?_tree {r : Registry} {depth : Nat} {g last : Graph} {v : Value} {trace : Trace}
    (h : Writes r depth g v trace last) : ∃ tag, trace.tree.tag? = some tag := by
  cases h <;> exact ⟨_, rfl⟩

theorem Writes.isNode_tree {r : Registry} {depth : Nat} {g last : Graph} {v : Value} {trace : Trace}
    (h : Writes r depth g v trace last) : trace.tree.isNode = true := by
  cases h <;> rfl

/-- Byte arrays stay byte arrays, whatever the codecs of a registry do. -/
def KeepsBytes (r : Registry) : Prop :=
  ∀ g k, Onward r g k → ∀ v, g.isBytes v = true → k.isBytes v = true

/-- As long as byte arrays stay byte arrays, a tree is intact if none of those among its leaves
looks like a node. -/
theorem Writes.intact_iff {r : Registry} (consistent : r.Consistent) (keeps : r.KeepsBytes)
    {g last k : Graph} {v : Value} {trace : Trace} (h : Writes r 0 g v trace last)
    (later : Onward r last k) :
    trace.tree.Intact k ↔
      ∀ d w, trace.tree.Has d (.leaf w) → k.isBytes w = true → k.look w = .ok none := by
  constructor
  · intro intact d w has _
    exact intact d _ has
  · intro leaves d u has
    obtain ⟨k', -, right, proper⟩ := h.proper consistent has
    cases u with
    | hole => trivial
    | leaf w =>
      rcases Bool.or_eq_true_iff.1 proper with scalar | bytes
      · exact Graph.look_of_isPrimitive k scalar
      · exact leaves d w has (keeps _ _ (right.trans later) w bytes)
    | packed tag data => exact keeps _ _ (right.trans later) _ proper.2.2
    | tuple tag kind slots => exact proper.2.2

mutual

theorem onward_embed (r : Registry) (g : Graph) : (t : Tree) → Onward r g (g.embed t).2
  | .hole | .leaf _ => .refl
  | .packed _ _ => .add .refl _
  | .tuple _ _ slots => .add (.add (onward_embedSlots r g slots) _) _

theorem onward_embedSlots (r : Registry) (g : Graph) :
    (slots : List Tree) → Onward r g (g.embedSlots slots).2
  | [] => .refl
  | t :: rest => (onward_embed r g t).trans (onward_embedSlots r (g.embed t).2 rest)

end

end Marshal.Registry
