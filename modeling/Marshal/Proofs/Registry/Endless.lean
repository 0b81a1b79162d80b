import Marshal.Registry.Defaults
import Marshal.Proofs.Action
import Marshal.Proofs.Registry.Containment

namespace Marshal.Registry

open Marshal.Effect
open Marshal.Step
open Marshal.Action (iterate_run_of_items madeList newList_run objectOf?_run)

/-- Values whose representations nest without end: what a codec makes of one is never bytes, and if
it is a list then at one of its positions such a value is found again, whenever that is looked at.
-/
def Endless (r : Registry) (P : Graph → Value → Prop) : Prop :=
  ∀ visit : Visit, visit.Happens r → P visit.before visit.value →
    visit.after.isBytes visit.representation = false ∧
      ∀ items, visit.after.items? visit.representation = some items →
        ∃ i < items.length, ∀ k, Onward r visit.after k →
          ∃ w, k.item? visit.representation i = some w ∧ k.isLeaf w = false ∧ P k w

mutual

theorem Endless.not_writes {r : Registry} {P : Graph → Value → Prop} (endless : r.Endless P)
    (consistent : r.Consistent) {depth : Nat} {g last : Graph} {v : Value} {trace : Trace}
    (h : Writes r depth g v trace last) : ¬ P g v := by
  intro start
  cases h with
  | packed _ happens bytes =>
    obtain ⟨list, -⟩ := endless _ happens start
    rw [bytes] at list
    cases list
  | tuple _ happens _ found length inner =>
    obtain ⟨-, again⟩ := endless _ happens start
    obtain ⟨i, inside, next⟩ := again _ found
    exact endless.not_writesItems consistent inner (Nat.zero_le i) (by omega) next

theorem Endless.not_writesItems {r : Registry} {P : Graph → Value → Prop} (endless : r.Endless P)
    (consistent : r.Consistent) {list : Value} {depth start i : Nat} {g last : Graph}
    {slots : List Trace} (h : WritesItems r list depth start g slots last) (le : start ≤ i)
    (inside : i < start + slots.length)
    (next : ∀ k, Onward r g k → ∃ w, k.item? list i = some w ∧ k.isLeaf w = false ∧ P k w) :
    False := by
  obtain ⟨w, held, node, again⟩ := next g .refl
  cases h with
  | nil => exact absurd inside (Nat.not_lt.2 le)
  | hole absent rest =>
    rw [List.length_cons] at inside
    rcases Nat.eq_or_lt_of_le le with rfl | later
    · cases absent.symm.trans held
    · exact endless.not_writesItems consistent rest later (by omega) next
  | leaf found kept rest =>
    rw [List.length_cons] at inside
    rcases Nat.eq_or_lt_of_le le with rfl | later
    · cases found.symm.trans held
      cases kept.symm.trans node
    · exact endless.not_writesItems consistent rest later (by omega) next
  | node found _ first rest =>
    rw [List.length_cons] at inside
    rcases Nat.eq_or_lt_of_le le with rfl | later
    · cases found.symm.trans held
      exact endless.not_writes consistent first again
    · -- the items before have been written by then, so the position is looked at in a later graph
      exact endless.not_writesItems consistent rest later (by omega) fun k onward =>
        next k ((first.onward consistent).trans onward)

end

/-- What comes out of a call in which a codec fails or a node is too deep: a failure of the
registry, or what an error of a codec without a text raises when it is asked for its message. -/
inductive Thrown (r : Registry) : Fault → Prop where
  | registry (error : RegistryError) : Thrown r (.registry error)
  | wordless {e : Entry} {v : Value} {k : Graph} {kind : ErrorKind} {raised : Fault}
      (used : r.Uses e)
      (threw : ((e.codec.serialize.run v).run k).1 = .error (.wordless kind raised)) :
    Thrown r raised

theorem Raises.thrown {r : Registry} (consistent : r.Consistent) {stack : Nat} {g k : Graph}
    {runs : List CodecRun} {reason : Reason} {fault : Fault} {notices : List Notice}
    (chain : Runs r .serialize (fun _ => False) g runs k)
    (raises : Raises r (fun _ => False) stack k runs reason fault notices)
    (beyond : ∃ depth < stack, r.maxDepth.exceededBy depth = true) : r.Thrown fault := by
  cases raises with
  | tooDeep | passedOn | wrapped => exact .registry _
  | unknownTag names => exact names.elim
  | unreadable names => exact names.elim
  | noRoom admitted =>
    obtain ⟨depth, below, deep⟩ := beyond
    cases deep.symm.trans (admitted depth below)
  | @wordless earlier run kind raised last _ threw =>
    obtain ⟨way, happens⟩ := chain.of_mem (last ▸ List.mem_append_right _ List.mem_cons_self)
    obtain ⟨chosen, ran⟩ := happens
    rw [CodecRun.routine] at ran
    rw [CodecRun.fault?] at threw
    rw [way] at chosen ran threw
    have failed : ((run.entry.codec.serialize.run run.input).run run.before).1 =
        .error (.wordless kind fault) := by
      rw [ran]
      cases result : run.result with
      | error fault =>
        rw [result] at threw
        cases threw
        rfl
      | ok made =>
        rw [result] at threw
        dsimp only at threw
        split at threw <;> cases threw
    exact .wordless (chosen ▸ consistent.uses_entryFor _ _) failed

/-- No tree is ever written for the value. If the stack goes beyond the limit on depth, the call
ends with a failure of a registry, unless a codec throws what has no text. -/
def NeverWritten (s : Scene) (v : Value) : Prop :=
  ∃ fault last, (serialize v).run s = (.error fault, last) ∧
    ((∃ depth < s.stack, s.registry.maxDepth.exceededBy depth = true) → s.registry.Thrown fault)

theorem Endless.neverWritten {P : Graph → Value → Prop} {s : Scene}
    (endless : s.registry.Endless P) (sound : s.registry.Sound) {v : Value} (start : P s.graph v) :
    NeverWritten s v := by
  obtain ⟨-, runs, chain, ends⟩ : ContainedAt s.registry .serialize (fun _ => False) s.stack s
      (serialize v) :=
    Contained.serializeAt sound.consistent (.start _ _) v s sound.remembers.alike
      (.refl (g := s.graph))
  cases run : (serialize v).run s with
  | mk result last =>
    rw [run] at chain ends
    cases result with
    | ok t =>
      obtain ⟨trace, writes, -⟩ := writes_of_serialize sound.remembers run
      exact absurd start (endless.not_writes sound.consistent writes)
    | error fault =>
      obtain ⟨reason, notices, raises, -⟩ := ends
      exact ⟨fault, last, run, raises.thrown sound.consistent chain⟩

/-- One value is an item, a key, a value or a member of another one, which goes to the tuple handler
of lists, maps or sets. A list may also be handed on as it is. -/
inductive Holds (r : Registry) (g : Graph) (v w : Value) : Prop where
  | item {items : List (Option Value)} (list : g.isBytes v = false)
      (found : g.items? v = some items) (mem : some w ∈ items)
      (handled : (r.entryFor g v).codec.serialize.run = Defaults.writeList ∨
        (r.entryFor g v).codec.serialize.run = pure)
  | entry {entries : List (Value × Value)} (map : g.isBytes v = false)
      (found : (g.objectOf? v).map Object.body = some (.map entries))
      (mem : w ∈ entries.map Prod.fst ∨ w ∈ entries.map Prod.snd)
      (handled : (r.entryFor g v).codec.serialize.run = Defaults.writeMap)
      (lists : (r.nearest Class.array.lineage).codec.serialize.run = Defaults.writeList)
  | member {members : List Value} (set : g.isBytes v = false)
      (found : (g.objectOf? v).map Object.body = some (.set members)) (mem : w ∈ members)
      (handled : (r.entryFor g v).codec.serialize.run = Defaults.writeSet)
      (lists : (r.nearest Class.array.lineage).codec.serialize.run = Defaults.writeList)

theorem isPrimitive_of_objectOf? {g : Graph} {v : Value} {o : Object}
    (found : g.objectOf? v = some o) : v.isPrimitive = false := by
  cases v with
  | object => rfl
  | _ => cases found

theorem Holds.exists_object {r : Registry} {g : Graph} {v w : Value} (h : Holds r g v w) :
    ∃ o, g.objectOf? v = some o := by
  cases h with
  | item _ found =>
    unfold Graph.items? at found
    split at found
    next body => exact (Option.map_eq_some_iff.1 body).imp fun _ => And.left
    next => cases found
  | entry _ found | member _ found => exact (Option.map_eq_some_iff.1 found).imp fun _ => And.left

theorem Holds.isLeaf {r : Registry} {g : Graph} {v w : Value} (h : Holds r g v w) :
    g.isLeaf v = false := by
  obtain ⟨o, found⟩ := h.exists_object
  have list : g.isBytes v = false := by
    cases h <;> assumption
  rw [Graph.isLeaf, isPrimitive_of_objectOf? found, list]
  rfl

section MadeList

variable {g : Graph} {ref : Ref} {items : List Value}

theorem isBytes_madeList (found : g.get? ref = some (madeList items)) :
    g.isBytes (.object ref) = false := by
  rw [Graph.isBytes, Graph.kindOf?_of_get? found]
  rfl

theorem items?_madeList (found : g.get? ref = some (madeList items)) :
    g.items? (.object ref) = some (items.map some) :=
  Graph.items?_of_get? found rfl

theorem entryFor_madeList (r : Registry) (found : g.get? ref = some (madeList items)) :
    r.entryFor g (.object ref) = r.nearest Class.array.lineage := by
  rw [entryFor, Graph.classOf?, found]
  rfl

theorem holds_madeList {r : Registry}
    (lists : (r.nearest Class.array.lineage).codec.serialize.run = Defaults.writeList)
    (found : g.get? ref = some (madeList items)) {w : Value} (mem : w ∈ items) :
    Holds r g (.object ref) w :=
  .item (isBytes_madeList found) (items?_madeList found) (List.mem_map_of_mem mem)
    (.inl (entryFor_madeList r found ▸ lists))

end MadeList

theorem writeList_run {g : Graph} {v : Value} {items : List (Option Value)}
    (found : g.items? v = some items) :
    (Defaults.writeList v).run g =
      (.ok (.object g.size), g.add (madeList (items.map (·.getD .undefined)))) := by
  rw [Defaults.writeList, run_bind, iterate_run_of_items found]
  rfl

theorem writeMap_run {g : Graph} {v : Value} {entries : List (Value × Value)}
    (found : (g.objectOf? v).map Object.body = some (.map entries)) :
    (Defaults.writeMap v).run g =
      (.ok (.object (g.size + 2)),
        ((g.add (madeList (entries.map Prod.fst))).add (madeList (entries.map Prod.snd))).add
          (madeList [.object g.size, .object (g.size + 1)])) := by
  rw [Defaults.writeMap, run_bind, objectOf?_run]
  dsimp only
  rw [found]
  dsimp only
  rw [run_bind, newList_run]
  dsimp only
  rw [run_bind, newList_run]
  dsimp only
  rw [Defaults.tuple, newList_run, Graph.size_add, Graph.size_add]

theorem writeSet_run {g : Graph} {v : Value} {members : List Value}
    (found : (g.objectOf? v).map Object.body = some (.set members)) :
    (Defaults.writeSet v).run g =
      (.ok (.object (g.size + 1)),
        (g.add (madeList members)).add (madeList [.object g.size])) := by
  rw [Defaults.writeSet, run_bind, objectOf?_run]
  dsimp only
  rw [found]
  dsimp only
  rw [run_bind, newList_run]
  dsimp only
  rw [Defaults.tuple, newList_run, Graph.size_add]

theorem Holds.representation {r : Registry} {visit : Visit} {w : Value}
    (h : Holds r visit.before visit.value w) (happens : visit.Happens r) :
    visit.after.isBytes visit.representation = false ∧
      ∃ items, visit.after.items? visit.representation = some items ∧
        ∃ i < items.length, ∃ x, visit.after.item? visit.representation i = some x ∧
          (x = w ∨ Holds r visit.after x w) := by
  obtain ⟨before, v, e, representation, after⟩ := visit
  obtain ⟨chosen, ran⟩ := happens
  dsimp only at *
  subst chosen
  cases h with
  | @item items list found mem handled =>
    obtain ⟨i, inside, held⟩ := List.getElem_of_mem mem
    rcases handled with handled | handled
    · rw [handled, writeList_run found] at ran
      cases ran
      have made := Graph.get?_add_size before (madeList (items.map (·.getD .undefined)))
      refine ⟨isBytes_madeList made, _, items?_madeList made, i, by simpa using inside, w, ?_,
        .inl rfl⟩
      rw [Graph.item?_of_items? (items?_madeList made), List.getElem?_map, List.getElem?_map,
        List.getElem?_eq_getElem inside, held]
      rfl
    · rw [handled] at ran
      cases ran
      refine ⟨list, _, found, i, inside, w, ?_, .inl rfl⟩
      rw [Graph.item?_of_items? found, List.getElem?_eq_getElem inside, held]
      rfl
  | @entry entries map found mem handled lists =>
    rw [handled, writeMap_run found] at ran
    cases ran
    have made := Graph.get?_add_size
      ((before.add (madeList (entries.map Prod.fst))).add (madeList (entries.map Prod.snd)))
      (madeList [.object before.size, .object (before.size + 1)])
    rw [Graph.size_add, Graph.size_add] at made
    have items := items?_madeList made
    -- the two lists are still there when the tuple of both has been made
    rcases mem with key | value
    · refine ⟨isBytes_madeList made, _, items, 0, Nat.zero_lt_succ _, .object before.size,
        Graph.item?_of_items? items 0, .inr (holds_madeList lists ?_ key)⟩
      exact (Graph.extends_add _ _) _ _ ((Graph.extends_add _ _) _ _ (Graph.get?_add_size _ _))
    · refine ⟨isBytes_madeList made, _, items, 1, Nat.one_lt_succ_succ _, .object (before.size + 1),
        Graph.item?_of_items? items 1, .inr (holds_madeList lists ?_ value)⟩
      refine (Graph.extends_add _ _) _ _ ?_
      rw [← Graph.size_add before (madeList (entries.map Prod.fst))]
      exact Graph.get?_add_size _ _
  | @member members set found mem handled lists =>
    rw [handled, writeSet_run found] at ran
    cases ran
    have made := Graph.get?_add_size (before.add (madeList members))
      (madeList [.object before.size])
    rw [Graph.size_add] at made
    have items := items?_madeList made
    refine ⟨isBytes_madeList made, _, items, 0, Nat.zero_lt_succ _, .object before.size,
      Graph.item?_of_items? items 0, .inr (holds_madeList lists ?_ mem)⟩
    exact (Graph.extends_add _ _) _ _ (Graph.get?_add_size _ _)

/-- Lists, maps and sets each of which holds another one of them, and codecs that never take one of
them out of what holds it, nor out of its position in a list. -/
structure Cyclic (r : Registry) (g : Graph) (C : Value → Prop) : Prop where
  closed : ∀ v, C v → ∃ w, C w ∧ Holds r g v w
  stable : ∀ h k v w, Onward r g h → Onward r h k → C w → Holds r h v w → Holds r k v w
  placed : ∀ h k list i v w, Onward r g h → Onward r h k → C w → Holds r h v w →
    h.item? list i = some v → k.item? list i = some v

theorem Holds.of_extends {r : Registry} {g k : Graph} (ext : g.Extends k) {v w : Value}
    (h : Holds r g v w) : Holds r k v w := by
  obtain ⟨o, found⟩ : ∃ o, g.objectOf? v = some o := h.exists_object
  cases v with
  | object ref =>
    have same : k.get? ref = g.get? ref := (ext ref o found).trans found.symm
    have object : k.objectOf? (.object ref) = g.objectOf? (.object ref) := same
    have items : k.items? (.object ref) = g.items? (.object ref) := by
      rw [Graph.items?, Graph.items?, object]
    have bytes : k.isBytes (.object ref) = g.isBytes (.object ref) := by
      rw [Graph.isBytes, Graph.isBytes, Graph.kindOf?, Graph.kindOf?, object]
    have entry : r.entryFor k (.object ref) = r.entryFor g (.object ref) := by
      rw [entryFor, entryFor, Graph.classOf?, Graph.classOf?, same]
    cases h with
    | item list found mem handled =>
      exact .item (bytes.trans list) (items.trans found) mem (entry ▸ handled)
    | entry map found mem handled lists =>
      exact .entry (bytes.trans map) (object ▸ found) mem (entry ▸ handled) lists
    | member set found mem handled lists =>
      exact .member (bytes.trans set) (object ▸ found) mem (entry ▸ handled) lists
  | _ => cases found

/-- Codecs that only add objects take nothing out of anything. -/
theorem Cyclic.of_extends {r : Registry} {g : Graph} {C : Value → Prop}
    (adds : ∀ h k, Onward r g h → Onward r h k → h.Extends k)
    (closed : ∀ v, C v → ∃ w, C w ∧ Holds r g v w) : Cyclic r g C where
  closed := closed
  stable h k _ _ since onward _ holds := holds.of_extends (adds h k since onward)
  placed h k list i _ _ since onward _ _ held := by
    have ext := adds h k since onward
    cases found : h.items? list with
    | none =>
      rw [Graph.item?, found] at held
      cases held
    | some items =>
      rw [Graph.item?_of_items? (ext.items? found), ← Graph.item?_of_items? found, held]

theorem Cyclic.endless {r : Registry} (consistent : r.Consistent) {g : Graph} {C : Value → Prop}
    (cyclic : Cyclic r g C) :
    r.Endless fun k v => Onward r g k ∧ ∃ w, C w ∧ Holds r k v w := by
  rintro visit happens ⟨since, w, part, holds⟩
  have visited := since.trans (happens.onward consistent)
  obtain ⟨list, items, found, i, inside, x, held, below⟩ := holds.representation happens
  refine ⟨list, fun items' found' => ?_⟩
  obtain rfl := Option.some.inj (found.symm.trans found')
  -- whichever value is at the position, it holds one of the cycle
  obtain ⟨y, next, again⟩ : ∃ y, C y ∧ Holds r visit.after x y := by
    rcases below with rfl | again
    · obtain ⟨y, next, again⟩ := cyclic.closed x part
      exact ⟨y, next, cyclic.stable g visit.after x y .refl visited next again⟩
    · exact ⟨w, part, again⟩
  refine ⟨i, inside, fun k onward => ?_⟩
  have later := cyclic.stable visit.after k x y visited onward next again
  exact ⟨x, cyclic.placed visit.after k _ i x y visited onward next again held, later.isLeaf,
    visited.trans onward, y, next, later⟩

/-- A value that its codec hands on: it is never a leaf, and whatever tuple is made of it has it at
a position, whenever that is looked at. -/
structure HandedOn (r : Registry) (g : Graph) (v : Value) : Prop where
  dispatched : ∀ k, Onward r g k → k.isLeaf v = false
  itself : ∀ visit : Visit, visit.Happens r → visit.value = v → Onward r g visit.before →
    visit.after.isBytes visit.representation = false ∧
      ∀ items, visit.after.items? visit.representation = some items →
        ∃ i < items.length, ∀ k, Onward r visit.after k →
          k.item? visit.representation i = some v

theorem HandedOn.endless {r : Registry} (consistent : r.Consistent) {g : Graph} {v : Value}
    (h : HandedOn r g v) : r.Endless fun k w => Onward r g k ∧ w = v := by
  rintro visit happens ⟨since, same⟩
  have visited := since.trans (happens.onward consistent)
  obtain ⟨list, held⟩ := h.itself visit happens same since
  refine ⟨list, fun items found => ?_⟩
  obtain ⟨i, inside, held⟩ := held items found
  refine ⟨i, inside, fun k onward => ⟨v, held k onward, ?_⟩⟩
  exact ⟨h.dispatched k (visited.trans onward), visited.trans onward, rfl⟩

end Marshal.Registry
