import Mathlib.Data.List.Nodup
import Mathlib.Logic.Relation
import Marshal.Proofs.Envelope

namespace Marshal

open Marshal.Effect
open Marshal.MessagePack
open Relation (TransGen ReflTransGen)

namespace Effect

variable {ε α β : Type} {f : α → Except ε β}

theorem mapM_cons_of_ok {a : α} {rest : List α} {b : β} (here : f a = .ok b) :
    (a :: rest).mapM f = (rest.mapM f).map (b :: ·) := by
  rw [List.mapM_cons, here]
  cases rest.mapM f <;> rfl

theorem mapM_cons_of_error {a : α} {rest : List α} {e : ε} (here : f a = .error e) :
    (a :: rest).mapM f = .error e := by
  rw [List.mapM_cons, here]
  rfl

theorem map_eq_error_iff {γ : Type} {r : Except ε β} {h : β → γ} {e : ε} :
    r.map h = .error e ↔ r = .error e := by
  cases r <;> simp [Except.map]

theorem map_eq_ok_iff {γ : Type} {r : Except ε β} {h : β → γ} {c : γ} :
    r.map h = .ok c ↔ ∃ b, r = .ok b ∧ h b = c := by
  cases r <;> simp [Except.map]

theorem mapM_eq_error_iff {l : List α} {e : ε} :
    l.mapM f = .error e ↔ ∃ before a after, l = before ++ a :: after ∧
      (∀ b ∈ before, ∃ c, f b = .ok c) ∧ f a = .error e := by
  constructor
  · intro failed
    induction l with
    | nil => cases failed
    | cons first rest ih =>
      cases here : f first with
      | error e' =>
        rw [mapM_cons_of_error here] at failed
        cases failed
        exact ⟨[], first, rest, rfl, fun _ mem => absurd mem List.not_mem_nil, here⟩
      | ok c =>
        rw [mapM_cons_of_ok here, map_eq_error_iff] at failed
        obtain ⟨before, a, after, rfl, passed, failed⟩ := ih failed
        exact ⟨first :: before, a, after, rfl, List.forall_mem_cons.2 ⟨⟨c, here⟩, passed⟩, failed⟩
  · rintro ⟨before, a, after, rfl, passed, failed⟩
    induction before with
    | nil => exact mapM_cons_of_error failed
    | cons b before ih =>
      obtain ⟨⟨c, here⟩, passed⟩ := List.forall_mem_cons.1 passed
      rw [List.cons_append, mapM_cons_of_ok here, map_eq_error_iff]
      exact ih passed

theorem mapM_eq_ok_iff {l : List α} {bs : List β} :
    l.mapM f = .ok bs ↔ List.Forall₂ (fun a b => f a = .ok b) l bs := by
  induction l generalizing bs with
  | nil =>
    rw [List.forall₂_nil_left_iff]
    exact ⟨fun h => by cases h; rfl, fun h => by cases h; rfl⟩
  | cons first rest ih =>
    rw [List.forall₂_cons_left_iff]
    constructor
    · intro passed
      cases here : f first with
      | error e =>
        rw [mapM_cons_of_error here] at passed
        cases passed
      | ok b =>
        rw [mapM_cons_of_ok here, map_eq_ok_iff] at passed
        obtain ⟨bs, passed, rfl⟩ := passed
        exact ⟨b, bs, rfl, ih.1 passed, rfl⟩
    · rintro ⟨b, bs, here, passed, rfl⟩
      rw [mapM_cons_of_ok here, ih.2 passed]
      rfl

end Effect

namespace Graph

/-- The second value stands in a slot of the node that the first one is, and has to be a node in its
turn. -/
def Leads (g : Graph) (v w : Value) : Prop :=
  ∃ tag data items, g.node? v = some (tag, data) ∧ g.isBytes data = false ∧
    g.items? data = some items ∧ some w ∈ items ∧ g.isLeaf w = false

/-- A node that contains itself is reached from the value. -/
def Cyclic (g : Graph) (v : Value) : Prop :=
  ∃ w, ReflTransGen g.Leads v w ∧ TransGen g.Leads w w

theorem data_of_node? {g : Graph} {v data : Value} {tag : String}
    (node : g.node? v = some (tag, data)) :
    (g.isBytes data || (g.items? data).isSome) = true :=
  (look_eq_some_iff.1 (node?_eq_some_iff_look.1 node)).2

theorem Leads.exists_ref {g : Graph} {v w : Value} (leads : g.Leads v w) :
    ∃ ref < g.size, v = .object ref := by
  obtain ⟨tag, data, items, node, -⟩ := leads
  obtain ⟨⟨o, found, -⟩, -⟩ := look_eq_some_iff.1 (node?_eq_some_iff_look.1 node)
  cases v with
  | object ref => exact ⟨ref, lt_size_of_get? found, rfl⟩
  | _ => cases found

end Graph

namespace Tree

mutual

/-- The tree is what the value holds as a node: its tag, and its bytes or what stands in its
slots. -/
def CopyOf (g : Graph) : Tree → Value → Prop
  | packed tag data, v => g.node? v = some (tag, data) ∧ g.isBytes data = true
  | tuple tag kind slots, v => ∃ data items, g.node? v = some (tag, data) ∧
    g.isBytes data = false ∧ g.items? data = some items ∧ kind = g.kindOf? data ∧
      SlotsOf g slots items
  | _, _ => False

def SlotsOf (g : Graph) : List Tree → List (Option Value) → Prop
  | [], items => items = []
  | t :: rest, items => ∃ item others, items = item :: others ∧
    (item = none ∧ t = hole ∨
      (∃ w, item = some w ∧ g.isLeaf w = true ∧ t = leaf w) ∨
      ∃ w, item = some w ∧ g.isLeaf w = false ∧ CopyOf g t w) ∧ SlotsOf g rest others

end

mutual

theorem CopyOf.formed {g : Graph} : (t : Tree) → (v : Value) → t.CopyOf g v →
    ∀ d u, t.Has d u → u.Formed g
  | .packed tag data, v, copy, d, u, has => by
    rcases has with - | ⟨⟨⟩, -⟩
    exact copy.2
  | .tuple tag kind slots, v, copy, d, u, has => by
    obtain ⟨data, items, -, list, -, rfl, inner⟩ := copy
    rcases has with - | ⟨mem, below⟩
    · exact list
    · exact inner.formed slots items _ mem _ _ below

theorem SlotsOf.formed {g : Graph} : (slots : List Tree) → (items : List (Option Value)) →
    SlotsOf g slots items → ∀ t ∈ slots, ∀ d u, t.Has d u → u.Formed g
  | t :: rest, items, copies, t', mem, d, u, has => by
    obtain ⟨item, others, rfl, first, copies⟩ := copies
    rcases List.mem_cons.1 mem with same | mem
    · rw [same] at has
      rcases first with ⟨-, rfl⟩ | ⟨w, -, leaf, rfl⟩ | ⟨w, -, -, copy⟩
      · rcases has with - | ⟨⟨⟩, -⟩
        trivial
      · rcases has with - | ⟨⟨⟩, -⟩
        exact Bool.or_eq_true_iff.1 leaf
      · exact copy.formed t w _ _ has
    · exact copies.formed rest others t' mem d u has

end

mutual

/-- From a value that has a copy no way down goes on without end. -/
theorem CopyOf.acc {g : Graph} : (t : Tree) → (v : Value) → t.CopyOf g v →
    Acc (fun w v => g.Leads v w) v
  | .packed tag data, v, copy => by
    refine .intro _ fun w leads => ?_
    obtain ⟨_, _, _, node, list, -⟩ := leads
    cases copy.1.symm.trans node
    rw [copy.2] at list
    cases list
  | .tuple tag kind slots, v, copy => by
    obtain ⟨data, items, node, list, found, -, inner⟩ := copy
    refine .intro _ fun w leads => ?_
    obtain ⟨_, _, items', node', -, found', mem, other⟩ := leads
    cases node.symm.trans node'
    cases found.symm.trans found'
    exact inner.acc slots items w mem other

theorem SlotsOf.acc {g : Graph} : (slots : List Tree) → (items : List (Option Value)) →
    SlotsOf g slots items → ∀ w, some w ∈ items → g.isLeaf w = false →
    Acc (fun w v => g.Leads v w) w
  | [], items, copies, w, mem, _ => by
    obtain rfl : items = [] := copies
    cases mem
  | t :: rest, items, copies, w, mem, other => by
    obtain ⟨item, others, rfl, first, copies⟩ := copies
    rcases List.mem_cons.1 mem with rfl | mem
    · rcases first with ⟨⟨⟩, -⟩ | ⟨w', same, leaf, -⟩ | ⟨w', same, -, copy⟩
      · cases same
        rw [leaf] at other
        cases other
      · cases same
        exact copy.acc t w
    · exact copies.acc rest others w mem other

end

theorem not_self_of_acc {α : Type} {r : α → α → Prop} {a : α} (acc : Acc r a) : ¬ r a a := by
  induction acc with
  | intro a _ ih => exact fun self => ih a self self

/-- Where no way down goes on without end, no node contains itself. -/
theorem not_cyclic_of_acc {g : Graph} {v : Value} (acc : Acc (fun w v => g.Leads v w) v) :
    ¬ g.Cyclic v := by
  rintro ⟨w, reached, cycle⟩
  have acc : Acc (fun w v => g.Leads v w) w := by
    clear cycle
    induction reached with
    | refl => exact acc
    | tail _ step ih => exact ih.inv step
  exact not_self_of_acc acc.transGen (Relation.transGen_swap.2 cycle)

theorem CopyOf.not_cyclic {g : Graph} {t : Tree} {v : Value} (copy : t.CopyOf g v) :
    ¬ g.Cyclic v :=
  not_cyclic_of_acc (copy.acc t v)

end Tree

namespace Envelope

/-- How far a value is checked: nothing but the fuel ends the search, the value is a node with a
copy, or something in a slot is neither a leaf nor a node. The last two outcomes stay with more
fuel, whatever the path to the value. -/
inductive Settled {α : Type} : Except Fault α → Except Fault α → Prop where
  | open (r : Except Fault α) : Settled (.error .outOfRange) r
  | accepted (a : α) : Settled (.ok a) (.ok a)
  | refused (path path' : String) : Settled (.error (notNode path)) (.error (notNode path'))

namespace Settled

variable {α β : Type}

theorem map {r r' : Except Fault α} (h : Settled r r') (f : α → β) :
    Settled (r.map f) (r'.map f) := by
  cases h with
  | «open» => exact .open _
  | accepted a => exact .accepted (f a)
  | refused path path' => exact .refused path path'

theorem mapM {f f' : α → Except Fault β} {l : List α} (h : ∀ a ∈ l, Settled (f a) (f' a)) :
    Settled (l.mapM f) (l.mapM f') := by
  induction l with
  | nil => exact .accepted []
  | cons a rest ih =>
    obtain ⟨here, there⟩ := List.forall_mem_cons.1 h
    generalize hr : f a = r at here
    generalize hr' : f' a = r' at here
    cases here with
    | «open» =>
      rw [mapM_cons_of_error hr]
      exact .open _
    | accepted b =>
      rw [mapM_cons_of_ok hr, mapM_cons_of_ok hr']
      exact (ih there).map _
    | refused path path' =>
      rw [mapM_cons_of_error hr, mapM_cons_of_error hr']
      exact .refused path path'

theorem outOfRange {r : Except Fault α} (h : Settled r (.error .outOfRange)) :
    r = .error .outOfRange := by
  cases h
  rfl

end Settled

section Check

variable {g : Graph} {v : Value} {fuel fuel' : Nat} {path : String}

theorem check_none (node : g.node? v = none) (fuel : Nat) (path : String) :
    check g (fuel + 1) path v = .error (notNode path) := by
  rw [check, node]

theorem check_items {tag : String} {data : Value} {items : List (Option Value)}
    (node : g.node? v = some (tag, data)) (list : g.isBytes data = false)
    (found : g.items? data = some items) (fuel : Nat) (path : String) :
    check g (fuel + 1) path v =
      (items.zipIdx.mapM (slotOf g fuel path)).map (.tuple tag (g.kindOf? data)) := by
  rw [check, node]
  dsimp only
  rw [list, if_neg Bool.false_ne_true, found, Option.getD_some]
  change (items.zipIdx.mapM (slotOf g fuel path) >>= _) = _
  cases items.zipIdx.mapM (slotOf g fuel path) <;> rfl

/-- What a value is to the check: no node, a node of bytes, or a node of slots. -/
theorem node_cases (g : Graph) (v : Value) :
    g.node? v = none ∨
      (∃ tag data, g.node? v = some (tag, data) ∧ g.isBytes data = true) ∨
      ∃ tag data items, g.node? v = some (tag, data) ∧ g.isBytes data = false ∧
        g.items? data = some items := by
  cases node : g.node? v with
  | none => exact .inl rfl
  | some pair =>
    obtain ⟨tag, data⟩ := pair
    cases bytes : g.isBytes data with
    | true => exact .inr (.inl ⟨tag, data, rfl, bytes⟩)
    | false =>
      have list := Graph.data_of_node? node
      rw [bytes, Bool.false_or, Option.isSome_iff_exists] at list
      obtain ⟨items, found⟩ := list
      exact .inr (.inr ⟨tag, data, items, rfl, bytes, found⟩)

theorem slotOf_settled (h : ∀ path path' w, Settled (check g fuel path w) (check g fuel' path' w))
    (path path' : String) (item : Option Value × Nat) :
    Settled (slotOf g fuel path item) (slotOf g fuel' path' item) := by
  obtain ⟨_ | w, i⟩ := item
  · exact .accepted _
  · change Settled (encoded g fuel _ w) (encoded g fuel' _ w)
    unfold encoded
    split
    · exact .accepted _
    · exact h _ _ w

theorem check_settled (le : fuel ≤ fuel') (path path' : String) (v : Value) :
    Settled (check g fuel path v) (check g fuel' path' v) := by
  induction fuel generalizing fuel' path path' v with
  | zero => exact .open _
  | succ fuel ih =>
    obtain ⟨fuel', rfl⟩ := Nat.exists_eq_add_one_of_ne_zero (Nat.ne_zero_of_lt le)
    rcases node_cases g v with
      node | ⟨tag, data, node, bytes⟩ | ⟨tag, data, items, node, list, found⟩
    · rw [check_none node, check_none node]
      exact .refused path path'
    · rw [check_bytes node bytes, check_bytes node bytes]
      exact .accepted _
    · rw [check_items node list found, check_items node list found]
      refine (Settled.mapM fun item _ => ?_).map _
      exact slotOf_settled (fun p p' w => ih (Nat.le_of_succ_le_succ le) p p' w) path path' item

theorem slots_of_accepted {items : List (Option Value)} {slots : List Tree} {i : Nat}
    (copies : ∀ path w t, check g fuel path w = .ok t → t.CopyOf g w)
    (passed : List.Forall₂ (fun item t => slotOf g fuel path item = .ok t) (items.zipIdx i) slots) :
    Tree.SlotsOf g slots items := by
  induction items generalizing i slots with
  | nil =>
    cases passed
    rfl
  | cons item others ih =>
    rw [List.zipIdx_cons, List.forall₂_cons_left_iff] at passed
    obtain ⟨t, rest, first, passed, rfl⟩ := passed
    refine ⟨item, others, rfl, ?_, ih passed⟩
    cases item with
    | none =>
      cases first
      exact .inl ⟨rfl, rfl⟩
    | some w =>
      change encoded g fuel _ w = .ok t at first
      cases leaf : g.isLeaf w with
      | true =>
        rw [encoded_leaf leaf] at first
        cases first
        exact .inr (.inl ⟨w, rfl, leaf, rfl⟩)
      | false =>
        rw [encoded_node leaf] at first
        exact .inr (.inr ⟨w, rfl, leaf, copies _ w t first⟩)

theorem copyOf_of_check {t : Tree} (accepted : check g fuel path v = .ok t) : t.CopyOf g v := by
  induction fuel generalizing path v t with
  | zero => cases accepted
  | succ fuel ih =>
    rcases node_cases g v with
      node | ⟨tag, data, node, bytes⟩ | ⟨tag, data, items, node, list, found⟩
    · rw [check_none node] at accepted
      cases accepted
    · rw [check_bytes node bytes] at accepted
      cases accepted
      exact ⟨node, bytes⟩
    · rw [check_items node list found, map_eq_ok_iff] at accepted
      obtain ⟨slots, passed, rfl⟩ := accepted
      refine ⟨data, items, node, list, found, rfl, ?_⟩
      exact slots_of_accepted (fun path w t => ih) (mapM_eq_ok_iff.1 passed)

/-- The second value is found where the second path says, going down from the first value through
slots. -/
inductive Located (g : Graph) : String → Value → String → Value → Prop where
  | here (path : String) (v : Value) : Located g path v path v
  | slot {path path' tag : String} {v w u data : Value} {items : List (Option Value)} {i : Nat}
      (node : g.node? v = some (tag, data)) (list : g.isBytes data = false)
      (found : g.items? data = some items) (held : items[i]? = some (some w))
      (other : g.isLeaf w = false) (below : Located g (slotPath path i) w path' u) :
    Located g path v path' u

theorem exists_slot_of_error {items : List (Option Value)} {p : Option Value × Nat} {fault : Fault}
    (mem : p ∈ items.zipIdx) (failed : slotOf g fuel path p = .error fault) :
    ∃ w i, p = (some w, i) ∧ items[i]? = some (some w) ∧ g.isLeaf w = false ∧
      check g fuel (slotPath path i) w = .error fault := by
  obtain ⟨item, i⟩ := p
  have held := List.mk_mem_zipIdx_iff_getElem?.1 mem
  cases item with
  | none => cases failed
  | some w =>
    change encoded g fuel _ w = _ at failed
    cases leaf : g.isLeaf w with
    | true =>
      rw [encoded_leaf leaf] at failed
      cases failed
    | false =>
      rw [encoded_node leaf] at failed
      exact ⟨w, i, rfl, held, leaf, failed⟩

/-- A check fails for want of fuel, or because of a value that is neither a leaf nor a node. -/
theorem check_error {fault : Fault} (failed : check g fuel path v = .error fault) :
    fault = .outOfRange ∨
      ∃ path' w, Located g path v path' w ∧ g.node? w = none ∧ fault = notNode path' := by
  induction fuel generalizing path v with
  | zero =>
    cases failed
    exact .inl rfl
  | succ fuel ih =>
    rcases node_cases g v with
      node | ⟨tag, data, node, bytes⟩ | ⟨tag, data, items, node, list, found⟩
    · rw [check_none node] at failed
      cases failed
      exact .inr ⟨path, v, .here path v, node, rfl⟩
    · rw [check_bytes node bytes] at failed
      cases failed
    · rw [check_items node list found, map_eq_error_iff, mapM_eq_error_iff] at failed
      obtain ⟨before, p, after, split, -, failed⟩ := failed
      obtain ⟨w, i, rfl, held, other, failed⟩ :=
        exists_slot_of_error (split ▸ List.mem_append_right _ List.mem_cons_self) failed
      refine (ih failed).imp id ?_
      rintro ⟨path', u, located, none, rfl⟩
      exact ⟨path', u, .slot node list found held other located, none, rfl⟩

end Check

section Endless

/-- So much fuel is enough to check the value. -/
def Suffices (g : Graph) (fuel : Nat) (v : Value) : Prop := check g fuel "$" v ≠ .error .outOfRange

/-- The check of the first value gets stuck in that of the second, which takes less fuel. -/
def Descends (g : Graph) (v w : Value) : Prop :=
  g.Leads v w ∧ ∀ fuel, Suffices g (fuel + 1) v → Suffices g fuel w

variable {g : Graph} {v w : Value} {fuel : Nat} {path : String}

theorem not_suffices_iff (path : String) :
    ¬ Suffices g fuel v ↔ check g fuel path v = .error .outOfRange := by
  rw [Suffices, not_not]
  constructor <;> intro stuck
  · have settled := check_settled (g := g) (le_refl fuel) path "$" v
    rw [stuck] at settled
    exact settled.outOfRange
  · have settled := check_settled (g := g) (le_refl fuel) "$" path v
    rw [stuck] at settled
    exact settled.outOfRange

theorem Suffices.mono {more : Nat} (h : Suffices g fuel v) (le : fuel ≤ more) :
    Suffices g more v := by
  intro stuck
  have settled := check_settled (g := g) le "$" "$" v
  rw [stuck] at settled
  exact h settled.outOfRange

theorem exists_descends (stuck : ¬ Suffices g (fuel + 1) v) :
    ∃ w, Descends g v w ∧ ¬ Suffices g fuel w := by
  have failed := (not_suffices_iff "$").1 stuck
  rcases node_cases g v with node | ⟨tag, data, node, bytes⟩ | ⟨tag, data, items, node, list, found⟩
  · rw [check_none node] at failed
    cases failed
  · rw [check_bytes node bytes] at failed
    cases failed
  · rw [check_items node list found, map_eq_error_iff, mapM_eq_error_iff] at failed
    obtain ⟨before, p, after, split, passed, failed⟩ := failed
    obtain ⟨w, i, rfl, held, other, failed⟩ :=
      exists_slot_of_error (split ▸ List.mem_append_right _ List.mem_cons_self) failed
    refine ⟨w, ⟨⟨tag, data, items, node, list, found, List.mem_of_getElem? held, other⟩, ?_⟩,
      (not_suffices_iff _).2 failed⟩
    intro fuel' enough
    by_contra stuck'
    refine enough ?_
    -- with less fuel the node is stuck as it was, with more the slots before still pass
    rcases Nat.le_total fuel' fuel with less | more
    · exact (not_suffices_iff "$").1 fun there => stuck (there.mono (Nat.succ_le_succ less))
    · rw [check_items node list found, map_eq_error_iff, mapM_eq_error_iff]
      refine ⟨before, (some w, i), after, split, fun b mem => ?_, ?_⟩
      · obtain ⟨t, here⟩ := passed b mem
        have settled := slotOf_settled (fun p p' w => check_settled (g := g) more p p' w) "$" "$" b
        rw [here] at settled
        generalize hr : slotOf g fuel' "$" b = r at settled
        cases settled
        exact ⟨t, rfl⟩
      · change encoded g fuel' _ w = _
        rw [encoded_node other]
        exact (not_suffices_iff _).1 stuck'

theorem exists_chain (stuck : ¬ Suffices g fuel v) :
    ∃ l : List Value, l.length = fuel ∧ (v :: l).IsChain (Descends g) := by
  induction fuel generalizing v with
  | zero => exact ⟨[], rfl, .singleton v⟩
  | succ fuel ih =>
    obtain ⟨w, descends, stuck⟩ := exists_descends stuck
    obtain ⟨l, length, chain⟩ := ih stuck
    exact ⟨w :: l, congrArg (· + 1) length, .cons_cons descends chain⟩

/-- What leads further is an object, and there are only so many of these. -/
theorem length_le_of_nodup {l : List Value} (chain : (v :: l).IsChain (Descends g))
    (distinct : (v :: l).Nodup) : l.length ≤ g.size := by
  have objects : (v :: l).dropLast ⊆ (List.range g.size).map Value.object := by
    clear distinct
    induction l generalizing v with
    | nil => exact List.nil_subset _
    | cons w rest ih =>
      obtain ⟨descends, below⟩ := List.isChain_cons_cons.1 chain
      obtain ⟨ref, inside, rfl⟩ := descends.1.exists_ref
      rw [List.dropLast_cons_cons]
      refine List.cons_subset.2 ⟨?_, ih below⟩
      exact List.mem_map_of_mem (List.mem_range.2 inside)
  have bound := ((distinct.sublist (List.dropLast_sublist _)).subperm objects).length_le
  rwa [List.length_dropLast, List.length_cons, Nat.add_sub_cancel, List.length_map,
    List.length_range] at bound

theorem exists_less (down : TransGen (Descends g) v w) (enough : Suffices g fuel v) :
    ∃ less < fuel, Suffices g less w := by
  induction down with
  | single step =>
    cases fuel with
    | zero => exact absurd rfl enough
    | succ fuel => exact ⟨fuel, Nat.lt_succ_self _, step.2 fuel enough⟩
  | tail _ step ih =>
    obtain ⟨less, lt, enough⟩ := ih
    cases less with
    | zero => exact absurd rfl enough
    | succ less => exact ⟨less, Nat.lt_of_succ_lt lt, step.2 less enough⟩

theorem not_suffices_of_loop (loop : TransGen (Descends g) v v) : ¬ Suffices g fuel v := by
  induction fuel using Nat.strong_induction_on with
  | h fuel ih =>
    intro enough
    obtain ⟨less, lt, enough⟩ := exists_less loop enough
    exact ih less lt enough

/-- A check that has more fuel than there are objects is only stuck in a node that contains itself,
and then with any fuel. -/
theorem endless_of_stuck (stuck : ¬ Suffices g fuel v) (more : g.size < fuel) :
    g.Cyclic v ∧ ∀ fuel path, check g fuel path v = .error .outOfRange := by
  obtain ⟨l, length, chain⟩ := exists_chain stuck
  have above : (v :: l).Pairwise (TransGen (Descends g)) :=
    List.isChain_iff_pairwise.1 (chain.imp fun _ _ => TransGen.single)
  -- otherwise all values on the way down differ
  obtain ⟨u, mem, loop⟩ : ∃ u ∈ v :: l, TransGen (Descends g) u u := by
    by_contra none
    refine Nat.not_lt.2 (length_le_of_nodup chain ?_) (length ▸ more)
    refine above.imp_of_mem fun {a b} mem _ descends same => none ⟨a, mem, ?_⟩
    exact same ▸ descends
  have reached : ReflTransGen (Descends g) v u := by
    rcases List.mem_cons.1 mem with rfl | mem
    · exact .refl
    · exact ((List.pairwise_cons.1 above).1 u mem).to_reflTransGen
  have leads : Descends g ≤ g.Leads := fun _ _ step => step.1
  refine ⟨⟨u, ReflTransGen.mono leads _ _ reached, TransGen.mono leads _ _ loop⟩,
    fun fuel path => (not_suffices_iff path).1 fun enough => ?_⟩
  rcases Relation.reflTransGen_iff_eq_or_transGen.1 reached with rfl | down
  · exact not_suffices_of_loop loop enough
  · obtain ⟨_, -, enough⟩ := exists_less down enough
    exact not_suffices_of_loop loop enough

end Endless

/-- What the reading of a buffer comes to, whatever the buffer holds. -/
inductive Outcome (buffer : ByteArray) (g g' : Graph) : Except Fault Tree → Prop where
  /-- The buffer is no message, and the reason is passed on. -/
  | unreadable {fault : Fault} (failed : (decode .envelope buffer).run g = (.error fault, g')) :
    Outcome buffer g g' (.error (invalid (reason fault)))
  /-- The message is a tree, of which no node contains itself. -/
  | accepted {v : Value} {t : Tree} (read : (decode .envelope buffer).run g = (.ok v, g'))
      (copy : t.CopyOf g' v) (formed : ∀ d u, t.Has d u → u.Formed g')
      (finite : ¬ g'.Cyclic v) : Outcome buffer g g' (.ok t)
  /-- Where the path leads there is neither a leaf nor a node. -/
  | refused {v w : Value} {path : String}
      (read : (decode .envelope buffer).run g = (.ok v, g')) (located : Located g' "$" v path w)
      (other : g'.node? w = none) : Outcome buffer g g' (.error (notNode path))
  /-- A node of the message contains itself, and no fuel is enough to check it. -/
  | endless {v : Value} (read : (decode .envelope buffer).run g = (.ok v, g'))
      (cyclic : g'.Cyclic v) (stuck : ∀ fuel path, check g' fuel path v = .error .outOfRange) :
    Outcome buffer g g' (.error .outOfRange)

theorem unpack_run_eq (buffer : ByteArray) (g : Graph) :
    (unpack buffer).run g =
      match (decode .envelope buffer).run g with
      | (.ok v, g') => (check g' (g'.size + 2) "$" v, g')
      | (.error fault, g') => (.error (invalid (reason fault)), g') := by
  rw [unpack, run_bind]
  cases read : (decode .envelope buffer).run g with
  | mk result g' =>
    cases result with
    | ok v =>
      rw [run_tryCatch read]
      dsimp only
      rw [run_bind, run_get]
      dsimp only
      cases check g' (g'.size + 2) "$" v <;> rfl
    | error fault =>
      rw [run_tryCatch_error read]
      rfl

/-- Reading ends with a well-formed tree or with the refusal of the envelope, but for one sort of
message: one in which a node contains itself is checked without end, unless it is refused before. -/
theorem unpack_outcome (buffer : ByteArray) (g : Graph) :
    ∃ result g', (unpack buffer).run g = (result, g') ∧ Outcome buffer g g' result := by
  cases run : (unpack buffer).run g with
  | mk result g' =>
    refine ⟨result, g', rfl, ?_⟩
    rw [unpack_run_eq] at run
    cases read : (decode .envelope buffer).run g with
    | mk decoded g₁ =>
      rw [read] at run
      cases decoded with
      | error fault =>
        cases run
        exact .unreadable read
      | ok v =>
        cases run
        have more : g'.size < g'.size + 2 := by omega
        cases checked : check g' (g'.size + 2) "$" v with
        | ok t =>
          have copy := copyOf_of_check checked
          exact .accepted read copy (copy.formed t v) copy.not_cyclic
        | error fault =>
          rcases check_error checked with rfl | ⟨path, w, located, other, rfl⟩
          · obtain ⟨cyclic, stuck⟩ := endless_of_stuck ((not_suffices_iff "$").2 checked) more
            exact .endless read cyclic stuck
          · exact .refused read located other

namespace Sample

/-- A node whose data is a list under the number 1. The list has one node, and the data of that node
is a pointer to the number 1. -/
def selfContained : ByteArray :=
  Bytes.ofList ([0x82, 0xa3, 0x74, 0x61, 0x67, 0xa1, 0x78, 0xa4, 0x64, 0x61, 0x74, 0x61] ++
    [0xd6, 0x69, 0, 0, 0, 1, 0x91, 0x82, 0xa3, 0x74, 0x61, 0x67, 0xa1, 0x79] ++
    [0xa4, 0x64, 0x61, 0x74, 0x61, 0xd6, 0x70, 0, 0, 0, 1])

/-- The envelope that contains itself is not refused: its check runs out of range. -/
theorem self_contained_not_refused :
    ((unpack selfContained).run Graph.initial).1 = .error .outOfRange ∧
      ∀ reason, Fault.outOfRange ≠ invalid reason := by
  have ends : (((unpack selfContained).run Graph.initial).1.map fun _ => ()) =
      .error .outOfRange := by
    decide +kernel
  exact ⟨map_eq_error_iff.1 ends, nofun⟩

end Sample

end Envelope

end Marshal
