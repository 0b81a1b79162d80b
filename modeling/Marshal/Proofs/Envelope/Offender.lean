import Marshal.Proofs.Envelope.Acceptance
import Marshal.Proofs.Forall2

namespace Marshal

open Marshal.Effect
open Marshal.MessagePack

namespace Graph

/-- An object of which reading gives a text for its tag, and bytes or a list for its data. -/
structure IsNode (g : Graph) (v : Value) (tag : String) (data : Value) : Prop where
  object : ∃ o, g.objectOf? v = some o ∧ o.body ≠ .function ∧
    o.read? v "tag" = some (.ok (.string tag)) ∧ o.read? v "data" = some (.ok data)
  shaped : g.isBytes data = true ∨ ∃ items, g.items? data = some items

theorem node?_eq_some_iff {g : Graph} {v data : Value} {tag : String} :
    g.node? v = some (tag, data) ↔ g.IsNode v tag data := by
  rw [node?_eq_some_iff_look, look_eq_some_iff, Bool.or_eq_true, Option.isSome_iff_exists]
  exact ⟨fun ⟨object, shaped⟩ => ⟨object, shaped⟩, fun node => ⟨node.object, node.shaped⟩⟩

theorem node?_eq_none_iff {g : Graph} {v : Value} :
    g.node? v = none ↔ ∀ tag data, ¬ g.IsNode v tag data := by
  simp only [← node?_eq_some_iff, Option.eq_none_iff_forall_ne_some, Prod.forall, ne_eq]

/-- A node all slots of which hold scalars, bytes or well-formed nodes. -/
inductive WellFormed (g : Graph) : Value → Prop where
  | packed {v data : Value} {tag : String} (node : g.IsNode v tag data)
      (bytes : g.isBytes data = true) : WellFormed g v
  | tuple {v data : Value} {tag : String} {items : List (Option Value)}
      (node : g.IsNode v tag data) (list : g.isBytes data = false)
      (found : g.items? data = some items)
      (slots : ∀ w, some w ∈ items → g.isLeaf w = false → WellFormed g w) : WellFormed g v

/-- The path leads from the first value to the second one, through slots of nodes. Scalars and bytes
in slots are not gone into. -/
inductive Reaches (g : Graph) : Value → List Nat → Value → Prop where
  | here (v : Value) : Reaches g v [] v
  | slot {v w u data : Value} {tag : String} {items : List (Option Value)} {i : Nat}
      {path : List Nat} (node : g.IsNode v tag data) (list : g.isBytes data = false)
      (found : g.items? data = some items) (held : items[i]? = some (some w))
      (other : g.isLeaf w = false) (below : Reaches g w path u) : Reaches g v (i :: path) u

/-- Where the path leads there has to be a node and is none. -/
def Offends (g : Graph) (v : Value) (path : List Nat) (u : Value) : Prop :=
  g.Reaches v path u ∧ ∀ tag data, ¬ g.IsNode u tag data

theorem Reaches.wellFormed {g : Graph} {v u : Value} {path : List Nat}
    (reaches : g.Reaches v path u) (whole : g.WellFormed v) : g.WellFormed u := by
  induction reaches with
  | here => exact whole
  | slot node list found held other below ih =>
    have read := node?_eq_some_iff.2 node
    cases whole with
    | packed node' bytes =>
      cases read.symm.trans (node?_eq_some_iff.2 node')
      rw [bytes] at list
      cases list
    | tuple node' list' found' slots =>
      cases read.symm.trans (node?_eq_some_iff.2 node')
      cases found.symm.trans found'
      exact ih (slots _ (List.mem_of_getElem? held) other)

theorem WellFormed.exists_node {g : Graph} {v : Value} (h : g.WellFormed v) :
    ∃ tag data, g.IsNode v tag data := by
  cases h with
  | packed node bytes => exact ⟨_, _, node⟩
  | tuple node list found slots => exact ⟨_, _, node⟩

theorem WellFormed.not_offends {g : Graph} {v u : Value} {path : List Nat} (h : g.WellFormed v) :
    ¬ g.Offends v path u := by
  rintro ⟨reaches, none⟩
  obtain ⟨tag, data, node⟩ := (reaches.wellFormed h).exists_node
  exact none tag data node

end Graph

namespace Envelope

/-- The first path comes no later than the second one in a walk from left to right that comes to a
value before it goes into it. -/
inductive NoLater : List Nat → List Nat → Prop where
  | above (path : List Nat) : NoLater [] path
  | left {i j : Nat} (before : i < j) (path path' : List Nat) : NoLater (i :: path) (j :: path')
  | within {path path' : List Nat} (i : Nat) (below : NoLater path path') :
    NoLater (i :: path) (i :: path')

/-- The text of a path that starts where the given text says. -/
def spell (start : String) (path : List Nat) : String := path.foldl slotPath start

variable {g : Graph} {v : Value} {fuel : Nat}

theorem wellFormed_of_check {start : String} {t : Tree} (accepted : check g fuel start v = .ok t) :
    g.WellFormed v := by
  induction fuel generalizing start v t with
  | zero => cases accepted
  | succ fuel ih =>
    rcases node_cases g v with
      node | ⟨tag, data, node, bytes⟩ | ⟨tag, data, items, node, list, found⟩
    · rw [check_none node] at accepted
      cases accepted
    · exact .packed (Graph.node?_eq_some_iff.1 node) bytes
    · rw [check_items node list found, map_eq_ok_iff] at accepted
      obtain ⟨slots, passed, -⟩ := accepted
      refine .tuple (Graph.node?_eq_some_iff.1 node) list found fun w mem other => ?_
      obtain ⟨i, held⟩ := List.getElem?_of_mem mem
      have placed : (some w, i) ∈ items.zipIdx := List.mk_mem_zipIdx_iff_getElem?.2 held
      obtain ⟨t', -, checked⟩ := exists_of_forall₂_left (mapM_eq_ok_iff.1 passed) placed
      change encoded g fuel _ w = .ok t' at checked
      rw [encoded_node other] at checked
      exact ih checked

theorem mem_before_of_lt {α : Type} {items : List α} {before after : List (α × Nat)} {a b : α}
    {i j : Nat} (split : items.zipIdx = before ++ (a, i) :: after) (held : items[j]? = some b)
    (less : j < i) : (b, j) ∈ before := by
  have place : i = before.length := by
    have here : items.zipIdx[before.length]? = some (a, i) := by
      rw [split, List.getElem?_append_right (le_refl _), Nat.sub_self]
      rfl
    rw [List.getElem?_zipIdx, Option.map_eq_some_iff] at here
    obtain ⟨_, -, same⟩ := here
    have := congrArg Prod.snd same
    omega
  have there : items.zipIdx[j]? = some (b, j) := by
    rw [List.getElem?_zipIdx, held, Nat.zero_add]
    rfl
  rw [split, List.getElem?_append_left (place ▸ less)] at there
  exact List.mem_of_getElem? there

/-- A check that is not short of fuel fails because of the first value that has to be a node and is
none. -/
theorem offends_of_check {start : String} {fault : Fault}
    (failed : check g fuel start v = .error fault) :
    fault = .outOfRange ∨ ∃ path u, fault = notNode (spell start path) ∧ g.Offends v path u ∧
      ∀ path' u', g.Offends v path' u' → NoLater path path' := by
  induction fuel generalizing start v with
  | zero =>
    cases failed
    exact .inl rfl
  | succ fuel ih =>
    rcases node_cases g v with
      node | ⟨tag, data, node, bytes⟩ | ⟨tag, data, items, node, list, found⟩
    · rw [check_none node] at failed
      cases failed
      exact .inr ⟨[], v, rfl, ⟨.here v, Graph.node?_eq_none_iff.1 node⟩, fun _ _ _ => .above _⟩
    · rw [check_bytes node bytes] at failed
      cases failed
    · rw [check_items node list found, map_eq_error_iff, mapM_eq_error_iff] at failed
      obtain ⟨before, p, after, split, passed, failed⟩ := failed
      obtain ⟨w, i, rfl, held, other, failed⟩ :=
        exists_slot_of_error (split ▸ List.mem_append_right _ List.mem_cons_self) failed
      refine (ih failed).imp id ?_
      rintro ⟨path, u, rfl, offends, first⟩
      have isNode := Graph.node?_eq_some_iff.1 node
      refine ⟨i :: path, u, rfl, ⟨.slot isNode list found held other offends.1, offends.2⟩, ?_⟩
      rintro path' u' ⟨reaches, none⟩
      cases reaches with
      | here => exact absurd isNode (none tag data)
      | @slot _ w' _ _ _ _ j path' node' list' found' held' other' below =>
        cases node.symm.trans (Graph.node?_eq_some_iff.2 node')
        cases found.symm.trans found'
        rcases Nat.lt_trichotomy i j with less | rfl | more
        · exact .left less _ _
        · cases held.symm.trans held'
          exact .within i (first path' u' ⟨below, none⟩)
        · obtain ⟨t, checked⟩ := passed _ (mem_before_of_lt split held' more)
          change encoded g fuel _ w' = .ok t at checked
          rw [encoded_node other'] at checked
          exact absurd ⟨below, none⟩ (wellFormed_of_check checked).not_offends

/-- A finite value passes the check exactly if it is a node all slots of which hold, on every level,
scalars, bytes or nodes. Otherwise the fault names the first value, from left to right and from the
outside in, that has to be a node and is none. The buffers that the value is read from are accepted
and refused so. -/
theorem check_blames_first (g : Graph) (v : Value) (finite : ¬ g.Cyclic v) :
    ((∃ t, check g (g.size + 2) "$" v = .ok t) ↔ g.WellFormed v) ∧
      (¬ g.WellFormed v → ∃ path u,
        check g (g.size + 2) "$" v = .error (notNode (spell "$" path)) ∧ g.Offends v path u ∧
          ∀ path' u', g.Offends v path' u' → NoLater path path') ∧
      ∀ buffer g₀, (decode .envelope buffer).run g₀ = (.ok v, g) →
        (unpack buffer).run g₀ = (check g (g.size + 2) "$" v, g) := by
  have enough : Suffices g (g.size + 2) v := by
    by_contra stuck
    exact finite (endless_of_stuck stuck (by omega)).1
  have accepts (whole : g.WellFormed v) : ∃ t, check g (g.size + 2) "$" v = .ok t := by
    cases checked : check g (g.size + 2) "$" v with
    | ok t => exact ⟨t, rfl⟩
    | error fault =>
      rcases offends_of_check checked with rfl | ⟨path, u, -, offends, -⟩
      · exact absurd checked enough
      · exact absurd offends whole.not_offends
  refine ⟨⟨fun ⟨t, accepted⟩ => wellFormed_of_check accepted, accepts⟩, fun broken => ?_,
    fun buffer g₀ read => ?_⟩
  · cases checked : check g (g.size + 2) "$" v with
    | ok t => exact absurd (wellFormed_of_check checked) broken
    | error fault =>
      rcases offends_of_check checked with rfl | ⟨path, u, rfl, offends, first⟩
      · exact absurd checked enough
      · exact ⟨path, u, rfl, offends, first⟩
  · rw [unpack_run_eq, read]

namespace Sample

def crooked : Graph :=
  ⟨#[{ kind := some .object, fields := [("x", .nat 1)] },
    { kind := some .array, body := .list [some (.object 0)] }, Graph.nodeRecord "list" (.object 1),
    { kind := some .array, body := .list [] },
    { kind := some .array, body := .list [some (.nat 1), some (.object 2), some (.object 3)] },
    Graph.nodeRecord "list" (.object 4)]⟩

theorem acc_crooked : Acc (fun w v => crooked.Leads v w) (.object 5) := by
  have scalar (v : Value) (none : crooked.node? v = none) :
      Acc (fun w v => crooked.Leads v w) v := by
    refine .intro _ fun w leads => ?_
    obtain ⟨tag, data, items, node, -⟩ := leads
    cases none.symm.trans node
  have inner : Acc (fun w v => crooked.Leads v w) (.object 2) := by
    refine .intro _ fun w leads => ?_
    obtain ⟨tag, data, items, node, -, found, mem, -⟩ := leads
    cases (rfl : crooked.node? (.object 2) = some ("list", .object 1)).symm.trans node
    cases (rfl : crooked.items? (.object 1) = some [some (.object 0)]).symm.trans found
    obtain rfl : w = .object 0 := by simpa using mem
    exact scalar _ rfl
  refine .intro _ fun w leads => ?_
  obtain ⟨tag, data, items, node, -, found, mem, other⟩ := leads
  cases (rfl : crooked.node? (.object 5) = some ("list", .object 4)).symm.trans node
  cases (rfl : crooked.items? (.object 4) =
    some [some (.nat 1), some (.object 2), some (.object 3)]).symm.trans found
  obtain rfl | rfl | rfl : w = .nat 1 ∨ w = .object 2 ∨ w = .object 3 := by simpa using mem
  · cases other
  · exact inner
  · exact scalar _ rfl

theorem record_offends : crooked.Offends (.object 5) [1, 0] (.object 0) := by
  refine ⟨.slot (Graph.node?_eq_some_iff.1 rfl) rfl rfl (w := .object 2) rfl rfl
    (.slot (Graph.node?_eq_some_iff.1 rfl) rfl rfl (w := .object 0) rfl rfl (.here _)), ?_⟩
  exact Graph.node?_eq_none_iff.1 rfl

theorem list_offends : crooked.Offends (.object 5) [2] (.object 3) := by
  refine ⟨.slot (Graph.node?_eq_some_iff.1 rfl) rfl rfl (w := .object 3) rfl rfl (.here _), ?_⟩
  exact Graph.node?_eq_none_iff.1 rfl

/-- The record comes before the bare list, though it is further in. -/
theorem record_blamed : ¬ crooked.Cyclic (.object 5) ∧ ¬ crooked.WellFormed (.object 5) ∧
    crooked.Offends (.object 5) [1, 0] (.object 0) ∧
    crooked.Offends (.object 5) [2] (.object 3) ∧
    check crooked 8 "$" (.object 5) = .error (notNode "$.data[1].data[0]") ∧
    ∃ path u, check crooked 8 "$" (.object 5) = .error (notNode (spell "$" path)) ∧
      crooked.Offends (.object 5) path u ∧ NoLater path [1, 0] ∧ NoLater path [2] := by
  have finite : ¬ crooked.Cyclic (.object 5) := Tree.not_cyclic_of_acc acc_crooked
  have broken : ¬ crooked.WellFormed (.object 5) := fun whole => whole.not_offends record_offends
  obtain ⟨-, blame, -⟩ := check_blames_first crooked (.object 5) finite
  obtain ⟨path, u, refused, offends, first⟩ := blame broken
  exact ⟨finite, broken, record_offends, list_offends, rfl, path, u, refused, offends,
    first _ _ record_offends, first _ _ list_offends⟩

end Sample

end Envelope

end Marshal
