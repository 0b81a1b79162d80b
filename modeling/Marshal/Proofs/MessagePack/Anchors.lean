import Marshal.Proofs.MessagePack.Read

namespace Marshal.MessagePack

open Marshal.Effect
open Marshal.MessagePack.Reader (gives_byte)

def idOf? (shared : List Anchor) (a : Anchor) : Option Nat :=
  (shared.findIdx? (· == a)).map (· + 1)

section Numbers

variable {shared later : List Anchor} {a a' : Anchor} {id : Nat}

theorem idOf?_eq_some_iff :
    idOf? shared a = some id ↔ ∃ i, shared.findIdx? (· == a) = some i ∧ i + 1 = id :=
  Option.map_eq_some_iff

theorem idOf?_inj (h : idOf? shared a = some id) (h' : idOf? shared a' = some id) : a = a' := by
  obtain ⟨i, found, rfl⟩ := idOf?_eq_some_iff.1 h
  obtain ⟨j, found', same⟩ := idOf?_eq_some_iff.1 h'
  obtain rfl : j = i := Nat.succ.inj same
  obtain ⟨inside, here, -⟩ := List.findIdx?_eq_some_iff_getElem.1 found
  obtain ⟨_, here', -⟩ := List.findIdx?_eq_some_iff_getElem.1 found'
  exact (eq_of_beq here).symm.trans (eq_of_beq here')

theorem idOf?_of_prefix (le : shared <+: later) (h : idOf? shared a = some id) :
    idOf? later a = some id := by
  obtain ⟨i, found, same⟩ := idOf?_eq_some_iff.1 h
  obtain ⟨more, rfl⟩ := le
  refine idOf?_eq_some_iff.2 ⟨i, ?_, same⟩
  rw [List.findIdx?_append, found]
  rfl

theorem le_length_of_idOf? (h : idOf? shared a = some id) : id ≤ shared.length := by
  obtain ⟨i, found, rfl⟩ := idOf?_eq_some_iff.1 h
  exact (List.findIdx?_eq_some_iff_getElem.1 found).1

theorem render_anchor (shared : List Anchor) (a : Anchor) (pieces : List Piece) :
    render shared (pieces ++ [.anchor a]) =
      ((idOf? shared a).elim [] fun id => [0xd6, anchorType] ++ be 4 id) ++
        render shared pieces := by
  rw [render_append]
  congr 1
  rw [idOf?, render, List.reverse_singleton, List.flatMap_singleton, Piece.render]
  cases shared.findIdx? (· == a) <;> rfl

end Numbers

namespace Cursor

def anchored? (c : Cursor) (id : Nat) : Option Anchored :=
  (c.anchorIds.lookup id).bind (c.anchors[·]?)

/-- Every number has a place of its own. -/
structure Tidy (c : Cursor) : Prop where
  inside : ∀ id place, c.anchorIds.lookup id = some place → place < c.anchors.size
  apart : ∀ id id' place, c.anchorIds.lookup id = some place →
    c.anchorIds.lookup id' = some place → id = id'

def remember (c : Cursor) (id : Nat) (found : Anchored) : Cursor :=
  { c with anchors := c.anchors.push found, anchorIds := (id, c.anchors.size) :: c.anchorIds }

def store (c : Cursor) (place : Nat) (found : Anchored) : Cursor :=
  { c with anchors := c.anchors.setIfInBounds place found }

variable {c : Cursor} {id : Nat} {found : Anchored} {place : Nat}

theorem lookup_remember (c : Cursor) (id : Nat) (found : Anchored) (other : Nat) :
    (c.remember id found).anchorIds.lookup other =
      if other = id then some c.anchors.size else c.anchorIds.lookup other := by
  rw [remember, List.lookup_cons]
  by_cases same : other = id
  · rw [if_pos same, beq_iff_eq.2 same]
  · rw [if_neg same, beq_eq_false_iff_ne.2 same]

theorem Tidy.remember (h : c.Tidy) (id : Nat) (found : Anchored) : (c.remember id found).Tidy := by
  have size : (c.remember id found).anchors.size = c.anchors.size + 1 := Array.size_push _
  constructor
  · intro other place here
    rw [lookup_remember] at here
    rw [size]
    split at here
    next =>
      cases here
      exact Nat.lt_succ_self _
    next => exact (h.inside other place here).trans (Nat.lt_succ_self _)
  · intro left right place here here'
    rw [lookup_remember] at here here'
    -- the new place is past all places before
    split at here <;> split at here'
    next same same' => exact same.trans same'.symm
    next =>
      cases here
      exact absurd (h.inside right _ here') (Nat.lt_irrefl _)
    next =>
      cases here'
      exact absurd (h.inside left _ here) (Nat.lt_irrefl _)
    next => exact h.apart left right place here here'

theorem Tidy.anchored?_remember (h : c.Tidy) (id : Nat) (found : Anchored) (other : Nat) :
    (c.remember id found).anchored? other =
      if other = id then some found else c.anchored? other := by
  rw [anchored?, lookup_remember, anchored?]
  split
  next => exact Array.getElem?_push_size
  next =>
    cases here : c.anchorIds.lookup other with
    | none => rfl
    | some place =>
      have inside := h.inside other place here
      exact (Array.getElem?_push_lt inside).trans (Array.getElem?_eq_getElem inside).symm

theorem Tidy.store (h : c.Tidy) (place : Nat) (found : Anchored) : (c.store place found).Tidy := by
  refine ⟨fun id place' here => ?_, h.apart⟩
  have size : (c.store place found).anchors.size = c.anchors.size := Array.size_setIfInBounds
  rw [size]
  exact h.inside id place' here

theorem Tidy.anchored?_store (h : c.Tidy) (here : c.anchorIds.lookup id = some place)
    (found : Anchored) (other : Nat) :
    (c.store place found).anchored? other =
      if other = id then some found else c.anchored? other := by
  change (c.anchorIds.lookup other).bind ((c.anchors.setIfInBounds place found)[·]?) = _
  split
  next same =>
    rw [same, here]
    exact Array.getElem?_setIfInBounds_self_of_lt (h.inside id place here)
  next different =>
    rw [anchored?]
    cases there : c.anchorIds.lookup other with
    | none => rfl
    | some place' =>
      have apart : place ≠ place' := by
        rintro rfl
        exact different (h.apart _ _ _ there here)
      exact Array.getElem?_setIfInBounds_ne apart

end Cursor

section Pointers

variable {src : ByteArray} {c : Cursor} {pos id fuel : Nat} {g : Graph}

theorem gives_anchorId (h : Bytes.At src pos (be 4 id)) (small : id < 2 ^ 32) :
    Gives (Reader.anchorId src) { c with pos := pos + 4 } g id { c with pos := pos + 4 } g := by
  have length : (be 4 id).length = 4 := Bytes.length_toBigEndian 4 id
  have inside : pos + 4 ≤ src.size := by
    rcases h.le with none | le
    · rw [none] at length
      cases length
    · rwa [length] at le
  have value : Bytes.bigEndian (Bytes.slice src pos 4).toList = id := by
    have slice := h.slice
    rw [length] at slice
    rw [Bytes.toList_eq, slice, Bytes.toList_data_ofList, be, Bytes.bigEndian_toBigEndian]
    exact Nat.mod_eq_of_lt small
  refine .bind (.get _ g) ?_
  dsimp only
  rw [if_neg (by omega), Nat.add_sub_cancel, value]
  exact .pure _ _ g

theorem gives_value_extension {type : UInt8} {action : Reader Value} {v : Value} {t : Cursor}
    {g' : Graph} (h : Bytes.At src pos ([0xd6, type] ++ be 4 id))
    (other : ¬ (type = tableType ∨ type = columnType))
    (known : ∀ data, Reader.extension? src (Reader.value src .whole fuel) type data = some action)
    (read : Gives action { c with pos := pos + 6 } g v t g') :
    Gives (Reader.value src .whole (fuel + 1)) { c with pos } g v t g' := by
  have rest : Bytes.At src (pos + 1) (type :: be 4 id) := h.tail
  have sized := run_sized (c := c) g rest other (known _)
  rw [show (be 4 id).length = 4 from Bytes.length_toBigEndian 4 id] at sized
  exact ((gives_byte g h).run_bind.trans sized).trans read

theorem exists_place {found : Anchored} (here : c.anchored? id = some found) :
    ∃ place, c.anchorIds.lookup id = some place ∧ c.anchors[place]? = some found :=
  Option.bind_eq_some_iff.1 here

theorem gives_placeholder (src : ByteArray) (t : Cursor) (g : Graph) :
    ∃ o, Gives (Reader.placeholder src) t g (.object g.size) t (g.add o) := by
  unfold Reader.placeholder
  refine Exists.imp (fun o read => .bind (.get t g) read) ?_
  dsimp only
  split
  · exact ⟨_, .lift rfl⟩
  · split
    · exact ⟨_, .lift rfl⟩
    · split <;> exact ⟨_, .lift rfl⟩

/-- What nothing pointed at while it was read is remembered as what it was read as. -/
theorem gives_anchor (here : Bytes.At src (pos + 2) (be 4 id)) (small : id < 2 ^ 32) :
    ∃ target o, ∀ {read : Reader Value} {w : Value} {c' : Cursor} {last : Nat} {g' : Graph},
      Gives read { c.remember id { value := target } with pos := pos + 6 } (g.add o) w
        { c' with pos := last } g' →
      (∃ other, c'.anchors[c.anchors.size]? = some { value := other }) →
      Gives (Reader.anchor src read) { c with pos := pos + 6 } g w
        { c'.store c.anchors.size { value := w } with pos := last } g' := by
  obtain ⟨o, made⟩ := gives_placeholder src { c with pos := pos + 6 } g
  refine ⟨.object g.size, o, fun {read w c' last g'} ran ⟨other, unused⟩ => ?_⟩
  refine .bind (gives_anchorId here small)
    (.bind made (.bind (.get _ _) (.bind (.modify _ _ _) ?_)))
  refine .bind ran (.bind (.get _ _) ?_)
  dsimp only
  rw [unused]
  exact .bind (.modify _ _ _) (.pure _ _ _)

end Pointers

theorem gives_shareId (a : Anchor) (draft : Draft) (k : Graph) :
    ∃ id later, Gives (shareId a) draft k id { draft with shared := later } k ∧
      draft.shared <+: later ∧ later.length ≤ draft.shared.length + 1 ∧
      idOf? later a = some id := by
  cases found : draft.shared.findIdx? (· == a) with
  | some i =>
    refine ⟨i + 1, draft.shared, .bind (.get draft k) ?_, List.prefix_refl _, Nat.le_succ _,
      idOf?_eq_some_iff.2 ⟨i, found, rfl⟩⟩
    rw [found]
    exact .pure _ _ k
  | none =>
    have last : (draft.shared ++ [a]).findIdx? (· == a) = some draft.shared.length := by
      rw [List.findIdx?_append, found]
      simp
    refine ⟨_, draft.shared ++ [a], .bind (.get draft k) ?_, List.prefix_append _ _,
      List.length_append.le, idOf?_eq_some_iff.2 ⟨_, last, rfl⟩⟩
    rw [found]
    exact .bind (.set _ _ k) (.pure _ _ k)

end Marshal.MessagePack
