import Mathlib.Algebra.Group.Nat.Defs
import Marshal.MessagePack.Writer
import Marshal.Proofs.Action
import Marshal.Proofs.Bytes
import Marshal.Proofs.Class
import Marshal.Proofs.Effect
import Marshal.Proofs.Tree

namespace Marshal.MessagePack

open Marshal.Effect

/-- What a piece becomes in the message, once it is known which anchors are shared. -/
def Piece.render (shared : List Anchor) : Piece → List UInt8
  | .bytes stretch => stretch.data.toList
  | .anchor a =>
    match shared.findIdx? (· == a) with
    | some i => [0xd6, anchorType] ++ be 4 (i + 1)
    | none => []

/-- The bytes of pieces of which the last comes first. -/
def render (shared : List Anchor) (pieces : List Piece) : List UInt8 :=
  pieces.reverse.flatMap (Piece.render shared)

theorem render_append (shared : List Anchor) (pieces earlier : List Piece) :
    render shared (pieces ++ earlier) = render shared earlier ++ render shared pieces := by
  rw [render, List.reverse_append, List.flatMap_append]
  rfl

theorem finish_eq (d : Draft) : finish d = Bytes.ofList (render d.shared d.pieces) := by
  rw [finish, render]
  generalize d.pieces.reverse = pieces
  rw [← ByteArray.empty_append (b := Bytes.ofList (pieces.flatMap (Piece.render d.shared)))]
  generalize ByteArray.empty = out
  induction pieces generalizing out with
  | nil => exact ByteArray.append_empty.symm
  | cons piece rest ih =>
    rw [List.foldl_cons, ih, List.flatMap_cons, Bytes.ofList_append, ← ByteArray.append_assoc]
    congr 1
    cases piece with
    | bytes bytes => rfl
    | anchor a =>
      dsimp only [Piece.render]
      cases d.shared.findIdx? (· == a) with
      | some i => rfl
      | none => exact ByteArray.append_empty.symm

/-- The writer adds these bytes to the message, whatever is shared, and does nothing else. -/
def Utters (x : Writer Unit) (l : List UInt8) : Prop :=
  ∀ d g, ∃ pieces, Gives x d g () { d with pieces := pieces ++ d.pieces } g ∧
    ∀ shared, render shared pieces = l

namespace Utters

variable {l l' : List UInt8} {x y : Writer Unit}

theorem bind (hx : Utters x l) (hy : Utters y l') : Utters (do x; y) (l ++ l') := by
  intro d g
  obtain ⟨pieces, first, out⟩ := hx d g
  obtain ⟨more, second, out'⟩ := hy { d with pieces := pieces ++ d.pieces } g
  refine ⟨more ++ pieces, ?_, fun shared => by rw [render_append, out, out']⟩
  rw [List.append_assoc]
  exact first.bind second

theorem emitBytes (bytes : ByteArray) : Utters (emitBytes bytes) bytes.data.toList :=
  fun d g => ⟨[.bytes bytes], .modify _ d g, fun _ => List.append_nil _⟩

theorem emit (l : List UInt8) : Utters (emit l) l := emitBytes (Bytes.ofList l)

end Utters

/-- The writer adds these bytes to the message and leaves the values as they are. -/
def Emits (x : Writer Unit) (g : Graph) (l : List UInt8) : Prop :=
  ∀ d, ∃ d', Gives x d g () d' g ∧ finish d' = finish d ++ Bytes.ofList l

theorem Utters.emits {x : Writer Unit} {l : List UInt8} (h : Utters x l) (g : Graph) :
    Emits x g l := by
  intro d
  obtain ⟨pieces, gives, out⟩ := h d g
  refine ⟨_, gives, ?_⟩
  rw [finish_eq, finish_eq, render_append, out, Bytes.ofList_append]

namespace Emits

variable {g : Graph} {l l' : List UInt8} {x y : Writer Unit}

theorem nothing (g : Graph) : Emits (pure ()) g [] := by
  intro d
  exact ⟨d, .pure () d g, ByteArray.append_empty.symm⟩

theorem bind (hx : Emits x g l) (hy : Emits y g l') : Emits (do x; y) g (l ++ l') := by
  intro d
  obtain ⟨d', first, out⟩ := hx d
  obtain ⟨d'', second, out'⟩ := hy d'
  exact ⟨d'', first.bind second, by rw [out', out, Bytes.ofList_append, ByteArray.append_assoc]⟩

theorem after {α : Type} {action : Action α} {a : α} {f : α → Writer Unit}
    (ran : action.run g = (.ok a, g)) (hf : Emits (f a) g l) :
    Emits (monadLift action >>= f) g l := by
  intro d
  obtain ⟨d', second, out⟩ := hf d
  exact ⟨d', (Gives.lift ran).bind second, out⟩

end Emits

def textBytes (s : String) : List UInt8 := textHeader s.toUTF8.size ++ s.toUTF8.data.toList

def binaryBytes (bytes : ByteArray) : List UInt8 := binaryHeader bytes.size ++ bytes.data.toList

def scalarBytes (d : Dialect) : Value → List UInt8
  | .null => [nilByte]
  | .bool b => [boolByte b]
  | .number x => numberBytes d x
  | .string s => textBytes s
  | _ => undefinedBytes

theorem utters_writeText (s : String) : Utters (writeText s) (textBytes s) :=
  .bind (.emit _) (.emitBytes _)

theorem utters_writeBinary (bytes : ByteArray) : Utters (writeBinary bytes) (binaryBytes bytes) :=
  .bind (.emit _) (.emitBytes _)

theorem utters_write_scalar {d : Dialect} {v : Value} (scalar : v.isPrimitive = true)
    (whole : ∀ units, v ≠ .brokenText units) (fuel : Nat) :
    Utters (write d (fuel + 1) v) (scalarBytes d v) := by
  cases v with
  | null | undefined | bool | number => exact .emit _
  | string s => exact utters_writeText s
  | brokenText units => exact absurd rfl (whole units)
  | bigint | symbol | object => cases scalar

/-- The classes that are written in a way of their own, besides those of plain objects, lists, maps
and number arrays. -/
def special : List Class :=
  [.table, .column, .date, .set, .error, .pattern, .arrayBuffer, .dataView, .reserved]

theorem isWithin_special {c a : Class} (within : c.isWithin a = true)
    (apart : ∀ b ∈ special, a.isWithin b = false ∧ b.isWithin a = false) :
    ∀ b ∈ special, c.isWithin b = false :=
  fun b mem => Class.isWithin_eq_false within (apart b mem).1 (apart b mem).2

theorem isWithin_array_special {c : Class} (within : c.isWithin .array = true) :
    ∀ b ∈ special, c.isWithin b = false := isWithin_special within (by decide)

theorem isWithin_typedArray_special {c : Class} (within : c.isWithin .typedArray = true) :
    ∀ b ∈ special, c.isWithin b = false := isWithin_special within (by decide)

/-- What is written of an object: whole values keep track of what they have met. -/
def framed (d : Dialect) (ref : Ref) (body : Writer Unit) : Writer Unit :=
  match d with
  | .whole => once (.object ref) body
  | .envelope => body

theorem gives_write_list {d : Dialect} {g g' : Graph} {t t' : Draft} {ref : Ref}
    {kind : Option Class} {items : List (Option Value)}
    (found : g.get? ref = some { kind, body := .list items })
    (array : kind.all (·.isWithin .array) = true) {fuel : Nat}
    (ran : Gives (framed d ref do
      emit (listHeader items.length)
      (items.map (·.getD .undefined)).forM (write d fuel)) t g () t' g') :
    Gives (write d (fuel + 1) (.object ref)) t g () t' g' := by
  rw [write]
  refine .bind (.lift (Action.objectOf?_run _ g)) ?_
  rw [Graph.objectOf?_object, found]
  rw [← List.length_map (·.getD .undefined)] at ran
  cases kind with
  | none => exact ran
  | some c =>
    have within : c.isWithin .array = true := array
    have other : c ≠ .object ∧ c ≠ .map := by
      constructor <;> rintro rfl <;> revert within <;> decide
    -- a class of lists is none of the classes that the writer tests for before lists
    have numbers : c.isWithin .typedArray = false :=
      Class.isWithin_eq_false within (by decide) (by decide)
    have special := isWithin_array_special within
    simp only [MessagePack.special, List.forall_mem_cons] at special
    obtain ⟨table, column, date, set, error, pattern, arrayBuffer, dataView, reserved, -⟩ := special
    have written : writtenClass? { kind := some c, body := .list items } = some c := rfl
    simp only [written, table, column, date, set, error, pattern, arrayBuffer, dataView, reserved,
      numbers, Option.any_some, beq_iff_eq, Option.some.injEq, other.1, other.2, if_false,
      Bool.false_eq_true]
    -- the items of a list are at hand, so looking them up adds nothing
    cases d <;> dsimp only <;> split <;> exact ran

def writeNumbers (d : Dialect) (c : Class) (dtype : DType) (bytes : ByteArray) : Writer Unit :=
  if c = .bytes then writeBinary bytes
  else
    match d with
    | .whole => writeStorage (storageCode (some c) dtype) bytes
    | .envelope => writeBinary bytes

theorem gives_write_numbers {d : Dialect} {g g' : Graph} {t t' : Draft} {ref : Ref} {o : Object}
    (found : g.get? ref = some o) {c : Class} (kind : o.kind = some c)
    (within : c.isWithin .typedArray = true) {dtype : DType} {bytes : ByteArray}
    (body : o.body = .numbers dtype bytes) {fuel : Nat}
    (ran : Gives (framed d ref (writeNumbers d c dtype bytes)) t g () t' g') :
    Gives (write d (fuel + 1) (.object ref)) t g () t' g' := by
  have other : c ≠ .object ∧ c ≠ .array ∧ c ≠ .map := by
    refine ⟨?_, ?_, ?_⟩ <;> rintro rfl <;> revert within <;> decide
  -- the class that an array is written as may be hidden, but is never one of these
  have written : ∀ c' ∈ [Class.object, .array, .map], ¬ writtenClass? o = some c' := by
    intro c' mem same
    unfold writtenClass? at same
    split at same
    next => cases same
    next =>
      rw [kind, Option.some.injEq] at same
      subst same
      simp [other] at mem
  simp only [List.forall_mem_cons] at written
  have special := isWithin_typedArray_special within
  simp only [MessagePack.special, List.forall_mem_cons] at special
  obtain ⟨table, column, date, set, error, pattern, arrayBuffer, dataView, reserved, -⟩ := special
  rw [write]
  refine .bind (.lift (Action.objectOf?_run _ g)) ?_
  rw [Graph.objectOf?_object, found]
  simp only [kind, body, table, column, date, set, error, pattern, arrayBuffer, within,
    Option.any_some, beq_iff_eq, written.1, written.2.1, written.2.2.1, if_false, if_true,
    Bool.false_eq_true, Option.some.injEq]
  exact ran

theorem emits_write_list {g : Graph} {ref : Ref} {kind : Option Class} {items : List (Option Value)}
    (found : g.get? ref = some { kind, body := .list items })
    (array : kind.all (·.isWithin .array) = true) {fuel : Nat} {l : List UInt8}
    (inner : Emits ((items.map (·.getD .undefined)).forM (write .envelope fuel)) g l) :
    Emits (write .envelope (fuel + 1) (.object ref)) g (listHeader items.length ++ l) := by
  intro d
  obtain ⟨d', gives, out⟩ := ((Utters.emit (listHeader items.length)).emits g).bind inner d
  exact ⟨d', gives_write_list found array gives, out⟩

theorem emits_write_bytes {g : Graph} {v : Value} {bytes : ByteArray}
    (array : g.isBytes v = true) (found : g.bytes? v = some bytes) (fuel : Nat) :
    Emits (write .envelope (fuel + 1) v) g (binaryBytes bytes) := by
  obtain ⟨c, kind, within⟩ := (Option.any_eq_true _ _).1 array
  cases v with
  | object ref =>
    obtain ⟨o, object, kind⟩ := Option.bind_eq_some_iff.1 kind
    have body : o.body = .numbers .uint8 bytes := by
      rw [Graph.bytes?, object, Option.map_some] at found
      split at found
      next same =>
        cases found
        exact Option.some.inj same
      next => cases found
    intro d
    obtain ⟨d', gives, out⟩ := (utters_writeBinary bytes).emits g d
    have numbers : c.isWithin .typedArray = true := Class.isWithin_trans within (by decide)
    have plain : writeNumbers .envelope c .uint8 bytes = writeBinary bytes := ite_self _
    refine ⟨d', gives_write_numbers object kind numbers body ?_, out⟩
    rw [plain]
    exact gives
  | _ => cases kind

def nodeBytes (tag : String) (data : List UInt8) : List UInt8 :=
  fieldsHeader 2 ++ (textBytes "tag" ++ textBytes tag ++ (textBytes "data" ++ data))

theorem emits_write_record {g : Graph} {ref : Ref} {tag : String} {data : Value} {l : List UInt8}
    {fuel : Nat} (found : g.get? ref = some (Graph.nodeRecord tag data))
    (inner : Emits (write .envelope (fuel + 1) data) g l) :
    Emits (write .envelope (fuel + 2) (.object ref)) g (nodeBytes tag l) := by
  have name : Emits (write .envelope (fuel + 1) (.string tag)) g (textBytes tag) :=
    (utters_writeText tag).emits g
  have fields := Emits.bind (.bind ((utters_writeText "tag").emits g) name)
    (.bind (.bind ((utters_writeText "data").emits g) inner) (.nothing g))
  rw [List.append_nil] at fields
  rw [write]
  refine .after (Action.objectOf?_run _ g) ?_
  rw [Graph.objectOf?_object, found]
  exact .bind ((Utters.emit _).emits g) fields

end Marshal.MessagePack

namespace Marshal

namespace Tree

mutual

/-- How far records and lists are nested in what stands for a tree. -/
def height : Tree → Nat
  | hole | leaf _ => 1
  | packed .. => 2
  | tuple _ _ slots => slotsHeight slots + 2

def slotsHeight : List Tree → Nat
  | [] => 0
  | t :: rest => max t.height (slotsHeight rest)

end

end Tree

def Graph.Stores (g : Graph) (v : Value) : Prop :=
  ∃ bytes, g.bytes? v = some bytes ∧ bytes.size < 2 ^ 32

/-- What stands in a tree that a message can hold: scalars without broken texts, byte arrays and
lists, with no more bytes and items than a header can count. -/
def Tree.Sendable (g : Graph) : Tree → Prop
  | hole => True
  | leaf v => v.isPrimitive = true ∧ (∀ units, v ≠ .brokenText units) ∧
      (∀ s, v = .string s → s.toUTF8.size < 2 ^ 32) ∨ g.isBytes v = true ∧ g.Stores v
  | packed tag data => tag.toUTF8.size < 2 ^ 32 ∧ g.isBytes data = true ∧ g.Stores data
  | tuple tag kind slots => tag.toUTF8.size < 2 ^ 32 ∧
      kind.all (·.isWithin .array) = true ∧ slots.length < 2 ^ 32

def Tree.Messageable (g : Graph) (t : Tree) : Prop := ∀ d u, t.Has d u → u.Sendable g

theorem Tree.Messageable.slot {g : Graph} {t u : Tree} (h : t.Messageable g) (mem : u ∈ t.slots) :
    u.Messageable g :=
  fun d n below => h (d + 1) n (.slot mem below)

namespace MessagePack

mutual

def treeBytes (g : Graph) : Tree → List UInt8
  | .hole => undefinedBytes
  | .leaf v => ((g.bytes? v).map binaryBytes).getD (scalarBytes .envelope v)
  | .packed tag data => nodeBytes tag (((g.bytes? data).map binaryBytes).getD [])
  | .tuple tag _ slots => nodeBytes tag (listHeader slots.length ++ slotsBytes g slots)

def slotsBytes (g : Graph) : List Tree → List UInt8
  | [] => []
  | t :: rest => treeBytes g t ++ slotsBytes g rest

end

theorem bytes?_of_isPrimitive (g : Graph) {v : Value} (scalar : v.isPrimitive = true) :
    g.bytes? v = none := by
  cases v with
  | object => cases scalar
  | _ => rfl

theorem length_embedSlots (g : Graph) (slots : List Tree) :
    (g.embedSlots slots).1.length = slots.length := by
  induction slots generalizing g with
  | nil => rfl
  | cons t rest ih => exact congrArg (· + 1) (ih (g.embed t).2)

mutual

theorem emits_tree {g k h : Graph} {fuel : Nat} (old : g.Extends k) : (t : Tree) →
    (h.embed t).2.Extends k → t.Messageable g → t.height ≤ fuel →
    Emits (write .envelope fuel ((h.embed t).1.getD .undefined)) k (treeBytes g t)
  | .hole, _, _, room => by
    obtain ⟨fuel, rfl⟩ : ∃ more, fuel = more + 1 := Nat.exists_eq_add_of_le' room
    exact (utters_write_scalar rfl (fun _ same => by cases same) fuel).emits k
  | .leaf v, _, sendable, room => by
    obtain ⟨fuel, rfl⟩ : ∃ more, fuel = more + 1 := Nat.exists_eq_add_of_le' room
    rcases sendable 0 _ (.root _) with ⟨scalar, whole, -⟩ | ⟨array, bytes, found, -⟩
    · rw [treeBytes, bytes?_of_isPrimitive g scalar]
      exact (utters_write_scalar scalar whole fuel).emits k
    · rw [treeBytes, found]
      exact emits_write_bytes (old.isBytes array) (old.bytes? found) fuel
  | .packed tag data, ext, sendable, room => by
    obtain ⟨fuel, rfl⟩ : ∃ more, fuel = more + 2 := Nat.exists_eq_add_of_le' room
    obtain ⟨-, array, bytes, found, -⟩ := sendable 0 _ (.root _)
    rw [treeBytes, found]
    exact emits_write_record ext.get?_size
      (emits_write_bytes (old.isBytes array) (old.bytes? found) fuel)
  | .tuple tag kind slots, ext, sendable, room => by
    obtain ⟨more, rfl⟩ : ∃ more, fuel = more + (Tree.slotsHeight slots + 2) :=
      Nat.exists_eq_add_of_le' room
    obtain ⟨-, array, -⟩ := sendable 0 _ (.root _)
    have list : ((h.embedSlots slots).2.addList kind (h.embedSlots slots).1).2.Extends k :=
      Graph.Extends.of_add ext
    have items := emits_slots old slots list.of_add (fun _ mem => sendable.slot mem)
      (Nat.le_add_left _ more)
    rw [treeBytes, ← length_embedSlots h slots]
    exact emits_write_record ext.get?_size (emits_write_list list.get?_size array items)

theorem emits_slots {g k h : Graph} {fuel : Nat} (old : g.Extends k) : (slots : List Tree) →
    (h.embedSlots slots).2.Extends k → (∀ t ∈ slots, t.Messageable g) →
    Tree.slotsHeight slots ≤ fuel →
    Emits (((h.embedSlots slots).1.map (·.getD .undefined)).forM (write .envelope fuel)) k
      (slotsBytes g slots)
  | [], _, _, _ => .nothing k
  | t :: rest, ext, sendable, room => by
    obtain ⟨here, there⟩ := Nat.max_le.1 room
    have first := emits_tree old t ((Graph.extends_embedSlots _ rest).trans ext)
      (sendable t List.mem_cons_self) here
    have others := emits_slots old rest ext (fun u mem => sendable u (List.mem_cons_of_mem t mem))
      there
    exact .bind first others

end

mutual

theorem height_le_embed (g : Graph) :
    (t : Tree) → g.size + t.height ≤ (g.embed t).2.size + 1
  | .hole | .leaf _ => Nat.le_refl _
  | .packed tag data => by
    have size := Graph.size_add g (Graph.nodeRecord tag data)
    change g.size + 2 ≤ (g.add (Graph.nodeRecord tag data)).size + 1
    omega
  | .tuple tag kind slots => by
    have inner := slotsHeight_le_embedSlots g slots
    change _ ≤ (((g.embedSlots slots).2.addList kind _).2.add _).size + 1
    rw [Graph.size_add, Graph.addList, Graph.size_add, Tree.height]
    omega

theorem slotsHeight_le_embedSlots (g : Graph) :
    (slots : List Tree) → g.size + Tree.slotsHeight slots ≤ (g.embedSlots slots).2.size + 1
  | [] => Nat.le_succ _
  | t :: rest => by
    have first := height_le_embed g t
    have others := slotsHeight_le_embedSlots (g.embed t).2 rest
    have kept := (Graph.extends_embed g t).size_le
    have kept' := (Graph.extends_embedSlots (g.embed t).2 rest).size_le
    change _ ≤ ((g.embed t).2.embedSlots rest).2.size + 1
    rw [Tree.slotsHeight]
    omega

end

mutual

theorem height_le_length (g : Graph) : (t : Tree) → t.height ≤ (treeBytes g t).length + 1
  | .hole | .leaf _ => Nat.le_add_left 1 _
  | .packed tag data => by
    have header : (fieldsHeader 2).length = 3 := rfl
    rw [treeBytes, nodeBytes, Tree.height, List.length_append]
    omega
  | .tuple tag kind slots => by
    have inner := slotsHeight_le_length g slots
    have header : (fieldsHeader 2).length = 3 := rfl
    rw [treeBytes, nodeBytes, Tree.height]
    simp only [List.length_append]
    omega

theorem slotsHeight_le_length (g : Graph) :
    (slots : List Tree) → Tree.slotsHeight slots ≤ (slotsBytes g slots).length + 1
  | [] => Nat.zero_le _
  | t :: rest => by
    have first := height_le_length g t
    have others := slotsHeight_le_length g rest
    rw [Tree.slotsHeight, slotsBytes, List.length_append]
    omega

end

theorem encode_run_of_gives {d : Dialect} {g g' : Graph} {v : Value} {draft : Draft}
    (gives : Effect.Gives (write d (4 * g.size + 8) v) {} g () draft g') :
    (encode d v).run g = (.ok (finish draft), g') := by
  rw [encode, Effect.run_bind, Effect.run_get]
  dsimp only
  rw [Effect.run_bind, gives]
  rfl

theorem encode_run {dialect : Dialect} {g : Graph} {v : Value} {l : List UInt8}
    (emits : Emits (write dialect (4 * g.size + 8) v) g l) :
    (encode dialect v).run g = (.ok (Bytes.ofList l), g) := by
  obtain ⟨d, gives, out⟩ := emits {}
  rw [encode_run_of_gives gives, out]
  rfl

end MessagePack

end Marshal
