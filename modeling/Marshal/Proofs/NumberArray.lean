import Marshal.NumberArray.View
import Marshal.Proofs.Class
import Marshal.Proofs.Registry.Handlers

namespace Marshal

open Marshal.Effect

theorem DType.ofName?_eq_some_iff {name : String} {d : DType} :
    DType.ofName? name = some d ↔ d.name = name := by
  constructor
  · intro found
    have named := List.find?_some (p := fun d : DType => d.name == name) found
    exact beq_iff_eq.1 named
  · rintro rfl
    exact DType.ofName?_name d

theorem lookup_map {κ α β : Type} [BEq κ] [LawfulBEq κ] (key : α → κ) (f : α → β) (items : List α)
    (k : κ) :
    (items.map fun a => (key a, f a)).lookup k = (items.find? (key · == k)).map f := by
  induction items with
  | nil => rfl
  | cons a rest ih =>
    rw [List.map_cons, List.lookup_cons, List.find?_cons, ih, Bool.beq_comm]
    cases key a == k <;> rfl

namespace Class

theorem isWithin_numbers {c : Class} {d : DType} (within : c.isWithin (.numbers d) = true)
    (d' : DType) : c.isWithin (.numbers d') = decide (d' = d) := by
  by_cases same : d' = d
  · rw [same, within, decide_eq_true rfl]
  · have apart (a b : DType) (differ : a ≠ b) :
        (numbers a).isWithin (numbers b) = false := by
      cases a <;> cases b <;> first | exact absurd rfl differ | decide
    rw [isWithin_eq_false within (apart _ _ (Ne.symm same)) (apart _ _ same), decide_eq_false same]

end Class

namespace NumberArray.View

theorem nameOf_eq {c : Class} {d : DType} (within : c.isWithin (.numbers d) = true) :
    nameOf c = d.name := by
  simp only [nameOf, ladder, List.find?_cons, List.find?_nil, Class.isWithin_numbers within]
  cases d <;> rfl

theorem lookup_widths (name : String) :
    widths.lookup name = (DType.ofName? name).map DType.width :=
  lookup_map DType.name DType.width DType.all name

theorem lookup_builders (name : String) : builders.lookup name = DType.ofName? name :=
  (lookup_map DType.name id DType.all name).trans (Option.map_id_apply)

theorem bytes_copy (v : View) : v.copy.bytes = v.bytes := by
  have whole : v.copy.byteLength = v.bytes.size := (Nat.mul_one _).trans v.size_bytes.symm
  rw [bytes, whole]
  change Bytes.slice v.bytes 0 v.bytes.size = v.bytes
  rw [Bytes.slice, Nat.zero_add, ByteArray.extract_zero_size]

/-- What the bytes under a name are read as, if anything: elements of the kind with the name, which
take up exactly these bytes. -/
theorem decode_eq_ok_iff {name : String} {b w : View} :
    decode name b = .ok w ↔ w.dtype.name = name ∧ w.kind = .numbers w.dtype ∧ w.offset = 0 ∧
      w.buffer = b.bytes ∧ w.byteLength = b.byteLength := by
  have size : b.copy.buffer.size = b.byteLength := b.size_bytes
  rw [decode, lookup_widths]
  constructor
  · intro read
    cases known : DType.ofName? name with
    | none =>
      rw [known] at read
      cases read
    | some d =>
      rw [known] at read
      dsimp only [Option.map_some] at read
      split at read
      next => cases read
      next whole =>
        rw [build, lookup_builders, known] at read
        dsimp only at read
        split at read
        next =>
          cases read
          refine ⟨DType.ofName?_eq_some_iff.1 known, rfl, rfl, rfl, ?_⟩
          exact Nat.div_mul_cancel (Nat.dvd_of_mod_eq_zero (not_not.1 whole))
        next => cases read
  · rintro ⟨rfl, kind, offset, buffer, full⟩
    have multiple : b.byteLength % w.dtype.width = 0 := full ▸ Nat.mul_mod_left _ _
    have count : b.byteLength / w.dtype.width = w.length :=
      full ▸ Nat.mul_div_cancel _ w.dtype.width_pos
    rw [DType.ofName?_name]
    dsimp only [Option.map_some]
    rw [if_neg (not_not.2 multiple), build, lookup_builders, DType.ofName?_name]
    dsimp only
    have fits : 0 + b.byteLength / w.dtype.width * w.dtype.width ≤ b.copy.buffer.size := by
      rw [count, Nat.zero_add, size]
      exact full.le
    rw [dif_pos fits]
    refine congrArg Except.ok (View.ext rfl kind.symm buffer.symm offset.symm count)

theorem bytes_of_decode {name : String} {b w : View} (read : decode name b = .ok w) :
    w.bytes = b.bytes := by
  obtain ⟨-, -, offset, buffer, full⟩ := decode_eq_ok_iff.1 read
  rw [bytes, offset, buffer, full, Bytes.slice, Nat.zero_add, ← b.size_bytes,
    ByteArray.extract_zero_size]

theorem exists_decode_iff {name : String} {b : View} :
    (∃ w, decode name b = .ok w) ↔ ∃ d : DType, d.name = name ∧ b.byteLength % d.width = 0 := by
  constructor
  · rintro ⟨w, read⟩
    obtain ⟨named, -, -, -, full⟩ := decode_eq_ok_iff.1 read
    exact ⟨w.dtype, named, full ▸ Nat.mul_mod_left _ _⟩
  · rintro ⟨d, named, whole⟩
    have full : b.byteLength / d.width * d.width = b.byteLength :=
      Nat.div_mul_cancel (Nat.dvd_of_mod_eq_zero whole)
    refine ⟨⟨d, .numbers d, b.bytes, 0, b.byteLength / d.width, ?_, Nat.zero_mod _, ?_,
      b.copy.countable⟩, decode_eq_ok_iff.2 ⟨named, rfl, rfl, rfl, full⟩⟩
    · cases d <;> decide
    · rw [Nat.zero_add, full, b.size_bytes]

theorem contents_decode (name : String) (b : View) :
    (decode name b).map contents = NumberArray.decode name b.bytes := by
  rw [NumberArray.decode, b.size_bytes]
  cases known : DType.ofName? name with
  | none =>
    rw [decode, lookup_widths, known]
    rfl
  | some d =>
    obtain rfl := DType.ofName?_eq_some_iff.1 known
    by_cases whole : b.byteLength % d.width = 0
    · obtain ⟨w, read⟩ := exists_decode_iff.2 ⟨d, rfl, whole⟩
      have kind : w.dtype = d := by
        have named := DType.ofName?_name w.dtype
        rw [(decode_eq_ok_iff.1 read).1, known, Option.some.injEq] at named
        exact named.symm
      dsimp only
      rw [read, if_pos whole, ← kind, ← bytes_of_decode read]
      rfl
    · dsimp only
      rw [decode, lookup_widths, known, if_neg whole]
      dsimp only [Option.map_some]
      rw [if_pos whole]
      rfl

theorem contents_decode_encode {v w : View} (read : decode v.encode.1 v.encode.2 = .ok w) :
    w.contents = v.contents := by
  have kind : w.dtype = v.dtype := by
    have named := (decode_eq_ok_iff.1 read).1
    rw [encode, nameOf_eq v.ofKind] at named
    exact Option.some.inj ((DType.ofName?_name _).symm.trans (named ▸ DType.ofName?_name _))
  rw [contents, contents, kind, bytes_of_decode read, encode, bytes_copy]

section Run

open Marshal.Action
open Marshal.Defaults

variable {g : Graph} {x : Value}

theorem writeArray_view_run {v : View} (found : g.objectOf? x = some v.object) :
    (writeArray x).run g = (.ok (.object (g.size + 1)), (g.add v.encode.2.object).add
      (madeList [.string v.encode.1, .object g.size])) := by
  have written := writeArray_run found
  rw [Graph.size_add] at written
  rw [encode, nameOf_eq v.ofKind, View.object, bytes_copy]
  exact written

theorem arrayOf_view_run {b : View} (bytes : b.dtype = .uint8)
    (found : g.objectOf? x = some b.object) (name : String) :
    match decode name b with
    | .ok w => (arrayOf (.string name) x).run g = (.ok (.object g.size), g.add w.object)
    | .error _ => ∃ fault, (arrayOf (.string name) x).run g = (.error fault, g) := by
  have stored : g.objectOf? x = some (.bare b.kind (.numbers .uint8 b.bytes)) := by
    rw [found, View.object, bytes]
    rfl
  have small : b.bytes.size < 2 ^ 53 := lt_of_lt_of_le b.copy.countable (by norm_num)
  cases read : decode name b with
  | ok w =>
    obtain ⟨rfl, kind, -, -, full⟩ := decode_eq_ok_iff.1 read
    have whole : b.bytes.size % w.dtype.width = 0 := by
      rw [b.size_bytes, ← full]
      exact Nat.mul_mod_left _ _
    dsimp only
    rw [View.object, kind, bytes_of_decode read]
    exact arrayOf_run whole small stored
  | error fault =>
    dsimp only
    rw [arrayOf_bytes_run small stored]
    cases known : DType.ofName? name with
    | none => exact ⟨_, rfl⟩
    | some d =>
      have partly : ¬ b.bytes.size % d.width = 0 := by
        intro whole
        rw [b.size_bytes] at whole
        obtain ⟨w, fine⟩ := exists_decode_iff.2 ⟨d, DType.ofName?_eq_some_iff.1 known, whole⟩
        cases read.symm.trans fine
      exact ⟨_, if_neg partly⟩

end Run

/-- The codec of number arrays is one to one between arrays and the names of element kinds with
bytes that are whole elements of the kind. An array of any class, wherever in memory it lies, is
read back from its code with its kind, its length and its bytes; and a name with a byte array is
read just if it is the code of an array, the one it is read as. Where the arrays lie in memory, the
one thing that the codec of names and bytes leaves out, makes no difference to either. -/
theorem array_codec_bijective :
    (∀ v : View, ∃ w, decode v.encode.1 v.encode.2 = .ok w ∧ w.kind = .numbers v.dtype ∧
      w.dtype = v.dtype ∧ w.length = v.length ∧ w.bytes = v.bytes) ∧
    (∀ (name : String) (b : View), b.dtype = .uint8 →
      ((∃ w, decode name b = .ok w) ↔ ∃ d : DType, d.name = name ∧ b.byteLength % d.width = 0) ∧
      ∀ w, decode name b = .ok w →
        w.encode.1 = name ∧ w.encode.2.dtype = .uint8 ∧ w.encode.2.bytes = b.bytes) ∧
    (∀ v : View, (v.encode.1, v.encode.2.bytes) = v.contents.encode) ∧
    ∀ (name : String) (b : View),
      (decode name b).map contents = NumberArray.decode name b.bytes := by
  refine ⟨?_, ?_, ?_, contents_decode⟩
  · intro v
    have whole : v.copy.byteLength % v.dtype.width = 0 := by
      have full : v.copy.byteLength = v.length * v.dtype.width := Nat.mul_one _
      exact full ▸ Nat.mul_mod_left _ _
    obtain ⟨w, read⟩ := exists_decode_iff.2 ⟨v.dtype, (nameOf_eq v.ofKind).symm, whole⟩
    obtain ⟨-, kind, -, -, full⟩ := decode_eq_ok_iff.1 read
    have same : w.dtype = v.dtype := congrArg NumberArray.dtype (contents_decode_encode read)
    have bytes : w.bytes = v.bytes := congrArg NumberArray.bytes (contents_decode_encode read)
    refine ⟨w, read, same ▸ kind, same, ?_, bytes⟩
    -- arrays of one kind with as many bytes have as many elements
    have sizes : w.length * v.dtype.width = v.length * v.dtype.width := by
      rw [← byteLength, ← size_bytes v, ← bytes, size_bytes, byteLength, same]
    exact Nat.eq_of_mul_eq_mul_right v.dtype.width_pos sizes
  · intro name b _
    refine ⟨exists_decode_iff, fun w read => ⟨?_, rfl, ?_⟩⟩
    · exact (nameOf_eq w.ofKind).trans (decode_eq_ok_iff.1 read).1
    · exact (bytes_copy w).trans (bytes_of_decode read)
  · intro v
    rw [encode, nameOf_eq v.ofKind, bytes_copy]
    rfl

namespace Sample

def payload : View where
  dtype := .float32
  kind := .sub ⟨"Samples", [], none⟩ (.numbers .float32)
  buffer := ⟨#[9, 9, 9, 9, 1, 0, 0xa0, 0x7f, 0, 0, 0x80, 0x3f, 9]⟩
  offset := 4
  length := 2
  ofKind := by decide
  aligned := rfl
  fits := by decide
  countable := by decide

def received : View where
  dtype := .uint8
  kind := .bytes
  buffer := ⟨#[9, 1, 0, 0xa0, 0x7f, 0, 0, 0x80, 0x3f]⟩
  offset := 1
  length := 8
  ofKind := by decide
  aligned := rfl
  fits := by decide
  countable := by decide

theorem payload_returns :
    (∃ w, decode payload.encode.1 payload.encode.2 = .ok w ∧ w.length = 2 ∧
      w.bytes = ⟨#[1, 0, 0xa0, 0x7f, 0, 0, 0x80, 0x3f]⟩) ∧
    ∃ w, decode "float32" received = .ok w ∧ w.encode.1 = "float32" ∧
      w.encode.2.bytes = ⟨#[1, 0, 0xa0, 0x7f, 0, 0, 0x80, 0x3f]⟩ := by
  obtain ⟨returns, reads, -⟩ := array_codec_bijective
  obtain ⟨w, read, -, -, length, bytes⟩ := returns payload
  obtain ⟨whole, coded⟩ := reads "float32" received rfl
  obtain ⟨w', read'⟩ := whole.2 ⟨.float32, rfl, by decide⟩
  obtain ⟨name, -, bytes'⟩ := coded w' read'
  exact ⟨⟨w, read, length, bytes.trans (by decide +kernel)⟩, w', read', name,
    bytes'.trans (by decide +kernel)⟩

end Sample

end NumberArray.View

end Marshal
