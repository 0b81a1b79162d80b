import Marshal.Proofs.MessagePack.Pieces
import Marshal.Proofs.MessagePack.Written
import Marshal.Proofs.Number.Whole

namespace Marshal.MessagePack

open Marshal.Effect
open Marshal.MessagePack.Reader (gives_byte gives_fixed gives_take gives_text gives_peek)

/-- Where these bytes stand, the value is read and nothing after them. In an envelope no shape is
known there. -/
def Reads (d : Dialect) (l : List UInt8) (fuel : Nat) (g : Graph) (v : Value) (g' : Graph) : Prop :=
  ∀ src (c : Cursor) pos, (d = .envelope → c.shapes = []) → Bytes.At src pos l →
    Gives (Reader.value src d fuel) { c with pos } g v { c with pos := pos + l.length } g'

variable {d : Dialect} (fuel : Nat) (g : Graph)

theorem reads_null : Reads d [nilByte] (fuel + 1) g .null g := by
  intro src c pos blank h
  refine .bind (gives_byte g h) ?_
  exact .pure _ _ g

theorem gives_single {src : ByteArray} {c : Cursor} {pos : Nat} (read : Reader Value)
    (h : Bytes.At src pos [0, 0]) :
    Gives (Reader.single src read) { c with pos } g .undefined { c with pos := pos + 2 } g := by
  have type := gives_byte (c := c) g h
  have data := gives_take (c := c) g h.tail
  unfold Reader.single
  refine .bind type ?_
  dsimp only
  rw [if_neg (by decide)]
  refine .bind data ?_
  rw [if_neg (by decide), if_neg (by decide)]
  exact .pure _ _ g

theorem reads_undefined : Reads d undefinedBytes (fuel + 1) g .undefined g := by
  intro src c pos blank h
  refine .bind (gives_byte g h) ?_
  exact gives_single g _ h.tail

theorem reads_bool (b : Bool) : Reads d [boolByte b] (fuel + 1) g (.bool b) g := by
  intro src c pos blank h
  refine .bind (gives_byte g h) ?_
  cases b <;> exact .pure _ _ g

theorem smallLimit_le (d : Dialect) : d.smallLimit ≤ 0x80 := by
  cases d <;> decide

theorem reads_small {n : Nat} (small : n < d.smallLimit) :
    Reads d [UInt8.ofNat n] (fuel + 1) g (.nat n) g := by
  intro src c pos blank h
  have first := gives_byte (c := c) g h
  have limit := smallLimit_le d
  have value : (UInt8.ofNat n).toNat = n :=
    UInt8.toNat_ofNat_of_lt' (show n < 256 by omega)
  rw [Reader.value]
  refine .bind first ?_
  dsimp only
  rw [value]
  split
  next => exact .pure _ _ g
  next large =>
    -- only an envelope has small numbers where a whole value has shapes
    have envelope : d = .envelope := by
      cases d with
      | whole => exact absurd small large
      | envelope => rfl
    rw [if_pos (small.trans_le limit)]
    refine .bind (.get _ g) ?_
    dsimp only
    rw [blank envelope]
    exact .pure _ _ g

theorem reads_nat_one {n : Nat} (small : n < 0x100) :
    Reads d (0xcc :: be 1 n) (fuel + 1) g (.nat n) g := by
  intro src c pos blank h
  have byte := gives_byte (c := c) g h.tail
  have value : (UInt8.ofNat n).toNat = n :=
    UInt8.toNat_ofNat_of_lt' (show n < 256 by omega)
  refine .bind (gives_byte g h) (.bind byte ?_)
  dsimp only
  rw [value]
  exact .pure _ _ g

theorem reads_nat_two {n : Nat} (small : n < 0x10000) :
    Reads d (0xcd :: be 2 n) (fuel + 1) g (.nat n) g := by
  intro src c pos blank h
  have number := gives_fixed (c := c) g h.tail (by decide) (by omega)
  exact .bind (gives_byte g h) (.bind number (.pure _ _ g))

theorem reads_nat_four {n : Nat} (small : n < 0x100000000) :
    Reads d (0xce :: be 4 n) (fuel + 1) g (.nat n) g := by
  intro src c pos blank h
  have number := gives_fixed (c := c) g h.tail (by decide) (by omega)
  exact .bind (gives_byte g h) (.bind number (.pure _ _ g))

theorem reads_nat {n : Nat} (small : n < 0x100000000) :
    Reads d (natBytes d n) (fuel + 1) g (.nat n) g := by
  unfold natBytes
  split
  next tiny => exact reads_small fuel g tiny
  next =>
    split
    next one => exact reads_nat_one fuel g one
    next =>
      split
      next two => exact reads_nat_two fuel g two
      next => exact reads_nat_four fuel g small

theorem unsigned_lt (width : Nat) (n : Int) : Bytes.unsigned width n < 256 ^ width := by
  have positive : (0 : Int) < (256 ^ width : Nat) := by exact_mod_cast Nat.pow_pos (by decide)
  have bound := Int.emod_lt_of_pos n positive
  have sign := Int.emod_nonneg n positive.ne'
  change (n % Int.ofNat (256 ^ width)).toNat < 256 ^ width
  rw [Int.ofNat_eq_natCast]
  omega

theorem reads_negative_small {n : Int} (low : -0x20 ≤ n) (negative : n < 0) :
    Reads d (be 1 (Bytes.unsigned 1 n)) (fuel + 1) g (.int n) g := by
  intro src c pos blank h
  have first := gives_byte (c := c) (l := []) g h
  have pattern : (UInt8.ofNat (Bytes.unsigned 1 n)).toNat = (n + 0x100).toNat := by
    have value : Bytes.unsigned 1 n = (n + 0x100).toNat := by
      change (n % 256).toNat = _
      omega
    rw [UInt8.toNat_ofNat', value]
    omega
  have back : Int.ofNat (n + 0x100).toNat - 0x100 = n := by
    rw [Int.ofNat_eq_natCast]
    omega
  rw [Reader.value]
  refine .bind first ?_
  dsimp only
  rw [pattern, if_neg (by omega), if_neg (by omega), if_neg (by omega), if_neg (by omega),
    if_neg (by omega), if_pos (by omega), back]
  exact .pure _ _ g

theorem signed_of_negative {n : Int} (width : Nat) (low : -(Bytes.capacity width : Int) ≤ 2 * n)
    (negative : n < 0) : Bytes.signed width (Bytes.unsigned width n) = n := by
  have positive := Bytes.capacity_pos width
  exact Bytes.signed_unsigned width n low (by omega)

theorem reads_negative {n : Int} (low : -0x80000000 ≤ n) (negative : n < 0) :
    Reads d (negativeBytes n) (fuel + 1) g (.int n) g := by
  unfold negativeBytes
  split
  next small => exact reads_negative_small fuel g small negative
  next =>
    intro src c pos blank h
    split at h <;> rename_i bound
    · rw [if_pos bound]
      have number := gives_fixed (c := c) g h.tail (by decide) (unsigned_lt 1 n)
      rw [← signed_of_negative 1 (by change -(256 : Int) ≤ _; omega) negative]
      exact .bind (gives_byte g h) (.bind number (.pure _ _ g))
    · rw [if_neg bound]
      split at h <;> rename_i bound
      · rw [if_pos bound]
        have number := gives_fixed (c := c) g h.tail (by decide) (unsigned_lt 2 n)
        rw [← signed_of_negative 2 (by change -(65536 : Int) ≤ _; omega) negative]
        exact .bind (gives_byte g h) (.bind number (.pure _ _ g))
      · rw [if_neg bound]
        have number := gives_fixed (c := c) g h.tail (by decide) (unsigned_lt 4 n)
        rw [← signed_of_negative 4 (by change -(4294967296 : Int) ≤ _; omega) negative]
        exact .bind (gives_byte g h) (.bind number (.pure _ _ g))

theorem reads_float (x : Number) :
    Reads d (0xcb :: be 8 x.bits.toNat) (fuel + 1) g (.number (Number.ofBits x.bits)) g := by
  intro src c pos blank h
  have number := gives_fixed (c := c) g h.tail (by decide) x.bits.toNat_lt
  refine .bind (gives_byte g h) (.bind number ?_)
  rw [UInt64.ofNat_toNat]
  exact .pure _ _ g

/-- What is read of a number: the negative zero is zero, and there is one not-a-number. -/
def readNumber (x : Number) : Number :=
  if x.isNegativeZero then Number.zero else if x.isNaN then Number.nan else x

def readScalar : Value → Value
  | .number x => .number (readNumber x)
  | .string s => .string (readText s)
  | v => v

theorem readNumber_of_whole {x : Number} {n : Int} (whole : x.toInt? = some n)
    (small : n.natAbs < 2 ^ 53) : readNumber x = Number.ofInt n := by
  have number := Number.isNaN_of_isFinite (Number.isFinite_of_toInt? whole)
  unfold readNumber
  rw [number, if_neg Bool.false_ne_true]
  split
  next negative =>
    rw [Number.toInt?_of_isNegativeZero negative, Option.some.injEq] at whole
    rw [← whole]
    decide
  next positive =>
    by_cases zero : n = 0
    · rw [zero] at whole ⊢
      rw [Number.eq_zero_of_toInt? whole (Bool.eq_false_iff.2 positive)]
      decide
    · rw [Number.ofInt_of_toInt? whole zero small]

theorem readNumber_of_not_whole {x : Number} (other : x.isNegativeZero = false) :
    readNumber x = Number.ofBits x.bits := by
  rw [readNumber, other, if_neg Bool.false_ne_true]
  rfl

theorem reads_number (x : Number) :
    Reads d (numberBytes d x) (fuel + 1) g (.number (readNumber x)) g := by
  unfold numberBytes
  split
  next n whole =>
    split
    next small =>
      rw [readNumber_of_whole whole (by omega), ← Int.toNat_of_nonneg small.1, Number.ofInt_natCast]
      exact reads_nat fuel g (by omega)
    next =>
      split
      next negative =>
        rw [readNumber_of_whole whole (by omega)]
        exact reads_negative fuel g negative.1 negative.2
      next large =>
        have other : x.isNegativeZero = false := by
          rw [Bool.eq_false_iff]
          intro zero
          rw [Number.toInt?_of_isNegativeZero zero, Option.some.injEq] at whole
          omega
        rw [readNumber_of_not_whole other]
        exact reads_float fuel g x
  next none =>
    have other : x.isNegativeZero = false := by
      rw [Bool.eq_false_iff]
      intro zero
      rw [Number.toInt?_of_isNegativeZero zero] at none
      cases none
    rw [readNumber_of_not_whole other]
    exact reads_float fuel g x

section Texts

variable {src : ByteArray} {pos : Nat}

theorem length_textBytes (s : String) :
    (textBytes s).length = (textHeader s.toUTF8.size).length + s.toUTF8.size := by
  rw [textBytes, List.length_append]
  rfl

theorem reads_text {s : String} (small : s.toUTF8.size < 0x100000000) :
    Reads d (textBytes s) (fuel + 1) g (.string (readText s)) g := by
  intro src c pos blank h
  have text := gives_text (c := c) g h.right
  rw [length_textBytes, ← Nat.add_assoc]
  replace h := h.left
  unfold textHeader at h text ⊢
  split at h <;> rename_i bound
  · rw [if_pos bound] at text ⊢
    have value : (UInt8.ofNat (0xa0 + s.toUTF8.size)).toNat = 0xa0 + s.toUTF8.size :=
      UInt8.toNat_ofNat_of_lt' (show 0xa0 + s.toUTF8.size < 256 by omega)
    rw [Reader.value]
    refine .bind (gives_byte g h) ?_
    dsimp only
    rw [value, if_neg (by omega), if_neg (by omega), if_neg (by omega), if_neg (by omega),
      if_pos (by omega), Nat.add_sub_cancel_left]
    exact .bind text (.pure _ _ g)
  · rw [if_neg bound] at text ⊢
    split at h <;> rename_i bound
    · rw [if_pos bound] at text ⊢
      have value : (UInt8.ofNat s.toUTF8.size).toNat = s.toUTF8.size :=
        UInt8.toNat_ofNat_of_lt' (show s.toUTF8.size < 256 by omega)
      have length := gives_byte (c := c) g h.tail
      refine .bind (gives_byte g h) (.bind length ?_)
      dsimp only [Option.map_some, Option.getD_some]
      rw [value]
      exact .bind text (.pure _ _ g)
    · rw [if_neg bound] at text ⊢
      split at h <;> rename_i bound
      · rw [if_pos bound] at text ⊢
        have length := gives_fixed (c := c) g h.tail (by decide) (by omega)
        exact .bind (gives_byte g h) (.bind length (.bind text (.pure _ _ g)))
      · rw [if_neg bound] at text ⊢
        have length := gives_fixed (c := c) g h.tail (by decide) (by omega)
        exact .bind (gives_byte g h) (.bind length (.bind text (.pure _ _ g)))

end Texts

theorem reads_scalar {v : Value} (scalar : v.isPrimitive = true)
    (whole : ∀ units, v ≠ .brokenText units)
    (small : ∀ s, v = .string s → s.toUTF8.size < 0x100000000) :
    Reads d (scalarBytes d v) (fuel + 1) g (readScalar v) g := by
  cases v with
  | null => exact reads_null fuel g
  | undefined => exact reads_undefined fuel g
  | bool b => exact reads_bool fuel g b
  | number x => exact reads_number fuel g x
  | string s => exact reads_text fuel g (small s rfl)
  | brokenText units => exact absurd rfl (whole units)
  | bigint | symbol | object => cases scalar

def readBytes (bytes : ByteArray) : Object :=
  { kind := some .bytes, body := .numbers .uint8 bytes }

theorem length_binaryBytes (bytes : ByteArray) :
    (binaryBytes bytes).length = (binaryHeader bytes.size).length + bytes.size := by
  rw [binaryBytes, List.length_append]
  rfl

theorem reads_binary {bytes : ByteArray} (small : bytes.size < 0x100000000) :
    Reads d (binaryBytes bytes) (fuel + 1) g (.object g.size) (g.add (readBytes bytes)) := by
  intro src c pos blank h
  have data := gives_take (c := c) g h.right
  have made (t : Cursor) := Gives.lift (t := t) (s := g) (Action.add_run (readBytes bytes) g)
  rw [length_binaryBytes, ← Nat.add_assoc]
  replace h := h.left
  unfold binaryHeader at h data ⊢
  split at h <;> rename_i bound
  · rw [if_pos bound] at data ⊢
    have value : (UInt8.ofNat bytes.size).toNat = bytes.size :=
      UInt8.toNat_ofNat_of_lt' (show bytes.size < 256 by omega)
    have length := gives_byte (c := c) g h.tail
    refine .bind (gives_byte g h) (.bind length ?_)
    dsimp only
    rw [value]
    exact .bind data (made _)
  · rw [if_neg bound] at data ⊢
    split at h <;> rename_i bound
    · rw [if_pos bound] at data ⊢
      have length := gives_fixed (c := c) g h.tail (by decide) (by omega)
      exact .bind (gives_byte g h) (.bind length (.bind data (made _)))
    · rw [if_neg bound] at data ⊢
      have length := gives_fixed (c := c) g h.tail (by decide) (by omega)
      exact .bind (gives_byte g h) (.bind length (.bind data (made _)))

def readNumbers (dtype : DType) (bytes : ByteArray) : Object :=
  { kind := some (.numbers dtype), body := .numbers dtype bytes }

theorem run_sized {src : ByteArray} {c : Cursor} {pos : Nat} {read action : Reader Value}
    {type : UInt8} {data : List UInt8} (h : Bytes.At src pos (type :: data))
    (plain : ¬ (type = tableType ∨ type = columnType))
    (known : Reader.extension? src read type (Bytes.ofList data) = some action) :
    ((Reader.sized src read data.length).run { c with pos }).run g =
      (action.run { c with pos := pos + 1 + data.length }).run g := by
  refine (gives_byte g h).run_bind.trans ?_
  dsimp only
  refine (gives_take (c := c) g h.tail).run_bind.trans ?_
  rw [if_neg plain, known]

theorem run_value_extension {src : ByteArray} {c : Cursor} {pos : Nat} {type : UInt8}
    {data : List UInt8} (h : Bytes.At src pos (lengthHeader data.length ++ type :: data))
    (small : data.length < 0x100000000) (plain : ¬ (type = tableType ∨ type = columnType))
    {action : Reader Value}
    (known : Reader.extension? src (Reader.value src d fuel) type (Bytes.ofList data) =
      some action) :
    ((Reader.value src d (fuel + 1)).run { c with pos }).run g =
      (action.run { c with
        pos := pos + (lengthHeader data.length).length + 1 + data.length }).run g := by
  have sized := run_sized (c := c) g h.right plain known
  replace h := h.left
  unfold lengthHeader at h sized ⊢
  split at h <;> rename_i bound
  · rw [if_pos bound] at sized ⊢
    have value : (UInt8.ofNat data.length).toNat = data.length :=
      UInt8.toNat_ofNat_of_lt' (show data.length < 256 by omega)
    refine (gives_byte g h).run_bind.trans ((gives_byte (c := c) g h.tail).run_bind.trans ?_)
    dsimp only [Option.map_some, Option.getD_some]
    rw [value]
    exact sized
  · rw [if_neg bound] at sized ⊢
    split at h <;> rename_i bound
    · rw [if_pos bound] at sized ⊢
      have length := gives_fixed (c := c) g h.tail (by decide) (by omega)
      exact (gives_byte g h).run_bind.trans (length.run_bind.trans sized)
    · rw [if_neg bound] at sized ⊢
      have length := gives_fixed (c := c) g h.tail (by decide) (by omega)
      exact (gives_byte g h).run_bind.trans (length.run_bind.trans sized)

/-- The bytes of a number array with the code of its class. -/
def storageBytes (code : UInt8) (bytes : ByteArray) : List UInt8 :=
  lengthHeader (bytes.size + 1) ++ arrayType :: code :: bytes.data.toList

theorem length_storageBytes (code : UInt8) (bytes : ByteArray) :
    (storageBytes code bytes).length =
      (lengthHeader (bytes.size + 1)).length + 1 + (bytes.size + 1) := by
  have size : bytes.data.toList.length = bytes.size := rfl
  rw [storageBytes, List.length_append, List.length_cons, List.length_cons, size]
  omega

theorem run_value_storage {src : ByteArray} {c : Cursor} {pos : Nat} {code : UInt8}
    {bytes : ByteArray} (h : Bytes.At src pos (storageBytes code bytes))
    (small : bytes.size + 1 < 0x100000000) :
    ((Reader.value src d (fuel + 1)).run { c with pos }).run g =
      ((Reader.storageOf (Bytes.ofList (code :: bytes.data.toList))).run { c with
        pos := pos + (storageBytes code bytes).length }).run g := by
  have here : Bytes.At src pos (lengthHeader (code :: bytes.data.toList).length ++
    arrayType :: code :: bytes.data.toList) := h
  have read := run_value_extension (d := d) (c := c) fuel g here small (by decide) rfl
  rw [length_storageBytes, ← Nat.add_assoc, ← Nat.add_assoc]
  exact read

theorem storageOf_run {dtype : DType} {bytes : ByteArray} (whole : bytes.size % dtype.width = 0)
    (t : Cursor) :
    Gives (Reader.storageOf
        (Bytes.ofList (UInt8.ofNat (DType.all.idxOf dtype) :: bytes.data.toList))) t g
      (.object g.size) t (g.add (readNumbers dtype bytes)) := by
  have rest : (Bytes.ofList (UInt8.ofNat (DType.all.idxOf dtype) :: bytes.data.toList)).extract 1
      (bytes.data.toList.length + 1) = bytes := by
    apply ByteArray.ext
    apply Array.toList_inj.1
    rw [ByteArray.data_extract, Array.toList_extract, List.extract_eq_take_drop]
    simp
  have known : DType.all[(UInt8.ofNat (DType.all.idxOf dtype)).toNat]? = some dtype := by
    cases dtype <;> rfl
  have length : (Bytes.ofList (UInt8.ofNat (DType.all.idxOf dtype) :: bytes.data.toList)).size =
      bytes.data.toList.length + 1 := rfl
  rw [Reader.storageOf, length, rest, Bytes.getElem?_eq]
  dsimp only [Bytes.toList_data_ofList, List.getElem?_cons_zero]
  rw [known]
  dsimp only
  rw [if_pos whole]
  exact .lift rfl

theorem storageOf_run_unknown {code : UInt8} (unknown : 0x11 < code.toNat) (bytes : ByteArray)
    (t : Cursor) :
    ((Reader.storageOf (Bytes.ofList (code :: bytes.data.toList))).run t).run g =
      (.error (unknownStorage (toString code.toNat)), g) := by
  have none : DType.all[code.toNat]? = none := List.getElem?_eq_none (unknown.le.trans' (by decide))
  have other (n : UInt8) (le : n.toNat ≤ 0x11) : code ≠ n := by
    rintro rfl
    omega
  rw [Reader.storageOf, Bytes.getElem?_eq]
  dsimp only [Bytes.toList_data_ofList, List.getElem?_cons_zero]
  rw [none]
  dsimp only
  rw [if_neg (other 0x10 (by decide)), if_neg (other 0x11 (by decide))]
  rfl

theorem reads_storage {dtype : DType} {bytes : ByteArray} (whole : bytes.size % dtype.width = 0)
    (small : bytes.size + 1 < 0x100000000) :
    Reads d (storageBytes (UInt8.ofNat (DType.all.idxOf dtype)) bytes) (fuel + 1) g
      (.object g.size) (g.add (readNumbers dtype bytes)) :=
  fun _ _ _ _ h => (run_value_storage fuel g h small).trans (storageOf_run g whole _)

theorem gives_times_zero {α : Type} (x : Reader α) (t : Cursor) (g : Graph) :
    Gives (Reader.times x 0) t g [] t g := .pure _ _ _

theorem gives_times_cons {α : Type} {x : Reader α} {n : Nat} {t t' t'' : Cursor}
    {g g' g'' : Graph} {a : α} {rest : List α} (first : Gives x t g a t' g')
    (others : Gives (Reader.times x n) t' g' rest t'' g'') :
    Gives (Reader.times x (n + 1)) t g (a :: rest) t'' g'' :=
  .bind first (.bind others (.pure _ _ _))

/-- Where these bytes stand, so many values are read one after the other. -/
def ReadsAll (d : Dialect) (l : List UInt8) (fuel n : Nat) (g : Graph) (vs : List Value)
    (g' : Graph) : Prop :=
  ∀ src (c : Cursor) pos, (d = .envelope → c.shapes = []) → Bytes.At src pos l →
    Gives (Reader.times (Reader.value src d fuel) n) { c with pos } g vs
      { c with pos := pos + l.length } g'

theorem readsAll_nil : ReadsAll d [] fuel 0 g [] g :=
  fun _ _ _ _ _ => gives_times_zero _ _ g

theorem readsAll_cons {l l' : List UInt8} {fuel n : Nat} {g g' g'' : Graph} {v : Value}
    {vs : List Value} (first : Reads d l fuel g v g') (rest : ReadsAll d l' fuel n g' vs g'') :
    ReadsAll d (l ++ l') fuel (n + 1) g (v :: vs) g'' := by
  intro src c pos blank h
  rw [List.length_append, ← Nat.add_assoc]
  exact gives_times_cons (first src c pos blank h.left) (rest src c _ blank h.right)

theorem gives_list {src : ByteArray} {c t : Cursor} {pos fuel n : Nat} {g g' : Graph}
    {vs : List Value} (h : Bytes.At src pos (listHeader n)) (small : n < 0x100000000)
    (items : Gives (Reader.times (Reader.value src d fuel) n)
      { c with pos := pos + (listHeader n).length } g vs t g') :
    Gives (Reader.value src d (fuel + 1)) { c with pos } g (.object g'.size) t
      (g'.add (Action.madeList vs)) := by
  have made := Gives.lift (t := t) (s := g') (Action.newList_run vs g')
  unfold listHeader at h items
  split at h <;> rename_i bound
  · rw [if_pos bound] at items
    have value : (UInt8.ofNat (0x90 + n)).toNat = 0x90 + n :=
      UInt8.toNat_ofNat_of_lt' (show 0x90 + n < 256 by omega)
    rw [Reader.value]
    refine .bind (gives_byte g h) ?_
    dsimp only
    rw [value, if_neg (by omega), if_neg (by omega), if_neg (by omega), if_pos (by omega),
      Nat.add_sub_cancel_left]
    exact .bind items made
  · rw [if_neg bound] at items
    split at h <;> rename_i bound
    · rw [if_pos bound] at items
      have length := gives_fixed (c := c) g h.tail (by decide) (by omega)
      exact .bind (gives_byte g h) (.bind length (.bind items made))
    · rw [if_neg bound] at items
      have length := gives_fixed (c := c) g h.tail (by decide) (by omega)
      exact .bind (gives_byte g h) (.bind length (.bind items made))

theorem reads_list {l : List UInt8} {fuel n : Nat} {g g' : Graph} {vs : List Value}
    (items : ReadsAll d l fuel n g vs g') (small : n < 0x100000000) :
    Reads d (listHeader n ++ l) (fuel + 1) g (.object g'.size) (g'.add (Action.madeList vs)) := by
  intro src c pos blank h
  rw [List.length_append, ← Nat.add_assoc]
  exact gives_list h.left small (items src c _ blank h.right)

theorem gives_name {src : ByteArray} {c : Cursor} {pos : Nat} {s : String} (read : Reader Value)
    (short : s.toUTF8.size = 3 ∨ s.toUTF8.size = 4) (safe : Reader.safeName s = s)
    (h : Bytes.At src pos (textBytes s)) :
    Gives (Reader.name src read) { c with pos } g s
      { c with pos := pos + (textBytes s).length } g := by
  have text := gives_text (c := c) g h.right
  have inside : pos + (textBytes s).length ≤ src.size := by
    rcases h.le with none | le
    · have length := length_textBytes s
      rw [none, List.length_nil] at length
      omega
    · exact le
  -- a name is too short to lose a byte order mark
  have plain : readText s = s := by
    rw [readText, if_neg]
    rintro ⟨long, -⟩
    rw [Reader.shortText] at long
    omega
  rw [length_textBytes] at inside ⊢
  rw [← Nat.add_assoc] at inside ⊢
  replace h := h.left
  have small : s.toUTF8.size < 0x20 := by omega
  rw [textHeader, if_pos small] at h text inside ⊢
  have value : (UInt8.ofNat (0xa0 + s.toUTF8.size)).toNat = 0xa0 + s.toUTF8.size :=
    UInt8.toNat_ofNat_of_lt' (show 0xa0 + s.toUTF8.size < 256 by omega)
  have named : 0xa0 ≤ UInt8.ofNat (0xa0 + s.toUTF8.size) ∧
      UInt8.ofNat (0xa0 + s.toUTF8.size) < 0xc0 := by
    rw [UInt8.le_iff_toNat_le, UInt8.lt_iff_toNat_lt, value]
    exact ⟨Nat.le_add_right 0xa0 _, Nat.lt_of_lt_of_le (Nat.add_lt_add_left small 0xa0) (by decide)⟩
  rw [plain] at text
  unfold Reader.name
  refine .bind (gives_peek g h) ?_
  dsimp only
  rw [if_pos named, value, Nat.add_sub_cancel_left]
  refine .bind (.modify _ _ g) (.bind (.get _ g) ?_)
  rw [if_neg]
  · refine .bind text ?_
    rw [safe]
    exact .pure _ _ g
  · -- the words that are looked at lie within the source
    rintro ⟨-, past⟩
    rcases short with three | four
    · rw [three] at past inside
      simp at past inside
      omega
    · rw [four] at past inside
      simp at past inside
      omega

theorem newNode_run (tag : String) (data : Value) (g : Graph) :
    (Action.newRecord (Fields.ofList [("tag", .string tag), ("data", data)])).run g =
      (.ok (.object g.size), g.add (Graph.nodeRecord tag data)) := by
  have fields : Fields.ofList [("tag", .string tag), ("data", data)] =
      [("tag", .string tag), ("data", data)] := by
    rfl
  rw [fields]
  rfl

theorem gives_field {src : ByteArray} {c : Cursor} {pos : Nat} {s : String} {l : List UInt8}
    {g' : Graph} {v : Value} {fuel : Nat} (blank : c.shapes = [])
    (short : s.toUTF8.size = 3 ∨ s.toUTF8.size = 4) (safe : Reader.safeName s = s)
    (inner : Reads .envelope l fuel g v g')
    (h : Bytes.At src pos (textBytes s ++ l)) :
    Gives (do
        let k ← Reader.name src (Reader.value src .envelope fuel)
        return (k, ← Reader.value src .envelope fuel)) { c with pos } g (s, v)
      { c with pos := pos + (textBytes s ++ l).length } g' := by
  have name := gives_name (c := c) g (Reader.value src .envelope fuel) short safe h.left
  have value := inner src c _ (fun _ => blank) h.right
  rw [List.length_append, ← Nat.add_assoc]
  exact .bind name (.bind value (.pure _ _ g'))

theorem reads_node {tag : String} {l : List UInt8} {g' : Graph} {data : Value}
    (small : tag.toUTF8.size < 0x100000000) (inner : Reads .envelope l (fuel + 1) g data g') :
    Reads .envelope (nodeBytes tag l) (fuel + 2) g (.object g'.size)
      (g'.add (Graph.nodeRecord (readText tag) data)) := by
  intro src c pos blank h
  have size := gives_fixed (c := c) g h.left.tail (by decide) (by decide)
  have first := gives_field g (blank rfl) (.inl rfl) rfl (reads_text fuel g small) h.right.left
  have second := gives_field g (blank rfl) (.inr rfl) rfl inner h.right.right
  have made (t : Cursor) := Gives.lift (t := t) (s := g') (newNode_run (readText tag) data g')
  have pairs := gives_times_cons first (gives_times_cons second (gives_times_zero _ _ g'))
  rw [nodeBytes, List.length_append, List.length_append, ← Nat.add_assoc, ← Nat.add_assoc]
  exact .bind (gives_byte g h.left) (.bind size (.bind pairs (made _)))

theorem decode_run {l : List UInt8} {g' : Graph} {v : Value}
    (reads : Reads d l (l.length + 2) g v g') :
    (decode d (Bytes.ofList l)).run g = (.ok v, g') := by
  have size : (Bytes.ofList l).size = l.length := rfl
  have read := reads (Bytes.ofList l) {} 0 (fun _ => rfl) (List.prefix_refl l)
  rw [decode, run_bind, size, read]
  dsimp only
  rw [Nat.zero_add, if_neg (Nat.lt_irrefl _), if_neg (Nat.lt_irrefl _)]
  rfl

theorem exists_scalar_message {v : Value} (scalar : v.isPrimitive = true)
    (whole : ∀ units, v ≠ .brokenText units)
    (small : ∀ s, v = .string s → s.toUTF8.size < 0x100000000) :
    ∃ message, (encode d v).run g = (.ok message, g) ∧
      ∀ h, (decode d message).run h = (.ok (readScalar v), h) :=
  ⟨_, encode_run ((utters_write_scalar scalar whole _).emits g),
    fun h => decode_run h (reads_scalar _ h scalar whole small)⟩

end Marshal.MessagePack
