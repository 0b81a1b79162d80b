import Marshal.Proofs.Held
import Marshal.Proofs.MessagePack.Told
import Marshal.Proofs.Table.Payload

namespace Marshal

open Marshal.Action (madeList)
open Marshal.Effect
open Marshal.MessagePack
open Marshal.MessagePack.Reader (gives_byte gives_take)

namespace Datum

mutual

def Sendable : Datum → Prop
  | scalar v => Exact v
  | list items => AllSendable items
  | column name values => Exact name ∧ values.Sendable
  | table names columns => (∀ name ∈ names, Exact name) ∧ AllSendable columns
  | _ => True

def AllSendable : List Datum → Prop
  | [] => True
  | d :: rest => d.Sendable ∧ AllSendable rest

end

theorem allSendable_iff {data : List Datum} : AllSendable data ↔ ∀ d ∈ data, d.Sendable := by
  induction data with
  | nil => simp [AllSendable]
  | cons d rest ih => rw [AllSendable, List.forall_mem_cons, ih]

theorem height_columnPayload (name : Value) (values : Datum) :
    (columnPayload name values).height = values.height + 1 := by
  have positive := values.height_pos
  change max 1 (max values.height 0) + 1 = values.height + 1
  omega

theorem height_tablePayload_le (names : List Value) (columns : List Datum) :
    (tablePayload names columns).height ≤ slotsHeight columns + 2 := by
  rw [tablePayload, height]
  refine Nat.succ_le_succ (slotsHeight_le fun d payload => ?_)
  obtain ⟨pair, mem, rfl⟩ := List.mem_map.1 payload
  rw [height_columnPayload]
  exact Nat.succ_le_succ (height_le_slotsHeight (List.of_mem_zip mem).2)

end Datum

namespace MessagePack

section Bytes

theorem utters_writeStorage (code : UInt8) (bytes : ByteArray) :
    Utters (writeStorage code bytes) (storageBytes code bytes) := by
  have pieces := (Utters.emit (lengthHeader (bytes.size + 1) ++ [arrayType, code])).bind
    (.emitBytes bytes)
  rwa [List.append_assoc] at pieces

end Bytes

variable {d : Datum} {data : List Datum}

theorem told_scalar {v : Value} (exact : Datum.Exact v) : Told (Datum.scalar v) := by
  rintro g w opened fuel ⟨rfl, primitive⟩ - room
  obtain ⟨fuel, rfl⟩ : ∃ more, fuel = more + 1 := Nat.exists_eq_add_of_le' room
  have scalar (known : Bool) (k : Graph) : (Datum.scalar w).HeldBy known k w := ⟨rfl, primitive⟩
  exact conveysValue_scalar (scalar true g) (scalar false) primitive exact fuel

theorem conveysObject_of_reads {x : Writer Unit} {l : List UInt8} {kind : DType} {bytes : ByteArray}
    {c : Class} (whole : bytes.size % kind.width = 0) (small : bytes.size < 2 ^ 53)
    (within : c.isWithin (.numbers kind) = true)
    (plain : kind = .uint8 → c.member? "tag" = none ∨ c.member? "data" = none)
    (utters : Utters x l) (longer : 0 < l.length)
    (reads : ∀ fuel h, l.length < 2 ^ 32 → Reads .whole l (fuel + 1) h (.object h.size)
      (h.add (.bare c (.numbers kind bytes)))) (opened : List Anchor) (g : Graph) :
    ConveysObject x (Datum.numbers kind bytes) opened g := by
  refine Conveys.weaken (.of_utters utters ?_) longer
  intro src cursor pos m fuel fits here room
  obtain ⟨fuel, rfl⟩ : ∃ more, fuel = more + 1 :=
    Nat.exists_eq_add_of_le' (longer.trans_le room)
  have le : l.length < 2 ^ 32 := by
    rcases here.le with rfl | le
    · exact absurd longer (Nat.lt_irrefl 0)
    · omega
  have ext := Graph.extends_add m.graph (.bare c (.numbers kind bytes))
  exact ⟨_, _, reads fuel m.graph le src cursor pos nofun here, ext,
    ⟨whole, small, c, Graph.get?_add_size _ _, within, plain, nofun⟩,
    Mirror.fresh_onto ext le_rfl (Graph.size_lt_size_add _ _)⟩

theorem conveysObject_numbers {c : Class} {kind : DType} {bytes : ByteArray}
    (whole : bytes.size % kind.width = 0) (small : bytes.size < 2 ^ 53)
    (within : c.isWithin (.numbers kind) = true) (known : c = .numbers kind ∨ c = .bytes)
    (opened : List Anchor) (g : Graph) :
    ConveysObject (writeNumbers .whole c kind bytes) (Datum.numbers kind bytes) opened g := by
  rcases known with rfl | rfl
  · have own : writeNumbers .whole (.numbers kind) kind bytes =
        writeStorage (UInt8.ofNat (DType.all.idxOf kind)) bytes := by
      cases kind <;> rfl
    have length := length_storageBytes (UInt8.ofNat (DType.all.idxOf kind)) bytes
    rw [own]
    exact conveysObject_of_reads whole small within (fun _ => .inl rfl) (utters_writeStorage _ _)
      (by omega)
      (fun fuel h le => reads_storage fuel h whole (by omega)) opened g
  · have bytewise : kind = .uint8 := by
      cases kind <;> first | rfl | exact absurd within (by decide)
    subst bytewise
    have length := length_binaryBytes bytes
    have header : 0 < (binaryHeader bytes.size).length := by
      rw [binaryHeader]
      split_ifs <;> simp
    exact conveysObject_of_reads whole small within (fun _ => .inl rfl) (utters_writeBinary bytes)
      (by omega)
      (fun fuel h le => reads_binary fuel h (by omega)) opened g

theorem told_numbers (kind : DType) (bytes : ByteArray) : Told (Datum.numbers kind bytes) := by
  intro g v opened fuel held higher room
  obtain ⟨whole, small, c, found, within, -, known⟩ := id held
  obtain ⟨fuel, rfl⟩ : ∃ more, fuel = more + 1 := Nat.exists_eq_add_of_le' room
  cases v with
  | object ref =>
    have numbers : c.isWithin .typedArray = true :=
      Class.isWithin_trans within (by cases kind <;> decide)
    refine Conveys.of_gives
      (ConveysValue.once held higher (conveysObject_numbers whole small within (known rfl) _ _))
      fun t k t' k' ext ran => ?_
    exact gives_write_numbers (d := .whole) (ext _ _ found) rfl numbers rfl ran
  | _ => cases found

theorem told_list (told : ∀ d ∈ data, Told d) : Told (Datum.list data) := by
  intro g v opened fuel held higher room
  obtain ⟨c, vs, found, within, all⟩ := id held
  obtain ⟨fuel, rfl⟩ : ∃ more, fuel = more + 1 :=
    Nat.exists_eq_add_of_le' ((Nat.le_add_left 1 _).trans room)
  cases v with
  | object ref =>
    refine conveysValue_list held higher found within (fun w mem => ?_)
      fun m w ws found' mirrors => ?_
    · obtain ⟨part, mem, heldItem⟩ := exists_of_forall₂_right (Datum.allHeldBy_iff.1 all) mem
      have low := Datum.height_le_slotsHeight mem
      exact told part mem heldItem (.cons held (Nat.lt_succ_of_le low) higher)
        (low.trans (Nat.le_of_succ_le_succ room))
    · exact Datum.heldBy_madeList found'
        (Datum.allHeldBy_iff.2 (forall₂_back (Datum.allHeldBy_iff.1 all) mirrors))
  | _ => cases found

/-- The classes whose instances go into messages as payloads, with the type that says so. -/
inductive Packed : Class → UInt8 → (Value → Action Value) → (Value → Action Value) → Prop where
  | column : Packed .column columnType Table.writeColumn Table.readColumn
  | table : Packed .table tableType Table.writeTable Table.readTable

section Payloads

variable {c : Class} {type : UInt8} {pack unpack : Value → Action Value}

theorem gives_write_packed (sort : Packed c type pack unpack) {g g' : Graph} {t t' : Draft}
    {ref : Ref} {fields : List (String × Value)}
    (found : g.get? ref = some { kind := some c, fields })
    (visible : fields.lookup "constructor" = none) {fuel : Nat}
    (ran : Gives (once (.object ref) do
      emit (tagBytes type)
      let payload ← pack (.object ref)
      write .whole fuel payload) t g () t' g') :
    Gives (write .whole (fuel + 1) (.object ref)) t g () t' g' := by
  rw [write]
  refine .bind (.lift (Action.objectOf?_run _ g)) ?_
  rw [Graph.objectOf?_object, found]
  have written : writtenClass? { kind := some c, fields } = some c := by
    rw [writtenClass?, visible]
    rfl
  simp only [written]
  cases sort <;> exact ran

theorem gives_value_packed (sort : Packed c type pack unpack) {src : ByteArray} {cursor t : Cursor}
    {pos fuel : Nat} {g g' last : Graph} {w v : Value} (h : Bytes.At src pos (tagBytes type))
    (read : Gives (Reader.value src .whole fuel) { cursor with pos := pos + 3 } g w t g')
    (ran : (unpack w).run g' = (.ok v, last)) :
    Gives (Reader.value src .whole (fuel + 1)) { cursor with pos } g v t last := by
  refine .bind (gives_byte g h) ?_
  change Gives (Reader.single src (Reader.value src .whole fuel)) _ g v t last
  refine .bind (gives_byte g h.tail) ?_
  have data := gives_take (c := cursor) g h.tail.tail
  dsimp only
  cases sort with
  | column =>
    rw [if_neg (by decide)]
    refine .bind data ?_
    rw [if_pos rfl]
    exact .bind read (.lift ran)
  | table =>
    rw [if_neg (by decide)]
    refine .bind data ?_
    rw [if_neg (by decide), if_pos rfl]
    exact .bind read (.lift ran)

theorem told_packed (sort : Packed c type pack unpack) {payload : Datum}
    (packs : Datum.Packs pack unpack payload d) (own : d.class? = some c)
    (lt : payload.height < d.height) (told : Told payload)
    (fields : ∀ g v, d.HeldBy true g v → ∃ ref fields, v = .object ref ∧
      g.get? ref = some { kind := some c, fields } ∧ fields.lookup "constructor" = none) :
    Told d := by
  intro g v opened fuel held higher room
  obtain ⟨fuel, rfl⟩ : ∃ more, fuel = more + 1 :=
    Nat.exists_eq_add_of_le' (d.height_pos.trans_le room)
  obtain ⟨ref, fields, rfl, found, visible⟩ := fields g v held
  -- the payload is conveyed wherever it stands
  have inner : Conveys Datum (do let w ← pack (.object ref); write .whole fuel w)
      (fun src fuel => Reader.value src .whole fuel) (fun m w => payload.HeldBy false m.graph w) 1
      (.object ref :: opened) g := by
    refine conveys_after fun draft k ext sound => ?_
    obtain ⟨w, k₁, ran, ext₁, packed⟩ := (packs k _ (held.of_extends ext)).1
    have below : Higher Datum payload.height (.object ref :: opened) k₁ :=
      (Higher.cons held lt higher).of_extends (ext.trans ext₁)
    have conveys := told packed below (Nat.le_of_lt_succ (lt.trans_le room))
    exact ⟨w, k₁, ran, ext₁, conveys.imp (fun m w mirrors => mirrors.back packed) draft k₁
      (.refl k₁) (sound.later ext₁)⟩
  have tagged : ConveysObject (do
      emit (tagBytes type)
      let w ← pack (.object ref)
      write .whole fuel w) d (.object ref :: opened) g := by
    refine Conveys.weaken (.prefixed (.emit _) (by cases sort <;> decide) inner ?_)
      (Nat.le_add_left _ _)
    intro src c t pos h m w fuel _ _ here read back
    obtain ⟨ref', last, ran, ext, le, held'⟩ := (packs g _ held).2 m.graph w back
    exact ⟨.object ref', last, gives_value_packed sort here read ran, ext, held',
      Mirror.fresh_onto ext le held'.ref_lt⟩
  refine Conveys.of_gives (ConveysValue.once held higher tagged) fun t k t' k' ext ran => ?_
  exact gives_write_packed sort (ext _ _ found) visible ran

theorem told_column {name : Value} {values : Datum} (exact : Datum.Exact name)
    (told : Told values) : Told (Datum.column name values) := by
  refine told_packed .column (Datum.packs_column name values) rfl ?_
    (told_list (List.forall_mem_cons.2 ⟨told_scalar exact, List.forall_mem_singleton.2 told⟩)) ?_
  · rw [Datum.height_columnPayload]
    exact Nat.lt_succ_self _
  · rintro g v ⟨-, w, found, -⟩
    cases v with
    | object ref => exact ⟨ref, _, rfl, found, rfl⟩
    | _ => cases found

theorem told_table {names : List Value} {columns : List Datum}
    (exact : ∀ name ∈ names, Datum.Exact name) (told : ∀ d ∈ columns, Told d) :
    Told (Datum.table names columns) := by
  refine told_packed .table (Datum.packs_table names columns) rfl ?_ (told_list ?_) ?_
  · exact Nat.lt_succ_of_le (Datum.height_tablePayload_le names columns)
  · intro payload packed
    obtain ⟨pair, mem, rfl⟩ := List.mem_map.1 packed
    obtain ⟨name, values⟩ := List.of_mem_zip mem
    exact told_list
      (List.forall_mem_cons.2 ⟨told_scalar (exact _ name),
        List.forall_mem_singleton.2 (told _ values)⟩)
  · rintro g v ⟨-, _, _, _, ⟨⟨_, found, _⟩, _⟩, _⟩
    cases v with
    | object ref => exact ⟨ref, _, rfl, found, rfl⟩
    | _ => cases found

end Payloads

theorem told_of_sendable (sendable : d.Sendable) : Told d := by
  induction d with
  | scalar v => exact told_scalar sendable
  | numbers kind bytes => exact told_numbers kind bytes
  | list items ih =>
    exact told_list fun part mem => ih part mem (Datum.allSendable_iff.1 sendable part mem)
  | column name values ih => exact told_column sendable.1 (ih sendable.2)
  | table names columns ih =>
    exact told_table sendable.1 fun part mem =>
      ih part mem (Datum.allSendable_iff.1 sendable.2 part mem)
  | bigint | date | pattern | map | set => exact fun _ _ _ _ held => held.elim

theorem exists_message {g : Graph} {v : Value} (held : d.HeldBy true g v)
    (sendable : d.Sendable) :
    ∃ bytes k, (encode .whole v).run g = (.ok bytes, k) ∧ g.Extends k ∧
      (bytes.size < 2 ^ 32 → ∀ h, ∃ w last, (decode .whole bytes).run h = (.ok w, last) ∧
        h.Extends last ∧ d.HeldBy false last w) :=
  (told_of_sendable sendable).exists_message held held.height_le_size

/-- A number array of a class that messages do not know is written with a code that stands for no
class, which is refused. -/
theorem exists_refused_message {g : Graph} {v : Value} {kind : DType} {bytes : ByteArray}
    (held : (Datum.numbers kind bytes).HeldBy false g v)
    (foreign : ¬ (Datum.numbers kind bytes).HeldBy true g v)
    (small : bytes.size + 1 < 0x100000000) :
    ∃ message, (encode .whole v).run g = (.ok message, g) ∧
      ∀ h, (decode .whole message).run h = (.error (unknownStorage "255"), h) := by
  obtain ⟨whole, few, c, found, within, plain, -⟩ := held
  obtain ⟨own, bytewise⟩ : c ≠ .numbers kind ∧ c ≠ .bytes :=
    not_or.1 fun known => foreign ⟨whole, few, c, found, within, plain, fun _ => known⟩
  cases v with
  | object ref =>
    have numbers : c.isWithin .typedArray = true :=
      Class.isWithin_trans within (by cases kind <;> decide)
    have code : storageCode (some c) kind = 0xff :=
      if_neg fun same => own (Option.some.inj (eq_of_beq same))
    have utters : Utters (writeNumbers .whole c kind bytes) (storageBytes 0xff bytes) := by
      rw [writeNumbers, if_neg bytewise, code]
      exact utters_writeStorage 0xff bytes
    obtain ⟨pieces, gives, out⟩ := utters
      { seen := [.object ref], pieces := [.anchor (.object ref)] } g
    have once : Gives (once (.object ref) (writeNumbers .whole c kind bytes)) {} g ()
        { seen := [.object ref], pieces := pieces ++ [.anchor (.object ref)] } g :=
      .bind (.get _ g) (.bind (.modify _ _ g) gives)
    have written : Gives (write .whole (4 * g.size + 8) (.object ref)) {} g ()
        { seen := [.object ref], pieces := pieces ++ [.anchor (.object ref)] } g :=
      gives_write_numbers found rfl numbers rfl once
    refine ⟨Bytes.ofList (storageBytes 0xff bytes), ?_, fun h => ?_⟩
    · rw [encode_run_of_gives written, finish_eq, render_anchor, out]
      rfl
    · have here : Bytes.At (Bytes.ofList (storageBytes 0xff bytes)) 0 (storageBytes 0xff bytes) :=
        List.prefix_refl _
      have read := run_value_storage (d := .whole) (c := {})
        ((Bytes.ofList (storageBytes 0xff bytes)).size + 1) h here small
      rw [decode, run_bind, read, storageOf_run_unknown h (by decide)]
      rfl
  | _ => cases found

end MessagePack

end Marshal
