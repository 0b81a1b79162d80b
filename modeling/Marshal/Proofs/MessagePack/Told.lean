import Marshal.Proofs.MessagePack.Sharing

namespace Marshal

open Marshal.Action (HasItems madeList)
open Marshal.Effect
open Marshal.Description

namespace Datum

open Marshal.MessagePack (readNumber readScalar readText readText_eq_iff)

/-- A message gives the scalar back: it is no broken text and no negative zero, and does not lose a
mark at its start. -/
def Exact (v : Value) : Prop := (∀ units, v ≠ .brokenText units) ∧ readScalar v = v

theorem exact_string_iff (s : String) :
    Exact (.string s) ↔
      ¬ (MessagePack.Reader.shortText < s.toUTF8.size ∧
        s.toList.head? = some (Char.ofNat 0xfeff)) := by
  have unbroken : ∀ units, Value.string s ≠ .brokenText units := fun _ same => by cases same
  rw [Exact, readScalar, Value.string.injEq, readText_eq_iff, and_iff_right unbroken]

/-- There is one not-a-number, so of the numbers only the negative zero is not given back. -/
theorem exact_number_iff (x : Number) :
    Exact (.number x) ↔ x.isNegativeZero = false ∧ (x.isNaN = true → x = Number.nan) := by
  have unbroken : ∀ units, Value.number x ≠ .brokenText units := fun _ same => by cases same
  rw [Exact, readScalar, Value.number.injEq, and_iff_right unbroken, readNumber]
  cases negative : x.isNegativeZero with
  | true =>
    refine iff_of_false (fun same => ?_) (fun h => Bool.noConfusion h.1)
    rw [if_pos rfl] at same
    subst same
    cases negative
  | false =>
    cases nan : x.isNaN with
    | true => simp [eq_comm]
    | false => simp

end Datum

namespace MessagePack

variable {D : Type} [Description D] {d : D} {v : Value} {vs : List Value} {opened : List Anchor}
  {g : Graph}

/-- Values that hold this are conveyed, while higher objects are being written. -/
def Told (d : D) : Prop :=
  ∀ ⦃g v opened fuel⦄, Held g d v → Higher D (height d) opened g → height d ≤ fuel →
    ConveysValue D (write .whole fuel v) v opened g

theorem scalarBytes_pos (d : Dialect) (v : Value) : 0 < (scalarBytes d v).length := by
  cases v with
  | number x =>
    rw [scalarBytes, numberBytes]
    split
    · rw [natBytes, negativeBytes]
      split_ifs <;> simp [be, Bytes.toBigEndian]
    · simp
  | string s => simp [scalarBytes, textBytes, textHeader]; split_ifs <;> simp
  | _ => simp [scalarBytes, undefinedBytes]

theorem listHeader_pos (n : Nat) : 0 < (listHeader n).length := by
  rw [listHeader]
  split_ifs <;> simp

theorem size_lt_of_textBytes {src : ByteArray} {pos : Nat} {s : String}
    (here : Bytes.At src pos (textBytes s)) (small : src.size < 2 ^ 32) :
    s.toUTF8.size < 0x100000000 := by
  have length := length_textBytes s
  rcases here.le with none | le
  · exact absurd (congrArg List.length none) (scalarBytes_pos .whole (.string s)).ne'
  · omega

theorem conveysValue_scalar (held : Held g d v) (back : ∀ h, Back h d v)
    (primitive : v.isPrimitive = true) (exact : Datum.Exact v) (fuel : Nat) :
    ConveysValue D (write .whole (fuel + 1) v) v opened g := by
  refine Conveys.weaken (.of_utters (utters_write_scalar primitive exact.1 fuel) ?_)
    (scalarBytes_pos .whole v)
  intro src c pos m fuel small here room
  obtain ⟨fuel, rfl⟩ : ∃ more, fuel = more + 1 :=
    Nat.exists_eq_add_of_le' ((scalarBytes_pos .whole v).trans_le room)
  have texts : ∀ s, v = .string s → s.toUTF8.size < 0x100000000 := by
    rintro s rfl
    exact size_lt_of_textBytes here small
  have read := reads_scalar (d := .whole) fuel m.graph primitive exact.1 texts src c pos nofun here
  rw [exact.2] at read
  exact ⟨v, m.graph, read, .refl _, ⟨d, held, back _⟩, Mirror.linked_of_isPrimitive primitive⟩

theorem conveys_values {write : Value → Writer Unit}
    (each : ∀ v ∈ vs, ConveysValue D (write v) v opened g) :
    Conveys D (vs.forM write)
      (fun src fuel => Reader.times (Reader.value src .whole fuel) vs.length)
      (fun m ws => List.Forall₂ (Mirrors D g m) vs ws) vs.length opened g :=
  conveys_forM each fun _ _ _ _ ext mirrors => mirrors.later (.refl g) ext

theorem forall₂_back {data : List D} {m : Mirror} {ws : List Value}
    (held : List.Forall₂ (Held g) data vs) (mirrors : List.Forall₂ (Mirrors D g m) vs ws) :
    List.Forall₂ (Back m.graph) data ws := by
  induction held generalizing ws with
  | nil =>
    cases mirrors
    exact .nil
  | cons first _ ih =>
    cases mirrors with
    | cons mirror rest => exact .cons (mirror.back first) (ih rest)

theorem conveys_list {n : Nat} {x : Writer Unit} {Q : Mirror → List Value → Prop}
    (items : Conveys D x (fun src fuel => Reader.times (Reader.value src .whole fuel) n) Q n opened
      g) (lasting : ∀ m m' ws, m.Extends m' → Q m ws → Q m' ws) :
    Conveys D (do emit (listHeader n); x) (fun src fuel => Reader.value src .whole fuel)
      (fun m w => (∃ ws, m.graph.objectOf? w = some (madeList ws) ∧ Q m ws) ∧ m.Fresh w) 1 opened
      g := by
  refine Conveys.weaken (.prefixed (.emit _) (listHeader_pos _) items ?_)
    ((listHeader_pos _).trans_le (Nat.le_add_right _ _))
  intro src c t pos h m ws fuel inside small here read sort
  have ext := Graph.extends_add m.graph (madeList ws)
  exact ⟨_, _, gives_list here (inside.trans_lt small) read, ext,
    ⟨ws, Graph.get?_add_size _ _, lasting _ _ _ (Mirror.extends_onto ext) sort⟩,
    Mirror.fresh_onto ext le_rfl (Graph.size_lt_size_add _ _)⟩

theorem gives_write_items {g' : Graph} {t t' : Draft} {ref : Ref} {c : Class} {fuel : Nat}
    (found : g.get? ref = some { kind := some c, body := .list (vs.map some) })
    (within : c.isWithin .array = true)
    (ran : Gives (once (.object ref) do
      emit (listHeader vs.length)
      vs.forM (write .whole fuel)) t g () t' g') :
    Gives (write .whole (fuel + 1) (.object ref)) t g () t' g' := by
  have items : (vs.map some).map (·.getD .undefined) = vs := by
    rw [List.map_map]
    exact List.map_id vs
  refine gives_write_list (d := .whole) found within ?_
  rw [items, List.length_map]
  exact ran

theorem conveys_items {fuel : Nat}
    (each : ∀ v ∈ vs, ConveysValue D (write .whole fuel v) v opened g) :
    Conveys D (do emit (listHeader vs.length); vs.forM (write .whole fuel))
      (fun src fuel => Reader.value src .whole fuel)
      (fun m w => (∃ ws, m.graph.objectOf? w = some (madeList ws) ∧
        List.Forall₂ (Mirrors D g m) vs ws) ∧ m.Fresh w) 1 opened g :=
  conveys_list (conveys_values each) fun _ _ _ ext mirrors =>
    mirrors.imp fun _ _ mirror => mirror.later (.refl g) ext

theorem conveysValue_list {ref : Ref} {c : Class} {fuel : Nat} (held : Held g d (.object ref))
    (higher : Higher D (height d) opened g)
    (found : g.get? ref = some { kind := some c, body := .list (vs.map some) })
    (within : c.isWithin .array = true)
    (each : ∀ v ∈ vs, ConveysValue D (write .whole fuel v) v (.object ref :: opened) g)
    (back : ∀ (m : Mirror) w ws, m.graph.objectOf? w = some (madeList ws) →
      List.Forall₂ (Mirrors D g m) vs ws → Back m.graph d w) :
    ConveysValue D (write .whole (fuel + 1) (.object ref)) (.object ref) opened g := by
  have inner : ConveysObject (do
      emit (listHeader vs.length)
      vs.forM (write .whole fuel)) d (.object ref :: opened) g :=
    (conveys_items each).imp fun m w ⟨⟨ws, found', mirrors⟩, fresh⟩ =>
      ⟨back m w ws found' mirrors, fresh⟩
  exact (ConveysValue.once held higher inner).of_gives fun t k t' k' ext ran =>
    gives_write_items (ext _ _ found) within ran

theorem Told.exists_message (told : Told d) (held : Held g d v)
    (room : height d ≤ 4 * g.size + 8) :
    ∃ bytes k, (encode .whole v).run g = (.ok bytes, k) ∧ g.Extends k ∧
      (bytes.size < 2 ^ 32 → ∀ h, ∃ w last, (decode .whole bytes).run h = (.ok w, last) ∧
        h.Extends last ∧ Back last d w) := by
  have unmet : Draft.Sound {} g := ⟨nofun, rfl⟩
  have unopened : Higher D (height d) [] g := nofun
  obtain ⟨draft, k, pieces, gives, grown, hears⟩ := told held unopened room {} g (.refl g) unmet
  have message : finish draft = Bytes.ofList (render draft.shared pieces) := by
    rw [finish_eq, grown.added, List.append_nil]
  refine ⟨finish draft, k, encode_run_of_gives gives, grown.ext, fun small h => ?_⟩
  have length : (finish draft).size = (render draft.shared pieces).length := by
    rw [message]
    rfl
  -- whatever is shared has taken bytes of its own
  have few : draft.shared.length < 2 ^ 32 := by
    have := grown.few draft.shared
    rw [List.length_nil] at this
    omega
  have blank : Knows D draft.shared g (Draft.notes {}) [] {} ⟨h, [], nofun, nofun⟩ :=
    ⟨⟨nofun, nofun⟩, nofun, nofun, nofun⟩
  obtain ⟨w, c, m, read, heard⟩ := hears draft.shared (List.prefix_refl _) few (finish draft) {} 0 _
    ((finish draft).size + 2) small blank (by rw [message]; exact List.prefix_refl _) (by omega)
  refine ⟨w, m.graph, ?_, heard.ext.graph, Mirrors.back heard.sort held⟩
  rw [decode, run_bind, read]
  dsimp only
  rw [Nat.zero_add, length, if_neg (Nat.lt_irrefl _), if_neg (Nat.lt_irrefl _)]
  rfl

end MessagePack

end Marshal
