import Marshal.Json.Codec
import Marshal.Proofs.Content
import Marshal.Proofs.Json
import Marshal.Proofs.MessagePack.Pieces

namespace Marshal

open Marshal.Action (madeList)
open Marshal.Effect

namespace Content

/-- A content that a document gives back as it was: null, booleans, safe whole numbers and texts, in
lists and plain objects. -/
inductive Documented : Content → Prop
  | null : Documented (scalar .null)
  | bool (b : Bool) : Documented (scalar (.bool b))
  | number {x : Number} {n : Int} (safe : x.safeInt? = some n) : Documented (scalar (.number x))
  | string (s : String) : Documented (scalar (.string s))
  | list {items : List Content} (all : ∀ c ∈ items, Documented c) : Documented (list items)
  | record (names : List String) {values : List Content} (all : ∀ c ∈ values, Documented c) :
    Documented (record names values)

mutual

def document : Content → Json
  | scalar (.bool b) => .bool b
  | scalar (.number x) => .number x
  | scalar (.string s) => .string s
  | list items => .array (documents items)
  | record names values => .object (names.zip (documents values))
  | _ => .null

def documents : List Content → List Json
  | [] => []
  | c :: rest => c.document :: documents rest

end

theorem documents_eq_map (contents : List Content) :
    documents contents = contents.map document := by
  induction contents with
  | nil => rfl
  | cons c rest ih => rw [documents, ih, List.map_cons]

theorem Documented.exact {c : Content} (documented : c.Documented) : c.document.Exact := by
  induction documented with
  | null => exact .null
  | bool b => exact .bool b
  | number safe => exact .number safe
  | string s => exact .string s
  | list _ ih =>
    refine .array fun j mem => ?_
    rw [documents_eq_map] at mem
    obtain ⟨c, inside, rfl⟩ := List.mem_map.1 mem
    exact ih c inside
  | record names _ ih =>
    refine .object fun member mem => ?_
    have part := (List.of_mem_zip mem).2
    rw [documents_eq_map] at part
    obtain ⟨c, inside, same⟩ := List.mem_map.1 part
    exact same ▸ ih c inside

theorem HeldBy.not_function {g : Graph} {c : Content} {v : Value} (held : c.HeldBy g v) :
    (g.objectOf? v).map Object.body ≠ some .function := by
  intro function
  obtain ⟨o, found, body⟩ := Option.map_eq_some_iff.1 function
  cases c with
  | scalar => exact HeldBy.not_scalar found held
  | record =>
    obtain ⟨-, _, found', _⟩ := held
    cases found.symm.trans found'
    cases body
  | list | map | set =>
    obtain ⟨_, found', _⟩ := held
    cases found.symm.trans found'
    cases body

end Content

namespace Json

variable {g h : Graph} {c : Content} {v : Value} {contents : List Content} {vs : List Value}

/-- Every object that is open holds something higher. -/
def Outside (g : Graph) (within : List Ref) (height : Nat) : Prop :=
  ∀ ref ∈ within, ∃ c : Content, c.HeldBy g (.object ref) ∧ height < c.height

theorem Outside.notMem {within : List Ref} {ref : Ref} (outside : Outside g within c.height)
    (held : c.HeldBy g (.object ref)) : within.contains ref = false := by
  rw [Bool.eq_false_iff, ne_eq, List.contains_iff_mem]
  intro mem
  obtain ⟨c', held', higher⟩ := outside ref mem
  rw [held.unique held'] at higher
  exact absurd higher (lt_irrefl _)

theorem Outside.cons {within : List Ref} {ref : Ref} (outside : Outside g within c.height)
    (held : c.HeldBy g (.object ref)) {n : Nat} (lower : n < c.height) :
    Outside g (ref :: within) n :=
  List.forall_mem_cons.2 ⟨⟨c, held, lower⟩, fun other mem =>
    (outside other mem).imp fun _ => .imp_right lower.trans⟩

/-- A record shows itself unless a function stands under the name that is asked. -/
theorem shown_record_run {fields : Fields} (plain : ∀ own, fields.lookup "toJSON" = some own →
    (g.objectOf? own).map Object.body ≠ some .function) :
    (shown v (.record fields)).run g = (.ok v, g) := by
  rw [shown]
  cases own : (Object.record fields).fields.lookup "toJSON" with
  | none => rfl
  | some own' =>
    dsimp only
    rw [run_bind, Action.objectOf?_run]
    have other := plain own' own
    dsimp only
    split
    · next function => exact absurd function other
    · rfl

section Steps

variable {fuel : Nat} {within : List Ref} {ref : Ref}

theorem ofValueWith_list_run (found : g.objectOf? (.object ref) = some (madeList vs))
    (outside : within.contains ref = false) :
    (ofValueWith (fuel + 1) within (.object ref)).run g =
      ((vs.map some).mapM (fun item => do
        return (← ofValueWith fuel (ref :: within) (item.getD .undefined)).getD null) >>=
          fun documents => pure (some (array documents)) : Action (Option Json)).run g := by
  have itself : (shown (.object ref) (madeList vs)).run g = (.ok (.object ref), g) := rfl
  rw [ofValueWith, run_bind, Action.objectOf?_run, found]
  dsimp only
  rw [run_bind, itself]
  dsimp only
  rw [run_bind, Action.objectOf?_run, found]
  dsimp only [madeList]
  rw [outside, if_neg Bool.false_ne_true]

theorem ofValueWith_record_run {fields : Fields}
    (found : g.objectOf? (.object ref) = some (.record fields))
    (plain : ∀ own, fields.lookup "toJSON" = some own →
      (g.objectOf? own).map Object.body ≠ some .function)
    (outside : within.contains ref = false) :
    (ofValueWith (fuel + 1) within (.object ref)).run g =
      (fields.filterMapM (fun (name, w) => do
        return (← ofValueWith fuel (ref :: within) w).map (name, ·)) >>=
          fun members => pure (some (object members)) : Action (Option Json)).run g := by
  have itself : (shown (.object ref) (.record fields)).run g = (.ok (.object ref), g) :=
    shown_record_run plain
  rw [ofValueWith, run_bind, Action.objectOf?_run, found]
  dsimp only
  rw [run_bind, itself]
  dsimp only
  rw [run_bind, Action.objectOf?_run, found]
  dsimp only [Object.record]
  rw [outside, if_neg Bool.false_ne_true]
  rfl

end Steps

/-- Whatever holds the content is written as its document, inside objects that hold something
higher. -/
def Writes (c : Content) : Prop :=
  ∀ ⦃g : Graph⦄ ⦃fuel : Nat⦄ ⦃within : List Ref⦄ ⦃v : Value⦄, c.height ≤ fuel →
    Outside g within c.height → c.HeldBy g v →
      (ofValueWith fuel within v).run g = (.ok (some c.document), g)

theorem writes_scalar (direct : ∀ fuel within g,
    (ofValueWith (fuel + 1) within v).run g = (.ok (some (Content.scalar v).document), g)) :
    Writes (.scalar v) := by
  rintro g fuel within _ room - ⟨rfl, -⟩
  obtain ⟨fuel, rfl⟩ : ∃ more, fuel = more + 1 := Nat.exists_eq_add_of_le' room
  exact direct fuel within g

theorem forall₂_written {fuel : Nat} {within : List Ref} {ref : Ref}
    (writes : ∀ c ∈ contents, Writes c) (held : c.HeldBy g (.object ref))
    (below : Content.slotsHeight contents < c.height) (room : c.height ≤ fuel + 1)
    (outside : Outside g within c.height) (all : Content.AllHeldBy g contents vs) :
    List.Forall₂ (fun part v =>
      (ofValueWith fuel (ref :: within) v).run g = (.ok (some part.document), g)) contents vs := by
  refine forall₂_imp_of_mem (Content.allHeldBy_iff.1 all) fun part mem v heldPart => ?_
  have lower := (Content.height_le_slotsHeight mem).trans_lt below
  exact writes part mem (Nat.le_of_lt_succ (lower.trans_le room)) (outside.cons held lower) heldPart

theorem writes_list {items : List Content} (writes : ∀ c ∈ items, Writes c) :
    Writes (.list items) := by
  intro g fuel within v room outside held
  obtain ⟨fuel, rfl⟩ : ∃ more, fuel = more + 1 :=
    Nat.exists_eq_add_of_le' ((Content.height_pos _).trans_le room)
  obtain ⟨vs, found, all⟩ := id held
  cases v with
  | object ref =>
    have parts := forall₂_written writes held (Nat.lt_succ_self _) room outside all
    rw [ofValueWith_list_run found (outside.notMem held), run_bind,
      Action.mapM_run_of_forall₂ (m := items) (r := Content.document)
        (List.forall₂_map_left_iff.2 (parts.flip.imp ?_)), Content.document,
      Content.documents_eq_map]
    · rfl
    · intro v part written
      rw [run_bind, Option.getD_some, written]
      rfl
  | _ => cases found

theorem forall₂_zip_fields {R : Content → Value → Prop} {fields : Fields}
    (all : List.Forall₂ R contents (fields.map Prod.snd)) :
    List.Forall₂ (fun field (member : String × Content) =>
      field.1 = member.1 ∧ R member.2 field.2) fields (fields.keys.zip contents) := by
  induction fields generalizing contents with
  | nil => exact .nil
  | cons field rest ih =>
    cases all with
    | cons first all => exact .cons ⟨rfl, first⟩ (ih all)

theorem writes_record {names : List String} {values : List Content}
    (writes : ∀ c ∈ values, Writes c) : Writes (.record names values) := by
  intro g fuel within v room outside held
  obtain ⟨fuel, rfl⟩ : ∃ more, fuel = more + 1 :=
    Nat.exists_eq_add_of_le' ((Content.height_pos _).trans_le room)
  obtain ⟨kept, fields, found, rfl, all⟩ := id held
  cases v with
  | object ref =>
    have parts := forall₂_written writes held (Nat.lt_succ_self _) room outside all
    rw [ofValueWith_record_run found ?_ (outside.notMem held), run_bind,
      Action.filterMapM_run_of_forall₂ (m := fields.keys.zip values)
        (r := fun member => (member.1, member.2.document)) ((forall₂_zip_fields parts).imp ?_),
      Content.document, Content.documents_eq_map, List.zip_map_right]
    · rfl
    · rintro ⟨name, v⟩ ⟨_, part⟩ ⟨rfl, written⟩
      dsimp only at written ⊢
      rw [run_bind, written]
      rfl
    · intro own listed
      obtain ⟨before, after, rfl, -⟩ := List.lookup_eq_some_iff.1 listed
      obtain ⟨part, -, heldPart⟩ := exists_of_forall₂_right (Content.allHeldBy_iff.1 all)
        (b := own) (by simp)
      exact heldPart.not_function
  | _ => cases found

theorem writes_of_documented (documented : c.Documented) : Writes c := by
  induction documented with
  | null => exact writes_scalar fun _ _ _ => rfl
  | bool b => exact writes_scalar fun _ _ _ => rfl
  | number safe => exact writes_scalar fun _ _ _ => rfl
  | string s => exact writes_scalar fun _ _ _ => rfl
  | list _ ih => exact writes_list ih
  | record _ _ ih => exact writes_record ih

theorem encode_run (documented : c.Documented) (held : c.HeldBy g v) :
    (encode v).run g = (.ok c.document.text.toUTF8, g) := by
  have written := writes_of_documented documented held.height_le_size
    (fun _ mem => absurd mem List.not_mem_nil) held
  rw [encode, run_bind, ofValue, run_bind, run_get]
  dsimp only
  rw [written]
  rfl

section Built

/-- The document of the content is read as a value that holds it. -/
def Builds (c : Content) : Prop :=
  ∀ h : Graph, ∃ w last, (toValue c.document).run h = (.ok w, last) ∧ h.Extends last ∧
    c.HeldBy last w

theorem exists_toValues_run (builds : ∀ c ∈ contents, Builds c) (h : Graph) :
    ∃ ws last, (toValues (Content.documents contents)).run h = (.ok ws, last) ∧ h.Extends last ∧
      Content.AllHeldBy last contents ws := by
  induction contents generalizing h with
  | nil => exact ⟨[], h, rfl, .refl h, rfl⟩
  | cons c rest ih =>
    obtain ⟨first, builds⟩ := List.forall_mem_cons.1 builds
    obtain ⟨w, middle, ran, ext, held⟩ := first h
    obtain ⟨ws, last, ran', ext', all⟩ := ih builds middle
    refine ⟨w :: ws, last, ?_, ext.trans ext', w, ws, rfl, held.of_extends ext', all⟩
    rw [Content.documents, toValues, run_bind, ran]
    dsimp only
    rw [run_bind, ran']
    rfl

theorem exists_toFields_run {names : List String} (builds : ∀ c ∈ contents, Builds c)
    (length : names.length = contents.length) (h : Graph) :
    ∃ fields last, (toFields (names.zip (Content.documents contents))).run h = (.ok fields, last) ∧
      h.Extends last ∧ Fields.keys fields = names ∧
      Content.AllHeldBy last contents (fields.map Prod.snd) := by
  induction contents generalizing names h with
  | nil =>
    obtain rfl := List.eq_nil_of_length_eq_zero length
    exact ⟨[], h, rfl, .refl h, rfl, rfl⟩
  | cons c rest ih =>
    obtain ⟨first, builds⟩ := List.forall_mem_cons.1 builds
    obtain ⟨name, names, rfl⟩ := List.exists_cons_of_length_eq_add_one length
    obtain ⟨w, middle, ran, ext, held⟩ := first h
    obtain ⟨fields, last, ran', ext', rfl, all⟩ := ih builds (Nat.succ.inj length) middle
    refine ⟨(name, w) :: fields, last, ?_, ext.trans ext', rfl, w, _, rfl, held.of_extends ext',
      all⟩
    rw [Content.documents, List.zip_cons_cons, toFields, run_bind, ran]
    dsimp only
    rw [run_bind, ran']
    rfl

theorem builds_list {items : List Content} (builds : ∀ c ∈ items, Builds c) :
    Builds (.list items) := by
  intro h
  obtain ⟨ws, last, ran, ext, all⟩ := exists_toValues_run builds h
  have grown := Graph.extends_add last (madeList ws)
  refine ⟨.object last.size, last.add (madeList ws), ?_, ext.trans grown, ws,
    Graph.get?_add_size _ _, all.of_extends grown⟩
  rw [Content.document, toValue, run_bind, ran]
  rfl

theorem builds_record {names : List String} {values : List Content}
    (builds : ∀ c ∈ values, Builds c) (kept : Fields.Kept names)
    (length : names.length = values.length) : Builds (.record names values) := by
  intro h
  obtain ⟨fields, last, ran, ext, rfl, all⟩ := exists_toFields_run builds length h
  have grown := Graph.extends_add last (.record fields)
  refine ⟨.object last.size, last.add (.record fields), ?_, ext.trans grown, kept, fields,
    Graph.get?_add_size _ _, rfl, all.of_extends grown⟩
  rw [Content.document, toValue, run_bind, ran]
  -- the fields come in the order in which an object keeps them
  dsimp only
  rw [Fields.ofList_eq_self kept]
  rfl

theorem builds_of_documented (documented : c.Documented) (held : c.HeldBy g v) : Builds c := by
  induction documented generalizing v with
  | null => exact fun h => ⟨_, h, rfl, .refl h, rfl, rfl⟩
  | bool b => exact fun h => ⟨_, h, rfl, .refl h, rfl, rfl⟩
  | number safe => exact fun h => ⟨_, h, rfl, .refl h, rfl, rfl⟩
  | string s => exact fun h => ⟨_, h, rfl, .refl h, rfl, rfl⟩
  | list _ ih =>
    obtain ⟨vs, found, all⟩ := held
    refine builds_list fun c mem => ?_
    obtain ⟨w, -, part⟩ := exists_of_forall₂_left (Content.allHeldBy_iff.1 all) mem
    exact ih c mem part
  | record _ _ ih =>
    obtain ⟨kept, fields, found, rfl, all⟩ := held
    have parts := Content.allHeldBy_iff.1 all
    refine builds_record (fun c mem => ?_) kept ?_
    · obtain ⟨w, -, part⟩ := exists_of_forall₂_left parts mem
      exact ih c mem part
    · rw [parts.length_eq, Fields.keys, List.length_map, List.length_map]

end Built

theorem exists_decode_run (documented : c.Documented) (held : c.HeldBy g v) (h : Graph) :
    ∃ w last, (decode c.document.text.toUTF8).run h = (.ok w, last) ∧ h.Extends last ∧
      c.HeldBy last w := by
  obtain ⟨w, last, ran, ext, held'⟩ := builds_of_documented documented held h
  refine ⟨w, last, ?_, ext, held'⟩
  rw [decode, Text.ofUtf8_toUTF8, text, String.toList_ofList, documented.exact.parse?_print]
  exact ran

end Json

end Marshal
