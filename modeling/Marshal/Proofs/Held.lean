import Marshal.Proofs.Class
import Marshal.Proofs.Datum
import Marshal.Proofs.Description

namespace Marshal

open Marshal.Action (HasItems madeList)
open Marshal.Table (Sized IsColumn IsTable columnObject)

namespace Datum

mutual

/-- The value holds the datum, which is made of scalars, number arrays, lists, columns and tables.
Number arrays and lists may be of classes below their own, as long as no class gives byte arrays the
looks of a node. Where the classes have to be known, a number array is of its own class or a byte
array as codecs make them. -/
def HeldBy (known : Bool) (g : Graph) : Datum → Value → Prop
  | scalar w, v => v = w ∧ w.isPrimitive = true
  | numbers d bytes, v => bytes.size % d.width = 0 ∧ bytes.size < 2 ^ 53 ∧
    ∃ c : Class, g.objectOf? v = some (.bare c (.numbers d bytes)) ∧
      c.isWithin (.numbers d) = true ∧
        (d = .uint8 → c.member? "tag" = none ∨ c.member? "data" = none) ∧
        (known = true → c = .numbers d ∨ c = .bytes)
  | list data, v => ∃ (c : Class) (vs : List Value),
    g.objectOf? v = some (.bare c (.list (vs.map some))) ∧ c.isWithin .array = true ∧
      AllHeldBy known g data vs
  | column name values, v => name.text?.isSome = true ∧
    ∃ w, g.objectOf? v = some (columnObject name w) ∧ (∃ rows, Sized g w rows) ∧
      values.HeldBy known g w
  | table names data, v => (∀ name ∈ names, name.text?.isSome = true) ∧
    ∃ rows columns values, IsTable g rows v columns (names.zip values) ∧
      names.length = values.length ∧ AllHeldBy known g data values
  | _, _ => False

def AllHeldBy (known : Bool) (g : Graph) : List Datum → List Value → Prop
  | [], vs => vs = []
  | d :: rest, vs => ∃ v others, vs = v :: others ∧ d.HeldBy known g v ∧
    AllHeldBy known g rest others

end

variable {known : Bool} {g k : Graph} {d : Datum} {v : Value} {data : List Datum}
  {vs : List Value}

theorem allHeldBy_iff :
    AllHeldBy known g data vs ↔ List.Forall₂ (fun d v => d.HeldBy known g v) data vs := by
  induction data generalizing vs with
  | nil => rw [AllHeldBy, List.forall₂_nil_left_iff]
  | cons d rest ih =>
    rw [AllHeldBy, List.forall₂_cons_left_iff]
    constructor
    · rintro ⟨v, others, rfl, first, all⟩
      exact ⟨v, others, first, ih.1 all, rfl⟩
    · rintro ⟨v, others, first, all, rfl⟩
      exact ⟨v, others, rfl, first, ih.2 all⟩

theorem AllHeldBy.imp {known' : Bool}
    (step : ∀ d ∈ data, ∀ v, d.HeldBy known g v → d.HeldBy known' k v)
    (h : AllHeldBy known g data vs) : AllHeldBy known' k data vs :=
  allHeldBy_iff.2 (forall₂_imp_of_mem (allHeldBy_iff.1 h) step)

theorem AllHeldBy.length_eq (h : AllHeldBy known g data vs) : data.length = vs.length :=
  (allHeldBy_iff.1 h).length_eq

theorem HeldBy.of_extends (ext : g.Extends k) (h : d.HeldBy known g v) : d.HeldBy known k v := by
  induction d generalizing v with
  | scalar w => exact h
  | numbers d bytes =>
    obtain ⟨whole, small, c, found, within⟩ := h
    exact ⟨whole, small, c, ext.objectOf? found, within⟩
  | list data ih =>
    obtain ⟨c, vs, found, within, all⟩ := h
    exact ⟨c, vs, ext.objectOf? found, within, all.imp fun d mem v => ih d mem⟩
  | column name values ih =>
    obtain ⟨text, w, found, ⟨rows, sized⟩, held⟩ := h
    exact ⟨text, w, ext.objectOf? found, ⟨rows, sized.of_extends ext⟩, ih held⟩
  | table names data ih =>
    obtain ⟨texts, rows, columns, values, table, length, all⟩ := h
    exact ⟨texts, rows, columns, values, table.of_extends ext, length,
      all.imp fun d mem v => ih d mem⟩
  | bigint | date | pattern | map | set => exact h.elim

theorem AllHeldBy.of_extends (ext : g.Extends k) (h : AllHeldBy known g data vs) :
    AllHeldBy known k data vs :=
  h.imp fun _ _ _ held => held.of_extends ext

theorem HeldBy.weaken (h : d.HeldBy known g v) : d.HeldBy false g v := by
  induction d generalizing v with
  | scalar w => exact h
  | numbers d bytes =>
    obtain ⟨whole, small, c, found, within, plain, -⟩ := h
    exact ⟨whole, small, c, found, within, plain, nofun⟩
  | list data ih =>
    obtain ⟨c, vs, found, within, all⟩ := h
    exact ⟨c, vs, found, within, all.imp fun d mem v => ih d mem⟩
  | column name values ih =>
    obtain ⟨text, w, found, sized, held⟩ := h
    exact ⟨text, w, found, sized, ih held⟩
  | table names data ih =>
    obtain ⟨texts, rows, columns, values, table, length, all⟩ := h
    exact ⟨texts, rows, columns, values, table, length, all.imp fun d mem v => ih d mem⟩
  | bigint | date | pattern | map | set => exact h.elim

theorem heldBy_madeList (found : g.objectOf? v = some (madeList vs))
    (all : AllHeldBy known g data vs) : (list data).HeldBy known g v :=
  ⟨.array, vs, found, by decide, all⟩

theorem HeldBy.exists_items (h : (list data).HeldBy known g v) :
    ∃ vs, HasItems g v vs ∧ AllHeldBy known g data vs := by
  obtain ⟨c, vs, found, -, all⟩ := h
  exact ⟨vs, ⟨_, found, rfl, rfl⟩, all⟩

theorem allHeldBy_scalar_iff {names : List Value} :
    AllHeldBy known g (names.map .scalar) vs ↔
      vs = names ∧ ∀ name ∈ names, name.isPrimitive = true := by
  induction names generalizing vs with
  | nil =>
    change vs = [] ↔ _
    simp
  | cons name rest ih =>
    rw [List.map_cons, AllHeldBy, List.forall_mem_cons]
    constructor
    · rintro ⟨v, others, rfl, ⟨rfl, primitive⟩, all⟩
      obtain ⟨rfl, primitives⟩ := ih.1 all
      exact ⟨rfl, primitive, primitives⟩
    · rintro ⟨rfl, primitive, primitives⟩
      exact ⟨name, rest, rfl, ⟨rfl, primitive⟩, ih.2 ⟨rfl, primitives⟩⟩

theorem isPrimitive_of_text {v : Value} (text : v.text?.isSome = true) : v.isPrimitive = true := by
  cases v <;> first | rfl | cases text

theorem objectOf?_of_isPrimitive (g : Graph) {v : Value} (primitive : v.isPrimitive = true) :
    g.objectOf? v = none := by
  cases v with
  | object => cases primitive
  | _ => rfl

theorem HeldBy.not_scalar {o : Object} (found : g.objectOf? v = some o) {w : Value} :
    ¬ (scalar w).HeldBy known g v := by
  rintro ⟨rfl, primitive⟩
  rw [objectOf?_of_isPrimitive g primitive] at found
  cases found

theorem HeldBy.scalar_or_object (h : d.HeldBy known g v) :
    (d = scalar v ∧ v.isPrimitive = true) ∨ ∃ o, g.objectOf? v = some o := by
  cases d with
  | scalar w =>
    obtain ⟨rfl, primitive⟩ := h
    exact .inl ⟨rfl, primitive⟩
  | numbers =>
    obtain ⟨-, -, _, found, -⟩ := h
    exact .inr ⟨_, found⟩
  | list | column =>
    obtain ⟨_, _, found, _⟩ := h
    exact .inr ⟨_, found⟩
  | table =>
    obtain ⟨-, _, _, _, ⟨⟨_, found, _⟩, _⟩, _⟩ := h
    exact .inr ⟨_, found⟩
  | bigint | date | pattern | map | set => exact h.elim

theorem HeldBy.ref_lt {ref : Ref} (h : d.HeldBy known g (.object ref)) : ref < g.size := by
  rcases h.scalar_or_object with ⟨-, primitive⟩ | ⟨o, found⟩
  · cases primitive
  · exact Graph.lt_size_of_get? found

/-- What tells the objects of such data apart. -/
inductive Form where
  | numbers | list | column | table | other

def form : Datum → Form
  | numbers .. => .numbers
  | list _ => .list
  | column .. => .column
  | table .. => .table
  | _ => .other

def formOf (o : Object) : Form :=
  match o.body, o.kind with
  | .numbers .., _ => .numbers
  | .list _, _ => .list
  | _, some c => if c = .column then .column else if c = .table then .table else .other
  | _, none => .other

theorem HeldBy.form_eq {o : Object} (h : d.HeldBy known g v) (found : g.objectOf? v = some o) :
    d.form = formOf o := by
  cases d with
  | scalar => exact absurd h (HeldBy.not_scalar found)
  | numbers =>
    obtain ⟨-, -, _, found', -⟩ := h
    rw [← Option.some.inj (found'.symm.trans found)]
    rfl
  | list | column =>
    obtain ⟨_, _, found', _⟩ := h
    rw [← Option.some.inj (found'.symm.trans found)]
    rfl
  | table =>
    obtain ⟨-, _, _, _, ⟨⟨_, found', _⟩, _⟩, _⟩ := h
    rw [← Option.some.inj (found'.symm.trans found)]
    rfl
  | bigint | date | pattern | map | set => exact h.elim

theorem eq_of_list_eq {o : Object} {ws : List Value} (left : o.body = .list (vs.map some))
    (right : o.body = .list (ws.map some)) : vs = ws :=
  List.map_injective_iff.2 (Option.some_injective _)
    ((Body.list.injEq _ _).mp (left.symm.trans right))

theorem pairs_unique {rows rows' : Nat} {columns : List Value} {pairs pairs' : List (Value × Value)}
    (h : List.Forall₂ (IsColumn g rows) columns pairs)
    (h' : List.Forall₂ (IsColumn g rows') columns pairs') : pairs = pairs' := by
  have unique : Relator.RightUnique fun (column : Value) (held : Value × Value) =>
      g.objectOf? column = some (columnObject held.1 held.2) := by
    rintro column ⟨name, w⟩ ⟨name', w'⟩ found found'
    cases Option.some.inj (found.symm.trans found')
    rfl
  exact unique.forall₂ (h.imp fun _ _ column => column.object)
    (h'.imp fun _ _ column => column.object)

theorem AllHeldBy.unique {known' : Bool} {data' : List Datum}
    (step : ∀ d ∈ data, ∀ d' v, d.HeldBy known g v → d'.HeldBy known' g v → d = d')
    (h : AllHeldBy known g data vs) (h' : AllHeldBy known' g data' vs) : data = data' :=
  eq_of_forall₂ (allHeldBy_iff.1 h) (allHeldBy_iff.1 h') step

theorem HeldBy.unique {known' : Bool} {d' : Datum} (h : d.HeldBy known g v)
    (h' : d'.HeldBy known' g v) : d = d' := by
  induction d generalizing d' v with
  | scalar w =>
    obtain ⟨rfl, primitive⟩ := h
    rcases h'.scalar_or_object with ⟨rfl, -⟩ | ⟨o, found⟩
    · rfl
    · rw [objectOf?_of_isPrimitive g primitive] at found
      cases found
  | numbers kind bytes =>
    obtain ⟨-, -, c, found, -⟩ := h
    have form := h'.form_eq found
    cases d' with
    | numbers kind' bytes' =>
      obtain ⟨-, -, c', found', -⟩ := h'
      cases Option.some.inj (found.symm.trans found')
      rfl
    | _ => cases form
  | list data ih =>
    obtain ⟨c, vs, found, -, all⟩ := h
    have form := h'.form_eq found
    cases d' with
    | list data' =>
      obtain ⟨c', vs', found', -, all'⟩ := h'
      have same := Option.some.inj (found.symm.trans found')
      obtain rfl := eq_of_list_eq rfl (congrArg Object.body same)
      rw [all.unique (fun d mem d' v => ih d mem) all']
    | _ => cases form
  | column name values ih =>
    obtain ⟨-, w, found, -, held⟩ := h
    have form := h'.form_eq found
    cases d' with
    | column name' values' =>
      obtain ⟨-, w', found', -, held'⟩ := h'
      cases Option.some.inj (found.symm.trans found')
      rw [ih held held']
    | _ => cases form
  | table names data ih =>
    obtain ⟨-, rows, columns, values, table, length, all⟩ := h
    obtain ⟨⟨list, found, items⟩, even⟩ := table
    have form := h'.form_eq found
    cases d' with
    | table names' data' =>
      obtain ⟨-, rows', columns', values', ⟨⟨list', found', items'⟩, even'⟩, length', all'⟩ := h'
      cases Option.some.inj (found.symm.trans found')
      have same := Option.some.inj (items.symm.trans items')
      obtain rfl := eq_of_list_eq rfl (congrArg Object.body same)
      have pairs := pairs_unique even.all even'.all
      obtain rfl : names = names' := by
        rw [← List.map_fst_zip length.le, pairs, List.map_fst_zip length'.le]
      obtain rfl : values = values' := by
        rw [← List.map_snd_zip length.ge, pairs, List.map_snd_zip length'.ge]
      rw [all.unique (fun d mem d' v => ih d mem) all']
    | _ => cases form
  | bigint | date | pattern | map | set => exact h.elim

theorem HeldBy.sized {known' : Bool} {w : Value} {n : Nat} (h : d.HeldBy known g v)
    (sized : Sized g v n) (h' : d.HeldBy known' k w) : Sized k w n := by
  obtain ⟨o, found, bare, length⟩ := sized
  have form := h.form_eq found
  cases d with
  | scalar => exact absurd h (HeldBy.not_scalar found)
  | numbers kind bytes =>
    obtain ⟨-, -, c, same, -⟩ := h
    obtain ⟨-, -, c', found', -⟩ := h'
    cases Option.some.inj (same.symm.trans found)
    exact ⟨_, found', rfl, length⟩
  | list data =>
    obtain ⟨c, vs, same, -, all⟩ := h
    obtain ⟨c', vs', found', -, all'⟩ := h'
    cases Option.some.inj (same.symm.trans found)
    refine ⟨_, found', rfl, ?_⟩
    rw [← length]
    change some (Value.nat (vs'.map some).length) = some (.nat (vs.map some).length)
    rw [List.length_map, List.length_map, ← all.length_eq, all'.length_eq]
  | column =>
    obtain ⟨_, _, same, _⟩ := h
    cases Option.some.inj (same.symm.trans found)
    cases bare
  | table =>
    obtain ⟨-, _, _, _, ⟨⟨_, same, _⟩, _⟩, _⟩ := h
    cases Option.some.inj (same.symm.trans found)
    cases bare
  | bigint | date | pattern | map | set => exact h.elim

theorem AllHeldBy.sized {known' : Bool} {ws : List Value} {n : Nat}
    (h : AllHeldBy known g data vs) (sized : ∀ v ∈ vs, Sized g v n)
    (h' : AllHeldBy known' k data ws) : ∀ w ∈ ws, Sized k w n := by
  induction data generalizing vs ws with
  | nil =>
    obtain rfl : ws = [] := h'
    exact fun _ mem => absurd mem List.not_mem_nil
  | cons d rest ih =>
    obtain ⟨v, others, rfl, first, all⟩ := h
    obtain ⟨w, others', rfl, first', all'⟩ := h'
    obtain ⟨length, lengths⟩ := List.forall_mem_cons.1 sized
    exact List.forall_mem_cons.2 ⟨first.sized length first', ih all lengths all'⟩

/-- Objects are instances of the class of what they hold, or of a class below it. -/
theorem HeldBy.exists_class {c : Class} (h : d.HeldBy known g v) (own : d.class? = some c) :
    ∃ o c', g.objectOf? v = some o ∧ o.kind = some c' ∧ c'.isWithin c = true := by
  cases d with
  | scalar => cases own
  | numbers kind bytes =>
    cases own
    obtain ⟨-, -, c', found, within, -⟩ := h
    exact ⟨_, c', found, rfl, within⟩
  | list data =>
    cases own
    obtain ⟨c', _, found, within, -⟩ := h
    exact ⟨_, c', found, rfl, within⟩
  | column =>
    cases own
    obtain ⟨_, _, found, _⟩ := h
    exact ⟨_, .column, found, rfl, by decide⟩
  | table =>
    cases own
    obtain ⟨-, _, _, _, ⟨⟨_, found, _⟩, _⟩, _⟩ := h
    exact ⟨_, .table, found, rfl, by decide⟩
  | bigint | date | pattern | map | set => exact h.elim

theorem HeldBy.exists_classOf? {c : Class} (h : d.HeldBy known g v) (own : d.class? = some c) :
    ∃ c', g.classOf? v = some c' ∧ c'.isWithin c = true := by
  obtain ⟨o, c', found, kind, within⟩ := h.exists_class own
  cases v with
  | object ref =>
    refine ⟨c', ?_, within⟩
    rw [Graph.objectOf?_object] at found
    rw [Graph.classOf?, found]
    exact kind
  | _ => cases found

/-- The data that columns are made of and put together to. -/
def IsTabular : Datum → Prop
  | numbers .. | column .. | table .. => True
  | _ => False

theorem HeldBy.isLeaf_eq (h : d.HeldBy known g v) : g.isLeaf v = d.isLeaf := by
  cases own : d.class? with
  | none =>
    cases d with
    | scalar w =>
      obtain ⟨rfl, primitive⟩ := h
      rw [Graph.isLeaf, primitive]
      rfl
    | _ => cases own
  | some c =>
    obtain ⟨o, c', found, kind, within⟩ := h.exists_class own
    have object : v.isPrimitive = false := by
      rw [Bool.eq_false_iff]
      intro primitive
      rw [objectOf?_of_isPrimitive g primitive] at found
      cases found
    have bytes : g.isLeaf v = c'.isWithin (.numbers .uint8) := by
      rw [Graph.isLeaf, object, Bool.false_or, Graph.isBytes, Graph.kindOf?, found]
      dsimp only [Option.bind_some]
      rw [kind]
      rfl
    have other (apart : c.isWithin (.numbers .uint8) = false)
        (apart' : (Class.numbers .uint8).isWithin c = false) :
        c'.isWithin (.numbers .uint8) = false :=
      Class.isWithin_eq_false within apart apart'
    rw [bytes]
    cases d with
    | numbers kind _ =>
      cases own
      cases kind with
      | uint8 => exact within
      | _ => exact other (by decide) (by decide)
    | list | column | table =>
      cases own
      exact other (by decide) (by decide)
    | scalar => cases own
    | bigint | date | pattern | map | set => exact h.elim

theorem HeldBy.look_eq_none (h : d.HeldBy known g v) (leaf : d.isLeaf = true) :
    g.look v = .ok none := by
  cases d with
  | scalar w =>
    obtain ⟨rfl, primitive⟩ := h
    exact Graph.look_of_isPrimitive g primitive
  | numbers kind bytes =>
    obtain ⟨-, -, c, found, -, plain, -⟩ := h
    have absent {name : String} (none : c.member? name = none) :
        (Object.bare c (.numbers kind bytes)).read? v name = Option.none := by
      change (c.member? name).map _ = Option.none
      rw [none, Option.map_none]
    cases v with
    | object ref =>
      exact Graph.look_of_get? found ((plain (of_decide_eq_true leaf)).imp absent absent)
    | _ => cases found
  | _ => cases leaf

mutual

/-- How far objects are nested in the message of a value that holds the datum. Columns and tables go
in as lists. -/
def height : Datum → Nat
  | list items => slotsHeight items + 1
  | column _ values => values.height + 2
  | table _ columns => slotsHeight columns + 3
  | _ => 1

def slotsHeight : List Datum → Nat
  | [] => 0
  | d :: rest => max d.height (slotsHeight rest)

end

theorem height_pos (d : Datum) : 0 < d.height := by
  cases d <;> simp [height]

theorem height_le_slotsHeight (mem : d ∈ data) : d.height ≤ slotsHeight data := by
  induction data with
  | nil => cases mem
  | cons first rest ih =>
    rw [slotsHeight]
    rcases List.mem_cons.1 mem with rfl | mem
    · exact le_max_left _ _
    · exact (ih mem).trans (le_max_right _ _)

theorem slotsHeight_le {n : Nat} (le : ∀ d ∈ data, d.height ≤ n) : slotsHeight data ≤ n := by
  induction data with
  | nil => exact Nat.zero_le n
  | cons d rest ih =>
    obtain ⟨first, others⟩ := List.forall_mem_cons.1 le
    exact max_le first (ih others)

theorem AllHeldBy.exists_of_mem (h : AllHeldBy known g data vs) (mem : d ∈ data) :
    ∃ v ∈ vs, d.HeldBy known g v :=
  exists_of_forall₂_left (allHeldBy_iff.1 h) mem

/-- What messages are made of: the classes of what is written have to be known. -/
instance : Description Datum where
  Held g d v := d.HeldBy true g v
  Back g d v := d.HeldBy false g v
  height := height
  height_pos := height_pos
  held_of_extends ext h := h.of_extends ext
  back_of_extends ext h := h.of_extends ext
  ref_lt h := h.ref_lt
  unique h h' := h.unique h'

theorem HeldBy.height_le_of_parts (h : d.HeldBy true g v) (parts : List Datum) (more : Nat)
    (high : d.height = slotsHeight parts + more) (some_more : 0 < more) (few : more ≤ 3)
    (object : ∃ o, g.objectOf? v = some o)
    (ih : ∀ part ∈ parts, part.height ≤ 3 * (Description.lower Datum g part.height).card + 1) :
    d.height ≤ 3 * (Description.lower Datum g d.height).card + 1 := by
  obtain ⟨o, found⟩ := object
  cases v with
  | object ref =>
    refine Description.height_le_card_of_parts h parts (fun part mem => ?_) (fun n le => ?_) ih
    · have := height_le_slotsHeight mem
      change part.height < d.height
      omega
    · have := slotsHeight_le le
      change d.height ≤ n + 3
      omega
  | _ => cases found

theorem HeldBy.height_le_card (h : d.HeldBy true g v) :
    d.height ≤ 3 * (Description.lower Datum g d.height).card + 1 := by
  induction d generalizing v with
  | scalar | numbers => exact Nat.le_add_left 1 _
  | list data ih =>
    obtain ⟨c, vs, found, -, all⟩ := id h
    refine h.height_le_of_parts data 1 rfl (by decide) (by decide) ⟨_, found⟩ ?_
    intro part mem
    obtain ⟨w, -, held⟩ := all.exists_of_mem mem
    exact ih part mem held
  | column name values ih =>
    obtain ⟨-, w, found, -, held⟩ := id h
    refine h.height_le_of_parts [values] 2 ?_ (by decide) (by decide)
      ⟨_, found⟩ (List.forall_mem_singleton.2 (ih held))
    rw [slotsHeight, slotsHeight, Nat.max_zero, height]
  | table names data ih =>
    obtain ⟨-, _, _, _, ⟨⟨_, found, _⟩, _⟩, -, all⟩ := id h
    refine h.height_le_of_parts data 3 rfl (by decide) (by decide) ⟨_, found⟩ ?_
    intro part mem
    obtain ⟨w, -, held⟩ := all.exists_of_mem mem
    exact ih part mem held
  | bigint | date | pattern | map | set => exact h.elim

theorem HeldBy.height_le_size (h : d.HeldBy true g v) : d.height ≤ 4 * g.size + 8 :=
  Description.height_le_size (d := d) h.height_le_card

end Datum

end Marshal
