import Marshal.Proofs.Collect
import Marshal.Proofs.Description

namespace Marshal

open Marshal.Action (madeList)

/-- What a value holds that is made of scalars, lists, plain objects, maps and sets, whichever
objects hold it. Values that hold the same are equal in structure, whether or not they share
parts. -/
inductive Content where
  | scalar (v : Value)
  | list (items : List Content)
  | record (names : List String) (values : List Content)
  | map (keys values : List Content)
  | set (members : List Content)

def Object.record (fields : Fields) : Object := { kind := some .object, fields }

namespace Content

mutual

/-- The value holds the content, in objects that are direct instances of their classes: lists
without holes, plain objects with their names in order, and maps and sets in which every key or
member stands once. -/
def HeldBy (g : Graph) : Content → Value → Prop
  | scalar w, v => v = w ∧ w.isPrimitive = true
  | list items, v => ∃ vs, g.objectOf? v = some (madeList vs) ∧ AllHeldBy g items vs
  | record names values, v => Fields.Kept names ∧
    ∃ fields, g.objectOf? v = some (.record fields) ∧ Fields.keys fields = names ∧
      AllHeldBy g values (fields.map Prod.snd)
  | map keys values, v => ∃ entries, g.objectOf? v = some (.bare .map (.map entries)) ∧
    Keys (entries.map Prod.fst) ∧ AllHeldBy g keys (entries.map Prod.fst) ∧
      AllHeldBy g values (entries.map Prod.snd)
  | set members, v => ∃ vs, g.objectOf? v = some (.bare .set (.set vs)) ∧ Keys vs ∧
    AllHeldBy g members vs

def AllHeldBy (g : Graph) : List Content → List Value → Prop
  | [], vs => vs = []
  | c :: rest, vs => ∃ v others, vs = v :: others ∧ c.HeldBy g v ∧ AllHeldBy g rest others

end

mutual

/-- How far objects are nested in the message of a value that holds the content. A set goes in as a
list. -/
def height : Content → Nat
  | scalar _ => 1
  | list items => slotsHeight items + 1
  | record _ values => slotsHeight values + 1
  | map keys values => max (slotsHeight keys) (slotsHeight values) + 1
  | set members => slotsHeight members + 2

def slotsHeight : List Content → Nat
  | [] => 0
  | c :: rest => max c.height (slotsHeight rest)

end

/-- Induction over a content, with the hypothesis for every part. -/
@[elab_as_elim, induction_eliminator]
theorem induct {motive : Content → Prop} (scalar : ∀ v, motive (scalar v))
    (list : ∀ items, (∀ c ∈ items, motive c) → motive (list items))
    (record : ∀ names values, (∀ c ∈ values, motive c) → motive (record names values))
    (map : ∀ keys values, (∀ c ∈ keys, motive c) → (∀ c ∈ values, motive c) →
      motive (map keys values))
    (set : ∀ members, (∀ c ∈ members, motive c) → motive (set members)) :
    (c : Content) → motive c
  | .scalar v => scalar v
  | .list items => list items fun c _ => induct scalar list record map set c
  | .record names values => record names values fun c _ => induct scalar list record map set c
  | .map keys values => map keys values (fun c _ => induct scalar list record map set c)
    (fun c _ => induct scalar list record map set c)
  | .set members => set members fun c _ => induct scalar list record map set c

variable {g k : Graph} {c : Content} {v : Value} {contents : List Content} {vs : List Value}

theorem allHeldBy_iff :
    AllHeldBy g contents vs ↔ List.Forall₂ (fun c v => c.HeldBy g v) contents vs := by
  induction contents generalizing vs with
  | nil => rw [AllHeldBy, List.forall₂_nil_left_iff]
  | cons c rest ih =>
    rw [AllHeldBy, List.forall₂_cons_left_iff]
    constructor
    · rintro ⟨v, others, rfl, first, all⟩
      exact ⟨v, others, first, ih.1 all, rfl⟩
    · rintro ⟨v, others, first, all, rfl⟩
      exact ⟨v, others, rfl, first, ih.2 all⟩

theorem AllHeldBy.imp (h : AllHeldBy g contents vs)
    (step : ∀ c ∈ contents, ∀ v, c.HeldBy g v → c.HeldBy k v) : AllHeldBy k contents vs :=
  allHeldBy_iff.2 (forall₂_imp_of_mem (allHeldBy_iff.1 h) step)

theorem AllHeldBy.unique {others : List Content} (h : AllHeldBy g contents vs)
    (h' : AllHeldBy g others vs)
    (step : ∀ c ∈ contents, ∀ c' v, c.HeldBy g v → c'.HeldBy g v → c = c') : contents = others :=
  eq_of_forall₂ (allHeldBy_iff.1 h) (allHeldBy_iff.1 h') step

theorem HeldBy.of_extends (ext : g.Extends k) (h : c.HeldBy g v) : c.HeldBy k v := by
  induction c generalizing v with
  | scalar w => exact h
  | list items ih =>
    obtain ⟨vs, found, all⟩ := h
    exact ⟨vs, ext.objectOf? found, all.imp fun c mem v => ih c mem⟩
  | record names values ih =>
    obtain ⟨kept, fields, found, named, all⟩ := h
    exact ⟨kept, fields, ext.objectOf? found, named, all.imp fun c mem v => ih c mem⟩
  | map keys values ihk ihv =>
    obtain ⟨entries, found, distinct, left, right⟩ := h
    exact ⟨entries, ext.objectOf? found, distinct, left.imp fun c mem v => ihk c mem,
      right.imp fun c mem v => ihv c mem⟩
  | set members ih =>
    obtain ⟨vs, found, distinct, all⟩ := h
    exact ⟨vs, ext.objectOf? found, distinct, all.imp fun c mem v => ih c mem⟩

theorem AllHeldBy.of_extends (ext : g.Extends k) (h : AllHeldBy g contents vs) :
    AllHeldBy k contents vs :=
  h.imp fun _ _ _ held => held.of_extends ext

theorem HeldBy.scalar_or_object (h : c.HeldBy g v) :
    (c = scalar v ∧ v.isPrimitive = true) ∨ ∃ o, g.objectOf? v = some o := by
  cases c with
  | scalar w =>
    obtain ⟨rfl, primitive⟩ := h
    exact .inl ⟨rfl, primitive⟩
  | record =>
    obtain ⟨-, _, found, _⟩ := h
    exact .inr ⟨_, found⟩
  | list | map | set =>
    obtain ⟨_, found, _⟩ := h
    exact .inr ⟨_, found⟩

theorem HeldBy.ref_lt {ref : Ref} (h : c.HeldBy g (.object ref)) : ref < g.size := by
  rcases h.scalar_or_object with ⟨-, primitive⟩ | ⟨o, found⟩
  · cases primitive
  · exact Graph.lt_size_of_get? found

theorem HeldBy.not_scalar {o : Object} (found : g.objectOf? v = some o) {w : Value} :
    ¬ (scalar w).HeldBy g v := by
  rintro ⟨rfl, primitive⟩
  cases v <;> first | cases found | cases primitive

/-- What tells the objects of such contents apart. -/
inductive Form where
  | scalar | list | record | map | set

def form : Content → Form
  | scalar _ => .scalar
  | list _ => .list
  | record .. => .record
  | map .. => .map
  | set _ => .set

def formOf (o : Object) : Form :=
  match o.body with
  | .list _ => .list
  | .map _ => .map
  | .set _ => .set
  | _ => .record

theorem HeldBy.form_eq {o : Object} (h : c.HeldBy g v) (found : g.objectOf? v = some o) :
    c.form = formOf o := by
  cases c with
  | scalar => exact absurd h (HeldBy.not_scalar found)
  | record =>
    obtain ⟨-, _, found', _⟩ := h
    rw [← Option.some.inj (found'.symm.trans found)]
    rfl
  | list | map | set =>
    obtain ⟨_, found', _⟩ := h
    rw [← Option.some.inj (found'.symm.trans found)]
    rfl

theorem HeldBy.unique {c' : Content} (h : c.HeldBy g v) (h' : c'.HeldBy g v) : c = c' := by
  induction c generalizing c' v with
  | scalar w =>
    obtain ⟨rfl, primitive⟩ := h
    rcases h'.scalar_or_object with ⟨rfl, -⟩ | ⟨o, found⟩
    · rfl
    · exact absurd ⟨rfl, primitive⟩ (HeldBy.not_scalar found)
  | list items ih =>
    obtain ⟨vs, found, all⟩ := h
    have form := h'.form_eq found
    cases c' with
    | list items' =>
      obtain ⟨vs', found', all'⟩ := h'
      have same := Option.some.inj (found.symm.trans found')
      obtain rfl : vs = vs' := List.map_injective_iff.2 (Option.some_injective _)
        ((Body.list.injEq _ _).mp (congrArg Object.body same))
      rw [all.unique all' fun c mem c' v => ih c mem]
    | _ => cases form
  | record names values ih =>
    obtain ⟨-, fields, found, rfl, all⟩ := h
    have form := h'.form_eq found
    cases c' with
    | record names' values' =>
      obtain ⟨-, fields', found', rfl, all'⟩ := h'
      cases Option.some.inj (found.symm.trans found')
      rw [all.unique all' fun c mem c' v => ih c mem]
    | _ => cases form
  | map keys values ihk ihv =>
    obtain ⟨entries, found, -, left, right⟩ := h
    have form := h'.form_eq found
    cases c' with
    | map keys' values' =>
      obtain ⟨entries', found', -, left', right'⟩ := h'
      cases Option.some.inj (found.symm.trans found')
      rw [left.unique left' fun c mem c' v => ihk c mem,
        right.unique right' fun c mem c' v => ihv c mem]
    | _ => cases form
  | set members ih =>
    obtain ⟨vs, found, -, all⟩ := h
    have form := h'.form_eq found
    cases c' with
    | set members' =>
      obtain ⟨vs', found', -, all'⟩ := h'
      cases Option.some.inj (found.symm.trans found')
      rw [all.unique all' fun c mem c' v => ih c mem]
    | _ => cases form

theorem height_pos (c : Content) : 0 < c.height := by
  cases c <;> simp [height]

theorem height_le_slotsHeight (mem : c ∈ contents) : c.height ≤ slotsHeight contents := by
  induction contents with
  | nil => cases mem
  | cons first rest ih =>
    rw [slotsHeight]
    rcases List.mem_cons.1 mem with rfl | mem
    · exact le_max_left _ _
    · exact (ih mem).trans (le_max_right _ _)

theorem slotsHeight_le {n : Nat} (le : ∀ c ∈ contents, c.height ≤ n) :
    slotsHeight contents ≤ n := by
  induction contents with
  | nil => exact Nat.zero_le n
  | cons c rest ih =>
    obtain ⟨first, others⟩ := List.forall_mem_cons.1 le
    exact max_le first (ih others)

theorem slotsHeight_append (left right : List Content) :
    slotsHeight (left ++ right) = max (slotsHeight left) (slotsHeight right) := by
  induction left with
  | nil => exact (Nat.zero_max _).symm
  | cons c rest ih => rw [List.cons_append, slotsHeight, slotsHeight, ih, max_assoc]

/-- What holds a content is read back as what holds it in the same way. -/
instance : Description Content where
  Held g c v := c.HeldBy g v
  Back g c v := c.HeldBy g v
  height := height
  height_pos := height_pos
  held_of_extends ext h := h.of_extends ext
  back_of_extends ext h := h.of_extends ext
  ref_lt h := h.ref_lt
  unique h h' := h.unique h'

theorem HeldBy.height_le_of_parts {o : Object} (h : c.HeldBy g v) (found : g.objectOf? v = some o)
    (parts : List Content) (more : Nat) (high : c.height = slotsHeight parts + more)
    (some_more : 0 < more) (few : more ≤ 3)
    (ih : ∀ part ∈ parts, part.height ≤ 3 * (Description.lower Content g part.height).card + 1) :
    c.height ≤ 3 * (Description.lower Content g c.height).card + 1 := by
  cases v with
  | object ref =>
    refine Description.height_le_card_of_parts h parts (fun part mem => ?_) (fun n le => ?_) ih
    · have := height_le_slotsHeight mem
      change part.height < c.height
      omega
    · have := slotsHeight_le le
      change c.height ≤ n + 3
      omega
  | _ => cases found

/-- Objects that are nested are different objects, so a content is as high as there are objects. -/
theorem HeldBy.height_le_card (h : c.HeldBy g v) :
    c.height ≤ 3 * (Description.lower Content g c.height).card + 1 := by
  induction c generalizing v with
  | scalar => exact Nat.le_add_left 1 _
  | list items ih =>
    obtain ⟨vs, found, all⟩ := id h
    refine h.height_le_of_parts found items 1 rfl (by decide) (by decide) fun part mem => ?_
    obtain ⟨w, -, held⟩ := exists_of_forall₂_left (allHeldBy_iff.1 all) mem
    exact ih part mem held
  | record names values ih =>
    obtain ⟨-, fields, found, -, all⟩ := id h
    refine h.height_le_of_parts found values 1 rfl (by decide) (by decide) fun part mem => ?_
    obtain ⟨w, -, held⟩ := exists_of_forall₂_left (allHeldBy_iff.1 all) mem
    exact ih part mem held
  | map keys values ihk ihv =>
    obtain ⟨entries, found, -, left, right⟩ := id h
    refine h.height_le_of_parts found (keys ++ values) 1 ?_ (by decide) (by decide)
      fun part mem => ?_
    · rw [height, slotsHeight_append]
    · rcases List.mem_append.1 mem with mem | mem
      · obtain ⟨w, -, held⟩ := exists_of_forall₂_left (allHeldBy_iff.1 left) mem
        exact ihk part mem held
      · obtain ⟨w, -, held⟩ := exists_of_forall₂_left (allHeldBy_iff.1 right) mem
        exact ihv part mem held
  | set members ih =>
    obtain ⟨vs, found, -, all⟩ := id h
    refine h.height_le_of_parts found members 2 rfl (by decide) (by decide) fun part mem => ?_
    obtain ⟨w, -, held⟩ := exists_of_forall₂_left (allHeldBy_iff.1 all) mem
    exact ih part mem held

theorem HeldBy.height_le_size (h : c.HeldBy g v) : c.height ≤ 4 * g.size + 8 :=
  Description.height_le_size (d := c) h.height_le_card

end Content

end Marshal
