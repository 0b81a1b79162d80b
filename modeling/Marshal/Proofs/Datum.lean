import Marshal.Proofs.Forall2
import Marshal.Proofs.Table

namespace Marshal

open Marshal.Action (madeList)
open Marshal.Table (Sized IsTable columnObject)

/-- What a value holds, whichever objects hold it. Values that hold the same are equal in structure,
whether or not they share parts. -/
inductive Datum where
  | scalar (v : Value)
  | bigint (n : Int)
  | date (time : Option Int)
  | pattern (source flags : String)
  | numbers (dtype : DType) (bytes : ByteArray)
  | list (items : List Datum)
  | map (keys values : List Datum)
  | set (members : List Datum)
  | column (name : Value) (values : Datum)
  | table (names : List Value) (columns : List Datum)

/-- Keys of a collection: no two are the same, and each is as it is stored. -/
structure Keys (vs : List Value) : Prop where
  distinct : vs.Pairwise fun a b => a.same b = false
  stored : ∀ v ∈ vs, v.asKey = v

def Object.bare (c : Class) (body : Body) : Object := { kind := some c, body }

namespace Datum

mutual

/-- The value holds the datum, in objects that are direct instances of the built-in classes. A hole
of a list counts as undefined; where values have to be dense there are none. -/
def ShownBy (dense : Bool) (g : Graph) : Datum → Value → Prop
  | scalar w, v => v = w ∧ w.isPrimitive = true
  | bigint n, v => v = .bigint n
  | date time, v => time.all Calendar.inRange = true ∧
    g.objectOf? v = some (.bare .date (.date time))
  | pattern source flags, v =>
    -- a pattern has its source and flags as they are shown, and these give the pattern again
    Pattern.build? source flags = some (source, flags) ∧
      g.objectOf? v = some (.bare .pattern (.pattern source flags))
  | numbers d bytes, v => bytes.size % d.width = 0 ∧ bytes.size < 2 ^ 53 ∧
    g.objectOf? v = some (.bare (.numbers d) (.numbers d bytes))
  | list data, v => ∃ items, g.objectOf? v = some (.bare .array (.list items)) ∧
    (dense = true → none ∉ items) ∧ AllShownBy dense g data (items.map (·.getD .undefined))
  | map keys values, v => ∃ entries, g.objectOf? v = some (.bare .map (.map entries)) ∧
    Keys (entries.map Prod.fst) ∧ AllShownBy dense g keys (entries.map Prod.fst) ∧
      AllShownBy dense g values (entries.map Prod.snd)
  | set data, v => ∃ members, g.objectOf? v = some (.bare .set (.set members)) ∧
    Keys members ∧ AllShownBy dense g data members
  | column name values, v => name.isPrimitive = true ∧
    ∃ w, g.objectOf? v = some (columnObject name w) ∧ (∃ rows, Sized g w rows) ∧
      values.ShownBy dense g w
  | table names data, v => (∀ name ∈ names, name.isPrimitive = true) ∧
    ∃ rows columns values, IsTable g rows v columns (names.zip values) ∧
      names.length = values.length ∧ AllShownBy dense g data values

def AllShownBy (dense : Bool) (g : Graph) : List Datum → List Value → Prop
  | [], vs => vs = []
  | d :: rest, vs => ∃ v others, vs = v :: others ∧ d.ShownBy dense g v ∧
    AllShownBy dense g rest others

end

/-- Whether values that hold the datum stay as they are inside a tuple. -/
def isLeaf : Datum → Bool
  | scalar _ => true
  | numbers d _ => d = .uint8
  | _ => false

mutual

/-- Levels of nodes below the one that a value holding the datum is written as. -/
def depth : Datum → Nat
  | list items => slotsDepth items
  | map keys values => max (slotsDepth keys) (slotsDepth values) + 1
  | set members => slotsDepth members + 1
  | column _ values => if values.isLeaf then 0 else values.depth + 1
  | table _ columns => slotsDepth columns + 1
  | _ => 0

def slotsDepth : List Datum → Nat
  | [] => 0
  | d :: rest => max (if d.isLeaf then 0 else d.depth + 1) (slotsDepth rest)

end

theorem depth_lt_slotsDepth {d : Datum} {data : List Datum} (mem : d ∈ data)
    (node : d.isLeaf = false) : d.depth < slotsDepth data := by
  induction data with
  | nil => cases mem
  | cons first rest ih =>
    rw [slotsDepth]
    rcases List.mem_cons.1 mem with rfl | mem
    · rw [node, if_neg Bool.false_ne_true]
      omega
    · have := ih mem
      omega

theorem slotsDepth_scalar (names : List Value) : slotsDepth (names.map .scalar) = 0 := by
  induction names with
  | nil => rfl
  | cons name rest ih =>
    rw [List.map_cons, slotsDepth, ih]
    rfl

/-- Induction over a datum, with the hypothesis for every part. -/
@[elab_as_elim, induction_eliminator]
theorem induct {motive : Datum → Prop}
    (scalar : ∀ v, motive (scalar v)) (bigint : ∀ n, motive (bigint n))
    (date : ∀ time, motive (date time)) (pattern : ∀ source flags, motive (pattern source flags))
    (numbers : ∀ d bytes, motive (numbers d bytes))
    (list : ∀ items, (∀ d ∈ items, motive d) → motive (list items))
    (map : ∀ keys values, (∀ d ∈ keys, motive d) → (∀ d ∈ values, motive d) →
      motive (map keys values))
    (set : ∀ members, (∀ d ∈ members, motive d) → motive (set members))
    (column : ∀ name values, motive values → motive (column name values))
    (table : ∀ names columns, (∀ d ∈ columns, motive d) → motive (table names columns)) :
    (d : Datum) → motive d
  | .scalar v => scalar v
  | .bigint n => bigint n
  | .date time => date time
  | .pattern source flags => pattern source flags
  | .numbers d bytes => numbers d bytes
  | .list items => list items fun d _ =>
    induct scalar bigint date pattern numbers list map set column table d
  | .map keys values => map keys values
    (fun d _ => induct scalar bigint date pattern numbers list map set column table d)
    (fun d _ => induct scalar bigint date pattern numbers list map set column table d)
  | .set members => set members fun d _ =>
    induct scalar bigint date pattern numbers list map set column table d
  | .column name values => column name values
    (induct scalar bigint date pattern numbers list map set column table values)
  | .table names columns => table names columns fun d _ =>
    induct scalar bigint date pattern numbers list map set column table d

variable {dense : Bool} {g k : Graph} {d : Datum} {v : Value}

theorem allShownBy_iff {data : List Datum} {vs : List Value} :
    AllShownBy dense g data vs ↔ List.Forall₂ (fun d v => d.ShownBy dense g v) data vs := by
  induction data generalizing vs with
  | nil => rw [AllShownBy, List.forall₂_nil_left_iff]
  | cons d rest ih =>
    rw [AllShownBy, List.forall₂_cons_left_iff]
    constructor
    · rintro ⟨v, others, rfl, first, all⟩
      exact ⟨v, others, first, ih.1 all, rfl⟩
    · rintro ⟨v, others, first, all, rfl⟩
      exact ⟨v, others, rfl, first, ih.2 all⟩

theorem AllShownBy.imp {dense' : Bool} {data : List Datum} {vs : List Value}
    (step : ∀ d ∈ data, ∀ v, d.ShownBy dense g v → d.ShownBy dense' k v)
    (h : AllShownBy dense g data vs) : AllShownBy dense' k data vs :=
  allShownBy_iff.2 (forall₂_imp_of_mem (allShownBy_iff.1 h) step)

theorem allShownBy_scalar_iff {names vs : List Value} :
    AllShownBy dense g (names.map .scalar) vs ↔
      vs = names ∧ ∀ name ∈ names, name.isPrimitive = true := by
  induction names generalizing vs with
  | nil =>
    change vs = [] ↔ _
    simp
  | cons name rest ih =>
    rw [List.map_cons, AllShownBy, List.forall_mem_cons]
    constructor
    · rintro ⟨v, others, rfl, ⟨rfl, primitive⟩, all⟩
      obtain ⟨rfl, primitives⟩ := ih.1 all
      exact ⟨rfl, primitive, primitives⟩
    · rintro ⟨rfl, primitive, primitives⟩
      exact ⟨name, rest, rfl, ⟨rfl, primitive⟩, ih.2 ⟨rfl, primitives⟩⟩

theorem AllShownBy.length_eq {data : List Datum} {vs : List Value}
    (h : AllShownBy dense g data vs) : data.length = vs.length :=
  (allShownBy_iff.1 h).length_eq

theorem AllShownBy.exists_of_mem {data : List Datum} {vs : List Value}
    (h : AllShownBy dense g data vs) (mem : v ∈ vs) : ∃ d ∈ data, d.ShownBy dense g v :=
  exists_of_forall₂_right (allShownBy_iff.1 h) mem

theorem ShownBy.of_extends (ext : g.Extends k) (h : d.ShownBy dense g v) :
    d.ShownBy dense k v := by
  induction d generalizing v with
  | scalar w => exact h
  | bigint n => exact h
  | date time => exact ⟨h.1, ext.objectOf? h.2⟩
  | pattern source flags => exact ⟨h.1, ext.objectOf? h.2⟩
  | numbers d bytes => exact ⟨h.1, h.2.1, ext.objectOf? h.2.2⟩
  | list data ih =>
    obtain ⟨items, found, full, all⟩ := h
    exact ⟨items, ext.objectOf? found, full, all.imp fun d mem v => ih d mem⟩
  | map keys values ihk ihv =>
    obtain ⟨entries, found, distinct, left, right⟩ := h
    exact ⟨entries, ext.objectOf? found, distinct, left.imp fun d mem v => ihk d mem,
      right.imp fun d mem v => ihv d mem⟩
  | set data ih =>
    obtain ⟨members, found, distinct, all⟩ := h
    exact ⟨members, ext.objectOf? found, distinct, all.imp fun d mem v => ih d mem⟩
  | column name values ih =>
    obtain ⟨scalar, w, found, ⟨rows, sized⟩, shown⟩ := h
    exact ⟨scalar, w, ext.objectOf? found, ⟨rows, sized.of_extends ext⟩, ih shown⟩
  | table names data ih =>
    obtain ⟨scalars, rows, columns, values, table, length, all⟩ := h
    exact ⟨scalars, rows, columns, values, table.of_extends ext, length,
      all.imp fun d mem v => ih d mem⟩

theorem AllShownBy.of_extends {data : List Datum} {vs : List Value} (ext : g.Extends k)
    (h : AllShownBy dense g data vs) : AllShownBy dense k data vs :=
  h.imp fun _ _ _ shown => shown.of_extends ext

theorem shownBy_list_of_madeList {data : List Datum} {vs : List Value}
    (found : g.objectOf? v = some (madeList vs)) (all : AllShownBy dense g data vs) :
    (list data).ShownBy dense g v := by
  have same : (vs.map some).map (·.getD .undefined) = vs := by
    rw [List.map_map]
    exact List.map_id vs
  refine ⟨vs.map some, found, fun _ => by simp, ?_⟩
  rwa [same]

theorem shownBy_list_iff {data : List Datum} :
    (list data).ShownBy true g v ↔
      ∃ vs, g.objectOf? v = some (madeList vs) ∧ AllShownBy true g data vs := by
  rw [ShownBy]
  constructor
  · rintro ⟨items, found, full, all⟩
    have whole : (items.map (·.getD .undefined)).map some = items := by
      rw [List.map_map]
      refine (List.map_congr_left fun item mem => ?_).trans (List.map_id items)
      cases item with
      | none => exact absurd mem (full rfl)
      | some w => rfl
    refine ⟨_, ?_, all⟩
    rw [madeList, whole]
    exact found
  · rintro ⟨vs, found, all⟩
    exact shownBy_list_of_madeList found all

/-- The class that values holding a datum are instances of, unless they are scalars of a tuple. -/
def class? : Datum → Option Class
  | scalar _ => none
  | bigint _ => some .bigint
  | date _ => some .date
  | pattern .. => some .pattern
  | numbers d _ => some (.numbers d)
  | list _ => some .array
  | map .. => some .map
  | set _ => some .set
  | column .. => some .column
  | table .. => some .table

theorem ShownBy.scalar_or_object (h : d.ShownBy dense g v) :
    (d = scalar v ∧ v.isPrimitive = true) ∨ (∃ n, d = bigint n ∧ v = .bigint n) ∨
      ∃ o, g.objectOf? v = some o ∧ o.kind = d.class? := by
  cases d with
  | scalar w =>
    obtain ⟨rfl, primitive⟩ := h
    exact .inl ⟨rfl, primitive⟩
  | bigint n => exact .inr (.inl ⟨n, rfl, h⟩)
  | date | pattern => exact .inr (.inr ⟨_, h.2, rfl⟩)
  | numbers => exact .inr (.inr ⟨_, h.2.2, rfl⟩)
  | list | map | set =>
    obtain ⟨_, found, _⟩ := h
    exact .inr (.inr ⟨_, found, rfl⟩)
  | column =>
    obtain ⟨_, _, found, _⟩ := h
    exact .inr (.inr ⟨_, found, rfl⟩)
  | table =>
    obtain ⟨_, _, _, _, ⟨⟨_, found, _⟩, _⟩, _⟩ := h
    exact .inr (.inr ⟨_, found, rfl⟩)

theorem ShownBy.ref_lt {ref : Ref} (h : d.ShownBy dense g (.object ref)) : ref < g.size := by
  rcases h.scalar_or_object with ⟨_, primitive⟩ | ⟨_, _, same⟩ | ⟨o, found, _⟩
  · cases primitive
  · cases same
  · exact Graph.lt_size_of_get? found

theorem ShownBy.objectOf?_of_extends {o : Object} (h : d.ShownBy dense g v) (ext : g.Extends k)
    (found : k.objectOf? v = some o) : g.objectOf? v = some o ∧ o.kind = d.class? := by
  rcases h.scalar_or_object with ⟨_, primitive⟩ | ⟨n, _, rfl⟩ | ⟨o', found', kind⟩
  · cases v <;> first | cases found | cases primitive
  · cases found
  · obtain rfl := Option.some.inj ((ext.objectOf? found').symm.trans found)
    exact ⟨found', kind⟩

theorem ShownBy.classOf? {c : Class} (own : d.class? = some c) (h : d.ShownBy dense g v) :
    g.classOf? v = some c := by
  rcases h.scalar_or_object with ⟨rfl, _⟩ | ⟨n, rfl, rfl⟩ | ⟨o, found, kind⟩
  · cases own
  · exact own
  · cases v with
    | object ref =>
      rw [Graph.objectOf?_object] at found
      rw [Graph.classOf?, found]
      exact kind.trans own
    | _ => cases found

theorem ShownBy.leaf_cases (h : d.ShownBy dense g v) (leaf : g.isLeaf v = true) :
    d = scalar v ∨ ∃ bytes, d = numbers .uint8 bytes := by
  rcases h.scalar_or_object with ⟨rfl, _⟩ | ⟨n, rfl, rfl⟩ | ⟨o, found, kind⟩
  · exact .inl rfl
  · cases leaf
  · have within : o.kind.any (·.isWithin (.numbers .uint8)) = true := by
      cases v with
      | object ref => rwa [Graph.isLeaf, Graph.isBytes, Graph.kindOf?, found] at leaf
      | _ => cases found
    rw [kind] at within
    cases d with
    | numbers d bytes => cases d <;> first | exact .inr ⟨bytes, rfl⟩ | cases within
    | _ => cases within

/-- A leaf has no holes, and does not look like a node. -/
theorem ShownBy.of_isLeaf (h : d.ShownBy dense g v) (leaf : g.isLeaf v = true) :
    d.ShownBy true g v ∧ g.look v = .ok none := by
  rcases h.leaf_cases leaf with rfl | ⟨bytes, rfl⟩
  · exact ⟨h, Graph.look_of_isPrimitive g h.2⟩
  · refine ⟨h, ?_⟩
    rw [Graph.look, h.2.2]
    rfl

theorem ShownBy.sized {dense' : Bool} {w : Value} {n : Nat} (h : d.ShownBy dense g v)
    (sized : Sized g v n) (h' : d.ShownBy dense' k w) : Sized k w n := by
  obtain ⟨o, found, bare, length⟩ := sized
  -- only lists and number arrays give a length at once
  cases d with
  | scalar x =>
    obtain ⟨rfl, primitive⟩ := h
    cases v <;> first | cases found | cases primitive
  | bigint n =>
    obtain rfl : v = .bigint n := h
    cases found
  | date | pattern =>
    obtain rfl := Option.some.inj (h.2.symm.trans found)
    cases length
  | numbers =>
    obtain rfl := Option.some.inj (h.2.2.symm.trans found)
    exact ⟨_, h'.2.2, rfl, length⟩
  | list data =>
    obtain ⟨items, found', -, all⟩ := h
    obtain rfl := Option.some.inj (found'.symm.trans found)
    obtain ⟨items', found', -, all'⟩ := h'
    have same : items'.length = items.length := by
      rw [← List.length_map (·.getD .undefined), ← all'.length_eq, all.length_eq, List.length_map]
    exact ⟨_, found', rfl, (congrArg (fun n => some (Value.nat n)) same).trans length⟩
  | map | set =>
    obtain ⟨_, found', _⟩ := h
    obtain rfl := Option.some.inj (found'.symm.trans found)
    cases length
  | column =>
    obtain ⟨_, _, found', _⟩ := h
    obtain rfl := Option.some.inj (found'.symm.trans found)
    cases bare
  | table =>
    obtain ⟨_, _, _, _, ⟨⟨_, found', _⟩, _⟩, _⟩ := h
    obtain rfl := Option.some.inj (found'.symm.trans found)
    cases bare

theorem AllShownBy.sized {dense' : Bool} {data : List Datum} {vs ws : List Value} {n : Nat}
    (h : AllShownBy dense g data vs) (sized : ∀ v ∈ vs, Sized g v n)
    (h' : AllShownBy dense' k data ws) : ∀ w ∈ ws, Sized k w n := by
  induction data generalizing vs ws with
  | nil =>
    obtain rfl : ws = [] := h'
    exact fun _ mem => absurd mem List.not_mem_nil
  | cons d rest ih =>
    obtain ⟨v, others, rfl, first, all⟩ := h
    obtain ⟨w, others', rfl, first', all'⟩ := h'
    obtain ⟨length, lengths⟩ := List.forall_mem_cons.1 sized
    exact List.forall_mem_cons.2 ⟨first.sized length first', ih all lengths all'⟩

end Datum

end Marshal
