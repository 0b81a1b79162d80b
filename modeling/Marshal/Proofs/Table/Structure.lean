import Marshal.Proofs.Table.Check

namespace Marshal

namespace Action

open Marshal.Effect

theorem text_run_of_text? {v : Value} (text : v.text?.isSome = true) (g : Graph) :
    (Action.text v).run g = (.ok v.scalarText, g) := by
  cases v with
  | string | brokenText =>
    rw [Action.text, run_bind, run_get]
    rfl
  | _ => cases text

end Action

namespace Table

open Marshal.Action
open Marshal.Effect

variable {g k : Graph}

/-- A list or number array of so many items, which are as many as a number can count exactly. -/
structure Measures (g : Graph) (v : Value) (n : Nat) : Prop where
  holds : holdsValues g v = true
  length : length? g v = some (.nat n)
  small : n < 2 ^ 53

/-- No name twice, and all columns equally long. A column is given by its name and its length. -/
def Uniform (labels : List (Value × Nat)) : Prop :=
  (labels.map Prod.fst).Nodup ∧ ∀ a ∈ labels, ∀ b ∈ labels, a.2 = b.2

/-- The error of the first column that has the name of an earlier one or, if not that, another
length than the first column. -/
inductive FirstFault (labels : List (Value × Nat)) : Fault → Prop
  | duplicate {before after : List (Value × Nat)} {name : Value} {n : Nat}
    (split : labels = before ++ (name, n) :: after) (uniform : Uniform before)
    (repeated : name ∈ before.map Prod.fst) : FirstFault labels (duplicateName name.scalarText)
  | uneven {before after : List (Value × Nat)} {name lead : Value} {n expected : Nat}
    (split : labels = before ++ (name, n) :: after) (uniform : Uniform before)
    (new : name ∉ before.map Prod.fst) (first : before.head? = some (lead, expected))
    (other : n ≠ expected) :
    FirstFault labels (unevenColumn name.scalarText (Number.ofNat n).text
      (Number.ofNat expected).text)

theorem FirstFault.not_uniform {labels : List (Value × Nat)} {fault : Fault}
    (h : FirstFault labels fault) : ¬ Uniform labels := by
  rintro ⟨distinct, even⟩
  cases h with
  | duplicate split _ repeated =>
    rw [split, List.map_append, List.map_cons, List.nodup_append] at distinct
    exact distinct.2.2 _ repeated _ List.mem_cons_self rfl
  | uneven split _ _ first other =>
    subst split
    exact other (even _ (List.mem_append_right _ List.mem_cons_self) _
      (List.mem_append_left _ (List.mem_of_mem_head? first)))

theorem Uniform.snoc {before : List (Value × Nat)} (h : Uniform before) {label : Value × Nat}
    (new : label.1 ∉ before.map Prod.fst) (equal : ∀ first, before.head? = some first →
      label.2 = first.2) : Uniform (before ++ [label]) := by
  obtain ⟨distinct, even⟩ := h
  constructor
  · rw [List.map_append, List.map_singleton]
    exact distinct.append (List.nodup_singleton _) (by simpa using new)
  · have equal' : ∀ a ∈ before, a.2 = label.2 := by
      intro a mem
      cases before with
      | nil => cases mem
      | cons first rest => exact (even a mem first List.mem_cons_self).trans (equal first rfl).symm
    intro a mem b mem'
    rcases List.mem_append.1 mem with old | new <;> rcases List.mem_append.1 mem' with old' | new'
    · exact even a old b old'
    · rw [List.mem_singleton.1 new', equal' a old]
    · rw [List.mem_singleton.1 new, equal' b old']
    · rw [List.mem_singleton.1 new, List.mem_singleton.1 new']

/-- A column of this name and length, as the checks find it. -/
structure Labelled (g : Graph) (column : Value) (label : Value × Nat) : Prop where
  name_run : (property column "name").run g = (.ok label.1, g)
  length_run : (property column "length").run g = (.ok (.nat label.2), g)
  text : label.1.text?.isSome = true
  small : label.2 < 2 ^ 53

theorem labelled_head {columns : List Value} {labels : List (Value × Nat)}
    (all : List.Forall₂ (Labelled g) columns labels) {label : Value × Nat}
    (head : labels.head? = some label) :
    Labelled g (columns.head?.getD .undefined) label := by
  cases all with
  | nil => cases head
  | cons first => exact Option.some.inj head ▸ first

/-- The checks go from left to right: if the columns before passed, the others pass too or the first
one that does not is reported. -/
theorem check_cases {first : Value} {before rest : List (Value × Nat)} {columns : List Value}
    (all : List.Forall₂ (Labelled g) columns rest)
    (lead : ∀ label, (before ++ rest).head? = some label → Labelled g first label)
    (uniform : Uniform before) :
    (Uniform (before ++ rest) ∧
        (check first (before.map Prod.fst).reverse columns).run g = (.ok (), g)) ∨
      ∃ fault, FirstFault (before ++ rest) fault ∧
        (check first (before.map Prod.fst).reverse columns).run g = (.error fault, g) := by
  induction all generalizing before with
  | nil =>
    rw [List.append_nil]
    exact .inl ⟨uniform, rfl⟩
  | @cons column label columns rest here _ ih =>
    obtain ⟨name, n⟩ := label
    obtain ⟨⟨leader, expected⟩, head⟩ : ∃ l, (before ++ (name, n) :: rest).head? = some l :=
      ⟨_, List.head?_eq_some_head (by simp)⟩
    have length := lead _ head
    have seen : (before.map Prod.fst).reverse.any (·.same name) = true ↔
        name ∈ before.map Prod.fst := by
      simp only [List.any_eq_true, List.mem_reverse, Value.same_iff_of_text here.text,
        exists_eq_right]
    rw [check_cons_run here.name_run here.length_run length.length_run]
    by_cases repeated : name ∈ before.map Prod.fst
    · rw [if_pos (seen.2 repeated), run_bind, text_run_of_text? here.text]
      exact .inr ⟨_, .duplicate rfl uniform repeated, rfl⟩
    · rw [if_neg (mt seen.1 repeated)]
      by_cases equal : n = expected
      · subst equal
        rw [show (Value.nat n).equals (.nat n) = true from Number.equals_ofNat n, if_pos rfl]
        have next := @ih (before ++ [(name, n)]) (by simpa using lead)
          (uniform.snoc repeated fun first same => ?_)
        · simpa using next
        · rw [List.head?_append, same, Option.some_or, Option.some.injEq] at head
          rw [head]
      · have unequal : (Value.nat n).equals (.nat expected) = false := by
          rw [Bool.eq_false_iff]
          exact fun same => equal (Number.eq_of_equals_ofNat here.small length.small same)
        have first : before.head? = some (leader, expected) := by
          cases before with
          | nil =>
            cases head
            exact absurd rfl equal
          | cons => exact head
        rw [unequal, if_neg Bool.false_ne_true, run_bind, text_run_of_text? here.text]
        dsimp only
        rw [run_bind, Value.nat, text_number_run]
        dsimp only
        rw [run_bind, Value.nat, text_number_run]
        exact .inr ⟨_, .uneven rfl uniform repeated first equal, rfl⟩

section Codec

variable {names values : List Value} {lengths : List Nat}

theorem forall₂_zip_measures (texts : ∀ name ∈ names, name.text?.isSome = true)
    (sizes : List.Forall₂ (Measures g) values lengths) :
    List.Forall₂ (fun (pair : Value × Value) (label : Value × Nat) =>
      pair.1 = label.1 ∧ label.1.text?.isSome = true ∧ Measures g pair.2 label.2)
      (names.zip values) (names.zip lengths) := by
  induction sizes generalizing names with
  | nil => simp
  | cons first _ ih =>
    cases names with
    | nil => exact .nil
    | cons name names =>
      obtain ⟨text, texts⟩ := List.forall_mem_cons.1 texts
      exact .cons ⟨rfl, text, first⟩ (ih texts)

theorem build_newColumns_cases (texts : ∀ name ∈ names, name.text?.isSome = true)
    (sizes : List.Forall₂ (Measures g) values lengths) :
    (Uniform (names.zip lengths) ∧ ∃ table k,
        (build (newColumns g (names.zip values))).run
            (added g (columnObjects (names.zip values))) = (.ok table, k) ∧
          g.Extends k ∧ Lists k table (newColumns g (names.zip values)) (names.zip values)) ∨
      ∃ fault k, FirstFault (names.zip lengths) fault ∧
        (build (newColumns g (names.zip values))).run
            (added g (columnObjects (names.zip values))) = (.error fault, k) := by
  have objects := objects_newColumns g (names.zip values)
  have ext := extends_added g (columnObjects (names.zip values))
  have labelled : List.Forall₂ (Labelled (added g (columnObjects (names.zip values))))
      (newColumns g (names.zip values)) (names.zip lengths) := by
    refine (forall₂_comp objects (forall₂_zip_measures texts sizes)).imp ?_
    rintro column ⟨name, n⟩ ⟨⟨_, held⟩, found, rfl, text, size⟩
    exact ⟨name_run found, length_run found (length?_of_extends ext size.length), text, size.small⟩
  have start : Uniform [] := ⟨.nil, nofun⟩
  rcases check_cases labelled (fun _ head => labelled_head labelled head) start with
    ⟨uniform, checked⟩ | ⟨fault, first, checked⟩
  · exact .inl ⟨uniform, _, _, build_run_of_check checked, ext.trans (extends_built _ _),
      lists_built objects⟩
  · refine .inr ⟨fault, added g (columnObjects (names.zip values)), first, ?_⟩
    rw [List.map_nil, List.reverse_nil] at checked
    rw [build, run_bind, checked]

/-- A table is taken apart into a list of these names and a list of these values. -/
def ComesApart (g : Graph) (table : Value) (names values : List Value) : Prop :=
  ∃ namesList valuesList k, (toStructure table).run g = (.ok [namesList, valuesList], k) ∧
    g.Extends k ∧ HasItems k namesList names ∧ HasItems k valuesList values

theorem Lists.comesApart {table : Value} {columns : List Value} {pairs : List (Value × Value)}
    (h : Lists g table columns pairs) :
    ComesApart g table (pairs.map Prod.fst) (pairs.map Prod.snd) := by
  have first := Graph.extends_add g (madeList (pairs.map Prod.fst))
  have second := Graph.extends_add (g.add (madeList (pairs.map Prod.fst)))
    (madeList (pairs.map Prod.snd))
  refine ⟨_, _, _, h.toStructure_run, first.trans second,
    hasItems_of_madeList (second.get?_size), hasItems_of_madeList ?_⟩
  rw [← Graph.size_add g (madeList (pairs.map Prod.fst))]
  exact Graph.get?_add_size _ _

theorem exists_ofStructure_run {table : Value} {columns : List Value}
    (typed : ∀ column ∈ columns, HasValues g column)
    (ran : (build columns).run g = (.ok table, k)) :
    ∃ pairs, Lists k table columns pairs ∧ ∀ h namesList valuesList pair, k.Extends h →
      HasItems h namesList (pairs.map Prod.fst) → HasItems h valuesList (pairs.map Prod.snd) →
      h.items? pair = some [some namesList, some valuesList] →
        ∃ table' columns' last, (ofStructure pair).run h = (.ok table', last) ∧ h.Extends last ∧
          Lists last table' columns' pairs := by
  obtain ⟨ext, pairs, rows, lists, distinct, even⟩ := build_typed_ok typed ran
  refine ⟨pairs, lists, fun h namesList valuesList pair later named held found => ?_⟩
  rw [ofStructure_eq_build found rfl rfl named held (by simp), ← List.zip_of_prod rfl rfl]
  obtain ⟨table', last, ran', ext', -, lists'⟩ := exists_build_run distinct
    fun pair mem => (even pair mem).of_extends later
  exact ⟨_, _, last, ran', ext', lists'⟩

theorem uniform_zip_iff (length : names.length = lengths.length) :
    Uniform (names.zip lengths) ↔ names.Nodup ∧ ∀ m ∈ lengths, ∀ n ∈ lengths, m = n := by
  have counts : (names.zip lengths).map Prod.snd = lengths := List.map_snd_zip length.ge
  rw [Uniform, List.map_fst_zip length.le]
  refine and_congr_right fun _ => ?_
  conv_rhs => rw [← counts]
  simp only [List.forall_mem_map]

theorem ofStructure_cases {pair namesList valuesList : Value}
    (found : g.items? pair = some [some namesList, some valuesList])
    (named : HasItems g namesList names) (held : HasItems g valuesList values)
    (texts : ∀ name ∈ names, name.text?.isSome = true)
    (sizes : List.Forall₂ (Measures g) values lengths) (few : names.length < 2 ^ 53)
    (few' : values.length < 2 ^ 53) :
    ((names.length = values.length ∧ Uniform (names.zip lengths)) ∧
        ∃ table k, (ofStructure pair).run g = (.ok table, k) ∧ g.Extends k ∧
          ComesApart k table names values) ∨
      ¬ (names.length = values.length ∧ Uniform (names.zip lengths)) ∧
        ∃ fault k, (ofStructure pair).run g = (.error fault, k) ∧
          if names.length = values.length then FirstFault (names.zip lengths) fault
          else fault = countMismatch (Number.ofNat names.length).text
            (Number.ofNat values.length).text := by
  by_cases length : names.length = values.length
  · rw [ofStructure_eq_build found rfl rfl named held length]
    refine (build_newColumns_cases texts sizes).imp ?_ ?_
    · rintro ⟨uniform, table, k, ran, ext, lists⟩
      have apart := lists.comesApart
      rw [List.map_fst_zip length.le, List.map_snd_zip length.ge] at apart
      exact ⟨⟨length, uniform⟩, table, k, ran, ext, apart⟩
    · rintro ⟨fault, k, first, failed⟩
      refine ⟨fun fits => first.not_uniform fits.2, fault, k, failed, ?_⟩
      rwa [if_pos length]
  · refine .inr ⟨fun fits => length fits.1, _, g,
      ofStructure_mismatch_run found rfl rfl named held few few' length, ?_⟩
    rw [if_neg length]

/-- Names and values make a table exactly if there are as many of both, no name is there twice and
all values are equally long; the table comes apart into them again. Otherwise it is said how many of
both there are, or else what is wrong with the first column that is. And what any table comes apart
into makes a table of the same columns. -/
theorem structure_codec {pair namesList valuesList : Value}
    (found : g.items? pair = some [some namesList, some valuesList])
    (named : HasItems g namesList names) (held : HasItems g valuesList values)
    (texts : ∀ name ∈ names, name.text?.isSome = true)
    (sizes : List.Forall₂ (Measures g) values lengths) (few : names.length < 2 ^ 53)
    (few' : values.length < 2 ^ 53) :
    ((∃ table k, (ofStructure pair).run g = (.ok table, k)) ↔
        names.length = values.length ∧ names.Nodup ∧ ∀ m ∈ lengths, ∀ n ∈ lengths, m = n) ∧
      (∀ table k, (ofStructure pair).run g = (.ok table, k) →
        g.Extends k ∧ ComesApart k table names values) ∧
      (∀ fault k, (ofStructure pair).run g = (.error fault, k) →
        if names.length = values.length then FirstFault (names.zip lengths) fault
        else fault = countMismatch (Number.ofNat names.length).text
          (Number.ofNat values.length).text) ∧
      ∀ columns table k, (∀ column ∈ columns, HasValues g column) →
        (build columns).run g = (.ok table, k) →
          ∃ pairs, Lists k table columns pairs ∧
            ComesApart k table (pairs.map Prod.fst) (pairs.map Prod.snd) ∧
            ∀ h namesList valuesList pair, k.Extends h →
              HasItems h namesList (pairs.map Prod.fst) →
              HasItems h valuesList (pairs.map Prod.snd) →
              h.items? pair = some [some namesList, some valuesList] →
                ∃ table' columns' last, (ofStructure pair).run h = (.ok table', last) ∧
                  h.Extends last ∧ Lists last table' columns' pairs := by
  have fits : names.length = values.length ∧ Uniform (names.zip lengths) ↔
      names.length = values.length ∧ names.Nodup ∧ ∀ m ∈ lengths, ∀ n ∈ lengths, m = n :=
    and_congr_right fun length => uniform_zip_iff (length.trans sizes.length_eq)
  rw [← fits, ← and_assoc, ← and_assoc]
  refine ⟨?_, fun columns table k typed ran => ?_⟩
  · rcases ofStructure_cases found named held texts sizes few few' with
      ⟨fits, table, k, ran, ext, apart⟩ | ⟨unfit, fault, k, failed, told⟩
    · refine ⟨⟨iff_of_true ⟨table, k, ran⟩ fits, fun table' k' ran' => ?_⟩, fun _ _ failed => ?_⟩
      · cases ran.symm.trans ran'
        exact ⟨ext, apart⟩
      · cases ran.symm.trans failed
    · refine ⟨⟨iff_of_false ?_ unfit, fun _ _ ran => ?_⟩, fun fault' k' failed' => ?_⟩
      · rintro ⟨_, _, ran⟩
        cases failed.symm.trans ran
      · cases failed.symm.trans ran
      · cases failed.symm.trans failed'
        exact told
  · obtain ⟨pairs, lists, again⟩ := exists_ofStructure_run typed ran
    exact ⟨pairs, lists, lists.comesApart, again⟩

end Codec

namespace Sample

/-- Two names, two bytes and two numbers, three numbers, and the structures that name the bytes and
one of the lists. -/
def pieces : Graph :=
  ⟨#[madeList [.string "a", .string "b"],
    { kind := some (.numbers .int8), body := .numbers .int8 ⟨#[1, 2]⟩ },
    madeList [.nat 1, .nat 2], madeList [.nat 1, .nat 2, .nat 3],
    madeList [.object 1, .object 2], madeList [.object 0, .object 4],
    madeList [.object 1, .object 3], madeList [.object 0, .object 6]]⟩

/-- The bytes and the two numbers are a table together, the bytes and the three numbers are not. -/
theorem table_of_pieces :
    (∃ table k, (ofStructure (.object 5)).run pieces = (.ok table, k) ∧
        ComesApart k table [.string "a", .string "b"] [.object 1, .object 2]) ∧
      ¬ ∃ table k, (ofStructure (.object 7)).run pieces = (.ok table, k) := by
  have names : HasItems pieces (.object 0) [.string "a", .string "b"] := ⟨_, rfl, rfl, rfl⟩
  have texts : ∀ name ∈ [Value.string "a", .string "b"], name.text?.isSome = true := by decide
  have bytes : Measures pieces (.object 1) 2 := ⟨rfl, rfl, by decide⟩
  have two : Measures pieces (.object 2) 2 := ⟨rfl, rfl, by decide⟩
  have three : Measures pieces (.object 3) 3 := ⟨rfl, rfl, by decide⟩
  have even : pieces.items? (.object 5) = some [some (.object 0), some (.object 4)] := rfl
  have uneven : pieces.items? (.object 7) = some [some (.object 0), some (.object 6)] := rfl
  obtain ⟨accepts, apart, -⟩ := structure_codec even names ⟨_, rfl, rfl, rfl⟩ texts
    (.cons bytes (.cons two .nil)) (by decide) (by decide)
  obtain ⟨refuses, -⟩ := structure_codec uneven names ⟨_, rfl, rfl, rfl⟩ texts
    (.cons bytes (.cons three .nil)) (by decide) (by decide)
  obtain ⟨table, k, ran⟩ := accepts.2 ⟨rfl, by decide, by decide⟩
  refine ⟨⟨table, k, ran, (apart table k ran).2⟩, fun made => ?_⟩
  exact absurd (refuses.1 made).2.2 (by decide)

end Sample

end Table

end Marshal
