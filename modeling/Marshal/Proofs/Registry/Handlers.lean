import Marshal.Proofs.Collect
import Marshal.Proofs.Registry.Endless
import Marshal.Proofs.Registry.Restored

namespace Marshal

open Marshal.Action
open Marshal.Effect
open Marshal.Registry

namespace Registry

theorem rebuilds_object {codec : Codec} {d : Datum} {g k last : Graph} {v : Value}
    {ws : List Value} {ref : Ref} (shown : d.ShownBy false g v) (other : d.class? ≠ some .array)
    (ran : (codec.deserialize.run (.object k.size)).run (k.add (madeList ws)) =
      (.ok (.object ref), last))
    (ext : (k.add (madeList ws)).Extends last) (shown' : d.ShownBy true last (.object ref))
    (le : (k.add (madeList ws)).size ≤ ref) : Rebuilds codec d g v k ws := by
  have since : k.size ≤ ref := (Graph.extends_add k (madeList ws)).size_le.trans le
  refine ⟨.object ref, last, ran, ext, shown', .inr ⟨ref, rfl, since⟩, ?_⟩
  rintro ⟨vs, found, -⟩
  exact absurd (shown.objectOf?_of_extends (.refl g) found).2.symm other

theorem handles_of_newList {codec : Codec} {data : List Datum} {d : Datum}
    (h : ∀ g v, d.ShownBy false g v → ∃ made parts, g.Extends made ∧
      (codec.serialize.run v).run g =
        (.ok (.object made.size), made.add (madeList parts)) ∧
      Datum.AllShownBy false made data parts ∧
      ∀ k ws, Regained (made.add (madeList parts)) data parts k ws →
        Rebuilds codec d g v k ws) : Handles codec data d := by
  intro g v shown
  obtain ⟨made, parts, before, wrote, shownParts, rebuilds⟩ := h g v shown
  have ext := Graph.extends_add made (madeList parts)
  exact ⟨made.size, parts, _, wrote, before.trans ext, Graph.get?_add_size _ _,
    shownParts.of_extends ext, rebuilds⟩

end Registry

theorem handles_of_lists {codec : Codec} {left right : List Datum} {d : Datum}
    (h : ∀ g v, d.ShownBy false g v → ∃ as bs,
      (codec.serialize.run v).run g = (.ok (.object (g.size + 2)),
        ((g.add (madeList as)).add (madeList bs)).add
          (madeList [.object g.size, .object (g.size + 1)])) ∧
      Datum.AllShownBy false g left as ∧ Datum.AllShownBy false g right bs ∧
      ∀ k l l' vs ws, g.Extends k → k.objectOf? l = some (madeList vs) →
        k.objectOf? l' = some (madeList ws) → Datum.AllShownBy true k left vs →
        Datum.AllShownBy true k right ws → (Keys as → Keys vs) →
        Rebuilds codec d g v k [l, l']) : Handles codec [.list left, .list right] d := by
  refine handles_of_newList ?_
  intro g v shown
  obtain ⟨as, bs, wrote, shownLeft, shownRight, rebuilds⟩ := h g v shown
  have ext₁ := Graph.extends_add g (madeList as)
  have ext₂ := Graph.extends_add (g.add (madeList as)) (madeList bs)
  have ext₃ := Graph.extends_add ((g.add (madeList as)).add (madeList bs))
    (madeList [.object g.size, .object (g.size + 1)])
  have ext := ext₁.trans ext₂
  have size : ((g.add (madeList as)).add (madeList bs)).size = g.size + 2 := by
    rw [Graph.size_add, Graph.size_add]
  have first := ext₂ _ _ (Graph.get?_add_size g (madeList as))
  have second := Graph.get?_add_size (g.add (madeList as)) (madeList bs)
  rw [Graph.size_add] at second
  refine ⟨_, [.object g.size, .object (g.size + 1)], ext, size ▸ wrote,
    ⟨_, _, rfl, Datum.shownBy_list_of_madeList first (shownLeft.of_extends ext), _, _, rfl,
      Datum.shownBy_list_of_madeList second (shownRight.of_extends ext), rfl⟩,
    fun k ws regained => ?_⟩
  obtain ⟨l, _, rfl, shown₁, l', _, rfl, shown₂, rfl⟩ := regained.shown
  obtain ⟨vs, found, all⟩ := Datum.shownBy_list_iff.1 shown₁
  obtain ⟨ws, found', all'⟩ := Datum.shownBy_list_iff.1 shown₂
  refine rebuilds k l l' vs ws ((ext.trans ext₃).trans regained.ext) found found' all all'
    fun keys => ?_
  -- a list of keys is regained as one, so that no two entries fall together
  cases regained.keyed with
  | cons keyed _ => exact Keyed.keys (keyed ⟨as, ext₃ _ _ first, keys⟩) found

namespace Defaults

theorem readBigint_run {g : Graph} {data : Value} {n : Int}
    (found : g.objectOf? data = some (madeList [.string (toString n)])) :
    (readBigint data).run g = (.ok (.bigint n), g) := by
  rw [readBigint, run_bind, iterate_madeList_run found]
  dsimp only
  rw [run_bind, show slot [.string (toString n)] 0 = .string (toString n) from rfl, wholeNumber_run]
  rfl

theorem handles_bigint (n : Int) :
    Handles (fresh writeBigint readBigint) [.scalar (.string (toString n))] (.bigint n) := by
  refine handles_of_newList ?_
  rintro g v rfl
  refine ⟨g, [.string (toString n)], .refl g, rfl, ⟨_, _, rfl, ⟨rfl, rfl⟩, rfl⟩,
    fun k ws regained => ?_⟩
  obtain ⟨w, _, rfl, ⟨rfl, -⟩, rfl⟩ := regained.shown
  have ext := (Graph.extends_add g _).trans
    (regained.ext.trans (Graph.extends_add k (madeList [.string (toString n)])))
  exact ⟨.bigint n, _, readBigint_run (Graph.get?_add_size _ _), .refl _, rfl, .kept ext⟩

def timeNumber : Option Int → Number
  | some ms => .ofInt ms
  | none => .nan

theorem writeDate_run {g : Graph} {v : Value} {time : Option Int}
    (found : g.objectOf? v = some (.bare .date (.date time))) :
    (writeDate v).run g =
      (.ok (.object g.size), g.add (madeList [.number (timeNumber time)])) := by
  rw [writeDate, run_bind, objectOf?_run, found]
  cases time <;> rfl

theorem readDate_run {g : Graph} {data : Value} {time : Option Int}
    (inside : time.all Calendar.inRange = true)
    (found : g.objectOf? data = some (madeList [.number (timeNumber time)])) :
    (readDate data).run g = (.ok (.object g.size), g.add (.bare .date (.date time))) := by
  have clipped : clip (timeNumber time).truncate? = time := by
    cases time with
    | none => decide
    | some ms => exact clip_truncate?_ofInt inside
  rw [readDate, run_bind, iterate_madeList_run found]
  dsimp only
  rw [run_bind, show slot [.number (timeNumber time)] 0 = .number (timeNumber time) from rfl,
    time_number_run, clipped]
  rfl

theorem handles_date (time : Option Int) :
    Handles (fresh writeDate readDate) [.scalar (.number (timeNumber time))] (.date time) := by
  refine handles_of_newList ?_
  rintro g v ⟨inside, found⟩
  refine ⟨g, _, .refl g, writeDate_run found, ⟨_, _, rfl, ⟨rfl, rfl⟩, rfl⟩,
    fun k ws regained => ?_⟩
  obtain ⟨w, _, rfl, ⟨rfl, -⟩, rfl⟩ := regained.shown
  exact rebuilds_object ⟨inside, found⟩ (by decide : some Class.date ≠ some .array)
    (readDate_run inside (Graph.get?_add_size _ _)) (Graph.extends_add _ _)
    ⟨inside, Graph.get?_add_size _ _⟩ le_rfl

theorem writePattern_run {g : Graph} {v : Value} {source flags : String}
    (found : g.objectOf? v = some (.bare .pattern (.pattern source flags))) :
    (writePattern v).run g =
      (.ok (.object g.size), g.add (madeList [.string source, .string flags])) := by
  rw [writePattern, run_bind, property_hidden_run found rfl (by decide) rfl]
  dsimp only
  rw [run_bind, property_hidden_run found rfl (by decide) rfl]
  rfl

theorem readPattern_run {g : Graph} {data : Value} {source flags : String}
    (stable : Pattern.build? source flags = some (source, flags))
    (found : g.objectOf? data = some (madeList [.string source, .string flags])) :
    (readPattern data).run g =
      (.ok (.object g.size), g.add (.bare .pattern (.pattern source flags))) := by
  rw [readPattern, run_bind, iterate_madeList_run found]
  exact patternOf_run stable g

theorem handles_pattern (source flags : String) :
    Handles (fresh writePattern readPattern) [.scalar (.string source), .scalar (.string flags)]
      (.pattern source flags) := by
  refine handles_of_newList ?_
  rintro g v ⟨stable, found⟩
  refine ⟨g, _, .refl g, writePattern_run found,
    ⟨_, _, rfl, ⟨rfl, rfl⟩, _, _, rfl, ⟨rfl, rfl⟩, rfl⟩, fun k ws regained => ?_⟩
  obtain ⟨w, _, rfl, ⟨rfl, -⟩, w', _, rfl, ⟨rfl, -⟩, rfl⟩ := regained.shown
  exact rebuilds_object ⟨stable, found⟩ (by decide : some Class.pattern ≠ some .array)
    (readPattern_run stable (Graph.get?_add_size _ _)) (Graph.extends_add _ _)
    ⟨stable, Graph.get?_add_size _ _⟩ le_rfl

theorem handles_list (data : List Datum) :
    Handles (fresh writeList readList) data (.list data) := by
  refine handles_of_newList ?_
  rintro g v ⟨items, found, -, all⟩
  have list : g.items? v = some items := by
    rw [Graph.items?, found]
    rfl
  refine ⟨g, _, .refl g, writeList_run list, all, fun k ws regained => ?_⟩
  have made : (k.add (madeList ws)).objectOf? (.object k.size) = some (madeList ws) :=
    Graph.get?_add_size _ _
  have ext := Graph.extends_add k (madeList ws)
  refine ⟨.object k.size, _, rfl, .refl _,
    Datum.shownBy_list_of_madeList made (regained.shown.of_extends ext),
    .inr ⟨k.size, rfl, le_rfl⟩, ?_⟩
  rintro ⟨vs, found', keys⟩
  have same : items = vs.map some := by
    have same := Option.some.inj (found.symm.trans found')
    exact (Body.list.injEq _ _).mp (congrArg Object.body same)
  refine ⟨ws, made, regained.keys ?_⟩
  rw [same, List.map_map]
  exact (List.map_id vs).symm ▸ keys

theorem handles_column (name : Value) (values : Datum) :
    Handles columnCodec [.scalar name, values] (.column name values) := by
  refine handles_of_newList ?_
  rintro g v ⟨primitive, w, found, ⟨rows, sized⟩, shown⟩
  have wrote : (writeColumn v).run g = (.ok (.object g.size), g.add (madeList [name, w])) := by
    rw [writeColumn, run_bind, Table.columnToStructure_run found]
    rfl
  refine ⟨g, _, .refl g, wrote, ⟨_, _, rfl, ⟨rfl, primitive⟩, _, _, rfl, shown, rfl⟩,
    fun k ws regained => ?_⟩
  obtain ⟨name, _, rfl, ⟨rfl, -⟩, w', _, rfl, shown', rfl⟩ := regained.shown
  have ext := (Graph.extends_add k (madeList [name, w'])).trans
    (Graph.extends_add _ (Table.columnObject name w'))
  exact rebuilds_object ⟨primitive, w, found, ⟨rows, sized⟩, shown⟩
    (by decide : some Class.column ≠ some .array)
    (Table.columnOfStructure_run (Graph.get?_add_size _ _)) (Graph.extends_add _ _)
    ⟨primitive, w', Graph.get?_add_size _ _, ⟨rows, shown.sized sized (shown'.of_extends ext)⟩,
      shown'.of_extends ext⟩ le_rfl

theorem readMap_run {g : Graph} {data keyList valueList : Value} {keys values : List Value}
    (found : g.objectOf? data = some (madeList [keyList, valueList]))
    (keyed : g.objectOf? keyList = some (madeList keys)) (distinct : Keys keys)
    (held : g.objectOf? valueList = some (madeList values)) (length : keys.length = values.length) :
    (readMap data).run g = (.ok (.object g.size), g.add (.bare .map (.map (keys.zip values)))) := by
  rw [readMap, run_bind, iterate_madeList_run found]
  dsimp only
  rw [run_bind, show slot [keyList, valueList] 0 = keyList from rfl,
    show slot [keyList, valueList] 1 = valueList from rfl, objectOf?_run, keyed]
  change (((keys.map some).zipIdx.mapM _ >>= _ : Action Value)).run g = _
  rw [run_bind, mapM_run_of_forall₂ (m := keys.zip values) (r := some)]
  · dsimp only
    have full : ((keys.zip values).map some).any Option.isNone = false := by simp
    have entries : ((keys.zip values).map some).filterMap id = keys.zip values := by simp
    rw [full, if_neg Bool.false_ne_true, entries, entriesOf_eq_self]
    · rfl
    · rwa [List.map_fst_zip length.le]
  · refine List.forall₂_iff_get.2 ⟨by simp [length], fun i inside inside' => ?_⟩
    have bound : i < keys.length := by simpa using inside
    have bound' : i < values.length := length ▸ bound
    simp only [List.get_eq_getElem, List.getElem_zipIdx, List.getElem_map, List.getElem_zip,
      Nat.zero_add]
    rw [run_bind, property_index_run (hasItems_of_madeList held)
      (List.getElem?_eq_getElem bound')]
    rfl

theorem handles_map (keys values : List Datum) :
    Handles (fresh writeMap readMap) [.list keys, .list values] (.map keys values) := by
  refine handles_of_lists ?_
  rintro g v ⟨entries, found, distinct, left, right⟩
  have body : (g.objectOf? v).map Object.body = some (.map entries) := by
    rw [found]
    rfl
  refine ⟨_, _, writeMap_run body, left, right, ?_⟩
  intro k l l' vs ws ext foundKeys foundValues shownKeys shownValues keyed
  have distinct' := keyed distinct
  have length : vs.length = ws.length := by
    rw [← shownKeys.length_eq, ← shownValues.length_eq, left.length_eq, right.length_eq,
      List.length_map, List.length_map]
  have data := Graph.extends_add k (madeList [l, l'])
  have map := Graph.extends_add (k.add (madeList [l, l'])) (.bare .map (.map (vs.zip ws)))
  refine rebuilds_object ⟨entries, found, distinct, left, right⟩
    (by decide : some Class.map ≠ some .array)
    (readMap_run (Graph.get?_add_size _ _) (data.objectOf? foundKeys) distinct'
      (data.objectOf? foundValues) length) map
    ⟨vs.zip ws, Graph.get?_add_size _ _, ?_⟩ le_rfl
  rw [List.map_fst_zip length.le, List.map_snd_zip length.ge]
  exact ⟨distinct', shownKeys.of_extends (data.trans map),
    shownValues.of_extends (data.trans map)⟩

theorem readSet_run {g : Graph} {data list : Value} {members : List Value}
    (found : g.objectOf? data = some (madeList [list]))
    (held : g.objectOf? list = some (madeList members)) (distinct : Keys members) :
    (readSet data).run g = (.ok (.object g.size), g.add (.bare .set (.set members))) := by
  have object : list.isNullish = false := by
    cases list <;> first | rfl | cases held
  rw [readSet, run_bind, iterate_madeList_run found]
  dsimp only
  rw [show slot [list] 0 = list from rfl, Action.setOf, object, if_neg Bool.false_ne_true, run_bind,
    iterate_madeList_run held]
  dsimp only
  rw [membersOf_eq_self distinct]
  rfl

theorem handles_set (data : List Datum) :
    Handles (fresh writeSet readSet) [.list data] (.set data) := by
  refine handles_of_newList ?_
  rintro g v ⟨members, found, distinct, all⟩
  have body : (g.objectOf? v).map Object.body = some (.set members) := by
    rw [found]
    rfl
  have ext := Graph.extends_add g (madeList members)
  have wrote := writeSet_run body
  rw [← Graph.size_add g (madeList members)] at wrote
  have list := Graph.get?_add_size g (madeList members)
  refine ⟨_, _, ext, wrote,
    ⟨_, _, rfl, Datum.shownBy_list_of_madeList list (all.of_extends ext), rfl⟩,
    fun k ws regained => ?_⟩
  obtain ⟨l, _, rfl, shown, rfl⟩ := regained.shown
  obtain ⟨vs, held, shownMembers⟩ := Datum.shownBy_list_iff.1 shown
  have distinct' : Keys vs := by
    cases regained.keyed with
    | cons keyed _ =>
      exact Keyed.keys (keyed ⟨members, Graph.extends_add _ _ _ _ list, distinct⟩) held
  have data := Graph.extends_add k (madeList [l])
  have set := Graph.extends_add (k.add (madeList [l])) (.bare .set (.set vs))
  exact rebuilds_object ⟨members, found, distinct, all⟩ (by decide : some Class.set ≠ some .array)
    (readSet_run (Graph.get?_add_size _ _) (data.objectOf? held) distinct') set
    ⟨vs, Graph.get?_add_size _ _, distinct', shownMembers.of_extends (data.trans set)⟩ le_rfl

def byteArray (bytes : ByteArray) : Object := .bare (.numbers .uint8) (.numbers .uint8 bytes)

theorem writeArray_run {g : Graph} {v : Value} {c : Class} {d : DType} {bytes : ByteArray}
    (found : g.objectOf? v = some (.bare c (.numbers d bytes))) :
    (writeArray v).run g = (.ok (.object (g.add (byteArray bytes)).size),
      (g.add (byteArray bytes)).add (madeList [.string d.name, .object g.size])) := by
  rw [writeArray, run_bind, objectOf?_run, found]
  rfl

theorem arrayOf_bytes_run {g : Graph} {data : Value} {c : Class} {bytes : ByteArray}
    (small : bytes.size < 2 ^ 53)
    (found : g.objectOf? data = some (.bare c (.numbers .uint8 bytes))) (name : String) :
    (arrayOf (.string name) data).run g =
      match DType.ofName? name with
      | none => (.error (NumberArray.unknownKind name), g)
      | some d =>
        if bytes.size % d.width = 0 then
          (.ok (.object g.size), g.add (.bare (.numbers d) (.numbers d bytes)))
        else (.error (NumberArray.partialElement (Number.ofNat bytes.size).text d), g) := by
  rw [arrayOf]
  cases known : DType.ofName? name with
  | none => rfl
  | some d =>
    have size : (property data "byteLength").run g = (.ok (.nat bytes.size), g) :=
      property_hidden_run found rfl (by decide) rfl
    -- the length goes through a number, which stores it exactly
    have count := Number.toInt?_ofNat small
    have remainder : (bytes.size : Int) % Int.ofNat d.width = 0 ↔ bytes.size % d.width = 0 := by
      rw [← Int.natCast_eq_zero, Int.natCast_mod]
      rfl
    dsimp only
    rw [run_bind, run_pure]
    dsimp only
    rw [run_bind, size]
    dsimp only [Value.nat]
    by_cases whole : bytes.size % d.width = 0
    · have positive : ¬ (bytes.size : Int) < 0 := Int.not_lt.2 (Int.natCast_nonneg _)
      have stored : g.bytes? data = some bytes := by
        rw [Graph.bytes?, found]
        rfl
      have decoded : NumberArray.decode d.name bytes = .ok ⟨d, bytes⟩ := by
        rw [NumberArray.decode, DType.ofName?_name]
        exact if_pos whole
      simp only [count, remainder.2 whole, decide_true, Bool.not_true, Bool.false_eq_true, if_false,
        positive]
      rw [run_bind, run_pure]
      dsimp only
      rw [run_bind, run_get]
      dsimp only
      rw [stored]
      dsimp only
      rw [decoded, if_pos whole]
      rfl
    · simp only [count, mt remainder.1 whole, decide_false, Bool.not_false, if_true]
      rw [run_bind, text_number_run, if_neg whole]
      rfl

theorem arrayOf_run {g : Graph} {data : Value} {c : Class} {d : DType} {bytes : ByteArray}
    (whole : bytes.size % d.width = 0) (small : bytes.size < 2 ^ 53)
    (found : g.objectOf? data = some (.bare c (.numbers .uint8 bytes))) :
    (arrayOf (.string d.name) data).run g =
      (.ok (.object g.size), g.add (.bare (.numbers d) (.numbers d bytes))) := by
  rw [arrayOf_bytes_run small found, DType.ofName?_name]
  exact if_pos whole

theorem readArray_run {g : Graph} {tuple data : Value} {c : Class} {d : DType} {bytes : ByteArray}
    (whole : bytes.size % d.width = 0) (small : bytes.size < 2 ^ 53)
    (found : g.objectOf? tuple = some (madeList [.string d.name, data]))
    (array : g.objectOf? data = some (.bare c (.numbers .uint8 bytes))) :
    (readArray tuple).run g =
      (.ok (.object g.size), g.add (.bare (.numbers d) (.numbers d bytes))) := by
  rw [readArray, run_bind, iterate_madeList_run found]
  exact arrayOf_run whole small array

theorem handles_numbers (d : DType) (bytes : ByteArray) :
    Handles (fresh writeArray readArray) [.scalar (.string d.name), .numbers .uint8 bytes]
      (.numbers d bytes) := by
  refine handles_of_newList ?_
  rintro g v ⟨whole, small, found⟩
  have array := Graph.get?_add_size g (byteArray bytes)
  refine ⟨_, _, Graph.extends_add g (byteArray bytes), writeArray_run found,
    ⟨_, _, rfl, ⟨rfl, rfl⟩, _, _, rfl, ⟨Nat.mod_one _, small, array⟩, rfl⟩,
    fun k ws regained => ?_⟩
  obtain ⟨name, _, rfl, ⟨rfl, -⟩, l, _, rfl, ⟨-, -, held⟩, rfl⟩ := regained.shown
  have data := Graph.extends_add k (madeList [.string d.name, l])
  have other : some (Class.numbers d) ≠ some .array := by cases d <;> decide
  exact rebuilds_object ⟨whole, small, found⟩ other
    (readArray_run whole small (Graph.get?_add_size _ _) (data.objectOf? held))
    (Graph.extends_add _ _) ⟨whole, small, Graph.get?_add_size _ _⟩ le_rfl

theorem writeTable_run {g : Graph} {rows : Nat} {table : Value} {columns names values : List Value}
    (h : Table.IsTable g rows table columns (names.zip values))
    (length : names.length = values.length) :
    (writeTable table).run g = (.ok (.object (g.size + 2)),
      ((g.add (madeList names)).add (madeList values)).add
        (madeList [.object g.size, .object (g.size + 1)])) := by
  rw [writeTable, run_bind, h.lists.toStructure_run, List.map_fst_zip length.le,
    List.map_snd_zip length.ge]
  dsimp only
  rw [tuple, newList_run, Graph.size_add, Graph.size_add]

theorem handles_table (names : List Value) (columns : List Datum) :
    Handles tableCodec [.list (names.map .scalar), .list columns] (.table names columns) := by
  refine handles_of_lists ?_
  rintro g v ⟨primitive, rows, objects, values, table, length, all⟩
  have shownNames : Datum.AllShownBy false g (names.map .scalar) names :=
    Datum.allShownBy_scalar_iff.2 ⟨rfl, primitive⟩
  refine ⟨names, values, writeTable_run table length, shownNames, all, ?_⟩
  intro k l l' vs ws ext foundNames foundValues shownNames' shownValues _
  obtain ⟨rfl, -⟩ := Datum.allShownBy_scalar_iff.1 shownNames'
  have length' : vs.length = ws.length := by
    rw [length, ← all.length_eq, shownValues.length_eq]
  have distinct : vs.Pairwise fun a b => a.same b = false := by
    have distinct := table.even.distinct
    rwa [List.map_fst_zip length.le] at distinct
  have data := Graph.extends_add k (madeList [l, l'])
  have tuple : (k.add (madeList [l, l'])).objectOf? (.object k.size) = some (madeList [l, l']) :=
    Graph.get?_add_size _ _
  have sized := all.sized (table.even.sized length) (shownValues.of_extends data)
  obtain ⟨ref, columns', last, ran, grown, le, table'⟩ :=
    Table.ofStructure_run tuple (hasItems_of_madeList (data.objectOf? foundNames))
      (hasItems_of_madeList (data.objectOf? foundValues)) length' sized distinct
  exact rebuilds_object ⟨primitive, rows, objects, values, table, length, all⟩
    (by decide : some Class.table ≠ some .array) ran grown
    ⟨primitive, rows, columns', ws, table', length',
      shownValues.of_extends (data.trans grown)⟩ le

end Defaults

end Marshal
