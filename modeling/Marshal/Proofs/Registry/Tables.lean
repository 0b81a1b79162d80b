import Marshal.Proofs.MessagePack.Rooted
import Marshal.Proofs.Pickle
import Marshal.Proofs.Registry.Lightweight
import Marshal.Proofs.Registry.Rebinding

namespace Marshal

open Marshal.Effect

namespace Registry

theorem bind_ok {r r' : Registry} {type : TypeRef} {tag : String} {c : Class} {codec : Codec}
    {pickled : Bool} {notices after : List Notice} (own : type.prototype = some c)
    (ran : (r.bind type tag codec pickled).run notices = (.ok r', after)) :
    tag ≠ fallbackTag ∧
      ((((r.byClass.find? c).any fun e => e.tag == tag && e.does codec pickled) = true ∧ r' = r) ∨
        r' = r.rebind c { type := some type, tag, codec, pickled }) := by
  by_cases reserved : tag = fallbackTag
  · subst reserved
    cases (bind_reserved_run r type codec pickled notices).symm.trans ran
  refine ⟨reserved, ?_⟩
  cases there : (r.byClass.find? c).any fun e => e.tag == tag && e.does codec pickled with
  | true =>
    cases (bind_same_run own reserved there notices).symm.trans ran
    exact .inl ⟨rfl, rfl⟩
  | false =>
    refine .inr ?_
    cases rival : r.rival? c tag with
    | none =>
      cases (bind_unrivalled_run own reserved rival there notices).symm.trans ran
      rfl
    | some holder =>
      have same := (bind_rivalled_run own reserved rival there notices).symm.trans ran
      split at same <;> cases same
      rfl

/-- Values of the class go to the byte codec whole, under the tag. -/
def HandsOver (r : Registry) (bytes : ByteCodec) (c : Class) (tag : String) : Prop :=
  ∃ e, r.byTag.find? tag = some e ∧ e.prototype? = some c ∧ e.codec = Pickle.codec bytes e.type

theorem handsOver_registerPickled {r r' : Registry} {c : Class} {tag : String}
    {notices after : List Notice} (consistent : r.Consistent) (faithful : r.UsesOwnCodec)
    (ran : (r.registerPickled (.ofClass c) tag).run notices = (.ok r', after)) :
    r'.HandsOver r.fallback c tag := by
  obtain ⟨-, ⟨there, rfl⟩ | rfl⟩ := bind_ok rfl ran
  · obtain ⟨e, found, does⟩ := (Option.any_eq_true _ _).1 there
    obtain ⟨tagged, does⟩ := Bool.and_eq_true_iff.1 does
    obtain ⟨own, held⟩ := consistent.ofClass c e found
    have pickled : e.pickled = true := by
      simpa [Entry.does] using does
    rw [beq_iff_eq.1 tagged] at held
    refine ⟨e, held, own, ?_⟩
    rw [← faithful.whole_eq held pickled]
    rfl
  · exact ⟨_, by rw [find?_byTag_rebind, if_pos rfl], rfl, rfl⟩

theorem registerPickled_keeps {r r' : Registry} {c : Class} {tag : String}
    {notices after : List Notice} (consistent : r.Consistent)
    (ran : (r.registerPickled (.ofClass c) tag).run notices = (.ok r', after)) :
    r'.Consistent ∧ r'.fallback = r.fallback ∧ ∀ bytes other tag', other ≠ c → tag' ≠ tag →
      r.HandsOver bytes other tag' → r'.HandsOver bytes other tag' := by
  obtain ⟨unreserved, ⟨-, rfl⟩ | rfl⟩ := bind_ok rfl ran
  · exact ⟨consistent, rfl, fun _ _ _ _ _ held => held⟩
  · refine ⟨consistent.rebind rfl unreserved, (sameSettings_rebind r c _).1.fallback, ?_⟩
    rintro bytes other tag' apart free ⟨e, held, own, codec⟩
    refine ⟨e, ?_, own, codec⟩
    rw [find?_byTag_rebind, if_neg free, if_neg, held]
    exact fun former => apart ((consistent.former_iff held own).1 former)

theorem handsOver_lightweight {base light : Registry} {overrides : Options}
    {notices after : List Notice} (sound : base.Sound) (faithful : base.UsesOwnCodec)
    (made : (base.lightweight overrides).run notices = (.ok light, after)) :
    light.HandsOver light.fallback .table "Table" := by
  have faithful := fun own => faithful.run sound [.clone own]
  obtain ⟨copy, _, ⟨⟩, made⟩ := run_bind_eq_ok.1 made
  obtain ⟨tables, _, first, made⟩ := run_bind_eq_ok.1 made
  obtain ⟨columns, _, second, third⟩ := run_bind_eq_ok.1 made
  have copied := sound.consistent.copyWith
    { overrides with name := some (overrides.name.getD "lightweight") }
  have held := handsOver_registerPickled copied (faithful _) first
  obtain ⟨consistent, same, -⟩ := registerPickled_keeps copied first
  obtain ⟨consistent', same', keeps⟩ := registerPickled_keeps consistent second
  obtain ⟨-, same'', keeps'⟩ := registerPickled_keeps consistent' third
  rw [same'', same', same]
  exact keeps' _ _ _ (by decide) (by decide) (keeps _ _ _ (by decide) (by decide) held)

theorem deserialize_packed_run {s : Scene} {tag : String} {data : Value} {e : Entry}
    (bytes : s.graph.isBytes data = true) (held : s.registry.entryForTag? tag = some e) :
    (deserialize tag data).run s =
      if s.stack = 0 then (.error .outOfRange, s)
      else if s.registry.maxDepth.exceededBy 0 then
        (.error (.registry (.depthExceeded s.registry.maxDepth)), s)
      else (rebuild e data).run s := by
  rw [deserialize_run]
  cases s.stack with
  | zero => rfl
  | succ fuel =>
    rw [if_neg fuel.succ_ne_zero, deserializeAt, run_bind, enter_run, held]
    cases s.registry.maxDepth.exceededBy 0 with
    | true => rfl
    | false =>
      rw [if_neg Bool.false_ne_true, if_neg Bool.false_ne_true]
      dsimp only
      rw [run_bind, input_bytes_run _ bytes]

theorem deserialize_eq_ok {s s' : Scene} {tag : String} {data v : Value} {e : Entry}
    (held : s.registry.entryForTag? tag = some e)
    (ran : (deserialize tag data).run s = (.ok v, s')) :
    ∃ given g, (e.codec.deserialize.run given).run g = (.ok v, s'.graph) ∧
      ∀ list fuel items middle, s.graph.isBytes data = false → s.graph.items? data = some list →
        s.stack = fuel + 1 →
        (mapItems (decodeItem (deserializeAt fuel 1)) data 0 list.length).run s =
          (.ok items, middle) →
        given = .object middle.graph.size ∧
          g = middle.graph.add { kind := s.graph.kindOf? data, body := .list items } := by
  rw [deserialize_run] at ran
  cases stack : s.stack with
  | zero =>
    rw [stack] at ran
    cases ran
  | succ fuel =>
    rw [stack, deserializeAt] at ran
    obtain ⟨e', _, entered, ran⟩ := run_bind_eq_ok.1 ran
    obtain ⟨-, held', rfl⟩ := enter_eq_ok entered
    obtain rfl := Option.some.inj (held.symm.trans held')
    obtain ⟨given, last, taken, ran⟩ := run_bind_eq_ok.1 ran
    refine ⟨given, last.graph, (rebuild_eq_ok ran).1, ?_⟩
    rintro list fuel' items middle other found ⟨⟩ inside
    rw [input_list_run _ other found, run_bind, inside] at taken
    cases taken
    exact ⟨rfl, rfl⟩

theorem deserialize_pickled_ok {s s' : Scene} {tag : String} {data v : Value} {e : Entry}
    {bytes : ByteCodec} {c : Class} (isBytes : s.graph.isBytes data = true)
    (held : s.registry.entryForTag? tag = some e) (own : e.prototype? = some c)
    (codec : e.codec = Pickle.codec bytes e.type)
    (ran : (deserialize tag data).run s = (.ok v, s')) :
    ∃ message w g, s.graph.bytes? data = some message ∧
      (bytes.decode message).run s.graph = (.ok w, g) ∧ Pickle.Restored c g w v s'.graph := by
  rw [deserialize_packed_run isBytes held] at ran
  split at ran
  · cases ran
  split at ran
  · cases ran
  have rebuilt := (rebuild_eq_ok ran).1
  rw [codec] at rebuilt
  obtain ⟨message, w, g, found, decoded, restored⟩ := Pickle.deserialize_ok own rebuilt
  exact ⟨message, w, g, found, decoded, Pickle.restore_ok restored⟩

theorem deserialize_packed_error {s s' : Scene} {tag : String} {data : Value} {e : Entry}
    {fault : Fault} (bytes : s.graph.isBytes data = true)
    (held : s.registry.entryForTag? tag = some e)
    (blamed : ∀ fault k, (e.codec.deserialize.run data).run s.graph = (.error fault, k) →
      ∃ cause, fault = .cause cause)
    (ran : (deserialize tag data).run s = (.error fault, s')) :
    (∃ error, fault = .registry error) ∨ s.stack = 0 ∧ fault = .outOfRange := by
  rw [deserialize_packed_run bytes held] at ran
  split at ran
  next none =>
    cases ran
    exact .inr ⟨none, rfl⟩
  split at ran
  · cases ran
    exact .inl ⟨_, rfl⟩
  cases outcome : (e.codec.deserialize.run data).run s.graph with
  | mk result last =>
    cases result with
    | ok w => cases (rebuild_ok outcome).symm.trans ran
    | error thrown =>
      obtain ⟨cause, rfl⟩ := blamed _ _ outcome
      have wrapped := rebuild_run_of_cause outcome
      rw [ran] at wrapped
      cases wrapped
      exact .inl ⟨_, rfl⟩

end Registry

/-- What becomes of a value that was decoded where a table is expected. -/
inductive Returned (g : Graph) (w : Value) : Value → Graph → Prop where
  | scalar (none : g.objectOf? w = none) : Returned g w w g
  | function {o : Object} (found : g.objectOf? w = some o) (body : o.body = .function) :
    Returned g w w g
  | table (sound : Table.IsSound g w) : Returned g w w g
  /-- Any other object: its entries are copied into an object of the class, the columns of which
  nobody looks at. -/
  | copied {o r : Object} (found : g.objectOf? w = some o) (other : g.isTable w = false)
      (copies : ({ kind := some .table } : Object).assignAll g o.entries = .ok r) :
    Returned g w (.object g.size) (g.add r)

theorem Pickle.Restored.returned {g k : Graph} {w v : Value} (h : Restored .table g w v k)
    (sound : g.isTable w = true → Table.IsSound g w) : Returned g w v k := by
  have kind {o : Object} (found : g.objectOf? w = some o) :
      g.isTable w = o.kind.any (·.isWithin .table) := by
    rw [Graph.isTable, Graph.kindOf?, found, Option.bind_some]
  cases h with
  | scalar none => exact .scalar none
  | function found body => exact .function found body
  | already found within => exact .table (sound ((kind found).trans within))
  | made found _ other copies => exact .copied found ((kind found).trans other) copies

namespace Table

open Marshal.Action (HasItems slot)

/-- Items that start with a list of texts and a list of lists and number arrays. -/
structure IsTyped (g : Graph) (items : List (Option Value)) (names values : List Value) : Prop where
  named : HasItems g (slot (items.map (·.getD .undefined)) 0) names
  held : HasItems g (slot (items.map (·.getD .undefined)) 1) values
  few : names.length < 2 ^ 53 ∧ values.length < 2 ^ 53
  texts : ∀ name ∈ names, name.text?.isSome = true
  holds : ∀ w ∈ values, holdsValues g w = true

end Table

theorem Pickle.deserialize_table_error {type : Option TypeRef} {g k : Graph} {data : Value}
    {fault : Fault} (own : type.bind TypeRef.prototype = some .table)
    (reserved : g.get? Graph.reservedRef = some Graph.reservedObject)
    (ran : ((codec .messagePack type).deserialize.run data).run g = (.error fault, k)) :
    ∃ cause, fault = .cause cause := by
  rcases deserialize_error own ran with blamed | ⟨message, failed | ⟨w, h, decoded, failed⟩⟩
  · exact blamed
  · exact (MessagePack.keeps_decode .whole message).cause_of_run failed
  · obtain ⟨o, found, copies⟩ := restore_error failed
    have sent := (MessagePack.decode_wellRead reserved decoded).sent o found
    obtain ⟨c, name, member, ⟨⟩, provided, refused⟩ := Object.assignAll_error
      (fun entry mem => Object.ne_proto_of_mem_entries sent.unlike mem) copies
    -- tables compute what they provide
    have computed : ∀ member ∈ Class.table.traits.members ++ Class.object.traits.members,
        member.write = .fails .misuse := by decide
    have mem : member ∈ Class.table.traits.members ++ Class.object.traits.members := by
      obtain ⟨a, inside, own⟩ := List.exists_of_findSome?_eq_some provided
      have held := List.mem_of_find?_eq_some own
      rcases List.mem_pair.1 (inside : a ∈ [Class.table, .object]) with rfl | rfl
      · exact List.mem_append_left _ held
      · exact List.mem_append_right _ held
    cases (computed member mem).symm.trans refused
    exact ⟨_, rfl⟩

namespace Registry

open Table (IsLoose IsNumbered IsSound IsTyped)

/-- How a tag of tables is read where tables are put together from names and values. -/
structure BuildsTable (s : Scene) (data : Value) : Prop where
  contained : GoesBy s.registry .deserialize (Tagged s.registry s.graph "Table" data) s
    (deserialize "Table" data)
  returned : ∀ v s', (deserialize "Table" data).run s = (.ok v, s') →
    IsLoose s'.graph v ∨ IsNumbered s'.graph v
  typed : ∀ v s' list fuel items middle names values,
    (deserialize "Table" data).run s = (.ok v, s') →
    s.graph.isBytes data = false → s.graph.items? data = some list → s.stack = fuel + 1 →
    (mapItems (decodeItem (deserializeAt fuel 1)) data 0 list.length).run s = (.ok items, middle) →
    IsTyped middle.graph items names values → IsSound s'.graph v

/-- How a tag of tables is read where tables are decoded whole. -/
structure DecodesTable (s : Scene) (data : Value) : Prop where
  refused : ∀ fault s', (deserialize "Table" data).run s = (.error fault, s') →
    (∃ error, fault = .registry error) ∨ s.stack = 0 ∧ fault = .outOfRange
  returned : ∀ v s', (deserialize "Table" data).run s = (.ok v, s') →
    ∃ message w k, s.graph.bytes? data = some message ∧
      (MessagePack.decode .whole message).run s.graph = (.ok w, k) ∧ Returned k w v s'.graph

theorem buildsTable {options : Options} {calls : List Call} {s : Scene} {data : Value} {e : Entry}
    (reached : s.registry = (new options).run calls)
    (held : s.registry.entryForTag? "Table" = some e)
    (builds : e.codec.deserialize.run = Table.ofStructure)
    (shaped : (s.graph.isBytes data || (s.graph.items? data).isSome) = true) :
    BuildsTable s data := by
  refine ⟨(fails_for_one_reason reached).2 "Table" data shaped, fun v s' ran => ?_, ?_⟩
  · obtain ⟨given, g, rebuilt, -⟩ := deserialize_eq_ok held ran
    rw [builds] at rebuilt
    exact Table.ofStructure_ok rebuilt
  · intro v s' list fuel items middle names values ran other found stack inside typed
    obtain ⟨given, g, rebuilt, tuple⟩ := deserialize_eq_ok held ran
    rw [builds] at rebuilt
    obtain ⟨rfl, rfl⟩ := tuple list fuel items middle other found stack inside
    have ext := Graph.extends_add middle.graph
      { kind := s.graph.kindOf? data, body := .list items }
    have made := Graph.items?_of_get? (Graph.get?_add_size middle.graph
      { kind := s.graph.kindOf? data, body := .list items }) rfl
    exact Table.ofStructure_sound made rfl rfl (typed.named.of_extends ext)
      (typed.held.of_extends ext) typed.few.1 typed.few.2 typed.texts
      (fun w mem => Table.holdsValues_of_extends ext (typed.holds w mem)) rebuilt

theorem decodesTable {s : Scene} {data : Value}
    (handed : s.registry.HandsOver .messagePack .table "Table")
    (reserved : s.graph.get? Graph.reservedRef = some Graph.reservedObject)
    (bytes : s.graph.isBytes data = true) : DecodesTable s data := by
  obtain ⟨e, held, own, codec⟩ := handed
  have held' : s.registry.entryForTag? "Table" = some e := held
  refine ⟨fun fault s' ran => deserialize_packed_error bytes held' ?_ ran, fun v s' ran => ?_⟩
  · rw [codec]
    exact fun fault k ran => Pickle.deserialize_table_error own reserved ran
  · obtain ⟨message, w, k, found, decoded, restored⟩ :=
      deserialize_pickled_ok bytes held' own codec ran
    exact ⟨message, w, k, found, decoded,
      restored.returned (MessagePack.decode_wellRead reserved decoded).sound⟩

/-- How tables are read. Where they are put together from names and values, a table comes of it
whose columns have distinct names and, where they hold lists or number arrays, one length; it is as
it should be if the names are texts and the values lists and number arrays. Where they are decoded
whole, a message of a table gives a table as it should be, and a message of any other object an
object of the class with the entries of that one. All else is a failure of the registry. -/
theorem read_tables {options : Options} {calls : List Call} {s : Scene} {data : Value} :
    (∀ {base : Registry} {notices : List Notice}, (standard options).run [] = (.ok base, notices) →
      s.registry = base.run calls →
      s.registry.byTag.find? "Table" = base.byTag.find? "Table" →
      (s.graph.isBytes data || (s.graph.items? data).isSome) = true → BuildsTable s data) ∧
    ∀ {overrides : Options} {light : Registry} {notices after : List Notice},
      (((new options).run calls).lightweight overrides).run notices = (.ok light, after) →
      light.fallback = .messagePack →
      s.registry.byTag.find? "Table" = light.byTag.find? "Table" →
      s.graph.get? Graph.reservedRef = some Graph.reservedObject →
      s.graph.isBytes data = true → DecodesTable s data := by
  refine ⟨?_, ?_⟩
  · intro base notices made reached kept shaped
    obtain ⟨after, same⟩ := standard_run options []
    obtain rfl : builtInOnly options = base := by
      rw [same] at made
      cases made
      rfl
    have held : s.registry.byTag.find? "Table" =
        some (builtIn (.table, "Table", Defaults.tableCodec)) := kept
    rw [builtInOnly, ← (addable_handlers _).run_registers rfl, Registry.run, Registry.run,
      ← List.foldl_append] at reached
    exact buildsTable reached held rfl shaped
  · intro overrides light notices after made messages kept reserved bytes
    have sound := (sound_new options).run calls
    have faithful := (usesOwnCodec_new options).run (sound_new options) calls
    obtain ⟨e, held, own, codec⟩ := handsOver_lightweight sound faithful made
    rw [messages] at codec
    exact decodesTable ⟨e, kept.trans held, own, codec⟩ reserved bytes

namespace Sample

open Marshal.Table (columnObject tableObject)

def oddParts : Graph :=
  ⟨#[.bare .array (.list [some (.object 1), some (.object 2)]),
    Graph.nodeRecord "list" (.object 3), Graph.nodeRecord "list" (.object 4),
    .bare .array (.list [some (.nat 1)]),
    .bare .array (.list [some (.string "abc")])]⟩

def oddTable : Graph :=
  ⟨oddParts.objects ++ #[.bare .array (.list [some (.nat 1)]),
    .bare .array (.list [some (.string "abc")]),
    .bare .array (.list [some (.object 5), some (.object 6)]),
    columnObject (.nat 1) (.string "abc"),
    .bare .array (.list [some (.object 8)]),
    tableObject (.object 9)]⟩

theorem not_isSound_oddTable : ¬ IsSound oddTable (.object 10) := by
  rintro ⟨list, columns, pairs, rows, ⟨table, items, objects, -⟩, sound⟩
  cases table
  have one : [some (.object 8)] = columns.map some :=
    Body.list.inj (congrArg Object.body (Option.some.inj items))
  obtain rfl : [.object 8] = columns :=
    List.map_injective_iff.2 (Option.some_injective Value) one
  cases objects with
  | @cons _ pair _ _ column =>
    obtain ⟨name, values⟩ := pair
    cases column
    exact absurd (sound _ List.mem_cons_self).1 (by decide)

/-- Nothing is asked of names and values: a number names a column, and a text is its values. -/
theorem odd_table_built :
    ∃ base notices s', (standard {}).run [] = (.ok base, notices) ∧
      (deserialize "Table" (.object 0)).run (begun base oddParts) = (.ok (.object 10), s') ∧
      ¬ IsSound s'.graph (.object 10) :=
  ⟨builtInOnly {}, _, begun (builtInOnly {}) oddTable, rfl, rfl, not_isSound_oddTable⟩

def mail : Graph :=
  ⟨#[Graph.reservedObject,
    .bare .bytes (.numbers .uint8 ⟨#[0xd4, 0x30, 0x00, 0x91, 0x92, 0xa1, 0x61, 0x91, 0x05]⟩)]⟩

/-- One table is put together from parts, another one is decoded. -/
theorem parts_and_mail_read :
    ∃ base notices light after, (standard {}).run [] = (.ok base, notices) ∧
      (base.lightweight {}).run [] = (.ok light, after) ∧
      BuildsTable (begun base oddParts) (.object 0) ∧
      DecodesTable (begun light mail) (.object 1) := by
  obtain ⟨notices, made⟩ := standard_run {} []
  obtain ⟨-, light, after, copied, -, pickles⟩ := standard_lightweight_run made none
  refine ⟨_, notices, light, after, made, copied, ?_, ?_⟩
  · have reached : builtInOnly {} = (builtInOnly {}).run [] := rfl
    exact read_tables.1 made reached rfl rfl
  · have messages : light.fallback = .messagePack := pickles.settings.fallback
    rw [builtInOnly, ← (addable_handlers _).run_registers rfl] at copied
    exact read_tables.2 copied messages rfl rfl rfl

end Sample

end Registry

end Marshal
