import Marshal.Proofs.Collect
import Marshal.Proofs.MessagePack.Calm

namespace Marshal

/-- Names as a message gives them to an object: they stand as objects keep them, and none is the one
by which an assignment replaces the class. -/
structure Fields.Sent (names : List String) : Prop where
  kept : Fields.Kept names
  unlike : "__proto__" ∉ names

instance (names : List String) : Decidable (Fields.Sent names) :=
  decidable_of_iff (Fields.Kept names ∧ "__proto__" ∉ names)
    ⟨fun h => ⟨h.1, h.2⟩, fun h => ⟨h.kept, h.unlike⟩⟩

structure Object.Ordinary (o : Object) : Prop where
  other : o.kind.any (·.isWithin .table) = false
  sent : Fields.Sent o.fields.keys

namespace Fields

theorem Sent.set {fields : Fields} (sent : Sent fields.keys) {name : String}
    (other : name ≠ "__proto__") (value : Value) : Sent (fields.set name value).keys := by
  refine ⟨sent.kept.set name value, fun mem => ?_⟩
  rcases mem_keys_set.1 mem with same | old
  · exact other same.symm
  · exact sent.unlike old

theorem sent_ofList {pairs : List (String × Value)} (safe : ∀ pair ∈ pairs, pair.1 ≠ "__proto__") :
    Sent (ofList pairs).keys := by
  refine ⟨kept_ofList pairs, fun mem => ?_⟩
  rcases mem_keys_foldl_set.1 mem with none | mem
  · exact List.not_mem_nil none
  · obtain ⟨pair, mem, same⟩ := List.mem_map.1 mem
    exact safe pair mem same

end Fields

theorem toString_ne_proto (i : Nat) : toString i ≠ "__proto__" := by
  intro same
  have digits := Action.all_isDigit_toString i
  rw [same] at digits
  exact absurd digits (by decide)

namespace Object

theorem ordinary_bare {c : Class} {body : Body} (other : c.isWithin .table = false) :
    (Object.bare c body).Ordinary :=
  ⟨other, (by decide : Fields.Sent [])⟩

theorem ne_proto_of_mem_entries {o : Object} (unlike : "__proto__" ∉ o.fields.keys)
    {entry : String × Value} (mem : entry ∈ o.entries) : entry.1 ≠ "__proto__" := by
  rcases List.mem_append.1 mem with index | field
  · obtain ⟨⟨item, i⟩, -, held⟩ := List.mem_filterMap.1 index
    obtain ⟨w, -, rfl⟩ := Option.map_eq_some_iff.1 held
    exact toString_ne_proto i
  · exact fun same => unlike (same ▸ List.mem_map_of_mem field)

end Object

def Graph.isTable (g : Graph) (v : Value) : Bool := (g.kindOf? v).any (·.isWithin .table)

def Graph.KnownOrdinary (g : Graph) (v : Value) : Prop := ∃ o, g.objectOf? v = some o ∧ o.Ordinary

def Graph.Plain (g : Graph) (v : Value) : Prop := ∀ o, g.objectOf? v = some o → o.Ordinary

/-- An object behind the value has names that can be sent, and a table there is as it should be. -/
structure Graph.WellRead (g : Graph) (v : Value) : Prop where
  sent : ∀ o, g.objectOf? v = some o → Fields.Sent o.fields.keys
  sound : g.isTable v = true → Table.IsSound g v

namespace Graph

variable {g k : Graph} {v : Value}

theorem KnownOrdinary.plain (h : g.KnownOrdinary v) : g.Plain v := by
  obtain ⟨o, found, ordinary⟩ := h
  intro o' found'
  cases found.symm.trans found'
  exact ordinary

theorem KnownOrdinary.of_extends (ext : g.Extends k) (h : g.KnownOrdinary v) :
    k.KnownOrdinary v := by
  obtain ⟨o, found, ordinary⟩ := h
  exact ⟨o, ext.objectOf? found, ordinary⟩

theorem Plain.wellRead (h : g.Plain v) : g.WellRead v := by
  refine ⟨fun o found => (h o found).sent, fun table => ?_⟩
  obtain ⟨c, kind, within⟩ := (Option.any_eq_true _ _).1 table
  obtain ⟨o, found, held⟩ := Option.bind_eq_some_iff.1 kind
  have other := (h o found).other
  rw [held, Option.any_some, within] at other
  cases other

end Graph

namespace Action

def Plain (x : Action Value) : Prop := ∀ ⦃g v k⦄, x.run g = (.ok v, k) → k.Plain v

theorem Plain.bind {α : Type} {x : Action α} {f : α → Action Value} (h : ∀ a, Plain (f a)) :
    Plain (x >>= f) := by
  intro g v k ran
  obtain ⟨a, g', -, ran⟩ := Effect.run_bind_eq_ok.1 ran
  exact h a ran

theorem Plain.add {o : Object} (ordinary : o.Ordinary) : Plain (add o) := by
  intro g v k ran
  cases ran
  exact Graph.KnownOrdinary.plain ⟨o, Graph.get?_add_size g o, ordinary⟩

theorem Plain.bare {c : Class} {body : Body} (other : c.isWithin .table = false) :
    Plain (Action.add (.bare c body)) := .add (Object.ordinary_bare other)

theorem plain_setOf (v : Value) : Plain (setOf v) := by
  rw [setOf]
  split
  · exact .bare rfl
  · exact .bind fun _ => .bare rfl

theorem plain_patternOf (source flags : Value) : Plain (patternOf source flags) := by
  refine .bind fun o => ?_
  dsimp only
  split <;> refine .bind fun s => ?_ <;> split
  all_goals
    refine .bind fun f => ?_
    split
    · exact .bare rfl
    · exact nofun

theorem plain_readColumn (payload : Value) : Plain (Table.readColumn payload) := by
  intro g v k ran
  rcases (Table.readColumn_ok ran).2 with rfl | ⟨name, values, found, -⟩
  · exact nofun
  · exact Graph.KnownOrdinary.plain ⟨_, found, rfl, (by decide : Fields.Sent ["name", "values"])⟩

end Action

namespace MessagePack

/-- What can be pointed at is ordinary, and so is what the reserved byte stands for. -/
structure Cursor.Ordinary (c : Cursor) (g : Graph) : Prop where
  reserved : g.KnownOrdinary (.object Graph.reservedRef)
  anchors : ∀ (i : Nat) (found : Anchored), c.anchors[i]? = some found → g.KnownOrdinary found.value

namespace Reader

def Plain (x : Reader Value) : Prop :=
  ∀ ⦃c g v c' k⦄, (x.run c).run g = (.ok (v, c'), k) → k.Plain v

def Moves {α : Type} (x : Reader α) : Prop :=
  ∀ ⦃c g a c' k⦄, (x.run c).run g = (.ok (a, c'), k) → k = g ∧ c'.anchors = c.anchors

/-- The names of an object that the reader gives can be sent, and a table is as it should be. -/
def ReadsWell (x : Reader Value) : Prop :=
  ∀ ⦃c g v c' k⦄, c.Ordinary g → (x.run c).run g = (.ok (v, c'), k) → k.WellRead v

section Closure

variable {α : Type} {x : Reader α} {y : Reader Value} {f : α → Reader Value}

theorem Plain.bind (h : ∀ a, Plain (f a)) : Plain (x >>= f) := by
  intro c g v c' k ran
  obtain ⟨a, t, g', -, ran⟩ := run_bind_eq_ok.1 ran
  exact h a ran

theorem Plain.pure {v : Value} (scalar : ∀ g : Graph, g.objectOf? v = none) : Plain (pure v) := by
  intro c g w c' k ran o found
  cases ran
  cases (scalar _).symm.trans found

theorem Plain.throw (fault : Fault) : Plain (throw fault) := nofun

theorem Plain.lift {action : Action Value} (h : Action.Plain action) :
    Plain (monadLift action) := by
  intro c g v c' k ran
  obtain ⟨w, _, made, ⟨⟩⟩ := Effect.run_bind_eq_ok.1 ran
  exact h made

theorem Plain.bare {kind : Class} {body : Body} (other : kind.isWithin .table = false) :
    Plain (monadLift (Action.add (.bare kind body))) := .lift (.bare other)

theorem Plain.ite {p : Prop} [Decidable p] {z : Reader Value} (hy : Plain y) (hz : Plain z) :
    Plain (if p then y else z) := by
  split
  · exact hy
  · exact hz

theorem ReadsWell.ite {p : Prop} [Decidable p] {z : Reader Value} (hy : ReadsWell y)
    (hz : ReadsWell z) : ReadsWell (if p then y else z) := by
  split
  · exact hy
  · exact hz

theorem Plain.readsWell (h : Plain y) : ReadsWell y := by
  intro c g v c' k _ ran
  exact (h ran).wellRead

theorem moves_get : Moves (get : Reader Cursor) := by
  intro c g a c' k ran
  cases ran
  exact ⟨rfl, rfl⟩

theorem Moves.bind (hx : Moves x) (hf : ∀ a, ReadsWell (f a)) : ReadsWell (x >>= f) := by
  intro c g v c' k settled ran
  obtain ⟨a, t, g', first, rest⟩ := run_bind_eq_ok.1 ran
  obtain ⟨rfl, anchors⟩ := hx first
  exact hf a ⟨settled.reserved, anchors ▸ settled.anchors⟩ rest

end Closure

variable (src : ByteArray) {read : Reader Value}

theorem moves_byte : Moves (byte? src) := by
  intro c g a c' k ran
  cases ran
  exact ⟨rfl, rfl⟩

theorem moves_take (n : Nat) : Moves (take src n) := by
  intro c g a c' k ran
  cases ran
  exact ⟨rfl, rfl⟩

theorem moves_fixed (width : Nat) : Moves (fixed src width) := by
  intro c g a c' k ran
  obtain ⟨_, _, _, ⟨⟩, ran⟩ := run_bind_eq_ok.1 ran
  split at ran
  · cases ran
  · cases ran
    exact ⟨rfl, rfl⟩

theorem moves_anchorId : Moves (anchorId src) := by
  intro c g a c' k ran
  obtain ⟨_, _, _, ⟨⟩, ran⟩ := run_bind_eq_ok.1 ran
  split at ran
  · cases ran
  · cases ran
    exact ⟨rfl, rfl⟩

theorem ne_proto_of_mapM {names : List String} {c c' : Cursor} {g k : Graph}
    {pairs : List (String × Value)}
    (ran : ((names.mapM fun name => do return (safeName name, ← read)).run c).run g =
      (.ok (pairs, c'), k)) : ∀ pair ∈ pairs, pair.1 ≠ "__proto__" := by
  induction names generalizing c g pairs with
  | nil =>
    cases ran
    exact fun _ mem => absurd mem List.not_mem_nil
  | cons name rest ih =>
    rw [List.mapM_cons] at ran
    obtain ⟨pair, _, _, first, ran⟩ := run_bind_eq_ok.1 ran
    obtain ⟨others, _, _, later, ⟨⟩⟩ := run_bind_eq_ok.1 ran
    obtain ⟨w, _, _, -, ⟨⟩⟩ := run_bind_eq_ok.1 first
    refine List.forall_mem_cons.2 ⟨?_, ih later⟩
    dsimp only [safeName]
    split
    · decide
    next other => exact fun same => other (beq_iff_eq.2 same)

theorem plain_recordOf (names : List String) : Plain (recordOf read names) := by
  intro c g v c' k ran
  obtain ⟨pairs, t, g', read, made⟩ := run_bind_eq_ok.1 ran
  cases made
  exact Graph.KnownOrdinary.plain ⟨_, Graph.get?_add_size _ _, rfl,
    Fields.sent_ofList (ne_proto_of_mapM read)⟩

/-- What a placeholder is filled with does not change its class, and has names that can be sent if
its own have. -/
theorem ordinary_foldl_assignEntry {entries : List (String × Value)} {o : Object}
    (ordinary : o.Ordinary) (safe : ∀ entry ∈ entries, entry.1 ≠ "__proto__") :
    (entries.foldl (fun o (name, w) => assignEntry o name w) o).Ordinary := by
  induction entries generalizing o with
  | nil => exact ordinary
  | cons entry rest ih =>
    obtain ⟨first, others⟩ := List.forall_mem_cons.1 safe
    refine ih ?_ others
    dsimp only
    unfold assignEntry
    split
    · exact ⟨ordinary.other, ordinary.sent⟩
    · exact ⟨ordinary.other, ordinary.sent.set first entry.2⟩

theorem ne_proto_of_mem_poured {g : Graph} {v : Value} (read : g.WellRead v)
    {entry : String × Value} (mem : entry ∈ poured g v) : entry.1 ≠ "__proto__" := by
  rw [poured] at mem
  split at mem
  next o found => exact Object.ne_proto_of_mem_entries (read.sent o found).unlike mem
  next cs _ _ =>
    obtain ⟨⟨w, i⟩, -, rfl⟩ := List.mem_map.1 mem
    exact toString_ne_proto i
  next => exact absurd mem List.not_mem_nil

theorem readsWell_anchor (calm : Calm read) (inner : ReadsWell read) :
    ReadsWell (anchor src read) := by
  refine (moves_anchorId src).bind fun id => ?_
  intro c g v c' k settled ran
  obtain ⟨target, t, g₁, made, rest⟩ := run_bind_eq_ok.1 ran
  obtain ⟨kind, blank, body, made'⟩ := placeholder_run src _ _
  cases made'.symm.trans made
  have others : ∀ kind ∈ [Class.array, .map, .set, .object], kind.isWithin .table = false := by
    decide
  have ordinary : (Object.bare kind body).Ordinary := Object.ordinary_bare (others kind blank)
  have ext := Graph.extends_add g (.bare kind body)
  obtain ⟨_, _, _, ⟨⟩, rest⟩ := run_bind_eq_ok.1 rest
  obtain ⟨_, _, _, ⟨⟩, rest⟩ := run_bind_eq_ok.1 rest
  obtain ⟨w, t', g₂, inside, rest⟩ := run_bind_eq_ok.1 rest
  obtain ⟨_, _, _, ⟨⟩, rest⟩ := run_bind_eq_ok.1 rest
  have kept : g₂.get? g.size = some (.bare kind body) :=
    (calm _).of_run inside _ _ (Graph.get?_add_size g _)
  have read : g₂.WellRead w := by
    refine inner ⟨settled.reserved.of_extends ext, fun i found here => ?_⟩ inside
    dsimp only at here
    rw [Array.getElem?_push] at here
    split at here
    · cases here
      exact ⟨_, Graph.get?_add_size g _, ordinary⟩
    · exact (settled.anchors i found here).of_extends ext
  split at rest
  · -- the placeholder is given, with the names of what was read inside
    obtain ⟨_, _, g₃, filled, ⟨⟩⟩ := run_bind_eq_ok.1 rest
    obtain ⟨body', rfl⟩ := fill_ok kept filled
    have full := ordinary_foldl_assignEntry ordinary fun entry mem =>
      ne_proto_of_mem_poured read mem
    exact Graph.Plain.wellRead fun o found =>
      Option.some.inj ((Graph.get?_put_self kept _).symm.trans found) ▸ ⟨full.other, full.sent⟩
  · cases rest
    exact read

theorem readsWell_pointer : ReadsWell (pointer src) := by
  refine (moves_anchorId src).bind fun id => ?_
  intro c g v c' k settled ran
  obtain ⟨_, _, _, ⟨⟩, ran⟩ := run_bind_eq_ok.1 ran
  split at ran
  · split at ran
    next found here =>
      cases ran
      exact (settled.anchors _ _ here).plain.wellRead
    next => cases ran
  · cases ran

theorem plain_storageOf (data : ByteArray) : Plain (storageOf data) := by
  rw [storageOf]
  split
  · exact .throw _
  · split
    next dtype _ =>
      split
      · exact .bare (by cases dtype <;> rfl)
      · exact .throw _
    · split
      · exact .bare rfl
      · split
        · exact .bare rfl
        · exact .throw _

theorem isWithin_errorOfKind (kind : String) :
    (Class.errorOfKind kind).isWithin .table = false := by
  have within : (Class.errorOfKind kind).isWithin .error = true := by
    rw [Class.isWithin, List.contains_iff_mem]
    exact List.mem_cons_of_mem _ (Class.mem_lineage_self _)
  exact Class.isWithin_eq_false within (by decide) (by decide)

theorem plain_errorOf (data : Value) : Plain (errorOf data) := by
  refine .bind fun name => .bind fun message => .bind fun cause => .bind fun nameText => ?_
  have kind := isWithin_errorOfKind nameText
  refine .ite (.bind fun _ => .bare kind) ?_
  dsimp only
  split <;> refine .bind fun shown => .ite (.bare rfl) (.ite (.bare kind) ?_)
  all_goals exact .lift (.add ⟨rfl, (by decide : Fields.Sent ["name"])⟩)

theorem plain_bigintOf (data : List UInt8) : Plain (bigintOf data) := by
  have value (n : Int) : Plain (pure (.bigint n)) := .pure fun _ => rfl
  exact .ite (.bind fun _ => value _) (value _)

theorem readsWell_extension (calm : Calm read) (inner : ReadsWell read) {type : UInt8}
    {data : ByteArray} {action : Reader Value}
    (known : extension? src read type data = some action) : ReadsWell action := by
  unfold extension? at known
  split_ifs at known <;> cases known
  · exact (Plain.pure fun _ => rfl).readsWell
  · exact (plain_bigintOf _).readsWell
  · exact (Plain.bind plain_errorOf).readsWell
  · exact readsWell_anchor src calm inner
  · exact readsWell_pointer src
  · exact (Plain.bind fun v => .lift (Action.plain_setOf v)).readsWell
  · exact (plain_storageOf _).readsWell
  · exact (Plain.bind fun _ => .bind fun source => .bind fun flags =>
      .lift (Action.plain_patternOf source flags)).readsWell
  · exact (Plain.bare rfl).readsWell

theorem readsWell_sized (calm : Calm read) (inner : ReadsWell read) (length : Nat) :
    ReadsWell (sized src read length) := by
  refine (moves_byte src).bind fun type => ?_
  split
  · exact (Plain.throw _).readsWell
  next type =>
    refine (moves_take src length).bind fun data => ?_
    refine .ite (fun _ _ _ _ _ _ ran => nomatch ran) ?_
    split
    next action known => exact readsWell_extension src calm inner known
    next => exact (Plain.throw _).readsWell

theorem readsWell_single (calm : Calm read) (inner : ReadsWell read) :
    ReadsWell (single src read) := by
  refine (moves_byte src).bind fun type => ?_
  split
  · exact (Plain.throw _).readsWell
  next type =>
    split
    · exact (Plain.bind fun _ => .bind fun _ => .bind fun _ => .bind fun _ =>
        plain_recordOf _).readsWell
    · refine (moves_take src 1).bind fun data => ?_
      split
      · exact (Plain.bind fun v => .lift (Action.plain_readColumn v)).readsWell
      · split
        · intro c g v c' k _ ran
          obtain ⟨payload, t, g', -, read⟩ := run_bind_eq_ok.1 ran
          obtain ⟨table, _, made, ⟨⟩⟩ := Effect.run_bind_eq_ok.1 read
          have sound := (Table.readTable_ok made).2
          refine ⟨fun o found => ?_, fun _ => sound⟩
          obtain ⟨list, _, _, _, tabulates, -⟩ := sound
          cases tabulates.table.symm.trans found
          exact (by decide : Fields.Sent ["columns"])
        · split
          next action known => exact readsWell_extension src calm inner known
          next => exact (Plain.throw _).readsWell

theorem readsWell_value (fuel : Nat) : ReadsWell (value src .whole fuel) := by
  have closed : Closed src .whole ReadsWell :=
    { throw := fun cause => (Plain.throw (.cause cause)).readsWell
      scalar := fun {v} scalar => (Plain.pure fun g => by
        cases v with
        | object ref => exact absurd rfl (scalar ref)
        | _ => rfl).readsWell
      reserved := by
        intro c g v c' k settled ran
        cases ran
        exact settled.reserved.plain.wellRead
      byte := (moves_byte src).bind
      fixed := fun width => (moves_fixed src width).bind
      cursor := moves_get.bind
      text := fun n => (Plain.bind fun _ => .pure fun _ => rfl).readsWell
      bytes := fun n => (Plain.bind fun _ => .bare rfl).readsWell
      record := fun _ _ names => (plain_recordOf names).readsWell
      list := fun _ _ n => (Plain.bind fun _ => .bare rfl).readsWell
      map := fun _ _ n => (Plain.bind fun _ => .bare rfl).readsWell
      sized := fun fuel inner => readsWell_sized src (calm_value src .whole fuel) inner
      single := fun fuel inner => readsWell_single src (calm_value src .whole fuel) inner }
  exact closed.value fuel

end Reader

theorem decode_wellRead {src : ByteArray} {g k : Graph} {v : Value}
    (reserved : g.get? Graph.reservedRef = some Graph.reservedObject)
    (ran : (decode .whole src).run g = (.ok v, k)) : k.WellRead v := by
  obtain ⟨⟨w, c⟩, h, read, rest⟩ := Effect.run_bind_eq_ok.1 ran
  dsimp only at rest
  split at rest
  · cases rest
  · split at rest
    · cases rest
    · cases rest
      have known : g.KnownOrdinary (.object Graph.reservedRef) :=
        ⟨_, reserved, by decide, by decide⟩
      have blank : Cursor.Ordinary {} g := ⟨known, fun i found here => by cases here⟩
      exact Reader.readsWell_value src _ blank read

end MessagePack
end Marshal
