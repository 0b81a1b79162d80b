import Marshal.Proofs.Content
import Marshal.Proofs.Registry.Tables

namespace Marshal

open Marshal.Effect

theorem Json.decode_object {source : ByteArray} {g k : Graph} {v : Value} {o : Object}
    (ran : (Json.decode source).run g = (.ok v, k)) (found : k.objectOf? v = some o) :
    (∃ items, o = Action.madeList items) ∨
      ∃ fields, o = .record fields ∧ Fields.Kept fields.keys := by
  rw [Json.decode] at ran
  split at ran
  next document _ =>
    cases document with
    | array items =>
      rw [Json.toValue] at ran
      obtain ⟨values, _, -, ⟨⟩⟩ := run_bind_eq_ok.1 ran
      exact .inl ⟨values, Option.some.inj (found.symm.trans (Graph.get?_add_size _ _))⟩
    | object members =>
      rw [Json.toValue] at ran
      obtain ⟨pairs, _, -, ⟨⟩⟩ := run_bind_eq_ok.1 ran
      exact .inr ⟨_, Option.some.inj (found.symm.trans (Graph.get?_add_size _ _)),
        Fields.kept_ofList pairs⟩
    | _ =>
      rw [Json.toValue] at ran
      cases ran
      cases found
  next => cases ran

/-- An object that a built-in codec decodes has its names in order, and only a record of a document
can have a field that is named like the ancestry. -/
theorem ByteCodec.names_of_decode {codec : ByteCodec} {message : ByteArray} {g k : Graph}
    {w : Value} {o : Object} (builtIn : codec = .messagePack ∨ codec = .json)
    (reserved : g.get? Graph.reservedRef = some Graph.reservedObject)
    (ran : (codec.decode message).run g = (.ok w, k)) (found : k.objectOf? w = some o) :
    Fields.Kept o.fields.keys ∧
      ("__proto__" ∈ o.fields.keys → codec = .json ∧ o.body = .plain) := by
  rcases builtIn with rfl | rfl
  · have sent := (MessagePack.decode_wellRead reserved ran).sent o found
    exact ⟨sent.kept, fun mem => absurd mem sent.unlike⟩
  · rcases Json.decode_object ran found with ⟨items, rfl⟩ | ⟨fields, rfl, kept⟩
    · exact ⟨⟨.nil, .nil⟩, fun mem => absurd mem List.not_mem_nil⟩
    · exact ⟨kept, fun _ => ⟨rfl, rfl⟩⟩

/-- What becomes of an object that is no instance of the class. Its entries are assigned, one after
the other, to a new instance. That has all fields of a record as long as the class takes what is
assigned to their names. A field that is named like the ancestry is lost where the class descends
from that of records, and may replace the class. -/
structure Revives (c : Class) (g : Graph) (o r : Object) : Prop where
  copies : ({ kind := some c } : Object).assignAll g o.entries = .ok r
  bare : r.body = .plain
  kind : ("__proto__" ∈ o.fields.keys → c.isWithin .object = false) → r.kind = some c
  whole : o.body = .plain → (∀ name ∈ o.fields.keys, c.takes name = true) →
    ("__proto__" ∈ o.fields.keys → c.isWithin .object = false) → r.fields = o.fields
  others : "__proto__" ∈ o.fields.keys → c.isWithin .object = true →
    (∀ name ∈ o.fields.keys, name ≠ "__proto__" → c.takes name = true ∧
      ∀ ref, ("__proto__", .object ref) ∈ o.fields →
        (g.classBelow (.object ref)).takes name = true) →
    r.fields = o.fields.filter (·.1 != "__proto__")

theorem revives_of_copies {c : Class} {g : Graph} {o r : Object} (kept : Fields.Kept o.fields.keys)
    (record : "__proto__" ∈ o.fields.keys → o.body = .plain)
    (copies : ({ kind := some c } : Object).assignAll g o.entries = .ok r) :
    Revives c g o r := by
  have entries (plain : o.body = .plain) : o.entries = o.fields := by
    rw [Object.entries, Object.indexed, plain]
    rfl
  refine ⟨copies, Object.body_of_assignAll copies, fun other => ?_, ?_, ?_⟩
  · refine Object.kind_of_assignAll (fun entry mem same => ?_) copies
    by_contra within
    have present : "__proto__" ∈ o.fields.keys := by
      by_contra absent
      exact Object.ne_proto_of_mem_entries absent mem same
    exact within (other present)
  · intro plain takes other
    rw [entries plain, Object.assignAll_of_takes] at copies
    · cases copies
      exact Fields.ofList_eq_self kept
    · exact fun entry mem same => other (same ▸ List.mem_map_of_mem mem)
    · rintro _ ⟨⟩ entry mem
      exact takes _ (List.mem_map_of_mem mem)
  · intro present within takes
    obtain ⟨kind, stored⟩ := Object.assignAll_stores (g := g) (o := { kind := some c })
      kept.distinct (fun _ => within)
      (fun _ own entry mem other =>
        Option.some.inj own ▸ (takes _ (List.mem_map_of_mem mem) other).1)
      fun ref held entry mem other => (takes _ (List.mem_map_of_mem mem) other).2 ref held
    rw [entries (record present)] at copies
    cases stored.symm.trans copies
    exact Fields.ofList_eq_self (kept.sublist (List.filter_sublist.map _))

namespace Registry

/-- How a pickled type is read, whatever the registry and the bytes. What the byte codec decodes the
bytes to is no object or an instance of the type, and is returned as it is, or it is another object,
and a new object that it revives as is returned. A field that is named like the ancestry comes only
of documents. -/
theorem pickled_type_returns {options : Options} {calls : List Call} {s s' : Scene} {tag : String}
    {e : Entry} {c : Class} {data v : Value} (reached : s.registry = (new options).run calls)
    (codec : s.registry.fallback = .messagePack ∨ s.registry.fallback = .json)
    (reserved : s.graph.get? Graph.reservedRef = some Graph.reservedObject)
    (bound : s.registry.byTag.find? tag = some e) (pickled : e.pickled = true)
    (own : e.prototype? = some c) (bytes : s.graph.isBytes data = true)
    (ran : (deserialize tag data).run s = (.ok v, s')) :
    ∃ message w g, s.graph.bytes? data = some message ∧
      (s.registry.fallback.decode message).run s.graph = (.ok w, g) ∧
      (g.objectOf? w = none → v = w ∧ s'.graph = g) ∧
      (∀ o, g.objectOf? w = some o → o.body = .function ∨ o.kind.any (·.isWithin c) = true →
        v = w ∧ s'.graph = g) ∧
      ∀ o, g.objectOf? w = some o → o.body ≠ .function → o.kind.any (·.isWithin c) = false →
        (∃ r, v = .object g.size ∧ s'.graph = g.add r ∧ Revives c g o r) ∧
          ("__proto__" ∈ o.fields.keys → s.registry.fallback = .json) := by
  have sound : s.registry.Sound := reached ▸ (sound_new options).run calls
  have faithful : s.registry.UsesOwnCodec :=
    reached ▸ (usesOwnCodec_new options).run (sound_new options) calls
  have unreserved : tag ≠ fallbackTag := sound.consistent.ne_fallbackTag bound
  have held : s.registry.entryForTag? tag = some e := by
    rw [entryForTag?, beq_eq_false_iff_ne.2 unreserved, if_neg Bool.false_ne_true, bound]
  have whole : e.codec = Pickle.codec s.registry.fallback e.type := by
    rw [← faithful.whole_eq bound pickled]
    rfl
  obtain ⟨message, w, g, found, decoded, restored⟩ :=
    deserialize_pickled_ok bytes held own whole ran
  refine ⟨message, w, g, found, decoded, ?_, ?_, ?_⟩
  · intro none
    exact restored.unchanged fun o object => by cases none.symm.trans object
  · intro o object stays
    exact restored.unchanged fun o' object' => by cases object.symm.trans object'; exact stays
  · intro o object body other
    obtain ⟨r, given, made, copies⟩ := restored.exists_made object body other
    obtain ⟨kept, ancestry⟩ := ByteCodec.names_of_decode codec reserved decoded object
    exact ⟨⟨r, given, made, revives_of_copies kept (fun mem => (ancestry mem).2) copies⟩,
      fun mem => (ancestry mem).1⟩

namespace Sample

def point : Class := .sub ⟨"Point", [], none⟩ .object

def ofPoints : Registry :=
  (new { fallback := some .json }).run [.registerPickled (.ofClass point) "Point"]

def handed (document : String) : Scene :=
  let bytes : Object := .bare (.numbers .uint8) (.numbers .uint8 document.toUTF8)
  begun ofPoints ⟨#[Graph.reservedObject, bytes]⟩

def decoded (document : String) : Except Fault Value × Graph :=
  (ByteCodec.json.decode document.toUTF8).run (handed document).graph

def read (document : String) : Except Fault Value × Scene :=
  (deserialize "Point" (.object 1)).run (handed document)

def pointDocument : String := "\x7b\"x\":3\x7d"

theorem point_returns :
    ∃ s' r, read pointDocument = (.ok (.object 3), s') ∧ s'.graph.objectOf? (.object 3) = some r ∧
      r.kind = some point ∧ r.fields = [("x", .nat 3)] := by
  have reached : (handed pointDocument).registry =
      (new { fallback := some .json }).run [.registerPickled (.ofClass point) "Point"] := rfl
  have bound : (handed pointDocument).registry.byTag.find? "Point" =
      some ⟨some (.ofClass point), "Point", Pickle.codec .json (some (.ofClass point)), true⟩ := rfl
  have returns : (read pointDocument).1 = .ok (.object 3) := by decide +kernel
  have decodes : (decoded pointDocument).1 = .ok (.object 2) := by decide +kernel
  have record : (decoded pointDocument).2.objectOf? (.object 2) =
      some (.record [("x", .nat 3)]) := by decide +kernel
  obtain ⟨s', ran⟩ : ∃ s', read pointDocument = (.ok (.object 3), s') :=
    ⟨_, Prod.fst_eq_iff.1 returns⟩
  obtain ⟨message, w, g, found, document, -, -, returned⟩ :=
    pickled_type_returns reached (.inr rfl) rfl bound rfl rfl rfl ran
  obtain rfl : pointDocument.toUTF8 = message := Option.some.inj found
  obtain ⟨same, rfl⟩ := Prod.mk.inj ((Prod.fst_eq_iff.1 decodes).symm.trans document)
  obtain rfl : Value.object 2 = w := Except.ok.inj same
  obtain ⟨⟨r, given, graph, revives⟩, -⟩ := returned _ record (by decide) (by decide)
  have unlike : "__proto__" ∉ (Object.record [("x", .nat 3)]).fields.keys := by decide
  refine ⟨s', r, ran, ?_, revives.kind fun mem => absurd mem unlike,
    revives.whole rfl (by decide) fun mem => absurd mem unlike⟩
  rw [given, graph]
  exact Graph.get?_add_size _ _

def strayDocument : String := "\x7b\"__proto__\":null,\"x\":3\x7d"

/-- It is a record, and comes back as an object of no class that lacks the field. -/
theorem ancestry_lost :
    ∃ w g o v s' r, decoded strayDocument = (.ok w, g) ∧ g.objectOf? w = some o ∧
      o.kind = some .object ∧ o.body = .plain ∧ read strayDocument = (.ok v, s') ∧
      s'.graph.objectOf? v = some r ∧ r.kind.any (·.isWithin point) = false ∧
      r.fields ≠ o.fields := by
  have first : (decoded strayDocument).1 = .ok (.object 2) := by decide +kernel
  have record : (decoded strayDocument).2.objectOf? (.object 2) =
      some (.record [("__proto__", .null), ("x", .nat 3)]) := by decide +kernel
  have second : (read strayDocument).1 = .ok (.object 3) := by decide +kernel
  have object : (read strayDocument).2.graph.objectOf? (.object 3) =
      some { kind := none, fields := [("x", .nat 3)] } := by decide +kernel
  exact ⟨_, _, _, _, _, _, Prod.fst_eq_iff.1 first, record, rfl, rfl, Prod.fst_eq_iff.1 second,
    object, rfl, by decide⟩

end Sample

end Registry

end Marshal
