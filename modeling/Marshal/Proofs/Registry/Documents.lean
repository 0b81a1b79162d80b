import Marshal.Proofs.Json.Codec
import Marshal.Proofs.Registry.Unregistered

namespace Marshal.Registry

open Marshal.Effect

variable {g : Graph} {c : Content} {v : Value}

/-- A value made of null, booleans, safe whole numbers and texts, in lists and plain objects that
are nested and shared in any way, is encoded as a document and is left as it was. Wherever the
document is decoded, it gives a value that holds the same, with all names in their order. So in a
registry without entries of its own whose byte codec is the one for documents, the value comes
back. -/
theorem documented_returns (documented : c.Documented) (held : c.HeldBy g v) :
    (∃ message, (ByteCodec.json.encode v).run g = (.ok message, g) ∧
      ∀ h, ∃ w last, (ByteCodec.json.decode message).run h = (.ok w, last) ∧ h.Extends last ∧
        c.HeldBy last w) ∧
      ∀ (options : Options) (calls : List Call) (s : Scene), options.fallback = some .json →
        (new options).maxDepth.exceededBy 0 = false → (∀ call ∈ calls, call.rebinds = false) →
        s.registry = (new options).run calls → s.graph = g → 0 < s.stack →
          (new options).ReturnsWhole s v fun w last => c.HeldBy last w := by
  have encoded := Json.encode_run documented held
  have decoded := Json.exists_decode_run documented held
  refine ⟨⟨_, encoded, decoded⟩, ?_⟩
  rintro options calls s bytes allowed unbound reached rfl room
  have via : options.fallback.getD .messagePack = .json := by rw [bytes, Option.getD_some]
  refine returnsWhole_of_message allowed unbound reached room via encoded (.refl _) decoded

namespace Sample

/-- An object with a whole number under an index, with a list under the name of the ancestry, and
with a text of a quote, a backslash, a control character and a character of two units. -/
def notes : Graph :=
  ⟨#[.bare .array (.list [some .null, some (.bool true), some (.number (Number.ofInt (-300)))]),
    .record [("7", .number (Number.ofInt 9007199254740991)), ("__proto__", .object 0),
      ("toJSON", .string "\"\\\n\x07é😀"), ("again", .object 0)]]⟩

def notesList : Content :=
  .list [.scalar .null, .scalar (.bool true), .scalar (.number (Number.ofInt (-300)))]

def notesContent : Content :=
  .record ["7", "__proto__", "toJSON", "again"]
    [.scalar (.number (Number.ofInt 9007199254740991)), notesList,
      .scalar (.string "\"\\\n\x07é😀"), notesList]

theorem heldBy_notes : notesContent.HeldBy notes (.object 1) := by
  have list : notesList.HeldBy notes (.object 0) :=
    ⟨_, rfl, _, _, rfl, ⟨rfl, rfl⟩, _, _, rfl, ⟨rfl, rfl⟩, _, _, rfl, ⟨rfl, rfl⟩, rfl⟩
  exact ⟨by decide, _, rfl, rfl, _, _, rfl, ⟨rfl, rfl⟩, _, _, rfl, list, _, _, rfl, ⟨rfl, rfl⟩,
    _, _, rfl, list, rfl⟩

theorem documented_notes : notesContent.Documented := by
  have list : notesList.Documented := by
    refine .list ?_
    simp only [List.forall_mem_cons, List.not_mem_nil, false_implies, implies_true, and_true]
    exact ⟨.null, .bool true, .number (n := -300) (by decide +kernel)⟩
  refine .record _ ?_
  simp only [List.forall_mem_cons, List.not_mem_nil, false_implies, implies_true, and_true]
  exact ⟨.number (n := 9007199254740991) (by decide +kernel), list, .string _, list⟩

/-- The object comes back, its list in two places. -/
theorem notes_return :
    ∃ data s' w last,
      (serialize (.object 1)).run (begun (new { fallback := some .json }) notes) =
          (.ok (.packed fallbackTag data), s') ∧
        (deserializeTree (.packed fallbackTag data)).run
            (begun (new { fallback := some .json }) s'.graph) = (.ok w, last) ∧
        notesContent.HeldBy last.graph w := by
  obtain ⟨-, returns⟩ := documented_returns documented_notes heldBy_notes
  obtain ⟨data, s', written, -, -, -, reads⟩ :=
    returns { fallback := some .json } [] (begun (new { fallback := some .json }) notes) rfl
      (by decide) (fun _ mem => absurd mem List.not_mem_nil) rfl rfl (by decide)
  obtain ⟨w, last, read, held⟩ :=
    reads (begun (new { fallback := some .json }) s'.graph) rfl (.refl _) le_rfl
  exact ⟨data, s', w, last, written, read, held⟩

end Sample

end Marshal.Registry
