import Marshal.Journal.LineLog
import Marshal.Proofs.Json

namespace Marshal

open Marshal.Json

namespace Stamped

theorem ofJson?_toJson (s : Stamped) : ofJson? s.toJson = some s := by
  obtain ⟨time, context, event⟩ := s
  cases event with
  | codecFailure tag type direction error => cases direction <;> rfl
  | registered | replaced | conflict | cloned => rfl

theorem exact_toJson (s : Stamped) : s.toJson.Exact := by
  refine .object fun member mem => ?_
  obtain ⟨part, -, rfl⟩ := List.mem_map.1 mem
  exact .string part.2

theorem parse?_line (s : Stamped) : parse? s.line = some s.toJson := s.exact_toJson.parse?_print

/-- Whatever the texts of an entry are, no line end is in its line. -/
theorem newline_notMem_line (s : Stamped) : '\n' ∉ s.line :=
  s.exact_toJson.visible_print.newline_notMem

end Stamped

namespace LineLog

/-- Entries as a text, each on a line of its own. -/
def spell (entries : List Stamped) : List Char := entries.flatMap fun s => s.line ++ ['\n']

theorem spell_cons (s : Stamped) (rest : List Stamped) :
    spell (s :: rest) = s.line ++ '\n' :: spell rest := by
  rw [spell, List.flatMap_cons, List.append_assoc]
  rfl

theorem spell_append (entries more : List Stamped) :
    spell (entries ++ more) = spell entries ++ spell more := List.flatMap_append

theorem splitOn_spell (entries : List Stamped) :
    (spell entries).splitOn '\n' = entries.map Stamped.line ++ [[]] := by
  induction entries with
  | nil => rfl
  | cons s rest ih =>
    have framed : ∀ c ∈ s.line, (c == '\n') = false := fun c mem =>
      beq_eq_false_iff_ne.2 fun same => s.newline_notMem_line (same ▸ mem)
    rw [List.splitOn] at ih ⊢
    rw [spell_cons, List.splitOnP_append_cons_of_forall_mem framed _ (beq_self_eq_true _), ih,
      List.map_cons, List.cons_append]

theorem lines_append_newline {line : List Char} (framed : '\n' ∉ line) (rest : List Char) :
    lines (line ++ '\n' :: rest) = line :: lines rest := by
  induction line with
  | nil => rw [List.nil_append, lines, if_pos rfl]
  | cons c line ih =>
    obtain ⟨other, framed⟩ := List.ne_and_not_mem_of_not_mem_cons framed
    rw [List.cons_append, lines, if_neg (Ne.symm other), ih framed]

theorem lines_spell (entries : List Stamped) :
    lines (spell entries) = entries.map Stamped.line := by
  induction entries with
  | nil => rfl
  | cons s rest ih => rw [spell_cons, lines_append_newline s.newline_notMem_line, ih, List.map_cons]

theorem stamped?_spell (entries : List Stamped) : stamped? (spell entries) = some entries := by
  rw [stamped?, lines_spell]
  induction entries with
  | nil => rfl
  | cons s rest ih =>
    rw [List.map_cons, List.mapM_cons, s.parse?_line, Option.bind_some, s.ofJson?_toJson, ih]
    rfl

/-- A text that holds exactly these entries, one on each line, and ends with the end of a line. -/
structure Frames (text : List Char) (entries : List Stamped) : Prop where
  documents : ∃ lines, text.splitOn '\n' = lines ++ [[]] ∧
    lines.map parse? = entries.map fun s => some s.toJson
  read : stamped? text = some entries

theorem frames_spell (entries : List Stamped) : Frames (spell entries) entries where
  documents := by
    refine ⟨entries.map Stamped.line, splitOn_spell entries, ?_⟩
    rw [List.map_map]
    exact List.map_congr_left fun s _ => s.parse?_line
  read := stamped?_spell entries

theorem foldl_write_of_isOpen (text : List Char) (entries : List Stamped) :
    entries.foldl write ⟨true, text⟩ = ⟨true, text ++ spell entries⟩ := by
  induction entries generalizing text with
  | nil => rw [spell, List.flatMap_nil, List.append_nil]; rfl
  | cons s rest ih =>
    have taken : write ⟨true, text⟩ s = ⟨true, text ++ s.line ++ ['\n']⟩ := rfl
    rw [List.foldl_cons, taken, ih, spell_cons]
    simp only [List.append_assoc, List.singleton_append]

theorem foldl_write_of_not_isOpen (text : List Char) (entries : List Stamped) :
    entries.foldl write ⟨false, text⟩ = ⟨false, text⟩ := by
  induction entries with
  | nil => rfl
  | cons s rest ih => exact ih

end LineLog

end Marshal
