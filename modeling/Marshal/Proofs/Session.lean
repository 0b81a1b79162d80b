import Marshal.Proofs.Journal.LineLog
import Marshal.Proofs.Registry.Live
import Marshal.Proofs.Setup
import Marshal.Session

namespace Marshal

open Marshal.Registry

namespace JsonlSink

variable (clock : Nat → String)

theorem stamp_append (handed : Nat) (entries more : List LogEntry) :
    stamp clock handed (entries ++ more) =
      stamp clock handed entries ++ stamp clock (handed + entries.length) more := by
  rw [stamp, List.zipIdx_append, List.map_append]
  rfl

theorem stamp_const (time : String) (handed : Nat) (entries : List LogEntry) :
    stamp (fun _ => time) handed entries = entries.map fun e => ⟨time, e⟩ :=
  calc stamp (fun _ => time) handed entries
      = ((entries.zipIdx handed).map Prod.fst).map fun e => ⟨time, e⟩ := List.map_map.symm
    _ = entries.map fun e => ⟨time, e⟩ := by rw [List.zipIdx_map_fst]

theorem harmless_sink : (sink clock).Harmless := fun _ _ => rfl

theorem hear_sink (s : JsonlSink) (entries : List LogEntry) :
    (sink clock).hear s entries =
      ⟨(stamp clock s.handed entries).foldl LineLog.write s.log, s.handed + entries.length⟩ := by
  induction entries generalizing s with
  | nil => rfl
  | cons e rest ih =>
    change (sink clock).hear ⟨s.log.write ⟨clock s.handed, e⟩, s.handed + 1⟩ rest = _
    rw [ih, stamp, stamp, List.zipIdx_cons, List.map_cons, List.foldl_cons, List.length_cons,
      Nat.add_assoc, Nat.add_comm 1]

end JsonlSink

namespace Contexts

theorem record_log (contexts : Contexts) (handed : Nat) (notices : List Notice) :
    (contexts.record notices).log = contexts.log.map fun log =>
      ((JsonlSink.sink fun _ => clockText).hear ⟨log, handed⟩ (logged notices)).log := by
  have heard (log : LineLog) :
      (logged notices).foldl (fun log e => log.write ⟨clockText, e⟩) log =
        ((JsonlSink.sink fun _ => clockText).hear ⟨log, handed⟩ (logged notices)).log := by
    rw [JsonlSink.hear_sink, JsonlSink.stamp_const, List.foldl_map]
  exact congrArg (contexts.log.map ·) (funext heard)

theorem record_perform (contexts : Contexts) (handed : Nat) (r : Registry) (call : Call) :
    (contexts.record (r.perform call).notices).log = contexts.log.map fun log =>
      ((JsonlSink.sink fun _ => clockText).perform r ⟨log, handed⟩ call).2.log := by
  simp only [record_log contexts handed, (JsonlSink.harmless_sink _).perform_eq]

theorem record_build {settings : Settings} {around : Surroundings} {path : String}
    (named : settings.logPath = some path) (own : around.hasSink = false)
    (opens : around.opening = .opens) {contexts : Contexts} {notices : List Notice}
    (ran : (build settings around).run [] = (.ok contexts, notices)) :
    ∃ text, (contexts.record notices).log = some ⟨true, text⟩ ∧
      LineLog.Frames text ((logged notices).map fun e => ⟨clockText, e⟩) := by
  have fresh : newLog settings around = some ⟨true, []⟩ := by rw [newLog, named, own, opens]; rfl
  refine ⟨_, ?_, LineLog.frames_spell _⟩
  rw [record_log contexts 0, log_of_build ran, fresh, Option.map_some, JsonlSink.hear_sink,
    JsonlSink.stamp_const, LineLog.foldl_write_of_isOpen, List.nil_append]

end Contexts

namespace Session

namespace Input

theorem requests_request (r : Request) (rest : List Input) :
    requests (.request r :: rest) = r :: requests rest := rfl

theorem beforeClose_request (r : Request) (rest : List Input) :
    beforeClose (.request r :: rest) = .request r :: beforeClose rest := rfl

end Input

variable (clock : Nat → String)

theorem step_request (s : Session) (request : Request) :
    s.step clock (.request request) = ([request.outcome? s.registries],
      ⟨request.apply s.registries,
        (JsonlSink.sink clock).hear s.sink (request.entries s.registries)⟩) := by
  rw [step, (JsonlSink.harmless_sink clock).request_eq]

theorem run_cons (s : Session) (input : Input) (rest : List Input) :
    s.run clock (input :: rest) =
      ((s.step clock input).1 ++ ((s.step clock input).2.run clock rest).1,
      ((s.step clock input).2.run clock rest).2) := rfl

theorem run_append (s : Session) (before after : List Input) :
    (s.run clock (before ++ after)).2 = ((s.run clock before).2.run clock after).2 := by
  induction before generalizing s with
  | nil => rfl
  | cons input rest ih => exact ih (s.step clock input).2

/-- Neither the log nor what happens to it plays a part in what requests come to. -/
theorem run_outcomes (s : Session) (inputs : List Input) :
    (s.run clock inputs).1 = Request.outcomes s.registries (Input.requests inputs) ∧
      (s.run clock inputs).2.registries =
        (Input.requests inputs).foldl Request.apply s.registries := by
  induction inputs generalizing s with
  | nil => exact ⟨rfl, rfl⟩
  | cons input rest ih =>
    rw [run_cons]
    cases input with
    | request request =>
      rw [step_request]
      obtain ⟨came, left⟩ := ih ⟨request.apply s.registries, _⟩
      exact ⟨congrArg (_ :: ·) came, left⟩
    | close | fail => exact ih _

theorem run_log_of_not_isOpen (registries : List Registry) (text : List Char) (handed : Nat)
    {inputs : List Input} (steady : .fail ∉ inputs) :
    (run clock ⟨registries, ⟨false, text⟩, handed⟩ inputs).2.sink.log = ⟨false, text⟩ := by
  induction inputs generalizing registries handed with
  | nil => rfl
  | cons input rest ih =>
    obtain ⟨other, later⟩ := List.ne_and_not_mem_of_not_mem_cons steady
    rw [run_cons]
    cases input with
    | request request =>
      rw [step_request, JsonlSink.hear_sink, LineLog.foldl_write_of_not_isOpen]
      exact ih _ _ later
    | close => exact ih _ _ later
    | fail => exact absurd rfl other

/-- An open log has every entry written to it until it is closed. -/
theorem run_text (registries : List Registry) (text : List Char) (handed : Nat)
    {inputs : List Input} (steady : .fail ∉ inputs) :
    (run clock ⟨registries, ⟨true, text⟩, handed⟩ inputs).2.sink.log.text =
      text ++ LineLog.spell (JsonlSink.stamp clock handed
        (Request.emitted registries (Input.requests (Input.beforeClose inputs)))) := by
  induction inputs generalizing registries text handed with
  | nil => exact (List.append_nil text).symm
  | cons input rest ih =>
    obtain ⟨other, later⟩ := List.ne_and_not_mem_of_not_mem_cons steady
    rw [run_cons]
    cases input with
    | request request =>
      rw [step_request, JsonlSink.hear_sink, LineLog.foldl_write_of_isOpen]
      dsimp only
      rw [ih _ _ _ later, Input.beforeClose_request, Input.requests_request, Request.emitted_cons,
        JsonlSink.stamp_append, LineLog.spell_append, List.append_assoc]
    | close =>
      -- no entry of a later input counts, and none is written
      change (run clock ⟨registries, ⟨false, text⟩, handed⟩ rest).2.sink.log.text = _
      rw [run_log_of_not_isOpen clock _ _ _ later]
      exact (List.append_nil text).symm
    | fail => exact absurd rfl other

/-- Whatever becomes of the log, requests come to what they come to with no sink, and leave the same
registries. A log whose file does not fail holds, a line each and in order, the entries that were
made before it was closed for the first time, and nothing is written to it from then on. -/
theorem log_framed_until_close (registries : List Registry) (path : String) (opening : Opening)
    (inputs : List Input) :
    let ran := (start registries path opening).run clock inputs
    ran.1 = Request.outcomes registries (Input.requests inputs) ∧
      ran.2.registries = (Input.requests inputs).foldl Request.apply registries ∧
      (opening = .opens → .fail ∉ inputs →
        LineLog.Frames ran.2.sink.log.text (JsonlSink.stamp clock 0
          (Request.emitted registries (Input.requests (Input.beforeClose inputs)))) ∧
        ∀ before after, inputs = before ++ .close :: after →
          ran.2.sink.log =
            ((start registries path opening).run clock before).2.sink.log.close) := by
  obtain ⟨came, left⟩ := run_outcomes clock (start registries path opening) inputs
  refine ⟨came, left, fun opened steady => ⟨?_, ?_⟩⟩
  · subst opened
    have text := run_text clock registries [] 0 steady
    rw [List.nil_append] at text
    exact text ▸ LineLog.frames_spell _
  · rintro before after rfl
    have later : .fail ∉ after := fun mem => steady (List.mem_append_right _ (.tail _ mem))
    rw [run_append, run_cons]
    exact run_log_of_not_isOpen clock _ _ _ later

namespace Sample

def hours : Nat → String
  | 0 => "08:00"
  | _ => "08:01"

def torn : Codec := ⟨⟨none, fun _ => throw (.error "two\n\"lines\"")⟩, ⟨none, pure⟩⟩

/-- A registry is used before its log is closed, and once more after it. -/
def lateBinding : List Input :=
  [.request (.create { name := some "a\nb" }),
    .request (.call 0 (.register ⟨"Sh\"ape", some Registry.Sample.shape⟩ "tag\n1" torn)),
    .request (.call 0 (.serialize 10 Registry.Sample.squares (.object 0))), .close,
    .request (.call 0 (.registerPickled ⟨"Square", some Registry.Sample.square⟩ "late")), .close]

/-- Line ends and quotes in every text leave one entry on each line. The binding that is made last
goes through, and its entry is in no line. -/
theorem late_binding_unlogged :
    let ran := (start [] "log.jsonl" .opens).run hours lateBinding
    LineLog.Frames ran.2.sink.log.text
        [⟨"08:00", "a\nb", .registered "tag\n1" "Sh\"ape"⟩,
          ⟨"08:01", "a\nb", .codecFailure "tag\n1" "Square" .serialize
            "Failed to serialize Square with codec \"tag\n1\": two\n\"lines\""⟩] ∧
      ran.2.sink.log =
        ((start [] "log.jsonl" .opens).run hours (lateBinding.take 3)).2.sink.log.close ∧
      ran.1 = Request.outcomes [] (Input.requests lateBinding) ∧
      ∃ late, ran.1.getLast? = some (some late) ∧ late.answer = .bound (.ok ()) ∧
        late.entries = [⟨"a\nb", .registered "late" "Square"⟩] := by
  obtain ⟨came, -, kept⟩ := log_framed_until_close hours [] "log.jsonl" .opens lateBinding
  have steady : .fail ∉ lateBinding := by simp [lateBinding]
  obtain ⟨framed, shut⟩ := kept rfl steady
  refine ⟨framed, shut (lateBinding.take 3) (lateBinding.drop 4) rfl, came, ?_⟩
  rw [came]
  exact ⟨_, rfl, rfl, rfl⟩

end Sample

end Session

end Marshal
