import Marshal.Proofs.Number
import Marshal.Proofs.Registry.Reading

namespace Marshal.Registry

open Marshal.Effect
open Marshal.Step

/-- One run of a codec on the way of a call. -/
structure CodecRun where
  entry : Entry
  direction : Direction
  input : Value
  before : Graph
  result : Except Fault Value
  after : Graph

namespace CodecRun

def routine (run : CodecRun) : Routine :=
  match run.direction with
  | .serialize => run.entry.codec.serialize
  | .deserialize => run.entry.codec.deserialize

def typeName (run : CodecRun) : String :=
  match run.direction with
  | .serialize => run.before.typeName run.input
  | .deserialize => run.entry.typeName

/-- What went wrong: what the codec threw, or that what it made of a value is neither bytes nor a
list. -/
def fault? (run : CodecRun) : Option Fault :=
  match run.result, run.direction with
  | .error fault, _ => some fault
  | .ok _, .deserialize => none
  | .ok made, .serialize =>
    if run.after.isBytes made || (run.after.items? made).isSome then none
    else some notRepresentation

def wrapped (run : CodecRun) (cause : Cause) : RegistryError :=
  .codecFailure run.entry.tag run.typeName run.direction cause

/-- The run is one of the codec of an entry: that of the value on the way out, that of one of the
named tags on the way in. -/
structure Happens (r : Registry) (named : String → Prop) (run : CodecRun) : Prop where
  chosen : match run.direction with
    | .serialize => run.entry = r.entryFor run.before run.input
    | .deserialize => named run.entry.tag ∧ r.entryForTag? run.entry.tag = some run.entry
  ran : (run.routine.run run.input).run run.before = (run.result, run.after)

end CodecRun

/-- Codecs run one after the other, all in one direction. Nothing else happens to the values but
that objects are added. -/
inductive Runs (r : Registry) (d : Direction) (named : String → Prop) (g : Graph) :
    List CodecRun → Graph → Prop where
  | nil : Runs r d named g [] g
  | add {runs : List CodecRun} {k : Graph} (h : Runs r d named g runs k) (o : Object) :
    Runs r d named g runs (k.add o)
  | codec {runs : List CodecRun} {run : CodecRun} (h : Runs r d named g runs run.before)
      (happens : run.Happens r named) (same : run.direction = d) :
    Runs r d named g (runs ++ [run]) run.after

/-- Why a call fails. -/
inductive Reason where
  | tooDeep
  | unknownTag
  /-- A codec threw a failure of a registry. -/
  | passedOn
  /-- A codec threw anything else, or made no representation. -/
  | wrapped
  /-- A codec threw an error with a message that has no text. -/
  | wordless
  /-- Something failed outside every codec: there was no room for another call, or an item could not
  be looked at. -/
  | outside
deriving DecidableEq, Repr

/-- What a call with so much stack throws after these runs of codecs, which left a graph, and what
it reports. All of them went well but for the last one, where a codec is the reason. -/
inductive Raises (r : Registry) (named : String → Prop) (stack : Nat) (k : Graph)
    (runs : List CodecRun) : Reason → Fault → List Notice → Prop where
  | tooDeep {depth : Nat} (beyond : r.maxDepth.exceededBy depth = true)
      (well : ∀ run ∈ runs, run.fault? = none) :
    Raises r named stack k runs .tooDeep (.registry (.depthExceeded r.maxDepth)) []
  | unknownTag {tag : String} (names : named tag) (unbound : r.entryForTag? tag = none)
      (well : ∀ run ∈ runs, run.fault? = none) :
    Raises r named stack k runs .unknownTag (.registry (.unregisteredTag tag)) []
  | passedOn {earlier : List CodecRun} {run : CodecRun} {error : RegistryError}
      (last : runs = earlier ++ [run]) (well : ∀ run ∈ earlier, run.fault? = none)
      (threw : run.fault? = some (.registry error)) :
    Raises r named stack k runs .passedOn (.registry error) []
  | wrapped {earlier : List CodecRun} {run : CodecRun} {cause : Cause}
      (last : runs = earlier ++ [run]) (well : ∀ run ∈ earlier, run.fault? = none)
      (threw : run.fault? = some (.cause cause)) :
    Raises r named stack k runs .wrapped (.registry (run.wrapped cause))
      [.entry ⟨r.name, .codecFailure run.entry.tag run.typeName run.direction
        (run.wrapped cause).message⟩]
  | wordless {earlier : List CodecRun} {run : CodecRun} {kind : ErrorKind} {raised : Fault}
      (last : runs = earlier ++ [run]) (well : ∀ run ∈ earlier, run.fault? = none)
      (threw : run.fault? = some (.wordless kind raised)) :
    Raises r named stack k runs .wordless raised []
  | noRoom (admitted : ∀ depth < stack, r.maxDepth.exceededBy depth = false)
      (well : ∀ run ∈ runs, run.fault? = none) :
    Raises r named stack k runs .outside .outOfRange []
  | unreadable {tag : String} {v : Value} {fault : Fault} (names : named tag)
      (looked : k.look v = .error fault) (well : ∀ run ∈ runs, run.fault? = none) :
    Raises r named stack k runs .outside fault []

variable {r : Registry} {d : Direction} {named : String → Prop} {stack : Nat} {g₀ : Graph}
  {α β : Type}

theorem Runs.trans {g h k : Graph} {runs runs' : List CodecRun} (left : Runs r d named g runs h)
    (right : Runs r d named h runs' k) : Runs r d named g (runs ++ runs') k := by
  induction right with
  | nil => rwa [List.append_nil]
  | add _ o ih => exact ih.add o
  | codec _ happens same ih =>
    rw [← List.append_assoc]
    exact ih.codec happens same

theorem Consistent.tag_of_entryForTag? (h : r.Consistent) {tag : String} {e : Entry}
    (bound : r.entryForTag? tag = some e) : e.tag = tag := by
  unfold entryForTag? at bound
  split at bound
  next reserved =>
    cases bound
    exact (beq_iff_eq.1 reserved).symm
  next => exact (h.ofTag _ _ bound).1

theorem Consistent.uses_of_entryForTag? (h : r.Consistent) {tag : String} {e : Entry}
    (bound : r.entryForTag? tag = some e) : r.Uses e := by
  have same := h.tag_of_entryForTag? bound
  unfold entryForTag? at bound
  split at bound
  · exact .inl (Option.some.inj bound).symm
  · exact .inr (h.mem_byTag_values_iff.2 (same ▸ bound))

theorem Runs.of_mem {g k : Graph} {runs : List CodecRun} (h : Runs r d named g runs k)
    {run : CodecRun} (mem : run ∈ runs) : run.direction = d ∧ run.Happens r named := by
  induction h with
  | nil => cases mem
  | add _ _ ih => exact ih mem
  | codec _ happens same ih =>
    rcases List.mem_append.1 mem with mem | mem
    · exact ih mem
    · obtain rfl := List.mem_singleton.1 mem
      exact ⟨same, happens⟩

theorem Runs.onward (consistent : r.Consistent) {g k : Graph} {runs : List CodecRun}
    (h : Runs r d named g runs k) : Onward r g k := by
  induction h with
  | nil => exact .refl
  | add _ o ih => exact ih.add o
  | @codec runs run _ happens same ih =>
    obtain ⟨chosen, ran⟩ := happens
    rw [CodecRun.routine] at ran
    cases way : run.direction with
    | serialize =>
      rw [way] at chosen ran
      exact ih.serialized (chosen ▸ consistent.uses_entryFor _ _) ran
    | deserialize =>
      rw [way] at chosen ran
      exact ih.deserialized (consistent.uses_of_entryForTag? chosen.2) ran

theorem Raises.after {runs earlier : List CodecRun} {k : Graph} {reason : Reason} {fault : Fault}
    {notices : List Notice} (h : Raises r named stack k runs reason fault notices)
    (well : ∀ run ∈ earlier, run.fault? = none) :
    Raises r named stack k (earlier ++ runs) reason fault notices := by
  have both {more : List CodecRun} (h : ∀ run ∈ more, run.fault? = none) :
      ∀ run ∈ earlier ++ more, run.fault? = none :=
    fun run mem => (List.mem_append.1 mem).elim (well run) (h run)
  cases h with
  | tooDeep beyond well' => exact .tooDeep beyond (both well')
  | unknownTag names unbound well' => exact .unknownTag names unbound (both well')
  | passedOn last well' threw =>
    exact .passedOn (by rw [last, List.append_assoc]) (both well') threw
  | wrapped last well' threw =>
    exact .wrapped (by rw [last, List.append_assoc]) (both well') threw
  | wordless last well' threw =>
    exact .wordless (by rw [last, List.append_assoc]) (both well') threw
  | noRoom admitted well' => exact .noRoom admitted (both well')
  | unreadable names looked well' => exact .unreadable names looked (both well')

def lastFault? (runs : List CodecRun) : Option Fault := runs.getLast?.bind CodecRun.fault?

theorem lastFault?_of_well {runs : List CodecRun} (well : ∀ run ∈ runs, run.fault? = none) :
    lastFault? runs = none := by
  rw [lastFault?, Option.bind_eq_none_iff]
  exact fun run last => well run (List.mem_of_getLast? last)

theorem lastFault?_of_append {runs earlier : List CodecRun} {run : CodecRun}
    (last : runs = earlier ++ [run]) : lastFault? runs = run.fault? := by
  rw [lastFault?, last, List.getLast?_append_of_ne_nil]
  · rfl
  · exact List.cons_ne_nil _ _

/-- The reason is known from what the last codec threw and what the call throws. -/
def reasonOf (thrown : Option Fault) (fault : Fault) : Reason :=
  match thrown, fault with
  | some (.registry _), _ => .passedOn
  | some (.cause _), _ => .wrapped
  | some (.wordless ..), _ => .wordless
  | none, .registry (.unregisteredTag _) => .unknownTag
  | none, .registry _ => .tooDeep
  | none, _ => .outside

theorem Raises.reason_eq {runs : List CodecRun} {k : Graph} {reason : Reason} {fault : Fault}
    {notices : List Notice} (h : Raises r named stack k runs reason fault notices) :
    reason = reasonOf (lastFault? runs) fault := by
  cases h with
  | tooDeep _ well | unknownTag _ _ well | noRoom _ well => rw [lastFault?_of_well well]; rfl
  | passedOn last _ threw | wrapped last _ threw | wordless last _ threw =>
    rw [lastFault?_of_append last, threw]
    rfl
  | unreadable _ looked well =>
    obtain ⟨cause, rfl⟩ := Graph.exists_cause_of_look looked
    rw [lastFault?_of_well well]
    rfl

/-- How a call ends after these runs of codecs: it returns if all of them went well, and otherwise
it throws for a reason. -/
def Ends (r : Registry) (named : String → Prop) (stack : Nat) (runs : List CodecRun) (s : Scene) :
    Except Fault α × Scene → Prop
  | (.ok _, s') => (∀ run ∈ runs, run.fault? = none) ∧ s'.notices = s.notices
  | (.error fault, s') => ∃ reason notices,
    Raises r named stack s'.graph runs reason fault notices ∧ s'.notices = s.notices ++ notices

/-- From this scene the step only runs codecs, adds objects, and fails for a reason. -/
def ContainedAt (r : Registry) (d : Direction) (named : String → Prop) (stack : Nat) (s : Scene)
    (x : Step α) : Prop :=
  (x.run s).2.registry.Alike r ∧
    ∃ runs, Runs r d named s.graph runs (x.run s).2.graph ∧ Ends r named stack runs s (x.run s)

/-- It does so from all scenes with what can become of a graph. -/
def Contained (r : Registry) (d : Direction) (named : String → Prop) (stack : Nat) (g : Graph)
    (x : Step α) : Prop :=
  ∀ s, s.registry.Alike r → Onward r g s.graph → ContainedAt r d named stack s x

namespace Contained

theorem pure (a : α) : Contained r d named stack g₀ (pure a : Step α) :=
  fun _ alike _ => ⟨alike, [], .nil, fun _ mem => absurd mem List.not_mem_nil, rfl⟩

theorem bindAt (consistent : r.Consistent) {x : Step α} {f : α → Step β} {s : Scene}
    (onward : Onward r g₀ s.graph) (hx : ContainedAt r d named stack s x)
    (hf : ∀ a, Contained r d named stack g₀ (f a)) :
    ContainedAt r d named stack s (x >>= f) := by
  obtain ⟨kept, runs, chain, ends⟩ := hx
  rw [ContainedAt, run_bind]
  cases h : x.run s with
  | mk result middle =>
    rw [h] at kept chain ends
    cases result with
    | error fault => exact ⟨kept, runs, chain, ends⟩
    | ok a =>
      obtain ⟨kept', runs', chain', ends'⟩ :=
        hf a middle kept (onward.trans (chain.onward consistent))
      refine ⟨kept', runs ++ runs', chain.trans chain', ?_⟩
      obtain ⟨well, silent⟩ := ends
      dsimp only
      cases h' : (f a).run middle with
      | mk result' last =>
        rw [h'] at ends'
        cases result' with
        | ok b =>
          obtain ⟨well', silent'⟩ := ends'
          refine ⟨fun run mem => ?_, silent'.trans silent⟩
          exact (List.mem_append.1 mem).elim (well run) (well' run)
        | error fault =>
          obtain ⟨reason, notices, raises, said⟩ := ends'
          exact ⟨reason, notices, raises.after well, by rw [said, silent]⟩

theorem bind (consistent : r.Consistent) {x : Step α} {f : α → Step β}
    (hx : Contained r d named stack g₀ x) (hf : ∀ a, Contained r d named stack g₀ (f a)) :
    Contained r d named stack g₀ (x >>= f) :=
  fun s alike onward => bindAt consistent onward (hx s alike onward) hf

theorem get_bind {f : Scene → Step α}
    (hf : ∀ s, s.registry.Alike r → Onward r g₀ s.graph → ContainedAt r d named stack s (f s)) :
    Contained r d named stack g₀ (get >>= f) :=
  fun s alike onward => hf s alike onward

theorem mapItems (consistent : r.Consistent) {f : Option Value → Step α} {list : Value}
    (hf : ∀ s i, s.registry.Alike r → Onward r g₀ s.graph →
      ContainedAt r d named stack s (f (s.graph.item? list i))) (start count : Nat) :
    Contained r d named stack g₀ (mapItems f list start count) := by
  induction count generalizing start with
  | zero => exact pure []
  | succ count ih =>
    refine get_bind fun s alike onward => ?_
    exact bindAt consistent onward (hf s start alike onward) fun a =>
      bind consistent (ih (start + 1)) fun rest => pure (a :: rest)

theorem throwAt {reason : Reason} {fault : Fault} {s : Scene} (alike : s.registry.Alike r)
    (raises : Raises r named stack s.graph [] reason fault []) :
    ContainedAt r d named stack s (throw fault : Step α) :=
  ⟨alike, [], .nil, reason, [], raises, (List.append_nil _).symm⟩

theorem checkDepth_bind {depth : Nat} {f : Unit → Step α}
    (hf : r.maxDepth.exceededBy depth = false → Contained r d named stack g₀ (f ())) :
    Contained r d named stack g₀ (checkDepth depth >>= f) := by
  intro s alike onward
  have limit : s.registry.maxDepth = r.maxDepth := (congrArg Registry.maxDepth alike.forget_eq :)
  rw [ContainedAt, run_bind, checkDepth_run, limit]
  cases beyond : r.maxDepth.exceededBy depth with
  | true => exact throwAt alike (.tooDeep beyond fun _ mem => absurd mem List.not_mem_nil)
  | false => exact hf beyond s alike onward

theorem newObject (o : Object) : Contained r d named stack g₀ (newObject o) :=
  fun _ alike _ => ⟨alike, [], .add .nil o, fun _ mem => absurd mem List.not_mem_nil, rfl⟩

end Contained

theorem failure_run (e : Entry) (typeName : String) (d : Direction) (fault : Fault) (s : Scene) :
    (failure e typeName d fault).run s =
      match fault with
      | .registry error => (.ok (.registry error), s)
      | .wordless _ raised => (.ok raised, s)
      | .cause cause =>
        (.ok (.registry (.codecFailure e.tag typeName d cause)),
          { s with notices := s.notices ++ [.entry ⟨s.registry.name, .codecFailure e.tag typeName d
            (RegistryError.codecFailure e.tag typeName d cause).message⟩] }) := by
  cases fault <;> rfl

theorem rebuild_run_of_cause {e : Entry} {data : Value} {s : Scene} {cause : Cause} {last : Graph}
    (failed : (e.codec.deserialize.run data).run s.graph = (.error (.cause cause), last)) :
    ((rebuild e data).run s).1 =
      .error (.registry (.codecFailure e.tag e.typeName .deserialize cause)) := by
  rw [rebuild, run_bind, act_run, failed]
  dsimp only
  rw [run_bind, failure_run]
  rfl

/-- A run of a codec that went wrong ends the call, wrapped and reported once unless it is a failure
of a registry or an error without a text. -/
theorem ends_of_failed {run : CodecRun} (happens : run.Happens r named) {s : Scene}
    (alike : s.registry.Alike r) (start : run.before = s.graph) {fault : Fault}
    (threw : run.fault? = some fault) {result : Except Fault α × Scene}
    (failed : (failure run.entry run.typeName run.direction fault >>= fun fault =>
      throw fault : Step α).run { s with graph := run.after } = result) :
    result.2.registry.Alike r ∧ ∃ runs, Runs r run.direction named s.graph runs result.2.graph ∧
      Ends r named stack runs s result := by
  have chain : Runs r run.direction named s.graph [run] run.after := by
    rw [← start]
    exact Runs.nil.codec happens rfl
  have none : ∀ run ∈ ([] : List CodecRun), run.fault? = none :=
    fun _ mem => absurd mem List.not_mem_nil
  have name : s.registry.name = r.name := (congrArg Registry.name alike.forget_eq :)
  rw [run_bind, failure_run] at failed
  subst failed
  cases fault with
  | registry error =>
    exact ⟨alike, _, chain, .passedOn, [], .passedOn (List.nil_append _).symm none threw,
      (List.append_nil _).symm⟩
  | wordless kind raised =>
    exact ⟨alike, _, chain, .wordless, [], .wordless (List.nil_append _).symm none threw,
      (List.append_nil _).symm⟩
  | cause cause =>
    refine ⟨alike, _, chain, .wrapped, _, .wrapped (List.nil_append _).symm none threw, ?_⟩
    rw [← name]
    rfl

theorem ends_of_well {run : CodecRun} (happens : run.Happens r named) {s : Scene}
    (alike : s.registry.Alike r) (start : run.before = s.graph) (well : run.fault? = none) (a : α) :
    s.registry.Alike r ∧ ∃ runs, Runs r run.direction named s.graph runs run.after ∧
      Ends r named stack runs s (.ok a, { s with graph := run.after }) := by
  refine ⟨alike, [run], ?_, fun _ mem => List.mem_singleton.1 mem ▸ well, rfl⟩
  rw [← start]
  exact Runs.nil.codec happens rfl

theorem dispatch_run {v : Value} {s : Scene} (alike : s.registry.Alike r) :
    ∃ registry, registry.Alike r ∧
      (dispatch v).run s = (.ok (r.entryFor s.graph v), { s with registry }) := by
  have same := alike.left.resolve_eq s.graph v
  rw [alike.entryFor_eq] at same
  refine ⟨(s.registry.resolve s.graph v).2, (Related.dispatch v).keeps alike rfl, ?_⟩
  rw [← same]
  rfl

namespace Contained

theorem represent {e : Entry} {v : Value} {s : Scene} (alike : s.registry.Alike r)
    (chosen : e = r.entryFor s.graph v) :
    ContainedAt r .serialize named stack s (represent e v) := by
  let run : CodecRun := ⟨e, .serialize, v, s.graph, ((e.codec.serialize.run v).run s.graph).1,
    ((e.codec.serialize.run v).run s.graph).2⟩
  have happens : run.Happens r named := ⟨chosen, rfl⟩
  rw [ContainedAt, Registry.represent, run_bind, run_get]
  dsimp only
  rw [run_bind, act_run]
  dsimp only
  cases outcome : ((e.codec.serialize.run v).run s.graph).1 with
  | error fault =>
    have threw : run.fault? = some fault := by simp only [CodecRun.fault?, run, outcome]
    exact ends_of_failed happens alike rfl threw rfl
  | ok made =>
    rw [run_bind, run_get]
    dsimp only
    split
    next accepted =>
      have well : run.fault? = none := by simp only [CodecRun.fault?, run, outcome, if_pos accepted]
      exact ends_of_well happens alike rfl well made
    next refused =>
      have threw : run.fault? = some notRepresentation := by
        simp only [CodecRun.fault?, run, outcome, if_neg refused]
      exact ends_of_failed happens alike rfl threw rfl

theorem rebuild {e : Entry} {data : Value} (names : named e.tag)
    (bound : r.entryForTag? e.tag = some e) :
    Contained r .deserialize named stack g₀ (rebuild e data) := by
  intro s alike _
  let run : CodecRun := ⟨e, .deserialize, data, s.graph,
    ((e.codec.deserialize.run data).run s.graph).1,
    ((e.codec.deserialize.run data).run s.graph).2⟩
  have happens : run.Happens r named := ⟨⟨names, bound⟩, rfl⟩
  rw [ContainedAt, Registry.rebuild, run_bind, act_run]
  dsimp only
  cases outcome : ((e.codec.deserialize.run data).run s.graph).1 with
  | error fault =>
    have threw : run.fault? = some fault := by simp only [CodecRun.fault?, run, outcome]
    exact ends_of_failed happens alike rfl threw rfl
  | ok x =>
    have well : run.fault? = none := by simp only [CodecRun.fault?, run, outcome]
    exact ends_of_well happens alike rfl well x

theorem dispatch_bind {v : Value} {f : Entry → Step α}
    (hf : ∀ s, s.registry.Alike r → Onward r g₀ s.graph →
      ContainedAt r d named stack s (f (r.entryFor s.graph v))) :
    Contained r d named stack g₀ (dispatch v >>= f) := by
  intro s alike onward
  obtain ⟨registry, alike, dispatched⟩ := dispatch_run (v := v) alike
  rw [ContainedAt, run_bind, dispatched]
  exact hf { s with registry } alike onward

theorem encodeItem {write : Value → Step Tree} (hw : ∀ v, Contained r d named stack g₀ (write v))
    (item : Option Value) : Contained r d named stack g₀ (encodeItem write item) := by
  cases item with
  | none => exact pure _
  | some v =>
    refine get_bind fun s alike onward => ?_
    split
    · exact pure _ s alike onward
    · exact hw v s alike onward

end Contained

/-- The nodes that reading a tag with its data can come to: the tag with its data, and whatever is a
node among the items of such data in a graph on the way. -/
inductive Meets (r : Registry) (g : Graph) (tag : String) (data : Value) :
    String → Value → Prop where
  | root : Meets r g tag data tag data
  | item {name name' : String} {list v data' : Value} {i : Nat} {k : Graph}
      (above : Meets r g tag data name list) (reached : Onward r g k)
      (held : k.item? list i = some v) (node : k.look v = .ok (some (name', data'))) :
    Meets r g tag data name' data'

def Tagged (r : Registry) (g : Graph) (tag : String) (data : Value) (name : String) : Prop :=
  ∃ below, Meets r g tag data name below

/-- All depths so far were within the limit, and the rest of the stack is left. -/
structure Open (r : Registry) (stack fuel depth : Nat) : Prop where
  room : depth + fuel = stack
  admitted : ∀ n < depth, r.maxDepth.exceededBy n = false

theorem Open.next {fuel depth : Nat} (h : r.Open stack (fuel + 1) depth)
    (within : r.maxDepth.exceededBy depth = false) : r.Open stack fuel (depth + 1) := by
  refine ⟨by have := h.room; omega, fun n below => ?_⟩
  rcases Nat.lt_succ_iff_lt_or_eq.1 below with below | rfl
  · exact h.admitted n below
  · exact within

theorem Open.start (r : Registry) (stack : Nat) : r.Open stack stack 0 :=
  ⟨Nat.zero_add _, fun n below => absurd below (Nat.not_lt_zero n)⟩

theorem Open.noRoom {depth : Nat} (h : r.Open stack 0 depth) (k : Graph) :
    Raises r named stack k [] .outside .outOfRange [] :=
  .noRoom (fun n below => h.admitted n (Nat.lt_of_lt_of_eq below h.room.symm))
    fun _ mem => absurd mem List.not_mem_nil

namespace Contained

theorem serializeAt (consistent : r.Consistent) {fuel depth : Nat} (here : r.Open stack fuel depth)
    (v : Value) : Contained r .serialize named stack g₀ (serializeAt fuel depth v) := by
  induction fuel generalizing depth v with
  | zero => exact fun s alike _ => throwAt alike (here.noRoom s.graph)
  | succ fuel ih =>
    rw [Registry.serializeAt]
    refine checkDepth_bind fun within => dispatch_bind fun s alike onward => ?_
    refine bindAt consistent onward (represent alike rfl) fun representation =>
      get_bind fun s' alike' onward' => ?_
    dsimp only
    split
    · exact pure _ s' alike' onward'
    · refine bind consistent (mapItems consistent (fun s i => ?_) 0 _) (fun slots => pure _)
        s' alike' onward'
      exact encodeItem (fun w => ih (here.next within) w) _ s

theorem enter_bindAt (consistent : r.Consistent) {tag : String} (names : named tag) {depth : Nat}
    {s : Scene} (alike : s.registry.Alike r) {f : Entry → Step α}
    (hf : ∀ e, r.maxDepth.exceededBy depth = false → named e.tag → r.entryForTag? e.tag = some e →
      ContainedAt r d named stack s (f e)) :
    ContainedAt r d named stack s (enter tag depth >>= f) := by
  have limit : s.registry.maxDepth = r.maxDepth := (congrArg Registry.maxDepth alike.forget_eq :)
  have entries : s.registry.entryForTag? tag = r.entryForTag? tag :=
    (congrArg (Registry.entryForTag? · tag) alike.forget_eq :)
  have none : ∀ run ∈ ([] : List CodecRun), run.fault? = none :=
    fun _ mem => absurd mem List.not_mem_nil
  rw [ContainedAt, run_bind, enter_run, limit, entries]
  cases within : r.maxDepth.exceededBy depth with
  | true => exact throwAt alike (.tooDeep within none)
  | false =>
    rw [if_neg Bool.false_ne_true]
    cases bound : r.entryForTag? tag with
    | none => exact throwAt alike (.unknownTag names bound none)
    | some e =>
      obtain rfl := consistent.tag_of_entryForTag? bound
      exact hf e within names bound

theorem input (consistent : r.Consistent) {read : String → Value → Step Value} {tag₀ : String}
    (names : named tag₀) {data : Value} {s : Scene} (alike : s.registry.Alike r)
    (onward : Onward r g₀ s.graph)
    (shaped : (s.graph.isBytes data || (s.graph.items? data).isSome) = true)
    (hr : ∀ s i v tag below, s.registry.Alike r → Onward r g₀ s.graph →
      s.graph.item? data i = some v → s.graph.look v = .ok (some (tag, below)) →
        ContainedAt r d named stack s (read tag below)) :
    ContainedAt r d named stack s (input read data) := by
  cases bytes : s.graph.isBytes data with
  | true =>
    rw [ContainedAt, input_bytes_run read bytes]
    exact pure data s alike onward
  | false =>
    rw [bytes, Bool.false_or, Option.isSome_iff_exists] at shaped
    obtain ⟨items, found⟩ := shaped
    rw [ContainedAt, input_list_run read bytes found]
    refine bind consistent (mapItems consistent (fun s i alike onward => ?_) 0 _)
      (fun decoded => newObject _) s alike onward
    cases item : s.graph.item? data i with
    | none => exact pure none s alike onward
    | some v =>
      cases looked : s.graph.look v with
      | error fault =>
        rw [ContainedAt, decodeItem_unreadable_run read looked]
        exact throwAt alike (.unreadable names looked fun _ mem => absurd mem List.not_mem_nil)
      | ok node =>
        cases node with
        | none =>
          rw [ContainedAt, decodeItem_leaf_run read looked]
          exact pure (some v) s alike onward
        | some node =>
          obtain ⟨tag, below⟩ := node
          rw [ContainedAt, decodeItem_node_run read looked]
          exact bindAt consistent onward (hr s i v tag below alike onward item looked)
            fun w => pure (some w)

theorem deserializeAt (consistent : r.Consistent) {tag₀ : String} {data₀ : Value} {fuel depth : Nat}
    (here : r.Open stack fuel depth) {tag : String} {data : Value}
    (met : Meets r g₀ tag₀ data₀ tag data) {s : Scene} (alike : s.registry.Alike r)
    (onward : Onward r g₀ s.graph)
    (shaped : (s.graph.isBytes data || (s.graph.items? data).isSome) = true) :
    ContainedAt r .deserialize (Tagged r g₀ tag₀ data₀) stack s
      (deserializeAt fuel depth tag data) := by
  induction fuel generalizing depth tag data s with
  | zero => exact throwAt alike (here.noRoom s.graph)
  | succ fuel ih =>
    refine enter_bindAt consistent ⟨data, met⟩ alike fun e within names bound => ?_
    refine bindAt consistent onward (input consistent names alike onward shaped ?_)
      fun made => rebuild names bound
    intro s i v name below alike onward held node
    exact ih (here.next within) (.item met onward held node) alike onward
      (Graph.look_eq_some_iff.1 node).2

end Contained

/-- How a call on values goes. Codecs run one after the other; if all of them go well the call
returns or fails of its own, and otherwise the last one is the reason that it fails. There is never
a second reason, and every failure is one of a registry but for errors without a text and for what
fails outside every codec. -/
def GoesBy (r : Registry) (d : Direction) (named : String → Prop) (s : Scene) (x : Step α) : Prop :=
  ∃ runs, Runs r d named s.graph runs (x.run s).2.graph ∧
    match x.run s with
    | (.ok _, s') => (∀ run ∈ runs, run.fault? = none) ∧ s'.notices = s.notices
    | (.error fault, s') => ∃ reason,
      (∃ notices, Raises r named s.stack s'.graph runs reason fault notices ∧
        s'.notices = s.notices ++ notices) ∧
      (∀ reason' notices, Raises r named s.stack s'.graph runs reason' fault notices →
        reason' = reason) ∧
      (reason = .wordless ∨ reason = .outside ∨ ∃ error, fault = .registry error)

theorem Raises.exists_registry {runs : List CodecRun} {k : Graph} {reason : Reason} {fault : Fault}
    {notices : List Notice} (h : Raises r named stack k runs reason fault notices) :
    reason = .wordless ∨ reason = .outside ∨ ∃ error, fault = .registry error := by
  cases h with
  | wordless => exact .inl rfl
  | noRoom | unreadable => exact .inr (.inl rfl)
  | tooDeep | unknownTag | passedOn | wrapped => exact .inr (.inr ⟨_, rfl⟩)

theorem ContainedAt.goesBy {s : Scene} {x : Step α} (h : ContainedAt r d named s.stack s x) :
    GoesBy r d named s x := by
  obtain ⟨-, runs, chain, ends⟩ := h
  refine ⟨runs, chain, ?_⟩
  cases hx : x.run s with
  | mk result s' =>
    rw [hx] at ends
    cases result with
    | ok a => exact ends
    | error fault =>
      obtain ⟨reason, notices, raises, said⟩ := ends
      exact ⟨reason, ⟨notices, raises, said⟩,
        fun reason' notices' raises' => raises'.reason_eq.trans raises.reason_eq.symm,
        raises.exists_registry⟩

/-- A call fails for exactly one reason: too many levels, a tag that is not bound, or the codec that
ran last; what the codec threw is passed on if it is a failure of a registry, and wrapped and
reported once if it is anything else. Three things come out raw and unreported: what an error
without a text raises when it is asked for its message, what a class raises when an item is looked
at, and the end of the stack, which is met only where the limit admits as many levels. -/
theorem fails_for_one_reason {options : Options} {calls : List Call} {s : Scene}
    (reached : s.registry = (new options).run calls) :
    (∀ v, GoesBy s.registry .serialize (fun _ => False) s (serialize v)) ∧
      ∀ tag data, (s.graph.isBytes data || (s.graph.items? data).isSome) = true →
        GoesBy s.registry .deserialize (Tagged s.registry s.graph tag data) s
          (deserialize tag data) := by
  have sound : s.registry.Sound := reached ▸ (sound_new options).run calls
  have alike := sound.remembers.alike
  exact ⟨fun v => ContainedAt.goesBy
      (Contained.serializeAt sound.consistent (.start _ _) v s alike .refl),
    fun tag data shaped => ContainedAt.goesBy
      (Contained.deserializeAt sound.consistent (.start _ _) .root alike .refl shaped)⟩

namespace Sample

/-- A list of a node whose data are the list itself. -/
def loop : Graph :=
  ⟨#[{ kind := some .array, body := .list [some (.object 1)] },
    { kind := some .object, fields := [("tag", .string fallbackTag), ("data", .object 0)] }]⟩

theorem deserializeAt_loop {s : Scene} (unlimited : s.registry.maxDepth = .infinity)
    (graph : s.graph = loop) (fuel depth : Nat) :
    (deserializeAt fuel depth fallbackTag (.object 0)).run s = (.error .outOfRange, s) := by
  induction fuel generalizing depth with
  | zero => rfl
  | succ fuel ih =>
    have within : s.registry.maxDepth.exceededBy depth = false := by
      rw [unlimited]
      rfl
    have other : s.graph.isBytes (.object 0) = false := by
      rw [graph]
      rfl
    have found : s.graph.items? (.object 0) = some [some (.object 1)] := by
      rw [graph]
      rfl
    have item : s.graph.item? (.object 0) 0 = some (.object 1) := by
      rw [graph]
      rfl
    have node : s.graph.look (.object 1) = .ok (some (fallbackTag, .object 0)) := by
      rw [graph]
      rfl
    rw [deserializeAt, run_bind, enter_run, within, if_neg Bool.false_ne_true]
    change ((input _ _ >>= rebuild s.registry.fallbackEntry).run s) = _
    rw [run_bind, input_list_run _ other found, run_bind, List.length_singleton, mapItems, run_bind,
      run_get]
    dsimp only
    rw [run_bind, item, decodeItem_node_run _ node, run_bind, ih]

/-- Data that hold themselves are followed without end where no limit on depth is set, however much
stack there is, and what ends that is no failure of a registry. -/
theorem endless_data_escape :
    (loop.items? (.object 0)).isSome = true ∧
      (∀ stack, ((deserialize fallbackTag (.object 0)).run
        { registry := (new { maxDepth := some .infinity }).run [], graph := loop, stack }).1 =
          .error .outOfRange) ∧
      ∀ error, Fault.outOfRange ≠ .registry error := by
  refine ⟨rfl, fun stack => ?_, fun error same => by cases same⟩
  rw [deserialize_run, deserializeAt_loop rfl rfl]

def torn : Graph := ⟨#[{ kind := some .array, body := .list [some (.nat 1), some (.nat 2)] }]⟩

/-- A codec that throws is named once, in the failure and in what is reported. -/
theorem fragile_codec_named_once :
    ((deserialize "Pair" (.object 0)).run (begun fragile torn)).1 = .error fragileFailure ∧
      ((deserialize "Pair" (.object 0)).run (begun fragile torn)).2.notices =
        [.entry ⟨"context", .codecFailure "Pair" "Pair" .deserialize
          "Failed to deserialize Pair with codec \"Pair\": fragile"⟩] ∧
      GoesBy fragile .deserialize (Tagged fragile torn "Pair" (.object 0)) (begun fragile torn)
        (deserialize "Pair" (.object 0)) := by
  have reached : fragile =
      (new pairOptions).run [.register ⟨"Pair", some pair⟩ "Pair" fragileCodec] := rfl
  exact ⟨rfl, rfl,
    (fails_for_one_reason (s := begun fragile torn) reached).2 "Pair" (.object 0) rfl⟩

/-- An error with a message that has no text comes out as what asking for the text raises. -/
example :
    let mute : Codec := { pairCodec with
      deserialize := ⟨some "mute", fun _ => throw (.wordless .error .misuse)⟩ }
    ((deserialize "Pair" (.object 0)).run (begun (pairing mute) torn)).1 = .error .misuse ∧
      ((deserialize "Pair" (.object 0)).run (begun (pairing mute) torn)).2.notices = [] :=
  ⟨rfl, rfl⟩

end Sample

end Marshal.Registry
