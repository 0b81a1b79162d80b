import Marshal.Proofs.Registry.Refusal
import Marshal.Proofs.Registry.Replay
import Marshal.Proofs.Registry.Steps
import Marshal.Registry.Live

namespace Marshal

open Marshal.Effect
open Marshal.Registry

variable {σ α β : Type}

namespace Sink

/-- A sink that never throws. -/
def Harmless (sink : Sink σ) : Prop := ∀ e t, ((sink.write e).run t).1 = .ok ()

theorem harmless_silent : silent.Harmless := fun _ _ => rfl

theorem hear_append (sink : Sink σ) (t : σ) (entries more : List LogEntry) :
    sink.hear t (entries ++ more) = sink.hear (sink.hear t entries) more :=
  List.foldl_append

theorem Harmless.write_run {sink : Sink σ} (harmless : sink.Harmless) (e : LogEntry) (t : σ) :
    (sink.write e).run t = (.ok (), sink.hear t [e]) :=
  Prod.ext (harmless e t) rfl

end Sink

namespace Live

/-- From this scene, a step beside a sink goes as it goes alone, and the sink hears of what it
reports. -/
def FollowsAt (sink : Sink σ) (s : Scene) (x' : Live σ α) (x : Step α) : Prop :=
  ∀ t, ∃ new, (x.run s).2.notices = s.notices ++ new ∧
    x'.run (s, t) = ((x.run s).1, ((x.run s).2, sink.hear t (logged new)))

def Follows (sink : Sink σ) (x' : Live σ α) (x : Step α) : Prop := ∀ s, FollowsAt sink s x' x

theorem FollowsAt.of_silent {sink : Sink σ} {s : Scene} {x' : Live σ α} {x : Step α}
    (silent : (x.run s).2.notices = s.notices)
    (same : ∀ t, x'.run (s, t) = ((x.run s).1, ((x.run s).2, t))) : FollowsAt sink s x' x :=
  fun t => ⟨[], silent.trans (List.append_nil _).symm, same t⟩

theorem FollowsAt.bind {sink : Sink σ} {s : Scene} {x' : Live σ α} {x : Step α}
    {f' : α → Live σ β} {f : α → Step β} (hx : FollowsAt sink s x' x)
    (hf : ∀ a middle, x.run s = (.ok a, middle) → FollowsAt sink middle (f' a) (f a)) :
    FollowsAt sink s (x' >>= f') (x >>= f) := by
  intro t
  obtain ⟨new, noted, ran⟩ := hx t
  rw [run_bind, run_bind, ran]
  cases outcome : x.run s with
  | mk result middle =>
    rw [outcome] at noted
    cases result with
    | error fault => exact ⟨new, noted, rfl⟩
    | ok a =>
      obtain ⟨more, noted', ran'⟩ := hf a middle outcome (sink.hear t (logged new))
      refine ⟨new ++ more, ?_, ?_⟩
      · rw [← List.append_assoc, ← noted]
        exact noted'
      · dsimp only
        rw [ran', logged, logged, logged, List.filterMap_append, sink.hear_append]

theorem FollowsAt.still {sink : Sink σ} {s : Scene} {x : Step α}
    (silent : (x.run s).2.notices = s.notices) : FollowsAt sink s (still x) x :=
  .of_silent silent fun _ => rfl

namespace Follows

variable {sink : Sink σ}

theorem pure (a : α) : Follows sink (pure a) (pure a) := fun _ => .of_silent rfl fun _ => rfl

theorem throw (fault : Fault) : Follows (α := α) sink (throw fault) (throw fault) :=
  fun _ => .of_silent rfl fun _ => rfl

theorem bind {x' : Live σ α} {x : Step α} {f' : α → Live σ β} {f : α → Step β}
    (hx : Follows sink x' x) (hf : ∀ a, Follows sink (f' a) (f a)) :
    Follows sink (x' >>= f') (x >>= f) :=
  fun s => (hx s).bind fun a middle _ => hf a middle

theorem scene_bind {f' : Scene → Live σ α} {f : Scene → Step α}
    (hf : ∀ s, FollowsAt sink s (f' s) (f s)) : Follows sink (scene >>= f') (get >>= f) :=
  fun s t => hf s t

theorem still {x : Step α} (silent : ∀ s, (x.run s).2.notices = s.notices) :
    Follows sink (still x) x :=
  fun s => .still (silent s)

theorem mapItems {f' : Option Value → Live σ α} {f : Option Value → Step α}
    (hf : ∀ item, Follows sink (f' item) (f item)) (list : Value) (start count : Nat) :
    Follows sink (Live.mapItems f' list start count) (Registry.mapItems f list start count) := by
  induction count generalizing start with
  | zero => exact pure []
  | succ count ih =>
    refine scene_bind fun s => ?_
    exact bind (hf _) (fun a => bind (ih (start + 1)) fun rest => pure (a :: rest)) s

end Follows

theorem act_silent (action : Action α) (s : Scene) :
    ((Step.act action).run s).2.notices = s.notices := rfl

theorem checkDepth_silent (depth : Nat) (s : Scene) :
    ((checkDepth depth).run s).2.notices = s.notices := by
  rw [checkDepth_run]
  split <;> rfl

theorem dispatch_silent (v : Value) (s : Scene) :
    ((dispatch v).run s).2.notices = s.notices := rfl

theorem enter_silent (tag : String) (depth : Nat) (s : Scene) :
    ((enter tag depth).run s).2.notices = s.notices := by
  rw [enter_run]
  split
  · rfl
  · split <;> rfl

namespace Follows

variable {sink : Sink σ}

theorem encodeItem {write' : Value → Live σ Tree} {write : Value → Step Tree}
    (hw : ∀ v, Follows sink (write' v) (write v)) (item : Option Value) :
    Follows sink (Live.encodeItem write' item) (Registry.encodeItem write item) := by
  cases item with
  | none => exact pure _
  | some v =>
    refine scene_bind fun s => ?_
    split
    · exact pure _ s
    · exact hw v s

theorem decodeItem {read' : String → Value → Live σ Value} {read : String → Value → Step Value}
    (hr : ∀ tag data, Follows sink (read' tag data) (read tag data)) (item : Option Value) :
    Follows sink (Live.decodeItem read' item) (Registry.decodeItem read item) := by
  cases item with
  | none => exact pure _
  | some v =>
    refine scene_bind fun s => ?_
    cases s.graph.look v with
    | error fault => exact throw fault s
    | ok node =>
      cases node with
      | none => exact pure (some v) s
      | some node => exact bind (hr node.1 node.2) (fun w => pure (some w)) s

theorem input {read' : String → Value → Live σ Value} {read : String → Value → Step Value}
    (hr : ∀ tag data, Follows sink (read' tag data) (read tag data)) (data : Value) :
    Follows sink (Live.input read' data) (Registry.input read data) := by
  have made (o : Object) : Follows sink (Live.still (newObject o)) (newObject o) :=
    still fun _ => rfl
  refine scene_bind fun s => ?_
  dsimp only
  split
  · exact pure _ s
  · cases (s.graph.objectOf? data).map Object.body with
    | none => exact throw _ s
    | some body =>
      cases body with
      | list => exact bind (mapItems (decodeItem hr) data 0 _) (fun items => made _) s
      | numbers => exact made _ s
      | _ => exact throw _ s

theorem line (level : Level) (text : String) :
    Follows sink (Live.still (Step.note (.line level text))) (Step.note (.line level text)) :=
  fun _ _ => ⟨[.line level text], rfl, rfl⟩

section Harmless

variable (harmless : sink.Harmless)

include harmless

theorem log (e : LogEntry) : Follows sink (Live.log sink e) (Step.note (.entry e)) := by
  intro s t
  refine ⟨[.entry e], rfl, ?_⟩
  change (hand sink e).run ({ s with notices := s.notices ++ [.entry e] }, t) = _
  change (((sink.write e).run t).1, _, ((sink.write e).run t).2) = _
  rw [harmless.write_run]
  rfl

theorem emit (event : Event) :
    Follows sink (Live.emit sink event)
      (get >>= fun s => Step.note (.entry ⟨s.registry.name, event⟩)) :=
  scene_bind fun s => log harmless _ s

theorem emit_bind (event : Event) {f' : Live σ α} {f : Step α} (hf : Follows sink f' f) :
    Follows sink (Live.emit sink event >>= fun _ => f')
      (get >>= fun s => Step.note (.entry ⟨s.registry.name, event⟩) >>= fun _ => f) := by
  have said := bind (emit harmless event) fun _ => hf
  rwa [bind_assoc] at said

theorem failure (e : Entry) (typeName : String) (direction : Direction) (fault : Fault) :
    Follows sink (Live.failure sink e typeName direction fault)
      (Registry.failure e typeName direction fault) := by
  cases fault with
  | registry | wordless => exact pure _
  | cause cause => exact emit_bind harmless _ (pure _)

theorem throw_failure (e : Entry) (typeName : String) (direction : Direction) (fault : Fault) :
    Follows (α := α) sink (do MonadExcept.throw (← Live.failure sink e typeName direction fault))
      (do MonadExcept.throw (← Registry.failure e typeName direction fault)) :=
  bind (failure harmless e typeName direction fault) fun fault => throw fault

theorem represent (e : Entry) (v : Value) :
    Follows sink (Live.represent sink e v) (Registry.represent e v) := by
  refine scene_bind fun s => bind (still (act_silent _)) (fun result => ?_) s
  cases result with
  | ok representation =>
    refine scene_bind fun s => ?_
    dsimp only
    split
    · exact pure _ s
    · exact throw_failure harmless _ _ _ _ s
  | error fault => exact throw_failure harmless _ _ _ _

theorem serializeAt (fuel depth : Nat) (v : Value) :
    Follows sink (Live.serializeAt sink fuel depth v) (Registry.serializeAt fuel depth v) := by
  induction fuel generalizing depth v with
  | zero => exact throw _
  | succ fuel ih =>
    refine bind (still (checkDepth_silent depth)) fun _ => ?_
    refine bind (still (dispatch_silent v)) fun e => ?_
    refine bind (represent harmless e v) fun representation => scene_bind fun s => ?_
    dsimp only
    split
    · exact pure _ s
    · exact bind (mapItems (encodeItem (ih (depth + 1))) _ _ _) (fun slots => pure _) s

theorem serialize (v : Value) : Follows sink (Live.serialize sink v) (Registry.serialize v) :=
  scene_bind fun s => serializeAt harmless _ 0 v s

theorem rebuild (e : Entry) (representation : Value) :
    Follows sink (Live.rebuild sink e representation) (Registry.rebuild e representation) := by
  refine bind (still (act_silent _)) fun result => ?_
  cases result with
  | ok v => exact pure v
  | error fault => exact throw_failure harmless _ _ _ _

theorem deserializeAt (fuel depth : Nat) (tag : String) (data : Value) :
    Follows sink (Live.deserializeAt sink fuel depth tag data)
      (Registry.deserializeAt fuel depth tag data) := by
  induction fuel generalizing depth tag data with
  | zero => exact throw _
  | succ fuel ih =>
    exact bind (still (enter_silent tag depth)) fun e =>
      bind (input (ih (depth + 1)) data) fun given => rebuild harmless e given

theorem deserialize (tag : String) (data : Value) :
    Follows sink (Live.deserialize sink tag data) (Registry.deserialize tag data) :=
  scene_bind fun s => deserializeAt harmless _ 0 tag data s

end Harmless

end Follows

section Bindings

/-- A change of a registry in place, as a step on a scene with that registry. -/
def onScene (x : Edit α) : Step α := fun s =>
  let (result, (registry, notices)) := x.run (s.registry, s.notices)
  (result, { s with registry, notices })

theorem onScene_run (x : Edit α) (s : Scene) :
    (onScene x).run s = ((x.run (s.registry, s.notices)).1,
      { s with registry := (x.run (s.registry, s.notices)).2.1,
               notices := (x.run (s.registry, s.notices)).2.2 }) := rfl

theorem onScene_bind (x : Edit α) (f : α → Edit β) :
    onScene (x >>= f) = onScene x >>= fun a => onScene (f a) := by
  refine ExceptT.ext (funext fun s => ?_)
  rw [run_bind, onScene_run, onScene_run, run_bind]
  cases x.run (s.registry, s.notices) with
  | mk result after => cases result <;> rfl

theorem onScene_get_bind (f : Registry × List Notice → Edit α) :
    onScene (get >>= f) = get >>= fun s => onScene (f (s.registry, s.notices)) := by
  rw [onScene_bind]
  rfl

namespace Follows

variable {sink : Sink σ} (harmless : sink.Harmless)

include harmless

theorem contest (holder : Entry) (type : TypeRef) (tag : String) :
    Follows sink (Live.contest sink holder type tag)
      (onScene (Edit.reportBy fun r => r.contest holder type tag)) := by
  -- both sides look at the policy of the registry in the scene
  rintro ⟨⟨name, fallback, duplicateTags, maxDepth, byClass, byTag, resolved⟩, graph, stack,
    notices⟩
  let conflict : Event := .conflict tag type.name (holderName holder)
  cases duplicateTags with
  | error => exact .of_silent rfl fun _ => rfl
  | warn => exact fun t => bind (line _ _) (fun _ => emit harmless conflict) _ t
  | overwrite | other => exact fun t => emit harmless conflict _ t

theorem seize (c : Class) (type : TypeRef) (tag : String) :
    Follows sink (Live.seize sink c type tag) (onScene (Registry.seize c type tag)) := by
  rw [Registry.seize, onScene_get_bind]
  refine scene_bind fun s => ?_
  dsimp only
  cases s.registry.rival? c tag with
  | none => exact pure () s
  | some holder =>
    rw [onScene_bind]
    exact bind (contest harmless holder type tag) (fun _ => still fun _ => rfl) s

theorem install (c : Class) (e : Entry) (existing : Option Entry) :
    Follows sink (Live.install sink c e existing) (onScene (Registry.install c e existing)) :=
  fun s t =>
    have stored : Follows sink (Live.change fun r =>
        (r.dropTag ((existing.map Entry.tag).filter (· != e.tag))).store c e) _ :=
      still fun _ => rfl
    bind stored (fun _ => emit harmless _) s t

theorem bindInPlace (type : TypeRef) (tag : String) (codec : Codec) (pickled : Bool) :
    Follows sink (Live.bind sink type tag codec pickled)
      (onScene (Registry.bindInPlace type tag codec pickled)) := by
  rw [Live.bind, Registry.bindInPlace]
  split
  · exact throw _
  · cases type.prototype with
    | none => exact throw _
    | some c =>
      dsimp only
      rw [onScene_get_bind]
      refine scene_bind fun s => ?_
      dsimp only
      split
      · exact pure () s
      · rw [onScene_bind]
        exact bind (seize harmless c type tag) (fun _ => install harmless c _ _) s

theorem clone (overrides : Options) :
    Follows sink (Live.clone sink overrides) (get >>= fun s =>
      Step.note (.entry ⟨(s.registry.copyWith overrides).name, .cloned s.registry.name⟩) >>=
        fun _ => Pure.pure (s.registry.copyWith overrides)) :=
  scene_bind fun s => bind (log harmless _) (fun _ => pure _) s

end Follows

end Bindings

theorem Follows.working {sink : Sink σ} {x' : Live σ α} {x : Step α} (follows : Follows sink x' x)
    (r : Registry) (t : σ) (stack : Nat) (graph : Graph)
    (answer : Except Fault α → Graph → Answer) :
    Sink.working r t stack graph x' answer =
      (r.working stack graph x answer,
        sink.hear t (logged (r.working stack graph x answer).notices)) := by
  obtain ⟨new, noted, ran⟩ := follows { registry := r, graph, stack } t
  rw [List.nil_append] at noted
  rw [Sink.working, ran, ← noted]
  rfl

end Live

namespace Sink.Harmless

open Live

variable {sink : Sink σ} (harmless : sink.Harmless)

include harmless

theorem binding_eq (r : Registry) (t : σ) (type : TypeRef) (tag : String) (codec : Codec)
    (pickled : Bool) :
    Sink.binding r t (Live.bind sink type tag codec pickled) =
      (r.binding (r.bind type tag codec pickled),
        sink.hear t (logged (r.binding (r.bind type tag codec pickled)).notices)) := by
  rw [Sink.binding, (Follows.bindInPlace harmless type tag codec pickled).working,
    Registry.working, onScene_run, bindInPlace_run, Registry.binding]
  cases (r.bind type tag codec pickled).run [] with
  | mk result notices => cases result <;> rfl

theorem perform_eq (r : Registry) (t : σ) (call : Call) :
    sink.perform r t call = (r.perform call, sink.hear t (logged (r.perform call).notices)) := by
  cases call with
  | register type tag codec => exact harmless.binding_eq r t type tag codec false
  | registerPickled type tag => exact harmless.binding_eq r t type tag _ true
  | copy overrides =>
    rw [Sink.perform, (Follows.clone harmless overrides).working]
    rfl
  | clone overrides =>
    rw [Sink.perform, (Follows.clone harmless overrides).working]
    rfl
  | resolve graph v => rfl
  | serialize stack graph v => exact (Follows.serialize harmless v).working r t stack graph _
  | deserialize stack graph tag data =>
    exact (Follows.deserialize harmless tag data).working r t stack graph _

end Sink.Harmless

theorem Sink.perform_silent (r : Registry) (call : Call) :
    silent.perform r () call = (r.perform call, ()) :=
  harmless_silent.perform_eq r () call

namespace Registry.Sample

/-- A sink that fails at every entry. -/
def jammed : Sink Unit := ⟨fun _ => throw .misuse⟩

/-- A sink that throws does play a part: the binding fails at the entry about it, though the type is
bound by then. -/
example :
    let came := (jammed.perform (new {}) () (.register ⟨"Shape", some shape⟩ "Shape" plain)).1
    came.answer = .bound (.error .misuse) ∧ came.registry.tags = ["Shape"] :=
  ⟨rfl, rfl⟩

end Registry.Sample

namespace Registry.Request

theorem settle_outcome? (registries : List Registry) (request : Request) :
    request.settle registries (request.outcome? registries) = request.apply registries := by
  cases request with
  | create options => rfl
  | clone parent overrides =>
    rw [settle, apply, outcome?, asked?]
    cases registries[parent]? <;> rfl
  | call who call =>
    rw [settle, apply, outcome?, asked?, List.modify_eq_set_getElem?]
    cases registries[who]? <;> rfl

theorem emitted_cons (registries : List Registry) (request : Request) (rest : List Request) :
    emitted registries (request :: rest) =
      request.entries registries ++ emitted (request.apply registries) rest := List.flatMap_cons

end Registry.Request

theorem Sink.Harmless.request_eq {σ : Type} {sink : Sink σ} (harmless : sink.Harmless)
    (registries : List Registry) (t : σ) (request : Request) :
    sink.request registries t request =
      (request.outcome? registries,
        (request.apply registries, sink.hear t (request.entries registries))) := by
  rw [Sink.request, Request.entries, ← request.settle_outcome?, Request.outcome?]
  cases request.asked? registries with
  | none => rfl
  | some asked =>
    obtain ⟨r, call⟩ := asked
    dsimp only
    rw [harmless.perform_eq]
    rfl

end Marshal
