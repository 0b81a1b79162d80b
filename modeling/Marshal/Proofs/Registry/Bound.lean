import Marshal.Proofs.Registry.Replay

namespace Marshal

def Call.registered? : Call → Option (TypeRef × String)
  | .register type tag _ | .registerPickled type tag => some (type, tag)
  | _ => none

/-- The entry that a call puts in, if nothing is in its way. -/
def Call.binding? (fallback : ByteCodec) : Call → Option Entry
  | .register type tag codec => some ⟨some type, tag, codec, false⟩
  | .registerPickled type tag => some ⟨some type, tag, Pickle.codec fallback (some type), true⟩
  | _ => none

namespace Registry

open Marshal.Effect

theorem registered?_of_binding? {call : Call} {fallback : ByteCodec} {e : Entry}
    (h : call.binding? fallback = some e) :
    ∃ type, e.type = some type ∧ call.registered? = some (type, e.tag) ∧
      e.withFallback fallback = e ∧ ∀ r : Registry, r.fallback = fallback →
        r.perform call = r.binding (r.registerAgain e) := by
  cases call with
  | register type tag codec =>
    cases h
    exact ⟨type, rfl, rfl, rfl, fun r _ => rfl⟩
  | registerPickled type tag =>
    cases h
    exact ⟨type, rfl, rfl, rfl, fun r _ => rfl⟩
  | _ => cases h

theorem isSome_binding? (call : Call) (fallback : ByteCodec) :
    (call.binding? fallback).isSome = call.registered?.isSome := by
  cases call <;> rfl

theorem sameSettings_rebind (r : Registry) (c : Class) (e : Entry) :
    r.SameSettings (r.rebind c e) ∧ (r.rebind c e).name = r.name := by
  unfold rebind
  change r.SameSettings (((dropClass r ((r.rival? c e.tag).bind Entry.prototype?)).dropTag
    (((r.byClass.find? c).map Entry.tag).filter (· != e.tag))).store c e) ∧ _
  cases (r.rival? c e.tag).bind Entry.prototype? <;>
    cases ((r.byClass.find? c).map Entry.tag).filter (· != e.tag) <;>
    exact ⟨⟨rfl, rfl, rfl⟩, rfl⟩

/-- Something holds of every entry, whichever byte codec the registry has. -/
def Bound (P : ByteCodec → Entry → Prop) (r : Registry) : Prop :=
  ∀ tag e, r.byTag.find? tag = some e → P r.fallback e

namespace Bound

variable {P : ByteCodec → Entry → Prop} {r : Registry}

theorem of_forget_eq (h : Bound P r) {r' : Registry} (same : r'.forget = r.forget) :
    Bound P r' := by
  obtain ⟨memory, rfl⟩ := eq_of_forget_eq same.symm
  exact h

theorem binding (h : Bound P r) {type : TypeRef} {tag : String} {codec : Codec} {pickled : Bool}
    (put : P r.fallback ⟨some type, tag, codec, pickled⟩) :
    Bound P (r.binding (r.bind type tag codec pickled)).registry := by
  unfold Registry.binding
  rcases r.bind_cases type tag codec pickled [] with
    ⟨fault, after, hr⟩ | ⟨after, hr⟩ | ⟨c, after, -, -, hr⟩
  · rw [hr]
    exact h
  · rw [hr]
    exact h
  · rw [hr]
    intro t e held
    rw [find?_byTag_rebind] at held
    rw [(sameSettings_rebind r c _).1.fallback]
    split at held
    next => exact Option.some.inj held ▸ put
    next =>
      split at held
      next => cases held
      next => exact h t e held

theorem perform (copied : ∀ old bytes e, P old e → P bytes (e.withFallback bytes)) (h : Bound P r)
    (sound : r.Sound) {call : Call} (asked : ∀ bytes e, call.binding? bytes = some e → P bytes e) :
    Bound P (r.perform call).registry := by
  cases hc : call.rebinds with
  | false => exact h.of_forget_eq (sound.remembers.perform_alike hc).forget_eq
  | true =>
    cases call with
    | register type tag codec => exact h.binding (asked r.fallback _ rfl)
    | registerPickled type tag => exact h.binding (asked r.fallback _ rfl)
    | clone overrides =>
      intro tag e held
      change (r.copyWith overrides).byTag.find? tag = some e at held
      rw [sound.consistent.find?_byTag_copyWith] at held
      obtain ⟨e', held', rfl⟩ := Option.map_eq_some_iff.1 held
      exact copied r.fallback _ e' (h tag e' held')
    | copy | resolve | serialize | deserialize => cases hc

theorem run (copied : ∀ old bytes e, P old e → P bytes (e.withFallback bytes)) (h : Bound P r)
    (sound : r.Sound) {calls : List Call}
    (asked : ∀ call ∈ calls, ∀ bytes e, call.binding? bytes = some e → P bytes e) :
    Bound P (r.run calls) := by
  induction calls generalizing r with
  | nil => exact h
  | cons call rest ih =>
    have first := h.perform copied sound (asked call List.mem_cons_self)
    exact ih first (sound.perform call) fun call mem => asked call (List.mem_cons_of_mem _ mem)

end Bound

end Registry

end Marshal
