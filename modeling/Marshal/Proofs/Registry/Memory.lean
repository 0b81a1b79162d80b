import Mathlib.Tactic.SplitIfs
import Marshal.Proofs.Registry.Bind

namespace Marshal.Registry

open Marshal.Effect

/-- The registry as if it had met no value yet. -/
def forget (r : Registry) : Registry := { r with resolved := [] }

/-- What is remembered of a class is what its ancestry gives. -/
def Remembers (r : Registry) : Prop :=
  ∀ c e, r.resolved.find? c = some e → e = r.nearest c.lineage

/-- Registries that differ at most in which classes they met. -/
structure Alike (r r' : Registry) : Prop where
  forget_eq : r.forget = r'.forget
  left : r.Remembers
  right : r'.Remembers

theorem remembers_of_blank {r : Registry} (h : r.resolved = []) : r.Remembers := by
  intro c e found
  rw [h] at found
  cases found

theorem Remembers.alike {r : Registry} (h : r.Remembers) : r.Alike r := ⟨rfl, h, h⟩

theorem Alike.symm {r r' : Registry} (h : r.Alike r') : r'.Alike r :=
  ⟨h.forget_eq.symm, h.right, h.left⟩

theorem Alike.trans {r r' r'' : Registry} (h : r.Alike r') (h' : r'.Alike r'') : r.Alike r'' :=
  ⟨h.forget_eq.trans h'.forget_eq, h.left, h'.right⟩

theorem eq_of_forget_eq {r r' : Registry} (h : r.forget = r'.forget) :
    ∃ memory, r' = { r with resolved := memory } := by
  refine ⟨r'.resolved, ?_⟩
  cases r
  cases r'
  simp only [forget, mk.injEq] at h ⊢
  obtain ⟨hn, hf, hd, hm, hc, ht, -⟩ := h
  exact ⟨hn.symm, hf.symm, hd.symm, hm.symm, hc.symm, ht.symm, trivial⟩

theorem entryFor_forget (r : Registry) : r.forget.entryFor = r.entryFor := rfl

/-- What a value dispatches to: the entry of its nearest ancestor that has one, the fallback entry
if there is no such ancestor or no ancestor at all. -/
inductive DispatchesTo (r : Registry) (g : Graph) (v : Value) : Entry → Prop where
  | nearest {c k : Class} {nearer further : List Class} {e : Entry} (start : g.classOf? v = some c)
      (ancestor : c.lineage = nearer ++ k :: further) (bound : r.byClass.find? k = some e)
      (unbound : ∀ k' ∈ nearer, r.byClass.find? k' = none) : DispatchesTo r g v e
  | unbound {c : Class} (start : g.classOf? v = some c)
      (unbound : ∀ k ∈ c.lineage, r.byClass.find? k = none) : DispatchesTo r g v r.fallbackEntry
  | outside (start : g.classOf? v = none) : DispatchesTo r g v r.fallbackEntry

theorem dispatchesTo_iff {r : Registry} {g : Graph} {v : Value} {e : Entry} :
    r.DispatchesTo g v e ↔ e = r.entryFor g v := by
  unfold entryFor Registry.nearest
  constructor
  · intro h
    cases h with
    | nearest start ancestor bound unbound =>
      rw [start]
      dsimp only
      rw [List.findSome?_eq_some_iff.2 ⟨_, _, _, ancestor, bound, unbound⟩]
      rfl
    | unbound start unbound =>
      rw [start]
      dsimp only
      rw [List.findSome?_eq_none_iff.2 unbound]
      rfl
    | outside start => rw [start]
  · rintro rfl
    cases start : g.classOf? v with
    | none => exact .outside start
    | some c =>
      dsimp only
      cases found : c.lineage.findSome? (r.byClass.find? ·) with
      | none => exact .unbound start (List.findSome?_eq_none_iff.1 found)
      | some e =>
        obtain ⟨nearer, k, further, ancestor, bound, unbound⟩ := List.findSome?_eq_some_iff.1 found
        exact .nearest start ancestor bound unbound

theorem Remembers.resolve_eq {r : Registry} (h : r.Remembers) (g : Graph) (v : Value) :
    (r.resolve g v).1 = r.entryFor g v := by
  unfold resolve entryFor
  cases g.classOf? v with
  | none => rfl
  | some c =>
    dsimp only
    split
    next e found => exact h c e found
    next => rfl

theorem forget_resolve (r : Registry) (g : Graph) (v : Value) :
    (r.resolve g v).2.forget = r.forget := by
  unfold resolve
  split
  next => rfl
  next => split <;> rfl

theorem Remembers.resolve {r : Registry} (h : r.Remembers) (g : Graph) (v : Value) :
    (r.resolve g v).2.Remembers := by
  unfold Registry.resolve
  split
  next => exact h
  next c _ =>
    split
    next => exact h
    next =>
      intro k e found
      rw [Assoc.find?_set] at found
      split_ifs at found with same
      · rw [same]
        exact (Option.some.inj found).symm
      · exact h k e found

theorem Alike.entryFor_eq {r r' : Registry} (h : r.Alike r') : r.entryFor = r'.entryFor := by
  rw [← entryFor_forget, h.forget_eq, entryFor_forget]

theorem Alike.resolve {r r' : Registry} (h : r.Alike r') (g : Graph) (v : Value) :
    (r.resolve g v).1 = (r'.resolve g v).1 ∧ (r.resolve g v).2.Alike (r'.resolve g v).2 := by
  refine ⟨?_, ?_, h.left.resolve g v, h.right.resolve g v⟩
  · rw [h.left.resolve_eq, h.right.resolve_eq, h.entryFor_eq]
  · rw [forget_resolve, forget_resolve, h.forget_eq]

theorem rebind_resolved (r : Registry) (memory : Assoc Class Entry) (c : Class) (e : Entry) :
    ({ r with resolved := memory } : Registry).rebind c e = r.rebind c e := by
  unfold rebind
  change ((dropClass _ ((r.rival? c e.tag).bind Entry.prototype?)).dropTag
    (((r.byClass.find? c).map Entry.tag).filter (· != e.tag))).store c e = _
  cases (r.rival? c e.tag).bind Entry.prototype? <;>
    cases ((r.byClass.find? c).map Entry.tag).filter (· != e.tag) <;> rfl

theorem remembers_rebind (r : Registry) (c : Class) (e : Entry) : (r.rebind c e).Remembers :=
  remembers_of_blank rfl

theorem Alike.bind {r r' : Registry} (h : r.Alike r') (type : TypeRef) (tag : String)
    (codec : Codec) (pickled : Bool) (notices : List Notice) :
    (∃ fault after, (r.bind type tag codec pickled).run notices = (.error fault, after) ∧
        (r'.bind type tag codec pickled).run notices = (.error fault, after)) ∨
      ∃ bound bound' after, (r.bind type tag codec pickled).run notices = (.ok bound, after) ∧
        (r'.bind type tag codec pickled).run notices = (.ok bound', after) ∧
        bound.Alike bound' := by
  obtain ⟨memory, rfl⟩ := eq_of_forget_eq h.forget_eq
  have accepted : ({ r with resolved := memory } : Registry).accept type tag codec pickled =
      r.accept type tag codec pickled := rfl
  rw [Registry.bind, Registry.bind, accepted, run_bind, run_bind]
  cases (r.accept type tag codec pickled).run notices with
  | mk result after =>
    rcases result with fault | _ | ⟨c, e⟩
    · exact .inl ⟨fault, after, rfl, rfl⟩
    · exact .inr ⟨_, _, after, rfl, rfl, h⟩
    · refine .inr ⟨_, _, after, rfl, rfl, ?_⟩
      rw [rebind_resolved r memory]
      exact (remembers_rebind r c e).alike

end Marshal.Registry
