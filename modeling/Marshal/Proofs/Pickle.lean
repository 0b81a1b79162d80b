import Marshal.Proofs.Collect
import Marshal.Proofs.Keeps
import Marshal.Registry.Entry

namespace Marshal

open Marshal.Effect

/-- A value that is assigned to the name becomes a field of the instance. -/
def Class.takes (c : Class) (name : String) : Bool := (c.member? name).all (·.write == .own)

theorem Class.takes_of_absent {c : Class} {name : String} (absent : c.member? name = none) :
    c.takes name = true := by
  rw [takes, absent]
  rfl

namespace Object

variable {g : Graph} {o : Object} {name : String} {w : Value}

theorem store_of_takes (takes : ∀ c, o.kind = some c → c.takes name = true) :
    o.store name w = .ok { o with fields := o.fields.set name w } := by
  rw [store]
  split
  next => rfl
  next member found =>
    split at found
    · cases found
    · obtain ⟨c, kind, found⟩ := Option.bind_eq_some_iff.1 found
      have own := takes c kind
      rw [Class.takes, found] at own
      rw [eq_of_beq own]

theorem assign_other (other : name = "__proto__" → o.kind.any (·.isWithin .object) = false) :
    o.assign g name w = o.store name w := by
  refine if_neg ?_
  rw [Bool.and_eq_true, beq_iff_eq]
  rintro ⟨proto, within⟩
  cases (other proto).symm.trans within

theorem assign_proto (within : o.kind.any (·.isWithin .object) = true) :
    ∃ kind, o.assign g "__proto__" w = .ok { o with kind } ∧
      ∀ c, kind = some c → o.kind = some c ∨ ∃ ref, w = .object ref ∧ c = g.classBelow w := by
  rw [assign, within, Bool.and_true, if_pos (beq_self_eq_true _)]
  cases w with
  | null => exact ⟨none, rfl, nofun⟩
  | object ref => exact ⟨_, rfl, fun c same => .inr ⟨ref, rfl, (Option.some.inj same).symm⟩⟩
  | _ => exact ⟨o.kind, rfl, fun c kind => .inl kind⟩

def assignAll (g : Graph) (o : Object) (entries : List (String × Value)) : Except Fault Object :=
  entries.foldlM (fun r entry => r.assign g entry.1 entry.2) o

theorem assignAll_cons (entry : String × Value) {r : Object} {rest : List (String × Value)}
    (first : o.assign g entry.1 entry.2 = .ok r) :
    o.assignAll g (entry :: rest) = r.assignAll g rest := by
  rw [assignAll, List.foldlM_cons, first]
  rfl

theorem assignAll_of_takes {entries : List (String × Value)}
    (others : ∀ entry ∈ entries, entry.1 = "__proto__" → o.kind.any (·.isWithin .object) = false)
    (takes : ∀ c, o.kind = some c → ∀ entry ∈ entries, c.takes entry.1 = true) :
    o.assignAll g entries = .ok { o with
      fields := entries.foldl (fun fields entry => fields.set entry.1 entry.2) o.fields } := by
  induction entries generalizing o with
  | nil => rfl
  | cons entry rest ih =>
    obtain ⟨other, others⟩ := List.forall_mem_cons.1 others
    have first := (assign_other (g := g) (w := entry.2) other).trans
      (store_of_takes fun c kind => (List.forall_mem_cons.1 (takes c kind)).1)
    rw [assignAll_cons _ first]
    exact ih others fun c kind => (List.forall_mem_cons.1 (takes c kind)).2

/-- Of fields with names of their own that are assigned to an object with a class, one with the name
of the ancestry is lost, and all others are stored in turn, as long as the classes take them. -/
theorem assignAll_stores {entries : List (String × Value)}
    (distinct : (entries.map Prod.fst).Nodup)
    (within : "__proto__" ∈ entries.map Prod.fst → o.kind.any (·.isWithin .object) = true)
    (takes : ∀ c, o.kind = some c → ∀ entry ∈ entries, entry.1 ≠ "__proto__" →
      c.takes entry.1 = true)
    (later : ∀ ref, ("__proto__", .object ref) ∈ entries → ∀ entry ∈ entries,
      entry.1 ≠ "__proto__" → (g.classBelow (.object ref)).takes entry.1 = true) :
    ∃ kind, o.assignAll g entries = .ok { o with
      kind, fields := (entries.filter (·.1 != "__proto__")).foldl
        (fun fields entry => fields.set entry.1 entry.2) o.fields } := by
  induction entries generalizing o with
  | nil => exact ⟨o.kind, rfl⟩
  | cons entry rest ih =>
    obtain ⟨name, w⟩ := entry
    obtain ⟨once, others⟩ := List.nodup_cons.1 distinct
    have later' : ∀ ref, ("__proto__", .object ref) ∈ rest → ∀ entry ∈ rest,
        entry.1 ≠ "__proto__" → (g.classBelow (.object ref)).takes entry.1 = true :=
      fun ref mem entry mem' =>
        later ref (List.mem_cons_of_mem _ mem) entry (List.mem_cons_of_mem _ mem')
    by_cases proto : name = "__proto__"
    · subst proto
      obtain ⟨kind, first, kinds⟩ := assign_proto (g := g) (w := w) (within List.mem_cons_self)
      have takes' : ∀ c, kind = some c → ∀ entry ∈ rest, entry.1 ≠ "__proto__" →
          c.takes entry.1 = true := by
        intro c own entry mem other
        rcases kinds c own with same | ⟨ref, rfl, rfl⟩
        · exact takes c same entry (List.mem_cons_of_mem _ mem) other
        · exact later ref List.mem_cons_self entry (List.mem_cons_of_mem _ mem) other
      rw [assignAll_cons _ first, List.filter_cons_of_neg (by simp)]
      exact ih (o := { o with kind }) others (fun mem => absurd mem once) takes' later'
    · have first := (assign_other (g := g) (w := w) fun same => absurd same proto).trans
        (store_of_takes fun c kind => takes c kind _ List.mem_cons_self proto)
      rw [assignAll_cons _ first, List.filter_cons_of_pos (by simpa using proto)]
      exact ih (o := { o with fields := o.fields.set name w }) others
        (fun mem => within (List.mem_cons_of_mem _ mem))
        (fun c kind entry mem => takes c kind entry (List.mem_cons_of_mem _ mem)) later'

theorem same_of_store {r : Object} (stored : o.store name w = .ok r) :
    r.kind = o.kind ∧ r.body = o.body := by
  unfold store at stored
  split at stored
  · cases stored
    exact ⟨rfl, rfl⟩
  · split at stored <;> cases stored <;> exact ⟨rfl, rfl⟩

theorem store_error {fault : Fault} (failed : o.store name w = .error fault) :
    ∃ c member, o.kind = some c ∧ c.member? name = some member ∧ member.write = .fails fault := by
  unfold store at failed
  split at failed
  · cases failed
  next member found =>
    split at failed <;> cases failed
    next refused =>
      split at found
      · cases found
      · obtain ⟨c, kind, provided⟩ := Option.bind_eq_some_iff.1 found
        exact ⟨c, member, kind, provided, refused⟩

theorem body_of_assign {r : Object} (assigned : o.assign g name w = .ok r) : r.body = o.body := by
  unfold assign at assigned
  split at assigned
  · cases assigned
    cases w <;> rfl
  · exact (same_of_store assigned).2

theorem assignAll_cons_ok {entry : String × Value} {rest : List (String × Value)} {r : Object}
    (assigned : o.assignAll g (entry :: rest) = .ok r) :
    ∃ middle, o.assign g entry.1 entry.2 = .ok middle ∧ middle.assignAll g rest = .ok r := by
  rw [assignAll, List.foldlM_cons] at assigned
  exact bind_eq_ok_iff.1 assigned

theorem body_of_assignAll {entries : List (String × Value)} {r : Object}
    (assigned : o.assignAll g entries = .ok r) : r.body = o.body := by
  induction entries generalizing o with
  | nil =>
    cases assigned
    rfl
  | cons entry rest ih =>
    obtain ⟨middle, first, rest⟩ := assignAll_cons_ok assigned
    exact (ih rest).trans (body_of_assign first)

theorem kind_of_assignAll {entries : List (String × Value)} {r : Object}
    (others : ∀ entry ∈ entries, entry.1 = "__proto__" → o.kind.any (·.isWithin .object) = false)
    (assigned : o.assignAll g entries = .ok r) : r.kind = o.kind := by
  induction entries generalizing o with
  | nil =>
    cases assigned
    rfl
  | cons entry rest ih =>
    obtain ⟨other, others⟩ := List.forall_mem_cons.1 others
    obtain ⟨middle, first, rest⟩ := assignAll_cons_ok assigned
    rw [assign_other other] at first
    have same := (same_of_store first).1
    exact (ih (fun entry mem => same ▸ others entry mem) rest).trans same

/-- Unless the ancestry is assigned to, what fails is that the class provides a name and refuses
what is assigned to it. -/
theorem assignAll_error {entries : List (String × Value)} {fault : Fault}
    (others : ∀ entry ∈ entries, entry.1 ≠ "__proto__")
    (failed : o.assignAll g entries = .error fault) :
    ∃ c name member, o.kind = some c ∧ c.member? name = some member ∧
      member.write = .fails fault := by
  induction entries generalizing o with
  | nil => cases failed
  | cons entry rest ih =>
    obtain ⟨other, others⟩ := List.forall_mem_cons.1 others
    have first := assign_other (o := o) (g := g) (w := entry.2) fun same => absurd same other
    cases stored : o.store entry.1 entry.2 with
    | ok r =>
      rw [assignAll_cons _ (first.trans stored)] at failed
      rw [← (same_of_store stored).1]
      exact ih others failed
    | error thrown =>
      rw [assignAll, List.foldlM_cons, first, stored] at failed
      cases failed
      obtain ⟨c, member, refused⟩ := store_error stored
      exact ⟨c, entry.1, member, refused⟩

end Object

namespace Action

theorem assign_run (o : Object) (name : String) (w : Value) (g : Graph) :
    (assign o name w).run g = (o.assign g name w, g) := by
  rw [assign, run_bind, run_get]
  dsimp only
  cases o.assign g name w <;> rfl

theorem foldlM_assign_run (entries : List (String × Value)) (o : Object) (g : Graph) :
    (entries.foldlM (fun (r : Object) (name, w) => assign r name w) o).run g =
      (o.assignAll g entries, g) := by
  induction entries generalizing o with
  | nil => rfl
  | cons entry rest ih =>
    rw [List.foldlM_cons, run_bind, assign_run, Object.assignAll, List.foldlM_cons]
    cases o.assign g entry.1 entry.2 with
    | error fault => rfl
    | ok r => exact ih r

end Action

namespace Pickle

open Marshal.Action

/-- What becomes of a decoded value where an instance of a class is expected. -/
inductive Restored (c : Class) (g : Graph) (w : Value) : Value → Graph → Prop where
  | scalar (none : g.objectOf? w = none) : Restored c g w w g
  | function {o : Object} (found : g.objectOf? w = some o) (body : o.body = .function) :
    Restored c g w w g
  | already {o : Object} (found : g.objectOf? w = some o)
      (within : o.kind.any (·.isWithin c) = true) : Restored c g w w g
  | made {o r : Object} (found : g.objectOf? w = some o) (body : o.body ≠ .function)
      (other : o.kind.any (·.isWithin c) = false)
      (copies : ({ kind := some c } : Object).assignAll g o.entries = .ok r) :
    Restored c g w (.object g.size) (g.add r)

theorem restore_ok {c : Class} {g k : Graph} {w v : Value}
    (ran : (restore c w).run g = (.ok v, k)) : Restored c g w v k := by
  obtain ⟨found, _, ⟨⟩, ran⟩ := run_bind_eq_ok.1 ran
  cases found : g.objectOf? w with
  | none =>
    rw [found] at ran
    cases ran
    exact .scalar found
  | some o =>
    rw [found] at ran
    dsimp only at ran
    split at ran
    next stays =>
      cases ran
      rcases Bool.or_eq_true_iff.1 stays with function | within
      · exact .function found (of_decide_eq_true function)
      · exact .already found within
    next changes =>
      obtain ⟨body, other⟩ := Bool.or_eq_false_iff.1 (Bool.eq_false_iff.2 changes)
      rw [run_bind, foldlM_assign_run] at ran
      cases copies : ({ kind := some c } : Object).assignAll g o.entries with
      | error fault =>
        rw [copies] at ran
        cases ran
      | ok r =>
        rw [copies] at ran
        cases ran
        exact .made found (of_decide_eq_false body) other copies

theorem restore_error {c : Class} {g k : Graph} {w : Value} {fault : Fault}
    (ran : (restore c w).run g = (.error fault, k)) :
    ∃ o, g.objectOf? w = some o ∧
      ({ kind := some c } : Object).assignAll g o.entries = .error fault := by
  rw [restore, run_bind, objectOf?_run] at ran
  cases found : g.objectOf? w with
  | none =>
    rw [found] at ran
    cases ran
  | some o =>
    rw [found] at ran
    dsimp only at ran
    split at ran
    · cases ran
    rw [run_bind, foldlM_assign_run] at ran
    cases copies : ({ kind := some c } : Object).assignAll g o.entries with
    | error fault' =>
      rw [copies] at ran
      cases ran
      exact ⟨o, rfl, copies⟩
    | ok r =>
      rw [copies] at ran
      cases ran

theorem Restored.unchanged {c : Class} {g k : Graph} {w v : Value} (h : Restored c g w v k)
    (stays : ∀ o, g.objectOf? w = some o →
      o.body = .function ∨ o.kind.any (·.isWithin c) = true) : v = w ∧ k = g := by
  cases h with
  | made found body other _ =>
    rcases stays _ found with function | within
    · exact absurd function body
    · cases other.symm.trans within
  | _ => exact ⟨rfl, rfl⟩

theorem Restored.exists_made {c : Class} {g k : Graph} {w v : Value} {o : Object}
    (h : Restored c g w v k) (found : g.objectOf? w = some o) (body : o.body ≠ .function)
    (other : o.kind.any (·.isWithin c) = false) :
    ∃ r, v = .object g.size ∧ k = g.add r ∧
      ({ kind := some c } : Object).assignAll g o.entries = .ok r := by
  cases h with
  | scalar none => cases none.symm.trans found
  | function found' function =>
    cases found.symm.trans found'
    exact absurd function body
  | already found' within =>
    cases found.symm.trans found'
    cases other.symm.trans within
  | made found' _ _ copies =>
    cases found.symm.trans found'
    exact ⟨_, rfl, rfl, copies⟩

theorem bytesOf_ok {name : String} {g k : Graph} {data : Value} {message : ByteArray}
    (ran : (bytesOf name data).run g = (.ok message, k)) :
    g.bytes? data = some message ∧ k = g := by
  obtain ⟨_, _, ⟨⟩, ran⟩ := run_bind_eq_ok.1 ran
  split at ran
  next found =>
    cases ran
    exact ⟨found, rfl⟩
  next => split at ran <;> cases ran

theorem deserialize_typed {bytes : ByteCodec} {type : Option TypeRef} {c : Class}
    (own : type.bind TypeRef.prototype = some c) (data : Value) :
    (codec bytes type).deserialize.run data =
      bytesOf bytes.name data >>= fun message => bytes.decode message >>= restore c := by
  simp only [codec, own]

theorem deserialize_ok {bytes : ByteCodec} {type : Option TypeRef} {c : Class} {g k : Graph}
    {data v : Value} (own : type.bind TypeRef.prototype = some c)
    (ran : ((codec bytes type).deserialize.run data).run g = (.ok v, k)) :
    ∃ message w h, g.bytes? data = some message ∧
      (bytes.decode message).run g = (.ok w, h) ∧ (restore c w).run h = (.ok v, k) := by
  rw [deserialize_typed own] at ran
  obtain ⟨message, _, taken, rest⟩ := run_bind_eq_ok.1 ran
  obtain ⟨found, rfl⟩ := bytesOf_ok taken
  obtain ⟨w, h, decoded, restored⟩ := run_bind_eq_ok.1 rest
  exact ⟨message, w, h, found, decoded, restored⟩

theorem deserialize_error {bytes : ByteCodec} {type : Option TypeRef} {c : Class} {g k : Graph}
    {data : Value} {fault : Fault} (own : type.bind TypeRef.prototype = some c)
    (ran : ((codec bytes type).deserialize.run data).run g = (.error fault, k)) :
    (∃ cause, fault = .cause cause) ∨ ∃ message, (bytes.decode message).run g = (.error fault, k) ∨
      ∃ w h, (bytes.decode message).run g = (.ok w, h) ∧
        (restore c w).run h = (.error fault, k) := by
  rw [deserialize_typed own, run_bind] at ran
  cases taken : (bytesOf bytes.name data).run g with
  | mk result middle =>
    rw [taken] at ran
    cases result with
    | error thrown =>
      cases ran
      refine .inl ?_
      rw [bytesOf, run_bind, run_get] at taken
      dsimp only at taken
      split at taken
      · cases taken
      · split at taken <;> cases taken <;> exact ⟨_, rfl⟩
    | ok message =>
      obtain ⟨-, rfl⟩ := bytesOf_ok taken
      refine .inr ⟨message, ?_⟩
      dsimp only at ran
      rw [run_bind] at ran
      cases decoded : (bytes.decode message).run middle with
      | mk result last =>
        rw [decoded] at ran
        cases result with
        | error thrown => exact .inl ran
        | ok w => exact .inr ⟨w, last, rfl, ran⟩

end Pickle

end Marshal
