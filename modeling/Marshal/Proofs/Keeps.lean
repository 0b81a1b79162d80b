import Marshal.Proofs.Action
import Marshal.Proofs.Tree

namespace Marshal

open Marshal.Effect

namespace Graph

variable {g : Graph} {ref : Ref} {o : Object}

theorem get?_put_self (found : g.get? ref = some o) (o' : Object) :
    (g.put ref o').get? ref = some o' :=
  Array.getElem?_setIfInBounds_self_of_lt (lt_size_of_get? found)

theorem get?_put_of_ne {other : Ref} (apart : ref ≠ other) (o' : Object) :
    (g.put ref o').get? other = g.get? other :=
  Array.getElem?_setIfInBounds_ne apart

/-- All objects but one stay as they are. -/
def ExtendsApart (ref : Ref) (g k : Graph) : Prop :=
  ∀ other o, other ≠ ref → g.get? other = some o → k.get? other = some o

theorem Extends.apart {k : Graph} (ext : g.Extends k) (ref : Ref) : ExtendsApart ref g k :=
  fun other o _ found => ext other o found

end Graph

namespace Action

/-- All runs of the action lead to graphs that stand so to the ones before. Those that fail do so
with a cause of their own. -/
structure Keeps {α : Type} (R : Graph → Graph → Prop) (x : Action α) : Prop where
  stands : ∀ g, R g (x.run g).2
  causes : ∀ g fault, (x.run g).1 = .error fault → ∃ cause, fault = .cause cause

/-- A relation that can be followed along runs. -/
structure Lasting (R : Graph → Graph → Prop) : Prop where
  refl : ∀ g, R g g
  trans : ∀ {g h k}, R g h → R h k → R g k

theorem lasting_eq : Lasting Eq := ⟨fun _ => rfl, Eq.trans⟩

theorem lasting_extends : Lasting Graph.Extends := ⟨Graph.Extends.refl, Graph.Extends.trans⟩

theorem lasting_extendsApart (ref : Ref) : Lasting (Graph.ExtendsApart ref) where
  refl g := (Graph.Extends.refl g).apart ref
  trans left right other o apart found := right other o apart (left other o apart found)

namespace Keeps

variable {α β : Type} {R : Graph → Graph → Prop} {x : Action α} {f : α → Action β} {v : Value}
  {name : String}

theorem of_run (h : Keeps R x) {g k : Graph} {result : Except Fault α}
    (ran : x.run g = (result, k)) : R g k := by
  have stands := h.stands g
  rwa [ran] at stands

theorem cause_of_run (h : Keeps R x) {g k : Graph} {fault : Fault}
    (ran : x.run g = (.error fault, k)) : ∃ cause, fault = .cause cause :=
  h.causes g fault (congrArg Prod.fst ran)

theorem mono {S : Graph → Graph → Prop} (le : ∀ {g k}, R g k → S g k) (h : Keeps R x) : Keeps S x :=
  ⟨fun g => le (h.stands g), h.causes⟩

theorem of_ok (h : ∀ g, ∃ a k, x.run g = (.ok a, k) ∧ R g k) : Keeps R x := by
  constructor
  · intro g
    obtain ⟨a, k, ran, stands⟩ := h g
    rw [ran]
    exact stands
  · intro g fault failed
    obtain ⟨a, k, ran, -⟩ := h g
    rw [ran] at failed
    cases failed

theorem pure (lasting : Lasting R) (a : α) : Keeps R (pure a : Action α) :=
  .of_ok fun g => ⟨a, g, rfl, lasting.refl g⟩

theorem throw (lasting : Lasting R) (cause : Cause) :
    Keeps R (throw (.cause cause) : Action α) where
  stands := lasting.refl
  causes g fault failed := by
    cases failed
    exact ⟨cause, rfl⟩

theorem bind (lasting : Lasting R) (hx : Keeps R x) (hf : ∀ a, Keeps R (f a)) :
    Keeps R (x >>= f) := by
  constructor
  · intro g
    rw [run_bind]
    cases ran : x.run g with
    | mk result middle =>
      cases result with
      | ok a => exact lasting.trans (hx.of_run ran) ((hf a).stands middle)
      | error fault => exact hx.of_run ran
  · intro g fault failed
    rw [run_bind] at failed
    cases ran : x.run g with
    | mk result middle =>
      rw [ran] at failed
      cases result with
      | ok a => exact (hf a).causes middle fault failed
      | error fault' =>
        cases failed
        exact hx.cause_of_run ran

theorem map (lasting : Lasting R) (h : α → β) (hx : Keeps R x) : Keeps R (h <$> x) := by
  rw [← bind_pure_comp]
  exact hx.bind lasting fun a => .pure lasting (h a)

theorem get (lasting : Lasting R) : Keeps R (get : Action Graph) :=
  .of_ok fun g => ⟨g, g, rfl, lasting.refl g⟩

theorem objectOf? (lasting : Lasting R) (v : Value) : Keeps R (Action.objectOf? v) :=
  .of_ok fun g => ⟨g.objectOf? v, g, rfl, lasting.refl g⟩

theorem mapM (lasting : Lasting R) (each : ∀ a, Keeps R (f a)) (items : List α) :
    Keeps R (items.mapM f) := by
  induction items with
  | nil => exact .pure lasting []
  | cons a rest ih =>
    rw [List.mapM_cons]
    exact (each a).bind lasting fun b => ih.bind lasting fun out => .pure lasting (b :: out)

theorem filterMapM {f : α → Action (Option β)} (lasting : Lasting R) (each : ∀ a, Keeps R (f a))
    (items : List α) : Keeps R (items.filterMapM f) := by
  induction items with
  | nil => exact .pure lasting []
  | cons a rest ih =>
    rw [List.filterMapM_cons]
    refine (each a).bind lasting fun b => ?_
    cases b with
    | none => exact ih
    | some b => exact ih.bind lasting fun out => .pure lasting (b :: out)

theorem ite {p : Prop} [Decidable p] {y : Action α} (hx : Keeps R x) (hy : Keeps R y) :
    Keeps R (if p then x else y) := by
  split
  · exact hx
  · exact hy

theorem add (grows : ∀ g o, R g (g.add o)) (o : Object) : Keeps R (Action.add o) :=
  .of_ok fun g => ⟨.object g.size, g.add o, rfl, grows g o⟩

theorem put (ref : Ref) (o : Object) : Keeps (Graph.ExtendsApart ref) (Action.put ref o) :=
  .of_ok fun g => ⟨⟨⟩, g.put ref o, rfl, fun _ _ apart found =>
    (Graph.get?_put_of_ne apart.symm o).trans found⟩

theorem read (lasting : Lasting R) (o : Object) (v : Value) (name : String) {fault : Fault}
    (failed : o.read? v name = some (.error fault)) :
    Keeps R (MonadExcept.throw fault : Action α) := by
  unfold Object.read? at failed
  split at failed
  · cases failed
  · obtain ⟨member, -, failed⟩ := Option.map_eq_some_iff.1 failed
    split at failed <;> cases failed <;> exact .throw lasting _

/-- Only the names of a table's columns are put together anew when they are asked for. -/
theorem propertyWith (lasting : Lasting R)
    (grows : name = "columnNames" → ∀ g o, R g (g.add o)) (fuel : Nat) :
    Keeps R (Action.propertyWith fuel v name) := by
  induction fuel generalizing v name with
  | zero => exact .throw lasting _
  | succ fuel ih =>
    have part (v : Value) {name : String} (plain : name ≠ "columnNames") :
        Keeps R (Action.propertyWith fuel v name) :=
      ih fun same => absurd same plain
    rw [Action.propertyWith.eq_def]
    dsimp only
    split
    · exact .throw lasting _
    · exact .throw lasting _
    · split
      · exact .pure lasting _
      · split <;> exact .pure lasting _
    · split
      · exact .pure lasting _
      · split <;> exact .pure lasting _
    · refine .bind lasting (.objectOf? lasting _) fun found => ?_
      split
      · next o =>
        split
        · exact .pure lasting _
        · split
          · exact .bind lasting (part _ (by decide)) fun values => part values (by decide)
          · split
            · next computed =>
              refine .bind lasting (part _ (by decide)) fun columns =>
                .bind lasting (.objectOf? lasting columns) fun list => ?_
              split
              · split
                · split
                  · split
                    · exact .pure lasting _
                    · exact part _ (by decide)
                  · next other =>
                    have names : name = "columnNames" := by
                      simpa [other] using (Bool.and_eq_true_iff.1 computed).2
                    refine .bind lasting (.mapM lasting (fun item => ?_) _) fun names' =>
                      .add (grows names) _
                    split
                    · exact .map lasting some (part _ (by decide))
                    · exact .pure lasting _
                · exact .throw lasting _
              · exact .throw lasting _
            · split
              · exact .pure lasting _
              · exact .pure lasting _
              next failed => exact .read lasting _ _ _ failed
      · exact .pure lasting _
    · exact .pure lasting _

theorem property (lasting : Lasting R) (grows : name = "columnNames" → ∀ g o, R g (g.add o)) :
    Keeps R (Action.property v name) := by
  refine .bind lasting (.get lasting) fun g => ?_
  exact .propertyWith lasting grows (g.size + 2)

section Growing

variable (lasting : Lasting R) (grows : ∀ g o, R g (g.add o))

include lasting grows

theorem iterate (v : Value) : Keeps R (Action.iterate v) := by
  have pair (k w : Value) : Keeps R (newList [k, w]) := .add grows _
  rw [Action.iterate.eq_def]
  split
  · exact .pure lasting _
  · exact .pure lasting _
  · refine .bind lasting (.objectOf? lasting _) fun o => ?_
    split
    · split
      · exact .pure lasting _
      · exact .pure lasting _
      · exact .pure lasting _
      · exact .mapM lasting (fun ⟨k, w⟩ => pair k w) _
      · split
        · exact .pure lasting _
        · exact .throw lasting _
      · split
        · split
          · dsimp only
            split
            · exact .pure lasting _
            · exact .pure lasting _
          · exact .throw lasting _
        · exact .throw lasting _
      · exact .throw lasting _
    · exact .throw lasting _
  · exact .throw lasting _

theorem textWith_object {fuel : Nat}
    (part : ∀ within v, Keeps R (Action.textWith fuel within v)) (within : List Ref) (ref : Ref) :
    Keeps R (Action.textWith (fuel + 1) within (.object ref)) := by
  have property (v : Value) (name : String) : Keeps R (Action.property v name) :=
    .property lasting fun _ => grows
  have joined {f : Option Value → Action String} (each : ∀ item, Keeps R (f item))
      (items : List (Option Value)) :
      Keeps R (do return ",".intercalate (← items.mapM f)) :=
    .bind lasting (.mapM lasting each items) fun texts => .pure lasting _
  have fromFields {f g : Value → Action String} (left : ∀ v, Keeps R (f v))
      (right : ∀ v, Keeps R (g v)) : Keeps R (do
        let name ← Action.property (.object ref) "name"
        let message ← Action.property (.object ref) "message"
        return errorText (← f name) (← g message)) :=
    .bind lasting (property _ _) fun name => .bind lasting (property _ _) fun message =>
      .bind lasting (left name) fun _ => .bind lasting (right message) fun _ => .pure lasting _
  rw [Action.textWith]
  split
  · exact .pure lasting _
  · refine .bind lasting (.objectOf? lasting _) fun o => ?_
    cases o with
    | none => exact .pure lasting _
    | some o =>
      dsimp only
      split
      · exact .throw lasting _
      · split
        · refine joined (fun item => ?_) _
          split
          · exact .pure lasting _
          · exact .pure lasting _
          · exact part _ _
        · split
          · exact .pure lasting _
          · refine joined (fun item => ?_) _
            split
            · exact .pure lasting _
            · exact .pure lasting _
            · exact part _ _
        · exact .pure lasting _
        · exact .pure lasting _
        · exact .pure lasting _
        · exact part _ _
        · exact .pure lasting _
        · refine fromFields (fun v => ?_) fun v => ?_
          all_goals
            split
            · exact .pure lasting _
            · exact part _ _
        · split
          · exact .throw lasting _
          · split
            · refine .bind lasting (iterate lasting grows _) fun items =>
                .bind lasting (.mapM lasting (fun item => ?_) items) fun texts =>
                  .pure lasting _
              split
              · exact .pure lasting _
              · exact .pure lasting _
              · exact part _ _
            · split
              · refine fromFields (fun v => ?_) fun v => ?_
                all_goals
                  split
                  · exact .pure lasting _
                  · exact part _ _
              · split
                · exact .throw lasting _
                · exact .pure lasting _
        · exact .pure lasting _

theorem textWith (fuel : Nat) (within : List Ref) (v : Value) :
    Keeps R (Action.textWith fuel within v) := by
  induction fuel generalizing within v with
  | zero =>
    rw [Action.textWith.eq_def]
    exact .throw lasting _
  | succ fuel ih =>
    cases v with
    | object ref => exact textWith_object lasting grows ih within ref
    | symbol =>
      rw [Action.textWith.eq_def]
      exact .throw lasting _
    | _ =>
      rw [Action.textWith.eq_def]
      exact .pure lasting _

theorem text (v : Value) : Keeps R (Action.text v) :=
  .bind lasting (.get lasting) fun g => textWith lasting grows (2 * g.size + 2) [] v

theorem key (v : Value) : Keeps R (Action.key v) := by
  rw [Action.key.eq_def]
  split
  · exact .pure lasting _
  · exact text lasting grows _

theorem setOf (v : Value) : Keeps R (Action.setOf v) := by
  rw [Action.setOf]
  split
  · exact .add grows _
  · exact .bind lasting (iterate lasting grows v) fun items => .add grows _

theorem patternOf (source flags : Value) : Keeps R (Action.patternOf source flags) := by
  rw [Action.patternOf]
  refine .bind lasting (.objectOf? lasting _) fun o => ?_
  dsimp only
  split
  all_goals
    refine .bind lasting (by first | exact .pure lasting _ | exact text lasting grows _) fun _ => ?_
    split
    all_goals
      refine .bind lasting (by first | exact .pure lasting _ | exact text lasting grows _)
        fun _ => ?_
      split
      · exact .add grows _
      · exact .throw lasting _

theorem scalar (v : Value) : Keeps R (Action.scalar v) := by
  rw [Action.scalar.eq_def]
  split
  · refine .bind lasting (.objectOf? lasting _) fun o => ?_
    split
    · exact .pure lasting _
    · exact .bind lasting (text lasting grows _) fun _ => .pure lasting _
  · exact .pure lasting _

theorem wholeNumber (v : Value) : Keeps R (Action.wholeNumber v) := by
  rw [Action.wholeNumber]
  refine .bind lasting (.objectOf? lasting _) fun o => ?_
  split
  all_goals
    refine .bind lasting (by first | exact .pure lasting _ | exact scalar lasting grows v)
      fun w => ?_
    dsimp only
    split
    · exact .pure lasting _
    · exact .pure lasting _
    · split
      · exact .pure lasting _
      · exact .throw lasting _
    · split
      · exact .pure lasting _
      · exact .throw lasting _
    · exact .throw lasting _
    · exact .throw lasting _

theorem time (v : Value) : Keeps R (Action.time v) := by
  rw [Action.time]
  refine .bind lasting (.objectOf? lasting _) fun o => ?_
  split
  · exact .pure lasting _
  · exact .pure lasting _
  · refine .bind lasting (scalar lasting grows v) fun w => ?_
    split
    all_goals first | exact .pure lasting _ | exact .throw lasting _

theorem indexedValues (limit : Nat) (v : Value) : Keeps R (Action.indexedValues limit v) := by
  have property (name : String) : Keeps R (Action.property v name) :=
    .property lasting fun _ => grows
  rw [Action.indexedValues]
  refine .bind lasting (property _) fun length => ?_
  split
  · dsimp only
    split
    · exact .bind lasting (.throw lasting _) fun _ => .mapM lasting (fun _ => property _) _
    · exact .mapM lasting (fun _ => property _) _
  · exact .pure lasting _

end Growing

end Keeps

/-- All runs of the action keep a relation, whatever state of its own it starts from. -/
def KeepsFrom {σ α : Type} (R : Graph → Graph → Prop) (x : StateT σ Action α) : Prop :=
  ∀ c, Keeps R (x.run c)

namespace KeepsFrom

variable {σ α β : Type} {R : Graph → Graph → Prop} {x : StateT σ Action α}
  {f : α → StateT σ Action β} (lasting : Lasting R)

include lasting

theorem lift {action : Action α} (h : Keeps R action) :
    KeepsFrom R (monadLift action : StateT σ Action α) :=
  fun _ => h.bind lasting fun _ => .pure lasting _

theorem pure (a : α) : KeepsFrom R (pure a : StateT σ Action α) := fun _ => .pure lasting _

theorem bind (hx : KeepsFrom R x) (hf : ∀ a, KeepsFrom R (f a)) : KeepsFrom R (x >>= f) := by
  intro c
  rw [StateT.run_bind]
  exact (hx c).bind lasting fun a => hf a.1 a.2

theorem map (h : α → β) (hx : KeepsFrom R x) : KeepsFrom R (h <$> x) := by
  rw [← bind_pure_comp]
  exact hx.bind lasting fun a => .pure lasting (h a)

theorem get : KeepsFrom R (get : StateT σ Action σ) := fun _ => .pure lasting _

theorem set (c : σ) : KeepsFrom R (set c : StateT σ Action PUnit) := fun _ => .pure lasting _

theorem modify (h : σ → σ) : KeepsFrom R (modify h : StateT σ Action PUnit) :=
  fun _ => .pure lasting _

theorem throw (cause : Cause) :
    KeepsFrom R (MonadExcept.throw (Fault.cause cause) : StateT σ Action α) :=
  .lift lasting (.throw lasting cause)

omit lasting in
theorem mono {S : Graph → Graph → Prop} (le : ∀ {g k}, R g k → S g k) (h : KeepsFrom R x) :
    KeepsFrom S x :=
  fun c => (h c).mono le

theorem mapM (each : ∀ a, KeepsFrom R (f a)) (items : List α) : KeepsFrom R (items.mapM f) := by
  induction items with
  | nil => exact .pure lasting []
  | cons a rest ih =>
    rw [List.mapM_cons]
    exact (each a).bind lasting fun b => ih.bind lasting fun out => .pure lasting (b :: out)

theorem forM {f : α → StateT σ Action PUnit} (each : ∀ a, KeepsFrom R (f a)) (items : List α) :
    KeepsFrom R (items.forM f) := by
  induction items with
  | nil => exact .pure lasting _
  | cons a rest ih => exact (each a).bind lasting fun _ => ih

omit lasting in
theorem ite {p : Prop} [Decidable p] {y : StateT σ Action α} (hx : KeepsFrom R x)
    (hy : KeepsFrom R y) : KeepsFrom R (if p then x else y) := by
  split
  · exact hx
  · exact hy

end KeepsFrom

theorem mapM_ok {α β : Type} {f : α → Action β} {P : Graph → β → Prop} {base : Graph}
    (stable : ∀ {g k b}, g.Extends k → P g b → P k b) {items : List α}
    (each : ∀ a ∈ items, ∀ g b k, base.Extends g → (f a).run g = (.ok b, k) → g.Extends k ∧ P k b)
    {g k : Graph} {out : List β} (ext : base.Extends g)
    (ran : (items.mapM f).run g = (.ok out, k)) : g.Extends k ∧ ∀ b ∈ out, P k b := by
  induction items generalizing g out with
  | nil =>
    cases ran
    exact ⟨.refl _, fun _ mem => absurd mem List.not_mem_nil⟩
  | cons a rest ih =>
    rw [List.mapM_cons] at ran
    obtain ⟨b, middle, first, ran⟩ := run_bind_eq_ok.1 ran
    obtain ⟨others, last, ran, ⟨⟩⟩ := run_bind_eq_ok.1 ran
    obtain ⟨ext₁, here⟩ := each a List.mem_cons_self g b middle ext first
    obtain ⟨ext₂, there⟩ :=
      ih (fun a mem => each a (List.mem_cons_of_mem _ mem)) (ext.trans ext₁) ran
    exact ⟨ext₁.trans ext₂, List.forall_mem_cons.2 ⟨stable ext₂ here, there⟩⟩

end Action

end Marshal
