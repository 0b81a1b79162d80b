import Mathlib.Data.List.Nodup
import Mathlib.Logic.Relation
import Marshal.Proofs.Profile

namespace Marshal.Profile

open Marshal.Effect

/-- What is asked of a configuration, and what is raised where it is not so. -/
structure Check where
  holds : Prop
  error : ProfileError

/-- The error is that of the first check that does not hold. -/
inductive FirstFailure : List Check → ProfileError → Prop where
  | here {c : Check} (broken : ¬ c.holds) (rest : List Check) : FirstFailure (c :: rest) c.error
  | later {c : Check} {rest : List Check} {e : ProfileError} (kept : c.holds)
    (next : FirstFailure rest e) : FirstFailure (c :: rest) e

namespace FirstFailure

variable {checks more : List Check} {e e' : ProfileError}

theorem not_all (h : FirstFailure checks e) : ¬ ∀ c ∈ checks, c.holds := by
  induction h with
  | here broken => exact fun all => broken (all _ List.mem_cons_self)
  | later _ _ ih => exact fun all => ih fun c mem => all c (List.mem_cons_of_mem _ mem)

theorem exists_of_not_all (broken : ¬ ∀ c ∈ checks, c.holds) : ∃ e, FirstFailure checks e := by
  induction checks with
  | nil => exact absurd (fun c mem => absurd mem List.not_mem_nil) broken
  | cons c rest ih =>
    by_cases kept : c.holds
    · obtain ⟨e, next⟩ := ih fun all => broken (List.forall_mem_cons.2 ⟨kept, all⟩)
      exact ⟨e, .later kept next⟩
    · exact ⟨c.error, .here kept rest⟩

theorem append_right (h : FirstFailure checks e) (more : List Check) :
    FirstFailure (checks ++ more) e := by
  induction h with
  | here broken rest => exact .here broken (rest ++ more)
  | later kept _ ih => exact .later kept ih

theorem append_left (all : ∀ c ∈ checks, c.holds) (h : FirstFailure more e) :
    FirstFailure (checks ++ more) e := by
  induction checks with
  | nil => exact h
  | cons c rest ih =>
    obtain ⟨kept, all⟩ := List.forall_mem_cons.1 all
    exact .later kept (ih all)

theorem unique (h : FirstFailure checks e) (h' : FirstFailure checks e') : e = e' := by
  induction h with
  | here broken =>
    cases h' with
    | here => rfl
    | later kept => exact absurd kept broken
  | later kept _ ih =>
    cases h' with
    | here broken => exact absurd kept broken
    | later _ next => exact ih next

end FirstFailure

/-- A computation that returns if all checks hold, and raises the error of the first one that does
not. -/
structure Follows {α : Type} (x : Except ProfileError α) (checks : List Check) : Prop where
  returns : (∀ c ∈ checks, c.holds) → ∃ a, x = .ok a
  fails : ∀ e, FirstFailure checks e → x = .error e

namespace Follows

variable {α β : Type} {x : Except ProfileError α} {f : α → Except ProfileError β}
  {checks more : List Check} {e : ProfileError}

theorem error_iff (h : Follows x checks) : x = .error e ↔ FirstFailure checks e := by
  refine ⟨fun failed => ?_, h.fails e⟩
  have broken : ¬ ∀ c ∈ checks, c.holds := fun all => by
    obtain ⟨a, returned⟩ := h.returns all
    cases failed.symm.trans returned
  obtain ⟨e', first⟩ := FirstFailure.exists_of_not_all broken
  cases failed.symm.trans (h.fails e' first)
  exact first

theorem all_of_ok {a : α} (h : Follows x checks) (returned : x = .ok a) :
    ∀ c ∈ checks, c.holds := by
  by_contra broken
  obtain ⟨e, first⟩ := FirstFailure.exists_of_not_all broken
  cases returned.symm.trans (h.fails e first)

theorem ok (a : α) : Follows (.ok a : Except ProfileError α) [] := ⟨fun _ => ⟨a, rfl⟩, nofun⟩

theorem refused {P : Prop} (broken : ¬ P) (failed : x = .error e) (rest : List Check) :
    Follows x (⟨P, e⟩ :: rest) := by
  refine ⟨fun all => absurd (List.forall_mem_cons.1 all).1 broken, fun e' first => ?_⟩
  cases first with
  | here => exact failed
  | later kept => exact absurd kept broken

theorem one {P : Prop} (returns : P → ∃ a, x = .ok a) (fails : ¬ P → x = .error e) :
    Follows x [⟨P, e⟩] := by
  by_cases kept : P
  · refine ⟨fun _ => returns kept, fun e' first => ?_⟩
    cases first with
    | here broken => exact absurd kept broken
    | later _ next => cases next
  · exact .refused kept (fails kept) []

theorem bind (hx : Follows x checks) (hf : ∀ a, x = .ok a → Follows (f a) more) :
    Follows (x >>= f) (checks ++ more) := by
  cases run : x with
  | ok a =>
    have kept := hx.all_of_ok run
    refine ⟨fun all => (hf a run).returns fun c mem => all c (List.mem_append_right _ mem),
      fun e first => ?_⟩
    rcases Classical.em (∀ c ∈ more, c.holds) with all | broken
    · exact absurd (List.forall_mem_append.2 ⟨kept, all⟩) first.not_all
    · obtain ⟨e', next⟩ := FirstFailure.exists_of_not_all broken
      rw [first.unique (next.append_left kept)]
      exact (hf a run).fails e' next
  | error e' =>
    have first := hx.error_iff.1 run
    refine ⟨fun all => absurd (List.forall_mem_append.1 all).1 first.not_all, fun e whole => ?_⟩
    rw [whole.unique (first.append_right more)]
    rfl

theorem guard {refused : Bool} {P : Prop} (test : refused = false ↔ P)
    (rest : P → Follows x checks) :
    Follows (if refused = true then throw e else x) (⟨P, e⟩ :: checks) := by
  cases refused with
  | false =>
    have passed := test.1 rfl
    refine ⟨fun all => (rest passed).returns (List.forall_mem_cons.1 all).2, fun e' first => ?_⟩
    cases first with
    | here broken => exact absurd passed broken
    | later _ next => exact (rest passed).fails e' next
  | true => exact .refused (fun passed => Bool.noConfusion (test.2 passed)) rfl checks

end Follows

/-- The error that shows a value. A value that has no text cannot be shown, and this is what is
raised in its place then. -/
def refusal (shown : String → ProfileError) (v : Yaml) : ProfileError :=
  (v.shown?.map shown).getD .noText

def nameOf (entry : Yaml) : String := ((entry.field "name").bind Yaml.text?).getD ""

/-- What is asked of an entry after some names, the name of the base among them. -/
def entryChecks (seen : List String) (entry : Yaml) : List Check :=
  [⟨entry.isMapping = true, .entryNotMapping⟩,
    ⟨∃ name, entry.field "name" = some (.text name) ∧ name ≠ "", .noName⟩,
    ⟨nameOf entry ∉ seen, .duplicateName (nameOf entry)⟩,
    ⟨∀ v, Yaml.given (entry.field "extends") = some v → ∃ parent ∈ seen, v = .text parent,
      refusal (.unknownParent (nameOf entry)) ((entry.field "extends").getD .null)⟩,
    ⟨∀ v, Yaml.given (entry.field "pickle") = some v → ∃ tags : List String,
      v = .list (tags.map .text), .badTags (nameOf entry)⟩]

/-- What is asked of entries in order, each after the names of those before it. -/
def entriesChecks : (seen : List String) → List Yaml → List Check
  | _, [] => []
  | seen, entry :: rest => entryChecks seen entry ++ entriesChecks (seen ++ [nameOf entry]) rest

def checks (v : Yaml) : List Check :=
  [⟨v.isMapping = true, .notMapping⟩,
    ⟨((v.field "version").getD .null).isVoid = false, .noVersion⟩,
    ⟨v.field "version" = some (.text version),
      refusal .unknownVersion ((v.field "version").getD .null)⟩,
    ⟨∃ entries, v.field "profiles" = some (.list entries), .noProfiles⟩] ++
    match v.field "profiles" with
    | some (.list entries) => entriesChecks [baseName] entries
    | _ => []

/-- An entry after some names describes the profile: its name is a new text that is not empty, its
parent is one of those names, the base unless it says otherwise, and what it pickles is a list of
tags, of none unless it says otherwise. -/
structure Describes (seen : List String) (entry : Yaml) (p : Profile) : Prop where
  mapping : entry.isMapping = true
  name : entry.field "name" = some (.text p.name)
  named : p.name ≠ ""
  fresh : p.name ∉ seen
  parent : Yaml.given (entry.field "extends") = none ∧ p.parent = baseName ∨
    entry.field "extends" = some (.text p.parent) ∧ p.parent ∈ seen
  pickled : Yaml.given (entry.field "pickle") = none ∧ p.pickled = [] ∨
    entry.field "pickle" = some (.list (p.pickled.map .text))

/-- Entries describe profiles one by one, each after the names of those before it. -/
inductive DescribesAll : (seen : List String) → List Yaml → List Profile → Prop where
  | nil (seen : List String) : DescribesAll seen [] []
  | cons {seen : List String} {entry : Yaml} {p : Profile} {rest : List Yaml}
    {profiles : List Profile} (first : Describes seen entry p)
    (others : DescribesAll (seen ++ [p.name]) rest profiles) :
    DescribesAll seen (entry :: rest) (p :: profiles)

/-- A configuration in the language of profiles, with the profiles it lists. -/
structure Lists (v : Yaml) (profiles : List Profile) : Prop where
  mapping : v.isMapping = true
  version : v.field "version" = some (.text version)
  entries : ∃ entries, v.field "profiles" = some (.list entries) ∧
    DescribesAll [baseName] entries profiles

section Entries

variable {seen : List String} {entry : Yaml} {name : String} {p : Profile}

theorem throw_shown (error : String → ProfileError) (v : Yaml) :
    (do throw (error (← shown v)) : Except ProfileError String) = .error (refusal error v) := by
  rw [shown, refusal]
  cases v.shown? <;> rfl

theorem mapM_text?_eq_some_iff {items : List Yaml} {tags : List String} :
    items.mapM Yaml.text? = some tags ↔ items = tags.map .text := by
  induction items generalizing tags with
  | nil => cases tags <;> simp
  | cons item rest ih =>
    have text (s : String) : item.text? = some s ↔ item = .text s := by
      cases item <;> simp [Yaml.text?]
    rw [List.mapM_cons]
    simp only [Option.bind_eq_bind, Option.bind_eq_some_iff, Option.pure_def, Option.some.injEq, ih]
    constructor
    · rintro ⟨s, first, others, rfl, rfl⟩
      rw [(text s).1 first, List.map_cons]
    · intro same
      cases tags with
      | nil => cases same
      | cons s others =>
        obtain ⟨rfl, rfl⟩ := List.cons.inj same
        exact ⟨s, rfl, others, rfl, rfl⟩

theorem given_eq_some_iff {v : Option Yaml} {w : Yaml} :
    Yaml.given v = some w ↔ v = some w ∧ w ≠ .null := by
  rw [Yaml.given.eq_def]
  split
  next =>
    constructor
    · nofun
    · rintro ⟨same, other⟩
      exact absurd (Option.some.inj same).symm other
  next other =>
    refine ⟨fun same => ⟨same, ?_⟩, And.left⟩
    rintro rfl
    exact other same

theorem follows_parentOf : Follows (parentOf seen name entry)
    [⟨∀ v, Yaml.given (entry.field "extends") = some v → ∃ parent ∈ seen, v = .text parent,
      refusal (.unknownParent name) ((entry.field "extends").getD .null)⟩] := by
  unfold parentOf
  cases said : Yaml.given (entry.field "extends") with
  | none => exact .one (fun _ => ⟨_, rfl⟩) fun broken => absurd nofun broken
  | some v =>
    rw [(given_eq_some_iff.1 said).1, Option.getD_some]
    cases v with
    | text parent =>
      dsimp only
      rw [refusal, Yaml.shown?]
      by_cases known : parent ∈ seen
      · rw [if_pos (List.contains_iff_mem.2 known)]
        refine .one (fun _ => ⟨_, rfl⟩) fun broken => absurd ?_ broken
        rintro _ ⟨⟩
        exact ⟨parent, known, rfl⟩
      · rw [if_neg (mt List.contains_iff_mem.1 known)]
        refine .one (fun kept => ?_) fun _ => rfl
        obtain ⟨parent', known', same⟩ := kept _ rfl
        cases same
        exact absurd known' known
    | _ =>
      dsimp only
      rw [throw_shown]
      refine .one (fun kept => ?_) fun _ => rfl
      obtain ⟨parent', -, same⟩ := kept _ rfl
      cases same

theorem follows_tagsOf : Follows (tagsOf name entry)
    [⟨∀ v, Yaml.given (entry.field "pickle") = some v → ∃ tags : List String,
      v = .list (tags.map .text), .badTags name⟩] := by
  unfold tagsOf
  cases said : Yaml.given (entry.field "pickle") with
  | none => exact .one (fun _ => ⟨_, rfl⟩) fun broken => absurd nofun broken
  | some v =>
    cases v with
    | list items =>
      dsimp only
      cases read : items.mapM Yaml.text? with
      | some tags =>
        refine .one (fun _ => ⟨_, rfl⟩) fun broken => absurd ?_ broken
        rintro _ ⟨⟩
        exact ⟨tags, congrArg Yaml.list (mapM_text?_eq_some_iff.1 read)⟩
      | none =>
        refine .one (fun kept => ?_) fun _ => rfl
        obtain ⟨tags, same⟩ := kept _ rfl
        cases read.symm.trans (mapM_text?_eq_some_iff.2 (Yaml.list.inj same))
    | _ =>
      refine .one (fun kept => ?_) fun _ => rfl
      obtain ⟨tags, same⟩ := kept _ rfl
      cases same

theorem nameOf_eq_iff (named : name ≠ "") :
    nameOf entry = name ↔ entry.field "name" = some (.text name) := by
  unfold nameOf
  cases entry.field "name" with
  | none => simp [Ne.symm named]
  | some v => cases v <;> simp [Yaml.text?, Ne.symm named]

theorem isEmpty_nameOf_eq_false_iff : (nameOf entry).isEmpty = false ↔
    ∃ name, entry.field "name" = some (.text name) ∧ name ≠ "" := by
  rw [← Bool.not_eq_true, String.isEmpty_iff]
  constructor
  · exact fun named => ⟨_, (nameOf_eq_iff named).1 rfl, named⟩
  · rintro ⟨name, said, named⟩
    rwa [(nameOf_eq_iff named).2 said]

theorem follows_ofYaml : Follows (ofYaml seen entry) (entryChecks seen entry) := by
  unfold ofYaml entryChecks
  refine .guard (by simp) fun _ => .guard isEmpty_nameOf_eq_false_iff fun _ =>
    .guard (by rw [← Bool.not_eq_true, List.contains_iff_mem]; rfl) fun _ => ?_
  exact follows_parentOf.bind fun parent _ => follows_tagsOf.bind fun pickled _ => .ok _

theorem parentOf_eq_ok_iff {parent : String} : parentOf seen name entry = .ok parent ↔
    Yaml.given (entry.field "extends") = none ∧ parent = baseName ∨
      entry.field "extends" = some (.text parent) ∧ parent ∈ seen := by
  constructor
  · intro read
    have kept := follows_parentOf.all_of_ok read
    unfold parentOf at read
    cases said : Yaml.given (entry.field "extends") with
    | none =>
      rw [said] at read
      cases read
      exact .inl ⟨rfl, rfl⟩
    | some v =>
      obtain ⟨parent', known, rfl⟩ := kept _ List.mem_cons_self v said
      rw [said] at read
      dsimp only at read
      rw [if_pos (List.contains_iff_mem.2 known)] at read
      cases read
      exact .inr ⟨(given_eq_some_iff.1 said).1, known⟩
  · rintro (⟨said, rfl⟩ | ⟨said, known⟩)
    · rw [parentOf, said]
    · rw [parentOf, said]
      exact if_pos (List.contains_iff_mem.2 known)

theorem tagsOf_eq_ok_iff {tags : List String} : tagsOf name entry = .ok tags ↔
    Yaml.given (entry.field "pickle") = none ∧ tags = [] ∨
      entry.field "pickle" = some (.list (tags.map .text)) := by
  have text (tags : List String) : (tags.map Yaml.text).mapM Yaml.text? = some tags :=
    mapM_text?_eq_some_iff.2 rfl
  constructor
  · intro read
    have kept := follows_tagsOf.all_of_ok read
    unfold tagsOf at read
    cases said : Yaml.given (entry.field "pickle") with
    | none =>
      rw [said] at read
      cases read
      exact .inl ⟨rfl, rfl⟩
    | some v =>
      obtain ⟨tags', rfl⟩ := kept _ List.mem_cons_self v said
      rw [said] at read
      dsimp only at read
      rw [text] at read
      cases read
      exact .inr (given_eq_some_iff.1 said).1
  · rintro (⟨said, rfl⟩ | said)
    · rw [tagsOf, said]
    · rw [tagsOf, said]
      dsimp only [Yaml.given]
      rw [text]

theorem ofYaml_eq (mapping : entry.isMapping = true) (named : nameOf entry ≠ "")
    (fresh : nameOf entry ∉ seen) : ofYaml seen entry = (do
      let parent ← parentOf seen (nameOf entry) entry
      let pickled ← tagsOf (nameOf entry) entry
      return { name := nameOf entry, parent, pickled }) := by
  have said : ((entry.field "name").bind Yaml.text?).getD "" = nameOf entry := rfl
  have known : (nameOf entry).isEmpty = false := by
    rwa [← Bool.not_eq_true, String.isEmpty_iff]
  have unseen : seen.contains (nameOf entry) = false := by
    rwa [← Bool.not_eq_true, List.contains_iff_mem]
  unfold ofYaml
  dsimp only
  rw [mapping, said, known, unseen]
  rfl

theorem ofYaml_eq_ok_iff : ofYaml seen entry = .ok p ↔ Describes seen entry p := by
  constructor
  · intro read
    have kept := follows_ofYaml.all_of_ok read
    simp only [entryChecks, List.forall_mem_cons] at kept
    obtain ⟨mapping, ⟨name, said, named⟩, fresh, -⟩ := kept
    have called := (nameOf_eq_iff named).2 said
    rw [ofYaml_eq mapping (called ▸ named) fresh, called] at read
    obtain ⟨parent, hparent, read⟩ := bind_eq_ok_iff.1 read
    obtain ⟨pickled, hpickled, read⟩ := bind_eq_ok_iff.1 read
    cases read
    exact ⟨mapping, said, named, called ▸ fresh, parentOf_eq_ok_iff.1 hparent,
      tagsOf_eq_ok_iff.1 hpickled⟩
  · intro h
    have said := (nameOf_eq_iff h.named).2 h.name
    rw [ofYaml_eq h.mapping (said ▸ h.named) (said ▸ h.fresh), said]
    refine bind_eq_ok_iff.2 ⟨p.parent, parentOf_eq_ok_iff.2 h.parent, ?_⟩
    exact bind_eq_ok_iff.2 ⟨p.pickled, tagsOf_eq_ok_iff.2 h.pickled, rfl⟩

end Entries

section Configurations

variable {seen : List String} {entries : List Yaml} {profiles : List Profile} {v : Yaml}

theorem follows_entriesOf : Follows (entriesOf seen entries) (entriesChecks seen entries) := by
  induction entries generalizing seen with
  | nil => exact .ok []
  | cons entry rest ih =>
    refine follows_ofYaml.bind fun p read => ?_
    have described := ofYaml_eq_ok_iff.1 read
    rw [(nameOf_eq_iff described.named).2 described.name, ← List.append_nil (entriesChecks _ rest)]
    exact ih.bind fun others _ => .ok (p :: others)

theorem entriesOf_eq_ok_iff : entriesOf seen entries = .ok profiles ↔
    DescribesAll seen entries profiles := by
  constructor
  · intro read
    induction entries generalizing seen profiles with
    | nil =>
      cases read
      exact .nil seen
    | cons entry rest ih =>
      obtain ⟨p, first, read⟩ := bind_eq_ok_iff.1 read
      obtain ⟨others, more, read⟩ := bind_eq_ok_iff.1 read
      cases read
      exact .cons (ofYaml_eq_ok_iff.1 first) (ih more)
  · intro h
    induction h with
    | nil => rfl
    | cons first _ ih =>
      exact bind_eq_ok_iff.2 ⟨_, ofYaml_eq_ok_iff.2 first, bind_eq_ok_iff.2 ⟨_, ih, rfl⟩⟩

/-- What a configuration gives in the place of its entries. -/
def profilesOf (v : Yaml) : Except ProfileError (List Profile) :=
  match v.field "profiles" with
  | some (.list entries) => entriesOf [baseName] entries
  | _ => throw .noProfiles

theorem follows_profilesOf : Follows (profilesOf v)
    (⟨∃ entries, v.field "profiles" = some (.list entries), .noProfiles⟩ ::
      match v.field "profiles" with
      | some (.list entries) => entriesChecks [baseName] entries
      | _ => []) := by
  unfold profilesOf
  split
  next entries found =>
    refine ⟨fun all => follows_entriesOf.returns (List.forall_mem_cons.1 all).2, fun e first => ?_⟩
    cases first with
    | here broken => exact absurd ⟨entries, found⟩ broken
    | later _ next => exact follows_entriesOf.fails e next
  next other => exact .refused (fun ⟨entries, found⟩ => other entries found) rfl _

theorem validate_eq (mapping : v.isMapping = true)
    (said : v.field "version" = some (.text version)) :
    validate v = profilesOf v := by
  unfold validate
  dsimp only
  rw [mapping, said]
  rfl

theorem follows_validate : Follows (validate v) (checks v) := by
  unfold validate checks
  refine .guard (by simp) fun _ => .guard Iff.rfl fun given => ?_
  cases said : v.field "version" with
  | none =>
    rw [said] at given
    cases given
  | some w =>
    cases w with
    | text s =>
      refine .guard ?_ fun _ => follows_profilesOf
      rw [bne_eq_false_iff_eq, Option.some.injEq, Yaml.text.injEq]
    | _ =>
      refine .refused (by simp) ?_ _
      rw [Option.getD_some]
      dsimp only
      rw [shown, refusal]
      cases Yaml.shown? _ <;> rfl

theorem validate_eq_ok_iff : validate v = .ok profiles ↔ Lists v profiles := by
  constructor
  · intro read
    have kept := follows_validate.all_of_ok read
    simp only [checks, List.forall_mem_append, List.forall_mem_cons] at kept
    obtain ⟨⟨mapping, -, said, ⟨entries, found⟩, -⟩, -⟩ := kept
    rw [validate_eq mapping said, profilesOf, found] at read
    exact ⟨mapping, said, entries, found, entriesOf_eq_ok_iff.1 read⟩
  · rintro ⟨mapping, said, entries, found, described⟩
    rw [validate_eq mapping said, profilesOf, found]
    exact entriesOf_eq_ok_iff.2 described

end Configurations

/-- A profile of the first name derives from what has the second name. -/
def Derives (profiles : List Profile) (child parent : String) : Prop :=
  ∃ p ∈ profiles, p.name = child ∧ p.parent = parent

/-- Profiles that derive from the base or from one before them, each from one only. Whatever they
derive from, they do in the end from the base, and none from itself. -/
structure Forest (profiles : List Profile) : Prop where
  backward : ∀ (i : Nat) (p : Profile), profiles[i]? = some p → p.parent = baseName ∨
    ∃ j < i, ∃ q : Profile, profiles[j]? = some q ∧ q.name = p.parent
  oneParent : ∀ child parent parent', Derives profiles child parent →
    Derives profiles child parent' → parent = parent'
  root : ∀ parent, ¬ Derives profiles baseName parent
  rooted : ∀ p ∈ profiles, Relation.TransGen (Derives profiles) p.name baseName
  acyclic : ∀ name, ¬ Relation.TransGen (Derives profiles) name name

section Links

variable {seen : List String} {profiles : List Profile}

theorem Ordered.nodup (h : Ordered seen profiles) : (profiles.map Profile.name).Nodup := by
  induction profiles generalizing seen with
  | nil => exact List.nodup_nil
  | cons p rest ih =>
    obtain ⟨-, -, ordered⟩ := h
    refine List.nodup_cons.2 ⟨fun mem => ?_, ih ordered⟩
    obtain ⟨q, mem, same⟩ := List.mem_map.1 mem
    exact name_notMem ordered q mem (same ▸ List.mem_concat_self)

theorem Ordered.before (h : Ordered seen profiles) {i : Nat} {p : Profile}
    (there : profiles[i]? = some p) :
    p.name ∉ seen ++ (profiles.take i).map Profile.name ∧
      p.parent ∈ seen ++ (profiles.take i).map Profile.name := by
  obtain ⟨inside, rfl⟩ := List.getElem?_eq_some_iff.1 there
  have split : profiles.take i ++ profiles[i] :: profiles.drop (i + 1) = profiles := by
    rw [← List.drop_eq_getElem_cons inside, List.take_append_drop]
  rw [← split] at h
  obtain ⟨-, fresh, parent, -⟩ := ordered_append h
  exact ⟨fresh, parent⟩

/-- How early a name is met, the base first. -/
def rank (profiles : List Profile) (name : String) : Nat :=
  (baseName :: profiles.map Profile.name).idxOf name

theorem rank_lt (h : Ordered [baseName] profiles) {child parent : String}
    (link : Derives profiles child parent) : rank profiles parent < rank profiles child := by
  obtain ⟨p, mem, rfl, rfl⟩ := link
  obtain ⟨i, there⟩ := List.getElem?_of_mem mem
  obtain ⟨fresh, parent⟩ := h.before there
  have before : [baseName] ++ (profiles.take i).map Profile.name =
      (baseName :: profiles.map Profile.name).take (i + 1) := by
    rw [List.take_succ_cons, List.map_take]
    rfl
  rw [before] at fresh parent
  have named : p.name ∈ baseName :: profiles.map Profile.name :=
    List.mem_cons_of_mem _ (List.mem_map_of_mem mem)
  have early := (List.mem_take_iff_idxOf_lt (List.mem_of_mem_take parent)).1 parent
  exact Nat.lt_of_lt_of_le early (Nat.not_lt.1 (mt (List.mem_take_iff_idxOf_lt named).2 fresh))

theorem forest_of_ordered (h : Ordered [baseName] profiles) : Forest profiles := by
  have backward : ∀ (i : Nat) (p : Profile), profiles[i]? = some p → p.parent = baseName ∨
      ∃ j < i, ∃ q : Profile, profiles[j]? = some q ∧ q.name = p.parent := by
    intro i p there
    refine (List.mem_cons.1 (h.before there).2).imp_right fun mem => ?_
    obtain ⟨q, mem, named⟩ := List.mem_map.1 mem
    obtain ⟨j, found⟩ := List.getElem?_of_mem mem
    rw [List.getElem?_take] at found
    split at found
    next less => exact ⟨j, less, q, found, named⟩
    next => cases found
  refine ⟨backward, ?_, ?_, ?_, ?_⟩
  · rintro child _ _ ⟨p, mem, rfl, rfl⟩ ⟨q, mem', same, rfl⟩
    rw [List.inj_on_of_nodup_map h.nodup mem' mem same]
  · rintro parent ⟨p, mem, named, -⟩
    exact name_notMem h p mem (named ▸ List.mem_cons_self)
  · intro p mem
    obtain ⟨i, there⟩ := List.getElem?_of_mem mem
    induction i using Nat.strongRecOn generalizing p with
    | _ i ih =>
      rcases backward i p there with base | ⟨j, less, q, found, named⟩
      · exact .single ⟨p, mem, rfl, base⟩
      · exact .head ⟨p, mem, rfl, named.symm⟩ (ih j less q (List.mem_of_getElem? found) found)
  · intro name cycle
    have descends : ∀ a b, Relation.TransGen (Derives profiles) a b →
        rank profiles b < rank profiles a := by
      intro a b path
      induction path with
      | single link => exact rank_lt h link
      | tail _ link ih => exact Nat.lt_trans (rank_lt h link) ih
    exact Nat.lt_irrefl _ (descends name name cycle)

end Links

/-- What is accepted is the language of profiles, and what is returned are the profiles that are
listed, which form a forest over the base. Anything else is refused with the error of the first
check, entry by entry, that does not hold. Only if that error would show a value without a text it
is not the error of the check that is raised. -/
theorem validate_decides_language (v : Yaml) :
    (∀ profiles, validate v = .ok profiles ↔ Lists v profiles) ∧
      (∀ e, validate v = .error e ↔ FirstFailure (checks v) e) ∧
      ∀ profiles, validate v = .ok profiles → Forest profiles :=
  ⟨fun _ => validate_eq_ok_iff, fun _ => follows_validate.error_iff,
    fun _ read => forest_of_ordered (ordered_of_validate read)⟩

namespace Sample

def configuration (entries : List Yaml) : Yaml :=
  .mapping [("version", .text "typereg/v0"), ("profiles", .list entries)]

def lightEntry : Yaml := .mapping [("name", .text "light"), ("pickle", .list [.text "Shape"])]

def lighterEntry : Yaml :=
  .mapping [("name", .text "lighter"), ("extends", .text "light"),
    ("pickle", .list [.text "Square", .text "Shape"])]

/-- A profile may derive from one before it. In the other order its parent is not known yet. -/
theorem language_of_chain :
    Lists (configuration [lightEntry, lighterEntry]) [light, lighter] ∧
      Forest [light, lighter] ∧
      FirstFailure (checks (configuration [lighterEntry, lightEntry]))
        (.unknownParent "lighter" "light") := by
  have read : validate (configuration [lightEntry, lighterEntry]) = .ok [light, lighter] := rfl
  have failed : validate (configuration [lighterEntry, lightEntry]) =
    .error (.unknownParent "lighter" "light") := rfl
  obtain ⟨lists, -, forest⟩ := validate_decides_language (configuration [lightEntry, lighterEntry])
  obtain ⟨-, first, -⟩ := validate_decides_language (configuration [lighterEntry, lightEntry])
  exact ⟨(lists _).1 read, forest _ read, (first _).1 failed⟩

def versionInMapping : String := "version:\n  v: v0\nprofiles: []\n"

def versionWithoutText : String := "version:\n  toString: v0\nprofiles: []\n"

/-- A version that is no text is not reported as unknown if it is a mapping that has no text itself:
what is raised then comes from showing it. Any other mapping is reported. -/
theorem version_not_reported :
    parse versionInMapping = .error (.unknownVersion "[object Object]") ∧
      parse versionWithoutText = .error .noText ∧
      ∀ shown, parse versionWithoutText ≠ .error (.unknownVersion shown) := by
  have raised (text : String) (e : ProfileError)
      (run : (match parse text with
        | .ok _ => none
        | .error e => some e) = some e) : parse text = .error e := by
    cases read : parse text with
    | ok profiles => rw [read] at run; cases run
    | error e' => rw [read] at run; exact congrArg Except.error (Option.some.inj run)
  have failed := raised versionWithoutText .noText (by decide +kernel)
  refine ⟨raised _ _ (by decide +kernel), failed, fun shown reported => ?_⟩
  cases failed.symm.trans reported

end Sample

end Marshal.Profile
