import Marshal.Profile
import Marshal.Proofs.Registry.Pickled

namespace Marshal.Profile

open Marshal.Effect Marshal.Registry

section Reading

/-- Profiles that may come after some names: no name is met twice, and each parent comes first. -/
def Ordered : (seen : List String) → List Profile → Prop
  | _, [] => True
  | seen, p :: rest => p.name ∉ seen ∧ p.parent ∈ seen ∧ Ordered (seen ++ [p.name]) rest

theorem parent_mem {seen : List String} {name parent : String} {entry : Yaml}
    (read : parentOf seen name entry = .ok parent) (base : baseName ∈ seen) : parent ∈ seen := by
  unfold parentOf at read
  split at read
  next => cases read; exact base
  next v =>
    split at read
    next =>
      split at read
      next known => cases read; simpa using known
      next => cases read
    next =>
      obtain ⟨_, -, failed⟩ := bind_eq_ok_iff.1 read
      cases failed

theorem of_ofYaml {seen : List String} {entry : Yaml} {p : Profile}
    (read : ofYaml seen entry = .ok p) (base : baseName ∈ seen) :
    p.name ∉ seen ∧ p.parent ∈ seen := by
  unfold ofYaml at read
  dsimp only at read
  split at read
  next => cases read
  next =>
    split at read
    next => cases read
    next =>
      split at read
      next => cases read
      next unseen =>
        obtain ⟨parent, hparent, read⟩ := bind_eq_ok_iff.1 read
        obtain ⟨pickled, -, read⟩ := bind_eq_ok_iff.1 read
        cases read
        exact ⟨by simpa using unseen, parent_mem hparent base⟩

theorem ordered_of_entriesOf {seen : List String} {entries : List Yaml} {profiles : List Profile}
    (read : entriesOf seen entries = .ok profiles) (base : baseName ∈ seen) :
    Ordered seen profiles := by
  induction entries generalizing seen profiles with
  | nil => cases read; trivial
  | cons entry rest ih =>
    obtain ⟨p, first, read⟩ := bind_eq_ok_iff.1 read
    obtain ⟨more, others, read⟩ := bind_eq_ok_iff.1 read
    cases read
    obtain ⟨unseen, parent⟩ := of_ofYaml first base
    exact ⟨unseen, parent, ih others (List.mem_append_left _ base)⟩

theorem ordered_of_validate {v : Yaml} {profiles : List Profile}
    (read : validate v = .ok profiles) : Ordered [baseName] profiles := by
  unfold validate at read
  dsimp only at read
  split at read
  next => cases read
  next =>
    split at read
    next => cases read
    next =>
      split at read
      next =>
        split at read
        next => cases read
        next =>
          split at read
          next entries _ => exact ordered_of_entriesOf read List.mem_cons_self
          next => cases read
      next =>
        obtain ⟨_, -, failed⟩ := bind_eq_ok_iff.1 read
        cases failed

theorem ordered_of_parse {text : String} {profiles : List Profile}
    (read : parse text = .ok profiles) : Ordered [baseName] profiles := by
  unfold parse at read
  split at read
  next => exact ordered_of_validate read
  next => cases read

end Reading

section Deriving

variable {base parent : Registry} {pickled : List String} {notices : List Notice}

def pickleNext (parent copy : Registry) (tag : String) : Reporting Registry := do
  let some type := parent.typeForTag tag | throw (.registry (.unregisteredTag tag))
  copy.registerPickled type tag

theorem derive_eq (parent : Registry) (p : Profile) :
    derive parent p = (do
      let copy ← parent.clone { name := some p.name }
      p.pickled.foldlM (pickleNext parent) copy) := rfl

theorem pickleNext_run {copy : Registry} (h : Pickles base copy pickled)
    (faithful : base.UsesOwnCodec) (types : parent.typeForTag = base.typeForTag) {tag : String}
    (known : tag ∈ base.tags) (quiet : Quiet notices) :
    ∃ own after, (pickleNext parent copy tag).run notices = (.ok own, after) ∧
      Pickles base own (pickled ++ [tag]) ∧ own.name = copy.name ∧ Quiet after := by
  obtain ⟨type, own, after, typed, run, pickles, name, quiet⟩ :=
    h.registerPickled_run faithful known quiet
  refine ⟨own, after, ?_, pickles, name, quiet⟩
  rw [pickleNext, types, typed]
  exact run

theorem pickleNext_fails {copy : Registry} (types : parent.typeForTag = base.typeForTag)
    {tag : String} (unknown : tag ∉ base.tags) (notices : List Notice) :
    (pickleNext parent copy tag).run notices =
      (.error (.registry (.unregisteredTag tag)), notices) := by
  rw [pickleNext, types, typeForTag_of_notMem unknown]
  rfl

theorem foldlM_pickleNext_run {copy : Registry} (h : Pickles base copy pickled)
    (faithful : base.UsesOwnCodec) (types : parent.typeForTag = base.typeForTag)
    {tags : List String} (known : ∀ tag ∈ tags, tag ∈ base.tags) (quiet : Quiet notices) :
    ∃ own after, (tags.foldlM (pickleNext parent) copy).run notices = (.ok own, after) ∧
      Pickles base own (pickled ++ tags) ∧ own.name = copy.name ∧ Quiet after := by
  induction tags generalizing copy pickled notices with
  | nil => exact ⟨copy, notices, rfl, by rwa [List.append_nil], rfl, quiet⟩
  | cons tag rest ih =>
    rw [List.forall_mem_cons] at known
    obtain ⟨own₁, after₁, run₁, pickles₁, name₁, quiet₁⟩ :=
      pickleNext_run h faithful types known.1 quiet
    obtain ⟨own, after, run, pickles, name, quiet⟩ := ih pickles₁ known.2 quiet₁
    refine ⟨own, after, ?_, ?_, name.trans name₁, quiet⟩
    · rw [List.foldlM_cons, run_bind, run₁]
      exact run
    · rwa [List.append_assoc] at pickles

theorem foldlM_pickleNext_fails {copy : Registry} (h : Pickles base copy pickled)
    (faithful : base.UsesOwnCodec) (types : parent.typeForTag = base.typeForTag)
    {tags : List String} {tag : String} (unknown : tags.find? (· ∉ base.tags) = some tag)
    (quiet : Quiet notices) :
    ∃ after, (tags.foldlM (pickleNext parent) copy).run notices =
      (.error (.registry (.unregisteredTag tag)), after) ∧ Quiet after := by
  obtain ⟨absent, before, rest, rfl, known⟩ := List.find?_eq_some_iff_append.1 unknown
  obtain ⟨own, after, run, -, -, quiet⟩ :=
    foldlM_pickleNext_run h faithful types (by simpa using known) quiet
  refine ⟨after, ?_, quiet⟩
  rw [List.foldlM_append, run_bind, run]
  dsimp only
  rw [List.foldlM_cons, run_bind, pickleNext_fails types (by simpa using absent)]

theorem clone_run_quiet (h : Pickles base parent pickled) (faithful : base.UsesOwnCodec)
    (name : String) (quiet : Quiet notices) :
    ∃ copy after, (parent.clone { name := some name }).run notices = (.ok copy, after) ∧
      Pickles base copy pickled ∧ copy.name = name ∧ Quiet after := by
  refine ⟨_, _, rfl, h.copyWith faithful name, ?_, quiet.report (by simp) (by simp)⟩
  exact name_foldl_adopt _ _

theorem derive_run (h : Pickles base parent pickled) (faithful : base.UsesOwnCodec) {p : Profile}
    (known : ∀ tag ∈ p.pickled, tag ∈ base.tags) (quiet : Quiet notices) :
    ∃ own after, (derive parent p).run notices = (.ok own, after) ∧
      Pickles base own (pickled ++ p.pickled) ∧ own.name = p.name ∧ Quiet after := by
  obtain ⟨copy, after₁, run₁, pickles, name₁, quiet₁⟩ :=
    clone_run_quiet h faithful p.name quiet
  obtain ⟨own, after, run, pickles, name, quiet⟩ :=
    foldlM_pickleNext_run pickles faithful h.typeForTag known quiet₁
  refine ⟨own, after, ?_, pickles, name.trans name₁, quiet⟩
  rw [derive_eq, run_bind, run₁]
  exact run

theorem derive_fails (h : Pickles base parent pickled) (faithful : base.UsesOwnCodec) {p : Profile}
    {tag : String} (unknown : p.pickled.find? (· ∉ base.tags) = some tag)
    (quiet : Quiet notices) :
    ∃ after, (derive parent p).run notices =
      (.error (.registry (.unregisteredTag tag)), after) ∧ Quiet after := by
  obtain ⟨copy, after₁, run₁, pickles, -, quiet₁⟩ := clone_run_quiet h faithful p.name quiet
  obtain ⟨after, run, quiet⟩ :=
    foldlM_pickleNext_fails pickles faithful h.typeForTag unknown quiet₁
  refine ⟨after, ?_, quiet⟩
  rw [derive_eq, run_bind, run₁]
  exact run

end Deriving

/-- A tag is listed by a profile or by one of those it derives from. -/
inductive Listed (profiles : List Profile) (tag : String) : (name : String) → Prop where
  | own {p : Profile} (mem : p ∈ profiles) (there : tag ∈ p.pickled) : Listed profiles tag p.name
  | inherited {p : Profile} (mem : p ∈ profiles) (above : Listed profiles tag p.parent) :
    Listed profiles tag p.name

namespace Listed

variable {profiles : List Profile} {tag name : String}

theorem mono (h : Listed profiles tag name) (more : List Profile) :
    Listed (profiles ++ more) tag name := by
  induction h with
  | own mem there => exact .own (List.mem_append_left more mem) there
  | inherited mem _ ih => exact .inherited (List.mem_append_left more mem) ih

theorem of_later {p : Profile} {names : List String} (h : Listed (profiles ++ [p]) tag name)
    (parents : ∀ q ∈ profiles, q.parent ∈ names) (fresh : p.name ∉ names)
    (old : name ∈ names) : Listed profiles tag name := by
  have before : ∀ q ∈ profiles ++ [p], q.name ∈ names → q ∈ profiles := by
    intro q mem named
    rcases List.mem_append.1 mem with mem | mem
    · exact mem
    · rw [List.mem_singleton.1 mem] at named
      exact absurd named fresh
  induction h with
  | own mem there => exact .own (before _ mem old) there
  | inherited mem _ ih =>
    have earlier := before _ mem old
    exact .inherited earlier (ih (parents _ earlier))

theorem last_iff {p : Profile} {names : List String} (parents : ∀ q ∈ profiles, q.parent ∈ names)
    (named : ∀ q ∈ profiles, q.name ∈ names) (fresh : p.name ∉ names) (parent : p.parent ∈ names) :
    Listed (profiles ++ [p]) tag p.name ↔ Listed profiles tag p.parent ∨ tag ∈ p.pickled := by
  have last : ∀ q ∈ profiles ++ [p], q.name = p.name → q = p := by
    intro q mem same
    rcases List.mem_append.1 mem with mem | mem
    · exact absurd (same ▸ named q mem) fresh
    · exact List.mem_singleton.1 mem
  constructor
  · generalize same : p.name = name
    intro h
    cases h with
    | own mem there =>
      rw [last _ mem same.symm] at there
      exact .inr there
    | inherited mem above =>
      rw [last _ mem same.symm] at above
      exact .inl (above.of_later parents fresh parent)
  · rintro (above | there)
    · exact .inherited List.mem_concat_self (above.mono [p])
    · exact .own List.mem_concat_self there

end Listed

section Building

variable {base : Registry} {done : List Profile} {family : Family} {notices : List Notice}

def add (family : Family) (p : Profile) : Reporting Family := do
  let some parent := family.find? p.parent
    | throw (.error s!"Profile {p.name}: extends unknown profile {p.parent}")
  let r ← derive parent p
  report (.line .log
    s!"[Profiles] Built {p.name} from {p.parent}: {p.pickled.length} pickled tags")
  return Assoc.set family p.name r

/-- The registries of some profiles, in order, each with the tags pickled that are listed for it. -/
structure Built (base : Registry) (done : List Profile) (family : Family) : Prop where
  names : family.keys = baseName :: done.map Profile.name
  parents : ∀ p ∈ done, p.parent ∈ family.keys
  root : family.find? baseName = some base
  members : ∀ name ∈ family.keys, ∃ own pickled, family.find? name = some own ∧
    Pickles base own pickled ∧ (∀ tag, tag ∈ pickled ↔ Listed done tag name) ∧
    (name ≠ baseName → own.name = name)

theorem built_base (consistent : base.Consistent) : Built base [] [(baseName, base)] where
  names := rfl
  parents := by simp
  root := rfl
  members := by
    intro name mem
    obtain rfl := List.mem_singleton.1 mem
    refine ⟨base, [], rfl, consistent.pickles_self, fun tag => ?_, fun other => absurd rfl other⟩
    constructor
    · intro mem
      cases mem
    · generalize baseName = name
      rintro (⟨mem, -⟩ | ⟨mem, -⟩) <;> cases mem

theorem Built.named (h : Built base done family) (p : Profile) (mem : p ∈ done) :
    p.name ∈ family.keys := by
  rw [h.names]
  exact List.mem_cons_of_mem _ (List.mem_map_of_mem mem)

theorem Built.add (h : Built base done family) {p : Profile} (fresh : p.name ∉ family.keys)
    (parent : p.parent ∈ family.keys) {own : Registry} {pickled : List String}
    (pickles : Pickles base own (pickled ++ p.pickled)) (name : own.name = p.name)
    (listed : ∀ tag, tag ∈ pickled ↔ Listed done tag p.parent) :
    Built base (done ++ [p]) (family.set p.name own) := by
  have keys : Assoc.keys (family.set p.name own) = family.keys ++ [p.name] := by
    rw [Assoc.keys_set, if_neg fresh]
  have old : ∀ name ∈ family.keys,
      Assoc.find? (family.set p.name own) name = family.find? name := by
    intro name mem
    rw [Assoc.find?_set, if_neg (fun same : name = p.name => fresh (same ▸ mem))]
  refine ⟨?_, fun q mem => ?_, ?_, fun name mem => ?_⟩
  · rw [keys, h.names, List.map_append]
    rfl
  · rw [keys]
    rcases List.mem_append.1 mem with mem | mem
    · exact List.mem_append_left _ (h.parents q mem)
    · rw [List.mem_singleton.1 mem]
      exact List.mem_append_left _ parent
  · rw [old _ (h.names ▸ List.mem_cons_self), h.root]
  · rw [keys] at mem
    rcases List.mem_append.1 mem with mem | mem
    · obtain ⟨r, tags, found, derived, listed, called⟩ := h.members name mem
      refine ⟨r, tags, (old name mem).trans found, derived, fun tag => ?_, called⟩
      rw [listed]
      exact ⟨fun there => there.mono [p], fun there => there.of_later h.parents fresh mem⟩
    · obtain rfl := List.mem_singleton.1 mem
      refine ⟨own, _, ?_, pickles, fun tag => ?_, fun _ => name⟩
      · rw [Assoc.find?_set, if_pos rfl]
      · rw [Listed.last_iff h.parents h.named fresh parent, List.mem_append, listed]

theorem add_run (h : Built base done family) (faithful : base.UsesOwnCodec) {p : Profile}
    (fresh : p.name ∉ family.keys) (parent : p.parent ∈ family.keys)
    (known : ∀ tag ∈ p.pickled, tag ∈ base.tags) (quiet : Quiet notices) :
    ∃ own after, (add family p).run notices = (.ok (family.set p.name own), after) ∧
      Built base (done ++ [p]) (family.set p.name own) ∧ Quiet after := by
  obtain ⟨r, pickled, found, derived, listed, -⟩ := h.members p.parent parent
  obtain ⟨own, after, run, pickles, name, quiet⟩ := derive_run derived faithful known quiet
  obtain ⟨text, added⟩ : ∃ text, (add family p).run notices =
      (.ok (family.set p.name own), after ++ [.line .log text]) := by
    rw [Profile.add, found]
    dsimp only
    rw [run_bind, run]
    exact ⟨_, rfl⟩
  exact ⟨own, _, added, h.add fresh parent pickles name listed,
    quiet.report (by simp) (by simp)⟩

theorem add_fails (h : Built base done family) (faithful : base.UsesOwnCodec) {p : Profile}
    (parent : p.parent ∈ family.keys) {tag : String}
    (unknown : p.pickled.find? (· ∉ base.tags) = some tag) (quiet : Quiet notices) :
    ∃ after, (add family p).run notices =
      (.error (.registry (.unregisteredTag tag)), after) ∧ Quiet after := by
  obtain ⟨r, pickled, found, derived, -⟩ := h.members p.parent parent
  obtain ⟨after, run, quiet⟩ := derive_fails derived faithful unknown quiet
  refine ⟨after, ?_, quiet⟩
  rw [Profile.add, found]
  dsimp only
  rw [run_bind, run]

theorem foldlM_add_run (h : Built base done family) (faithful : base.UsesOwnCodec)
    {profiles : List Profile} (ordered : Ordered family.keys profiles)
    (known : ∀ p ∈ profiles, ∀ tag ∈ p.pickled, tag ∈ base.tags) (quiet : Quiet notices) :
    ∃ family' after, (profiles.foldlM add family).run notices = (.ok family', after) ∧
      Built base (done ++ profiles) family' ∧ family <+: family' ∧ Quiet after := by
  induction profiles generalizing done family notices with
  | nil =>
    exact ⟨family, notices, rfl, by rwa [List.append_nil], List.prefix_rfl, quiet⟩
  | cons p rest ih =>
    obtain ⟨fresh, parent, ordered⟩ := ordered
    rw [List.forall_mem_cons] at known
    obtain ⟨own, after₁, run₁, built₁, quiet₁⟩ := add_run h faithful fresh parent known.1 quiet
    have keys : Assoc.keys (family.set p.name own) = family.keys ++ [p.name] := by
      rw [Assoc.keys_set, if_neg fresh]
    obtain ⟨family', after, run, built, grown, quiet⟩ :=
      ih built₁ (keys ▸ ordered) known.2 quiet₁
    refine ⟨family', after, ?_, ?_, ?_, quiet⟩
    · rw [List.foldlM_cons, run_bind, run₁]
      exact run
    · rwa [List.append_assoc] at built
    · rw [Assoc.set_of_find?_eq_none (Assoc.find?_of_notMem_keys fresh)] at grown
      exact (List.prefix_append _ _).trans grown

theorem ordered_append {seen : List String} {before rest : List Profile}
    (h : Ordered seen (before ++ rest)) :
    Ordered seen before ∧ Ordered (seen ++ before.map Profile.name) rest := by
  induction before generalizing seen with
  | nil => exact ⟨trivial, by rwa [List.map_nil, List.append_nil]⟩
  | cons p more ih =>
    obtain ⟨fresh, parent, ordered⟩ := h
    obtain ⟨first, last⟩ := ih ordered
    refine ⟨⟨fresh, parent, first⟩, ?_⟩
    rwa [List.append_assoc] at last

theorem foldlM_add_fails (h : Built base [] family) (faithful : base.UsesOwnCodec)
    {profiles : List Profile} (ordered : Ordered family.keys profiles) {tag : String}
    (unknown : (profiles.flatMap Profile.pickled).find? (· ∉ base.tags) = some tag)
    (quiet : Quiet notices) :
    ∃ after, (profiles.foldlM add family).run notices =
      (.error (.registry (.unregisteredTag tag)), after) ∧ Quiet after := by
  rw [List.find?_flatMap, List.findSome?_eq_some_iff] at unknown
  obtain ⟨before, p, rest, rfl, unknown, known⟩ := unknown
  obtain ⟨first, -, parent, -⟩ := ordered_append ordered
  obtain ⟨family', after₁, run₁, built, -, quiet₁⟩ :=
    foldlM_add_run h faithful first (by simpa using known) quiet
  have keys : family'.keys = family.keys ++ before.map Profile.name := by
    rw [built.names, h.names]
    rfl
  obtain ⟨after, run, quiet⟩ := add_fails built faithful (keys ▸ parent) unknown quiet₁
  refine ⟨after, ?_, quiet⟩
  rw [List.foldlM_append, run_bind, run₁]
  dsimp only
  rw [List.foldlM_cons, run_bind, run]

end Building

theorem name_notMem {seen : List String} {profiles : List Profile} (h : Ordered seen profiles) :
    ∀ p ∈ profiles, p.name ∉ seen := by
  induction profiles generalizing seen with
  | nil => simp
  | cons p rest ih =>
    obtain ⟨fresh, -, ordered⟩ := h
    rw [List.forall_mem_cons]
    exact ⟨fresh, fun q mem held => ih ordered q mem (List.mem_append_left _ held)⟩

/-- The profiles of a configuration are built on any base that has their tags: in order, without a
conflict, each with the entries of the base and with the tags pickled that it or one it derives from
lists. What is built is not changed by what is built later. With a tag that the base has not, the
first such tag is the reason why nothing is built. -/
theorem build_inherits {options : Options} {calls : List Call} {base : Registry} {text : String}
    {profiles : List Profile} (reached : base = (new options).run calls)
    (accepted : parse text = .ok profiles) :
    ((∀ p ∈ profiles, ∀ tag ∈ p.pickled, tag ∈ base.tags) →
      ∃ family notices, (build base profiles).run [] = (.ok family, notices) ∧ Quiet notices ∧
        family.keys = baseName :: profiles.map Profile.name ∧
        family.find? baseName = some base ∧
        (∀ p ∈ profiles, ∃ own, family.find? p.name = some own ∧ own.name = p.name ∧
          base.Inherits own (Listed profiles · p.name)) ∧
        ∀ before after, profiles = before ++ after → ∃ family₀ notices₀,
          (build base before).run [] = (.ok family₀, notices₀) ∧ family₀ <+: family) ∧
      ∀ tag, (profiles.flatMap Profile.pickled).find? (· ∉ base.tags) = some tag →
        ∃ notices, (build base profiles).run [] =
          (.error (.registry (.unregisteredTag tag)), notices) ∧ Quiet notices := by
  have ordered := ordered_of_parse accepted
  have sound : base.Sound := reached ▸ (sound_new options).run calls
  have faithful : base.UsesOwnCodec :=
    reached ▸ (usesOwnCodec_new options).run (sound_new options) calls
  have start := built_base sound.consistent
  refine ⟨fun known => ?_,
    fun tag unknown => foldlM_add_fails start faithful ordered unknown quiet_nil⟩
  obtain ⟨family, notices, run, built, -, quiet⟩ :=
    foldlM_add_run start faithful ordered known quiet_nil
  refine ⟨family, notices, run, quiet, built.names, built.root, fun p mem => ?_, ?_⟩
  · obtain ⟨own, pickled, found, pickles, listed, name⟩ := built.members p.name (built.named p mem)
    have other : p.name ≠ baseName := fun same => name_notMem ordered p mem (by simp [same])
    exact ⟨own, found, name other, pickles.inherits faithful listed⟩
  · rintro before after rfl
    obtain ⟨first, rest⟩ := ordered_append ordered
    rw [List.forall_mem_append] at known
    obtain ⟨family₀, notices₀, run₀, built₀, -, quiet₀⟩ :=
      foldlM_add_run start faithful first known.1 quiet_nil
    have keys : family₀.keys = [baseName] ++ before.map Profile.name := built₀.names
    obtain ⟨family', notices', run', -, grown, -⟩ :=
      foldlM_add_run built₀ faithful (keys ▸ rest) known.2 quiet₀
    refine ⟨family₀, notices₀, run₀, ?_⟩
    rw [List.foldlM_append, run_bind, run₀] at run
    cases run'.symm.trans run
    exact grown

namespace Sample

open Marshal.Registry.Sample

def chain : String :=
  "version: typereg/v0\nprofiles:\n  - name: light\n    pickle: [Shape]\n" ++
    "  - name: lighter\n    extends: light\n    pickle: [Square, Shape]\n"

def light : Profile := { name := "light", pickled := ["Shape"] }

def lighter : Profile := { name := "lighter", parent := "light", pickled := ["Square", "Shape"] }

theorem chain_parsed : parse chain = .ok [light, lighter] := by
  have read : (parse chain).toOption = some [light, lighter] := by decide +kernel
  cases parsed : parse chain with
  | error why => rw [parsed] at read; cases read
  | ok profiles => rw [parsed] at read; exact congrArg Except.ok (Option.some.inj read)

def shapesOnly : List Call := [.register ⟨"Shape", some shape⟩ "Shape" plain]

/-- With both types bound, the second profile has the tag pickled that the first one lists, and one
more. With one of them missing nothing is built. -/
theorem chain_built :
    (∃ family notices own, (build ((new {}).run bindings) [light, lighter]).run [] =
        (.ok family, notices) ∧ Quiet notices ∧
      family.keys = ["default", "light", "lighter"] ∧ family.find? "lighter" = some own ∧
      ((new {}).run bindings).Inherits own (Listed [light, lighter] · "lighter")) ∧
    ∃ notices, (build ((new {}).run shapesOnly) [light, lighter]).run [] =
      (.error (.registry (.unregisteredTag "Square")), notices) := by
  have known : ∀ p ∈ [light, lighter], ∀ tag ∈ p.pickled, tag ∈ ((new {}).run bindings).tags := by
    decide
  obtain ⟨family, notices, run, quiet, keys, -, members, -⟩ :=
    (build_inherits rfl chain_parsed).1 known
  obtain ⟨own, found, -, inherits⟩ := members lighter (by simp)
  have unknown : ([light, lighter].flatMap pickled).find?
      (· ∉ ((new {}).run shapesOnly).tags) = some "Square" := by
    decide
  obtain ⟨notices', failed, -⟩ := (build_inherits rfl chain_parsed).2 "Square" unknown
  exact ⟨⟨family, notices, own, run, quiet, keys, found, inherits⟩, notices', failed⟩

end Sample

end Marshal.Profile
