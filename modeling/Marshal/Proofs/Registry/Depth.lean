import Marshal.Proofs.Registry.Endless
import Marshal.Proofs.Registry.Read

namespace Marshal

namespace Tree

/-- No node of a tree, which stands at the given depth, is past a limit on depth. -/
def Fits (limit : Number) (depth : Nat) (t : Tree) : Prop :=
  ∀ d u, t.Has d u → u.isNode = true → limit.exceededBy (depth + d) = false

theorem fits_of_not_isNode {limit : Number} {depth : Nat} {t : Tree} (empty : t.slots = [])
    (inner : t.isNode = false) : t.Fits limit depth := by
  intro d u has node
  cases has with
  | root =>
    rw [inner] at node
    cases node
  | slot mem _ =>
    rw [empty] at mem
    cases mem

theorem fits_iff_of_isNode {limit : Number} {depth : Nat} {t : Tree} (node : t.isNode = true) :
    t.Fits limit depth ↔
      limit.exceededBy depth = false ∧ ∀ u ∈ t.slots, u.Fits limit (depth + 1) := by
  constructor
  · intro h
    refine ⟨h 0 t (.root t) node, fun u mem d n below inner => ?_⟩
    rw [Nat.add_assoc, Nat.add_comm 1]
    exact h (d + 1) n (.slot mem below) inner
  · rintro ⟨root, slots⟩ d u has inner
    cases has with
    | root => exact root
    | @slot t w n d mem below =>
      have := slots w mem d u below inner
      rwa [Nat.add_assoc, Nat.add_comm 1] at this

/-- No node is deeper than the limit; the root is at depth zero. -/
def NoDeeper (limit : ℚ) (t : Tree) : Prop :=
  ∀ d u, t.Has d u → u.isNode = true → (d : ℚ) ≤ limit

theorem noDeeper_iff_fits {x : Number} (finite : x.isFinite = true) {t : Tree} :
    t.NoDeeper x.value ↔ t.Fits x 0 := by
  unfold NoDeeper Fits
  have each (d : Nat) : (d : ℚ) ≤ x.value ↔ x.exceededBy (0 + d) = false := by
    rw [Nat.zero_add, Bool.eq_false_iff, ne_eq, Number.exceededBy_iff finite, not_lt]
  simp only [each]

end Tree

namespace Registry

open Marshal.Effect
open Marshal.Step

/-- The same bindings and settings, up to the limit on depth and the classes that were met. -/
def SameButDepth (r r' : Registry) : Prop :=
  ({ r with maxDepth := r'.maxDepth } : Registry).forget = r'.forget

namespace SameButDepth

variable {r r' : Registry} (h : r.SameButDepth r')

include h

theorem entryFor_eq : r'.entryFor = r.entryFor := (congrArg Registry.entryFor h.symm :)

theorem entryForTag?_eq : r'.entryForTag? = r.entryForTag? :=
  (congrArg Registry.entryForTag? h.symm :)

theorem happens {visit : Visit} (happens : visit.Happens r') : visit.Happens r :=
  ⟨h.entryFor_eq ▸ happens.entry, happens.run⟩

end SameButDepth

variable {r r' : Registry} {fits fits' : Prop} {α β : Type} {a : α} {b : β} {middle last : Graph}
  {s : Scene}

/-- The step gives `a` and leaves the graph `last` if what it works on fits the limit on depth;
otherwise it fails with that limit. -/
structure Bounded (r : Registry) (fits : Prop) (a : α) (last : Graph) (s : Scene) (x : Step α) :
    Prop where
  ok : fits → ∃ registry, registry.Alike r ∧ x.run s = (.ok a, { s with registry, graph := last })
  error : ¬ fits → ∃ after, x.run s = (.error (.registry (.depthExceeded r.maxDepth)), after)

namespace Bounded

theorem of_iff {x : Step α} (h : Bounded r fits a last s x) (same : fits' ↔ fits) :
    Bounded r fits' a last s x :=
  ⟨fun fit => h.ok (same.1 fit), fun deep => h.error (mt same.2 deep)⟩

theorem pure (alike : s.registry.Alike r) (reached : s.graph = last) (fit : fits) :
    Bounded r fits a last s (pure a : Step α) :=
  ⟨fun _ => ⟨s.registry, alike, reached ▸ rfl⟩, fun deep => absurd fit deep⟩

theorem bind {x : Step α} {f : α → Step β} (hx : Bounded r fits a middle s x)
    (hf : fits → ∀ registry, registry.Alike r →
      Bounded r fits' b last { s with registry, graph := middle } (f a)) :
    Bounded r (fits ∧ fits') b last s (x >>= f) := by
  constructor
  · rintro ⟨fit, fit'⟩
    obtain ⟨registry, alike, ran⟩ := hx.ok fit
    obtain ⟨registry', alike', ran'⟩ := (hf fit registry alike).ok fit'
    refine ⟨registry', alike', ?_⟩
    rw [run_bind, ran]
    exact ran'
  · intro deep
    rw [run_bind]
    by_cases fit : fits
    · obtain ⟨registry, alike, ran⟩ := hx.ok fit
      rw [ran]
      exact (hf fit registry alike).error fun fit' => deep ⟨fit, fit'⟩
    · obtain ⟨after, ran⟩ := hx.error fit
      rw [ran]
      exact ⟨after, rfl⟩

theorem of_run {x y : Step α} (run : x.run s = y.run s) (h : Bounded r fits a last s y) :
    Bounded r fits a last s x :=
  ⟨fun fit => run.symm ▸ h.ok fit, fun deep => run.symm ▸ h.error deep⟩

theorem of_run_eq_ok {x : Step α} (alike : s.registry.Alike r)
    (ran : x.run s = (.ok a, { s with graph := last })) (fit : fits) : Bounded r fits a last s x :=
  ⟨fun _ => ⟨s.registry, alike, ran⟩, fun deep => absurd fit deep⟩

theorem after (registry : Registry) (middle : Graph) {x : Step α} {f : α → Step β}
    (ran : x.run s = (.ok a, { s with registry, graph := middle }))
    (hf : Bounded r fits b last { s with registry, graph := middle } (f a)) :
    Bounded r fits b last s (x >>= f) := by
  have run : (x >>= f).run s = (f a).run { s with registry, graph := middle } := by
    rw [run_bind, ran]
  exact ⟨fun fit => run.symm ▸ hf.ok fit, fun deep => run.symm ▸ hf.error deep⟩

theorem get_bind {f : Scene → Step α} (hf : Bounded r fits a last s (f s)) :
    Bounded r fits a last s (get >>= f) :=
  of_run (by rw [run_bind, run_get]) hf

theorem checkDepth (alike : s.registry.Alike r) (depth : Nat) :
    Bounded r (r.maxDepth.exceededBy depth = false) () s.graph s (checkDepth depth) := by
  have limit : s.registry.maxDepth = r.maxDepth := (congrArg Registry.maxDepth alike.forget_eq :)
  constructor
  · intro within
    refine ⟨s.registry, alike, ?_⟩
    rw [checkDepth_run, limit, within, if_neg Bool.false_ne_true]
  · intro beyond
    refine ⟨s, ?_⟩
    rw [checkDepth_run, limit, if_pos (by simpa using beyond)]

theorem visit {visit : Visit} (happens : visit.Happens r) (alike : s.registry.Alike r)
    (start : s.graph = visit.before)
    (accepted : (visit.after.isBytes visit.representation ||
      (visit.after.items? visit.representation).isSome) = true) {depth : Nat}
    {f : Entry → Value → Step β}
    (hf : r.maxDepth.exceededBy depth = false → ∀ registry, registry.Alike r →
      Bounded r fits b last { s with registry, graph := visit.after }
        (f visit.entry visit.representation)) :
    Bounded r (r.maxDepth.exceededBy depth = false ∧ fits) b last s
      (Registry.checkDepth depth >>= fun _ => dispatch visit.value >>= fun e =>
        represent e visit.value >>= f e) := by
  refine bind (checkDepth alike depth) fun within registry alike => ?_
  obtain ⟨registry', alike', dispatched⟩ := dispatch_run (v := visit.value)
    (s := { s with registry }) alike
  refine after _ s.graph dispatched ?_
  dsimp only
  rw [start, ← happens.entry]
  refine after registry' visit.after ?_ (hf within registry' alike')
  exact represent_run happens.run accepted

theorem mapItems_cons {f : Option Value → Step α} {list : Value} {start count : Nat}
    {item : Option Value} {as : List α} (held : s.graph.item? list start = item)
    (first : Bounded r fits a middle s (f item))
    (others : ∀ registry, registry.Alike r →
      Bounded r fits' as last { s with registry, graph := middle }
        (mapItems f list (start + 1) count)) :
    Bounded r (fits ∧ fits') (a :: as) last s (mapItems f list start (count + 1)) := by
  have looked : (mapItems f list start (count + 1)).run s =
      (f item >>= fun a => mapItems f list (start + 1) count >>= fun rest =>
        Pure.pure (a :: rest)).run s := by
    rw [mapItems, run_bind, run_get]
    dsimp only
    rw [held]
  refine of_run looked (bind first fun _ registry alike => ?_)
  refine of_iff (bind (others registry alike) fun _ registry alike => ?_)
    (and_iff_left trivial).symm
  exact pure alike rfl trivial

theorem enter (alike : s.registry.Alike r) {tag : String} {e : Entry}
    (bound : r.entryForTag? tag = some e) (depth : Nat) :
    Bounded r (r.maxDepth.exceededBy depth = false) e s.graph s (enter tag depth) := by
  have limit : s.registry.maxDepth = r.maxDepth := (congrArg Registry.maxDepth alike.forget_eq :)
  have entries : s.registry.entryForTag? tag = r.entryForTag? tag :=
    (congrArg (Registry.entryForTag? · tag) alike.forget_eq :)
  constructor
  · intro within
    refine ⟨s.registry, alike, ?_⟩
    rw [enter_run, limit, entries, within, if_neg Bool.false_ne_true, bound]
  · intro beyond
    refine ⟨s, ?_⟩
    rw [enter_run, limit, if_pos (by simpa using beyond)]

end Bounded

mutual

/-- What was written with one limit on depth is written with another one, unless it is too deep. -/
theorem Writes.replay (same : r.SameButDepth r') {depth : Nat} {g last : Graph} {v : Value}
    {trace : Trace} (h : Writes r' depth g v trace last) {fuel : Nat}
    (within : trace.tree.Within fuel) {s : Scene} (alike : s.registry.Alike r)
    (start : s.graph = g) :
    Bounded r (trace.tree.Fits r.maxDepth depth) trace.tree last s (serializeAt fuel depth v) := by
  obtain ⟨fuel, rfl⟩ := within.exists_succ h.isNode_tree
  cases h with
  | packed _ happens bytes =>
    refine Bounded.of_iff ?_ (Tree.fits_iff_of_isNode rfl)
    rw [serializeAt]
    refine .visit (same.happens happens) alike start (by rw [bytes, Bool.true_or]) ?_
    intro _ registry alike
    refine .get_bind ?_
    dsimp only
    rw [if_pos bytes]
    exact .pure alike rfl fun u mem => absurd mem List.not_mem_nil
  | tuple _ happens list found length inner =>
    refine Bounded.of_iff ?_ (Tree.fits_iff_of_isNode rfl)
    rw [serializeAt]
    refine .visit (same.happens happens) alike start
      (by rw [found, Option.isSome_some, Bool.or_true]) ?_
    intro _ registry alike
    refine .get_bind ?_
    dsimp only
    rw [if_neg (Bool.eq_false_iff.1 list), found, Option.getD_some, ← length]
    refine Bounded.of_iff ?_ (and_iff_left trivial).symm
    refine .bind (inner.replay same (fun u mem => within.slot mem) alike rfl)
      fun _ registry alike => ?_
    exact .pure alike rfl trivial

theorem WritesItems.replay (same : r.SameButDepth r') {list : Value} {depth start : Nat}
    {g last : Graph} {slots : List Trace} (h : WritesItems r' list depth start g slots last)
    {fuel : Nat} (within : ∀ u ∈ Trace.trees slots, u.Within fuel) {s : Scene}
    (alike : s.registry.Alike r) (here : s.graph = g) :
    Bounded r (∀ u ∈ Trace.trees slots, u.Fits r.maxDepth depth) (Trace.trees slots) last s
      (mapItems (encodeItem (serializeAt fuel depth)) list start slots.length) := by
  subst here
  cases h with
  | nil => exact .pure alike rfl fun u mem => absurd mem List.not_mem_nil
  | hole absent rest =>
    obtain ⟨-, insides⟩ := List.forall_mem_cons.1 within
    have ran : (encodeItem (serializeAt fuel depth) none).run s =
      (.ok .hole, { s with graph := s.graph }) := rfl
    refine Bounded.of_iff (.mapItems_cons absent (.of_run_eq_ok alike ran
      (Tree.fits_of_not_isNode rfl rfl)) fun registry alike => ?_) List.forall_mem_cons
    exact rest.replay same insides alike rfl
  | @leaf _ v _ _ _ _ _ found kept rest =>
    obtain ⟨-, insides⟩ := List.forall_mem_cons.1 within
    have ran := encodeItem_run (serializeAt fuel depth) v s
    rw [if_pos kept] at ran
    refine Bounded.of_iff (.mapItems_cons found (.of_run_eq_ok alike ran
      (Tree.fits_of_not_isNode rfl rfl)) fun registry alike => ?_) List.forall_mem_cons
    exact rest.replay same insides alike rfl
  | @node _ v _ _ _ _ _ _ _ found dispatched first rest =>
    obtain ⟨inside, insides⟩ := List.forall_mem_cons.1 within
    have ran := encodeItem_run (serializeAt fuel depth) v s
    rw [if_neg (Bool.eq_false_iff.1 dispatched)] at ran
    refine Bounded.of_iff (.mapItems_cons found (.of_run ran (first.replay same inside alike rfl))
      fun registry alike => ?_) List.forall_mem_cons
    exact rest.replay same insides alike rfl

end

theorem SameButDepth.entryForTag? (h : r.SameButDepth r') {tag : String} {e : Entry}
    (bound : r'.entryForTag? tag = some e) : r.entryForTag? tag = some e := by
  rw [← h.entryForTag?_eq, bound]

mutual

/-- What was read with one limit on depth is read with another one, unless it is too deep. -/
theorem Reads.replay (same : r.SameButDepth r') {depth : Nat} {g last : Graph} {tag : String}
    {data x : Value} {t : Tree} (h : Reads r' depth g tag data t x last) {fuel : Nat}
    (within : t.Within fuel) {s : Scene} (alike : s.registry.Alike r) (start : s.graph = g) :
    Bounded r (t.Fits r.maxDepth depth) x last s (deserializeAt fuel depth tag data) := by
  subst start
  cases h with
  | bytes _ bound bytes built =>
    obtain ⟨fuel, rfl⟩ := within.exists_succ rfl
    refine Bounded.of_iff ?_ (Tree.fits_iff_of_isNode rfl)
    rw [deserializeAt]
    refine .bind (.enter alike (same.entryForTag? bound) depth) fun _ registry alike => ?_
    refine .after _ _ (input_bytes_run _ bytes) (.of_run_eq_ok alike (rebuild_ok built) ?_)
    exact fun u mem => absurd mem List.not_mem_nil
  | @list _ _ middle _ _ _ _ e items given slots _ bound other found length inner built =>
    obtain ⟨fuel, rfl⟩ := within.exists_succ rfl
    refine Bounded.of_iff ?_ (Tree.fits_iff_of_isNode rfl)
    rw [deserializeAt]
    refine .bind (.enter alike (same.entryForTag? bound) depth) fun _ registry alike => ?_
    have listed := input_list_run (deserializeAt fuel (depth + 1)) (s := { s with registry })
      other found
    have read : (input (deserializeAt fuel (depth + 1)) data >>= rebuild e).run
        { s with registry } = (mapItems (decodeItem (deserializeAt fuel (depth + 1))) data 0
          items.length >>= fun decoded =>
            newObject ⟨s.graph.kindOf? data, [], .list decoded⟩ >>= rebuild e).run
              { s with registry } := by
      rw [run_bind, listed, ← run_bind, bind_assoc]
    refine .of_run read ?_
    rw [← length]
    refine Bounded.of_iff ?_ (and_iff_left trivial).symm
    refine .bind (inner.replay same (fun u mem => within.slot mem) alike rfl) ?_
    intro _ registry alike
    refine .after _ _ (newObject_run _ _) ?_
    exact .of_run_eq_ok alike (rebuild_ok built) trivial

theorem ReadsItems.replay (same : r.SameButDepth r') {list : Value} {depth start : Nat}
    {g last : Graph} {slots : List Tree} {given : List (Option Value)}
    (h : ReadsItems r' list depth start g slots given last) {fuel : Nat}
    (within : ∀ u ∈ slots, u.Within fuel) {s : Scene} (alike : s.registry.Alike r)
    (here : s.graph = g) :
    Bounded r (∀ u ∈ slots, u.Fits r.maxDepth depth) given last s
      (mapItems (decodeItem (deserializeAt fuel depth)) list start slots.length) := by
  subst here
  cases h with
  | nil => exact .pure alike rfl fun u mem => absurd mem List.not_mem_nil
  | hole absent rest =>
    obtain ⟨-, insides⟩ := List.forall_mem_cons.1 within
    have ran : (decodeItem (deserializeAt fuel depth) none).run s =
      (.ok none, { s with graph := s.graph }) := rfl
    refine Bounded.of_iff (.mapItems_cons absent (.of_run_eq_ok alike ran
      (Tree.fits_of_not_isNode rfl rfl)) fun registry alike => ?_) List.forall_mem_cons
    exact rest.replay same insides alike rfl
  | leaf found leaf rest =>
    obtain ⟨-, insides⟩ := List.forall_mem_cons.1 within
    have ran := decodeItem_leaf_run (deserializeAt fuel depth) leaf
    refine Bounded.of_iff (.mapItems_cons found (.of_run_eq_ok alike ran
      (Tree.fits_of_not_isNode rfl rfl)) fun registry alike => ?_) List.forall_mem_cons
    exact rest.replay same insides alike rfl
  | @node _ v data x tag _ _ _ middle _ slot _ _ found node first rest =>
    obtain ⟨inside, insides⟩ := List.forall_mem_cons.1 within
    have read : Bounded r (slot.Fits r.maxDepth depth ∧ True) (some x) middle s
        (deserializeAt fuel depth tag data >>= fun w => pure (some w)) :=
      .bind (first.replay same inside alike rfl) fun _ registry alike => .pure alike rfl trivial
    have item :=
      Bounded.of_run (decodeItem_node_run _ node) (read.of_iff (and_iff_left trivial).symm)
    refine Bounded.of_iff (.mapItems_cons found item fun registry alike => ?_)
      List.forall_mem_cons
    exact rest.replay same insides alike rfl

end

/-- Of two registries that differ in the limit on depth, one with a finite limit writes and reads
the trees that the other one writes and reads in the same way, except that it refuses those with a
node past its limit. What is read is the data as a tree, each item looked at when its turn comes. A
value whose representations nest without end, such as one on a cycle of lists, maps and sets or one
that its codec hands on, is never written. If the stack goes beyond the limit, such a call ends with
a failure of a registry, or with what an error of a codec without a text raises. -/
theorem depth_limit_truncates {options options' : Options} {calls calls' : List Call}
    {s s' : Scene} (reached : s.registry = (new options).run calls)
    (reached' : s'.registry = (new options').run calls')
    (same : s.registry.SameButDepth s'.registry) (graph : s.graph = s'.graph)
    (room : s'.stack ≤ s.stack) (finite : s.registry.maxDepth.isFinite = true) :
    (∀ v t after, (serialize v).run s' = (.ok t, after) →
      (t.NoDeeper s.registry.maxDepth.value →
        ∃ last, (serialize v).run s = (.ok t, last) ∧ last.graph = after.graph) ∧
      (¬ t.NoDeeper s.registry.maxDepth.value → ∃ last, (serialize v).run s =
        (.error (.registry (.depthExceeded s.registry.maxDepth)), last))) ∧
    (∀ tag data w after, (s'.graph.isBytes data || (s'.graph.items? data).isSome) = true →
      (deserialize tag data).run s' = (.ok w, after) →
      ∃ t, Reads s'.registry 0 s'.graph tag data t w after.graph ∧
        (∀ u : Tree, u.tag? = some tag → u.FoundBelow (Onward s'.registry s'.graph) data → u = t) ∧
        (t.NoDeeper s.registry.maxDepth.value →
          ∃ last, (deserialize tag data).run s = (.ok w, last) ∧ last.graph = after.graph) ∧
        (¬ t.NoDeeper s.registry.maxDepth.value → ∃ last, (deserialize tag data).run s =
          (.error (.registry (.depthExceeded s.registry.maxDepth)), last))) ∧
    (∀ P v, s.registry.Endless P → P s.graph v → NeverWritten s v) ∧
    (∀ C v, s.registry.Cyclic s.graph C → C v → NeverWritten s v) ∧
    ∀ v, s.registry.HandedOn s.graph v → NeverWritten s v := by
  have sound : s.registry.Sound := reached ▸ (sound_new options).run calls
  have sound' : s'.registry.Sound := reached' ▸ (sound_new options').run calls'
  have alike := sound.remembers.alike
  refine ⟨fun v t after ran => ?_, fun tag data w after shaped ran => ?_,
    fun P v endless start => endless.neverWritten sound start, fun C v cyclic part => ?_,
    fun v handed => ?_⟩
  · -- the derivation of what was written is replayed with the other limit
    obtain ⟨trace, writes, rfl, within⟩ := writes_of_serialize sound'.remembers ran
    have bounded := writes.replay same (within.mono room) alike graph
    rw [← Tree.noDeeper_iff_fits finite] at bounded
    refine ⟨fun fits => ?_, bounded.error⟩
    obtain ⟨registry, -, ran⟩ := bounded.ok fits
    exact ⟨_, ran, rfl⟩
  · obtain ⟨t, reads, within⟩ := reads_of_deserialize sound'.remembers shaped ran
    have bounded := reads.replay same (within.mono room) alike graph
    rw [← Tree.noDeeper_iff_fits finite] at bounded
    refine ⟨t, reads, fun u root found => ?_, fun fits => ?_, bounded.error⟩
    · exact reads.eq_of_found sound'.consistent .refl root found
    · obtain ⟨registry, -, ran⟩ := bounded.ok fits
      exact ⟨_, ran, rfl⟩
  · obtain ⟨w, next, holds⟩ := cyclic.closed v part
    exact (cyclic.endless sound.consistent).neverWritten sound ⟨.refl, w, next, holds⟩
  · exact (handed.endless sound.consistent).neverWritten sound ⟨.refl, rfl⟩

namespace Sample

/-- A registry that only knows lists, and hands them on. -/
def lists (limit : Nat) : Registry :=
  (new { fallback := some refusal, maxDepth := some (.ofNat limit) }).run
    [.register (.ofClass .array) "list" plain]

def ring : Graph :=
  ⟨#[{ kind := some .array, body := .list [] },
    { kind := some .array, body := .list [some (.object 0), some (.nat 1)] },
    { kind := some .array, body := .list [some (.object 2)] }]⟩

def ringTree : Tree :=
  .tuple "list" (some .array) [.tuple "list" (some .array) [], .leaf (.nat 1)]

theorem extends_lists {limit : Nat} {g k : Graph} (onward : Onward (lists limit) g k) :
    g.Extends k :=
  extends_of_refusal (r := lists limit) rfl
    (List.forall_mem_singleton.2 fun h _ => ⟨.refl h, .refl h⟩) onward

theorem cyclic_ring (limit : Nat) : (lists limit).Cyclic ring (· = .object 2) := by
  refine .of_extends (fun _ _ _ => extends_lists) ?_
  rintro v rfl
  exact ⟨.object 2, rfl, .item rfl rfl List.mem_cons_self (.inr rfl)⟩

/-- A limit of no level refuses the tree that a limit of one level admits, and no limit admits a
list that is its own item. -/
theorem ring_refused :
    (serialize (.object 1)).run (begun (lists 1) ring) =
        (.ok ringTree, written (lists 1) ring (.object 1)) ∧
      (∃ last, (serialize (.object 1)).run (begun (lists 0) ring) =
        (.error (.registry (.depthExceeded (.ofNat 0))), last)) ∧
      ∃ fault last, (serialize (.object 2)).run (begun (lists 0) ring) = (.error fault, last) ∧
        (lists 0).Thrown fault := by
  have run : (serialize (.object 1)).run (begun (lists 1) ring) =
    (.ok ringTree, written (lists 1) ring (.object 1)) := rfl
  have less : (Number.ofNat 0).value < (1 : Nat) :=
    (Number.exceededBy_iff (by decide) 1).1 (by decide +kernel)
  have same : (lists 0).SameButDepth (lists 1) := rfl
  obtain ⟨writes, -, -, cycles, -⟩ :=
    @depth_limit_truncates _ _ _ _ (begun (lists 0) ring) (begun (lists 1) ring) rfl rfl same rfl
      le_rfl (by decide)
  obtain ⟨fault, last, failed, thrown⟩ := cycles _ _ (cyclic_ring 0) rfl
  refine ⟨run, (writes _ _ _ run).2 ?_, fault, last, failed,
    thrown ⟨1, by decide, by decide +kernel⟩⟩
  intro noDeeper
  have inner : ringTree.Has 1 (.tuple "list" (some .array) []) :=
    .slot List.mem_cons_self (.root _)
  exact absurd (noDeeper 1 _ inner rfl) (not_le.2 less)

end Sample

end Registry

end Marshal
