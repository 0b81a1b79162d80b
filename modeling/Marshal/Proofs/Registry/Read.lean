import Marshal.Proofs.Registry.Containment

namespace Marshal.Registry

open Marshal.Effect
open Marshal.Step

mutual

/-- The data of a tag are read at the given depth as what the tree says, which gives the value and
leaves the second graph. -/
inductive Reads (r : Registry) : Nat → Graph → String → Value → Tree → Value → Graph → Prop where
  | bytes {depth : Nat} {g last : Graph} {tag : String} {data x : Value} {e : Entry}
      (allowed : r.Allows depth) (bound : r.entryForTag? tag = some e)
      (bytes : g.isBytes data = true)
      (built : (e.codec.deserialize.run data).run g = (.ok x, last)) :
    Reads r depth g tag data (.packed tag data) x last
  | list {depth : Nat} {g middle last : Graph} {tag : String} {data x : Value} {e : Entry}
      {items given : List (Option Value)} {slots : List Tree} (allowed : r.Allows depth)
      (bound : r.entryForTag? tag = some e) (other : g.isBytes data = false)
      (found : g.items? data = some items) (length : slots.length = items.length)
      (inner : ReadsItems r data (depth + 1) 0 g slots given middle)
      (built : (e.codec.deserialize.run (middle.addList (g.kindOf? data) given).1).run
        (middle.addList (g.kindOf? data) given).2 = (.ok x, last)) :
    Reads r depth g tag data (.tuple tag (g.kindOf? data) slots) x last

/-- So are the items of a list from a position on, each as it is found when its turn comes. -/
inductive ReadsItems (r : Registry) : (list : Value) → (depth start : Nat) → Graph → List Tree →
    List (Option Value) → Graph → Prop where
  | nil {list : Value} {depth start : Nat} {g : Graph} : ReadsItems r list depth start g [] [] g
  | hole {list : Value} {depth start : Nat} {g last : Graph} {slots : List Tree}
      {given : List (Option Value)} (absent : g.item? list start = none)
      (rest : ReadsItems r list depth (start + 1) g slots given last) :
    ReadsItems r list depth start g (.hole :: slots) (none :: given) last
  | leaf {list v : Value} {depth start : Nat} {g last : Graph} {slots : List Tree}
      {given : List (Option Value)} (found : g.item? list start = some v)
      (leaf : g.look v = .ok none)
      (rest : ReadsItems r list depth (start + 1) g slots given last) :
    ReadsItems r list depth start g (.leaf v :: slots) (some v :: given) last
  | node {list v data x : Value} {tag : String} {depth start : Nat} {g middle last : Graph}
      {slot : Tree} {slots : List Tree} {given : List (Option Value)}
      (found : g.item? list start = some v) (node : g.look v = .ok (some (tag, data)))
      (first : Reads r depth g tag data slot x middle)
      (rest : ReadsItems r list depth (start + 1) middle slots given last) :
    ReadsItems r list depth start g (slot :: slots) (some x :: given) last

end

section Derived

variable {r : Registry}

/-- A step that, where it succeeds, reads the data of a tag at the given depth, with at most so many
levels. -/
def Recounts (r : Registry) (levels depth : Nat) (read : String → Value → Step Value) : Prop :=
  ∀ tag data x s s', s.registry.Alike r →
    (s.graph.isBytes data || (s.graph.items? data).isSome) = true →
      (read tag data).run s = (.ok x, s') →
        ∃ t, Reads r depth s.graph tag data t x s'.graph ∧ t.Within levels ∧
          s'.registry.Alike r

theorem Recounts.items {levels depth : Nat} {read : String → Value → Step Value}
    (h : Recounts r levels depth read) {list : Value} {start count : Nat}
    {given : List (Option Value)} {s s' : Scene} (alike : s.registry.Alike r)
    (run : (mapItems (decodeItem read) list start count).run s = (.ok given, s')) :
    ∃ slots, ReadsItems r list depth start s.graph slots given s'.graph ∧
      slots.length = count ∧ (∀ t ∈ slots, t.Within levels) ∧ s'.registry.Alike r := by
  induction count generalizing start s given with
  | zero =>
    cases run
    exact ⟨[], .nil, rfl, fun _ mem => absurd mem List.not_mem_nil, alike⟩
  | succ count ih =>
    rw [mapItems, run_bind_eq_ok] at run
    obtain ⟨_, _, ⟨⟩, run⟩ := run
    obtain ⟨item, middle, first, more⟩ := run_bind_eq_ok.1 run
    obtain ⟨others, last, rest, done⟩ := run_bind_eq_ok.1 more
    cases done
    cases held : s.graph.item? list start with
    | none =>
      rw [held] at first
      cases first
      obtain ⟨slots, reads, rfl, within, alike'⟩ := ih alike rest
      exact ⟨.hole :: slots, .hole held reads, rfl,
        List.forall_mem_cons.2 ⟨Tree.within_of_slots_eq_nil rfl rfl, within⟩, alike'⟩
    | some v =>
      rw [held] at first
      obtain ⟨looked, rfl, rfl⟩ | ⟨tag, data, x, looked, ran, rfl⟩ := decodeItem_eq_ok first
      · obtain ⟨slots, reads, rfl, within, alike'⟩ := ih alike rest
        exact ⟨.leaf v :: slots, .leaf held looked reads, rfl,
          List.forall_mem_cons.2 ⟨Tree.within_of_slots_eq_nil rfl rfl, within⟩, alike'⟩
      · obtain ⟨t, below, inside, alike₁⟩ :=
          h tag data x s _ alike (Graph.look_eq_some_iff.1 looked).2 ran
        obtain ⟨slots, reads, rfl, within, alike'⟩ := ih alike₁ rest
        exact ⟨t :: slots, .node held looked below reads, rfl,
          List.forall_mem_cons.2 ⟨inside, within⟩, alike'⟩

theorem recounts_deserializeAt (fuel depth : Nat) :
    Recounts r fuel depth (deserializeAt fuel depth) := by
  induction fuel generalizing depth with
  | zero =>
    intro tag data x s s' _ _ run
    cases run
  | succ fuel ih =>
    intro tag data x s s' alike shaped run
    rw [deserializeAt, run_bind_eq_ok] at run
    obtain ⟨e, _, entered, run⟩ := run
    obtain ⟨within, bound, rfl⟩ := enter_eq_ok entered
    have allowed : r.Allows depth := by
      rw [Allows, ← within]
      exact (congrArg (·.maxDepth.exceededBy depth) alike.forget_eq.symm :)
    have bound' : r.entryForTag? tag = some e := by
      rw [← bound]
      exact (congrArg (Registry.entryForTag? · tag) alike.forget_eq.symm :)
    obtain ⟨given, middle, made, run⟩ := run_bind_eq_ok.1 run
    obtain ⟨built, kept⟩ := rebuild_eq_ok run
    cases bytes : s.graph.isBytes data with
    | true =>
      rw [input_bytes_run _ bytes] at made
      cases made
      exact ⟨_, .bytes allowed bound' bytes built,
        Tree.within_succ fun _ mem => absurd mem List.not_mem_nil, kept ▸ alike⟩
    | false =>
      rw [bytes, Bool.false_or, Option.isSome_iff_exists] at shaped
      obtain ⟨items, found⟩ := shaped
      rw [input_list_run _ bytes found] at made
      obtain ⟨decoded, after, inner, made⟩ := run_bind_eq_ok.1 made
      rw [newObject_run] at made
      cases made
      obtain ⟨slots, reads, length, inside, alike'⟩ := (ih (depth + 1)).items alike inner
      exact ⟨_, .list allowed bound' bytes found length reads built, Tree.within_succ inside,
        kept ▸ alike'⟩

theorem reads_of_deserialize {s s' : Scene} {tag : String} {data x : Value}
    (remembers : s.registry.Remembers)
    (shaped : (s.graph.isBytes data || (s.graph.items? data).isSome) = true)
    (run : (deserialize tag data).run s = (.ok x, s')) :
    ∃ t, Reads s.registry 0 s.graph tag data t x s'.graph ∧ t.Within s.stack := by
  obtain ⟨t, reads, within, -⟩ :=
    recounts_deserializeAt s.stack 0 tag data x s s' remembers.alike shaped run
  exact ⟨t, reads, within⟩

mutual

theorem Reads.onward (consistent : r.Consistent) {depth : Nat} {g last : Graph} {tag : String}
    {data x : Value} {t : Tree} (h : Reads r depth g tag data t x last) : Onward r g last := by
  cases h with
  | bytes _ bound _ built =>
    exact Onward.refl.deserialized (consistent.uses_of_entryForTag? bound) built
  | list _ bound _ _ _ inner built =>
    exact ((inner.onward consistent).addList _ _).deserialized
      (consistent.uses_of_entryForTag? bound) built

theorem ReadsItems.onward (consistent : r.Consistent) {list : Value} {depth start : Nat}
    {g last : Graph} {slots : List Tree} {given : List (Option Value)}
    (h : ReadsItems r list depth start g slots given last) : Onward r g last := by
  cases h with
  | nil => exact .refl
  | hole _ rest | leaf _ _ rest => exact rest.onward consistent
  | node _ _ first rest => exact (first.onward consistent).trans (rest.onward consistent)

end

mutual

theorem Reads.eq_of_found (consistent : r.Consistent) {g₀ : Graph} {depth : Nat} {g last : Graph}
    {tag : String} {data x : Value} {t u : Tree} (h : Reads r depth g tag data t x last)
    (since : Onward r g₀ g) (root : u.tag? = some tag) (found : u.FoundBelow (Onward r g₀) data) :
    u = t := by
  cases h with
  | bytes _ _ bytes =>
    cases u with
    | hole | leaf => cases root
    | packed own =>
      cases root
      rw [found.1]
    | tuple own kind slots =>
      have other := (found.1 g since).1
      rw [bytes] at other
      cases other
  | list _ _ other items length inner =>
    cases u with
    | hole | leaf => cases root
    | packed own =>
      have bytes := found.2 g since
      rw [other] at bytes
      cases bytes
    | tuple own kind slots =>
      cases root
      obtain ⟨lists, all⟩ := found
      obtain ⟨-, own, items', found, count⟩ := lists g since
      cases items.symm.trans found
      rw [own, inner.eq_of_found consistent since (count.symm.trans length.symm) all]

theorem ReadsItems.eq_of_found (consistent : r.Consistent) {g₀ : Graph} {list : Value}
    {depth start : Nat} {g last : Graph} {slots others : List Tree} {given : List (Option Value)}
    (h : ReadsItems r list depth start g slots given last) (since : Onward r g₀ g)
    (length : others.length = slots.length)
    (found : Tree.AllFoundAt (Onward r g₀) list start others) : others = slots := by
  cases others with
  | nil =>
    cases h with
    | nil => rfl
    | hole | leaf | node => cases length
  | cons u others =>
    obtain ⟨⟨item, held, here⟩, all⟩ := found
    have held := held g since
    cases h with
    | nil => cases length
    | hole absent rest =>
      rw [rest.eq_of_found consistent since (Nat.succ.inj length) all]
      cases absent.symm.trans held
      cases u with
      | hole => rfl
      | leaf => cases here.1
      | packed =>
        obtain ⟨w, ⟨⟩, -⟩ := here
      | tuple =>
        obtain ⟨w, -, ⟨⟩, -⟩ := here
    | @leaf _ v _ _ _ _ _ _ present looked rest =>
      rw [rest.eq_of_found consistent since (Nat.succ.inj length) all]
      cases present.symm.trans held
      cases u with
      | hole => cases here
      | leaf => rw [Option.some.inj here.1]
      | packed =>
        obtain ⟨w, ⟨⟩, node⟩ := here
        cases looked.symm.trans (node g since).1
      | tuple =>
        obtain ⟨w, data, ⟨⟩, node, -⟩ := here
        cases looked.symm.trans (node g since).1
    | @node _ v data _ tag _ _ _ _ _ _ _ _ present looked first rest =>
      cases present.symm.trans held
      have onward := since.trans (first.onward consistent)
      rw [rest.eq_of_found consistent onward (Nat.succ.inj length) all]
      cases own : u.tag? with
      | some name =>
        obtain ⟨w, data', ⟨⟩, node, below⟩ := here.exists_data own
        cases looked.symm.trans (node g since)
        rw [first.eq_of_found consistent since own below]
      | none =>
        cases u with
        | hole => cases here
        | leaf =>
          obtain ⟨⟨⟩, leaf⟩ := here
          cases looked.symm.trans (leaf g since)
        | packed | tuple => cases own

end

end Derived

end Marshal.Registry
