import Marshal.Proofs.Action
import Marshal.Proofs.Registry.Containment
import Marshal.Proofs.Registry.RoundTrip

namespace Marshal.Registry

open Marshal.Action (madeList)
open Marshal.Effect
open Marshal.Step

/-- The failures that nodes down to a depth account for: one of them is past the limit, or there is
no room for it on the stack. -/
inductive TooDeep (r : Registry) (stack lowest : Nat) : Fault → Prop where
  | exceeded {depth : Nat} (le : depth ≤ lowest) (beyond : r.maxDepth.exceededBy depth = true) :
    TooDeep r stack lowest (.registry (.depthExceeded r.maxDepth))
  | noRoom (le : stack ≤ lowest) : TooDeep r stack lowest .outOfRange

theorem TooDeep.mono {r : Registry} {stack lowest lower : Nat} {fault : Fault}
    (h : r.TooDeep stack lowest fault) (le : lowest ≤ lower) : r.TooDeep stack lower fault := by
  cases h with
  | exceeded le' beyond => exact .exceeded (le'.trans le) beyond
  | noRoom le' => exact .noRoom (le'.trans le)

theorem not_tooDeep {r : Registry} {stack lowest : Nat}
    (shallow : ∀ depth ≤ lowest, r.Allows depth) (room : lowest < stack) (fault : Fault) :
    ¬ r.TooDeep stack lowest fault := by
  intro deep
  cases deep with
  | exceeded le beyond => exact Bool.false_ne_true ((shallow _ le).symm.trans beyond)
  | noRoom le => omega

/-- The step only adds to the values and gives something of this sort, unless nodes down to a depth
are too deep. -/
inductive Arrives {α : Type} (r : Registry) (stack lowest : Nat) (s : Scene) (x : Step α)
    (Q : α → Graph → Prop) : Prop where
  | ok {a : α} {s' : Scene} (ran : x.run s = (.ok a, s')) (alike : s'.registry.Alike r)
      (ext : s.graph.Extends s'.graph) (sort : Q a s'.graph) : Arrives r stack lowest s x Q
  | deep {fault : Fault} {s' : Scene} (ran : x.run s = (.error fault, s'))
      (deep : r.TooDeep stack lowest fault) : Arrives r stack lowest s x Q

namespace Arrives

variable {r : Registry} {stack lowest : Nat} {α β : Type} {s : Scene}

theorem pure {a : α} {Q : α → Graph → Prop} (alike : s.registry.Alike r) (sort : Q a s.graph) :
    Arrives r stack lowest s (pure a) Q :=
  .ok rfl alike (.refl _) sort

theorem mono {x : Step α} {Q : α → Graph → Prop} {lower : Nat} (h : Arrives r stack lowest s x Q)
    (le : lowest ≤ lower) : Arrives r stack lower s x Q := by
  cases h with
  | ok ran alike ext sort => exact .ok ran alike ext sort
  | deep ran deep => exact .deep ran (deep.mono le)

theorem imp {x : Step α} {P Q : α → Graph → Prop} (h : Arrives r stack lowest s x P)
    (le : ∀ a k, P a k → Q a k) : Arrives r stack lowest s x Q := by
  cases h with
  | ok ran alike ext sort => exact .ok ran alike ext (le _ _ sort)
  | deep ran deep => exact .deep ran deep

theorem of_run {x y : Step α} {Q : α → Graph → Prop} {s' : Scene} (run : x.run s = y.run s')
    (ext : s.graph.Extends s'.graph) (h : Arrives r stack lowest s' y Q) :
    Arrives r stack lowest s x Q := by
  cases h with
  | ok ran alike ext' sort => exact .ok (run.trans ran) alike (ext.trans ext') sort
  | deep ran deep => exact .deep (run.trans ran) deep

theorem bind {x : Step α} {f : α → Step β} {P : α → Graph → Prop} {Q : β → Graph → Prop}
    (hx : Arrives r stack lowest s x P)
    (hf : ∀ a s', s'.registry.Alike r → s.graph.Extends s'.graph → P a s'.graph →
      Arrives r stack lowest s' (f a) Q) : Arrives r stack lowest s (x >>= f) Q := by
  cases hx with
  | @ok a middle ran alike ext sort =>
    have run : (x >>= f).run s = (f a).run middle := by rw [run_bind, ran]
    exact of_run run ext (hf a middle alike ext sort)
  | @deep fault last ran deep =>
    have run : (x >>= f).run s = (.error fault, last) := by rw [run_bind, ran]
    exact .deep run deep

end Arrives

/-- The step succeeds with something of this sort, leaves the registry alone and only adds to the
values. -/
def Gives {α : Type} (s : Scene) (x : Step α) (Q : α → Graph → Prop) : Prop :=
  ∃ a s', x.run s = (.ok a, s') ∧ s'.registry = s.registry ∧ s.graph.Extends s'.graph ∧ Q a s'.graph

namespace Gives

variable {α β : Type} {s : Scene}

theorem pure {a : α} {Q : α → Graph → Prop} (sort : Q a s.graph) : Gives s (pure a) Q :=
  ⟨a, s, rfl, rfl, .refl _, sort⟩

theorem imp {x : Step α} {P Q : α → Graph → Prop} (h : Gives s x P)
    (le : ∀ a k, s.graph.Extends k → P a k → Q a k) : Gives s x Q := by
  obtain ⟨a, s', ran, kept, ext, sort⟩ := h
  exact ⟨a, s', ran, kept, ext, le a _ ext sort⟩

theorem of_run {x y : Step α} {Q : α → Graph → Prop} (run : x.run s = y.run s)
    (h : Gives s y Q) : Gives s x Q := by
  obtain ⟨a, s', ran, rest⟩ := h
  exact ⟨a, s', run.trans ran, rest⟩

theorem bind {x : Step α} {f : α → Step β} {P : α → Graph → Prop} {Q : β → Graph → Prop}
    (hx : Gives s x P)
    (hf : ∀ a s', s'.registry = s.registry → s.graph.Extends s'.graph → P a s'.graph →
      Gives s' (f a) Q) : Gives s (x >>= f) Q := by
  obtain ⟨a, s₁, ran, kept, ext, sort⟩ := hx
  obtain ⟨b, s₂, ran', kept', ext', sort'⟩ := hf a s₁ kept ext sort
  refine ⟨b, s₂, ?_, kept'.trans kept, ext.trans ext', sort'⟩
  rw [run_bind, ran]
  exact ran'

end Gives

/-- Whatever is added to the values, the tree is intact, and read where it is found it gives a
value of this sort, of which the size of the graph that it was read in is known. -/
structure ReadAs (r : Registry) (g : Graph) (depth : Nat) (Q : Nat → Graph → Value → Prop)
    (t : Tree) : Prop where
  root : ∃ tag, t.tag? = some tag
  intact : ∀ k, g.Extends k → t.Intact k
  reads : ∀ (s : Scene) (fuel : Nat) (tag : String) (data : Value),
    s.registry.forget = r.forget → g.Extends s.graph → t.Within fuel → t.tag? = some tag →
      t.FoundBelow s.graph.Extends data →
        Gives s (deserializeAt fuel depth tag data) fun w k => Q s.graph.size k w

structure SlotReadAs (r : Registry) (g : Graph) (depth : Nat) (Q : Nat → Graph → Value → Prop)
    (t : Tree) : Prop where
  intact : ∀ k, g.Extends k → t.Intact k
  reads : ∀ (s : Scene) (fuel : Nat) (item : Option Value),
    s.registry.forget = r.forget → g.Extends s.graph → t.Within fuel →
      t.FoundAt s.graph.Extends item →
        Gives s (decodeItem (deserializeAt fuel depth) item) fun got k =>
          ∃ w, got = some w ∧ Q s.graph.size k w

structure SlotsReadAs (r : Registry) (g : Graph) (depth : Nat)
    (Q : Nat → Graph → List Value → Prop) (slots : List Tree) : Prop where
  intact : ∀ k, g.Extends k → ∀ t ∈ slots, t.Intact k
  reads : ∀ (s : Scene) (fuel : Nat) (list : Value) (start : Nat),
    s.registry.forget = r.forget → g.Extends s.graph → (∀ t ∈ slots, t.Within fuel) →
      Tree.AllFoundAt s.graph.Extends list start slots →
        Gives s (mapItems (decodeItem (deserializeAt fuel depth)) list start slots.length)
          fun items k => ∃ ws, items = ws.map some ∧ Q s.graph.size k ws

section Read

variable {r : Registry} {g : Graph} {depth : Nat} {t : Tree} {slots : List Tree}
  {P Q : Nat → Graph → Value → Prop}

theorem SlotReadAs.of_extends {k : Graph} (ext : g.Extends k) (h : SlotReadAs r g depth P t)
    (le : ∀ since l w, k.Extends l → P since l w → Q since l w) : SlotReadAs r k depth Q t := by
  refine ⟨fun l later => h.intact l (ext.trans later), ?_⟩
  intro s fuel item same later within found
  refine (h.reads s fuel item same (ext.trans later) within found).imp ?_
  rintro got l grown ⟨w, rfl, sort⟩
  exact ⟨w, rfl, le _ l w (later.trans grown) sort⟩

theorem ReadAs.slot (h : ReadAs r g depth Q t) : SlotReadAs r g depth Q t := by
  refine ⟨h.intact, fun s fuel item same later within found => ?_⟩
  obtain ⟨tag, root⟩ := h.root
  obtain ⟨v, data, rfl, node, below⟩ := found.exists_data root
  refine .of_run (decodeItem_node_run _ (node _ (.refl _))) ?_
  refine .bind (h.reads s fuel tag data same later within root below) ?_
  intro w s' _ _ sort
  exact .pure ⟨w, rfl, sort⟩

theorem slotReadAs_leaf {v : Value} (leaf : ∀ k, g.Extends k → k.look v = .ok none)
    (sort : ∀ k, g.Extends k → Q k.size k v) : SlotReadAs r g depth Q (.leaf v) := by
  refine ⟨fun k ext => Tree.intact_leaf.2 (leaf k ext), ?_⟩
  rintro s fuel _ - later - ⟨rfl, -⟩
  exact .of_run (decodeItem_leaf_run _ (leaf _ later)) (.pure ⟨v, rfl, sort _ later⟩)

theorem slotsReadAs_nil {Q : Nat → Graph → List Value → Prop}
    (sort : ∀ k, g.Extends k → Q k.size k []) : SlotsReadAs r g depth Q [] := by
  refine ⟨fun _ _ _ mem => absurd mem List.not_mem_nil, ?_⟩
  intro s fuel list start _ later _ _
  exact .pure ⟨[], rfl, sort _ later⟩

theorem SlotsReadAs.cons {R S : Nat → Graph → List Value → Prop}
    (first : SlotReadAs r g depth P t) (rest : SlotsReadAs r g depth R slots)
    (sort : ∀ h k l w ws, g.Extends h → h.Extends k → P h.size k w → k.Extends l →
      R k.size l ws → S h.size l (w :: ws)) : SlotsReadAs r g depth S (t :: slots) := by
  refine ⟨fun k ext => List.forall_mem_cons.2 ⟨first.intact k ext, rest.intact k ext⟩, ?_⟩
  rintro s fuel list start same later within ⟨⟨item, held, foundFirst⟩, foundRest⟩
  obtain ⟨inside, insides⟩ := List.forall_mem_cons.1 within
  have looked : (mapItems (decodeItem (deserializeAt fuel depth)) list start
      (t :: slots).length).run s = (decodeItem (deserializeAt fuel depth) item >>= fun a =>
        mapItems (decodeItem (deserializeAt fuel depth)) list (start + 1) slots.length >>=
          fun others => pure (a :: others)).run s := by
    rw [List.length_cons, mapItems, run_bind, run_get]
    dsimp only
    rw [held _ (.refl _)]
  refine .of_run looked (.bind (first.reads s fuel item same later inside foundFirst) ?_)
  rintro _ s₁ kept₁ ext₁ ⟨w, rfl, sort₁⟩
  refine .bind (rest.reads s₁ fuel list (start + 1) (kept₁ ▸ same) (later.trans ext₁) insides
    (foundRest.mono (fun k ext => ext₁.trans ext))) ?_
  rintro _ s₂ - ext₂ ⟨ws, rfl, sort₂⟩
  exact .pure ⟨w :: ws, rfl, sort _ _ _ w ws later ext₁ sort₁ ext₂ sort₂⟩

theorem SlotsReadAs.tuple (consistent : r.Consistent) {e : Entry} (used : r.Uses e)
    (allowed : r.Allows depth) {R : Nat → Graph → List Value → Prop}
    (all : SlotsReadAs r g (depth + 1) R slots)
    (rebuilds : ∀ h k ws, g.Extends h → h.Extends k → R h.size k ws → ∃ w last,
      (e.codec.deserialize.run (.object k.size)).run (k.add (madeList ws)) = (.ok w, last) ∧
        (k.add (madeList ws)).Extends last ∧ Q h.size last w) :
    ReadAs r g depth Q (.tuple e.tag (some .array) slots) := by
  refine ⟨⟨e.tag, rfl⟩, fun l later => Tree.intact_tuple.2 ⟨rfl, all.intact l later⟩, ?_⟩
  rintro s fuel tag data same later within ⟨⟩ ⟨lists, found⟩
  obtain ⟨fuel, rfl⟩ := within.exists_succ rfl
  refine .of_run (deserializeAt_list_run consistent used allowed same (lists _ (.refl _))) ?_
  refine .bind (all.reads s fuel data 0 same later (fun u mem => within.slot mem) found) ?_
  rintro _ s₁ - ext₁ ⟨ws, rfl, sort⟩
  obtain ⟨w, last, ran, grown, sort'⟩ := rebuilds _ s₁.graph ws later ext₁ sort
  refine ⟨w, { s₁ with graph := last }, ?_, rfl, (Graph.extends_add _ _).trans grown, sort'⟩
  rw [run_bind, newObject_run]
  exact rebuild_ok (s := { s₁ with graph := s₁.graph.add (madeList ws) }) ran

theorem readAs_packed (consistent : r.Consistent) {e : Entry} (used : r.Uses e)
    (allowed : r.Allows depth) {data : Value} (bytes : g.isBytes data = true)
    (rebuilds : ∀ k, g.Extends k → ∃ w last,
      (e.codec.deserialize.run data).run k = (.ok w, last) ∧ k.Extends last ∧ Q k.size last w) :
    ReadAs r g depth Q (.packed e.tag data) := by
  refine ⟨⟨e.tag, rfl⟩, fun k ext => Tree.intact_packed.2 (ext.isBytes bytes), ?_⟩
  rintro s fuel tag own same later within ⟨⟩ ⟨rfl, -⟩
  obtain ⟨fuel, rfl⟩ := within.exists_succ rfl
  obtain ⟨w, last, ran, grown, sort⟩ := rebuilds s.graph later
  refine .of_run (deserializeAt_bytes_run consistent used allowed same (later.isBytes bytes)) ?_
  exact ⟨w, { s with graph := last }, rebuild_ok ran, rfl, grown, sort⟩

theorem ReadAs.deserializeTree (h : ReadAs r g 0 Q t) {later : Scene}
    (unchanged : later.registry.forget = r.forget) (ext : g.Extends later.graph)
    (within : t.Within later.stack) :
    Gives later (deserializeTree t) fun w k => ∃ since, Q since k w := by
  obtain ⟨tag, root⟩ := h.root
  have placed := Graph.extends_place later.graph t
  have found : t.FoundBelow (later.graph.place t).2.Extends (later.graph.place t).1 :=
    (Graph.foundBelow_place (Nat.le_refl _) root fun _ => .of_extends).2
      fun k later' => h.intact k ((ext.trans placed).trans later')
  obtain ⟨w, last, ran, kept, grown, sort⟩ := h.reads
    { later with graph := (later.graph.place t).2 } later.stack tag _ unchanged (ext.trans placed)
    within root found
  exact ⟨w, last, (deserializeTree_run root later).trans ran, kept, placed.trans grown, _, sort⟩

theorem deserializeTree_packed_run (consistent : r.Consistent) {e : Entry} (used : r.Uses e)
    (allowed : r.Allows 0) {data : Value} {later : Scene}
    (unchanged : later.registry.forget = r.forget) (bytes : later.graph.isBytes data = true)
    (within : (Tree.packed e.tag data).Within later.stack) :
    (deserializeTree (.packed e.tag data)).run later = (rebuild e data).run later := by
  obtain ⟨fuel, room⟩ := within.exists_succ rfl
  rw [deserializeTree_run rfl]
  change (deserializeAt later.stack 0 e.tag data).run later = _
  rw [room, deserializeAt_bytes_run consistent used allowed unchanged bytes]

end Read

/-- A depth at which a value is written, with what is left of the stack. -/
structure Stands (r : Registry) (stack fuel depth : Nat) (s : Scene) : Prop where
  room : depth + fuel = stack
  alike : s.registry.Alike r

section Write

variable {r : Registry} {fuel depth : Nat} {v : Value} {s : Scene}

theorem serializeAt_represented_run (fuel : Nat) (alike : s.registry.Alike r)
    (allowed : r.Allows depth) {representation : Value} {k : Graph}
    (wrote : ((r.entryFor s.graph v).codec.serialize.run v).run s.graph = (.ok representation, k))
    (accepted : (k.isBytes representation || (k.items? representation).isSome) = true) :
    ∃ registry, registry.Alike r ∧ (serializeAt (fuel + 1) depth v).run s =
      ((if k.isBytes representation then
          pure (.packed (r.entryFor s.graph v).tag representation)
        else do
          let slots ← mapItems (encodeItem (serializeAt fuel (depth + 1))) representation 0
            ((k.items? representation).getD []).length
          return .tuple (r.entryFor s.graph v).tag (k.kindOf? representation) slots) :
        Step Tree).run { s with registry, graph := k } := by
  have limit : s.registry.maxDepth = r.maxDepth := (congrArg Registry.maxDepth alike.forget_eq :)
  have within : r.maxDepth.exceededBy depth = false := allowed
  obtain ⟨registry, alike', dispatched⟩ := dispatch_run (v := v) alike
  refine ⟨registry, alike', ?_⟩
  rw [serializeAt, run_bind, checkDepth_run, limit, within, if_neg Bool.false_ne_true]
  dsimp only
  rw [run_bind, dispatched]
  dsimp only
  rw [run_bind, represent_run (s := { s with registry }) wrote accepted]
  dsimp only
  rw [run_bind, run_get]

theorem serializeAt_list_run (fuel : Nat) (alike : s.registry.Alike r)
    (allowed : r.Allows depth) {k : Graph} {ref : Ref} {parts : List Value}
    (wrote : ((r.entryFor s.graph v).codec.serialize.run v).run s.graph = (.ok (.object ref), k))
    (made : k.get? ref = some (madeList parts)) :
    ∃ registry, registry.Alike r ∧ (serializeAt (fuel + 1) depth v).run s =
      (mapItems (encodeItem (serializeAt fuel (depth + 1))) (.object ref) 0 parts.length >>=
        fun slots => pure (.tuple (r.entryFor s.graph v).tag (some .array) slots) : Step Tree).run
          { s with registry, graph := k } := by
  have items : k.items? (.object ref) = some (parts.map some) := Graph.items?_of_get? made rfl
  have list : k.isBytes (.object ref) = false := by
    rw [Graph.isBytes, Graph.kindOf?_of_get? made]
    rfl
  obtain ⟨registry, alike', run⟩ := serializeAt_represented_run fuel alike allowed wrote
    (by rw [items, Option.isSome_some, Bool.or_true])
  refine ⟨registry, alike', run.trans ?_⟩
  rw [list, if_neg Bool.false_ne_true, items, Graph.kindOf?_of_get? made, Option.getD_some,
    List.length_map]
  rfl

theorem serializeAt_bytes_run (fuel : Nat) {data : Value} {k : Graph} (alike : s.registry.Alike r)
    (allowed : r.Allows depth)
    (wrote : ((r.entryFor s.graph v).codec.serialize.run v).run s.graph = (.ok data, k))
    (bytes : k.isBytes data = true) :
    ∃ registry, registry.Alike r ∧ (serializeAt (fuel + 1) depth v).run s =
      (.ok (.packed (r.entryFor s.graph v).tag data), { s with registry, graph := k }) := by
  obtain ⟨registry, alike', run⟩ := serializeAt_represented_run fuel alike allowed wrote
    (by rw [bytes, Bool.true_or])
  refine ⟨registry, alike', run.trans ?_⟩
  rw [bytes, if_pos rfl]
  rfl

variable {stack lowest : Nat}

theorem arrives_of_allows {Q : Tree → Graph → Prop} (stands : Stands r stack fuel depth s)
    (le : depth ≤ lowest)
    (node : ∀ below, fuel = below + 1 → r.Allows depth →
      Arrives r stack lowest s (serializeAt (below + 1) depth v) Q) :
    Arrives r stack lowest s (serializeAt fuel depth v) Q := by
  have room := stands.room
  cases fuel with
  | zero => exact .deep rfl (.noRoom (by omega))
  | succ fuel =>
    cases within : r.maxDepth.exceededBy depth with
    | true =>
      have limit : s.registry.maxDepth = r.maxDepth :=
        (congrArg Registry.maxDepth stands.alike.forget_eq :)
      have run : (serializeAt (fuel + 1) depth v).run s =
          (.error (.registry (.depthExceeded r.maxDepth)), s) := by
        rw [serializeAt, run_bind, checkDepth_run, limit, within, if_pos rfl]
      exact .deep run (.exceeded le within)
    | false => exact node fuel rfl within

/-- A value that its codec makes a list of is written slot by slot, unless the node or one of those
below it is too deep. -/
theorem arrives_of_parts {P : List Tree → Graph → Prop} {Q : Tree → Graph → Prop}
    (stands : Stands r stack fuel depth s) (le : depth ≤ lowest) {k : Graph} {ref : Ref}
    {parts : List Value}
    (wrote : ((r.entryFor s.graph v).codec.serialize.run v).run s.graph = (.ok (.object ref), k))
    (ext : s.graph.Extends k) (made : k.get? ref = some (madeList parts))
    (slots : ∀ fuel s', Stands r stack fuel (depth + 1) s' → s'.graph = k →
      Arrives r stack lowest s'
        (mapItems (encodeItem (serializeAt fuel (depth + 1))) (.object ref) 0 parts.length) P)
    (node : r.Allows depth → ∀ slots last, k.Extends last → P slots last →
      Q (.tuple (r.entryFor s.graph v).tag (some .array) slots) last) :
    Arrives r stack lowest s (serializeAt fuel depth v) Q := by
  refine arrives_of_allows stands le fun fuel more allowed => ?_
  have room := stands.room
  obtain ⟨registry, alike, run⟩ :=
    serializeAt_list_run fuel stands.alike allowed wrote made
  have stands' : Stands r stack fuel (depth + 1) { s with registry, graph := k } :=
    ⟨by omega, alike⟩
  refine .of_run run ext (.bind (slots fuel _ stands' rfl) ?_)
  intro slots s₂ alike₂ ext₂ all
  exact .pure alike₂ (node allowed slots s₂.graph ext₂ all)

theorem item?_madeList {k : Graph} {ref : Ref} {parts : List Value}
    (made : k.get? ref = some (madeList parts)) (h : Graph) (ext : k.Extends h) (i : Nat) :
    h.item? (.object ref) (0 + i) = parts[i]? := by
  rw [Nat.zero_add, Graph.item?_of_items? (Graph.items?_of_get? (ext _ _ made) rfl),
    List.getElem?_map]
  cases parts[i]? <;> rfl

theorem arrives_mapItems_cons {write : Value → Step Tree} {list : Value} {start count : Nat}
    {P : Tree → Graph → Prop} {Q : List Tree → Graph → Prop}
    (held : s.graph.item? list start = some v)
    (first : Arrives r stack lowest s (encodeItem write (some v)) P)
    (rest : ∀ t s', s'.registry.Alike r → s.graph.Extends s'.graph → P t s'.graph →
      Arrives r stack lowest s' (mapItems (encodeItem write) list (start + 1) count)
        fun slots last => s'.graph.Extends last → Q (t :: slots) last) :
    Arrives r stack lowest s (mapItems (encodeItem write) list start (count + 1)) Q := by
  have looked : (mapItems (encodeItem write) list start (count + 1)).run s =
      (encodeItem write (some v) >>= fun t =>
        mapItems (encodeItem write) list (start + 1) count >>= fun slots =>
          pure (t :: slots)).run s := by
    rw [mapItems, run_bind, run_get]
    dsimp only
    rw [held]
  refine .of_run looked (.refl _) (first.bind fun t s₁ alike₁ ext₁ sort₁ => ?_)
  refine (rest t s₁ alike₁ ext₁ sort₁).bind fun slots s₂ alike₂ ext₂ sort₂ => ?_
  exact .pure alike₂ (sort₂ ext₂)

end Write

end Marshal.Registry
