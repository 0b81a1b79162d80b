import Marshal.Proofs.Registry.Transparent

namespace Marshal.Registry

open Marshal.Effect
open Marshal.Step

theorem checkDepth_run (depth : Nat) (s : Scene) :
    (checkDepth depth).run s =
      if s.registry.maxDepth.exceededBy depth then
        (.error (.registry (.depthExceeded s.registry.maxDepth)), s)
      else (.ok (), s) := by
  change (if s.registry.maxDepth.exceededBy depth = true then
    throw (.registry (.depthExceeded s.registry.maxDepth)) else pure () : Step Unit).run s = _
  split <;> rfl

theorem checkDepth_ok {depth : Nat} {s s' : Scene} {u : Unit}
    (h : (checkDepth depth).run s = (.ok u, s')) :
    s.registry.maxDepth.exceededBy depth = false ∧ s = s' := by
  rw [checkDepth_run] at h
  split at h
  next => cases h
  next within =>
    cases h
    exact ⟨Bool.eq_false_iff.2 within, rfl⟩

theorem dispatch_ok {v : Value} {e : Entry} {s s' : Scene} (remembers : s.registry.Remembers)
    (h : (dispatch v).run s = (.ok e, s')) :
    e = s.registry.entryFor s.graph v ∧ s'.graph = s.graph := by
  rw [← remembers.resolve_eq]
  cases h
  exact ⟨rfl, rfl⟩

theorem act_run {α : Type} (action : Action α) (s : Scene) :
    (act action).run s =
      (.ok (action.run s.graph).1, { s with graph := (action.run s.graph).2 }) := rfl

theorem represent_ok {e : Entry} {v representation : Value} {s s' : Scene}
    (h : (represent e v).run s = (.ok representation, s')) :
    (e.codec.serialize.run v).run s.graph = (.ok representation, s'.graph) ∧
      (s'.graph.isBytes representation || (s'.graph.items? representation).isSome) = true := by
  rw [represent, run_bind_eq_ok] at h
  obtain ⟨_, _, ⟨⟩, h⟩ := h
  rw [run_bind_eq_ok] at h
  obtain ⟨result, made, ran, h⟩ := h
  rw [act_run] at ran
  cases ran
  cases outcome : ((e.codec.serialize.run v).run s.graph).1 with
  | error fault =>
    rw [outcome] at h
    dsimp only at h
    rw [run_bind_eq_ok] at h
    obtain ⟨_, _, -, h⟩ := h
    cases h
  | ok made =>
    rw [outcome] at h
    dsimp only at h
    rw [run_bind_eq_ok] at h
    obtain ⟨_, _, ⟨⟩, h⟩ := h
    dsimp only at h
    split at h
    next accepted =>
      cases h
      exact ⟨Prod.ext outcome rfl, accepted⟩
    next =>
      rw [run_bind_eq_ok] at h
      obtain ⟨_, _, -, h⟩ := h
      cases h

theorem represent_run {e : Entry} {v representation : Value} {s : Scene} {k : Graph}
    (ran : (e.codec.serialize.run v).run s.graph = (.ok representation, k))
    (accepted : (k.isBytes representation || (k.items? representation).isSome) = true) :
    (represent e v).run s = (.ok representation, { s with graph := k }) := by
  rw [represent, run_bind, run_get]
  dsimp only
  rw [run_bind, act_run, ran]
  dsimp only
  rw [run_bind, run_get]
  dsimp only
  rw [if_pos accepted]
  rfl

/-- The checks before the reading of a node, in the order in which they are made. -/
theorem enter_run (tag : String) (depth : Nat) (s : Scene) :
    (enter tag depth).run s =
      if s.registry.maxDepth.exceededBy depth then
        (.error (.registry (.depthExceeded s.registry.maxDepth)), s)
      else
        match s.registry.entryForTag? tag with
        | some e => (.ok e, s)
        | none => (.error (.registry (.unregisteredTag tag)), s) := by
  rw [enter, run_bind, checkDepth_run]
  cases s.registry.maxDepth.exceededBy depth with
  | true => rfl
  | false =>
    change (match s.registry.entryForTag? tag with
        | some e => pure e
        | none => throw (.registry (.unregisteredTag tag)) : Step Entry).run s = _
    rw [if_neg Bool.false_ne_true]
    split <;> rfl

theorem rebuild_ok {e : Entry} {data x : Value} {s : Scene} {k : Graph}
    (h : (e.codec.deserialize.run data).run s.graph = (.ok x, k)) :
    (rebuild e data).run s = (.ok x, { s with graph := k }) := by
  rw [rebuild, run_bind, act_run, h]
  rfl

theorem enter_eq_ok {tag : String} {depth : Nat} {e : Entry} {s s' : Scene}
    (h : (enter tag depth).run s = (.ok e, s')) :
    s.registry.maxDepth.exceededBy depth = false ∧ s.registry.entryForTag? tag = some e ∧
      s = s' := by
  rw [enter_run] at h
  split at h
  next => cases h
  next within =>
    split at h
    next bound =>
      cases h
      exact ⟨Bool.eq_false_iff.2 within, bound, rfl⟩
    next => cases h

theorem rebuild_eq_ok {e : Entry} {data x : Value} {s s' : Scene}
    (h : (rebuild e data).run s = (.ok x, s')) :
    (e.codec.deserialize.run data).run s.graph = (.ok x, s'.graph) ∧
      s'.registry = s.registry := by
  rw [rebuild, run_bind, act_run] at h
  cases outcome : ((e.codec.deserialize.run data).run s.graph).1 with
  | error fault =>
    rw [outcome] at h
    dsimp only at h
    obtain ⟨_, _, -, h⟩ := run_bind_eq_ok.1 h
    cases h
  | ok made =>
    rw [outcome] at h
    cases h
    exact ⟨Prod.ext outcome rfl, rfl⟩

theorem newObject_run (o : Object) (s : Scene) :
    (newObject o).run s = (.ok (.object s.graph.size), { s with graph := s.graph.add o }) := rfl

theorem encodeItem_run (write : Value → Step Tree) (v : Value) (s : Scene) :
    (encodeItem write (some v)).run s =
      if s.graph.isLeaf v then (.ok (.leaf v), s) else (write v).run s := by
  rw [encodeItem, run_bind, run_get]
  dsimp only
  split <;> rfl

theorem decodeItem_leaf_run (read : String → Value → Step Value) {v : Value} {s : Scene}
    (leaf : s.graph.look v = .ok none) :
    (decodeItem read (some v)).run s = (.ok (some v), s) := by
  rw [decodeItem, run_bind, run_get]
  dsimp only
  rw [leaf]
  rfl

theorem decodeItem_node_run (read : String → Value → Step Value) {v data : Value} {tag : String}
    {s : Scene} (node : s.graph.look v = .ok (some (tag, data))) :
    (decodeItem read (some v)).run s = (read tag data >>= fun w => pure (some w)).run s := by
  rw [decodeItem, run_bind, run_get]
  dsimp only
  rw [node]

theorem decodeItem_unreadable_run (read : String → Value → Step Value) {v : Value} {s : Scene}
    {fault : Fault} (failed : s.graph.look v = .error fault) :
    (decodeItem read (some v)).run s = (.error fault, s) := by
  rw [decodeItem, run_bind, run_get]
  dsimp only
  rw [failed]
  rfl

theorem decodeItem_eq_ok {read : String → Value → Step Value} {v : Value} {x : Option Value}
    {s s' : Scene} (ran : (decodeItem read (some v)).run s = (.ok x, s')) :
    (s.graph.look v = .ok none ∧ x = some v ∧ s' = s) ∨
      ∃ tag data w, s.graph.look v = .ok (some (tag, data)) ∧
        (read tag data).run s = (.ok w, s') ∧ x = some w := by
  cases looked : s.graph.look v with
  | error fault =>
    rw [decodeItem_unreadable_run read looked] at ran
    cases ran
  | ok node =>
    cases node with
    | none =>
      rw [decodeItem_leaf_run read looked] at ran
      cases ran
      exact .inl ⟨rfl, rfl, rfl⟩
    | some node =>
      rw [decodeItem_node_run read looked] at ran
      obtain ⟨w, _, taken, ⟨⟩⟩ := run_bind_eq_ok.1 ran
      exact .inr ⟨_, _, w, rfl, taken, rfl⟩

theorem input_bytes_run (read : String → Value → Step Value) {data : Value} {s : Scene}
    (bytes : s.graph.isBytes data = true) : (input read data).run s = (.ok data, s) := by
  rw [input, run_bind, run_get]
  dsimp only
  rw [bytes, if_pos rfl]
  rfl

theorem input_list_run (read : String → Value → Step Value) {data : Value}
    {items : List (Option Value)} {s : Scene} (other : s.graph.isBytes data = false)
    (found : s.graph.items? data = some items) :
    (input read data).run s =
      (do
        let decoded ← mapItems (decodeItem read) data 0 items.length
        newObject { kind := s.graph.kindOf? data, body := .list decoded } : Step Value).run s := by
  have body : (s.graph.objectOf? data).map Object.body = some (.list items) := by
    rw [Graph.items?] at found
    split at found
    next body =>
      rw [body, Option.some.inj found]
    next => cases found
  rw [input, run_bind, run_get]
  dsimp only
  rw [other, if_neg Bool.false_ne_true, body]

theorem deserialize_run (tag : String) (data : Value) (s : Scene) :
    (deserialize tag data).run s = (deserializeAt s.stack 0 tag data).run s := rfl

theorem deserializeTree_run {t : Tree} {tag : String} (root : t.tag? = some tag) (s : Scene) :
    (deserializeTree t).run s =
      (deserialize tag (s.graph.place t).1).run { s with graph := (s.graph.place t).2 } := by
  rw [deserializeTree, run_bind, run_get]
  dsimp only
  rw [run_bind, run_set, root]

end Marshal.Registry
