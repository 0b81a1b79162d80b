import Marshal.Proofs.Registry.Run
import Marshal.Registry.Defaults

namespace Marshal

namespace Registry

open Marshal.Effect

def builtIn : Class × String × Codec → Entry
  | (c, tag, codec) => ⟨some (.ofClass c), tag, codec, false⟩

def withBuiltIn (r : Registry) (handlers : List (Class × String × Codec)) : Registry :=
  { r with
    byClass := r.byClass ++ handlers.map fun h => (h.1, builtIn h)
    byTag := r.byTag ++ handlers.map fun h => (h.2.1, builtIn h)
    resolved := [] }

theorem keys_byClass_withBuiltIn (r : Registry) (handlers : List (Class × String × Codec)) :
    (r.withBuiltIn handlers).byClass.keys = r.byClass.keys ++ handlers.map (·.1) := by
  rw [withBuiltIn, Assoc.keys, List.map_append, List.map_map]
  rfl

theorem keys_byTag_withBuiltIn (r : Registry) (handlers : List (Class × String × Codec)) :
    (r.withBuiltIn handlers).byTag.keys = r.byTag.keys ++ handlers.map (·.2.1) := by
  rw [withBuiltIn, Assoc.keys, List.map_append, List.map_map]
  rfl

theorem register_run {r : Registry} {h : Class × String × Codec} (unreserved : h.2.1 ≠ fallbackTag)
    (freeClass : h.1 ∉ r.byClass.keys) (freeTag : h.2.1 ∉ r.byTag.keys) (notices : List Notice) :
    (r.register (.ofClass h.1) h.2.1 h.2.2).run notices =
      (.ok (r.withBuiltIn [h]),
        notices ++ [.entry ⟨r.name, .registered h.2.1 h.1.name⟩]) := by
  obtain ⟨c, tag, codec⟩ := h
  have noClass := Assoc.find?_of_notMem_keys freeClass
  have noTag := Assoc.find?_of_notMem_keys freeTag
  have put : r.rebind c (builtIn (c, tag, codec)) = r.withBuiltIn [(c, tag, codec)] := by
    have noTag' : r.byTag.find? (builtIn (c, tag, codec)).tag = none := noTag
    rw [rebind_of_free noClass noTag', store, withBuiltIn, Assoc.set_of_find?_eq_none noClass,
      Assoc.set_of_find?_eq_none noTag']
    rfl
  rw [register, bind_free_run codec false rfl unreserved noClass noTag notices]
  exact congrArg (fun bound => (Except.ok bound, _)) put

/-- Handlers for different classes and tags, none of which a registry has. -/
structure Addable (r : Registry) (handlers : List (Class × String × Codec)) : Prop where
  unreserved : ∀ h ∈ handlers, h.2.1 ≠ fallbackTag
  classes : (r.byClass.keys ++ handlers.map (·.1)).Nodup
  tags : (r.byTag.keys ++ handlers.map (·.2.1)).Nodup

theorem Addable.tail {r : Registry} {h : Class × String × Codec}
    {rest : List (Class × String × Codec)} (addable : r.Addable (h :: rest)) :
    (r.withBuiltIn [h]).Addable rest := by
  refine ⟨fun h mem => addable.unreserved h (List.mem_cons_of_mem _ mem), ?_, ?_⟩
  · rw [keys_byClass_withBuiltIn, List.append_assoc]
    exact addable.classes
  · rw [keys_byTag_withBuiltIn, List.append_assoc]
    exact addable.tags

theorem Addable.register_run {r : Registry} {h : Class × String × Codec}
    {rest : List (Class × String × Codec)} (addable : r.Addable (h :: rest))
    (notices : List Notice) :
    (r.register (.ofClass h.1) h.2.1 h.2.2).run notices =
      (.ok (r.withBuiltIn [h]),
        notices ++ [.entry ⟨r.name, .registered h.2.1 h.1.name⟩]) := by
  refine Registry.register_run (addable.unreserved h List.mem_cons_self) ?_ ?_ notices
  · exact fun held => (List.nodup_append.1 addable.classes).2.2 _ held _ List.mem_cons_self rfl
  · exact fun held => (List.nodup_append.1 addable.tags).2.2 _ held _ List.mem_cons_self rfl

theorem withBuiltIn_nil {r : Registry} (blank : r.resolved = []) : r.withBuiltIn [] = r := by
  cases r
  subst blank
  simp only [withBuiltIn, List.map_nil, List.append_nil]

theorem withBuiltIn_cons (r : Registry) (h : Class × String × Codec)
    (rest : List (Class × String × Codec)) :
    (r.withBuiltIn [h]).withBuiltIn rest = r.withBuiltIn (h :: rest) := by
  simp only [withBuiltIn, List.append_assoc, List.map_cons, List.map_nil, List.cons_append,
    List.nil_append]

theorem Addable.foldlM_run {r : Registry} {handlers : List (Class × String × Codec)}
    (addable : r.Addable handlers) (blank : r.resolved = []) (notices : List Notice) :
    ∃ after, (handlers.foldlM (fun (r : Registry) (c, tag, codec) =>
      r.register (.ofClass c) tag codec) r).run notices =
        (.ok (r.withBuiltIn handlers), after) := by
  induction handlers generalizing r notices with
  | nil =>
    rw [withBuiltIn_nil blank]
    exact ⟨notices, rfl⟩
  | cons h rest ih =>
    obtain ⟨after, ran⟩ :=
      ih addable.tail rfl (notices ++ [.entry ⟨r.name, .registered h.2.1 h.1.name⟩])
    refine ⟨after, ?_⟩
    rw [List.foldlM_cons, run_bind, addable.register_run notices]
    dsimp only
    rw [ran, withBuiltIn_cons]

theorem Addable.run_registers {r : Registry} {handlers : List (Class × String × Codec)}
    (addable : r.Addable handlers) (blank : r.resolved = []) :
    r.run (handlers.map fun h => .register (.ofClass h.1) h.2.1 h.2.2) =
      r.withBuiltIn handlers := by
  induction handlers generalizing r with
  | nil => exact (withBuiltIn_nil blank).symm
  | cons h rest ih =>
    have first : (r.perform (.register (.ofClass h.1) h.2.1 h.2.2)).registry =
        r.withBuiltIn [h] := by
      rw [perform, binding, addable.register_run []]
    rw [List.map_cons, Registry.run, List.foldl_cons, first]
    exact (ih addable.tail rfl).trans (withBuiltIn_cons r h rest)

def builtInOnly (options : Options) : Registry :=
  (new { options with name := some (options.name.getD "default") }).withBuiltIn Defaults.handlers

theorem addable_handlers (options : Options) : (new options).Addable Defaults.handlers :=
  ⟨by decide, (by decide : (Defaults.handlers.map (·.1)).Nodup),
    (by decide : (Defaults.handlers.map (·.2.1)).Nodup)⟩

theorem standard_run (options : Options) (notices : List Notice) :
    ∃ after, (standard options).run notices = (.ok (builtInOnly options), after) :=
  (addable_handlers _).foldlM_run rfl notices

theorem sound_builtInOnly (options : Options) : (builtInOnly options).Sound := by
  rw [builtInOnly, ← (addable_handlers _).run_registers rfl]
  exact (sound_new _).run _

theorem nearest_builtInOnly {options : Options} {h : Class × String × Codec}
    (mem : h ∈ Defaults.handlers) (ancestors : List Class) :
    (builtInOnly options).nearest (h.1 :: ancestors) = builtIn h := by
  have found : (builtInOnly options).byClass.find? h.1 = some (builtIn h) := by
    rw [(sound_builtInOnly options).consistent.mem_byClass_iff.symm]
    exact List.mem_map_of_mem mem
  rw [nearest, List.findSome?_cons, found]
  rfl

theorem lineage_of_handler {h : Class × String × Codec} (mem : h ∈ Defaults.handlers) :
    h.1.lineage = [h.1, .object] ∧ h.1 ≠ .object := by
  have all : ∀ c ∈ Defaults.handlers.map (·.1), c.lineage = [c, .object] ∧ c ≠ .object := by decide
  exact all h.1 (List.mem_map_of_mem mem)

theorem nearest_of_isWithin {options : Options} {h : Class × String × Codec}
    (mem : h ∈ Defaults.handlers) {c : Class} (within : c.isWithin h.1 = true) :
    (builtInOnly options).nearest c.lineage = builtIn h := by
  have ancestor : h.1 ∈ c.lineage := by rwa [Class.isWithin, List.contains_iff_mem] at within
  clear within
  induction c with
  | root t =>
    rw [Class.lineage, ← List.mem_singleton.1 ancestor]
    exact nearest_builtInOnly mem []
  | sub t parent ih =>
    rcases List.mem_cons.1 ancestor with same | above
    · rw [Class.lineage, ← same]
      exact nearest_builtInOnly mem parent.lineage
    · have unbound : (builtInOnly options).byClass.find? (.sub t parent) = none := by
        apply Assoc.find?_of_notMem_keys
        rw [builtInOnly, keys_byClass_withBuiltIn]
        intro bound
        obtain ⟨h', mem', same⟩ := List.mem_map.1 bound
        have lineage := (lineage_of_handler mem').1
        rw [same, Class.lineage, List.cons.injEq] at lineage
        rw [lineage.2] at above
        exact (lineage_of_handler mem).2 (List.mem_singleton.1 above)
      have next := ih above
      rw [nearest] at next
      rwa [nearest, Class.lineage, List.findSome?_cons, unbound]

theorem nearest_numbers (options : Options) (d : DType) :
    (builtInOnly options).nearest (Class.numbers d).lineage =
      builtIn (.typedArray, "ndarray", Defaults.fresh Defaults.writeArray Defaults.readArray) :=
  nearest_of_isWithin (h := (.typedArray, "ndarray", _)) (List.mem_of_getElem? (i := 6) rfl)
    (by cases d <;> decide)

end Registry

end Marshal
