import Marshal.Collect
import Marshal.Proofs.Datum

namespace Marshal

theorem foldl_setEntry {entries present : List (Value × Value)}
    (keys : Keys ((present ++ entries).map Prod.fst)) :
    entries.foldl (fun entries (k, v) => setEntry entries k v) present = present ++ entries := by
  induction entries generalizing present with
  | nil => exact (List.append_nil present).symm
  | cons entry rest ih =>
    obtain ⟨key, value⟩ := entry
    have split : present ++ (key, value) :: rest = present ++ [(key, value)] ++ rest := by simp
    have absent : present.any (·.1.same key) = false := by
      rw [List.any_eq_false]
      intro other mem same
      have distinct := keys.distinct
      rw [List.map_append, List.pairwise_append] at distinct
      rw [distinct.2.2 _ (List.mem_map_of_mem mem) key List.mem_cons_self] at same
      cases same
    have stored : key.asKey = key :=
      keys.stored key (List.mem_map.2 ⟨(key, value), by simp, rfl⟩)
    have put : setEntry present key value = present ++ [(key, value)] := by
      rw [setEntry, absent, if_neg Bool.false_ne_true, stored]
    rw [List.foldl_cons]
    change rest.foldl _ (setEntry present key value) = _
    rw [put, split]
    exact ih (split ▸ keys)

theorem entriesOf_eq_self {entries : List (Value × Value)} (keys : Keys (entries.map Prod.fst)) :
    entriesOf entries = entries :=
  foldl_setEntry keys

theorem foldl_addMember {members present : List Value} (keys : Keys (present ++ members)) :
    members.foldl addMember present = present ++ members := by
  induction members generalizing present with
  | nil => exact (List.append_nil present).symm
  | cons v rest ih =>
    have split : present ++ v :: rest = present ++ [v] ++ rest := by simp
    have absent : present.any (·.same v) = false := by
      rw [List.any_eq_false]
      intro other mem same
      rw [(List.pairwise_append.1 keys.distinct).2.2 other mem v List.mem_cons_self] at same
      cases same
    have put : addMember present v = present ++ [v] := by
      rw [addMember, absent, if_neg Bool.false_ne_true, keys.stored v (by simp)]
    rw [List.foldl_cons, put, split]
    exact ih (split ▸ keys)

theorem membersOf_eq_self {members : List Value} (keys : Keys members) :
    membersOf members = members :=
  foldl_addMember keys

namespace Fields

/-- Names as an object keeps them: none stands there twice, and none after one that it goes
before. -/
structure Kept (names : List String) : Prop where
  distinct : names.Nodup
  placed : names.Pairwise fun a b => precedes b a = false

instance (names : List String) : Decidable (Kept names) :=
  decidable_of_iff (names.Nodup ∧ names.Pairwise fun a b => precedes b a = false)
    ⟨fun h => ⟨h.1, h.2⟩, fun h => ⟨h.distinct, h.placed⟩⟩

theorem Kept.sublist {names others : List String} (kept : Kept names)
    (sublist : others.Sublist names) : Kept others :=
  ⟨kept.distinct.sublist sublist, kept.placed.sublist sublist⟩

theorem place_eq_append {key : String} {value : Value} {fields : Fields}
    (last : ∀ name ∈ fields.keys, precedes key name = false) :
    place key value fields = fields ++ [(key, value)] := by
  induction fields with
  | nil => rfl
  | cons field rest ih =>
    obtain ⟨first, others⟩ := List.forall_mem_cons.1 last
    rw [place, first, if_neg Bool.false_ne_true, ih others]
    rfl

theorem foldl_set {fields present : Fields} (kept : Kept (keys (present ++ fields))) :
    fields.foldl (fun fields (k, v) => set fields k v) present = present ++ fields := by
  induction fields generalizing present with
  | nil => exact (List.append_nil present).symm
  | cons field rest ih =>
    obtain ⟨key, value⟩ := field
    have split : present ++ (key, value) :: rest = present ++ [(key, value)] ++ rest := by simp
    have distinct := kept.distinct
    have placed := kept.placed
    rw [keys, List.map_append, List.map_cons] at distinct placed
    have absent : present.any (·.1 == key) = false := by
      rw [List.any_eq_false]
      intro other mem same
      exact List.disjoint_of_nodup_append distinct (List.mem_map_of_mem mem)
        (eq_of_beq same ▸ List.mem_cons_self)
    have put : set present key value = present ++ [(key, value)] := by
      rw [set, absent, if_neg Bool.false_ne_true]
      exact place_eq_append fun name mem =>
        (List.pairwise_append.1 placed).2.2 name mem key List.mem_cons_self
    rw [List.foldl_cons]
    change rest.foldl _ (set present key value) = _
    rw [put, split]
    exact ih (split ▸ kept)

theorem precedes_asymm {a b : String} (before : precedes a b = true) : precedes b a = false := by
  unfold precedes at *
  cases first : indexOfKey? a <;> cases second : indexOfKey? b <;> simp_all
  omega

theorem precedes_trans {a b c : String} (first : precedes a b = true)
    (second : precedes b c = true) : precedes a c = true := by
  unfold precedes at *
  cases left : indexOfKey? a <;> cases middle : indexOfKey? b <;> cases right : indexOfKey? c <;>
    simp_all
  omega

theorem place_perm (key : String) (value : Value) (fields : Fields) :
    (place key value fields).Perm ((key, value) :: fields) := by
  induction fields with
  | nil => exact .refl _
  | cons field rest ih =>
    rw [place]
    split
    · exact .refl _
    · exact (ih.cons _).trans (.swap _ _ _)

theorem keys_place_perm (key : String) (value : Value) (fields : Fields) :
    (place key value fields).keys.Perm (key :: fields.keys) :=
  (place_perm key value fields).map Prod.fst

theorem Kept.place {key : String} {fields : Fields} (kept : Kept fields.keys)
    (absent : key ∉ fields.keys) (value : Value) : Kept (place key value fields).keys := by
  refine ⟨(keys_place_perm key value fields).nodup_iff.2 (kept.distinct.cons absent), ?_⟩
  have placed := kept.placed
  clear kept absent
  induction fields with
  | nil => exact List.pairwise_singleton _ _
  | cons field rest ih =>
    obtain ⟨later, inside⟩ := List.pairwise_cons.1 placed
    rw [Fields.place]
    split
    next before =>
      refine List.pairwise_cons.2 ⟨?_, placed⟩
      intro name mem
      rcases List.mem_cons.1 mem with rfl | behind
      · exact precedes_asymm before
      · refine Bool.eq_false_iff.2 fun wrong => ?_
        cases (later name behind).symm.trans (precedes_trans wrong before)
    next behind =>
      refine List.pairwise_cons.2 ⟨fun name mem => ?_, ih inside⟩
      rcases List.mem_cons.1 ((keys_place_perm key value rest).mem_iff.1 mem) with rfl | old
      · exact Bool.eq_false_iff.2 behind
      · exact later name old

theorem ofList_eq_self {fields : Fields} (kept : Kept fields.keys) : ofList fields = fields :=
  foldl_set kept

theorem keys_set_of_mem {key : String} {fields : Fields} (present : key ∈ fields.keys)
    (value : Value) : (set fields key value).keys = fields.keys := by
  have any : fields.any (·.1 == key) = true := by
    obtain ⟨field, mem, rfl⟩ := List.mem_map.1 present
    exact List.any_eq_true.2 ⟨field, mem, beq_self_eq_true _⟩
  rw [set, any, if_pos rfl, keys, List.map_map]
  refine List.map_congr_left fun ⟨name, _⟩ _ => ?_
  dsimp only [Function.comp]
  split <;> rfl

theorem set_of_notMem {key : String} {fields : Fields} (absent : key ∉ fields.keys)
    (value : Value) : set fields key value = place key value fields := by
  have none : fields.any (·.1 == key) = false := by
    refine List.any_eq_false.2 fun field mem same => absent ?_
    exact eq_of_beq same ▸ List.mem_map_of_mem mem
  rw [set, none, if_neg Bool.false_ne_true]

theorem mem_keys_set {name key : String} {value : Value} {fields : Fields} :
    name ∈ (set fields key value).keys ↔ name = key ∨ name ∈ fields.keys := by
  by_cases present : key ∈ fields.keys
  · rw [keys_set_of_mem present]
    exact ⟨.inr, fun h => h.elim (· ▸ present) id⟩
  · rw [set_of_notMem present, (keys_place_perm key value fields).mem_iff, List.mem_cons]

theorem Kept.set {fields : Fields} (kept : Kept fields.keys) (key : String) (value : Value) :
    Kept (set fields key value).keys := by
  by_cases present : key ∈ fields.keys
  · rw [keys_set_of_mem present]
    exact kept
  · rw [set_of_notMem present]
    exact kept.place present value

/-- However names come, an object keeps them in its order. -/
theorem kept_ofList (pairs : List (String × Value)) : Kept (ofList pairs).keys := by
  have step : ∀ present : Fields, Kept present.keys →
      Kept (keys (pairs.foldl (fun fields (k, v) => set fields k v) present)) := by
    induction pairs with
    | nil => exact fun _ kept => kept
    | cons pair rest ih => exact fun present kept => ih _ (kept.set pair.1 pair.2)
  exact step [] ⟨.nil, .nil⟩

theorem mem_keys_foldl_set {name : String} {pairs : List (String × Value)} {present : Fields} :
    name ∈ keys (pairs.foldl (fun fields (k, v) => set fields k v) present) ↔
      name ∈ present.keys ∨ name ∈ pairs.map Prod.fst := by
  induction pairs generalizing present with
  | nil => exact ⟨.inl, fun h => h.elim id (nomatch ·)⟩
  | cons pair rest ih =>
    rw [List.foldl_cons, ih, mem_keys_set, List.map_cons, List.mem_cons]
    tauto

theorem foldl_set_perm {pairs : List (String × Value)} {present : Fields}
    (distinct : (keys (present ++ pairs)).Nodup) :
    (pairs.foldl (fun fields (k, v) => set fields k v) present).Perm (present ++ pairs) := by
  induction pairs generalizing present with
  | nil => rw [List.append_nil, List.foldl_nil]
  | cons pair rest ih =>
    obtain ⟨key, value⟩ := pair
    have moved : (place key value present ++ rest).Perm (present ++ (key, value) :: rest) :=
      ((place_perm key value present).append_right rest).trans List.perm_middle.symm
    have absent : key ∉ present.keys := fun mem => by
      rw [keys, List.map_append, List.map_cons] at distinct
      exact List.disjoint_of_nodup_append distinct mem List.mem_cons_self
    rw [List.foldl_cons]
    change (rest.foldl _ (set present key value)).Perm _
    rw [set_of_notMem absent]
    exact (ih ((moved.map Prod.fst).nodup_iff.2 distinct)).trans moved

theorem ofList_perm {pairs : List (String × Value)} (distinct : (pairs.map Prod.fst).Nodup) :
    (ofList pairs).Perm pairs :=
  foldl_set_perm distinct

theorem lookup_of_mem {fields : Fields} (distinct : fields.keys.Nodup) {name : String} {w : Value}
    (mem : (name, w) ∈ fields) : fields.lookup name = some w := by
  obtain ⟨before, after, rfl⟩ := List.append_of_mem mem
  refine List.lookup_eq_some_iff.2 ⟨before, after, rfl, fun field early => ?_⟩
  rw [keys, List.map_append, List.map_cons] at distinct
  rw [bne_iff_ne]
  rintro rfl
  exact List.disjoint_of_nodup_append distinct (List.mem_map_of_mem early) List.mem_cons_self

end Fields

end Marshal
