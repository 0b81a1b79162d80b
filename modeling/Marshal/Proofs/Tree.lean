import Marshal.Tree

namespace Marshal

namespace Tree

def slots : Tree → List Tree
  | tuple _ _ slots => slots
  | _ => []

/-- What stands in a tree, with the number of levels above it. -/
inductive Has : Tree → Nat → Tree → Prop where
  | root (t : Tree) : t.Has 0 t
  | slot {t u n : Tree} {d : Nat} (mem : u ∈ t.slots) (below : u.Has d n) : t.Has (d + 1) n

/-- What the root of a tree has to be, to be read back as the same: bytes are bytes still, the class
of a list is not that of bytes, and a leaf does not look like a node. -/
def Legible (g : Graph) : Tree → Prop
  | hole => True
  | leaf v => g.look v = .ok none
  | packed _ data => g.isBytes data = true
  | tuple _ kind _ => kind.any (·.isWithin (.numbers .uint8)) = false

/-- A tree that is read back as it is. -/
def Intact (g : Graph) (t : Tree) : Prop := ∀ d u, t.Has d u → u.Legible g

/-- A tree with fewer levels of nodes than this. -/
def Within (levels : Nat) (t : Tree) : Prop := ∀ d u, t.Has d u → u.isNode = true → d < levels

theorem intact_iff {g : Graph} {t : Tree} :
    t.Intact g ↔ t.Legible g ∧ ∀ u ∈ t.slots, u.Intact g := by
  constructor
  · intro h
    refine ⟨h 0 t (.root t), ?_⟩
    intro u mem d n below
    exact h (d + 1) n (.slot mem below)
  · rintro ⟨root, slots⟩ d u has
    cases has with
    | root => exact root
    | slot mem below => exact slots _ mem _ _ below

theorem intact_of_slots_eq_nil {g : Graph} {t : Tree} (empty : t.slots = []) :
    t.Intact g ↔ t.Legible g := by
  rw [intact_iff, empty]
  exact and_iff_left fun _ mem => absurd mem List.not_mem_nil

@[simp]
theorem intact_hole {g : Graph} : hole.Intact g ↔ True := intact_of_slots_eq_nil rfl

@[simp]
theorem intact_leaf {g : Graph} {v : Value} : (leaf v).Intact g ↔ g.look v = .ok none :=
  intact_of_slots_eq_nil rfl

@[simp]
theorem intact_packed {g : Graph} {tag : String} {data : Value} :
    (packed tag data).Intact g ↔ g.isBytes data = true :=
  intact_of_slots_eq_nil rfl

@[simp]
theorem intact_tuple {g : Graph} {tag : String} {kind : Option Class} {slots : List Tree} :
    (tuple tag kind slots).Intact g ↔
      kind.any (·.isWithin (.numbers .uint8)) = false ∧ ∀ u ∈ slots, u.Intact g :=
  intact_iff

theorem Within.exists_succ {levels : Nat} {t : Tree} (h : t.Within levels)
    (node : t.isNode = true) : ∃ below, levels = below + 1 :=
  Nat.exists_eq_add_of_lt (h 0 t (.root t) node) |>.imp fun _ same => by omega

theorem Within.slot {levels : Nat} {t u : Tree} (h : t.Within (levels + 1)) (mem : u ∈ t.slots) :
    u.Within levels := by
  intro d n below node
  have := h (d + 1) n (.slot mem below) node
  omega

theorem within_of_slots_eq_nil {levels : Nat} {t : Tree} (empty : t.slots = [])
    (other : t.isNode = false) : t.Within levels := by
  intro d u has node
  cases has with
  | root => cases other.symm.trans node
  | slot mem _ =>
    rw [empty] at mem
    cases mem

theorem within_succ {levels : Nat} {t : Tree} (slots : ∀ u ∈ t.slots, u.Within levels) :
    t.Within (levels + 1) := by
  intro d u has node
  cases has with
  | root => exact Nat.succ_pos levels
  | slot mem below => exact Nat.succ_lt_succ (slots _ mem _ _ below node)

theorem Within.mono {levels levels' : Nat} {t : Tree} (h : t.Within levels)
    (le : levels ≤ levels') : t.Within levels' :=
  fun d u has node => Nat.lt_of_lt_of_le (h d u has node) le

def ListOf (g : Graph) (kind : Option Class) (count : Nat) (data : Value) : Prop :=
  g.isBytes data = false ∧ g.kindOf? data = kind ∧
    ∃ items, g.items? data = some items ∧ items.length = count

mutual

/-- An item of a list is, in all graphs of a sort, what the tree says. -/
def FoundAt (K : Graph → Prop) : Tree → Option Value → Prop
  | hole, item => item = none
  | leaf v, item => item = some v ∧ ∀ k, K k → k.look v = .ok none
  | packed tag data, item => ∃ v, item = some v ∧
    ∀ k, K k → k.look v = .ok (some (tag, data)) ∧ k.isBytes data = true
  | tuple tag kind slots, item => ∃ v data, item = some v ∧
    (∀ k, K k → k.look v = .ok (some (tag, data)) ∧ ListOf k kind slots.length data) ∧
      AllFoundAt K data 0 slots

def AllFoundAt (K : Graph → Prop) (list : Value) : (start : Nat) → List Tree → Prop
  | _, [] => True
  | start, t :: rest => (∃ item, (∀ k, K k → k.item? list start = item) ∧ t.FoundAt K item) ∧
    AllFoundAt K list (start + 1) rest

end

/-- The data of a node are, in all graphs of a sort, what stands below the root of the tree. -/
def FoundBelow (K : Graph → Prop) : Tree → Value → Prop
  | hole, _ | leaf _, _ => False
  | packed _ own, data => data = own ∧ ∀ k, K k → k.isBytes data = true
  | tuple _ kind slots, data =>
    (∀ k, K k → ListOf k kind slots.length data) ∧ AllFoundAt K data 0 slots

section Found

variable {K K' : Graph → Prop}

mutual

theorem FoundAt.mono (sub : ∀ k, K' k → K k) : (t : Tree) → {item : Option Value} →
    t.FoundAt K item → t.FoundAt K' item
  | hole, _, h => h
  | leaf _, _, h => ⟨h.1, fun k kept => h.2 k (sub k kept)⟩
  | packed _ _, _, h => by
    obtain ⟨v, same, node⟩ := h
    exact ⟨v, same, fun k kept => node k (sub k kept)⟩
  | tuple _ _ slots, _, h => by
    obtain ⟨v, data, same, node, all⟩ := h
    exact ⟨v, data, same, fun k kept => node k (sub k kept), AllFoundAt.mono sub slots all⟩

theorem AllFoundAt.mono (sub : ∀ k, K' k → K k) {list : Value} : (slots : List Tree) →
    {start : Nat} → AllFoundAt K list start slots → AllFoundAt K' list start slots
  | [], _, _ => trivial
  | t :: rest, _, h => by
    obtain ⟨⟨item, held, first⟩, all⟩ := h
    exact ⟨⟨item, fun k kept => held k (sub k kept), FoundAt.mono sub t first⟩,
      AllFoundAt.mono sub rest all⟩

end

theorem FoundAt.exists_data {t : Tree} {tag : String} {item : Option Value}
    (root : t.tag? = some tag) (h : t.FoundAt K item) :
    ∃ v data, item = some v ∧ (∀ k, K k → k.look v = .ok (some (tag, data))) ∧
      t.FoundBelow K data := by
  cases t with
  | hole | leaf => cases root
  | packed own data =>
    cases root
    obtain ⟨v, same, node⟩ := h
    exact ⟨v, data, same, fun k kept => (node k kept).1, rfl, fun k kept => (node k kept).2⟩
  | tuple own kind slots =>
    cases root
    obtain ⟨v, data, same, node, all⟩ := h
    exact ⟨v, data, same, fun k kept => (node k kept).1, fun k kept => (node k kept).2, all⟩

theorem ListOf.other {g : Graph} {kind : Option Class} {count : Nat} {data : Value}
    (h : ListOf g kind count data) : kind.any (·.isWithin (.numbers .uint8)) = false := by
  obtain ⟨other, own, -⟩ := h
  rwa [Graph.isBytes, own] at other

mutual

theorem FoundAt.intact {k : Graph} (kept : K k) : (t : Tree) → {item : Option Value} →
    t.FoundAt K item → t.Intact k
  | hole, _, _ => intact_hole.2 trivial
  | leaf _, _, h => intact_leaf.2 (h.2 k kept)
  | packed _ _, _, h => by
    obtain ⟨v, -, node⟩ := h
    exact intact_packed.2 (node k kept).2
  | tuple _ _ slots, _, h => by
    obtain ⟨v, data, -, node, all⟩ := h
    exact intact_tuple.2 ⟨(node k kept).2.other, AllFoundAt.intact kept slots all⟩

theorem AllFoundAt.intact {k : Graph} (kept : K k) {list : Value} : (slots : List Tree) →
    {start : Nat} → AllFoundAt K list start slots → ∀ t ∈ slots, t.Intact k
  | [], _, _ => fun _ mem => absurd mem List.not_mem_nil
  | t :: rest, _, h => by
    obtain ⟨⟨item, -, first⟩, all⟩ := h
    exact List.forall_mem_cons.2 ⟨FoundAt.intact kept t first, AllFoundAt.intact kept rest all⟩

end

theorem FoundBelow.intact {k : Graph} (kept : K k) {t : Tree} {data : Value}
    (h : t.FoundBelow K data) : t.Intact k := by
  cases t with
  | hole | leaf => exact h.elim
  | packed tag own =>
    obtain ⟨rfl, bytes⟩ := h
    exact intact_packed.2 (bytes k kept)
  | tuple tag kind slots => exact intact_tuple.2 ⟨(h.1 k kept).other, h.2.intact kept slots⟩

end Found

end Tree

namespace Graph

/-- The objects of one graph are in another one, as they were. -/
def Extends (g k : Graph) : Prop := ∀ ref o, g.get? ref = some o → k.get? ref = some o

theorem Extends.refl (g : Graph) : g.Extends g := fun _ _ found => found

theorem Extends.trans {g h k : Graph} (left : g.Extends h) (right : h.Extends k) : g.Extends k :=
  fun ref o found => right ref o (left ref o found)

theorem lt_size_of_get? {g : Graph} {ref : Ref} {o : Object} (found : g.get? ref = some o) :
    ref < g.size :=
  (Array.getElem?_eq_some_iff.1 found).1

theorem extends_add (g : Graph) (o : Object) : g.Extends (g.add o) := by
  intro ref o' found
  rw [get?_add_of_lt g o (lt_size_of_get? found)]
  exact found

theorem size_lt_size_add (g : Graph) (o : Object) : g.size < (g.add o).size :=
  lt_size_of_get? (get?_add_size g o)

theorem Extends.get?_size {g k : Graph} {o : Object} (h : (g.add o).Extends k) :
    k.get? g.size = some o :=
  h _ _ (get?_add_size g o)

theorem Extends.of_add {g k : Graph} {o : Object} (h : (g.add o).Extends k) : g.Extends k :=
  (extends_add g o).trans h

theorem Extends.size_le {g k : Graph} (h : g.Extends k) : g.size ≤ k.size := by
  cases size : g.size with
  | zero => exact Nat.zero_le _
  | succ last =>
    have bound : last < g.objects.size := Nat.lt_of_lt_of_eq (Nat.lt_succ_self last) size.symm
    exact lt_size_of_get? (h last _ (Array.getElem?_eq_getElem bound))

theorem Extends.objectOf? {g k : Graph} (h : g.Extends k) {v : Value} {o : Object}
    (found : g.objectOf? v = some o) : k.objectOf? v = some o := by
  cases v with
  | object ref => exact h ref o found
  | _ => cases found

theorem Extends.isBytes {g k : Graph} (h : g.Extends k) {v : Value}
    (array : g.isBytes v = true) : k.isBytes v = true := by
  obtain ⟨c, kind, -⟩ := (Option.any_eq_true _ _).1 array
  obtain ⟨o, object, -⟩ := Option.bind_eq_some_iff.1 kind
  rw [Graph.isBytes, kindOf?, object] at array
  rwa [Graph.isBytes, kindOf?, h.objectOf? object]

theorem Extends.bytes? {g k : Graph} (h : g.Extends k) {v : Value} {bytes : ByteArray}
    (found : g.bytes? v = some bytes) : k.bytes? v = some bytes := by
  cases object : g.objectOf? v with
  | none =>
    rw [Graph.bytes?, object] at found
    cases found
  | some o =>
    rw [Graph.bytes?, object] at found
    rwa [Graph.bytes?, h.objectOf? object]

mutual

theorem extends_embed (g : Graph) : (t : Tree) → g.Extends (g.embed t).2
  | .hole => .refl g
  | .leaf _ => .refl g
  | .packed tag data => extends_add g (nodeRecord tag data)
  | .tuple _ _ slots =>
    ((extends_embedSlots g slots).trans (extends_add _ _)).trans (extends_add _ _)

theorem extends_embedSlots (g : Graph) : (slots : List Tree) → g.Extends (g.embedSlots slots).2
  | [] => .refl g
  | t :: rest => (extends_embed g t).trans (extends_embedSlots (g.embed t).2 rest)

end

theorem extends_place (g : Graph) (t : Tree) : g.Extends (g.place t).2 := by
  cases t with
  | hole | leaf | packed => exact .refl g
  | tuple _ _ slots => exact (extends_embedSlots g slots).trans (extends_add _ _)

theorem objectOf?_object (g : Graph) (ref : Ref) : g.objectOf? (.object ref) = g.get? ref := rfl

theorem kindOf?_of_get? {g : Graph} {ref : Ref} {o : Object} (found : g.get? ref = some o) :
    g.kindOf? (.object ref) = o.kind := by
  rw [kindOf?, objectOf?_object, found]
  rfl

theorem items?_of_get? {g : Graph} {ref : Ref} {o : Object} {items : List (Option Value)}
    (found : g.get? ref = some o) (list : o.body = .list items) :
    g.items? (.object ref) = some items := by
  rw [items?, objectOf?_object, found, Option.map_some, list]

theorem item?_of_items? {g : Graph} {list : Value} {items : List (Option Value)}
    (found : g.items? list = some items) (i : Nat) : g.item? list i = (items[i]?).join := by
  rw [item?, found, Option.getD_some]

theorem exists_object_of_items? {g : Graph} {v : Value} {items : List (Option Value)}
    (found : g.items? v = some items) : ∃ o, g.objectOf? v = some o := by
  cases object : g.objectOf? v with
  | none =>
    rw [items?, object] at found
    cases found
  | some o => exact ⟨o, rfl⟩

theorem Extends.items? {g k : Graph} (h : g.Extends k) {v : Value} {items : List (Option Value)}
    (found : g.items? v = some items) : k.items? v = some items := by
  obtain ⟨o, object⟩ := exists_object_of_items? found
  rw [Graph.items?, object] at found
  rwa [Graph.items?, h.objectOf? object]

section Look

variable {g k : Graph} {v data : Value} {tag : String}

theorem look_of_isPrimitive (g : Graph) (scalar : v.isPrimitive = true) : g.look v = .ok none := by
  cases v with
  | object ref => cases scalar
  | _ => rfl

theorem look_of_get? {ref : Ref} {o : Object} (found : g.get? ref = some o)
    (absent : o.read? (.object ref) "tag" = none ∨ o.read? (.object ref) "data" = none) :
    g.look (.object ref) = .ok none := by
  rw [look, objectOf?_object, found]
  dsimp only
  split
  · rfl
  · rcases absent with absent | absent
    · rw [absent]
    · rw [absent]
      split
      next h => cases h
      next => rfl

/-- What goes wrong when a value is looked at is no failure of a registry. -/
theorem exists_cause_of_look {fault : Fault} (failed : g.look v = .error fault) :
    ∃ cause, fault = .cause cause := by
  have read {o : Object} {name : String} (failed : o.read? v name = some (.error fault)) :
      ∃ cause, fault = .cause cause := by
    rw [Object.read?] at failed
    split at failed
    · cases failed
    · obtain ⟨member, -, failed⟩ := Option.map_eq_some_iff.1 failed
      split at failed <;> cases failed <;> exact ⟨_, rfl⟩
  rw [look] at failed
  split at failed
  · cases failed
  · split at failed
    · cases failed
    · split at failed
      next o _ _ _ tag data readTag readData =>
        rcases tag with _ | tag
        · cases failed
          exact read readTag
        · cases tag with
          | string tag =>
            rcases data with _ | data
            · cases failed
              exact read readData
            · cases failed
          | _ => cases failed
      · cases failed

theorem look_eq_some_iff :
    g.look v = .ok (some (tag, data)) ↔
      (∃ o, g.objectOf? v = some o ∧ o.body ≠ .function ∧
        o.read? v "tag" = some (.ok (.string tag)) ∧ o.read? v "data" = some (.ok data)) ∧
      (g.isBytes data || (g.items? data).isSome) = true := by
  rw [look]
  cases found : g.objectOf? v with
  | none => simp
  | some o =>
    dsimp only
    by_cases body : o.body = .function
    · simp [body]
    rw [if_neg body]
    cases readTag : o.read? v "tag" with
    | none => simp [readTag]
    | some tag' =>
      cases readData : o.read? v "data" with
      | none => simp [readData]
      | some data' =>
        rcases tag' with fault | tag'
        · simp [readTag, bind, Except.bind]
        rcases data' with fault | data'
        · cases tag' <;> simp [readData, bind, Except.bind, pure, Except.pure]
        · cases tag' <;> simp [readTag, readData, body, bind, Except.bind, pure, Except.pure]
          constructor
          · rintro ⟨shaped, rfl, rfl⟩
            exact ⟨⟨rfl, rfl⟩, shaped⟩
          · rintro ⟨⟨rfl, rfl⟩, shaped⟩
            exact ⟨shaped, rfl, rfl⟩

theorem node?_eq_some_iff_look {node : String × Value} :
    g.node? v = some node ↔ g.look v = .ok (some node) := by
  rw [node?]
  rcases g.look v with fault | _ | found <;> simp [Except.toOption]

theorem look_of_record {ref : Ref} (found : g.get? ref = some (nodeRecord tag data)) :
    g.look (.object ref) =
      .ok (if g.isBytes data || (g.items? data).isSome then some (tag, data) else none) := by
  rw [look, objectOf?_object, found]
  rfl

end Look

/-- The objects of one graph from a place on are in another one, as they were. -/
def ExtendsFrom (n : Nat) (g k : Graph) : Prop :=
  ∀ ref o, n ≤ ref → g.get? ref = some o → k.get? ref = some o

namespace ExtendsFrom

variable {n : Nat} {g h k : Graph}

theorem of_extends (ext : g.Extends k) : g.ExtendsFrom n k := fun ref o _ found => ext ref o found

theorem refl (n : Nat) (g : Graph) : g.ExtendsFrom n g := of_extends (.refl g)

theorem of_right (ext : g.Extends h) (later : h.ExtendsFrom n k) : g.ExtendsFrom n k :=
  fun ref o le found => later ref o le (ext ref o found)

theorem get?_size {o : Object} (le : n ≤ g.size) (later : (g.add o).ExtendsFrom n k) :
    k.get? g.size = some o :=
  later _ _ le (get?_add_size g o)

end ExtendsFrom

theorem length_embedSlots (g : Graph) (slots : List Tree) :
    (g.embedSlots slots).1.length = slots.length := by
  induction slots generalizing g with
  | nil => rfl
  | cons t rest ih => exact congrArg (· + 1) (ih (g.embed t).2)

theorem listOf_addList {n : Nat} {k : Graph} {g : Graph} (le : n ≤ g.size) {tag : String}
    {kind : Option Class} {slots : List Tree} {items : List (Option Value)}
    (length : items.length = slots.length) (later : (g.addList kind items).2.ExtendsFrom n k)
    (intact : (Tree.tuple tag kind slots).Intact k) :
    Tree.ListOf k kind slots.length (.object g.size) ∧
      ∀ i, k.item? (.object g.size) i = (items[i]?).join := by
  have list := later.get?_size le
  have found := items?_of_get? list rfl
  refine ⟨⟨?_, kindOf?_of_get? list, items, found, length⟩, item?_of_items? found⟩
  rw [isBytes, kindOf?_of_get? list]
  exact (Tree.intact_tuple.1 intact).1

mutual

theorem foundAt_embed {n : Nat} {K : Graph → Prop} {g : Graph} (le : n ≤ g.size) : (t : Tree) →
    (∀ k, K k → (g.embed t).2.ExtendsFrom n k) → (∀ k, K k → t.Intact k) →
      t.FoundAt K (g.embed t).1
  -- a value out of the graph can come to stand for what is added later, so being a node is asked of
  -- the graphs in which the whole tree has been placed
  | .hole, _, _ => rfl
  | .leaf _, _, intact => ⟨rfl, fun k kept => Tree.intact_leaf.1 (intact k kept)⟩
  | .packed tag data, later, intact => by
    refine ⟨_, rfl, fun k kept => ?_⟩
    have bytes := Tree.intact_packed.1 (intact k kept)
    have node := look_of_record ((later k kept).get?_size le)
    rw [bytes, Bool.true_or, if_pos rfl] at node
    exact ⟨node, bytes⟩
  | .tuple tag kind slots, later, intact => by
    have room := Nat.le_trans le (extends_embedSlots g slots).size_le
    have list (k : Graph) (kept : K k) :
        ((g.embedSlots slots).2.addList kind (g.embedSlots slots).1).2.ExtendsFrom n k :=
      .of_right (extends_add _ _) (later k kept)
    have held (k : Graph) (kept : K k) :=
      listOf_addList room (length_embedSlots g slots) (list k kept) (intact k kept)
    refine ⟨_, .object (g.embedSlots slots).2.size, rfl, fun k kept => ⟨?_, (held k kept).1⟩, ?_⟩
    · have node := look_of_record ((later k kept).get?_size
        (Nat.le_trans room (extends_add _ _).size_le))
      obtain ⟨-, -, items, found, -⟩ := (held k kept).1
      rwa [found, Option.isSome_some, Bool.or_true, if_pos rfl] at node
    · refine allFoundAt_embedSlots le slots (fun k kept i => ?_)
        (fun k kept => .of_right (extends_add _ _) (list k kept))
        fun k kept => (Tree.intact_tuple.1 (intact k kept)).2
      rw [Nat.zero_add]
      exact (held k kept).2 i

theorem allFoundAt_embedSlots {n : Nat} {K : Graph → Prop} {g : Graph} (le : n ≤ g.size)
    {list : Value} {start : Nat} : (slots : List Tree) →
    (∀ k, K k → ∀ i, k.item? list (start + i) = ((g.embedSlots slots).1[i]?).join) →
    (∀ k, K k → (g.embedSlots slots).2.ExtendsFrom n k) →
    (∀ k, K k → ∀ t ∈ slots, t.Intact k) → Tree.AllFoundAt K list start slots
  | [], _, _, _ => trivial
  | t :: rest, held, later, intact => by
    refine ⟨⟨_, fun k kept => held k kept 0, ?_⟩, ?_⟩
    · exact foundAt_embed le t (fun k kept => .of_right (extends_embedSlots _ rest) (later k kept))
        fun k kept => intact k kept t List.mem_cons_self
    · refine allFoundAt_embedSlots (Nat.le_trans le (extends_embed g t).size_le) rest
        (fun k kept i => ?_) later fun k kept u mem => intact k kept u (List.mem_cons_of_mem t mem)
      rw [Nat.add_right_comm]
      exact held k kept (i + 1)

end

/-- What is placed below the root of a tree is found there as the tree exactly as long as that is
intact. -/
theorem foundBelow_place {n : Nat} {K : Graph → Prop} {g : Graph} (le : n ≤ g.size) {t : Tree}
    {tag : String} (root : t.tag? = some tag)
    (later : ∀ k, K k → (g.place t).2.ExtendsFrom n k) :
    t.FoundBelow K (g.place t).1 ↔ ∀ k, K k → t.Intact k := by
  refine ⟨fun h k kept => h.intact kept, fun intact => ?_⟩
  cases t with
  | hole | leaf => cases root
  | packed own data => exact ⟨rfl, fun k kept => Tree.intact_packed.1 (intact k kept)⟩
  | tuple own kind slots =>
    have room := Nat.le_trans le (extends_embedSlots g slots).size_le
    have held (k : Graph) (kept : K k) :=
      listOf_addList room (length_embedSlots g slots) (later k kept) (intact k kept)
    refine ⟨fun k kept => (held k kept).1, allFoundAt_embedSlots le slots (fun k kept i => ?_)
      (fun k kept => .of_right (extends_add _ _) (later k kept))
      fun k kept => (Tree.intact_tuple.1 (intact k kept)).2⟩
    rw [Nat.zero_add]
    exact (held k kept).2 i

end Graph

end Marshal
