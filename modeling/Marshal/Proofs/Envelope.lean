import Marshal.Envelope
import Marshal.Proofs.MessagePack.Read
import Marshal.Proofs.Registry.Depth
import Marshal.Proofs.Registry.Reading

namespace Marshal

open Marshal.Effect
open Marshal.MessagePack

namespace Tree

/-- What a tree is once it went through a buffer: holes are undefined, texts and tags are as they
are read, bytes are equal by content and lists are plain ones. -/
inductive Delivered (g g' : Graph) : Tree → Tree → Prop where
  | hole : Delivered g g' .hole (.leaf .undefined)
  | scalar {v : Value} (scalar : v.isPrimitive = true) :
    Delivered g g' (.leaf v) (.leaf (readScalar v))
  | bytes {v v' : Value} {bytes : ByteArray} (sent : g.bytes? v = some bytes)
      (array : g'.isBytes v' = true) (found : g'.bytes? v' = some bytes) :
    Delivered g g' (.leaf v) (.leaf v')
  | packed {tag : String} {data data' : Value} {bytes : ByteArray}
      (sent : g.bytes? data = some bytes) (array : g'.isBytes data' = true)
      (found : g'.bytes? data' = some bytes) :
    Delivered g g' (.packed tag data) (.packed (readText tag) data')
  | tuple {tag : String} {kind : Option Class} {slots slots' : List Tree}
      (inner : List.Forall₂ (Delivered g g') slots slots') :
    Delivered g g' (.tuple tag kind slots) (.tuple (readText tag) (some .array) slots')

theorem delivered_hole_iff {g g' : Graph} {t : Tree} :
    hole.Delivered g g' t ↔ t = .leaf .undefined := by
  constructor
  · rintro ⟨⟩
    rfl
  · rintro rfl
    exact .hole

theorem delivered_scalar_iff {g g' : Graph} {v : Value} {t : Tree} (scalar : v.isPrimitive = true) :
    (leaf v).Delivered g g' t ↔ t = .leaf (readScalar v) := by
  constructor
  · intro delivered
    cases delivered with
    | scalar => rfl
    | bytes sent => rw [bytes?_of_isPrimitive g scalar] at sent; cases sent
  · rintro rfl
    exact .scalar scalar

theorem delivered_bytes_iff {g g' : Graph} {v : Value} {bytes : ByteArray} {t : Tree}
    (found : g.bytes? v = some bytes) :
    (leaf v).Delivered g g' t ↔
      ∃ v', t = .leaf v' ∧ g'.isBytes v' = true ∧ g'.bytes? v' = some bytes := by
  constructor
  · intro delivered
    cases delivered with
    | scalar scalar =>
      rw [bytes?_of_isPrimitive g scalar] at found
      cases found
    | bytes sent array same =>
      obtain rfl := Option.some.inj (found.symm.trans sent)
      exact ⟨_, rfl, array, same⟩
  · rintro ⟨v', rfl, array, same⟩
    exact .bytes found array same

theorem delivered_tuple_iff {g g' : Graph} {tag : String} {kind : Option Class} {slots : List Tree}
    {t : Tree} :
    (tuple tag kind slots).Delivered g g' t ↔
      ∃ slots', List.Forall₂ (Delivered g g') slots slots' ∧
        t = .tuple (readText tag) (some .array) slots' := by
  constructor
  · rintro ⟨⟩
    exact ⟨_, ‹_›, rfl⟩
  · rintro ⟨slots', inner, rfl⟩
    exact .tuple inner

end Tree

namespace Envelope

def encoded (g : Graph) (fuel : Nat) (path : String) (v : Value) : Except Fault Tree :=
  if g.isLeaf v then .ok (.leaf v) else check g fuel path v

def slotOf (g : Graph) (fuel : Nat) (path : String) (item : Option Value × Nat) :
    Except Fault Tree :=
  match item.1 with
  | none => .ok .hole
  | some w => encoded g fuel (slotPath path item.2) w

theorem encoded_leaf {g : Graph} {v : Value} (leaf : g.isLeaf v = true) (fuel : Nat)
    (path : String) : encoded g fuel path v = .ok (.leaf v) :=
  if_pos leaf

theorem encoded_node {g : Graph} {v : Value} (node : g.isLeaf v = false) (fuel : Nat)
    (path : String) : encoded g fuel path v = check g fuel path v :=
  if_neg (Bool.eq_false_iff.1 node)

theorem check_bytes {g : Graph} {v data : Value} {tag : String}
    (node : g.node? v = some (tag, data)) (bytes : g.isBytes data = true) (fuel : Nat)
    (path : String) : check g (fuel + 1) path v = .ok (.packed tag data) := by
  rw [check, node]
  exact if_pos bytes

theorem check_list {g : Graph} {v data : Value} {tag : String} {items : List (Option Value)}
    {slots : List Tree} {fuel : Nat} {path : String} (node : g.node? v = some (tag, data))
    (list : g.isBytes data = false) (found : g.items? data = some items)
    (inner : items.zipIdx.mapM (slotOf g fuel path) = .ok slots) :
    check g (fuel + 1) path v = .ok (.tuple tag (g.kindOf? data) slots) := by
  rw [check, node]
  dsimp only
  rw [list, if_neg Bool.false_ne_true, found, Option.getD_some]
  change (items.zipIdx.mapM (slotOf g fuel path) >>= _) = _
  rw [inner]
  rfl

/-- The message of a tree is read as a value that stands for the tree delivered, and only objects
are added. -/
structure Delivery (g : Graph) (t : Tree) (fuel : Nat) (h : Graph) (v : Value) (h' : Graph) :
    Prop where
  reads : Reads .envelope (treeBytes g t) fuel h v h'
  added : h.Extends h'
  size : h.size + t.height ≤ h'.size + 1
  accepts : ∀ k, h'.Extends k → ∃ t', t.Delivered g k t' ∧
    ∀ fuel path, t.height ≤ fuel → encoded k fuel path v = .ok t'

structure Deliveries (g : Graph) (slots : List Tree) (fuel : Nat) (h : Graph) (vs : List Value)
    (h' : Graph) : Prop where
  reads : ReadsAll .envelope (slotsBytes g slots) fuel slots.length h vs h'
  added : h.Extends h'
  size : h.size + Tree.slotsHeight slots ≤ h'.size + 1
  accepts : ∀ k, h'.Extends k → ∃ slots', List.Forall₂ (Tree.Delivered g k) slots slots' ∧
    ∀ fuel path i, Tree.slotsHeight slots ≤ fuel →
      ((vs.map some).zipIdx i).mapM (slotOf k fuel path) = .ok slots'

theorem isPrimitive_readScalar {v : Value} (scalar : v.isPrimitive = true) :
    (readScalar v).isPrimitive = true := by
  cases v with
  | bigint | symbol | object => cases scalar
  | _ => rfl

theorem delivery_scalar {g h : Graph} {t : Tree} {v : Value} {fuel : Nat} (height : t.height = 1)
    (reads : Reads .envelope (treeBytes g t) fuel h v h) (scalar : v.isPrimitive = true)
    (delivered : ∀ k, t.Delivered g k (.leaf v)) : Delivery g t fuel h v h where
  reads := reads
  added := .refl h
  size := by rw [height]
  accepts k _ := ⟨.leaf v, delivered k,
    fun fuel path _ => encoded_leaf (Bool.or_eq_true_iff.2 (.inl scalar)) fuel path⟩

theorem get?_readBytes {h k : Graph} {bytes : ByteArray}
    (ext : (h.add (readBytes bytes)).Extends k) :
    k.isBytes (.object h.size) = true ∧ k.bytes? (.object h.size) = some bytes := by
  have found : k.get? h.size = some (readBytes bytes) := ext.get?_size
  constructor
  · rw [Graph.isBytes, Graph.kindOf?_of_get? found]
    rfl
  · rw [Graph.bytes?, Graph.objectOf?_object, found]
    rfl

theorem delivery_bytes {g : Graph} {v : Value} {bytes : ByteArray} (found : g.bytes? v = some bytes)
    (small : bytes.size < 2 ^ 32) (fuel : Nat) (h : Graph) :
    Delivery g (.leaf v) (fuel + 1) h (.object h.size) (h.add (readBytes bytes)) where
  reads := by
    rw [treeBytes, found]
    exact reads_binary fuel h small
  added := Graph.extends_add h _
  size := by
    rw [Graph.size_add]
    exact Nat.le_succ _
  accepts k ext := by
    obtain ⟨array, same⟩ := get?_readBytes ext
    exact ⟨.leaf _, .bytes found array same,
      fun fuel path _ => encoded_leaf (Bool.or_eq_true_iff.2 (.inr array)) fuel path⟩

theorem node?_of_read {h k : Graph} {tag : String} {data : Value}
    (ext : (h.add (Graph.nodeRecord tag data)).Extends k)
    (node : (k.isBytes data || (k.items? data).isSome) = true) :
    k.isLeaf (.object h.size) = false ∧ k.node? (.object h.size) = some (tag, data) := by
  have found : k.get? h.size = some (Graph.nodeRecord tag data) := ext.get?_size
  constructor
  · rw [Graph.isLeaf, Graph.isBytes, Graph.kindOf?_of_get? found]
    rfl
  · rw [Graph.node?_eq_some_iff_look, Graph.look_of_record found, if_pos node]

theorem delivery_packed {g : Graph} {tag : String} {data : Value} {bytes : ByteArray}
    (tagged : tag.toUTF8.size < 2 ^ 32) (found : g.bytes? data = some bytes)
    (small : bytes.size < 2 ^ 32) (fuel : Nat) (h : Graph) :
    Delivery g (.packed tag data) (fuel + 2) h (.object (h.add (readBytes bytes)).size)
      ((h.add (readBytes bytes)).add (Graph.nodeRecord (readText tag) (.object h.size))) where
  reads := by
    rw [treeBytes, found]
    exact reads_node fuel h tagged (reads_binary fuel h small)
  added := (Graph.extends_add _ _).trans (Graph.extends_add _ _)
  size := by
    rw [Graph.size_add, Graph.size_add]
    exact Nat.le_succ _
  accepts k ext := by
    obtain ⟨array, same⟩ := get?_readBytes ext.of_add
    obtain ⟨inner, node⟩ := node?_of_read ext (Bool.or_eq_true_iff.2 (.inl array))
    refine ⟨.packed (readText tag) (.object h.size), .packed found array same, ?_⟩
    intro fuel path room
    obtain ⟨more, rfl⟩ : ∃ more, fuel = more + 2 := Nat.exists_eq_add_of_le' room
    rw [encoded_node inner, check_bytes node array]

theorem delivery_tuple {g h h' : Graph} {tag : String} {kind : Option Class} {slots : List Tree}
    {fuel : Nat} {vs : List Value} (tagged : tag.toUTF8.size < 2 ^ 32)
    (few : slots.length < 2 ^ 32) (inner : Deliveries g slots fuel h vs h') :
    Delivery g (.tuple tag kind slots) (fuel + 2) h (.object (h'.add (Action.madeList vs)).size)
      ((h'.add (Action.madeList vs)).add (Graph.nodeRecord (readText tag) (.object h'.size))) where
  reads := reads_node fuel h tagged (reads_list inner.reads few)
  added := inner.added.trans ((Graph.extends_add _ _).trans (Graph.extends_add _ _))
  size := by
    have size := inner.size
    rw [Graph.size_add, Graph.size_add, Tree.height]
    omega
  accepts k ext := by
    have found : k.get? h'.size = some (Action.madeList vs) := ext.of_add.get?_size
    have items : k.items? (.object h'.size) = some (vs.map some) := Graph.items?_of_get? found rfl
    have kind : k.kindOf? (.object h'.size) = some .array := Graph.kindOf?_of_get? found
    have list : k.isBytes (.object h'.size) = false := by
      rw [Graph.isBytes, kind]
      rfl
    obtain ⟨leaf, node⟩ := node?_of_read ext (by rw [items]; exact Bool.or_true _)
    obtain ⟨slots', delivered, accepted⟩ := inner.accepts k ext.of_add.of_add
    refine ⟨.tuple (readText tag) (some .array) slots', .tuple delivered, ?_⟩
    intro fuel path room
    obtain ⟨more, rfl⟩ : ∃ more, fuel = more + (Tree.slotsHeight slots + 2) :=
      Nat.exists_eq_add_of_le' room
    rw [encoded_node leaf, ← kind]
    exact check_list node list items (accepted _ _ 0 (Nat.le_succ_of_le (Nat.le_add_left _ more)))

mutual

theorem exists_delivery {g : Graph} {fuel : Nat} : (t : Tree) → t.Messageable g →
    t.height ≤ fuel → ∀ h, ∃ v h', Delivery g t fuel h v h'
  | .hole, _, room, h => by
    obtain ⟨fuel, rfl⟩ : ∃ more, fuel = more + 1 := Nat.exists_eq_add_of_le' room
    exact ⟨.undefined, h, delivery_scalar rfl (reads_undefined fuel h) rfl fun _ => .hole⟩
  | .leaf v, sendable, room, h => by
    obtain ⟨fuel, rfl⟩ : ∃ more, fuel = more + 1 := Nat.exists_eq_add_of_le' room
    rcases sendable 0 _ (.root _) with ⟨scalar, whole, small⟩ | ⟨-, bytes, found, small⟩
    · refine ⟨readScalar v, h, delivery_scalar rfl ?_ (isPrimitive_readScalar scalar)
        fun _ => .scalar scalar⟩
      rw [treeBytes, bytes?_of_isPrimitive g scalar]
      exact reads_scalar fuel h scalar whole small
    · exact ⟨_, _, delivery_bytes found small fuel h⟩
  | .packed tag data, sendable, room, h => by
    obtain ⟨fuel, rfl⟩ : ∃ more, fuel = more + 2 := Nat.exists_eq_add_of_le' room
    obtain ⟨tagged, -, bytes, found, small⟩ := sendable 0 _ (.root _)
    exact ⟨_, _, delivery_packed tagged found small fuel h⟩
  | .tuple tag kind slots, sendable, room, h => by
    obtain ⟨more, rfl⟩ : ∃ more, fuel = more + (Tree.slotsHeight slots + 2) :=
      Nat.exists_eq_add_of_le' room
    obtain ⟨tagged, -, few⟩ := sendable 0 _ (.root _)
    obtain ⟨vs, h', inner⟩ := exists_deliveries slots (fun _ mem => sendable.slot mem)
      (Nat.le_add_left _ more) h
    exact ⟨_, _, delivery_tuple tagged few inner⟩

theorem exists_deliveries {g : Graph} {fuel : Nat} : (slots : List Tree) →
    (∀ t ∈ slots, t.Messageable g) → Tree.slotsHeight slots ≤ fuel →
    ∀ h, ∃ vs h', Deliveries g slots fuel h vs h'
  | [], _, _, h => ⟨[], h, {
    reads := readsAll_nil fuel h
    added := .refl h
    size := Nat.le_succ _
    accepts := fun k _ => ⟨[], .nil, fun _ _ _ _ => rfl⟩ }⟩
  | t :: rest, sendable, room, h => by
    obtain ⟨here, there⟩ := Nat.max_le.1 room
    obtain ⟨v, h₁, first⟩ := exists_delivery t (sendable t List.mem_cons_self) here h
    obtain ⟨vs, h', others⟩ :=
      exists_deliveries rest (fun u mem => sendable u (List.mem_cons_of_mem t mem)) there h₁
    refine ⟨v :: vs, h', readsAll_cons first.reads others.reads, first.added.trans others.added,
      ?_, ?_⟩
    · have size := first.size
      have size' := others.size
      have kept := first.added.size_le
      have kept' := others.added.size_le
      rw [Tree.slotsHeight]
      omega
    · intro k ext
      -- the first slot is still there once the others are added
      obtain ⟨t', delivered, accepted⟩ := first.accepts k (others.added.trans ext)
      obtain ⟨slots', delivered', accepted'⟩ := others.accepts k ext
      refine ⟨t' :: slots', .cons delivered delivered', ?_⟩
      intro fuel path i room
      obtain ⟨here, there⟩ := Nat.max_le.1 room
      have first : slotOf k fuel path (some v, i) = .ok t' := accepted fuel _ here
      rw [List.map_cons, List.zipIdx_cons, List.mapM_cons, first]
      change (List.mapM (slotOf k fuel path) ((vs.map some).zipIdx (i + 1)) >>= _) = _
      rw [accepted' fuel path (i + 1) there]
      rfl

end

theorem pack_run {g : Graph} {t : Tree} (sendable : t.Messageable g) :
    (pack t).run g = (.ok (Bytes.ofList (treeBytes g t)), (g.embed t).2) := by
  have ext := Graph.extends_embed g t
  have room : t.height ≤ 4 * (g.embed t).2.size + 8 := by
    have height := height_le_embed g t
    omega
  have emits := emits_tree ext t (.refl _) sendable room
  rw [pack, run_bind, run_get]
  dsimp only
  rw [run_bind, run_set]
  exact encode_run emits

/-- A tree that a message can hold goes through a buffer, whatever values there are where it is
read. -/
theorem unpack_run {g : Graph} {t : Tree} (node : t.isNode = true) (sendable : t.Messageable g)
    (h : Graph) :
    ∃ t' h', (unpack (Bytes.ofList (treeBytes g t))).run h = (.ok t', h') ∧
      h.Extends h' ∧ t.Delivered g h' t' := by
  have room := Nat.le_succ_of_le (height_le_length g t)
  obtain ⟨v, h', delivery⟩ := exists_delivery t sendable room h
  obtain ⟨t', delivered, accepted⟩ := delivery.accepts h' (.refl h')
  have accepted := accepted (h'.size + 2) "$" (by have := delivery.size; omega)
  have checked : check h' (h'.size + 2) "$" v = .ok t' := by
    cases leaf : h'.isLeaf v with
    | false => rwa [encoded_node leaf] at accepted
    | true =>
      rw [encoded_leaf leaf] at accepted
      cases accepted
      cases delivered <;> cases node
  have read : (tryCatch (decode .envelope (Bytes.ofList (treeBytes g t))) fun fault =>
      throw (invalid (reason fault))).run h = (.ok v, h') :=
    run_tryCatch (decode_run h delivery.reads) _
  refine ⟨t', h', ?_, delivery.added, delivered⟩
  rw [unpack, run_bind, read]
  dsimp only
  rw [run_bind, run_get]
  dsimp only
  rw [checked]
  rfl

end Envelope

/-- What of a tree a message can hold: texts are whole, byte arrays have their bytes, lists are of a
class of lists or of none, and a header can count the bytes and the items. -/
def Tree.Portable (g : Graph) : Tree → Prop
  | hole => True
  | leaf v => (∀ units, v ≠ .brokenText units) ∧ (∀ s, v = .string s → s.toUTF8.size < 2 ^ 32) ∧
      (g.isBytes v = true → g.Stores v)
  | packed tag data => tag.toUTF8.size < 2 ^ 32 ∧ g.Stores data
  | tuple tag kind slots => tag.toUTF8.size < 2 ^ 32 ∧
      kind.all (·.isWithin .array) = true ∧ slots.length < 2 ^ 32

theorem Tree.Portable.sendable {g : Graph} {t : Tree} (portable : t.Portable g)
    (formed : t.Formed g) : t.Sendable g := by
  cases t with
  | hole => trivial
  | leaf v =>
    obtain ⟨whole, small, stored⟩ := portable
    exact formed.imp (fun scalar => ⟨scalar, whole, small⟩) fun array => ⟨array, stored array⟩
  | packed => exact ⟨portable.1, formed, portable.2⟩
  | tuple => exact portable

namespace Envelope

open Marshal.Registry

/-- What was serialized goes through a buffer unharmed, but for what holes, texts and the negative
zero become. -/
theorem unpack_pack {options : Options} {calls : List Call} {s s' : Scene} {v : Value} {t : Tree}
    (reached : s.registry = (new options).run calls)
    (written : (serialize v).run s = (.ok t, s')) (keeps : s.registry.KeepsBytes)
    (portable : ∀ d u, t.Has d u → u.Portable s'.graph) :
    ∃ buffer k, (pack t).run s'.graph = (.ok buffer, k) ∧ s'.graph.Extends k ∧
      ∀ h, ∃ t' h', (unpack buffer).run h = (.ok t', h') ∧ h.Extends h' ∧
        t.Delivered s'.graph h' t' := by
  have sound : s.registry.Sound := reached ▸ (sound_new options).run calls
  obtain ⟨trace, writes, rfl, -⟩ := writes_of_serialize sound.remembers written
  have formed : ∀ d u, trace.tree.Has d u → u.Formed s'.graph := by
    intro d u has
    obtain ⟨k, -, right, proper⟩ := writes.proper sound.consistent has
    exact keeps.formed right proper.formed
  have sendable : trace.tree.Messageable s'.graph :=
    fun d u has => (portable d u has).sendable (formed d u has)
  exact ⟨_, _, pack_run sendable, Graph.extends_embed _ _, unpack_run writes.isNode_tree sendable⟩

namespace Sample

open Marshal.Registry.Sample

theorem lists_keepsBytes (limit : Nat) : (lists limit).KeepsBytes :=
  fun _ _ onward _ array => (extends_lists onward).isBytes array

def minusZero : Number := ⟨0x8000000000000000⟩

def parcel : Graph :=
  ⟨#[{ kind := some .bytes, body := .numbers .uint8 (Bytes.ofList [7, 9]) },
    { kind := some .array,
      body := .list [none, some (.string "ok"), some (.number minusZero), some (.object 0)] }]⟩

def parcelTree : Tree :=
  .tuple "list" (some .array)
    [.hole, .leaf (.string "ok"), .leaf (.number minusZero), .leaf (.object 0)]

theorem portable_parcelTree (d : Nat) (u : Tree) (has : parcelTree.Has d u) :
    u.Portable parcel := by
  cases has with
  | root => exact ⟨by decide, rfl, by decide⟩
  | slot mem below =>
    simp only [parcelTree, Tree.slots, List.mem_cons, List.not_mem_nil, or_false] at mem
    rcases mem with rfl | rfl | rfl | rfl <;> rcases below with - | ⟨⟨⟩, -⟩
    · trivial
    · exact ⟨nofun, fun _ same => by cases same; decide, nofun⟩
    · exact ⟨nofun, nofun, nofun⟩
    · exact ⟨nofun, nofun, fun _ => ⟨Bytes.ofList [7, 9], rfl, by decide⟩⟩

/-- All of it arrives: the hole as undefined, the negative zero as zero. -/
theorem parcel_arrives :
    (serialize (.object 1)).run (begun (lists 1) parcel) =
        (.ok parcelTree, written (lists 1) parcel (.object 1)) ∧
      ∃ buffer k, (pack parcelTree).run (written (lists 1) parcel (.object 1)).graph =
          (.ok buffer, k) ∧
        ∀ h, ∃ data h', (unpack buffer).run h =
            (.ok (.tuple "list" (some .array)
              [.leaf .undefined, .leaf (.string "ok"), .leaf (.number Number.zero),
                .leaf data]), h') ∧
          h'.bytes? data = some (Bytes.ofList [7, 9]) := by
  have run : (serialize (.object 1)).run (begun (lists 1) parcel) =
    (.ok parcelTree, written (lists 1) parcel (.object 1)) := rfl
  obtain ⟨buffer, k, packed, -, unpacked⟩ :=
    unpack_pack (s := begun (lists 1) parcel) rfl run (lists_keepsBytes 1) portable_parcelTree
  refine ⟨run, buffer, k, packed, fun h => ?_⟩
  obtain ⟨t', h', read, -, delivered⟩ := unpacked h
  obtain ⟨slots, inner, rfl⟩ := Tree.delivered_tuple_iff.1 delivered
  obtain - | ⟨first, - | ⟨second, - | ⟨third, - | ⟨fourth, ⟨⟩⟩⟩⟩⟩ := inner
  obtain rfl := Tree.delivered_hole_iff.1 first
  obtain rfl := (Tree.delivered_scalar_iff rfl).1 second
  obtain rfl := (Tree.delivered_scalar_iff rfl).1 third
  obtain ⟨data, rfl, -, found⟩ := (Tree.delivered_bytes_iff rfl).1 fourth
  have tag : readText "list" = "list" := by decide
  have text : readScalar (.string "ok") = .string "ok" := by decide
  have zero : readScalar (.number minusZero) = .number Number.zero := by decide
  refine ⟨data, h', ?_, found⟩
  rw [read, tag, text, zero]

def marked : String := String.ofList (Char.ofNat 0xfeff :: List.replicate 70 'a')

def markedList : Graph := ⟨#[{ kind := some .array, body := .list [some (.string marked)] }]⟩

def markedTree : Tree := .tuple "list" (some .array) [.leaf (.string marked)]

/-- A long text loses the byte order mark at its start. -/
theorem marked_text_changed :
    (serialize (.object 0)).run (begun (lists 1) markedList) =
        (.ok markedTree, written (lists 1) markedList (.object 0)) ∧
      String.ofList (List.replicate 70 'a') ≠ marked ∧
      ∃ buffer k, (pack markedTree).run (written (lists 1) markedList (.object 0)).graph =
          (.ok buffer, k) ∧
        ∀ h, ∃ h', (unpack buffer).run h =
          (.ok (.tuple "list" (some .array)
            [.leaf (.string (String.ofList (List.replicate 70 'a')))]), h') := by
  have sendable : markedTree.Messageable markedList := by
    intro d u has
    rcases has with - | ⟨mem, below⟩
    · exact ⟨by decide, rfl, by decide⟩
    · obtain rfl := List.mem_singleton.1 mem
      rcases below with - | ⟨⟨⟩, -⟩
      exact .inl ⟨rfl, nofun, fun _ same => by cases same; decide +kernel⟩
  have other : String.ofList (List.replicate 70 'a') ≠ marked := by decide +kernel
  refine ⟨rfl, other, _, _, pack_run sendable, fun h => ?_⟩
  obtain ⟨t', h', read, -, delivered⟩ := unpack_run rfl sendable h
  obtain ⟨slots, inner, rfl⟩ := Tree.delivered_tuple_iff.1 delivered
  obtain - | ⟨first, ⟨⟩⟩ := inner
  obtain rfl := (Tree.delivered_scalar_iff rfl).1 first
  have tag : readText "list" = "list" := by decide
  have text : readText marked = String.ofList (List.replicate 70 'a') := by decide +kernel
  refine ⟨h', ?_⟩
  rw [← tag, ← text]
  exact read

end Sample

end Envelope

end Marshal
