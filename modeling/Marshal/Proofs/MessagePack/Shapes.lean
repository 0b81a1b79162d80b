import Marshal.Proofs.Content
import Marshal.Proofs.MessagePack.Told

namespace Marshal.MessagePack

open Marshal.Action (HasItems madeList)
open Marshal.Effect
open Marshal.Description
open Marshal.MessagePack.Reader (gives_byte)

section Identifiers

theorem shapeIds_succ (count : Nat) :
    shapeIds (count + 1) =
      (if count < shapeLimit then shapeIds count else (shapeIds count).drop 1) ++
        [firstShapeId + count % shapeLimit] := by
  have before : (List.range (count + 1)).drop (count + 1 - shapeLimit) =
      (List.range count).drop (count + 1 - shapeLimit) ++ [count] := by
    rw [List.range_succ, List.drop_append_of_le_length]
    rw [List.length_range, shapeLimit]
    omega
  rw [shapeIds, before, List.map_append, shapeIds]
  split
  next few => rw [Nat.sub_eq_zero_of_le few, Nat.sub_eq_zero_of_le few.le]; rfl
  next many =>
    rw [← List.map_drop, List.drop_drop, ← Nat.sub_add_comm (Nat.not_lt.1 many)]
    rfl

theorem length_shapeIds (count : Nat) : (shapeIds count).length = min count shapeLimit := by
  rw [shapeIds, List.length_map, List.length_drop, List.length_range]
  omega

theorem mem_shapeIds {count id : Nat} (mem : id ∈ shapeIds count) : 0x40 ≤ id ∧ id < 0x80 := by
  obtain ⟨i, -, rfl⟩ := List.mem_map.1 mem
  rw [firstShapeId, shapeLimit]
  omega

def Draft.keptShapes (d : Draft) : List (List String × Nat) :=
  if d.shapes.length < shapeLimit then d.shapes else d.shapes.drop 1

def Draft.nextShapeId (d : Draft) : Nat := firstShapeId + d.shapeCount % shapeLimit

def Draft.define (d : Draft) (names : List String) : Draft :=
  { d with
    shapes := d.keptShapes ++ [(names, d.nextShapeId)]
    shapeCount := d.shapeCount + 1 }

variable {draft : Draft} {k : Graph} {names : List String}

theorem gives_defineShape (names : List String) (draft : Draft) (k : Graph) :
    Gives (defineShape names) draft k draft.nextShapeId (draft.define names) k := rfl

theorem Draft.Sound.map_define (sound : draft.Sound k) (names : List String) :
    (draft.define names).shapes.map Prod.snd = shapeIds (draft.shapeCount + 1) := by
  have length : draft.shapes.length = min draft.shapeCount shapeLimit := by
    rw [← length_shapeIds, ← sound.ids, List.length_map]
  rw [shapeIds_succ, ← sound.ids]
  change (draft.keptShapes ++ [(names, draft.nextShapeId)]).map Prod.snd = _
  rw [List.map_append, Draft.keptShapes, length]
  congr 1
  split
  next few => rw [if_pos (by omega)]
  next many =>
    rw [if_neg (by omega)]
    exact List.map_drop

theorem Draft.Sound.define (sound : draft.Sound k) (names : List String) :
    (draft.define names).Sound k :=
  ⟨sound.inside, sound.map_define names⟩

theorem nodup_shapeIds (count : Nat) : (shapeIds count).Nodup := by
  refine List.Nodup.map_on ?_ (List.nodup_range.sublist (List.drop_sublist _ _))
  -- so many numbers in a row have different remainders
  intro i mem j mem' same
  rw [List.range_eq_range', List.drop_range', List.mem_range'_1] at mem mem'
  rw [firstShapeId, shapeLimit] at same
  rw [shapeLimit] at mem mem'
  omega

theorem Draft.Sound.ne_nextShapeId (sound : draft.Sound k) :
    ∀ shape ∈ draft.keptShapes, shape.2 ≠ draft.nextShapeId := by
  have distinct := nodup_shapeIds (draft.shapeCount + 1)
  rw [← sound.map_define [], Draft.define, List.map_append] at distinct
  intro shape mem same
  exact List.disjoint_of_nodup_append distinct (List.mem_map_of_mem mem)
    (same ▸ List.mem_cons_self)

theorem Draft.mem_of_mem_keptShapes {shape : List String × Nat} (mem : shape ∈ draft.keptShapes) :
    shape ∈ draft.shapes := by
  unfold Draft.keptShapes at mem
  split at mem
  next => exact mem
  next => exact List.mem_of_mem_drop mem

end Identifiers

section Names

variable {D : Type} [Description D] {shared : List Anchor} {k : Graph} {opened : List Anchor}
  {names : List String} {draft : Draft}

def writeNames (names : List String) : Writer Unit := do
  emit (listHeader names.length)
  names.forM writeText

def namesBytes (names : List String) : List UInt8 :=
  listHeader names.length ++ names.flatMap textBytes

theorem utters_writeNames (names : List String) : Utters (writeNames names) (namesBytes names) := by
  refine .bind (.emit _) ?_
  induction names with
  | nil => exact fun d g => ⟨[], .pure () d g, fun _ => rfl⟩
  | cons name rest ih => exact .bind (utters_writeText name) ih

theorem length_le_length_textBytes (names : List String) :
    names.length ≤ (names.flatMap textBytes).length := by
  rw [List.length_flatMap, ← List.length_map (fun name => (textBytes name).length)]
  refine List.length_le_sum_of_one_le _ fun n mem => ?_
  obtain ⟨name, -, rfl⟩ := List.mem_map.1 mem
  exact scalarBytes_pos .whole (.string name)

theorem gives_names {src : ByteArray} {c : Cursor} {pos fuel : Nat} {h : Graph}
    (small : src.size < 2 ^ 32) (exact : ∀ name ∈ names, readText name = name)
    (here : Bytes.At src pos (names.flatMap textBytes)) (room : names.length ≤ fuel) :
    Gives (Reader.times (Reader.value src .whole fuel) names.length) { c with pos } h
      (names.map .string) { c with pos := pos + (names.flatMap textBytes).length } h := by
  induction names generalizing pos with
  | nil => exact gives_times_zero _ _ h
  | cons name rest ih =>
    obtain ⟨first, others⟩ := List.forall_mem_cons.1 exact
    obtain ⟨fuel, rfl⟩ : ∃ more, fuel = more + 1 :=
      Nat.exists_eq_add_of_le' ((Nat.le_add_left 1 _).trans room)
    rw [List.flatMap_cons] at here ⊢
    have read := reads_text (d := .whole) fuel h (size_lt_of_textBytes here.left small) src c pos
      nofun here.left
    rw [first] at read
    rw [List.length_append, ← Nat.add_assoc]
    exact gives_times_cons read (ih others here.right (Nat.le_of_succ_le room))

theorem hears_names {notes : Notes} {pieces : List Piece}
    (exact : ∀ name ∈ names, readText name = name)
    (out : render shared pieces = namesBytes names) :
    Hears D shared k k notes notes opened pieces (fun src fuel => Reader.value src .whole fuel)
      (fun m w => HasItems m.graph w (names.map .string)) := by
  refine hears_of_reads out fun src c pos m fuel small here room => ?_
  have header := listHeader_pos names.length
  have few := length_le_length_textBytes names
  have inside : names.length ≤ src.size := by
    rcases here.right.le with none | le
    · rw [none, List.length_nil] at few
      omega
    · omega
  rw [namesBytes, List.length_append] at room ⊢
  obtain ⟨fuel, rfl⟩ : ∃ more, fuel = more + 1 := Nat.exists_eq_add_of_le' (by omega)
  have items := gives_names (c := c) (h := m.graph) small exact here.right
    (show names.length ≤ fuel by omega)
  rw [Nat.add_assoc] at items
  have ext := Graph.extends_add m.graph (madeList (names.map .string))
  exact ⟨_, _, gives_list here.left (inside.trans_lt small) items, ext,
    Action.hasItems_of_madeList (Graph.get?_add_size _ _)⟩

/-- The names are written at their first meeting and pointed at later, whichever shapes the reader
knows. -/
theorem exists_names (D : Type) [Description D] (sound : draft.Sound k)
    (shut : .shape names ∉ opened) (exact : ∀ name ∈ names, readText name = name) :
    ∃ draft' pieces, Gives (once (.shape names) (writeNames names)) draft k () draft' k ∧
      Grown draft k draft' k 1 pieces ∧ draft'.shapes = draft.shapes ∧
      ∀ shared shapes, draft'.shared <+: shared → shared.length < 2 ^ 32 →
        Hears D shared k k ⟨draft.seen, shapes⟩ ⟨draft'.seen, shapes⟩ opened pieces
          (fun src fuel => Reader.value src .whole fuel)
          (fun m w => HasItems m.graph w (names.map .string)) := by
  by_cases met : .shape names ∈ draft.seen
  · obtain ⟨id, later, piece, pointer, gives, prior, few, number⟩ :=
      exists_pointer (k := k) met (writeNames names)
    refine ⟨_, [.bytes piece], gives, .pointed sound pointer prior few, rfl,
      fun shared shapes prior' count => ?_⟩
    have known := idOf?_of_prefix prior' number
    exact hears_pointer (a := .shape names) met shut known
      ((le_length_of_idOf? known).trans_lt count) pointer
  · obtain ⟨pieces, gives, out⟩ := utters_writeNames names
      { draft with
        seen := .shape names :: draft.seen
        pieces := .anchor (.shape names) :: draft.pieces } k
    have length : 1 ≤ (namesBytes names).length := by
      rw [namesBytes, List.length_append]
      exact (listHeader_pos _).trans_le (Nat.le_add_right _ _)
    have sound' : Draft.Sound { draft with
        seen := .shape names :: draft.seen
        pieces := .anchor (.shape names) :: draft.pieces } k := by
      refine ⟨fun ref mem => ?_, sound.ids⟩
      rcases List.mem_cons.1 mem with same | mem
      · cases same
      · exact sound.inside ref mem
    refine ⟨_, pieces ++ [.anchor (.shape names)], gives_once_unmet met gives,
      ((Grown.uttered sound' pieces out).weaken length).anchored, rfl,
      fun shared shapes prior few => ?_⟩
    exact hears_anchor shut few (hears_names exact (out shared))
      fun m w items => ⟨m, rfl, .refl m, items, items⟩

end Names

section Records

variable {D : Type} [Description D] {shared : List Anchor} {k k' g : Graph} {notes notes' : Notes}
  {opened : List Anchor} {names : List String} {pieces : List Piece}
  {Q : Mirror → List Value → Prop} {draft : Draft}

/-- Names that an object can have and that a message gives back. -/
structure Writable (names : List String) : Prop where
  kept : Fields.Kept names
  safe : ∀ name ∈ names, name ≠ "__proto__"
  exact : ∀ name ∈ names, readText name = name

theorem Writable.map_safeName (h : Writable names) : names.map Reader.safeName = names := by
  refine (List.map_congr_left fun name mem => ?_).trans (List.map_id names)
  rw [Reader.safeName, if_neg]
  · rfl
  · exact mt eq_of_beq (h.safe name mem)

theorem mapM_names_eq (read : Reader Value) (names : List String) :
    (names.mapM fun name => do return (Reader.safeName name, ← read)) =
      (do return (names.map Reader.safeName).zip (← Reader.times read names.length)) := by
  induction names with
  | nil => simp [Reader.times]
  | cons name rest ih =>
    rw [List.mapM_cons, ih]
    simp [Reader.times]

theorem gives_recordOf {read : Reader Value} {t t' : Cursor} {h h' : Graph} {ws : List Value}
    (writable : Writable names) (length : ws.length = names.length)
    (items : Gives (Reader.times read names.length) t h ws t' h') :
    Gives (Reader.recordOf read names) t h (.object h'.size) t'
      (h'.add (.record (names.zip ws))) := by
  have kept : Fields.Kept (Fields.keys (names.zip ws)) := by
    rw [Fields.keys, List.map_fst_zip length.ge]
    exact writable.kept
  have made : (Action.newRecord (Fields.ofList (names.zip ws))).run h' =
      (.ok (.object h'.size), h'.add (.record (names.zip ws))) := by
    rw [Fields.ofList_eq_self kept]
    rfl
  rw [Reader.recordOf, mapM_names_eq, writable.map_safeName]
  exact .bind (.bind items (.pure _ _ _)) (.lift made)

def IsRecord (names : List String) (Q : Mirror → List Value → Prop) (m : Mirror) (w : Value) :
    Prop :=
  (∃ ws, m.graph.objectOf? w = some (.record (names.zip ws)) ∧ Q m ws) ∧ m.Fresh w

variable (counted : ∀ m ws, Q m ws → ws.length = names.length)
  (lasting : ∀ m m' ws, m.Extends m' → Q m ws → Q m' ws)

include lasting in
theorem isRecord_add {m : Mirror} {ws : List Value} (sort : Q m ws) :
    ∃ ext : m.graph.Extends (m.graph.add (.record (names.zip ws))),
      IsRecord names Q (m.onto ext) (.object m.graph.size) := by
  have ext := Graph.extends_add m.graph (.record (names.zip ws))
  exact ⟨ext, ⟨ws, Graph.get?_add_size _ _, lasting _ _ _ (Mirror.extends_onto ext) sort⟩,
    Mirror.fresh_onto ext le_rfl (Graph.size_lt_size_add _ _)⟩

theorem gives_known {src : ByteArray} {c t : Cursor} {pos fuel id : Nat} {h h' : Graph}
    {ws : List Value} (writable : Writable names) (length : ws.length = names.length)
    (here : Bytes.At src pos [UInt8.ofNat id]) (low : 0x40 ≤ id) (high : id < 0x80)
    (known : c.shapes.lookup id = some names)
    (items : Gives (Reader.times (Reader.value src .whole fuel) names.length)
      { c with pos := pos + 1 } h ws t h') :
    Gives (Reader.value src .whole (fuel + 1)) { c with pos } h (.object h'.size) t
      (h'.add (.record (names.zip ws))) := by
  have value : (UInt8.ofNat id).toNat = id := UInt8.toNat_ofNat_of_lt' (high.trans (by decide))
  refine .bind (gives_byte _ here) ?_
  dsimp only
  rw [value, if_neg (Nat.not_lt.2 low), if_pos high]
  refine .bind (.get _ _) ?_
  dsimp only
  rw [known]
  exact gives_recordOf writable length items

include counted lasting in
theorem hears_known {id : Nat} {piece : ByteArray} (writable : Writable names)
    (known : (names, id) ∈ notes.shapes) (low : 0x40 ≤ id) (high : id < 0x80)
    (byte : piece.data.toList = [UInt8.ofNat id])
    (inner : Hears D shared k k' notes notes' opened pieces
      (fun src fuel => Reader.times (Reader.value src .whole fuel) names.length) Q) :
    Hears D shared k k' notes notes' opened (pieces ++ [.bytes piece])
      (fun src fuel => Reader.value src .whole fuel) (IsRecord names Q) := by
  intro src c pos m fuel small knows here room
  have out : render shared [.bytes piece] = [UInt8.ofNat id] := (List.append_nil _).trans byte
  rw [render_append, out] at here room ⊢
  rw [List.length_append, List.length_singleton] at room ⊢
  obtain ⟨fuel, rfl⟩ : ∃ more, fuel = more + 1 := Nat.exists_eq_add_of_le' (by omega)
  obtain ⟨ws, c', m', read, heard⟩ := inner src c (pos + 1) m fuel small knows here.right (by omega)
  obtain ⟨ext, sort⟩ := isRecord_add lasting heard.sort
  rw [Nat.add_assoc] at read
  exact ⟨_, c', m'.onto ext,
    gives_known writable (counted _ _ heard.sort) here.left low high (knows.shapes _ known) read,
    heard.later (.refl _) (Mirror.extends_onto ext) sort⟩

theorem gives_nameOf (t : Cursor) (h : Graph) (names : List String) :
    Gives ((names.map Value.string).mapM Reader.nameOf) t h (names.map Reader.safeName) t h := by
  induction names with
  | nil => exact .pure _ _ _
  | cons name rest ih =>
    rw [List.map_cons, List.mapM_cons]
    exact .bind (.pure _ _ _) (.bind ih (.pure _ _ _))

theorem gives_shapeNames {h : Graph} {w : Value} (list : HasItems h w (names.map .string))
    (writable : Writable names) (t : Cursor) : Gives (Reader.shapeNames w) t h names t h := by
  obtain ⟨o, found, -, body⟩ := list
  have indexed : o.indexed.filterMap id = names.map .string := by
    rw [Object.indexed, body]
    simp
  have named := gives_nameOf t h names
  rw [writable.map_safeName] at named
  unfold Reader.shapeNames
  refine .bind (.lift (Action.objectOf?_run w h)) ?_
  rw [found]
  dsimp only
  rw [body, indexed]
  exact named

theorem gives_defined {src : ByteArray} {c c₁ t : Cursor} {pos fuel id : Nat} {h h₁ h' : Graph}
    {w : Value} {ws : List Value} (writable : Writable names)
    (list : HasItems h₁ w (names.map .string)) (length : ws.length = names.length)
    (here : Bytes.At src pos [0xd4, shapeType, UInt8.ofNat id]) (low : 0x40 ≤ id)
    (high : id < 0x80)
    (read : Gives (Reader.value src .whole fuel) { c with pos := pos + 3 } h w c₁ h₁)
    (items : Gives (Reader.times (Reader.value src .whole fuel) names.length)
      { c₁ with shapes := (id, names) :: c₁.shapes } h₁ ws t h') :
    Gives (Reader.value src .whole (fuel + 1)) { c with pos } h (.object h'.size) t
      (h'.add (.record (names.zip ws))) := by
  have value : 0x40 + (UInt8.ofNat id).toNat % 0x40 = id := by
    rw [UInt8.toNat_ofNat_of_lt' (high.trans (by decide))]
    omega
  refine .bind (gives_byte _ here) ?_
  change Gives (Reader.single src (Reader.value src .whole fuel)) _ _ _ _ _
  refine .bind (gives_byte _ here.tail) ?_
  dsimp only
  rw [if_pos rfl]
  refine .bind (gives_byte _ here.tail.tail) ?_
  dsimp only [Option.map_some, Option.getD_some]
  rw [value]
  refine .bind read (.bind (gives_shapeNames list writable _) (.bind (.modify _ _ _) ?_))
  exact gives_recordOf writable length items

theorem Knows.define {id : Nat} {seen : List Anchor} {shapes kept : List (List String × Nat)}
    {c : Cursor} {m : Mirror} (knows : Knows D shared k ⟨seen, shapes⟩ opened c m)
    (sub : ∀ shape ∈ kept, shape ∈ shapes) (apart : ∀ shape ∈ kept, shape.2 ≠ id) :
    Knows D shared k ⟨seen, kept ++ [(names, id)]⟩ opened
      { c with shapes := (id, names) :: c.shapes } m := by
  refine ⟨⟨knows.tidy.inside, knows.tidy.apart⟩, fun shape mem => ?_, knows.pending,
    knows.settled⟩
  rw [List.lookup_cons]
  rcases List.mem_append.1 mem with mem | mem
  · rw [beq_eq_false_iff_ne.2 (apart shape mem)]
    exact knows.shapes shape (sub shape mem)
  · obtain rfl := List.mem_singleton.1 mem
    rw [beq_self_eq_true]

include counted lasting in
theorem hears_defined {id : Nat} {piece : ByteArray} {seen seen' : List Anchor}
    {shapes kept : List (List String × Nat)} {namePieces : List Piece} (writable : Writable names)
    (sub : ∀ shape ∈ kept, shape ∈ shapes) (apart : ∀ shape ∈ kept, shape.2 ≠ id)
    (low : 0x40 ≤ id) (high : id < 0x80)
    (bytes : piece.data.toList = [0xd4, shapeType, UInt8.ofNat id])
    (defines : Hears D shared k k ⟨seen, shapes⟩ ⟨seen', shapes⟩ opened namePieces
      (fun src fuel => Reader.value src .whole fuel)
      (fun m w => HasItems m.graph w (names.map .string)))
    (inner : Hears D shared k k' ⟨seen', kept ++ [(names, id)]⟩ notes' opened pieces
      (fun src fuel => Reader.times (Reader.value src .whole fuel) names.length) Q) :
    Hears D shared k k' ⟨seen, shapes⟩ notes' opened (pieces ++ (namePieces ++ [.bytes piece]))
      (fun src fuel => Reader.value src .whole fuel) (IsRecord names Q) := by
  intro src c pos m fuel small knows here room
  have out : render shared [.bytes piece] = [0xd4, shapeType, UInt8.ofNat id] :=
    (List.append_nil _).trans bytes
  rw [render_append, render_append, out] at here room ⊢
  rw [List.length_append, List.length_append] at room ⊢
  have length : [0xd4, shapeType, UInt8.ofNat id].length = 3 := rfl
  rw [length] at room ⊢
  obtain ⟨fuel, rfl⟩ : ∃ more, fuel = more + 1 := Nat.exists_eq_add_of_le' (by omega)
  obtain ⟨w, c₁, m₁, read₁, heard₁⟩ := defines src c (pos + 3) m fuel small knows here.left.right
    (by omega)
  have after := here.right
  rw [List.length_append, length, ← Nat.add_assoc] at after
  obtain ⟨ws, c₂, m₂, read₂, heard₂⟩ := inner src { c₁ with shapes := (id, names) :: c₁.shapes } _
    m₁ fuel small (heard₁.knows.define sub apart) after (by omega)
  obtain ⟨ext, sort⟩ := isRecord_add lasting heard₂.sort
  refine ⟨_, c₂, m₂.onto ext, ?_, ⟨(heard₁.ext.trans heard₂.ext).trans (Mirror.extends_onto ext),
    sort, heard₂.knows.later (.refl _) (Mirror.extends_onto ext), fun a mem number known => ?_⟩⟩
  · rw [← Nat.add_assoc, ← Nat.add_assoc]
    exact gives_defined writable heard₁.sort (counted _ _ heard₂.sort) here.left.left low high read₁
      read₂
  · exact (heard₂.kept a mem number known).trans (heard₁.kept a mem number known)

theorem gives_writeShape_known {id : Nat} (known : draft.shapes.lookup names = some id) :
    Gives (writeShape names) draft k ()
      { draft with pieces := .bytes (Bytes.ofList [UInt8.ofNat id]) :: draft.pieces } k := by
  refine .bind (.get draft k) ?_
  rw [known]
  exact .modify _ draft k

theorem gives_writeShape_unknown {draft' : Draft} (unknown : draft.shapes.lookup names = none)
    (gives : Gives (once (.shape names) (writeNames names))
      { draft.define names with
        pieces := .bytes (Bytes.ofList [0xd4, shapeType, UInt8.ofNat draft.nextShapeId]) ::
          draft.pieces } k () draft' k) :
    Gives (writeShape names) draft k () draft' k := by
  refine .bind (.get draft k) ?_
  rw [unknown]
  exact .bind (gives_defineShape names draft k) (.bind (.modify _ _ k) gives)

include counted lasting in
/-- A shape and values behind it are read as a new record, whether or not the shape has an
identifier. -/
theorem conveys_record {x : Writer Unit} {least : Nat} (writable : Writable names)
    (shut : .shape names ∉ opened)
    (items : Conveys D x
      (fun src fuel => Reader.times (Reader.value src .whole fuel) names.length) Q least opened g) :
    Conveys D (do writeShape names; x) (fun src fuel => Reader.value src .whole fuel)
      (IsRecord names Q) 1 opened g := by
  intro draft k ext sound
  cases known : draft.shapes.lookup names with
  | some id =>
    have mem : (names, id) ∈ draft.notes.shapes := by
      change (names, id) ∈ draft.shapes
      obtain ⟨before, after, same, -⟩ := List.lookup_eq_some_iff.1 known
      rw [same]
      exact List.mem_append_right _ List.mem_cons_self
    obtain ⟨low, high⟩ := mem_shapeIds (sound.ids ▸ List.mem_map_of_mem mem)
    have uttered := Grown.uttered sound [.bytes (Bytes.ofList [UInt8.ofNat id])]
      (l := [UInt8.ofNat id]) fun _ => rfl
    obtain ⟨draft', k', pieces, gives, grown, hears⟩ := items _ k ext uttered.sound
    refine ⟨draft', k', pieces ++ [.bytes (Bytes.ofList [UInt8.ofNat id])],
      (gives_writeShape_known known).bind gives,
      (uttered.trans grown).weaken (Nat.le_add_right 1 _), fun shared prior few => ?_⟩
    exact hears_known counted lasting writable mem low high rfl
      (hears shared prior few)
  | none =>
    -- once the identifiers are used up, the oldest shape loses its own to the new one
    obtain ⟨low, high⟩ : 0x40 ≤ draft.nextShapeId ∧ draft.nextShapeId < 0x80 := by
      rw [Draft.nextShapeId, firstShapeId, shapeLimit]
      omega
    let piece := Bytes.ofList [0xd4, shapeType, UInt8.ofNat draft.nextShapeId]
    have defined : Grown draft k { draft.define names with
        pieces := .bytes piece :: draft.pieces } k 1 [.bytes piece] :=
      ⟨.refl k, rfl, List.prefix_refl _, fun _ => Nat.le_add_right _ _,
        fun _ => Nat.le_add_left 1 2, ⟨sound.inside, sound.map_define names⟩⟩
    obtain ⟨draft₁, namePieces, named, grown₁, same, hears₁⟩ :=
      exists_names D defined.sound shut writable.exact
    obtain ⟨draft', k', pieces, gives, grown, hears⟩ := items draft₁ k ext grown₁.sound
    have notes : draft₁.notes =
        ⟨draft₁.seen, draft.keptShapes ++ [(names, draft.nextShapeId)]⟩ := by
      rw [Draft.notes, same]
      rfl
    refine ⟨draft', k', pieces ++ (namePieces ++ [.bytes piece]),
      (gives_writeShape_unknown known named).bind gives,
      ((defined.trans grown₁).trans grown).weaken (by omega), fun shared prior few => ?_⟩
    exact hears_defined counted lasting writable (fun _ => Draft.mem_of_mem_keptShapes)
      sound.ne_nextShapeId low high rfl
      (hears₁ shared draft.shapes (grown.prior.trans prior) few) (notes ▸ hears shared prior few)

end Records

end Marshal.MessagePack
