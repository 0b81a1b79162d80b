import Marshal.Proofs.MessagePack.Shapes

namespace Marshal

open Marshal.Action (HasItems madeList)
open Marshal.Effect
open Marshal.Description
open Marshal.MessagePack
open Marshal.MessagePack.Reader (gives_byte gives_fixed gives_take)

theorem Keys.of_linked {m : Mirror} {vs ws : List Value} (keys : Keys vs)
    (linked : List.Forall₂ m.Linked vs ws) : Keys ws := by
  obtain ⟨distinct, stored⟩ := keys
  induction linked with
  | nil => exact ⟨.nil, nofun⟩
  | @cons v w vs ws first rest ih =>
    obtain ⟨apart, distinct⟩ := List.pairwise_cons.1 distinct
    obtain ⟨own, others⟩ := List.forall_mem_cons.1 stored
    obtain ⟨distinct', stored'⟩ := ih distinct others
    refine ⟨List.pairwise_cons.2 ⟨fun w' mem => ?_, distinct'⟩,
      List.forall_mem_cons.2 ⟨?_, stored'⟩⟩
    · obtain ⟨v', mem', linked⟩ := exists_of_forall₂_right rest mem
      rw [Bool.eq_false_iff]
      intro same
      -- links are one to one, so what became of different keys is different
      have other := apart v' mem'
      rw [first.same linked same] at other
      cases other
    · cases v with
      | object =>
        obtain ⟨_, rfl, _⟩ := first
        rfl
      | _ =>
        obtain rfl := first
        exact own

namespace Content

/-- A message gives a name of an object back, and it is none that says what an object is. -/
structure Plain (name : String) : Prop where
  safe : name ≠ "__proto__"
  visible : name ≠ "constructor"
  exact : readText name = name

mutual

def Sendable : Content → Prop
  | scalar v => Datum.Exact v
  | list items => AllSendable items
  | record names values => (∀ name ∈ names, Plain name) ∧ AllSendable values
  | map keys values => AllSendable keys ∧ AllSendable values
  | set members => AllSendable members

def AllSendable : List Content → Prop
  | [] => True
  | c :: rest => c.Sendable ∧ AllSendable rest

end

theorem allSendable_iff {contents : List Content} :
    AllSendable contents ↔ ∀ c ∈ contents, c.Sendable := by
  induction contents with
  | nil => simp [AllSendable]
  | cons c rest ih => rw [AllSendable, List.forall_mem_cons, ih]

end Content

namespace MessagePack

variable {c : Content} {contents : List Content} {g : Graph} {vs : List Value}

theorem told_content_scalar {v : Value} (exact : Datum.Exact v) : Told (Content.scalar v) := by
  rintro g w opened fuel ⟨rfl, primitive⟩ - room
  obtain ⟨fuel, rfl⟩ : ∃ more, fuel = more + 1 := Nat.exists_eq_add_of_le' room
  have scalar (k : Graph) : (Content.scalar w).HeldBy k w := ⟨rfl, primitive⟩
  exact conveysValue_scalar (scalar g) scalar primitive exact fuel

theorem conveys_part {whole : Content} {ref : Ref} {opened : List Anchor} {fuel : Nat}
    (told : ∀ c ∈ contents, Told c) (held : whole.HeldBy g (.object ref))
    (higher : Higher Content whole.height opened g)
    (below : Content.slotsHeight contents < whole.height)
    (room : Content.slotsHeight contents ≤ fuel) (all : Content.AllHeldBy g contents vs) :
    ∀ v ∈ vs, ConveysValue Content (write .whole fuel v) v (.object ref :: opened) g := by
  intro v mem
  obtain ⟨part, mem, heldPart⟩ := exists_of_forall₂_right (Content.allHeldBy_iff.1 all) mem
  have low := Content.height_le_slotsHeight mem
  exact told part mem heldPart (.cons held (low.trans_lt below) higher) (low.trans room)

theorem allHeldBy_of_mirrors {m : Mirror} {ws : List Value} (all : Content.AllHeldBy g contents vs)
    (mirrors : List.Forall₂ (Mirrors Content g m) vs ws) :
    Content.AllHeldBy m.graph contents ws :=
  Content.allHeldBy_iff.2 (forall₂_back (Content.allHeldBy_iff.1 all) mirrors)

theorem told_content_list (told : ∀ c ∈ contents, Told c) : Told (Content.list contents) := by
  intro g v opened fuel held higher room
  obtain ⟨vs, found, all⟩ := id held
  obtain ⟨fuel, rfl⟩ : ∃ more, fuel = more + 1 :=
    Nat.exists_eq_add_of_le' ((Nat.le_add_left 1 _).trans room)
  cases v with
  | object ref =>
    exact conveysValue_list held higher found (by decide)
      (conveys_part told held higher (Nat.lt_succ_self _) (Nat.le_of_succ_le_succ room) all)
      fun m w ws found' mirrors => ⟨ws, found', allHeldBy_of_mirrors all mirrors⟩
  | _ => cases found

section Records

theorem gives_write_record {g g' : Graph} {t t' : Draft} {ref : Ref} {fields : Fields}
    {fuel : Nat} (found : g.get? ref = some (.record fields))
    (visible : fields.lookup "constructor" = none)
    (ran : Gives (once (.object ref) do
      writeShape fields.keys
      fields.forM fun field => write .whole fuel field.2) t g () t' g') :
    Gives (write .whole (fuel + 1) (.object ref)) t g () t' g' := by
  rw [write]
  refine .bind (.lift (Action.objectOf?_run _ g)) ?_
  rw [Graph.objectOf?_object, found]
  have written : writtenClass? (.record fields) = some .object := by
    rw [writtenClass?, Object.record, visible]
    rfl
  simp only [written]
  exact ran

theorem told_content_record {names : List String} (plain : ∀ name ∈ names, Content.Plain name)
    (told : ∀ c ∈ contents, Told c) : Told (Content.record names contents) := by
  intro g v opened fuel held higher room
  obtain ⟨kept, fields, found, rfl, all⟩ := id held
  obtain ⟨fuel, rfl⟩ : ∃ more, fuel = more + 1 :=
    Nat.exists_eq_add_of_le' ((Nat.le_add_left 1 _).trans room)
  cases v with
  | object ref =>
    have writable : Writable fields.keys :=
      ⟨kept, fun name mem => (plain name mem).safe, fun name mem => (plain name mem).exact⟩
    have visible : fields.lookup "constructor" = none := by
      rw [List.lookup_eq_none_iff]
      intro field mem
      exact bne_iff_ne.2 (plain _ (List.mem_map_of_mem mem)).visible.symm
    have each := conveys_part told held higher (Nat.lt_succ_self _) (Nat.le_of_succ_le_succ room)
      all
    have items := conveys_forM (Q := fun (field : String × Value) m w =>
        Mirrors Content g m field.2 w) (fun field mem => each _ (List.mem_map_of_mem mem))
      fun _ _ _ _ ext mirrors => mirrors.later (.refl g) ext
    have count : fields.keys.length = fields.length := List.length_map _
    rw [← count] at items
    have recorded := conveys_record
      (fun m ws mirrors => mirrors.length_eq.symm.trans count.symm)
      (fun _ _ _ ext mirrors => mirrors.imp fun _ _ mirror => mirror.later (.refl g) ext) writable
      ((Higher.cons held (Nat.lt_succ_self _) higher).shape_notMem _) items
    have inner : ConveysObject (do
        writeShape fields.keys
        fields.forM fun field => write .whole fuel field.2) (Content.record fields.keys contents)
        (.object ref :: opened) g := by
      refine recorded.imp ?_
      rintro m w ⟨⟨ws, found', mirrors⟩, fresh⟩
      have length : ws.length = fields.keys.length := mirrors.length_eq.symm.trans count.symm
      have values : (fields.keys.zip ws).map Prod.snd = ws := List.map_snd_zip length.le
      have mirrored := List.forall₂_map_left_iff.2 mirrors
      refine ⟨⟨kept, _, found', List.map_fst_zip length.ge, ?_⟩, fresh⟩
      rw [values]
      exact allHeldBy_of_mirrors all mirrored
    exact (ConveysValue.once held higher inner).of_gives fun t k t' k' ext ran =>
      gives_write_record (ext _ _ found) visible ran
  | _ => cases found

end Records

section Maps

theorem gives_write_map {g g' : Graph} {t t' : Draft} {ref : Ref} {entries : List (Value × Value)}
    {fuel : Nat} (found : g.get? ref = some (.bare .map (.map entries)))
    (ran : Gives (once (.object ref) do
      emit (mapHeader entries.length)
      entries.forM fun entry => do
        write .whole fuel entry.1
        write .whole fuel entry.2) t g () t' g') :
    Gives (write .whole (fuel + 1) (.object ref)) t g () t' g' := by
  rw [write]
  refine .bind (.lift (Action.objectOf?_run _ g)) ?_
  rw [Graph.objectOf?_object, found]
  exact ran

def readEntry (src : ByteArray) (fuel : Nat) : Reader (Value × Value) := do
  let k ← Reader.value src .whole fuel
  return (k, ← Reader.value src .whole fuel)

theorem mapHeader_pos (n : Nat) : 0 < (mapHeader n).length := by
  rw [mapHeader]
  split_ifs <;> simp

theorem gives_map {src : ByteArray} {c t : Cursor} {pos fuel n : Nat} {g g' : Graph}
    {pairs : List (Value × Value)} (h : Bytes.At src pos (mapHeader n)) (small : n < 0x100000000)
    (keys : Keys (pairs.map Prod.fst))
    (items : Gives (Reader.times (readEntry src fuel) n)
      { c with pos := pos + (mapHeader n).length } g pairs t g') :
    Gives (Reader.value src .whole (fuel + 1)) { c with pos } g (.object g'.size) t
      (g'.add (.bare .map (.map pairs))) := by
  have made : (Action.newMap (entriesOf pairs)).run g' =
      (.ok (.object g'.size), g'.add (.bare .map (.map pairs))) := by
    rw [entriesOf_eq_self keys]
    rfl
  unfold mapHeader at h items
  split at h <;> rename_i bound
  · rw [if_pos bound] at items
    have value : (UInt8.ofNat (0x80 + n)).toNat = 0x80 + n :=
      UInt8.toNat_ofNat_of_lt' (show 0x80 + n < 256 by omega)
    rw [Reader.value]
    refine .bind (gives_byte g h) ?_
    dsimp only
    rw [value, if_neg (by omega), if_neg (by omega), if_pos (by omega), Nat.add_sub_cancel_left]
    exact .bind items (.lift made)
  · rw [if_neg bound] at items
    split at h <;> rename_i bound
    · rw [if_pos bound] at items
      have length := gives_fixed (c := c) g h.tail (by decide) (by omega)
      exact .bind (gives_byte g h) (.bind length (.bind items (.lift made)))
    · rw [if_neg bound] at items
      have length := gives_fixed (c := c) g h.tail (by decide) (by omega)
      exact .bind (gives_byte g h) (.bind length (.bind items (.lift made)))

def MirrorsEntry (g : Graph) (m : Mirror) (entry pair : Value × Value) : Prop :=
  Mirrors Content g m entry.1 pair.1 ∧ Mirrors Content g m entry.2 pair.2

theorem conveys_entries {entries : List (Value × Value)} {opened : List Anchor} {fuel : Nat}
    (keys : ∀ k ∈ entries.map Prod.fst, ConveysValue Content (write .whole fuel k) k opened g)
    (values : ∀ v ∈ entries.map Prod.snd, ConveysValue Content (write .whole fuel v) v opened g) :
    Conveys Content (entries.forM fun entry => do
        write .whole fuel entry.1
        write .whole fuel entry.2)
      (fun src fuel => Reader.times (readEntry src fuel) entries.length)
      (fun m pairs => List.Forall₂ (MirrorsEntry g m) entries pairs) entries.length opened g := by
  refine conveys_forM (Q := fun entry m pair => MirrorsEntry g m entry pair) ?_ ?_
  · intro entry mem
    refine Conveys.weaken ((keys _ (List.mem_map_of_mem mem)).both
      (values _ (List.mem_map_of_mem mem)) ?_) (Nat.le_add_right 1 1)
    intro src fuel s s' s'' m m' h k w read mirrors read' mirrors' ext
    exact ⟨(k, w), .bind read (.bind read' (.pure _ _ _)), mirrors.later (.refl g) ext, mirrors'⟩
  · exact fun _ _ _ _ ext both => ⟨both.1.later (.refl g) ext, both.2.later (.refl g) ext⟩

theorem told_content_map {keys values : List Content} (toldKeys : ∀ c ∈ keys, Told c)
    (toldValues : ∀ c ∈ values, Told c) : Told (Content.map keys values) := by
  intro g v opened fuel held higher room
  obtain ⟨entries, found, distinct, left, right⟩ := id held
  obtain ⟨fuel, rfl⟩ : ∃ more, fuel = more + 1 :=
    Nat.exists_eq_add_of_le' ((Nat.le_add_left 1 _).trans room)
  have room := Nat.le_of_succ_le_succ room
  cases v with
  | object ref =>
    have entered := conveys_entries
      (conveys_part toldKeys held higher (Nat.lt_succ_of_le (le_max_left _ _))
        ((le_max_left _ _).trans room) left)
      (conveys_part toldValues held higher (Nat.lt_succ_of_le (le_max_right _ _))
        ((le_max_right _ _).trans room) right)
    have inner : ConveysObject (do
        emit (mapHeader entries.length)
        entries.forM fun entry => do
          write .whole fuel entry.1
          write .whole fuel entry.2) (Content.map keys values) (.object ref :: opened) g := by
      refine Conveys.weaken (.prefixed (.emit _) (mapHeader_pos _) entered ?_)
        ((mapHeader_pos _).trans_le (Nat.le_add_right _ _))
      intro src c t pos h m pairs fuel inside small here read mirrors
      have left' : List.Forall₂ (Mirrors Content g m) (entries.map Prod.fst)
          (pairs.map Prod.fst) :=
        List.forall₂_map_left_iff.2 (List.forall₂_map_right_iff.2 (mirrors.imp fun _ _ => And.left))
      have right' : List.Forall₂ (Mirrors Content g m) (entries.map Prod.snd)
          (pairs.map Prod.snd) :=
        List.forall₂_map_left_iff.2
          (List.forall₂_map_right_iff.2 (mirrors.imp fun _ _ => And.right))
      have distinct' := distinct.of_linked (left'.imp fun _ _ mirror => mirror.2)
      have ext := Graph.extends_add m.graph (.bare .map (.map pairs))
      exact ⟨_, _, gives_map here (inside.trans_lt small) distinct' read, ext,
        ⟨pairs, Graph.get?_add_size _ _, distinct',
          (allHeldBy_of_mirrors left left').of_extends ext,
          (allHeldBy_of_mirrors right right').of_extends ext⟩,
        Mirror.fresh_onto ext le_rfl (Graph.size_lt_size_add _ _)⟩
    exact (ConveysValue.once held higher inner).of_gives fun t k t' k' ext ran =>
      gives_write_map (ext _ _ found) ran
  | _ => cases found

end Maps

section Sets

theorem gives_write_set {g g' : Graph} {t t' : Draft} {ref : Ref} {fuel : Nat}
    (found : g.get? ref = some (.bare .set (.set vs)))
    (ran : Gives (once (.object ref) do
      emit (tagBytes setType)
      let list ← monadLift (Action.newList vs)
      write .whole fuel list) t g () t' g') :
    Gives (write .whole (fuel + 1) (.object ref)) t g () t' g' := by
  rw [write]
  refine .bind (.lift (Action.objectOf?_run _ g)) ?_
  rw [Graph.objectOf?_object, found]
  exact ran

theorem gives_value_set {src : ByteArray} {c t : Cursor} {pos fuel : Nat} {g g' : Graph}
    {w : Value} (h : Bytes.At src pos (tagBytes setType))
    (found : g'.objectOf? w = some (madeList vs)) (keys : Keys vs)
    (read : Gives (Reader.value src .whole fuel) { c with pos := pos + 3 } g w t g') :
    Gives (Reader.value src .whole (fuel + 1)) { c with pos } g (.object g'.size) t
      (g'.add (.bare .set (.set vs))) := by
  have made : (Action.setOf w).run g' =
      (.ok (.object g'.size), g'.add (.bare .set (.set vs))) := by
    have object : w.isNullish = false := by
      cases w with
      | object => rfl
      | _ => cases found
    rw [Action.setOf, object, if_neg Bool.false_ne_true, run_bind,
      Action.iterate_madeList_run found]
    dsimp only
    rw [membersOf_eq_self keys]
    rfl
  have data := gives_take (c := c) g h.tail.tail
  refine .bind (gives_byte g h) ?_
  change Gives (Reader.single src (Reader.value src .whole fuel)) _ g _ t _
  refine .bind (gives_byte g h.tail) ?_
  dsimp only
  rw [if_neg (by decide)]
  refine .bind data ?_
  rw [if_neg (by decide), if_neg (by decide)]
  exact .bind read (.lift made)

/-- The members of a set are conveyed as a list that was made for them just before. -/
theorem conveys_newList {opened : List Anchor} {fuel : Nat} (all : Content.AllHeldBy g contents vs)
    (higher : Higher Content (Content.list contents).height opened g)
    (room : Content.slotsHeight contents ≤ fuel) (told : ∀ c ∈ contents, Told c) :
    Conveys Content (do
        let list ← monadLift (Action.newList vs)
        write .whole (fuel + 1) list) (fun src fuel => Reader.value src .whole fuel)
      (fun m w => ∃ ws, m.graph.objectOf? w = some (madeList ws) ∧
        Content.AllHeldBy m.graph contents ws ∧ List.Forall₂ m.Linked vs ws) 1 opened g := by
  refine conveys_after fun draft k ext sound => ?_
  have grown := Graph.extends_add k (madeList vs)
  have found := Graph.get?_add_size k (madeList vs)
  have all' := all.of_extends (ext.trans grown)
  have held : (Content.list contents).HeldBy (k.add (madeList vs)) (.object k.size) :=
    ⟨vs, found, all'⟩
  have higher' := higher.of_extends (ext.trans grown)
  -- the list is newer than all that was met, so nothing points at it
  have unmet : .object k.size ∉ draft.seen := fun mem => (sound.inside _ mem).false
  have items := conveys_items (conveys_part told held higher' (Nat.lt_succ_self _) room all')
  obtain ⟨draft', k', pieces, gives, rest⟩ := conveysFrom_anchor unmet (higher'.notMem held)
    (items _ _ (.refl _) ((sound.later grown).meet (Graph.size_lt_size_add _ _)))
    (Q := fun m w => ∃ ws, m.graph.objectOf? w = some (madeList ws) ∧
        Content.AllHeldBy m.graph contents ws ∧ List.Forall₂ m.Linked vs ws)
    fun k' ext' m w ⟨⟨ws, found', mirrors⟩, fresh⟩ => by
      obtain ⟨m', graph, grown', linked⟩ := fresh.exists_linked k.size
      have back := allHeldBy_of_mirrors all' mirrors
      rw [← graph] at found' back
      exact ⟨m', graph, grown', ⟨⟨_, held.of_extends ext', ws, found', back⟩, linked⟩, ws, found',
        back, mirrors.imp fun _ _ mirror => mirror.2.of_extends grown'⟩
  exact ⟨_, _, rfl, grown, draft', k', pieces, gives_write_items found (by decide) gives, rest⟩

theorem told_content_set (told : ∀ c ∈ contents, Told c) : Told (Content.set contents) := by
  intro g v opened fuel held higher room
  obtain ⟨vs, found, distinct, all⟩ := id held
  obtain ⟨fuel, rfl⟩ : ∃ more, fuel = more + 2 :=
    Nat.exists_eq_add_of_le' ((Nat.le_add_left 2 _).trans room)
  cases v with
  | object ref =>
    have listed := conveys_newList all (.cons held (Nat.lt_succ_self _) higher)
      (Nat.le_of_add_le_add_right room) told
    have inner : ConveysObject (do
        emit (tagBytes setType)
        let list ← monadLift (Action.newList vs)
        write .whole (fuel + 1) list) (Content.set contents) (.object ref :: opened) g := by
      refine Conveys.weaken (.prefixed (.emit _) (by decide) listed ?_) (Nat.le_add_left _ _)
      rintro src c t pos h m w fuel - - here read ⟨ws, found', all', linked⟩
      have distinct' := distinct.of_linked linked
      have ext := Graph.extends_add m.graph (.bare .set (.set ws))
      exact ⟨_, _, gives_value_set here found' distinct' read, ext,
        ⟨ws, Graph.get?_add_size _ _, distinct', all'.of_extends ext⟩,
        Mirror.fresh_onto ext le_rfl (Graph.size_lt_size_add _ _)⟩
    exact (ConveysValue.once held higher inner).of_gives fun t k t' k' ext ran =>
      gives_write_set (ext _ _ found) ran
  | _ => cases found

end Sets

theorem told_of_sendable_content (sendable : c.Sendable) : Told c := by
  induction c with
  | scalar v => exact told_content_scalar sendable
  | list items ih =>
    exact told_content_list fun part mem =>
      ih part mem (Content.allSendable_iff.1 sendable part mem)
  | record names values ih =>
    exact told_content_record sendable.1 fun part mem =>
      ih part mem (Content.allSendable_iff.1 sendable.2 part mem)
  | map keys values ihk ihv =>
    exact told_content_map
      (fun part mem => ihk part mem (Content.allSendable_iff.1 sendable.1 part mem))
      (fun part mem => ihv part mem (Content.allSendable_iff.1 sendable.2 part mem))
  | set members ih =>
    exact told_content_set fun part mem => ih part mem (Content.allSendable_iff.1 sendable part mem)

theorem exists_content_message {g : Graph} {v : Value} (held : c.HeldBy g v)
    (sendable : c.Sendable) :
    ∃ bytes k, (encode .whole v).run g = (.ok bytes, k) ∧ g.Extends k ∧
      (bytes.size < 2 ^ 32 → ∀ h, ∃ w last, (decode .whole bytes).run h = (.ok w, last) ∧
        h.Extends last ∧ c.HeldBy last w) :=
  (told_of_sendable_content sendable).exists_message held held.height_le_size

end MessagePack

end Marshal
