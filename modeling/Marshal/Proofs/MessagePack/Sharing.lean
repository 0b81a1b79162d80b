import Marshal.Proofs.Description
import Marshal.Proofs.MessagePack.Anchors
import Marshal.Proofs.Table

namespace Marshal.MessagePack

open Marshal.Action (HasItems madeList)
open Marshal.Effect
open Marshal.Description
open Marshal.MessagePack.Reader (gives_byte gives_take)

/-- What has been read so far: the graph that it is read into, and which object each written object
became. No two of them became one. -/
structure Mirror where
  graph : Graph
  links : List (Ref × Ref)
  inside : ∀ link ∈ links, link.2 < graph.size
  apart : ∀ link ∈ links, ∀ link' ∈ links, link.2 = link'.2 → link.1 = link'.1

namespace Mirror

structure Extends (m m' : Mirror) : Prop where
  graph : m.graph.Extends m'.graph
  links : m.links ⊆ m'.links

def onto (m : Mirror) {h : Graph} (ext : m.graph.Extends h) : Mirror where
  graph := h
  links := m.links
  inside link mem := (m.inside link mem).trans_le ext.size_le
  apart := m.apart

/-- The value is an object that no written object became. -/
def Fresh (m : Mirror) (w : Value) : Prop :=
  ∃ ref, w = .object ref ∧ ref < m.graph.size ∧ ∀ link ∈ m.links, link.2 ≠ ref

/-- What became of a value. Scalars stay as they are. -/
def Linked (m : Mirror) : Value → Value → Prop
  | .object ref, w => ∃ ref', w = .object ref' ∧ (ref, ref') ∈ m.links
  | v, w => w = v

variable {m m' m'' : Mirror} {h : Graph} {v v' w w' : Value}

theorem Extends.refl (m : Mirror) : m.Extends m := ⟨.refl _, List.Subset.refl _⟩

theorem Extends.trans (left : m.Extends m') (right : m'.Extends m'') : m.Extends m'' :=
  ⟨left.graph.trans right.graph, List.Subset.trans left.links right.links⟩

theorem extends_onto (ext : m.graph.Extends h) : m.Extends (m.onto ext) :=
  ⟨ext, List.Subset.refl _⟩

theorem fresh_onto (ext : m.graph.Extends h) {ref : Ref} (le : m.graph.size ≤ ref)
    (lt : ref < h.size) : (m.onto ext).Fresh (.object ref) :=
  ⟨ref, rfl, lt, fun link mem => ((m.inside link mem).trans_le le).ne⟩

theorem Linked.of_extends (ext : m.Extends m') (linked : m.Linked v w) : m'.Linked v w := by
  cases v with
  | object =>
    obtain ⟨ref', rfl, mem⟩ := linked
    exact ⟨ref', rfl, ext.links mem⟩
  | _ => exact linked

theorem linked_of_isPrimitive (primitive : v.isPrimitive = true) : m.Linked v v := by
  cases v with
  | object => cases primitive
  | _ => rfl

theorem Fresh.exists_linked (fresh : m.Fresh w) (ref : Ref) :
    ∃ m' : Mirror, m'.graph = m.graph ∧ m.Extends m' ∧ m'.Linked (.object ref) w := by
  obtain ⟨ref', rfl, lt, new⟩ := fresh
  refine ⟨⟨m.graph, (ref, ref') :: m.links, List.forall_mem_cons.2 ⟨lt, m.inside⟩, ?_⟩, rfl,
    ⟨.refl _, List.subset_cons_self _ _⟩, ref', rfl, List.mem_cons_self⟩
  rintro link (_ | ⟨_, mem⟩) link' (_ | ⟨_, mem'⟩) same
  · rfl
  · exact absurd same.symm (new link' mem')
  · exact absurd same (new link mem)
  · exact m.apart link mem link' mem' same

theorem Linked.same (linked : m.Linked v w) (linked' : m.Linked v' w') (same : w.same w' = true) :
    v.same v' = true := by
  cases v with
  | object ref =>
    obtain ⟨ref₁, rfl, mem⟩ := linked
    cases v' with
    | object ref' =>
      obtain ⟨ref₂, rfl, mem'⟩ := linked'
      obtain rfl : ref₁ = ref₂ := Value.object.inj (eq_of_beq same)
      obtain rfl : ref = ref' := m.apart _ mem _ mem' rfl
      exact beq_self_eq_true _
    | _ =>
      obtain rfl := linked'
      cases eq_of_beq same
  | _ =>
    obtain rfl := linked
    cases v' with
    | object ref' =>
      obtain ⟨ref₂, rfl, mem'⟩ := linked'
      cases eq_of_beq same
    | _ =>
      obtain rfl := linked'
      exact same

end Mirror

/-- What a writer has met: anchors, and the shapes that have an identifier. -/
structure Notes where
  seen : List Anchor
  shapes : List (List String × Nat)

def Draft.notes (d : Draft) : Notes := ⟨d.seen, d.shapes⟩

def Notes.meet (notes : Notes) (a : Anchor) : Notes := { notes with seen := a :: notes.seen }

/-- The identifiers of the shapes that still have one after so many definitions: those of the last
definitions, which take turns. -/
def shapeIds (count : Nat) : List Nat :=
  ((List.range count).drop (count - shapeLimit)).map fun i => firstShapeId + i % shapeLimit

/-- The objects met are in the graph, and shapes have the identifiers that were given last. -/
structure Draft.Sound (d : Draft) (k : Graph) : Prop where
  inside : ∀ ref, .object ref ∈ d.seen → ref < k.size
  ids : d.shapes.map Prod.snd = shapeIds d.shapeCount

section Matters

variable (D : Type) [Description D]

/-- What was read is what became of the value that was written, and holds what that does. -/
def Mirrors (g : Graph) (m : Mirror) (v w : Value) : Prop :=
  (∃ d : D, Held g d v ∧ Back m.graph d w) ∧ m.Linked v w

/-- What stands for an anchor once it has been read. -/
def Settled (g : Graph) (m : Mirror) : Anchor → Value → Prop
  | .object ref, w => Mirrors D g m (.object ref) w
  | .shape names, w => HasItems m.graph w (names.map .string)

/-- What the reader remembers of what the writer has met: shapes by their identifiers, a placeholder
that nothing points at for an anchor that is being read, and of the others what stands for them. -/
structure Knows (shared : List Anchor) (k : Graph) (notes : Notes) (opened : List Anchor)
    (c : Cursor) (m : Mirror) : Prop where
  tidy : c.Tidy
  shapes : ∀ shape ∈ notes.shapes, c.shapes.lookup shape.2 = some shape.1
  pending : ∀ a ∈ opened, ∀ id, idOf? shared a = some id →
    ∃ target, c.anchored? id = some { value := target }
  settled : ∀ a ∈ notes.seen, a ∉ opened → ∀ id, idOf? shared a = some id →
    ∃ found, c.anchored? id = some found ∧ Settled D k m a found.value

/-- The reader has read on: it gives something of this sort and knows what was met since. -/
structure Heard {α : Type} (shared : List Anchor) (k : Graph) (notes : Notes)
    (opened : List Anchor) (Q : Mirror → α → Prop) (c : Cursor) (m : Mirror) (a : α) (c' : Cursor)
    (m' : Mirror) : Prop where
  ext : m.Extends m'
  sort : Q m' a
  knows : Knows D shared k notes opened c' m'
  /-- What is being read keeps its place. -/
  kept : ∀ a ∈ opened, ∀ id, idOf? shared a = some id →
    c'.anchorIds.lookup id = c.anchorIds.lookup id

/-- Where these pieces stand, the reader reads something of this sort, and knows what the writer has
met after them if it knew what that had met before them. -/
def Hears {α : Type} (shared : List Anchor) (k k' : Graph) (notes notes' : Notes)
    (opened : List Anchor) (pieces : List Piece) (y : ByteArray → Nat → Reader α)
    (Q : Mirror → α → Prop) : Prop :=
  ∀ src c pos m fuel, src.size < 2 ^ 32 → Knows D shared k notes opened c m →
    Bytes.At src pos (render shared pieces) → (render shared pieces).length ≤ fuel →
    ∃ a c' m', Gives (y src fuel) { c with pos } m.graph a
        { c' with pos := pos + (render shared pieces).length } m'.graph ∧
      Heard D shared k' notes' opened Q c m a c' m'

/-- The writer has written on, and added these pieces. -/
structure Grown (draft : Draft) (k : Graph) (draft' : Draft) (k' : Graph) (least : Nat)
    (pieces : List Piece) : Prop where
  ext : k.Extends k'
  added : draft'.pieces = pieces ++ draft.pieces
  prior : draft.shared <+: draft'.shared
  few : ∀ shared, draft'.shared.length ≤ draft.shared.length + (render shared pieces).length
  enough : ∀ shared, least ≤ (render shared pieces).length
  sound : draft'.Sound k'

/-- What the writer adds to this draft the reader reads as something of this sort, in at least so
many bytes, while the opened anchors are being written and read. -/
def ConveysFrom {α : Type} (x : Writer Unit) (y : ByteArray → Nat → Reader α)
    (Q : Mirror → α → Prop) (least : Nat) (opened : List Anchor) (draft : Draft) (k : Graph) :
    Prop :=
  ∃ draft' k' pieces, Gives x draft k () draft' k' ∧ Grown draft k draft' k' least pieces ∧
    ∀ shared, draft'.shared <+: shared → shared.length < 2 ^ 32 →
      Hears D shared k k' draft.notes draft'.notes opened pieces y Q

/-- The same from every draft, as long as the objects stay as they are. -/
def Conveys {α : Type} (x : Writer Unit) (y : ByteArray → Nat → Reader α)
    (Q : Mirror → α → Prop) (least : Nat) (opened : List Anchor) (g : Graph) : Prop :=
  ∀ draft k, g.Extends k → draft.Sound k → ConveysFrom D x y Q least opened draft k

end Matters

variable {D : Type} [Description D]

section Keep

variable {shared : List Anchor} {k k' g : Graph} {notes notes' : Notes} {opened : List Anchor}
  {c c' : Cursor} {m m' : Mirror} {v w : Value} {a : Anchor} {d : D}

theorem Mirrors.later (ext : k.Extends k') (ext' : m.Extends m') (h : Mirrors D k m v w) :
    Mirrors D k' m' v w := by
  obtain ⟨⟨d, held, back⟩, linked⟩ := h
  exact ⟨⟨d, held_of_extends ext held, back_of_extends ext'.graph back⟩, linked.of_extends ext'⟩

theorem Mirrors.back (h : Mirrors D k m v w) (held : Held k d v) : Back m.graph d w := by
  obtain ⟨⟨d', held', back⟩, -⟩ := h
  rwa [unique held held']

theorem Settled.later (ext : k.Extends k') (ext' : m.Extends m') (h : Settled D k m a w) :
    Settled D k' m' a w := by
  cases a with
  | object ref => exact Mirrors.later ext ext' h
  | shape names => exact h.of_extends ext'.graph

theorem Knows.later (ext : k.Extends k') (ext' : m.Extends m')
    (knows : Knows D shared k notes opened c m) : Knows D shared k' notes opened c m' := by
  refine ⟨knows.tidy, knows.shapes, knows.pending, fun a mem shut id number => ?_⟩
  obtain ⟨found, here, settled⟩ := knows.settled a mem shut id number
  exact ⟨found, here, settled.later ext ext'⟩

theorem Heard.later {α β : Type} {Q : Mirror → α → Prop} {Q' : Mirror → β → Prop} {r : α} {r' : β}
    {m'' : Mirror} (heard : Heard D shared k notes opened Q c m r c' m') (ext : k.Extends k')
    (ext' : m'.Extends m'') (sort : Q' m'' r') :
    Heard D shared k' notes opened Q' c m r' c' m'' :=
  ⟨heard.ext.trans ext', sort, heard.knows.later ext ext', heard.kept⟩

theorem Draft.Sound.later {draft : Draft} (h : draft.Sound k) (ext : k.Extends k') :
    draft.Sound k' :=
  ⟨fun ref mem => (h.inside ref mem).trans_le ext.size_le, h.ids⟩

theorem Grown.uttered {draft : Draft} (sound : draft.Sound k) (pieces : List Piece)
    {l : List UInt8} (out : ∀ shared, render shared pieces = l) :
    Grown draft k { draft with pieces := pieces ++ draft.pieces } k l.length pieces where
  ext := .refl k
  added := rfl
  prior := List.prefix_refl _
  few := fun _ => Nat.le_add_right _ _
  enough := fun shared => by rw [out]
  sound := ⟨sound.inside, sound.ids⟩

theorem Grown.trans {draft draft' draft'' : Draft} {k'' : Graph} {least least' : Nat}
    {pieces more : List Piece} (first : Grown draft k draft' k' least pieces)
    (second : Grown draft' k' draft'' k'' least' more) :
    Grown draft k draft'' k'' (least + least') (more ++ pieces) where
  ext := first.ext.trans second.ext
  added := by rw [second.added, first.added, List.append_assoc]
  prior := first.prior.trans second.prior
  few := by
    intro shared
    have := first.few shared
    have := second.few shared
    rw [render_append, List.length_append]
    omega
  enough := by
    intro shared
    have := first.enough shared
    have := second.enough shared
    rw [render_append, List.length_append]
    omega
  sound := second.sound

theorem Grown.weaken {draft draft' : Draft} {least fewer : Nat} {pieces : List Piece}
    (grown : Grown draft k draft' k' least pieces) (le : fewer ≤ least) :
    Grown draft k draft' k' fewer pieces :=
  { grown with enough := fun shared => le.trans (grown.enough shared) }

theorem Hears.both {α β γ : Type} {k'' : Graph} {notes'' : Notes} {pieces more : List Piece}
    {y : ByteArray → Nat → Reader α} {y' : ByteArray → Nat → Reader β}
    {z : ByteArray → Nat → Reader γ} {Q : Mirror → α → Prop} {Q' : Mirror → β → Prop}
    {R : Mirror → γ → Prop} (first : Hears D shared k k' notes notes' opened pieces y Q)
    (second : Hears D shared k' k'' notes' notes'' opened more y' Q')
    (reads : ∀ src fuel s s' s'' (m m' : Mirror) h a b, Gives (y src fuel) s h a s' m.graph →
      Q m a → Gives (y' src fuel) s' m.graph b s'' m'.graph → Q' m' b → m.Extends m' →
      ∃ e, Gives (z src fuel) s h e s'' m'.graph ∧ R m' e) :
    Hears D shared k k'' notes notes'' opened (more ++ pieces) z R := by
  intro src c pos m fuel small knows here room
  rw [render_append] at here room ⊢
  rw [List.length_append] at room ⊢
  obtain ⟨a, c₁, m₁, read₁, heard₁⟩ := first src c pos m fuel small knows here.left (by omega)
  obtain ⟨b, c₂, m₂, read₂, heard₂⟩ := second src c₁ _ m₁ fuel small heard₁.knows here.right
    (by omega)
  obtain ⟨e, read, sort⟩ := reads src fuel _ _ _ m₁ m₂ _ a b read₁ heard₁.sort read₂ heard₂.sort
    heard₂.ext
  rw [← Nat.add_assoc]
  refine ⟨e, c₂, m₂, read, heard₁.ext.trans heard₂.ext, sort, heard₂.knows, ?_⟩
  intro a mem id number
  rw [heard₂.kept a mem id number, heard₁.kept a mem id number]

end Keep

section Sequence

variable {α β γ : Type} {x x' : Writer Unit} {y : ByteArray → Nat → Reader α}
  {y' : ByteArray → Nat → Reader β} {z : ByteArray → Nat → Reader γ} {Q : Mirror → α → Prop}
  {Q' : Mirror → β → Prop} {R : Mirror → γ → Prop} {l : List UInt8} {least least' fewer : Nat}
  {opened : List Anchor} {g : Graph}

theorem hears_of_reads {shared : List Anchor} {k : Graph} {notes : Notes} {pieces : List Piece}
    (out : render shared pieces = l)
    (reads : ∀ src (c : Cursor) pos (m : Mirror) fuel, src.size < 2 ^ 32 → Bytes.At src pos l →
      l.length ≤ fuel → ∃ a h, Gives (y src fuel) { c with pos } m.graph a
        { c with pos := pos + l.length } h ∧ ∃ ext : m.graph.Extends h, Q (m.onto ext) a) :
    Hears D shared k k notes notes opened pieces y Q := by
  intro src c pos m fuel small knows here room
  rw [out] at here room ⊢
  obtain ⟨a, h, read, ext, sort⟩ := reads src c pos m fuel small here room
  have later := Mirror.extends_onto ext
  exact ⟨a, c, m.onto ext, read, later, sort, knows.later (.refl k) later, fun _ _ _ _ => rfl⟩

theorem Conveys.of_utters (utters : Utters x l)
    (reads : ∀ src (c : Cursor) pos (m : Mirror) fuel, src.size < 2 ^ 32 → Bytes.At src pos l →
      l.length ≤ fuel → ∃ a h, Gives (y src fuel) { c with pos } m.graph a
        { c with pos := pos + l.length } h ∧ ∃ ext : m.graph.Extends h, Q (m.onto ext) a) :
    Conveys D x y Q l.length opened g := by
  intro draft k _ sound
  obtain ⟨pieces, gives, out⟩ := utters draft k
  exact ⟨_, k, pieces, gives, .uttered sound pieces out,
    fun shared _ _ => hears_of_reads (out shared) reads⟩

theorem Conveys.weaken (conveys : Conveys D x y Q least opened g) (le : fewer ≤ least) :
    Conveys D x y Q fewer opened g := by
  intro draft k ext sound
  obtain ⟨draft', k', pieces, gives, grown, reads⟩ := conveys draft k ext sound
  exact ⟨draft', k', pieces, gives, grown.weaken le, reads⟩

theorem Conveys.imp {Q' : Mirror → α → Prop} (conveys : Conveys D x y Q least opened g)
    (imp : ∀ m a, Q m a → Q' m a) : Conveys D x y Q' least opened g := by
  intro draft k ext sound
  obtain ⟨draft', k', pieces, gives, grown, hears⟩ := conveys draft k ext sound
  refine ⟨draft', k', pieces, gives, grown,
    fun shared prior few src c pos m fuel small knows here room => ?_⟩
  obtain ⟨a, c', m', read, heard⟩ := hears shared prior few src c pos m fuel small knows here room
  exact ⟨a, c', m', read, heard.later (.refl _) (.refl m') (imp _ _ heard.sort)⟩

theorem Conveys.of_gives (conveys : Conveys D x' y Q least opened g)
    (same : ∀ t k t' k', g.Extends k → Gives x' t k () t' k' → Gives x t k () t' k') :
    Conveys D x y Q least opened g := by
  intro draft k ext sound
  obtain ⟨draft', k', pieces, gives, rest⟩ := conveys draft k ext sound
  exact ⟨draft', k', pieces, same draft k draft' k' ext gives, rest⟩

theorem conveys_after {δ : Type} {action : Action δ} {f : δ → Writer Unit}
    (ran : ∀ draft k, g.Extends k → draft.Sound k → ∃ b k', action.run k = (.ok b, k') ∧
      k.Extends k' ∧ ConveysFrom D (f b) y Q least opened draft k') :
    Conveys D (monadLift action >>= f) y Q least opened g := by
  intro draft k ext sound
  obtain ⟨b, k₁, ran, ext₁, draft', k', pieces, gives, grown, hears⟩ := ran draft k ext sound
  exact ⟨draft', k', pieces, .bind (.lift ran) gives, { grown with ext := ext₁.trans grown.ext },
    fun shared prior few src c pos m fuel small knows =>
      hears shared prior few src c pos m fuel small (knows.later ext₁ (.refl m))⟩

theorem Conveys.both (first : Conveys D x y Q least opened g)
    (second : Conveys D x' y' Q' least' opened g)
    (reads : ∀ src fuel s s' s'' (m m' : Mirror) h a b, Gives (y src fuel) s h a s' m.graph →
      Q m a → Gives (y' src fuel) s' m.graph b s'' m'.graph → Q' m' b → m.Extends m' →
      ∃ e, Gives (z src fuel) s h e s'' m'.graph ∧ R m' e) :
    Conveys D (do x; x') z R (least + least') opened g := by
  intro draft k ext sound
  obtain ⟨draft₁, k₁, pieces, gives₁, grown₁, hears₁⟩ := first draft k ext sound
  obtain ⟨draft₂, k₂, more, gives₂, grown₂, hears₂⟩ :=
    second draft₁ k₁ (ext.trans grown₁.ext) grown₁.sound
  exact ⟨draft₂, k₂, more ++ pieces, gives₁.bind gives₂, grown₁.trans grown₂,
    fun shared prior few => (hears₁ shared (grown₂.prior.trans prior) few).both
      (hears₂ shared prior few) reads⟩

theorem Conveys.prefixed (utters : Utters x l) (some_bytes : 0 < l.length)
    (rest : Conveys D x' y Q least opened g)
    (reads : ∀ src (c t : Cursor) pos h (m : Mirror) a fuel, least ≤ src.size →
      src.size < 2 ^ 32 → Bytes.At src pos l →
      Gives (y src fuel) { c with pos := pos + l.length } h a t m.graph → Q m a →
      ∃ b last, Gives (y' src (fuel + 1)) { c with pos } h b t last ∧
        ∃ ext : m.graph.Extends last, Q' (m.onto ext) b) :
    Conveys D (do x; x') y' Q' (l.length + least) opened g := by
  intro draft k ext sound
  obtain ⟨header, first, out⟩ := utters draft k
  have uttered := Grown.uttered sound header out
  obtain ⟨draft', k', pieces, second, grown, rest⟩ := rest _ k ext uttered.sound
  refine ⟨draft', k', pieces ++ header, first.bind second, uttered.trans grown,
    fun shared prior few src c pos m fuel small knows here room => ?_⟩
  rw [render_append, out] at here room ⊢
  rw [List.length_append] at room ⊢
  obtain ⟨fuel, rfl⟩ : ∃ more, fuel = more + 1 := Nat.exists_eq_add_of_le' (by omega)
  obtain ⟨a, c', m', read, heard⟩ := rest shared prior few src c _ m fuel small knows here.right
    (by omega)
  have inside : least ≤ src.size := by
    have enough := grown.enough shared
    rcases here.right.le with none | le
    · rw [none, List.length_nil] at enough
      omega
    · omega
  obtain ⟨b, last, read', ext', sort⟩ := reads src c _ pos m.graph m' a fuel inside small here.left
    read heard.sort
  rw [← Nat.add_assoc]
  exact ⟨b, c', m'.onto ext', read', heard.later (.refl k') (Mirror.extends_onto ext') sort⟩

theorem conveys_nothing (here : ∀ m, Q m a) (y : ByteArray → Nat → Reader α)
    (reads : ∀ src fuel (t : Cursor) h, Gives (y src fuel) t h a t h) :
    Conveys D (pure ()) y Q 0 opened g := by
  intro draft k _ sound
  refine ⟨draft, k, [], .pure () draft k, .uttered sound [] fun _ => rfl, ?_⟩
  intro shared _ _ src c pos m fuel _ knows _ _
  exact ⟨a, c, m, reads src fuel _ m.graph, .refl m, here m, knows, fun _ _ _ _ => rfl⟩

theorem conveys_forM {ι : Type} {items : List ι} {write : ι → Writer Unit}
    {Q : ι → Mirror → α → Prop}
    (each : ∀ i ∈ items, Conveys D (write i) y (Q i) 1 opened g)
    (lasting : ∀ i m m' a, m.Extends m' → Q i m a → Q i m' a) :
    Conveys D (items.forM write) (fun src fuel => Reader.times (y src fuel) items.length)
      (fun m as => List.Forall₂ (fun i a => Q i m a) items as) items.length opened g := by
  induction items with
  | nil => exact conveys_nothing (fun _ => .nil) _ fun _ _ t h => gives_times_zero _ t h
  | cons i rest ih =>
    obtain ⟨first, others⟩ := List.forall_mem_cons.1 each
    refine Conveys.weaken (first.both (ih others) (R := fun m as =>
      List.Forall₂ (fun i a => Q i m a) (i :: rest) as) ?_) (Nat.add_comm _ _).le
    intro src fuel s s' s'' m m' h a as read sort reads sorts ext
    exact ⟨a :: as, gives_times_cons read reads, .cons (lasting i m m' a ext sort) sorts⟩

end Sequence

section Once

variable {shared : List Anchor} {k k' : Graph} {notes notes' : Notes} {a : Anchor}
  {opened : List Anchor} {c c' : Cursor} {m m' : Mirror} {w : Value}

theorem Knows.opened_unnumbered (knows : Knows D shared k notes opened c m)
    (none : idOf? shared a = none) : Knows D shared k (notes.meet a) (a :: opened) c m := by
  refine ⟨knows.tidy, knows.shapes, fun other mem id number => ?_,
    fun other mem shut id number => ?_⟩
  · rcases List.mem_cons.1 mem with rfl | mem
    · rw [none] at number
      cases number
    · exact knows.pending other mem id number
  · rw [List.mem_cons, not_or] at shut
    rcases List.mem_cons.1 mem with same | mem
    · exact absurd same shut.1
    · exact knows.settled other mem shut.2 id number

theorem Knows.closed_unnumbered (knows : Knows D shared k notes (a :: opened) c m)
    (none : idOf? shared a = none) : Knows D shared k notes opened c m := by
  refine ⟨knows.tidy, knows.shapes,
    fun other mem => knows.pending other (List.mem_cons_of_mem _ mem),
    fun other mem shut id number => knows.settled other mem ?_ id number⟩
  rintro (_ | ⟨_, mem⟩)
  · rw [none] at number
    cases number
  · exact shut mem

theorem Knows.remember (knows : Knows D shared k notes opened c m) {id : Nat}
    (number : idOf? shared a = some id) (target : Value) :
    Knows D shared k (notes.meet a) (a :: opened) (c.remember id { value := target }) m := by
  have remembered := knows.tidy.anchored?_remember id { value := target }
  refine ⟨knows.tidy.remember _ _, knows.shapes, fun other mem id' number' => ?_,
    fun other mem shut id' number' => ?_⟩
  · rw [remembered]
    split
    next => exact ⟨target, rfl⟩
    next different =>
      rcases List.mem_cons.1 mem with rfl | mem
      · exact absurd (Option.some.inj (number'.symm.trans number)) different
      · exact knows.pending other mem id' number'
  · rw [List.mem_cons, not_or] at shut
    have different : id' ≠ id := by
      rintro rfl
      exact shut.1 (idOf?_inj number' number)
    rw [remembered, if_neg different]
    rcases List.mem_cons.1 mem with same | mem
    · exact absurd same shut.1
    · exact knows.settled other mem shut.2 id' number'

theorem Knows.store {opened' : List Anchor} (knows : Knows D shared k notes opened' c m)
    (still : opened ⊆ opened') (only : opened' ⊆ a :: opened) (shut : a ∉ opened) {id place : Nat}
    (number : idOf? shared a = some id) (looked : c.anchorIds.lookup id = some place)
    {found : Anchored} (settled : Settled D k m a found.value) :
    Knows D shared k notes opened (c.store place found) m := by
  have stored := knows.tidy.anchored?_store looked found
  refine ⟨knows.tidy.store _ _, knows.shapes, fun other mem id' number' => ?_,
    fun other mem shut' id' number' => ?_⟩
  · have different : id' ≠ id := by
      rintro rfl
      exact shut (idOf?_inj number number' ▸ mem)
    rw [stored, if_neg different]
    exact knows.pending other (still mem) id' number'
  · rw [stored]
    split
    next same =>
      obtain rfl := idOf?_inj (same ▸ number') number
      exact ⟨_, rfl, settled⟩
    next different =>
      refine knows.settled other mem (fun mem' => ?_) id' number'
      rcases List.mem_cons.1 (only mem') with rfl | mem'
      · exact different (Option.some.inj (number'.symm.trans number))
      · exact shut' mem'

theorem hears_pointer {id : Nat} (met : a ∈ notes.seen) (shut : a ∉ opened)
    (number : idOf? shared a = some id) (fits : id < 2 ^ 32) {piece : ByteArray}
    (pointer : piece.data.toList = [0xd6, pointerType] ++ be 4 id) :
    Hears D shared k k notes notes opened [.bytes piece]
      (fun src fuel => Reader.value src .whole fuel) (fun m w => Settled D k m a w) := by
  intro src c pos m fuel small knows here room
  have out : render shared [.bytes piece] = [0xd6, pointerType] ++ be 4 id :=
    (List.append_nil _).trans pointer
  rw [out] at here room ⊢
  obtain ⟨fuel, rfl⟩ : ∃ more, fuel = more + 1 :=
    Nat.exists_eq_add_of_le' ((Nat.le_add_left 1 5).trans room)
  obtain ⟨found, there, settled⟩ := knows.settled a met shut id number
  obtain ⟨place, looked, stored⟩ := exists_place there
  refine ⟨found.value, c.store place { found with used := true }, m,
    gives_value_extension here (by decide) (fun _ => rfl) ?_, .refl m, settled,
    knows.store (List.Subset.refl _) (List.subset_cons_self _ _) shut number looked settled,
    fun _ _ _ _ => rfl⟩
  refine .bind (gives_anchorId here.right fits) (.bind (.get _ _) ?_)
  dsimp only
  rw [looked]
  dsimp only
  rw [stored]
  exact .bind (.set _ _ _) (.pure _ _ _)

/-- What is read as something new is read as that behind its anchor too, whether or not the anchor
has a number, and then stands for it. -/
theorem hears_anchor {pieces : List Piece} {P Q : Mirror → Value → Prop} (shut : a ∉ opened)
    (few : shared.length < 2 ^ 32)
    (inner : Hears D shared k k' (notes.meet a) notes' (a :: opened) pieces
      (fun src fuel => Reader.value src .whole fuel) P)
    (settles : ∀ m w, P m w → ∃ m' : Mirror, m'.graph = m.graph ∧ m.Extends m' ∧
      Settled D k' m' a w ∧ Q m' w) :
    Hears D shared k k' notes notes' opened (pieces ++ [.anchor a])
      (fun src fuel => Reader.value src .whole fuel) Q := by
  intro src c pos m fuel small knows here room
  rw [render_anchor] at here room ⊢
  cases number : idOf? shared a with
  | none =>
    -- nothing points at the anchor later on, so it takes no bytes
    rw [number] at here room
    obtain ⟨w, c', m', read, heard⟩ := inner src c pos m fuel small
      (knows.opened_unnumbered number) here room
    obtain ⟨last, graph, ext, -, sort⟩ := settles m' w heard.sort
    refine ⟨w, c', last, graph ▸ read, heard.ext.trans ext, sort,
      (heard.knows.closed_unnumbered number).later (.refl k') ext,
      fun other mem => heard.kept other (List.mem_cons_of_mem _ mem)⟩
  | some id =>
    rw [number] at here room
    dsimp only [Option.elim] at here room ⊢
    have length : ([0xd6, anchorType] ++ be 4 id).length = 6 := rfl
    rw [List.length_append, length] at room
    obtain ⟨fuel, rfl⟩ : ∃ more, fuel = more + 1 :=
      Nat.exists_eq_add_of_le' ((Nat.le_add_left 1 5).trans ((Nat.le_add_right 6 _).trans room))
    have fits := (le_length_of_idOf? number).trans_lt few
    obtain ⟨target, o, anchored⟩ := gives_anchor (c := c) (g := m.graph) here.left.right fits
    have after := here.right
    rw [length] at after
    have placed := Mirror.extends_onto (Graph.extends_add m.graph o)
    obtain ⟨w, c', m', read, heard⟩ := inner src (c.remember id { value := target }) (pos + 6)
      (m.onto (Graph.extends_add m.graph o)) fuel small
      ((knows.later (.refl k) placed).remember number target) after (by omega)
    -- what stands inside does not point at the anchor, so its placeholder is left alone
    have looked : c'.anchorIds.lookup id = some c.anchors.size := by
      rw [heard.kept a List.mem_cons_self id number, Cursor.lookup_remember, if_pos rfl]
    have unused : ∃ other, c'.anchors[c.anchors.size]? = some { value := other } := by
      obtain ⟨other, there⟩ := heard.knows.pending a List.mem_cons_self id number
      rw [Cursor.anchored?, looked] at there
      exact ⟨other, there⟩
    obtain ⟨last, graph, ext, settled, sort⟩ := settles m' w heard.sort
    rw [List.length_append, length, ← Nat.add_assoc]
    refine ⟨w, c'.store c.anchors.size { value := w }, last,
      gives_value_extension here.left (by decide) (fun _ => rfl)
        (anchored (graph ▸ read) unused),
      (placed.trans heard.ext).trans ext, sort,
      (heard.knows.later (.refl k') ext).store (List.subset_cons_self _ _) (List.Subset.refl _)
        shut number looked settled, fun other mem id' number' => ?_⟩
    have different : id' ≠ id := by
      rintro rfl
      exact shut (idOf?_inj number number' ▸ mem)
    refine (heard.kept other (List.mem_cons_of_mem _ mem) id' number').trans ?_
    rw [Cursor.lookup_remember, if_neg different]

end Once

section Anchors

variable {a : Anchor} {body : Writer Unit} {opened : List Anchor} {draft draft' : Draft}
  {k k' : Graph}

theorem exists_pointer (met : a ∈ draft.seen) (body : Writer Unit) :
    ∃ id later piece, piece.data.toList = [0xd6, pointerType] ++ be 4 id ∧
      Gives (once a body) draft k ()
        { draft with shared := later, pieces := .bytes piece :: draft.pieces } k ∧
      draft.shared <+: later ∧ later.length ≤ draft.shared.length + 1 ∧
      idOf? later a = some id := by
  obtain ⟨id, later, shares, prior, few, number⟩ := gives_shareId a draft k
  refine ⟨id, later, Bytes.ofList ([0xd6, pointerType] ++ be 4 id), rfl, .bind (.get draft k) ?_,
    prior, few, number⟩
  rw [if_pos (List.contains_iff_mem.2 met)]
  exact .bind shares (.modify _ _ k)

theorem Grown.pointed {id : Nat} {later : List Anchor} {piece : ByteArray}
    (sound : draft.Sound k) (pointer : piece.data.toList = [0xd6, pointerType] ++ be 4 id)
    (prior : draft.shared <+: later) (few : later.length ≤ draft.shared.length + 1) :
    Grown draft k { draft with shared := later, pieces := .bytes piece :: draft.pieces } k 1
      [.bytes piece] := by
  have length (shared : List Anchor) : (render shared [.bytes piece]).length = 6 := by
    rw [show render shared [.bytes piece] = [0xd6, pointerType] ++ be 4 id from
      (List.append_nil _).trans pointer]
    rfl
  refine ⟨.refl k, rfl, prior, fun shared => ?_, fun shared => ?_, ⟨sound.inside, sound.ids⟩⟩
  · rw [length]
    exact few.trans (Nat.add_le_add_left (by decide) _)
  · rw [length]
    decide

theorem Grown.anchored {least : Nat} {pieces : List Piece}
    (grown : Grown { draft with
      seen := a :: draft.seen
      pieces := .anchor a :: draft.pieces } k draft' k' least pieces) :
    Grown draft k draft' k' least (pieces ++ [.anchor a]) := by
  have longer (shared : List Anchor) : (render shared pieces).length ≤
      (render shared (pieces ++ [.anchor a])).length := by
    rw [render_anchor, List.length_append]
    exact Nat.le_add_left _ _
  refine ⟨grown.ext, ?_, grown.prior, fun shared => ?_, fun shared => ?_, grown.sound⟩
  · rw [grown.added, List.append_assoc]
    rfl
  · exact (grown.few shared).trans (Nat.add_le_add_left (longer shared) _)
  · exact (grown.enough shared).trans (longer shared)

theorem gives_once_unmet (unmet : a ∉ draft.seen)
    (gives : Gives body { draft with seen := a :: draft.seen, pieces := .anchor a :: draft.pieces }
      k () draft' k') : Gives (once a body) draft k () draft' k' := by
  refine .bind (.get draft k) ?_
  rw [if_neg (mt List.contains_iff_mem.1 unmet)]
  exact .bind (.modify _ draft k) gives

theorem conveysFrom_pointer (body : Writer Unit) (sound : draft.Sound k) (met : a ∈ draft.seen)
    (shut : a ∉ opened) :
    ConveysFrom D (once a body) (fun src fuel => Reader.value src .whole fuel)
      (fun m w => Settled D k m a w) 1 opened draft k := by
  obtain ⟨id, later, piece, pointer, gives, prior, few, number⟩ :=
    exists_pointer (k := k) met body
  refine ⟨_, k, [.bytes piece], gives, .pointed sound pointer prior few,
    fun shared prior' count => ?_⟩
  have known := idOf?_of_prefix prior' number
  exact hears_pointer met shut known ((le_length_of_idOf? known).trans_lt count) pointer

theorem conveysFrom_anchor {least : Nat} {P Q : Mirror → Value → Prop} (unmet : a ∉ draft.seen)
    (shut : a ∉ opened)
    (inner : ConveysFrom D body (fun src fuel => Reader.value src .whole fuel) P least (a :: opened)
      { draft with seen := a :: draft.seen, pieces := .anchor a :: draft.pieces } k)
    (settles : ∀ k', k.Extends k' → ∀ m w, P m w → ∃ m' : Mirror, m'.graph = m.graph ∧
      m.Extends m' ∧ Settled D k' m' a w ∧ Q m' w) :
    ConveysFrom D (once a body) (fun src fuel => Reader.value src .whole fuel) Q least opened draft
      k := by
  obtain ⟨draft', k', pieces, gives, grown, hears⟩ := inner
  exact ⟨draft', k', pieces ++ [.anchor a], gives_once_unmet unmet gives, grown.anchored,
    fun shared prior few => hears_anchor shut few (hears shared prior few) (settles k' grown.ext)⟩

end Anchors

section Values

variable {d : D} {v : Value} {ref : Ref} {x body : Writer Unit} {opened : List Anchor} {g k : Graph}
  {draft : Draft} {fuel : Nat}

variable (D) in
/-- The value is conveyed as one that mirrors it. -/
def ConveysValue (x : Writer Unit) (v : Value) (opened : List Anchor) (g : Graph) : Prop :=
  Conveys D x (fun src fuel => Reader.value src .whole fuel) (fun m w => Mirrors D g m v w) 1 opened
    g

/-- What is written is read as a new object that holds this. -/
def ConveysObject (x : Writer Unit) (d : D) (opened : List Anchor) (g : Graph) : Prop :=
  Conveys D x (fun src fuel => Reader.value src .whole fuel)
    (fun m w => Back m.graph d w ∧ m.Fresh w) 1 opened g

variable (D) in
/-- These anchors are objects that hold something higher than this. -/
def Higher (n : Nat) (opened : List Anchor) (g : Graph) : Prop :=
  ∀ a ∈ opened, ∃ ref, a = .object ref ∧ ∃ d : D, Held g d (.object ref) ∧ n < height d

theorem Higher.of_extends {n : Nat} (ext : g.Extends k) (h : Higher D n opened g) :
    Higher D n opened k := by
  intro a mem
  obtain ⟨ref, same, d, held, lt⟩ := h a mem
  exact ⟨ref, same, d, held_of_extends ext held, lt⟩

theorem Higher.cons {n : Nat} (held : Held g d (.object ref)) (lt : n < height d)
    (h : Higher D (height d) opened g) : Higher D n (.object ref :: opened) g := by
  refine List.forall_mem_cons.2 ⟨⟨ref, rfl, d, held, lt⟩, fun a mem => ?_⟩
  obtain ⟨ref', same, d', held', lt'⟩ := h a mem
  exact ⟨ref', same, d', held', lt.trans lt'⟩

theorem Higher.notMem (held : Held g d (.object ref)) (h : Higher D (height d) opened g) :
    .object ref ∉ opened := by
  intro mem
  obtain ⟨ref', same, d', held', lt⟩ := h _ mem
  cases same
  rw [unique held held'] at lt
  exact lt.false

theorem Higher.shape_notMem {n : Nat} (h : Higher D n opened g) (names : List String) :
    .shape names ∉ opened := by
  intro mem
  obtain ⟨ref, same, -⟩ := h _ mem
  cases same

theorem Draft.Sound.meet (sound : draft.Sound k) (lt : ref < k.size) : Draft.Sound { draft with
    seen := .object ref :: draft.seen
    pieces := .anchor (.object ref) :: draft.pieces } k := by
  refine ⟨fun other mem => ?_, sound.ids⟩
  rcases List.mem_cons.1 mem with same | mem
  · cases same
    exact lt
  · exact sound.inside other mem

/-- Objects are conveyed once, as long as they are lower than those that are being written. -/
theorem ConveysValue.once (held : Held g d (.object ref)) (higher : Higher D (height d) opened g)
    (inner : ConveysObject body d (.object ref :: opened) g) :
    ConveysValue D (MessagePack.once (.object ref) body) (.object ref) opened g := by
  have shut := higher.notMem held
  intro draft k ext sound
  have held' := held_of_extends ext held
  by_cases met : .object ref ∈ draft.seen
  · obtain ⟨draft', k', pieces, gives, grown, hears⟩ :=
      conveysFrom_pointer (D := D) body sound met shut
    refine ⟨draft', k', pieces, gives, grown, fun shared prior few src c pos m fuel small knows here
      room => ?_⟩
    obtain ⟨w, c', m', read, heard⟩ := hears shared prior few src c pos m fuel small knows here room
    have settled : Mirrors D k m' (.object ref) w := heard.sort
    exact ⟨w, c', m', read, heard.later (.refl _) (.refl m')
      ⟨⟨d, held, settled.back held'⟩, settled.2⟩⟩
  · refine conveysFrom_anchor met shut
      (inner _ k ext (sound.meet (ref_lt held'))) fun k' ext' m w ⟨back, fresh⟩ => ?_
    obtain ⟨m', graph, grown, linked⟩ := fresh.exists_linked ref
    have back' := back_of_extends grown.graph back
    exact ⟨m', graph, grown, ⟨⟨d, held_of_extends ext' held', back'⟩, linked⟩,
      ⟨d, held, back'⟩, linked⟩

end Values

end Marshal.MessagePack
