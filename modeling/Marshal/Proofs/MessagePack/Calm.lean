import Marshal.Proofs.Table.Check
import Marshal.MessagePack.Reader

namespace Marshal.MessagePack.Reader

open Marshal.Action (KeepsFrom Lasting)

section Pieces

variable {R : Graph → Graph → Prop} (lasting : Lasting R) (src : ByteArray)

include lasting

theorem keeps_peek : KeepsFrom R (peek? src) :=
  .bind lasting (.get lasting) fun _ => .pure lasting _

theorem keeps_byte : KeepsFrom R (byte? src) :=
  .bind lasting (keeps_peek lasting src) fun _ =>
    .bind lasting (.modify lasting _) fun _ => .pure lasting _

theorem keeps_take (n : Nat) : KeepsFrom R (take src n) :=
  .bind lasting (.get lasting) fun _ => .bind lasting (.set lasting _) fun _ => .pure lasting _

theorem keeps_fixed (width : Nat) : KeepsFrom R (fixed src width) := by
  refine .bind lasting (.get lasting) fun c => ?_
  dsimp only
  split
  · exact .bind lasting (.throw lasting _) fun _ => .bind lasting (.set lasting _) fun _ =>
      .pure lasting _
  · exact .bind lasting (.set lasting _) fun _ => .pure lasting _

theorem keeps_text (n : Nat) : KeepsFrom R (text src n) := by
  rw [text]
  split
  · exact .bind lasting (keeps_take lasting src n) fun _ => .pure lasting _
  · exact .bind lasting (.get lasting) fun c => .bind lasting (.set lasting _) fun _ =>
      .pure lasting _

theorem keeps_nameOf (v : Value) : KeepsFrom R (nameOf v) := by
  rw [nameOf.eq_def]
  split
  · exact .bind lasting (.lift lasting (.get lasting)) fun _ => .throw lasting _
  · exact .throw lasting _
  · exact .pure lasting _

theorem keeps_name {read : Reader Value} (inner : KeepsFrom R read) :
    KeepsFrom R (name src read) := by
  have other : KeepsFrom R (do nameOf (← read)) := .bind lasting inner (keeps_nameOf lasting)
  rw [name]
  refine .bind lasting (keeps_peek lasting src) fun b => ?_
  split
  · dsimp only
    split
    · have rest (n : Nat) : KeepsFrom R (do return safeName (← text src n)) :=
        .bind lasting (keeps_text lasting src n) fun _ => .pure lasting _
      exact .bind lasting (.modify lasting _) fun _ => .bind lasting (.get lasting) fun c =>
        .ite (.bind lasting (.throw lasting _) fun _ => rest _) (rest _)
    · exact other
  · exact other

theorem keeps_times {α : Type} {read : Reader α} (inner : KeepsFrom R read) (n : Nat) :
    KeepsFrom R (times read n) := by
  induction n with
  | zero => exact .pure lasting []
  | succ n ih =>
    exact .bind lasting inner fun first => .bind lasting ih fun rest => .pure lasting _

theorem keeps_anchorId : KeepsFrom R (anchorId src) := by
  refine .bind lasting (.get lasting) fun c => ?_
  dsimp only
  split
  · exact .bind lasting (.throw lasting _) fun _ => .pure lasting _
  · exact .pure lasting _

theorem keeps_pointer : KeepsFrom R (pointer src) := by
  refine .bind lasting (keeps_anchorId lasting src) fun id =>
    .bind lasting (.get lasting) fun c => ?_
  split
  · split
    · exact .bind lasting (.set lasting _) fun _ => .pure lasting _
    · exact .throw lasting _
  · exact .throw lasting _

theorem keeps_bigintOf (data : List UInt8) : KeepsFrom R (bigintOf data) := by
  rw [bigintOf]
  split
  · exact .bind lasting (.throw lasting _) fun _ => .pure lasting _
  · exact .pure lasting _

end Pieces

section Objects

variable {R : Graph → Graph → Prop} (lasting : Lasting R) (grows : ∀ g o, R g (g.add o))
  (src : ByteArray) {read : Reader Value} (inner : KeepsFrom R read)

include lasting grows

theorem keeps_add (o : Object) : KeepsFrom R (monadLift (Action.add o) : Reader Value) :=
  .lift lasting (.add grows o)

theorem keeps_storageOf (data : ByteArray) : KeepsFrom R (storageOf data) := by
  rw [storageOf]
  split
  · exact .throw lasting _
  · split
    · split
      · exact keeps_add lasting grows _
      · exact .throw lasting _
    · split
      · exact keeps_add lasting grows _
      · split
        · exact keeps_add lasting grows _
        · exact .throw lasting _

theorem keeps_errorOf (data : Value) : KeepsFrom R (errorOf data) := by
  have property (name : String) :
      KeepsFrom R (monadLift (Action.property data name) : Reader Value) :=
    .lift lasting (.property lasting fun _ => grows)
  refine .bind lasting (property _) fun name => .bind lasting (property _) fun message =>
    .bind lasting (property _) fun cause =>
    .bind lasting (.lift lasting (.key lasting grows _)) fun nameText => ?_
  split
  · exact .bind lasting (.lift lasting (.iterate lasting grows _)) fun _ =>
      keeps_add lasting grows _
  · have made (shown : Option String) : KeepsFrom R (if nameText == "Error" then
          monadLift (Action.add { kind := some .error, body := .error shown (some cause) })
        else if Class.errorKinds.contains nameText then
          monadLift (Action.add
            { kind := some (.errorOfKind nameText), body := .error shown (some cause) })
        else
          monadLift (Action.add
            { kind := some .error, fields := [("name", name)], body := .error shown (some cause) })
        : Reader Value) := by
      split
      · exact keeps_add lasting grows _
      · split <;> exact keeps_add lasting grows _
    dsimp only
    split
    · exact .bind lasting (.pure lasting _) made
    · exact .bind lasting (.map lasting some (.lift lasting (.text lasting grows _))) made

include inner

theorem keeps_listOf (n : Nat) : KeepsFrom R (listOf read n) :=
  .bind lasting (keeps_times lasting inner n) fun _ => keeps_add lasting grows _

theorem keeps_mapOf (d : Dialect) (n : Nat) : KeepsFrom R (mapOf src d read n) := by
  cases d with
  | whole =>
    exact .bind lasting (keeps_times lasting (.bind lasting inner fun _ =>
      .bind lasting inner fun _ => .pure lasting _) n) fun _ => keeps_add lasting grows _
  | envelope =>
    exact .bind lasting (keeps_times lasting (.bind lasting (keeps_name lasting src inner) fun _ =>
      .bind lasting inner fun _ => .pure lasting _) n) fun _ => keeps_add lasting grows _

theorem keeps_recordOf (names : List String) : KeepsFrom R (recordOf read names) :=
  .bind lasting (.mapM lasting (fun _ => .bind lasting inner fun _ => .pure lasting _) names)
    fun _ => keeps_add lasting grows _

theorem keeps_shape (id : Nat) : KeepsFrom R (shape read id) := by
  have names (v : Value) : KeepsFrom R (shapeNames v) := by
    refine .bind lasting (.lift lasting (.objectOf? lasting v)) fun o => ?_
    split
    · split
      · exact .mapM lasting (keeps_nameOf lasting) _
      · exact .mapM lasting (keeps_nameOf lasting) _
      · exact .throw lasting _
    · exact .throw lasting _
  exact .bind lasting inner fun v => .bind lasting (names v) fun names =>
    .bind lasting (.modify lasting _) fun _ => keeps_recordOf lasting grows inner names

end Objects

/-- A property of readers that reading a value has if each way to read one has it. -/
structure Closed (src : ByteArray) (d : Dialect) (P : Reader Value → Prop) : Prop where
  throw : ∀ cause, P (throw (.cause cause))
  scalar : ∀ {v : Value}, (∀ ref, v ≠ .object ref) → P (pure v)
  reserved : P (pure (.object Graph.reservedRef))
  byte : ∀ {f : Option UInt8 → Reader Value}, (∀ b, P (f b)) → P (byte? src >>= f)
  fixed : ∀ width {f : Nat → Reader Value}, (∀ n, P (f n)) → P (fixed src width >>= f)
  cursor : ∀ {f : Cursor → Reader Value}, (∀ c, P (f c)) → P (get >>= f)
  text : ∀ n, P (do return .string (← text src n))
  bytes : ∀ n, P (do Action.newBytes (← take src n))
  record : ∀ fuel, P (value src d fuel) → ∀ names, P (recordOf (value src d fuel) names)
  list : ∀ fuel, P (value src d fuel) → ∀ n, P (listOf (value src d fuel) n)
  map : ∀ fuel, P (value src d fuel) → ∀ n, P (mapOf src d (value src d fuel) n)
  sized : ∀ fuel, P (value src d fuel) → ∀ n, P (sized src (value src d fuel) n)
  single : ∀ fuel, P (value src d fuel) → P (single src (value src d fuel))

theorem Closed.value {src : ByteArray} {d : Dialect} {P : Reader Value → Prop}
    (closed : Closed src d P) (fuel : Nat) : P (value src d fuel) := by
  induction fuel with
  | zero => exact closed.throw _
  | succ fuel ih =>
    have text := closed.text
    have list := closed.list fuel ih
    have map := closed.map fuel ih
    have sized := closed.sized fuel ih
    rw [Reader.value]
    refine closed.byte fun b => ?_
    cases b with
    | none => exact closed.throw _
    | some b =>
      refine iteInduction (fun _ => closed.scalar nofun) fun _ =>
        iteInduction (fun _ => ?_) fun _ => iteInduction (fun _ => map _) fun _ =>
        iteInduction (fun _ => list _) fun _ => iteInduction (fun _ => text _) fun _ =>
        iteInduction (fun _ => closed.scalar nofun) fun _ => ?_
      · refine closed.cursor fun c => ?_
        split
        · exact closed.record fuel ih _
        · exact closed.scalar nofun
      · -- from here on a case for each first byte, in the order of their values
        split
        · exact closed.scalar nofun
        · exact closed.reserved
        · exact closed.scalar nofun
        · exact closed.scalar nofun
        · refine closed.byte fun n => ?_
          split
          · exact closed.bytes _
          · exact closed.throw _
        · exact closed.fixed 2 closed.bytes
        · exact closed.fixed 4 closed.bytes
        · exact closed.byte fun n => sized _
        · exact closed.fixed 2 sized
        · exact closed.fixed 4 sized
        · exact closed.fixed 4 fun n => closed.scalar nofun
        · exact closed.fixed 8 fun n => closed.scalar nofun
        · refine closed.byte fun n => ?_
          split <;> exact closed.scalar nofun
        · exact closed.fixed 2 fun n => closed.scalar nofun
        · exact closed.fixed 4 fun n => closed.scalar nofun
        · exact closed.fixed 8 fun n => closed.scalar nofun
        · exact closed.fixed 1 fun n => closed.scalar nofun
        · exact closed.fixed 2 fun n => closed.scalar nofun
        · exact closed.fixed 4 fun n => closed.scalar nofun
        · exact closed.fixed 8 fun n => closed.scalar nofun
        · exact closed.single fuel ih
        · exact sized _
        · exact sized _
        · exact sized _
        · exact sized _
        · exact closed.byte fun n => text _
        · exact closed.fixed 2 text
        · exact closed.fixed 4 text
        · exact closed.fixed 2 list
        · exact closed.fixed 4 list
        · exact closed.fixed 2 map
        · exact closed.fixed 4 map

theorem run_bind_eq_ok {α β : Type} {x : Reader α} {f : α → Reader β} {c c' : Cursor} {g k : Graph}
    {b : β} :
    ((x >>= f).run c).run g = (.ok (b, c'), k) ↔ ∃ a t h, (x.run c).run g = (.ok (a, t), h) ∧
      ((f a).run t).run h = (.ok (b, c'), k) := by
  rw [StateT.run_bind, Effect.run_bind_eq_ok]
  constructor
  · rintro ⟨⟨a, t⟩, h, first, second⟩
    exact ⟨a, t, h, first, second⟩
  · rintro ⟨a, t, h, first, second⟩
    exact ⟨(a, t), h, first, second⟩

theorem placeholder_run (src : ByteArray) (c : Cursor) (g : Graph) :
    ∃ kind ∈ [Class.array, .map, .set, .object], ∃ body,
      ((placeholder src).run c).run g = (.ok (.object g.size, c), g.add (.bare kind body)) := by
  rw [placeholder, StateT.run_bind, Effect.run_bind]
  change ∃ kind ∈ _, ∃ body, ((ite _ _ _ : Reader Value).run c).run g = _
  split
  · exact ⟨.array, by simp, .list [], rfl⟩
  · split
    · exact ⟨.map, by simp, .map [], rfl⟩
    · split
      · exact ⟨.set, by simp, .set [], rfl⟩
      · exact ⟨.object, by simp, .plain, rfl⟩

/-- The names and values that a read value has for a placeholder. -/
def poured (g : Graph) (v : Value) : List (String × Value) :=
  match g.objectOf? v, v.characters? with
  | some o, _ => o.entries
  | none, some cs => cs.zipIdx.map fun (c, i) => (toString i, c)
  | none, none => []

/-- Filling a placeholder changes this object only: it gets the names and values one after the
other. -/
theorem fill_ok {ref : Ref} {o : Object} {v : Value} {c c' : Cursor} {g k : Graph} {u : Unit}
    (found : g.get? ref = some o)
    (ran : ((fill (.object ref) v).run c).run g = (.ok (u, c'), k)) :
    ∃ body, k = g.put ref
      { (poured g v).foldl (fun o (name, w) => assignEntry o name w) o with body } := by
  rw [fill.eq_def] at ran
  dsimp only at ran
  obtain ⟨_, _, _, ⟨⟩, ran⟩ := run_bind_eq_ok.1 ran
  split at ran
  next o' found' =>
    obtain rfl : o = o' := Option.some.inj (found.symm.trans found')
    obtain ⟨_, _, _, ⟨⟩, ran⟩ := run_bind_eq_ok.1 ran
    split at ran <;> cases ran <;> exact ⟨_, rfl⟩
  next missing => exact absurd found (missing o)

theorem keeps_fill (ref : Ref) (v : Value) :
    KeepsFrom (Graph.ExtendsApart ref) (fill (.object ref) v) := by
  have lasting := Action.lasting_extendsApart ref
  have put (o : Object) :
      KeepsFrom (Graph.ExtendsApart ref) (monadLift (Action.put ref o) : Reader Unit) :=
    .lift lasting (.put ref o)
  rw [fill.eq_def]
  dsimp only
  refine .bind lasting (.lift lasting (.objectOf? lasting _)) fun found => ?_
  split
  · refine .bind lasting (.lift lasting (.objectOf? lasting v)) fun source => ?_
    split
    · exact put _
    · exact .bind lasting (put _) fun _ => .throw lasting _
    · exact put _
    · exact put _
  · exact .pure lasting _

/-- Objects stay as they are while something is read. -/
abbrev Calm {α : Type} (x : Reader α) : Prop := KeepsFrom Graph.Extends x

section Calm

open Marshal.Action (lasting_extends)
open Marshal.Graph (extends_add)

variable (src : ByteArray) {read : Reader Value} (inner : Calm read)

include inner

theorem calm_anchor : Calm (anchor src read) := by
  refine .bind lasting_extends (keeps_anchorId lasting_extends src) fun id => ?_
  have keeps (ref : Ref) : KeepsFrom (Graph.ExtendsApart ref) (do
      let place := (← get).anchors.size
      modify fun c => { c with
        anchors := c.anchors.push { value := .object ref }
        anchorIds := (id, place) :: c.anchorIds }
      let v ← read
      if ((← get).anchors[place]?).any (·.used) then
        fill (.object ref) v
        return .object ref
      else
        modify fun c => { c with anchors := c.anchors.setIfInBounds place { value := v } }
        return v) := by
    have lasting := Action.lasting_extendsApart ref
    refine .bind lasting (.get lasting) fun c => .bind lasting (.modify lasting _) fun _ =>
      .bind lasting (inner.mono fun ext => ext.apart ref) fun v =>
      .bind lasting (.get lasting) fun c' => .ite ?_ ?_
    · exact .bind lasting (keeps_fill ref v) fun _ => .pure lasting _
    · exact .bind lasting (.modify lasting _) fun _ => .pure lasting _
  intro c
  have extended {g k : Graph} {o : Object} (apart : Graph.ExtendsApart g.size (g.add o) k) :
      g.Extends k := fun ref o' found =>
    apart ref o' (Graph.lt_size_of_get? found).ne (extends_add g o ref o' found)
  constructor
  · intro g
    obtain ⟨kind, -, body, made⟩ := placeholder_run src c g
    rw [StateT.run_bind, Effect.run_bind, made]
    exact extended ((keeps g.size c).stands _)
  · intro g fault failed
    obtain ⟨kind, -, body, made⟩ := placeholder_run src c g
    rw [StateT.run_bind, Effect.run_bind, made] at failed
    exact (keeps g.size c).causes _ fault failed

theorem calm_extension {type : UInt8} {data : ByteArray} {action : Reader Value}
    (known : extension? src read type data = some action) : Calm action := by
  unfold extension? at known
  split_ifs at known <;> cases known
  · exact .pure lasting_extends _
  · exact keeps_bigintOf lasting_extends _
  · exact .bind lasting_extends inner fun data => keeps_errorOf lasting_extends extends_add data
  · exact calm_anchor src inner
  · exact keeps_pointer lasting_extends src
  · exact .bind lasting_extends inner fun v =>
      .lift lasting_extends (.setOf lasting_extends extends_add v)
  · exact keeps_storageOf lasting_extends extends_add _
  · have property (data : Value) (name : String) :
        Calm (monadLift (Action.property data name) : Reader Value) :=
      .lift lasting_extends (.property lasting_extends fun _ => extends_add)
    exact .bind lasting_extends inner fun data =>
      .bind lasting_extends (property data _) fun source =>
      .bind lasting_extends (property data _) fun flags =>
      .lift lasting_extends (.patternOf lasting_extends extends_add source flags)
  · exact .lift lasting_extends (.add extends_add _)

theorem calm_sized (length : Nat) : Calm (sized src read length) := by
  refine .bind lasting_extends (keeps_byte lasting_extends src) fun type => ?_
  split
  · exact .throw lasting_extends _
  · next type =>
    refine .bind lasting_extends (keeps_take lasting_extends src _) fun data => ?_
    cases known : extension? src read type data with
    | none =>
      have refused : Calm (throw (unknownExtensionType (toString type.toNat)) : Reader Value) :=
        .throw lasting_extends _
      exact .ite (.bind lasting_extends (.throw lasting_extends _) fun _ => refused) refused
    | some action =>
      have calm := calm_extension src inner known
      exact .ite (.bind lasting_extends (.throw lasting_extends _) fun _ => calm) calm

theorem calm_single : Calm (single src read) := by
  have byte := keeps_byte lasting_extends src
  refine .bind lasting_extends byte fun type => ?_
  split
  · exact .throw lasting_extends _
  · next type =>
    refine .ite ?_ (.bind lasting_extends (keeps_take lasting_extends src _) fun data =>
      .ite ?_ (.ite ?_ ?_))
    · exact .bind lasting_extends byte fun id =>
        keeps_shape lasting_extends extends_add inner _
    · exact .bind lasting_extends inner fun v =>
        .lift lasting_extends (Table.keeps_readColumn lasting_extends extends_add v)
    · exact .bind lasting_extends inner fun v =>
        .lift lasting_extends (Table.keeps_readTable lasting_extends extends_add v)
    · split
      next action known => exact calm_extension src inner known
      next => exact .throw lasting_extends _

end Calm

theorem calm_value (src : ByteArray) (d : Dialect) (fuel : Nat) : Calm (value src d fuel) := by
  have lasting := Action.lasting_extends
  have grows := Graph.extends_add
  have closed : Closed src d Calm :=
    { throw := .throw lasting
      scalar := fun _ => .pure lasting _
      reserved := .pure lasting _
      byte := .bind lasting (keeps_byte lasting src)
      fixed := fun width => .bind lasting (keeps_fixed lasting src width)
      cursor := .bind lasting (.get lasting)
      text := fun n => .bind lasting (keeps_text lasting src n) fun _ => .pure lasting _
      bytes := fun n =>
        .bind lasting (keeps_take lasting src n) fun _ => .lift lasting (.add grows _)
      record := fun _ inner => keeps_recordOf lasting grows inner
      list := fun _ inner => keeps_listOf lasting grows inner
      map := fun _ inner => keeps_mapOf lasting grows src inner d
      sized := fun _ inner => calm_sized src inner
      single := fun _ inner => calm_single src inner }
  exact closed.value fuel

end Marshal.MessagePack.Reader

namespace Marshal.MessagePack

theorem keeps_decode (d : Dialect) (src : ByteArray) :
    Action.Keeps Graph.Extends (decode d src) := by
  have lasting := Action.lasting_extends
  refine .bind lasting (Reader.calm_value src d _ _) fun read => ?_
  dsimp only
  split
  · exact .throw lasting _
  · split
    · exact .throw lasting _
    · exact .pure lasting read.1

end Marshal.MessagePack
