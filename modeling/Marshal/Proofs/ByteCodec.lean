import Marshal.ByteCodec
import Marshal.Proofs.MessagePack.Calm

namespace Marshal

open Marshal.Action (Keeps KeepsFrom Lasting)

namespace MessagePack

variable {R : Graph → Graph → Prop} (lasting : Lasting R)

section Pieces

include lasting

theorem keeps_emit (bytes : List UInt8) : KeepsFrom R (emit bytes) := .modify lasting _

theorem keeps_emitBytes (bytes : ByteArray) : KeepsFrom R (emitBytes bytes) := .modify lasting _

theorem keeps_shareId (a : Anchor) : KeepsFrom R (shareId a) := by
  refine .bind lasting (.get lasting) fun d => ?_
  split
  · exact .pure lasting _
  · exact .bind lasting (.set lasting _) fun _ => .pure lasting _

theorem keeps_once (a : Anchor) {first : Writer Unit} (inner : KeepsFrom R first) :
    KeepsFrom R (once a first) := by
  refine .bind lasting (.get lasting) fun d => .ite ?_ ?_
  · exact .bind lasting (keeps_shareId lasting a) fun _ => keeps_emit lasting _
  · exact .bind lasting (.modify lasting _) fun _ => inner

theorem keeps_writeText (s : String) : KeepsFrom R (writeText s) :=
  .bind lasting (keeps_emit lasting _) fun _ => keeps_emitBytes lasting _

theorem keeps_writeBinary (bytes : ByteArray) : KeepsFrom R (writeBinary bytes) :=
  .bind lasting (keeps_emit lasting _) fun _ => keeps_emitBytes lasting _

theorem keeps_writeStorage (code : UInt8) (bytes : ByteArray) :
    KeepsFrom R (writeStorage code bytes) :=
  .bind lasting (keeps_emit lasting _) fun _ => keeps_emitBytes lasting _

theorem keeps_writeBigint (d : Dialect) (n : Int) : KeepsFrom R (writeBigint d n) := by
  refine .ite (keeps_emit lasting _) (.ite (keeps_emit lasting _) ?_)
  cases d with
  | whole => exact keeps_emit lasting _
  | envelope => exact .throw lasting _

theorem keeps_writeShape (names : List String) : KeepsFrom R (writeShape names) := by
  refine .bind lasting (.get lasting) fun d => ?_
  split
  · exact keeps_emit lasting _
  · have shape : KeepsFrom R (do
        emit (listHeader names.length)
        names.forM writeText) :=
      .bind lasting (keeps_emit lasting _) fun _ => .forM lasting (keeps_writeText lasting) names
    have defined : KeepsFrom R (defineShape names) :=
      .bind lasting (.get lasting) fun _ => .bind lasting (.set lasting _) fun _ => .pure lasting _
    exact .bind lasting defined fun _ => .bind lasting (keeps_emit lasting _) fun _ =>
      keeps_once lasting _ shape

theorem keeps_writeScalar (d : Dialect) (v : Value) : KeepsFrom R (writeScalar d v) := by
  cases v with
  | null | undefined | bool | number => exact keeps_emit lasting _
  | string | brokenText => exact keeps_writeText lasting _
  | bigint n => exact keeps_writeBigint lasting d n
  | symbol => exact .throw lasting _
  | object => exact .pure lasting _

omit lasting in
theorem keeps_either (d : Dialect) {x y : Writer Unit} (whole : KeepsFrom R x)
    (envelope : KeepsFrom R y) : KeepsFrom R (match d with
      | .whole => x
      | .envelope => y) := by
  cases d with
  | whole => exact whole
  | envelope => exact envelope

variable {inner : Value → Writer Unit} (each : ∀ v, KeepsFrom R (inner v))

include each

theorem keeps_items (items : List Value) : KeepsFrom R (do
    emit (listHeader items.length)
    items.forM inner) :=
  .bind lasting (keeps_emit lasting _) fun _ => .forM lasting each items

theorem keeps_fields (d : Dialect) (entries : List (String × Value)) : KeepsFrom R (match d with
    | .whole => do
      writeShape (entries.map (·.1))
      entries.forM fun (_, w) => inner w
    | .envelope => do
      emit (fieldsHeader entries.length)
      entries.forM fun (name, w) => do
        writeText name
        inner w) :=
  keeps_either d
    (.bind lasting (keeps_writeShape lasting _) fun _ =>
      .forM lasting (fun (_, w) => each w) entries)
    (.bind lasting (keeps_emit lasting _) fun _ => .forM lasting (fun (name, w) =>
      .bind lasting (keeps_writeText lasting name) fun _ => each w) entries)

end Pieces

section Objects

variable (grows : ∀ g o, R g (g.add o))

include lasting grows

theorem keeps_summarise (v : Value) (parts : List (String × Source)) :
    Keeps R (summarise v parts) := by
  refine .bind lasting (.mapM lasting (fun (name, source) => ?_) parts) fun _ => .add grows _
  cases source with
  | field => exact .bind lasting (.property lasting fun _ => grows) fun _ => .pure lasting _
  | text => exact .pure lasting _

theorem keeps_listItems (v : Value) (o : Object) : Keeps R (listItems v o) := by
  rw [listItems.eq_def]
  split
  · exact .pure lasting _
  · exact .iterate lasting grows v

theorem keeps_write_object {d : Dialect} {fuel : Nat}
    (inner : ∀ v, KeepsFrom R (write d fuel v)) (ref : Ref) :
    KeepsFrom R (write d (fuel + 1) (.object ref)) := by
  have handed {made : Action Value} (h : Keeps R made) : KeepsFrom R (do
      write d fuel (← (monadLift made : Writer Value))) :=
    .bind lasting (.lift lasting h) inner
  have property (name : String) : KeepsFrom R
      (monadLift (Action.property (.object ref) name) : Writer Value) :=
    .lift lasting (.property lasting fun _ => grows)
  have tag (type : UInt8) :=
    keeps_either d (keeps_emit lasting (tagBytes type)) (.pure lasting ())
  have storage (code : UInt8) (bytes : ByteArray) :=
    keeps_either d (keeps_writeStorage lasting code bytes) (keeps_writeBinary lasting bytes)
  have items := keeps_items lasting inner
  rw [write]
  refine .bind lasting (.lift lasting (.objectOf? lasting _)) fun found => ?_
  cases found with
  | none => exact .pure lasting _
  | some o =>
    have fields := keeps_fields lasting inner d o.entries
    have shared {body : Writer Unit} (h : KeepsFrom R body) :=
      keeps_either d (keeps_once lasting (.object ref) h) h
    refine shared (.ite fields (.ite
      (.bind lasting (.lift lasting (keeps_listItems lasting grows _ o)) items) (.ite ?map (.ite
      ?table (.ite ?column (.ite ?date (.ite ?set (.ite ?error (.ite ?pattern (.ite ?buffer
      (.ite ?numbers (.ite ?view (.ite (keeps_emit lasting _) ?other)))))))))))))
    case map =>
      split
      · exact .bind lasting (keeps_emit lasting _) fun _ => .forM lasting (fun entry =>
          .bind lasting (inner _) fun _ => inner _) _
      · exact .throw lasting _
    case table =>
      exact .bind lasting (keeps_emit lasting _) fun _ =>
        handed (Table.keeps_writeTable lasting grows _)
    case column =>
      exact .bind lasting (keeps_emit lasting _) fun _ =>
        handed (Table.keeps_writeColumn lasting grows _)
    case date =>
      split
      · exact keeps_emit lasting _
      · exact .throw lasting _
    case set =>
      split
      · exact .bind lasting (tag _) fun _ => handed (.add grows _)
      · exact .throw lasting _
    case error =>
      exact .bind lasting (tag _) fun _ => .bind lasting (property _) fun _ =>
        .bind lasting (property _) fun _ => .bind lasting (property _) fun _ =>
          handed (.add grows _)
    case pattern =>
      exact .bind lasting (tag _) fun _ => .bind lasting (property _) fun _ =>
        .bind lasting (property _) fun _ => handed (.add grows _)
    case buffer =>
      split
      · exact storage _ _
      · exact .throw lasting _
    case numbers =>
      split
      · exact .ite (keeps_writeBinary lasting _) (storage _ _)
      · exact .throw lasting _
    case view =>
      split
      · exact storage _ _
      · exact .throw lasting _
    case other =>
      split
      · exact items _
      · exact keeps_emit lasting _
      · split
        · refine .bind lasting (.lift lasting (.objectOf? lasting _)) fun own => ?_
          split
          · exact inner _
          · exact .throw lasting _
          · exact .ite fields (.throw lasting _)
          · exact .ite (.throw lasting _) fields
          · exact .ite fields (.throw lasting _)
          · exact fields
          · exact fields
          · exact .throw lasting _
        · exact handed (keeps_summarise lasting grows _ _)
        · exact fields

theorem keeps_write (d : Dialect) (fuel : Nat) (v : Value) : KeepsFrom R (write d fuel v) := by
  induction fuel generalizing v with
  | zero =>
    rw [write]
    exact .throw lasting _
  | succ fuel inner =>
    cases v with
    | object ref => exact keeps_write_object lasting grows inner ref
    | _ =>
      rw [write.eq_def]
      exact keeps_writeScalar lasting d _

theorem keeps_encode (d : Dialect) (v : Value) : Keeps R (encode d v) :=
  .bind lasting (.get lasting) fun g =>
    .bind lasting (keeps_write lasting grows d (4 * g.size + 8) v {}) fun _ => .pure lasting _

end Objects

end MessagePack

namespace Json

variable {R : Graph → Graph → Prop}

mutual

theorem keeps_toValue (lasting : Lasting R) (grows : ∀ g o, R g (g.add o)) (j : Json) :
    Keeps R (toValue j) := by
  cases j with
  | null | bool | number | string | brokenText => exact .pure lasting _
  | array items => exact .bind lasting (keeps_toValues lasting grows items) fun _ => .add grows _
  | object members =>
    exact .bind lasting (keeps_toFields lasting grows members) fun _ => .add grows _

theorem keeps_toValues (lasting : Lasting R) (grows : ∀ g o, R g (g.add o)) (items : List Json) :
    Keeps R (toValues items) := by
  cases items with
  | nil => exact .pure lasting _
  | cons j rest =>
    exact .bind lasting (keeps_toValue lasting grows j) fun _ =>
      .bind lasting (keeps_toValues lasting grows rest) fun _ => .pure lasting _

theorem keeps_toFields (lasting : Lasting R) (grows : ∀ g o, R g (g.add o))
    (members : List (String × Json)) : Keeps R (toFields members) := by
  cases members with
  | nil => exact .pure lasting _
  | cons member rest =>
    exact .bind lasting (keeps_toValue lasting grows member.2) fun _ =>
      .bind lasting (keeps_toFields lasting grows rest) fun _ => .pure lasting _

end

variable (lasting : Lasting R) (grows : ∀ g o, R g (g.add o))

include lasting grows

theorem keeps_shown (v : Value) (o : Object) : Keeps R (shown v o) := by
  rw [shown]
  split
  · refine .bind lasting (.objectOf? lasting _) fun own => ?_
    split
    · exact .pure lasting _
    · exact .pure lasting _
  · split
    · exact .pure lasting _
    · split
      · split
        · exact .pure lasting _
        · exact .pure lasting _
        · exact .throw lasting _
      · split
        · split
          · exact .bind lasting (.add grows _) fun _ => .add grows _
          · exact .throw lasting _
        · split
          · exact MessagePack.keeps_summarise lasting grows v _
          · exact .pure lasting _

theorem keeps_ofValueWith (fuel : Nat) (within : List Ref) (v : Value) :
    Keeps R (ofValueWith fuel within v) := by
  induction fuel generalizing within v with
  | zero =>
    rw [ofValueWith]
    exact .throw lasting _
  | succ fuel inner =>
    have documents (within : List Ref) (items : List (Option Value)) : Keeps R (do
        let documents ← items.mapM fun item => do
          return (← ofValueWith fuel within (item.getD .undefined)).getD null
        return some (array documents)) :=
      .bind lasting (.mapM lasting (fun item =>
        .bind lasting (inner within _) fun _ => .pure lasting _) items) fun _ => .pure lasting _
    have members (within : List Ref) (entries : List (String × Value)) : Keeps R (do
        let members ← entries.filterMapM fun (name, w) => do
          return (← ofValueWith fuel within w).map (name, ·)
        return some (object members)) :=
      .bind lasting (.filterMapM lasting (fun (name, w) =>
        .bind lasting (inner within w) fun _ => .pure lasting _) entries) fun _ => .pure lasting _
    rw [ofValueWith.eq_def]
    dsimp only
    split
    on_goal 1 =>
      refine .bind lasting (.objectOf? lasting _) fun found => ?_
      split
    -- whatever is shown in place of the value, the rest is the same
    all_goals
      refine .bind lasting (by first | exact keeps_shown lasting grows _ _ | exact .pure lasting _)
        fun w => ?_
      split
      case h_8 => exact .throw lasting _
      case h_9 =>
        refine .bind lasting (.objectOf? lasting _) fun found => ?_
        split
        · split
          case h_2 => exact .throw lasting _
          case h_6 =>
            exact .ite (.bind lasting (.throw lasting _) fun _ => documents _ _) (documents _ _)
          case h_7 =>
            exact .ite (.bind lasting (.throw lasting _) fun _ => members _ _) (members _ _)
          all_goals exact .pure lasting _
        · exact .pure lasting _
      all_goals exact .pure lasting _

theorem keeps_encode (v : Value) : Keeps R (encode v) := by
  have document : Keeps R (ofValue v) :=
    .bind lasting (.get lasting) fun g => keeps_ofValueWith lasting grows _ [] v
  exact .bind lasting document fun _ => .pure lasting _

theorem keeps_decode (bytes : ByteArray) : Keeps R (decode bytes) := by
  rw [decode]
  split
  · exact keeps_toValue lasting grows _
  · exact .throw lasting _

end Json

namespace ByteCodec

/-- The codec leaves all objects as they are. -/
structure OnlyAdds (codec : ByteCodec) : Prop where
  encode : ∀ v, Keeps Graph.Extends (codec.encode v)
  decode : ∀ bytes, Keeps Graph.Extends (codec.decode bytes)

theorem onlyAdds_messagePack : messagePack.OnlyAdds :=
  ⟨MessagePack.keeps_encode Action.lasting_extends Graph.extends_add .whole,
    MessagePack.keeps_decode .whole⟩

theorem onlyAdds_json : json.OnlyAdds :=
  ⟨Json.keeps_encode Action.lasting_extends Graph.extends_add,
    Json.keeps_decode Action.lasting_extends Graph.extends_add⟩

end ByteCodec

end Marshal
