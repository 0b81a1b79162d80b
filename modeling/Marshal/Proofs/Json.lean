import Marshal.Json.Parser
import Marshal.Proofs.Describe
import Marshal.Proofs.Number.Digits

namespace Marshal

namespace Text

theorem charsOfUnits_eq {units : List UInt16} {cs : List Char}
    (whole : charsOfUnits? units = some cs) : charsOfUnits units = cs := by
  fun_induction charsOfUnits? units generalizing cs with
  | case1 =>
    cases whole
    rfl
  | case2 | case5 | case6 => cases whole
  | case3 u other =>
    rw [charsOfUnits, if_neg other]
    exact Option.some.inj whole
  | case4 u v rest high low ih =>
    obtain ⟨cs, inner, rfl⟩ := Option.map_eq_some_iff.1 whole
    rw [charsOfUnits, high, low, ih inner]
    rfl
  | case7 u v rest high low ih =>
    obtain ⟨cs, inner, rfl⟩ := Option.map_eq_some_iff.1 whole
    rw [charsOfUnits, ih inner]
    simp only [high, low, Bool.false_and, Bool.or_self, Bool.false_eq_true, if_false]

theorem exists_toDigits_cons (n : Nat) :
    ∃ d ds, Nat.toDigits 10 n = d :: ds ∧ d.isDigit = true := by
  obtain ⟨d, ds, split⟩ := List.exists_cons_of_ne_nil (Nat.toDigits_ne_nil (n := n) (b := 10))
  exact ⟨d, ds, split,
    Nat.isDigit_of_mem_toDigits (by decide) (by decide) (split ▸ List.mem_cons_self)⟩

theorem eq_zero_of_head_toDigits {n : Nat} (zero : (Nat.toDigits 10 n).head? = some '0') :
    n = 0 := by
  induction n using Nat.strong_induction_on with
  | _ n ih =>
    by_cases small : n < 10
    · have digit : ∀ n < 10, n.digitChar = '0' → n = 0 := by decide
      rw [Nat.toDigits_of_lt_base small] at zero
      exact digit n small (Option.some.inj zero)
    · rw [Nat.toDigits_of_base_le (by decide) (Nat.le_of_not_lt small),
        List.head?_append_of_ne_nil _ Nat.toDigits_ne_nil] at zero
      have := ih (n / 10) (by omega) zero
      omega

end Text

namespace Number

theorem ofDecimal_of_safeInt? {x : Number} {n : Int} (safe : x.safeInt? = some n) :
    ofDecimal (n < 0) n.natAbs 0 = x := by
  obtain ⟨whole, small, signed⟩ := safeInt?_eq_some_iff.1 safe
  by_cases zero : n = 0
  · subst zero
    have positive : x.isNegative = false := by simpa using signed
    have field := field_of_toInt?_zero whole
    have back := ofField_field (x := x) (by omega)
    rw [field, positive] at back
    exact back
  · have positive : n.natAbs ≠ 0 := Int.natAbs_ne_zero.2 zero
    have few : (digitsOf n.natAbs).length ≤ 16 :=
      (Nat.length_toDigits_le_iff (by decide) (by decide)).2 (small.trans (by decide))
    have size : 0 ≤ Int.ofNat (digitsOf n.natAbs).length + 0 ∧
        Int.ofNat (digitsOf n.natAbs).length + 0 ≤ 16 := by
      rw [Int.add_zero, Int.ofNat_eq_natCast]
      omega
    rw [← ofInt_of_toInt? whole zero small, ofDecimal, if_neg positive]
    dsimp only
    rw [if_neg (by omega), if_neg (by omega), ofInt]
    by_cases negative : n < 0 <;> simp [negative]

end Number

namespace Json

/-- A document that a parser gives back as it was: its numbers are safe whole numbers, and no
surrogate stands alone in its texts. -/
inductive Exact : Json → Prop
  | null : Exact null
  | bool (b : Bool) : Exact (bool b)
  | number {x : Number} {n : Int} (safe : x.safeInt? = some n) : Exact (number x)
  | string (s : String) : Exact (string s)
  | array {items : List Json} (all : ∀ j ∈ items, Exact j) : Exact (array items)
  | object {members : List (String × Json)} (all : ∀ m ∈ members, Exact m.2) :
    Exact (object members)

section Texts

theorem digitValue?_hexDigit {d : Nat} (small : d < 16) :
    Text.digitValue? 16 (hexDigit d) = some d := by
  have all : ∀ d < 16, Text.digitValue? 16 (hexDigit d) = some d := by decide
  exact all d small

theorem hexUnit?_hexDigits {n : Nat} (small : n < 0x10000) (tail : List Char) :
    hexUnit? (hexDigits n ++ tail) = some (UInt16.ofNat n, tail) := by
  have digit (d : Nat) := digitValue?_hexDigit (Nat.mod_lt d (by decide : 0 < 16))
  have number : Text.natInBase? 16 (hexDigits n) = some n := by
    simp only [Text.natInBase?, hexDigits, List.foldlM_cons, List.foldlM_nil, digit,
      Option.map_some, Option.bind_eq_bind, Option.bind_some, Option.pure_def, Option.some.injEq]
    omega
  change (Text.natInBase? 16 (hexDigits n)).map _ = _
  rw [number]
  rfl

theorem units?_escapeChar (c : Char) (fuel : Nat) (tail : List Char) :
    units? (fuel + 1) (escapeChar c ++ tail) =
      (units? fuel tail).map fun (us, rest) => (Text.unitsOfChar c ++ us, rest) := by
  have small {n : Nat} (code : c.toNat = n) (low : n < 0x10000) :
      Text.unitsOfChar c = [UInt16.ofNat n] := by
    rw [Text.unitsOfChar, code, if_pos low]
  unfold escapeChar
  split_ifs with quote slash newline feed tab back page control
  · subst quote
    rfl
  · subst slash
    rfl
  · subst newline
    rfl
  · subst feed
    rfl
  · subst tab
    rfl
  · rw [small back (by decide)]
    rfl
  · rw [small page (by decide)]
    rfl
  · rw [small rfl (by omega)]
    change (hexUnit? (hexDigits c.toNat ++ tail) >>= _) = _
    rw [hexUnit?_hexDigits (by omega), Option.bind_eq_bind, Option.bind_some]
    dsimp only
    cases units? fuel tail <;> rfl
  · rw [List.singleton_append, units?, if_neg quote, if_neg control, if_neg slash]

theorem units?_flatMap_escapeChar (cs : List Char) {fuel : Nat}
    (room : (cs.flatMap escapeChar).length < fuel) (rest : List Char) :
    units? fuel (cs.flatMap escapeChar ++ '"' :: rest) =
      some (cs.flatMap Text.unitsOfChar, rest) := by
  obtain ⟨fuel, rfl⟩ : ∃ more, fuel = more + 1 := Nat.exists_eq_add_of_le' (Nat.zero_lt_of_lt room)
  induction cs generalizing fuel with
  | nil => rfl
  | cons c cs ih =>
    have long : 0 < (escapeChar c).length := by
      unfold escapeChar
      split_ifs <;> exact Nat.succ_pos _
    rw [List.flatMap_cons, List.length_append] at room
    obtain ⟨fuel, rfl⟩ : ∃ more, fuel = more + 1 := Nat.exists_eq_add_of_le' (by omega)
    rw [List.flatMap_cons, List.append_assoc, units?_escapeChar, ih fuel (by omega)]
    rfl

end Texts

section Numbers

/-- What can come after a document: its end or what follows an item. -/
def Ends (rest : List Char) : Prop := ∀ c ∈ rest.head?, c = ',' ∨ c = ']' ∨ c = '}'

theorem ends_nil : Ends [] := nofun

theorem ends_cons {c : Char} (closes : c = ',' ∨ c = ']' ∨ c = '}') (rest : List Char) :
    Ends (c :: rest) := by
  rintro _ ⟨⟩
  exact closes

variable {rest : List Char}

theorem Ends.fraction? (ends : Ends rest) : fraction? rest = some ([], rest) := by
  cases rest with
  | nil => rfl
  | cons c rest => rcases ends c rfl with rfl | rfl | rfl <;> rfl

theorem Ends.exponent? (ends : Ends rest) : exponent? rest = some (0, rest) := by
  cases rest with
  | nil => rfl
  | cons c rest => rcases ends c rfl with rfl | rfl | rfl <;> rfl

theorem Ends.isDigit_head (ends : Ends rest) : ∀ c ∈ rest.head?, c.isDigit = false := by
  intro c first
  rcases ends c first with rfl | rfl | rfl <;> rfl

theorem magnitude?_toDigits (negative : Bool) (n : Nat) (ends : Ends rest) :
    magnitude? negative (Nat.toDigits 10 n ++ rest) =
      some (number (Number.ofDecimal negative n 0), rest) := by
  have digits : ∀ c ∈ Nat.toDigits 10 n, c.isDigit = true :=
    fun c mem => Nat.isDigit_of_mem_toDigits (by decide) (by decide) mem
  obtain ⟨taken, dropped⟩ := Text.span_isDigit digits ends.isDigit_head
  have lead : ¬ ((Nat.toDigits 10 n).length > 1 ∧ (Nat.toDigits 10 n).head? = some '0') := by
    rintro ⟨long, zero⟩
    obtain rfl := Text.eq_zero_of_head_toDigits zero
    exact absurd long (by decide)
  rw [magnitude?, decimalDigits, taken, dropped]
  dsimp only
  rw [List.isEmpty_eq_false_iff.2 Nat.toDigits_ne_nil, if_neg Bool.false_ne_true, if_neg lead,
    ends.fraction?, Option.bind_eq_bind, Option.bind_some]
  dsimp only
  rw [ends.exponent?, Option.bind_eq_bind, Option.bind_some]
  dsimp only
  rw [List.append_nil, Text.natOfDigits_toDigits]
  rfl

theorem toList_toString (n : Int) :
    (toString n).toList = (if n < 0 then ['-'] else []) ++ Nat.toDigits 10 n.natAbs := by
  cases n with
  | ofNat n =>
    rw [if_neg (by simp)]
    exact Nat.toList_repr
  | negSucc n =>
    rw [if_pos (Int.negSucc_lt_zero n)]
    change ("-" ++ Nat.repr (n + 1)).toList = _
    rw [String.toList_append, Nat.toList_repr]
    rfl

end Numbers

section Documents

/-- The document is read from the start of a text. Every call of the parser takes a character at
least, so the length of the document bounds them. -/
def Reads (j : Json) : Prop :=
  ∀ ⦃fuel : Nat⦄ ⦃rest : List Char⦄, (print j).length ≤ fuel → Ends rest →
    value? fuel (print j ++ rest) = some (j, rest)

theorem reads_of_succ {j : Json} (positive : 0 < (print j).length)
    (step : ∀ fuel rest, (print j).length ≤ fuel + 1 → Ends rest →
      value? (fuel + 1) (print j ++ rest) = some (j, rest)) : Reads j := by
  intro fuel rest room ends
  obtain ⟨fuel, rfl⟩ : ∃ more, fuel = more + 1 :=
    Nat.exists_eq_add_of_le' (positive.trans_le room)
  exact step fuel rest room ends

theorem skipBlank_cons {c : Char} (visible : isBlank c = false) (rest : List Char) :
    skipBlank (c :: rest) = c :: rest :=
  List.dropWhile_cons_of_neg (by rw [visible]; exact Bool.false_ne_true)

theorem ne_of_isDigit {c d : Char} (digit : c.isDigit = true) (other : d.isDigit = false) :
    c ≠ d := by
  rintro rfl
  cases digit.symm.trans other

theorem isBlank_eq_false_of_isDigit {c : Char} (digit : c.isDigit = true) :
    isBlank c = false := by
  have apart {d : Char} (other : d.isDigit = false) : c ≠ d := ne_of_isDigit digit other
  rw [isBlank, decide_eq_false (apart rfl), decide_eq_false (apart rfl),
    decide_eq_false (apart rfl), decide_eq_false (apart rfl)]
  rfl

theorem value?_digit {c : Char} (digit : c.isDigit = true) (fuel : Nat) (rest : List Char) :
    value? (fuel + 1) (c :: rest) = magnitude? false (c :: rest) := by
  have apart {d : Char} (other : d.isDigit = false) : c ≠ d := ne_of_isDigit digit other
  rw [value?, skipBlank_cons (isBlank_eq_false_of_isDigit digit)]
  dsimp only
  rw [if_neg (apart rfl), if_neg (apart rfl), if_neg (apart rfl), if_neg (apart rfl), if_pos digit]

theorem print_number {x : Number} {n : Int} (safe : x.safeInt? = some n) :
    print (number x) = (if n < 0 then ['-'] else []) ++ Nat.toDigits 10 n.natAbs := by
  have finite := Number.isFinite_of_toInt? (Number.safeInt?_eq_some_iff.1 safe).1
  rw [print, printNumber, finite, if_pos rfl, Number.text_of_safeInt? safe, toList_toString]

theorem reads_number {x : Number} {n : Int} (safe : x.safeInt? = some n) : Reads (number x) := by
  have back := Number.ofDecimal_of_safeInt? safe
  have spelled := print_number safe
  obtain ⟨d, ds, split, digit⟩ := Text.exists_toDigits_cons n.natAbs
  refine reads_of_succ ?_ fun fuel rest _ ends => ?_
  · rw [spelled, split, List.length_append]
    exact Nat.lt_add_left _ (Nat.succ_pos _)
  · rw [spelled]
    by_cases negative : n < 0
    · rw [if_pos negative]
      change magnitude? true (Nat.toDigits 10 n.natAbs ++ rest) = _
      rw [magnitude?_toDigits true _ ends, ← back, decide_eq_true negative]
    · rw [if_neg negative, List.nil_append, split, List.cons_append, value?_digit digit,
        ← List.cons_append, ← split, magnitude?_toDigits false _ ends, ← back,
        decide_eq_false negative]

theorem units?_quoted (name : String) (rest : List Char) :
    units? ((name.toList.flatMap escapeChar ++ ['"'] ++ rest).length + 1)
        (name.toList.flatMap escapeChar ++ ['"'] ++ rest) = some (Text.units name, rest) := by
  rw [List.append_assoc, List.singleton_append]
  refine units?_flatMap_escapeChar name.toList ?_ rest
  rw [List.length_append]
  omega

theorem reads_string (s : String) : Reads (string s) := by
  refine reads_of_succ (Nat.succ_pos _) fun fuel rest _ _ => ?_
  change (units? ((s.toList.flatMap escapeChar ++ ['"'] ++ rest).length + 1)
    (s.toList.flatMap escapeChar ++ ['"'] ++ rest)).map _ = _
  rw [units?_quoted]
  change some (ofUnits (Text.units s), rest) = _
  rw [ofUnits, Text.charsOfUnits?_units]
  dsimp only
  rw [String.ofList_toList]

variable {items : List Json} {members : List (String × Json)} {rest : List Char}

theorem printItems_cons_cons (j k : Json) (others : List Json) :
    printItems (j :: k :: others) = print j ++ ',' :: printItems (k :: others) := rfl

theorem printMembers_cons_cons (name : String) (j : Json) (member : String × Json)
    (others : List (String × Json)) :
    printMembers ((name, j) :: member :: others) =
      quote name.toList ++ ':' :: print j ++ ',' :: printMembers (member :: others) := rfl

theorem items?_printItems (all : ∀ j ∈ items, Reads j) (nonempty : items ≠ []) {fuel : Nat}
    (room : (printItems items).length < fuel) (rest : List Char) :
    items? fuel (printItems items ++ ']' :: rest) = some (items, rest) := by
  obtain ⟨fuel, rfl⟩ : ∃ more, fuel = more + 1 := Nat.exists_eq_add_of_le' (Nat.zero_lt_of_lt room)
  induction items generalizing fuel with
  | nil => exact absurd rfl nonempty
  | cons j others ih =>
    obtain ⟨first, all⟩ := List.forall_mem_cons.1 all
    cases others with
    | nil =>
      rw [printItems] at room ⊢
      rw [items?, first (Nat.le_of_lt_succ room) (ends_cons (.inr (.inl rfl)) rest)]
      rfl
    | cons k others =>
      rw [printItems_cons_cons, List.length_append, List.length_cons] at room
      obtain ⟨fuel, rfl⟩ : ∃ more, fuel = more + 1 := Nat.exists_eq_add_of_le' (by omega)
      rw [printItems_cons_cons, List.append_assoc, List.cons_append, items?,
        first (by omega) (ends_cons (.inl rfl) _)]
      change (items? (fuel + 1) (printItems (k :: others) ++ ']' :: rest) >>= _) = _
      rw [ih all (List.cons_ne_nil _ _) fuel (by omega)]
      rfl

theorem members?_quote {name : String} {j : Json} {fuel : Nat} {tail next : List Char}
    (read : value? fuel tail = some (j, next)) :
    members? (fuel + 1) (quote name.toList ++ ':' :: tail) =
      match skipBlank next with
      | ',' :: rest => do
        let (members, rest) ← members? fuel rest
        return ((name, j) :: members, rest)
      | '}' :: rest => some ([(name, j)], rest)
      | _ => none := by
  change (units? ((name.toList.flatMap escapeChar ++ ['"'] ++ ':' :: tail).length + 1)
    (name.toList.flatMap escapeChar ++ ['"'] ++ ':' :: tail) >>= _) = _
  rw [units?_quoted, Option.bind_eq_bind, Option.bind_some]
  dsimp only
  change (value? fuel tail >>= _) = _
  rw [read, Option.bind_eq_bind, Option.bind_some]
  dsimp only
  rw [Text.charsOfUnits_eq (Text.charsOfUnits?_units name), String.ofList_toList]
  rfl

theorem members?_printMembers (all : ∀ m ∈ members, Reads m.2) (nonempty : members ≠ [])
    {fuel : Nat} (room : (printMembers members).length < fuel) (rest : List Char) :
    members? fuel (printMembers members ++ '}' :: rest) = some (members, rest) := by
  obtain ⟨fuel, rfl⟩ : ∃ more, fuel = more + 1 := Nat.exists_eq_add_of_le' (Nat.zero_lt_of_lt room)
  induction members generalizing fuel with
  | nil => exact absurd rfl nonempty
  | cons member others ih =>
    obtain ⟨name, j⟩ := member
    obtain ⟨first, all⟩ := List.forall_mem_cons.1 all
    replace first : Reads j := first
    cases others with
    | nil =>
      rw [printMembers, List.length_append, List.length_cons] at room
      rw [printMembers, List.append_assoc, List.cons_append,
        members?_quote (first (by omega) (ends_cons (.inr (.inr rfl)) rest))]
      rfl
    | cons member others =>
      rw [printMembers_cons_cons, List.append_assoc, List.length_append, List.cons_append,
        List.length_cons, List.length_append, List.length_cons] at room
      obtain ⟨fuel, rfl⟩ : ∃ more, fuel = more + 1 := Nat.exists_eq_add_of_le' (by omega)
      rw [printMembers_cons_cons, List.append_assoc, List.append_assoc, List.cons_append,
        List.cons_append, members?_quote (first (by omega) (ends_cons (.inl rfl) _))]
      change (members? (fuel + 1) (printMembers (member :: others) ++ '}' :: rest) >>= _) = _
      rw [ih all (List.cons_ne_nil _ _) fuel (by omega)]
      rfl

theorem Exact.exists_print_cons {j : Json} (exact : j.Exact) :
    ∃ c rest, print j = c :: rest ∧ isBlank c = false ∧ c ≠ ']' := by
  cases exact with
  | @number x n safe =>
    rw [print_number safe]
    split
    · exact ⟨_, _, rfl, by decide, by decide⟩
    · obtain ⟨d, ds, split, digit⟩ := Text.exists_toDigits_cons n.natAbs
      exact ⟨d, ds, split, isBlank_eq_false_of_isDigit digit, ne_of_isDigit digit rfl⟩
  | bool b => cases b <;> exact ⟨_, _, rfl, by decide, by decide⟩
  | _ => exact ⟨_, _, rfl, by decide, by decide⟩

theorem reads_array (exact : ∀ j ∈ items, j.Exact) (all : ∀ j ∈ items, Reads j) :
    Reads (array items) := by
  refine reads_of_succ (Nat.succ_pos _) fun fuel rest room _ => ?_
  cases items with
  | nil => rfl
  | cons j others =>
    rw [print, List.length_append, List.length_cons] at room
    have read := items?_printItems all (List.cons_ne_nil _ _) (Nat.le_of_succ_le_succ room) rest
    -- the first item tells the list from an empty one
    obtain ⟨c, tail, first, visible, other⟩ : ∃ c tail,
        printItems (j :: others) ++ ']' :: rest = c :: tail ∧ isBlank c = false ∧ c ≠ ']' := by
      obtain ⟨c, tail, first, visible, other⟩ := (exact j List.mem_cons_self).exists_print_cons
      cases others with
      | nil => exact ⟨c, _, by rw [printItems, first]; rfl, visible, other⟩
      | cons => exact ⟨c, _, by rw [printItems_cons_cons, first]; rfl, visible, other⟩
    rw [print, List.cons_append, List.cons_append, List.append_assoc, List.singleton_append, first]
    rw [first] at read
    rw [value?, skipBlank_cons (by decide)]
    dsimp only
    rw [if_neg (by decide), if_pos rfl, skipBlank_cons visible]
    split
    · next same => cases same; exact absurd rfl other
    · rw [read]
      rfl

theorem reads_object (all : ∀ m ∈ members, Reads m.2) : Reads (object members) := by
  refine reads_of_succ (Nat.succ_pos _) fun fuel rest room _ => ?_
  cases members with
  | nil => rfl
  | cons member others =>
    rw [print, List.length_append, List.length_cons] at room
    have read := members?_printMembers all (List.cons_ne_nil _ _) (Nat.le_of_succ_le_succ room) rest
    obtain ⟨tail, first⟩ : ∃ tail,
        printMembers (member :: others) ++ '}' :: rest = '"' :: tail := by
      cases others <;> exact ⟨_, rfl⟩
    rw [print, List.cons_append, List.cons_append, List.append_assoc, List.singleton_append, first]
    rw [first] at read
    change (members? fuel ('"' :: tail)).map _ = _
    rw [read]
    rfl

theorem Exact.reads {j : Json} (exact : j.Exact) : Reads j := by
  induction exact with
  | null => exact reads_of_succ (Nat.succ_pos _) fun _ _ _ _ => rfl
  | bool b => cases b <;> exact reads_of_succ (Nat.succ_pos _) fun _ _ _ _ => rfl
  | number safe => exact reads_number safe
  | string s => exact reads_string s
  | array exact all => exact reads_array exact all
  | object _ all => exact reads_object all

theorem Exact.parse?_print {j : Json} (exact : j.Exact) : parse? (print j) = some j := by
  have room : (print j).length ≤ 2 * (print j).length + 2 := by omega
  have read := exact.reads room ends_nil
  rw [List.append_nil] at read
  rw [parse?, read]
  rfl

end Documents

section Visible

def Visible (cs : List Char) : Prop := ∀ c ∈ cs, 0x20 ≤ c.toNat

variable {cs ds : List Char} {c : Char}

theorem Visible.cons (code : 0x20 ≤ c.toNat) (h : Visible cs) : Visible (c :: cs) :=
  List.forall_mem_cons.2 ⟨code, h⟩

theorem Visible.append (h : Visible cs) (h' : Visible ds) : Visible (cs ++ ds) :=
  List.forall_mem_append.2 ⟨h, h'⟩

theorem visible_of_all (all : cs.all (fun c => 0x20 ≤ c.toNat) = true) : Visible cs :=
  fun c mem => of_decide_eq_true (List.all_eq_true.1 all c mem)

theorem Visible.newline_notMem (h : Visible cs) : '\n' ∉ cs :=
  fun mem => absurd (h _ mem) (by decide)

theorem visible_hexDigits (n : Nat) : Visible (hexDigits n) := by
  have all : ∀ d < 16, 0x20 ≤ (hexDigit d).toNat := by decide
  have digit (d : Nat) := all (d % 16) (Nat.mod_lt d (by decide))
  exact .cons (digit _) <| .cons (digit _) <| .cons (digit _) <| .cons (digit _) nofun

theorem visible_escapeChar (c : Char) : Visible (escapeChar c) := by
  unfold escapeChar
  split_ifs with quote slash newline feed tab back page control
  iterate 7 exact .cons (by decide) <| .cons (by decide) nofun
  · exact .cons (by decide) <| .cons (by decide) <| visible_hexDigits _
  · exact .cons (Nat.le_of_not_lt control) nofun

theorem visible_quote (cs : List Char) : Visible (quote cs) := by
  refine .append (.cons (by decide) ?_) (.cons (by decide) nofun)
  intro d mem
  obtain ⟨c, -, mem⟩ := List.mem_flatMap.1 mem
  exact visible_escapeChar c d mem

theorem visible_printItems {items : List Json} (all : ∀ j ∈ items, Visible (print j)) :
    Visible (printItems items) := by
  induction items with
  | nil => exact nofun
  | cons j others ih =>
    obtain ⟨first, all⟩ := List.forall_mem_cons.1 all
    cases others with
    | nil => exact first
    | cons => exact .append first (.cons (by decide) (ih all))

theorem visible_printMembers {members : List (String × Json)}
    (all : ∀ m ∈ members, Visible (print m.2)) : Visible (printMembers members) := by
  induction members with
  | nil => exact nofun
  | cons member others ih =>
    obtain ⟨first, all⟩ := List.forall_mem_cons.1 all
    have own : Visible (quote member.1.toList ++ ':' :: print member.2) :=
      .append (visible_quote _) (.cons (by decide) first)
    cases others with
    | nil => exact own
    | cons => exact .append own (.cons (by decide) (ih all))

theorem visible_number {x : Number} {n : Int} (safe : x.safeInt? = some n) :
    Visible (print (number x)) := by
  have digits : ∀ c : Char, c.isDigit = true → 0x20 ≤ c.toNat := by
    intro c digit
    have : 48 ≤ c.toNat := by simpa using (Char.isDigit_iff_toNat.1 digit).1
    omega
  rw [print_number safe]
  refine .append ?_ fun c mem => digits c (Nat.isDigit_of_mem_toDigits (by decide) (by decide) mem)
  split
  · exact .cons (by decide) nofun
  · exact nofun

theorem Exact.visible_print {j : Json} (exact : j.Exact) : Visible (print j) := by
  induction exact with
  | null => exact visible_of_all rfl
  | bool b => cases b <;> exact visible_of_all rfl
  | number safe => exact visible_number safe
  | string s => exact visible_quote _
  | array _ all =>
    exact .append (.cons (by decide) (visible_printItems all)) (.cons (by decide) nofun)
  | object _ all =>
    exact .append (.cons (by decide) (visible_printMembers all)) (.cons (by decide) nofun)

end Visible

end Json

end Marshal
