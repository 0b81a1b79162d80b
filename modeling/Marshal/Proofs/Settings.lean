import Marshal.Proofs.Describe
import Marshal.Proofs.Number.Large
import Marshal.Settings

namespace Marshal

namespace Number

theorem isNegative_ofRatio (negative : Bool) (num den : Nat) :
    (ofRatio negative num den).isNegative = negative := by
  unfold ofRatio
  split
  · exact isNegative_ofField _ _
  · exact isNegative_ofField _ _

theorem not_pos_of_isNegative {x : Number} {n : Int} (negative : x.isNegative = true)
    (whole : x.toInt? = some n) : ¬ 0 < n := by
  unfold toInt? at whole
  split at whole
  next =>
    dsimp only at whole
    split at whole
    next =>
      rw [← Option.some.inj whole, signed, if_pos negative]
      exact not_lt.2 (Int.neg_nonpos_of_nonneg (Int.natCast_nonneg _))
    next => cases whole
  next => cases whole

end Number

namespace Settings

open Marshal.Text (isBlank natOfDigits spanSign span_isDigit trimLeft)

theorem isPositiveWhole_ofNat (n : Nat) :
    isPositiveWhole (Number.ofNat n) = true ↔ 0 < n ∧ n < Number.overflow := by
  rw [← Number.isFinite_ofNat_iff, isPositiveWhole]
  constructor
  · intro positive
    split at positive
    next m whole =>
      have finite := Number.isFinite_of_toInt? whole
      refine ⟨Nat.pos_of_ne_zero ?_, finite⟩
      rintro rfl
      rw [Number.toInt?_ofNat (by decide)] at whole
      cases whole
      cases positive
    next => cases positive
  · rintro ⟨positive, finite⟩
    obtain ⟨m, above, whole⟩ := Number.exists_toInt?_ofNat positive finite
    rw [whole]
    exact decide_eq_true (by omega)

/-- A text starts with a whole number: blanks, a plus sign if there is one, and digits, of which the
rest has none at its start. -/
inductive Leads : List Char → Nat → List Char → Prop where
  | mk {blanks sign digits rest : List Char} (blank : ∀ c ∈ blanks, isBlank c = true)
    (plus : sign = [] ∨ sign = ['+']) (some : digits ≠ [])
    (decimal : ∀ c ∈ digits, c.isDigit = true) (ends : ∀ c ∈ rest.head?, c.isDigit = false) :
    Leads (blanks ++ (sign ++ (digits ++ rest))) (natOfDigits digits) rest

/-- The text is a whole number in digits, but for blanks around it and a plus sign. -/
def Numeral (s : String) (n : Nat) : Prop :=
  ∃ rest, Leads s.toList n rest ∧ ∀ c ∈ rest, isBlank c = true

variable {s : String} {cs rest : List Char} {n : Nat} {x : Number}

theorem trimLeft_append {blanks : List Char} (blank : ∀ c ∈ blanks, isBlank c = true)
    (starts : ∀ c ∈ cs.head?, isBlank c = false) : trimLeft (blanks ++ cs) = cs := by
  rw [trimLeft, List.dropWhile_append_of_pos blank]
  cases cs with
  | nil => rfl
  | cons c rest => exact List.dropWhile_cons_of_neg (by rw [starts c rfl]; exact Bool.false_ne_true)

theorem spanSign_of_isDigit {c : Char} (digit : c.isDigit = true) (cs : List Char) :
    spanSign (c :: cs) = (false, c :: cs) := by
  rw [spanSign]
  · intro _ same
    cases same
    cases digit
  · intro _ same
    cases same
    cases digit

theorem Leads.spans (h : Leads cs n rest) :
    ∃ digits, spanSign (trimLeft cs) = (false, digits ++ rest) ∧ digits ≠ [] ∧
      natOfDigits digits = n ∧ (digits ++ rest).takeWhile Char.isDigit = digits ∧
      (digits ++ rest).dropWhile Char.isDigit = rest := by
  cases h with
  | @mk blanks sign digits _ blank plus some decimal ends =>
    obtain ⟨taken, dropped⟩ := span_isDigit decimal ends
    refine ⟨digits, ?_, some, rfl, taken, dropped⟩
    obtain ⟨d, ds, rfl⟩ := List.exists_cons_of_ne_nil some
    have digit := decimal d List.mem_cons_self
    have starts : ∀ c ∈ (sign ++ (d :: ds ++ rest)).head?, isBlank c = false := by
      rcases plus with rfl | rfl
      · rintro c ⟨⟩
        exact Text.isBlank_eq_false_of_isDigit digit
      · rintro c ⟨⟩
        decide
    rw [trimLeft_append blank starts]
    rcases plus with rfl | rfl
    · exact spanSign_of_isDigit digit _
    · rfl

theorem Leads.rest_eq (h : Leads cs n rest) :
    rest = (spanSign (trimLeft cs)).2.dropWhile Char.isDigit := by
  obtain ⟨digits, spans, -, -, -, dropped⟩ := h.spans
  rw [spans, dropped]

theorem Leads.leadingNumber?_eq (h : Leads s.toList n rest) :
    leadingNumber? s = some (Number.ofNat n) := by
  obtain ⟨digits, spans, some, rfl, taken, -⟩ := h.spans
  rw [leadingNumber?, spans]
  dsimp only
  rw [taken, List.isEmpty_eq_false_iff.2 some, if_neg Bool.false_ne_true]
  rfl

theorem spanSign_cases (cs : List Char) :
    (spanSign cs).1 = true ∨ ∃ sign rest, (sign = [] ∨ sign = ['+']) ∧ cs = sign ++ rest ∧
      spanSign cs = (false, rest) := by
  unfold spanSign
  split
  · exact .inl rfl
  · exact .inr ⟨['+'], _, .inr rfl, rfl, rfl⟩
  · exact .inr ⟨[], _, .inl rfl, rfl, rfl⟩

theorem leads_of_leadingNumber? (read : leadingNumber? s = some x)
    (positive : x.isNegative = false) : ∃ n rest, Leads s.toList n rest ∧ x = Number.ofNat n := by
  have blanks : s.toList = s.toList.takeWhile isBlank ++ trimLeft s.toList :=
    List.takeWhile_append_dropWhile.symm
  rw [leadingNumber?] at read
  rcases spanSign_cases (trimLeft s.toList) with minus | ⟨sign, body, plus, split, spans⟩
  · dsimp only at read
    split at read
    next => cases read
    next =>
      rw [← Option.some.inj read, Number.isNegative_ofRatio, minus] at positive
      cases positive
  · rw [spans] at read
    dsimp only at read
    split at read
    next => cases read
    next some =>
      rw [split, ← List.takeWhile_append_dropWhile (p := Char.isDigit) (l := body)] at blanks
      refine ⟨_, body.dropWhile Char.isDigit, ?_, (Option.some.inj read).symm⟩
      rw [blanks]
      refine .mk (fun c mem => List.all_eq_true.1 List.all_takeWhile c mem) plus
        (fun none => some (List.isEmpty_iff.2 none))
        (fun c mem => List.all_eq_true.1 List.all_takeWhile c mem) fun c first => ?_
      have stops := List.head?_dropWhile_not Char.isDigit body
      rw [first] at stops
      simpa using stops

section Depth

variable {env : Environment} {given : String}

theorem depthOf_of_leads (set : env.get? "TYPEREG_MAX_DEPTH" = some given)
    (leads : Leads given.toList n rest) (positive : 0 < n) (finite : n < Number.overflow) :
    depthOf env = .ok (Number.ofNat n) := by
  rw [depthOf, set]
  dsimp only
  rw [leads.leadingNumber?_eq, Option.filter_some,
    (isPositiveWhole_ofNat n).2 ⟨positive, finite⟩]
  rfl

theorem depthOf_of_not_leads (set : env.get? "TYPEREG_MAX_DEPTH" = some given)
    (none : ∀ n rest, Leads given.toList n rest → n = 0 ∨ Number.overflow ≤ n) :
    depthOf env = .error (badDepth given) := by
  have refused : (leadingNumber? given).filter isPositiveWhole = Option.none := by
    rw [Option.filter_eq_none_iff]
    intro x read whole
    have positive : x.isNegative = false := by
      rw [isPositiveWhole] at whole
      split at whole
      next m whole' =>
        exact Bool.eq_false_iff.2 fun negative =>
          Number.not_pos_of_isNegative negative whole' (of_decide_eq_true whole)
      next => cases whole
    obtain ⟨n, rest, leads, rfl⟩ := leads_of_leadingNumber? read positive
    obtain ⟨above, below⟩ := (isPositiveWhole_ofNat n).1 whole
    rcases none n rest leads with rfl | beyond
    · exact Nat.lt_irrefl 0 above
    · exact Nat.not_lt.2 beyond below
  rw [depthOf, set]
  dsimp only
  rw [refused]
  rfl

theorem map_maxDepth_ofEnvironment (env : Environment) :
    (ofEnvironment env).map maxDepth = depthOf env >>= fun depth =>
      (policyOf env).map fun _ => depth := by
  rw [ofEnvironment]
  cases depthOf env with
  | error => rfl
  | ok depth => cases policyOf env <;> rfl

/-- The limit on depth that an environment gives is the number that its text starts with, whatever
comes after it, as long as that is positive and not too great for a number: exactly that one if the
text is its numeral and it is below `2 ^ 53`, otherwise the nearest there is. All other texts are
refused. -/
theorem depth_of_environment (set : env.get? "TYPEREG_MAX_DEPTH" = some given) :
    (∀ n, Numeral given n → 0 < n → n < 2 ^ 53 → ∃ depth : Number, depth.toInt? = some (n : Int) ∧
        (ofEnvironment env).map maxDepth = (policyOf env).map fun _ => depth) ∧
      (∀ n rest, Leads given.toList n rest → 0 < n → n < Number.overflow →
        (ofEnvironment env).map maxDepth = (policyOf env).map fun _ => Number.ofNat n) ∧
      ((∀ n rest, Leads given.toList n rest → n = 0 ∨ Number.overflow ≤ n) →
        ofEnvironment env = .error (badDepth given)) := by
  have taken : ∀ n rest, Leads given.toList n rest → 0 < n → n < Number.overflow →
      (ofEnvironment env).map maxDepth = (policyOf env).map fun _ => Number.ofNat n := by
    intro n rest leads positive finite
    rw [map_maxDepth_ofEnvironment, depthOf_of_leads set leads positive finite]
    rfl
  refine ⟨fun n ⟨rest, leads, _⟩ positive small => ?_, taken, fun none => ?_⟩
  · have bound : 2 ^ 53 ≤ Number.overflow := by decide +kernel
    exact ⟨_, Number.toInt?_ofNat small, taken n rest leads positive (small.trans_le bound)⟩
  · rw [ofEnvironment, depthOf_of_not_leads set none]
    rfl

end Depth

namespace Sample

theorem numeral_twelve : Numeral " +12\n" 12 :=
  ⟨['\n'], show Leads ([' '] ++ (['+'] ++ (['1', '2'] ++ ['\n']))) (natOfDigits ['1', '2']) ['\n']
    from .mk (List.forall_mem_singleton.2 rfl) (.inr rfl) (List.cons_ne_nil _ _)
      (List.forall_mem_cons.2 ⟨rfl, List.forall_mem_singleton.2 rfl⟩)
      (fun c first => by cases first; rfl), List.forall_mem_singleton.2 rfl⟩

/-- A numeral is taken at its word. -/
theorem twelve_levels :
    ∃ depth : Number, depth.toInt? = some 12 ∧
      (ofEnvironment [("TYPEREG_MAX_DEPTH", " +12\n")]).map maxDepth = .ok depth := by
  have set : Environment.get? [("TYPEREG_MAX_DEPTH", " +12\n")] "TYPEREG_MAX_DEPTH" =
      some " +12\n" := by decide
  exact (depth_of_environment set).1 12 numeral_twelve (by decide) (by decide)

/-- What comes after the digits is not looked at. -/
theorem trailing_letters_read :
    (ofEnvironment [("TYPEREG_MAX_DEPTH", "12abc")]).map maxDepth = .ok (Number.ofNat 12) ∧
      ¬ ∃ n, Numeral "12abc" n := by
  refine ⟨by rfl, ?_⟩
  rintro ⟨n, rest, leads, blank⟩
  have rest_eq : rest = ['a', 'b', 'c'] := leads.rest_eq.trans (by decide)
  have := blank 'a' (rest_eq ▸ List.mem_cons_self)
  revert this
  decide

end Sample

end Settings

end Marshal
