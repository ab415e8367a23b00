import ActivityBoard.Json.Printer
import ActivityBoard.Json.Reader
import ActivityBoard.Proofs.Binary64.Shortest
import ActivityBoard.Proofs.Text.Digits
import Mathlib.Tactic.Ring

namespace ActivityBoard.Json

variable {cs digits rest : List Char} {n : Nat}

section Reading

def NoDigit (rest : List Char) : Prop := ∀ c ∈ rest.head?, c.isDigit = false

def EndsNumber (rest : List Char) : Prop :=
  ∀ c ∈ rest.head?, c.isDigit = false ∧ c ≠ '.' ∧ c ≠ 'e' ∧ c ≠ 'E'

theorem EndsNumber.noDigit (h : EndsNumber rest) : NoDigit rest := fun c hc => (h c hc).1

theorem NoDigit.takeWhile (h : NoDigit rest) : rest.takeWhile Char.isDigit = [] := by
  cases rest with
  | nil => rfl
  | cons c rest => exact List.takeWhile_cons_of_neg (by simpa using h c rfl)

theorem NoDigit.dropWhile (h : NoDigit rest) : rest.dropWhile Char.isDigit = rest := by
  cases rest with
  | nil => rfl
  | cons c rest => exact List.dropWhile_cons_of_neg (by simpa using h c rfl)

theorem readDigits_append (hne : digits ≠ []) (hdigits : ∀ c ∈ digits, c.isDigit = true)
    (hrest : NoDigit rest) : readDigits (digits ++ rest) = some (digits, rest) := by
  rw [readDigits, List.takeWhile_append_of_pos hdigits, List.dropWhile_append_of_pos hdigits,
    hrest.takeWhile, hrest.dropWhile, List.append_nil]
  exact if_neg (by simpa using hne)

end Reading

namespace Numeral

/-- Digits before the point without a zero that says nothing, and digits behind it. -/
structure WellFormed (n : Numeral) : Prop where
  whole_ne_nil : n.whole ≠ []
  isDigit_whole : ∀ c ∈ n.whole, c.isDigit = true
  leading : n.whole.head? = some '0' → n.whole.length = 1
  isDigit_fraction : ∀ c ∈ n.fraction, c.isDigit = true

def fractionChars (fraction : List Char) : List Char :=
  if fraction.isEmpty then [] else '.' :: fraction

def exponentChars : Option Int → List Char
  | none => []
  | some e => 'e' :: (if e < 0 then '-' else '+') :: Nat.toDigits 10 e.natAbs

def chars (n : Numeral) : List Char :=
  n.whole ++ (fractionChars n.fraction ++ exponentChars n.exponent)

theorem noDigit_exponentChars (e : Option Int) (hrest : EndsNumber rest) :
    NoDigit (exponentChars e ++ rest) := by
  cases e with
  | none => exact hrest.noDigit
  | some e =>
    intro c hc
    cases hc
    rfl

theorem noDigit_fractionChars (fraction : List Char) (hrest : NoDigit rest) :
    NoDigit (fractionChars fraction ++ rest) := by
  rw [fractionChars]
  split
  · exact hrest
  · intro c hc
    cases hc
    rfl

theorem readFraction_append {fraction : List Char} (hdigits : ∀ c ∈ fraction, c.isDigit = true)
    (hrest : NoDigit rest) (hpoint : rest.head? ≠ some '.') :
    readFraction (fractionChars fraction ++ rest) = some (fraction, rest) := by
  cases fraction with
  | nil =>
    cases rest with
    | nil => rfl
    | cons c rest =>
      unfold readFraction
      split
      · rename_i he
        cases he
        exact absurd rfl hpoint
      · rfl
  | cons c fraction => exact readDigits_append (List.cons_ne_nil _ _) hdigits hrest

theorem readExponent_append (e : Option Int) (hrest : EndsNumber rest) :
    readExponent (exponentChars e ++ rest) = some (e, rest) := by
  cases e with
  | none =>
    cases rest with
    | nil => rfl
    | cons c rest =>
      obtain ⟨-, -, he, hE⟩ := hrest c rfl
      exact if_neg (not_or.2 ⟨he, hE⟩)
  | some e =>
    have hdigits : readDigits (Nat.toDigits 10 e.natAbs ++ rest) =
        some (Nat.toDigits 10 e.natAbs, rest) :=
      readDigits_append Nat.toDigits_ne_nil (fun c hc => Digits.isDigit_of_mem_toDigits hc)
        hrest.noDigit
    by_cases he : e < 0
    · have hvalue : -(e.natAbs : Int) = e := by omega
      simp only [exponentChars, readExponent, if_pos he, List.cons_append, true_or, if_true,
        hdigits, Nat.ofDigitChars_ten_toDigits, hvalue]
    · have hvalue : (e.natAbs : Int) = e := by omega
      simp only [exponentChars, readExponent, if_neg he, List.cons_append, true_or, if_true,
        hdigits, Nat.ofDigitChars_ten_toDigits, hvalue]
      rfl

theorem readNumeral_append {n : Numeral} (h : n.WellFormed) (hrest : EndsNumber rest) :
    readNumeral n.negative (n.chars ++ rest) = some (n, rest) := by
  have hexponent := readExponent_append n.exponent hrest
  have hend := noDigit_exponentChars n.exponent hrest
  have hpoint : (exponentChars n.exponent ++ rest).head? ≠ some '.' := by
    cases n.exponent with
    | none => exact fun hc => (hrest _ hc).2.1 rfl
    | some e => exact fun hc => by cases hc
  have hfraction := readFraction_append h.isDigit_fraction hend hpoint
  have hwhole : readWhole (n.whole ++ (fractionChars n.fraction ++
      (exponentChars n.exponent ++ rest))) =
        some (n.whole, fractionChars n.fraction ++ (exponentChars n.exponent ++ rest)) := by
    rw [readWhole, readDigits_append h.whole_ne_nil h.isDigit_whole
      (noDigit_fractionChars n.fraction hend)]
    exact if_neg fun hc => hc.2 (h.leading hc.1)
  rw [readNumeral, chars, List.append_assoc, List.append_assoc, hwhole]
  simp only [Option.bind_eq_bind, Option.bind_some, hfraction, hexponent]
  rfl

theorem readScalar_append {n : Numeral} (h : n.WellFormed) (hrest : EndsNumber rest) :
    readScalar (Decimal.signed n.negative n.chars ++ rest) = some (.number n, rest) := by
  have hread := readNumeral_append h hrest
  cases hneg : n.negative with
  | true =>
    rw [hneg] at hread
    change (readNumeral true (n.chars ++ rest)).map _ = _
    rw [hread, Option.map_some]
  | false =>
    rw [hneg] at hread
    rw [Decimal.signed, if_neg Bool.false_ne_true]
    -- The first character is a digit, with which nothing but a number starts.
    obtain ⟨c, whole, hwhole⟩ := List.exists_cons_of_ne_nil h.whole_ne_nil
    have hc : c.isDigit = true := h.isDigit_whole c (hwhole ▸ List.mem_cons_self)
    have hchars : n.chars ++ rest = c :: (whole ++ (fractionChars n.fraction ++
        exponentChars n.exponent) ++ rest) := by
      rw [chars, hwhole]
      rfl
    rw [hchars] at hread ⊢
    generalize whole ++ (fractionChars n.fraction ++ exponentChars n.exponent) ++ rest = tail at *
    unfold readScalar
    split
    case h_6 => rw [hread, Option.map_some]
    all_goals
      rename_i he
      cases he
      cases hc

def decimal (n : Numeral) : Decimal :=
  ⟨Nat.ofDigitChars 10 (n.whole ++ n.fraction) 0, n.exponent.getD 0 - n.fraction.length⟩

/-- The numeral has this sign, is written like this and read as a float, and denotes `±q`. -/
structure Writes (n : Numeral) (negative : Bool) (cs : List Char) (q : ℚ) : Prop where
  negative_eq : n.negative = negative
  wellFormed : n.WellFormed
  chars_eq : n.chars = cs
  isFloat : n.fraction ≠ [] ∨ n.exponent ≠ none
  value_eq : n.decimal.value = q

section Layouts

variable {layout : Layout} {exponent point : Int} (negative : Bool)

theorem isDigit_of_mem_zero {c : Char} (h : c ∈ ['0']) : c.isDigit = true := by
  rw [List.mem_singleton.1 h]
  decide

theorem writes_zero : Writes ⟨negative, ['0'], ['0'], none⟩ negative ['0', '.', '0'] 0 where
  negative_eq := rfl
  wellFormed := ⟨List.cons_ne_nil _ _, fun _ => isDigit_of_mem_zero, fun _ => rfl,
    fun _ => isDigit_of_mem_zero⟩
  chars_eq := rfl
  isFloat := .inl (List.cons_ne_nil _ _)
  value_eq := by simp [Decimal.value, decimal, Nat.ofDigitChars_cons]

variable (h : Digits.Significant digits)

include h

theorem writes_below_one (hpoint : point ≤ 0) :
    Writes ⟨negative, ['0'], List.replicate (-point).toNat '0' ++ digits, none⟩ negative
      (layout.positionalText digits point)
      (Nat.ofDigitChars 10 digits 0 * 10 ^ (point - digits.length)) where
  negative_eq := rfl
  wellFormed := by
    refine ⟨by simp, by simp, by simp, ?_⟩
    intro c hc
    obtain hc | hc := List.mem_append.1 hc
    · exact Digits.isDigit_of_mem_replicate hc
    · exact h.isDigit c hc
  chars_eq := by
    rw [Layout.positionalText, if_pos hpoint]
    simp [chars, fractionChars, exponentChars, h.ne_nil]
  isFloat := .inl (by simp [h.ne_nil])
  value_eq := by
    have hexponent : (0 : Int) - (List.replicate (-point).toNat '0' ++ digits).length =
        point - digits.length := by
      rw [List.length_append, List.length_replicate]
      omega
    rw [Decimal.value, decimal, Option.getD_none, hexponent]
    have hzeros := Digits.ofDigitChars_zeros_append ((-point).toNat + 1) digits
    rw [List.replicate_succ, List.cons_append] at hzeros
    exact congrArg (fun m : Nat => (m * 10 ^ (point - digits.length) : ℚ)) hzeros

theorem writes_integer (hpoint : digits.length ≤ point.toNat) (hpos : 0 < point) :
    Writes ⟨negative, digits ++ List.replicate (point.toNat - digits.length) '0', ['0'], none⟩
      negative (Layout.json.positionalText digits point)
      (Nat.ofDigitChars 10 digits 0 * 10 ^ (point - digits.length)) where
  negative_eq := rfl
  wellFormed := by
    refine ⟨by simp [h.ne_nil], ?_, ?_, fun _ => isDigit_of_mem_zero⟩
    · intro c hc
      obtain hc | hc := List.mem_append.1 hc
      · exact h.isDigit c hc
      · exact Digits.isDigit_of_mem_replicate hc
    · intro hc
      rw [List.head?_append, Option.or_of_isSome (List.isSome_head?.2 h.ne_nil)] at hc
      exact absurd hc h.head?_ne
  chars_eq := by
    rw [Layout.positionalText, if_neg (by omega), if_pos hpoint]
    simp [chars, fractionChars, exponentChars, Layout.json]
  isFloat := .inl (by simp)
  value_eq := by
    have hzeros := Digits.ofDigitChars_append_zeros digits (point.toNat - digits.length + 1)
    rw [List.replicate_succ', ← List.append_assoc] at hzeros
    have hexponent : (point - digits.length : Int) = (point.toNat - digits.length : Nat) := by
      omega
    rw [Decimal.value, decimal, hzeros, hexponent, zpow_natCast]
    simp [pow_succ]
    ring

theorem writes_mixed (hpoint : ¬ digits.length ≤ point.toNat) (hpos : 0 < point) :
    Writes ⟨negative, digits.take point.toNat, digits.drop point.toNat, none⟩ negative
      (layout.positionalText digits point)
      (Nat.ofDigitChars 10 digits 0 * 10 ^ (point - digits.length)) where
  negative_eq := rfl
  wellFormed := by
    refine ⟨by simp [h.ne_nil]; omega, ?_, ?_, ?_⟩
    · exact fun c hc => h.isDigit c (List.mem_of_mem_take hc)
    · intro hc
      rw [List.head?_take, if_neg (by omega)] at hc
      exact absurd hc h.head?_ne
    · exact fun c hc => h.isDigit c (List.mem_of_mem_drop hc)
  chars_eq := by
    rw [Layout.positionalText, if_neg (by omega), if_neg hpoint]
    simp [chars, fractionChars, exponentChars, hpoint]
  isFloat := .inl (by simp; omega)
  value_eq := by
    have hexponent : (0 : Int) - (digits.drop point.toNat).length = point - digits.length := by
      rw [List.length_drop]
      omega
    rw [Decimal.value, decimal, List.take_append_drop, Option.getD_none, hexponent]

theorem writes_exponent (exponent : Int) :
    Writes ⟨negative, digits.take 1, digits.drop 1, some exponent⟩ negative
      (Layout.exponentText digits exponent)
      (Nat.ofDigitChars 10 digits 0 * 10 ^ (exponent + 1 - digits.length)) where
  negative_eq := rfl
  wellFormed := by
    refine ⟨by simp [h.ne_nil], ?_, ?_, ?_⟩
    · exact fun c hc => h.isDigit c (List.mem_of_mem_take hc)
    · intro hc
      rw [List.head?_take, if_neg (by omega)] at hc
      exact absurd hc h.head?_ne
    · exact fun c hc => h.isDigit c (List.mem_of_mem_drop hc)
  chars_eq := by
    rw [Layout.exponentText, List.append_assoc]
    rfl
  isFloat := .inr (by simp)
  value_eq := by
    have hlength : 0 < digits.length := List.length_pos_iff.2 h.ne_nil
    have hexponent : exponent - (digits.drop 1).length = exponent + 1 - digits.length := by
      rw [List.length_drop]
      omega
    rw [Decimal.value, decimal, List.take_append_drop, Option.getD_some, hexponent]

end Layouts

theorem exists_writes_digits (negative : Bool) (h : Digits.Significant digits) (point : Int) :
    ∃ n : Numeral, n.Writes negative
      (if Layout.json.positional (point - 1) then Layout.json.positionalText digits point
        else Layout.exponentText digits (point - 1))
      (Nat.ofDigitChars 10 digits 0 * 10 ^ (point - digits.length)) := by
  split
  · by_cases hpoint : point ≤ 0
    · exact ⟨_, writes_below_one negative h hpoint⟩
    · by_cases hlength : digits.length ≤ point.toNat
      · exact ⟨_, writes_integer negative h hlength (by omega)⟩
      · exact ⟨_, writes_mixed negative h hlength (by omega)⟩
  · have hwrites := writes_exponent negative h (point - 1)
    rw [sub_add_cancel] at hwrites
    exact ⟨_, hwrites⟩

/-- A positive decimal is written by its digits without the zeros at their end. -/
theorem exists_significant {d : Decimal} (hc : d.coefficient ≠ 0) :
    ∃ (digits : List Char) (point : Int), Digits.Significant digits ∧
      d.value = Nat.ofDigitChars 10 digits 0 * 10 ^ (point - digits.length) ∧
      ∀ layout : Layout, layout.write d =
        if layout.positional (point - 1) then layout.positionalText digits point
        else Layout.exponentText digits (point - 1) := by
  obtain ⟨k, hall⟩ := Digits.exists_eq_append_zeros (Nat.toDigits 10 d.coefficient)
  have hcoefficient := Nat.ofDigitChars_ten_toDigits (n := d.coefficient)
  have hsignificant := Digits.significant_toDigits hc
  refine ⟨((Nat.toDigits 10 d.coefficient).reverse.dropWhile (· = '0')).reverse,
    (Nat.toDigits 10 d.coefficient).length + d.exponent, ?_, ?_, fun layout => if_neg hc⟩
  · rw [hall] at hsignificant
    exact hsignificant.of_append_zeros
  · generalize ((Nat.toDigits 10 d.coefficient).reverse.dropWhile (· = '0')).reverse = digits at *
    rw [hall] at hcoefficient ⊢
    rw [Digits.ofDigitChars_append_zeros] at hcoefficient
    -- The zeros that are left out are a power of ten.
    have hexponent : ((digits ++ List.replicate k '0').length + d.exponent - digits.length : Int) =
        k + d.exponent := by
      rw [List.length_append, List.length_replicate]
      omega
    rw [Decimal.value, ← hcoefficient, hexponent, zpow_add₀ (by norm_num), Nat.cast_mul,
      Nat.cast_pow, zpow_natCast]
    simp [mul_comm, mul_left_comm]

theorem exists_writes (negative : Bool) (d : Decimal) :
    ∃ n : Numeral, n.Writes negative (Layout.json.write d) d.value := by
  by_cases hc : d.coefficient = 0
  · rw [Layout.write, if_pos hc, Decimal.value, hc, Nat.cast_zero, zero_mul]
    exact ⟨_, writes_zero negative⟩
  · obtain ⟨digits, point, hsignificant, hvalue, hwrite⟩ := exists_significant hc
    rw [hvalue, hwrite]
    exact exists_writes_digits negative hsignificant point

variable {x : Binary64}

theorem ofFloat_of_readsBack {negative : Bool} {c : Nat} {e : Int} (hx : x.isFinite = true)
    (hnegative : negative = x.negative) (h : x.readsBack ⟨c, e⟩ = true) :
    ofFloat (if negative then (Binary64.ofDecimal c e).neg else Binary64.ofDecimal c e) =
      .float x := by
  have hvalue : (if negative then x.abs.neg else x.abs) = x := by
    rw [hnegative]
    cases hs : x.negative with
    | true => exact Binary64.neg_abs hs
    | false => exact Binary64.abs_of_not_negative hs
  rw [Binary64.readsBack_iff.1 h, hvalue, ofFloat, if_pos hx]

def present? : Json → Option Json
  | .null => none
  | v => some v

theorem value?_of_readsBack {n : Numeral} (hx : x.isFinite = true)
    (hfloat : n.fraction ≠ [] ∨ n.exponent ≠ none) (hnegative : n.negative = x.negative)
    (h : x.readsBack n.decimal = true) : n.value? = some (.float x) := by
  have hofFloat := ofFloat_of_readsBack hx hnegative h
  obtain ⟨negative, whole, fraction, exponent⟩ := n
  cases fraction with
  | cons c fraction => exact congrArg present? hofFloat
  | nil =>
    cases exponent with
    | none => exact hfloat.elim (absurd rfl) (absurd rfl)
    | some e => exact congrArg present? hofFloat

def ofInt (n : Int) : Numeral := ⟨decide (n < 0), Nat.toDigits 10 n.natAbs, [], none⟩

theorem wellFormed_ofInt (n : Int) : (ofInt n).WellFormed where
  whole_ne_nil := Nat.toDigits_ne_nil
  isDigit_whole _ := Digits.isDigit_of_mem_toDigits
  leading h := by
    have hn : n.natAbs = 0 := Decidable.byContradiction fun hn => Digits.head?_toDigits_ne hn h
    rw [ofInt, hn]
    rfl
  isDigit_fraction _ h := absurd h List.not_mem_nil

theorem chars_ofInt (n : Int) :
    Decimal.signed (ofInt n).negative (ofInt n).chars = (Int.repr n).toList := by
  cases n with
  | ofNat n => simp [ofInt, chars, fractionChars, exponentChars, Decimal.signed, Int.repr]
  | negSucc n => simp [ofInt, chars, fractionChars, exponentChars, Decimal.signed, Int.repr]

theorem ofInteger_natAbs {n : Int} (hlow : leastInt ≤ n) (hhigh : n ≤ greatestInt) :
    ofInteger (decide (n < 0)) n.natAbs = .int n := by
  have hvalue : (if decide (n < 0) = true then -(n.natAbs : Int) else n.natAbs) = n := by
    split
    · rename_i h
      have := of_decide_eq_true h
      omega
    · rename_i h
      have := of_decide_eq_false (Bool.not_eq_true _ ▸ h)
      omega
  have hzero : decide (n < 0) = true → n.natAbs ≠ 0 := by
    rw [decide_eq_true_eq]
    omega
  rw [ofInteger, hvalue]
  exact if_pos ⟨hlow, hhigh, hzero⟩

theorem value?_ofInt {n : Int} (hlow : leastInt ≤ n) (hhigh : n ≤ greatestInt) :
    (ofInt n).value? = some (.int n) := by
  have hinteger := ofInteger_natAbs hlow hhigh
  rw [value?, ofInt, List.append_nil, Nat.ofDigitChars_ten_toDigits]
  exact congrArg present? hinteger

end Numeral

theorem readScalar_int {n : Int} (hlow : leastInt ≤ n) (hhigh : n ≤ greatestInt)
    (hrest : EndsNumber rest) :
    ∃ scalar, readScalar (scalarChars (.int n) ++ rest) = some (scalar, rest) ∧
      scalar.value? = some (.int n) := by
  refine ⟨.number (.ofInt n), ?_, Numeral.value?_ofInt hlow hhigh⟩
  rw [scalarChars, ← Numeral.chars_ofInt]
  exact Numeral.readScalar_append (Numeral.wellFormed_ofInt n) hrest

/-- A finite float is read back, to the sign of a zero. -/
theorem readScalar_float {x : Binary64} (hx : x.isFinite = true) (hrest : EndsNumber rest) :
    ∃ scalar, readScalar (scalarChars (.float x) ++ rest) = some (scalar, rest) ∧
      scalar.value? = some (.float x) := by
  obtain ⟨n, hn⟩ := Numeral.exists_writes x.negative (x.shortest Layout.json.tie)
  have hchars : scalarChars (.float x) = Decimal.signed n.negative n.chars := by
    rw [scalarChars, Binary64.text, String.toList_ofList, hn.negative_eq, hn.chars_eq]
  refine ⟨.number n, ?_, ?_⟩
  · rw [hchars]
    exact Numeral.readScalar_append hn.wellFormed hrest
  · have hback := Binary64.readsBack_congr hn.value_eq (Binary64.readsBack_shortest _ hx)
    exact Numeral.value?_of_readsBack hx hn.isFloat hn.negative_eq hback

end ActivityBoard.Json
