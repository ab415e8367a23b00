import ActivityBoard.Proofs.Json.Literal

namespace ActivityBoard

/-- The text of `units` units of `10^-places` with this sign. -/
def Decimal.placedText (negative : Bool) (places units : Nat) : String :=
  String.ofList (signed negative (placed places units))

namespace Json.Numeral

def ofPlaces (negative : Bool) (places units : Nat) : Numeral where
  negative := negative
  whole := Nat.toDigits 10 (units / Decimal.scale places)
  fraction := if places = 0 then [] else Decimal.padded places (units % Decimal.scale places)
  exponent := none

theorem wellFormed_ofPlaces (negative : Bool) (places units : Nat) :
    (ofPlaces negative places units).WellFormed where
  whole_ne_nil := Nat.toDigits_ne_nil
  isDigit_whole _ := Digits.isDigit_of_mem_toDigits
  leading h := by
    have hzero : units / Decimal.scale places = 0 :=
      Decidable.byContradiction fun hne => Digits.head?_toDigits_ne hne h
    rw [ofPlaces, hzero]
    rfl
  isDigit_fraction c hc := by
    rw [ofPlaces] at hc
    split at hc
    · cases hc
    · obtain hc | hc := List.mem_append.1 hc
      · exact Digits.isDigit_of_mem_replicate hc
      · exact Digits.isDigit_of_mem_toDigits hc

theorem chars_ofPlaces (negative : Bool) (places units : Nat) :
    (ofPlaces negative places units).chars = Decimal.placed places units := by
  have hpadded : Decimal.padded places (units % Decimal.scale places) ≠ [] :=
    List.append_ne_nil_of_right_ne_nil _ Nat.toDigits_ne_nil
  rw [chars, ofPlaces, Decimal.placed]
  split
  · rename_i hplaces
    simp [hplaces, fractionChars, exponentChars, Decimal.scale]
  · simp [hpadded, fractionChars, exponentChars]

theorem length_padded {places n : Nat} (h : n < Decimal.scale places) (hplaces : places ≠ 0) :
    (Decimal.padded places n).length = places := by
  have hlength : (Nat.toDigits 10 n).length ≤ places :=
    (Nat.length_toDigits_le_iff (by decide) (by omega)).2 h
  rw [Decimal.padded, List.length_append, List.length_replicate]
  omega

/-- The digits on both sides of the point together count the units. -/
theorem decimal_ofPlaces (negative : Bool) (places units : Nat) :
    (ofPlaces negative places units).decimal = ⟨units, -places⟩ := by
  by_cases hplaces : places = 0
  · subst hplaces
    simp [decimal, ofPlaces, Decimal.scale, Nat.ofDigitChars_ten_toDigits]
  · have hscale : 0 < Decimal.scale places := Nat.pow_pos (by decide)
    have hlength := length_padded (Nat.mod_lt units hscale) hplaces
    have hrest : Nat.ofDigitChars 10 (Decimal.padded places (units % Decimal.scale places)) 0 =
        units % Decimal.scale places := by
      rw [Decimal.padded, Digits.ofDigitChars_zeros_append, Nat.ofDigitChars_ten_toDigits]
    have hunits : Nat.ofDigitChars 10 (Nat.toDigits 10 (units / Decimal.scale places) ++
        Decimal.padded places (units % Decimal.scale places)) 0 = units := by
      rw [Nat.ofDigitChars_append, Nat.ofDigitChars_eq_ofDigitChars_zero, hlength, hrest,
        Nat.ofDigitChars_ten_toDigits]
      exact Nat.div_add_mod units (Decimal.scale places)
    rw [decimal, ofPlaces, if_neg hplaces]
    simp [hunits, hlength]

def value (n : Numeral) : ℚ := if n.negative then -n.decimal.value else n.decimal.value

theorem value_ofPlaces (negative : Bool) (places units : Nat) :
    (ofPlaces negative places units).value =
      if negative then -(units / 10 ^ places : ℚ) else units / 10 ^ places := by
  rw [value, decimal_ofPlaces, Decimal.value, zpow_neg, zpow_natCast, div_eq_mul_inv]
  rfl

/-- The text is a minus sign if the numeral is negative, its digits, and behind a point `places`
more, unless these are none. -/
structure WritesPlaces (n : Numeral) (places : Nat) (text : String) : Prop where
  wellFormed : n.WellFormed
  exponent_eq : n.exponent = none
  length_fraction : n.fraction.length = places
  toList_eq : text.toList = Decimal.signed n.negative n.chars

theorem WritesPlaces.unique {m n : Numeral} {places : Nat} {text : String}
    (hm : m.WritesPlaces places text) (hn : n.WritesPlaces places text) : m = n := by
  have hend : EndsNumber [] := fun c hc => by cases hc
  have hread := readScalar_append hm.wellFormed hend
  rw [← hm.toList_eq, hn.toList_eq, readScalar_append hn.wellFormed hend] at hread
  cases hread
  rfl

theorem writesPlaces_ofPlaces (negative : Bool) (places units : Nat) :
    (ofPlaces negative places units).WritesPlaces places
      (Decimal.placedText negative places units) where
  wellFormed := wellFormed_ofPlaces negative places units
  exponent_eq := rfl
  length_fraction := by
    rw [ofPlaces]
    split
    · rename_i hplaces
      exact hplaces.symm
    · rename_i hplaces
      exact length_padded (Nat.mod_lt units (Nat.pow_pos (by decide))) hplaces
  toList_eq := by
    rw [Decimal.placedText, String.toList_ofList, chars_ofPlaces]
    rfl

end Json.Numeral

namespace Binary64

open Json

/-- The text is a number in digits, without an exponent. -/
def IsPlain (text : String) : Prop :=
  ∃ n : Numeral, n.WellFormed ∧ n.exponent = none ∧
    text.toList = Decimal.signed n.negative n.chars

variable {x : Binary64} {text : String}

def numeral (x : Binary64) (places : Nat) : Numeral :=
  Numeral.ofPlaces x.negative places (nearestEven (x.inPlaces places))

theorem wellFormed_numeral (x : Binary64) (places : Nat) : (x.numeral places).WellFormed :=
  Numeral.wellFormed_ofPlaces ..

theorem toList_nearestPlaces (x : Binary64) (places : Nat) : (x.nearestPlaces places).toList =
    Decimal.signed (x.numeral places).negative (x.numeral places).chars := by
  rw [nearestPlaces, String.toList_ofList, numeral, Numeral.chars_ofPlaces]
  rfl

theorem ofText?_nearestPlaces (x : Binary64) (places : Nat) :
    ofText? (x.nearestPlaces places).toList = some (x.numeral places).number := by
  rw [toList_nearestPlaces]
  exact (wellFormed_numeral x places).spells.ofText?_signed

theorem isPlain_nearestPlaces (x : Binary64) (places : Nat) : IsPlain (x.nearestPlaces places) :=
  ⟨x.numeral places, wellFormed_numeral x places, rfl, toList_nearestPlaces x places⟩

/-- The number without the sign of a zero, which is not shown. -/
def unsignedZero (x : Binary64) : Binary64 := if x.isZero then 0 else x

theorem toFixed_eq (hx : x.isFinite = true) (places : Nat) : x.toFixed places =
    if x.unsignedZero.nearHalf places && x.unsignedZero.isTie places then
      (x.unsignedZero + x.unsignedZero.nudge places).nearestPlaces places
    else x.unsignedZero.nearestPlaces places := by
  cases x with
  | finite s m e h => rfl
  | _ => cases hx

theorem toFixed_cases (hx : x.isFinite = true) (places : Nat) :
    x.toFixed places = x.unsignedZero.nearestPlaces places ∨
      x.toFixed places =
        (x.unsignedZero + x.unsignedZero.nudge places).nearestPlaces places := by
  rw [toFixed_eq hx]
  split
  · exact .inr rfl
  · exact .inl rfl

theorem isPlain_toFixed (hx : x.isFinite = true) (places : Nat) : IsPlain (x.toFixed places) := by
  obtain hshown | hshown := toFixed_cases hx places <;> rw [hshown] <;>
    exact isPlain_nearestPlaces _ places

theorem IsPlain.exists_ofText (h : IsPlain text) : ∃ y, Metric.ofText text = .number y := by
  obtain ⟨n, hn, -, htext⟩ := h
  refine ⟨n.number, Metric.ofText_eq_number ?_⟩
  rw [htext, Text.trim_eq_self hn.spells.isBlank_signed]
  exact hn.spells.ofText?_signed

end Binary64

end ActivityBoard
