import ActivityBoard.Metric
import ActivityBoard.Proofs.Json.Numeral

/-!
Numbers in documents and numbers in texts are one language: what a document takes for a numeral is,
to its last character, a text of the number that the document takes it for.
-/
namespace ActivityBoard

namespace Text

variable {cs before behind : List Char}

theorem trim_eq_self (h : ∀ c ∈ cs, isBlank c = false) : trim cs = cs := by
  have hkept {l : List Char} (hl : ∀ c ∈ l, isBlank c = false) : l.dropWhile isBlank = l := by
    cases l with
    | nil => rfl
    | cons c l => exact List.dropWhile_cons_of_neg (by simp [hl c List.mem_cons_self])
  rw [trim, hkept h, hkept fun c hc => h c (List.mem_reverse.1 hc), List.reverse_reverse]

theorem trim_surrounded (hbefore : ∀ c ∈ before, isBlank c = true)
    (hcs : ∀ c ∈ cs, isBlank c = false) (hbehind : ∀ c ∈ behind, isBlank c = true) :
    trim (before ++ (cs ++ behind)) = cs := by
  have hback : ∀ c ∈ behind.reverse, isBlank c = true := fun c hc =>
    hbehind c (List.mem_reverse.1 hc)
  rw [trim, List.dropWhile_append_of_pos hbefore]
  cases cs with
  | nil =>
    rw [List.nil_append, List.dropWhile_eq_nil_iff.2 hbehind]
    rfl
  | cons c cs =>
    have hself := trim_eq_self hcs
    have hc : ¬ isBlank c = true := by simp [hcs c List.mem_cons_self]
    rw [trim, List.dropWhile_cons_of_neg hc] at hself
    rw [List.cons_append, List.dropWhile_cons_of_neg hc, ← List.cons_append, List.reverse_append,
      List.dropWhile_append_of_pos hback, hself]

theorem toNat_of_isDigit {c : Char} (h : c.isDigit = true) : 48 ≤ c.toNat ∧ c.toNat ≤ 57 := by
  simpa [Char.isDigit, UInt32.le_iff_toNat_le] using h

theorem isBlank_of_isDigit {c : Char} (h : c.isDigit = true) : isBlank c = false := by
  have hrange := toNat_of_isDigit h
  simp [isBlank]
  omega

theorem toLower_of_isDigit {c : Char} (h : c.isDigit = true) : c.toLower = c := by
  have hrange := toNat_of_isDigit h
  have hupper : ¬ (c.val ≥ 'A'.val ∧ c.val ≤ 'Z'.val) := by
    rintro ⟨hupper, -⟩
    have htoNat : 65 ≤ c.toNat := UInt32.le_iff_toNat_le.1 hupper
    omega
  exact dif_neg hupper

end Text

namespace Json

variable {cs rest digits : List Char}

structure IsDigits (cs : List Char) : Prop where
  ne_nil : cs ≠ []
  isDigit : ∀ c ∈ cs, c.isDigit = true

theorem isDigits_toDigits (n : Nat) : IsDigits (Nat.toDigits 10 n) :=
  ⟨Nat.toDigits_ne_nil, fun _ => Digits.isDigit_of_mem_toDigits⟩

inductive SpellsExponent : Option Int → List Char → Prop where
  | absent : SpellsExponent none []
  | unsigned {c : Char} {digits : List Char} : c = 'e' ∨ c = 'E' → IsDigits digits →
      SpellsExponent (some (Nat.ofDigitChars 10 digits 0)) (c :: digits)
  | plus {c : Char} {digits : List Char} : c = 'e' ∨ c = 'E' → IsDigits digits →
      SpellsExponent (some (Nat.ofDigitChars 10 digits 0)) (c :: '+' :: digits)
  | minus {c : Char} {digits : List Char} : c = 'e' ∨ c = 'E' → IsDigits digits →
      SpellsExponent (some (-(Nat.ofDigitChars 10 digits 0 : Int))) (c :: '-' :: digits)

/-- How a numeral may be written, apart from its sign. -/
structure Numeral.Spells (n : Numeral) (cs : List Char) : Prop where
  whole : IsDigits n.whole
  fraction : ∀ c ∈ n.fraction, c.isDigit = true
  chars : ∃ exponent, SpellsExponent n.exponent exponent ∧
    cs = n.whole ++ (Numeral.fractionChars n.fraction ++ exponent)

section Reading

theorem readDigits_eq_some (h : readDigits cs = some (digits, rest)) :
    IsDigits digits ∧ cs = digits ++ rest := by
  simp only [readDigits] at h
  split at h
  · cases h
  · rename_i hne
    cases h
    refine ⟨⟨by simpa using hne, ?_⟩, List.takeWhile_append_dropWhile.symm⟩
    exact fun c hc => List.mem_takeWhile_imp hc

theorem readWhole_eq_some (h : readWhole cs = some (digits, rest)) :
    IsDigits digits ∧ cs = digits ++ rest := by
  simp only [readWhole] at h
  split at h
  · rename_i hdigits
    split at h
    · cases h
    · cases h
      exact readDigits_eq_some hdigits
  · cases h

theorem readFraction_eq_some (h : readFraction cs = some (digits, rest)) :
    (∀ c ∈ digits, c.isDigit = true) ∧ cs = Numeral.fractionChars digits ++ rest := by
  unfold readFraction at h
  split at h
  · obtain ⟨hdigits, rfl⟩ := readDigits_eq_some h
    refine ⟨hdigits.isDigit, ?_⟩
    rw [Numeral.fractionChars, if_neg (by simpa using hdigits.ne_nil)]
    rfl
  · cases h
    exact ⟨List.forall_mem_nil _, rfl⟩

theorem readExponent_eq_some {e : Option Int} (h : readExponent cs = some (e, rest)) :
    ∃ exponent, SpellsExponent e exponent ∧ cs = exponent ++ rest := by
  unfold readExponent at h
  split at h
  · cases h
    exact ⟨[], .absent, rfl⟩
  · rename_i c tail
    split at h
    · rename_i hc
      dsimp only at h
      split at h
      · cases h
      · rename_i digits rest' hdigits
        cases h
        obtain ⟨hd, he⟩ := readDigits_eq_some hdigits
        -- The sign decides which digits are read.
        split at he
        · subst he
          exact ⟨_, .minus hc hd, rfl⟩
        · subst he
          exact ⟨_, .plus hc hd, rfl⟩
        · subst he
          exact ⟨_, .unsigned hc hd, rfl⟩
    · cases h
      exact ⟨[], .absent, rfl⟩

theorem readNumeral_eq_some {negative : Bool} {n : Numeral}
    (h : readNumeral negative cs = some (n, rest)) :
    n.negative = negative ∧ ∃ spelled, n.Spells spelled ∧ cs = spelled ++ rest := by
  simp only [readNumeral, Option.bind_eq_bind, Option.bind_eq_some_iff] at h
  obtain ⟨⟨whole, rest₁⟩, hwhole, ⟨fraction, rest₂⟩, hfraction, ⟨exponent, rest₃⟩, hexponent,
    hn⟩ := h
  cases hn
  obtain ⟨hw, rfl⟩ := readWhole_eq_some hwhole
  obtain ⟨hf, rfl⟩ := readFraction_eq_some hfraction
  obtain ⟨spelled, he, rfl⟩ := readExponent_eq_some hexponent
  refine ⟨rfl, _, ⟨hw, hf, spelled, he, rfl⟩, ?_⟩
  simp only [List.append_assoc]

theorem readScalar_eq_some {n : Numeral} (h : readScalar cs = some (.number n, rest)) :
    ∃ spelled, n.Spells spelled ∧ cs = Decimal.signed n.negative spelled ++ rest := by
  unfold readScalar at h
  split at h
  case h_5 =>
    obtain ⟨⟨n', rest'⟩, hread, hn⟩ := Option.map_eq_some_iff.1 h
    cases hn
    obtain ⟨hnegative, spelled, hspells, rfl⟩ := readNumeral_eq_some hread
    refine ⟨spelled, hspells, ?_⟩
    rw [hnegative]
    rfl
  case h_6 =>
    obtain ⟨⟨n', rest'⟩, hread, hn⟩ := Option.map_eq_some_iff.1 h
    cases hn
    obtain ⟨hnegative, spelled, hspells, rfl⟩ := readNumeral_eq_some hread
    refine ⟨spelled, hspells, ?_⟩
    rw [hnegative]
    rfl
  all_goals
    simp at h

end Reading

section Spelling

variable {e : Option Int}

theorem IsDigits.signedInt? (h : IsDigits digits) :
    Decimal.signedInt? digits = some (Nat.ofDigitChars 10 digits 0) := by
  obtain ⟨c, tail, rfl⟩ := List.exists_cons_of_ne_nil h.ne_nil
  have hc : c.isDigit = true := h.isDigit c List.mem_cons_self
  have hall : (c :: tail).all Char.isDigit = true := List.all_eq_true.2 h.isDigit
  unfold Decimal.signedInt?
  split
  rename_i negative digits hsign
  -- A digit is no sign.
  split at hsign
  case h_3 =>
    cases hsign
    simp [hall]
  all_goals
    rename_i he
    cases he
    cases hc

theorem SpellsExponent.exponent? (h : SpellsExponent e cs) :
    Decimal.exponent? cs = some (e.getD 0) := by
  cases h with
  | absent => rfl
  | unsigned hc hd =>
    rw [Decimal.exponent?, if_pos hc, hd.signedInt?]
    rfl
  | plus hc hd =>
    have hall := List.all_eq_true.2 hd.isDigit
    rw [Decimal.exponent?, if_pos hc]
    simp [Decimal.signedInt?, hall, hd.ne_nil]
  | minus hc hd =>
    have hall := List.all_eq_true.2 hd.isDigit
    rw [Decimal.exponent?, if_pos hc]
    simp [Decimal.signedInt?, hall, hd.ne_nil]

theorem SpellsExponent.head_cases (h : SpellsExponent e cs) :
    cs = [] ∨ ∃ c tail, (c = 'e' ∨ c = 'E') ∧ cs = c :: tail := by
  cases h with
  | absent => exact .inl rfl
  | unsigned hc _ => exact .inr ⟨_, _, hc, rfl⟩
  | plus hc _ => exact .inr ⟨_, _, hc, rfl⟩
  | minus hc _ => exact .inr ⟨_, _, hc, rfl⟩

theorem SpellsExponent.noDigit (h : SpellsExponent e cs) : NoDigit cs := by
  obtain rfl | ⟨c, tail, hc, rfl⟩ := h.head_cases
  · intro d hd
    cases hd
  · intro d hd
    cases hd
    obtain rfl | rfl := hc <;> rfl

/-- However a numeral is spelled, its spelling is a text of the decimal. -/
theorem Numeral.Spells.ofText? {n : Numeral} (h : n.Spells cs) :
    Decimal.ofText? cs = some n.decimal := by
  obtain ⟨exponent, he, rfl⟩ := h.chars
  have hnone := he.noDigit
  have hrest := noDigit_fractionChars n.fraction hnone
  unfold Decimal.ofText?
  rw [List.takeWhile_append_of_pos h.whole.isDigit, List.dropWhile_append_of_pos h.whole.isDigit,
    hrest.takeWhile, hrest.dropWhile, List.append_nil, fractionChars]
  split
  · -- Without a fraction the exponent is all that is left, and it starts with no point.
    rename_i hf
    have hnil : n.fraction = [] := by simpa using hf
    obtain rfl | ⟨c, tail, hc, rfl⟩ := he.head_cases
    · simp [he.exponent?, h.whole.ne_nil, decimal, hnil]
    · obtain rfl | rfl := hc <;> simp [he.exponent?, h.whole.ne_nil, decimal, hnil]
  · have htake : (n.fraction ++ exponent).takeWhile Char.isDigit = n.fraction := by
      rw [List.takeWhile_append_of_pos h.fraction, hnone.takeWhile, List.append_nil]
    have hdrop : (n.fraction ++ exponent).dropWhile Char.isDigit = exponent := by
      rw [List.dropWhile_append_of_pos h.fraction, hnone.dropWhile]
    simp [htake, hdrop, he.exponent?, h.whole.ne_nil, decimal]

theorem IsDigits.isBlank_eq_false (h : IsDigits digits) {c : Char} (hc : c ∈ digits) :
    Text.isBlank c = false :=
  Text.isBlank_of_isDigit (h.isDigit c hc)

theorem SpellsExponent.isBlank_eq_false (h : SpellsExponent e cs) :
    ∀ c ∈ cs, Text.isBlank c = false := by
  have hmark {c : Char} (hc : c = 'e' ∨ c = 'E') : Text.isBlank c = false := by
    obtain rfl | rfl := hc <;> rfl
  cases h with
  | absent => exact List.forall_mem_nil _
  | unsigned hc hd => exact List.forall_mem_cons.2 ⟨hmark hc, fun _ => hd.isBlank_eq_false⟩
  | plus hc hd =>
    exact List.forall_mem_cons.2 ⟨hmark hc, List.forall_mem_cons.2
      ⟨rfl, fun _ => hd.isBlank_eq_false⟩⟩
  | minus hc hd =>
    exact List.forall_mem_cons.2 ⟨hmark hc, List.forall_mem_cons.2
      ⟨rfl, fun _ => hd.isBlank_eq_false⟩⟩

theorem Numeral.Spells.isBlank_eq_false {n : Numeral} (h : n.Spells cs) :
    ∀ c ∈ cs, Text.isBlank c = false := by
  obtain ⟨exponent, he, rfl⟩ := h.chars
  have hfraction : ∀ c ∈ fractionChars n.fraction, Text.isBlank c = false := by
    rw [fractionChars]
    split
    · exact List.forall_mem_nil _
    · exact List.forall_mem_cons.2 ⟨rfl, fun c hc => Text.isBlank_of_isDigit (h.fraction c hc)⟩
  exact List.forall_mem_append.2 ⟨fun _ => h.whole.isBlank_eq_false,
    List.forall_mem_append.2 ⟨hfraction, he.isBlank_eq_false⟩⟩

theorem Numeral.Spells.isBlank_signed {n : Numeral} (h : n.Spells cs) :
    ∀ c ∈ Decimal.signed n.negative cs, Text.isBlank c = false := by
  rw [Decimal.signed]
  split
  · exact List.forall_mem_cons.2 ⟨rfl, h.isBlank_eq_false⟩
  · exact h.isBlank_eq_false

theorem Numeral.Spells.exists_eq_cons {n : Numeral} (h : n.Spells cs) :
    ∃ c tail, c.isDigit = true ∧ cs = c :: tail := by
  obtain ⟨exponent, -, rfl⟩ := h.chars
  obtain ⟨c, whole, hwhole⟩ := List.exists_cons_of_ne_nil h.whole.ne_nil
  exact ⟨c, _, h.whole.isDigit c (hwhole ▸ List.mem_cons_self), by rw [hwhole]; rfl⟩

theorem spellsExponent_exponentChars (e : Option Int) :
    SpellsExponent e (Numeral.exponentChars e) := by
  cases e with
  | none => exact .absent
  | some e =>
    have hdigits := isDigits_toDigits e.natAbs
    rw [Numeral.exponentChars]
    split
    · rename_i he
      have hspells := SpellsExponent.minus (.inl rfl) hdigits
      rwa [Nat.ofDigitChars_ten_toDigits, ← Int.eq_neg_natAbs_of_nonpos he.le] at hspells
    · rename_i he
      have hspells := SpellsExponent.plus (.inl rfl) hdigits
      rwa [Nat.ofDigitChars_ten_toDigits, Int.natAbs_of_nonneg (not_lt.1 he)] at hspells

theorem Numeral.WellFormed.spells {n : Numeral} (h : n.WellFormed) : n.Spells n.chars where
  whole := ⟨h.whole_ne_nil, h.isDigit_whole⟩
  fraction := h.isDigit_fraction
  chars := ⟨_, spellsExponent_exponentChars n.exponent, rfl⟩

end Spelling

/-- The number that a numeral denotes, rounded once. -/
def Numeral.number (n : Numeral) : Binary64 :=
  let x := Binary64.ofDecimal n.decimal.coefficient n.decimal.exponent
  if n.negative then x.neg else x

section Number

open Binary64

variable {n : Numeral} {v : Json}

theorem Numeral.Spells.magnitude? (h : n.Spells cs) :
    magnitude? cs = some (ofDecimal n.decimal.coefficient n.decimal.exponent) := by
  obtain ⟨c, tail, hc, hcs⟩ := h.exists_eq_cons
  -- No word starts with a digit.
  have hword {d : Char} {word : List Char} (hd : d.isDigit = false) :
      cs.map Char.toLower ≠ d :: word := by
    rw [hcs, List.map_cons, Text.toLower_of_isDigit hc]
    intro he
    rw [(List.cons.inj he).1, hd] at hc
    cases hc
  have hnan : cs.map Char.toLower ≠ ['n', 'a', 'n'] := hword rfl
  simp only [Binary64.magnitude?, ofDecimalText?, h.ofText?, Option.map_some, if_neg hnan]
  exact if_neg (not_or.2 ⟨hword rfl, hword rfl⟩)

theorem Numeral.Spells.ofText?_signed (h : n.Spells cs) :
    Binary64.ofText? (Decimal.signed n.negative cs) = some n.number := by
  have hmagnitude := h.magnitude?
  rw [number]
  cases n.negative with
  | true =>
    change (Binary64.magnitude? cs).map neg = _
    rw [hmagnitude]
    rfl
  | false =>
    change Binary64.ofText? cs = _
    obtain ⟨c, tail, hc, rfl⟩ := h.exists_eq_cons
    unfold Binary64.ofText?
    split
    case h_3 => exact hmagnitude
    all_goals
      rename_i he
      cases he
      cases hc

theorem ofDecimal_zero_eq (k : Nat) : ofDecimal k 0 = ofInt k := by
  rw [ofDecimal_eq_round, zpow_zero, mul_one, ofInt, Int.cast_natCast]

theorem ofInt_neg {k : Nat} (hk : k ≠ 0) : ofInt (-k) = (ofInt k).neg := by
  have hne : ((k : Int) : Rat) ≠ 0 := by exact_mod_cast hk
  rw [ofInt, ofInt, neg_round hne false false, Int.cast_neg]

theorem Numeral.eq_float_of_ofFloat {x : Binary64} (h : present? (ofFloat x) = some v) :
    v = .float x := by
  rw [ofFloat] at h
  split at h <;> cases h
  rfl

theorem Numeral.ofInteger_cases (negative : Bool) (k : Nat) :
    let x := if negative then (ofDecimal k 0).neg else ofDecimal k 0
    ofInteger negative k = ofFloat x ∨
      ∃ i, ofInteger negative k = .int i ∧ Binary64.ofInt i = x := by
  rw [ofInteger]
  dsimp only
  generalize hi : (if negative then -(k : Int) else k) = i
  split
  · rename_i hrange
    refine .inr ⟨i, rfl, ?_⟩
    rw [ofDecimal_zero_eq, ← hi]
    cases negative with
    | true => exact ofInt_neg (hrange.2.2 rfl)
    | false => rfl
  · exact .inl rfl

/-- A numeral that has a value is a float of its number, or an integer that rounds to it. -/
theorem Numeral.value?_cases (h : n.value? = some v) :
    v = .float n.number ∨ ∃ i, v = .int i ∧ Binary64.ofInt i = n.number := by
  obtain ⟨negative, whole, fraction, exponent⟩ := n
  cases fraction with
  | cons c fraction => exact .inl (eq_float_of_ofFloat h)
  | nil =>
    cases exponent with
    | some e => exact .inl (eq_float_of_ofFloat h)
    | none =>
      have hv : present? (ofInteger negative (Nat.ofDigitChars 10 (whole ++ []) 0)) = some v := h
      obtain hfloat | ⟨i, hint, hi⟩ :=
        ofInteger_cases negative (Nat.ofDigitChars 10 (whole ++ []) 0)
      · rw [hfloat] at hv
        exact .inl (eq_float_of_ofFloat hv)
      · rw [hint] at hv
        cases hv
        exact .inr ⟨i, rfl, hi⟩

theorem Numeral.ofJson?_of_value? (h : n.value? = some v) :
    Metric.ofJson? v = some (.number n.number) := by
  obtain rfl | ⟨i, rfl, hi⟩ := Numeral.value?_cases h
  · rfl
  · rw [Metric.ofJson?, hi]

end Number

end Json

theorem Metric.ofText_eq_number {text : String} {x : Binary64}
    (h : Binary64.ofText? (Text.trim text.toList) = some x) : ofText text = .number x := by
  unfold ofText
  split
  · rename_i hnil
    rw [hnil] at h
    cases h
  · rw [h]

end ActivityBoard
