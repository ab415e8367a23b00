import ActivityBoard.Display.Units
import ActivityBoard.Proofs.Binary64.Monotone
import ActivityBoard.Proofs.Json.Numeral
import ActivityBoard.Proofs.Metric

/-!
Times as they read: two counts with a mark behind each. What is shown is near the milliseconds of
the clock ticks, by how much depends on the unit, and more ticks are never shown as less time.
-/
namespace ActivityBoard.Display

open Json Binary64

/-- The two counts of a time: seconds and hundredths, minutes and seconds, hours and minutes, or
days and hours. -/
inductive Form where
  | seconds
  | minutes
  | hours
  | days
deriving DecidableEq

namespace Form

def marks : Form → Char × Char
  | .seconds => ('.', 's')
  | .minutes => ('m', 's')
  | .hours => ('h', 'm')
  | .days => ('d', 'h')

/-- How many milliseconds the second count counts. -/
def unit : Form → ℕ
  | .seconds => 10
  | .minutes => 1000
  | .hours => 60000
  | .days => 3600000

/-- How many of the second count make one of the first. -/
def base : Form → ℕ
  | .seconds => 100
  | .minutes => 60
  | .hours => 60
  | .days => 24

def ofMarks? (first second : Char) : Option Form :=
  [Form.seconds, .minutes, .hours, .days].find? fun form => form.marks = (first, second)

theorem ofMarks?_marks (form : Form) : ofMarks? form.marks.1 form.marks.2 = some form := by
  cases form <;> decide

/-- The time shown is that near to `ms`: hundredths are cut off, and each rounding to a greater unit
adds half of it. -/
def IsNear (form : Form) (ms shown : ℤ) : Prop :=
  match form with
  | .seconds => ms - 10 < shown ∧ shown ≤ ms
  | .minutes => |shown - ms| ≤ 500
  | .hours => |shown - ms| ≤ 30500
  | .days => |shown - ms| ≤ 1830500

end Form

structure Duration where
  form : Form
  first : ℕ
  second : ℕ

namespace Duration

def millis (d : Duration) : ℕ := (d.first * d.form.base + d.second) * d.form.unit

def text (d : Duration) : String :=
  pair d.first (String.singleton d.form.marks.1) d.second (String.singleton d.form.marks.2)

def ofText? (text : String) : Option Duration :=
  match readDigits text.toList with
  | some (first, mark :: rest) =>
    match readDigits rest with
    | some (second, [last]) => (Form.ofMarks? mark last).map fun form =>
      ⟨form, Nat.ofDigitChars 10 first 0, Nat.ofDigitChars 10 second 0⟩
    | _ => none
  | _ => none

theorem readDigits_repr (n : ℕ) {rest : List Char} (hrest : NoDigit rest) :
    readDigits ((Int.repr n).toList ++ rest) = some (Nat.toDigits 10 n, rest) := by
  have hrepr : (Int.repr n).toList = Nat.toDigits 10 n := String.toList_ofList
  rw [hrepr]
  exact readDigits_append Nat.toDigits_ne_nil (fun _ => Digits.isDigit_of_mem_toDigits) hrest

theorem ofText?_text (d : Duration) : ofText? d.text = some d := by
  obtain ⟨form, first, second⟩ := d
  have hfirst (rest : List Char) : NoDigit (form.marks.1 :: rest) := by
    intro c hc
    cases hc
    cases form <;> decide
  have hsecond : NoDigit [form.marks.2] := by
    intro c hc
    cases hc
    cases form <;> decide
  have htext : (text ⟨form, first, second⟩).toList = (Int.repr first).toList ++
      (form.marks.1 :: ((Int.repr second).toList ++ [form.marks.2])) := by
    simp [text, pair]
  rw [ofText?, htext, readDigits_repr first (hfirst _)]
  dsimp only
  rw [readDigits_repr second hsecond]
  dsimp only
  rw [Form.ofMarks?_marks, Option.map_some, Nat.ofDigitChars_ten_toDigits,
    Nat.ofDigitChars_ten_toDigits]

example : ofText? "1h48m" = some ⟨.hours, 1, 48⟩ := by rfl

def ofMillis (ms : ℕ) : Duration :=
  if ms < 100000 then ⟨.seconds, ms / 1000, ms % 1000 / 10⟩
  else if (ms + 500) / 1000 < 6000 then
    ⟨.minutes, (ms + 500) / 1000 / 60, (ms + 500) / 1000 % 60⟩
  else if ((ms + 500) / 1000 + 30) / 60 < 6000 then
    ⟨.hours, ((ms + 500) / 1000 + 30) / 60 / 60, ((ms + 500) / 1000 + 30) / 60 % 60⟩
  else
    ⟨.days, (((ms + 500) / 1000 + 30) / 60 + 30) / 60 / 24,
      (((ms + 500) / 1000 + 30) / 60 + 30) / 60 % 24⟩

theorem second_ofMillis_lt (ms : ℕ) : (ofMillis ms).second < (ofMillis ms).form.base := by
  unfold ofMillis
  split
  · change ms % 1000 / 10 < 100
    omega
  split
  · exact Nat.mod_lt _ (by decide)
  split
  · exact Nat.mod_lt _ (by decide)
  · exact Nat.mod_lt _ (by decide)

theorem millis_ofMillis (ms : ℕ) : (ofMillis ms).millis =
    if ms < 100000 then ms / 10 * 10
    else if (ms + 500) / 1000 < 6000 then (ms + 500) / 1000 * 1000
    else if ((ms + 500) / 1000 + 30) / 60 < 6000 then ((ms + 500) / 1000 + 30) / 60 * 60000
    else (((ms + 500) / 1000 + 30) / 60 + 30) / 60 * 3600000 := by
  unfold ofMillis
  split
  · change (ms / 1000 * 100 + ms % 1000 / 10) * 10 = _
    omega
  split
  · exact congrArg (· * 1000) (Nat.div_add_mod' _ 60)
  split
  · exact congrArg (· * 60000) (Nat.div_add_mod' _ 60)
  · exact congrArg (· * 3600000) (Nat.div_add_mod' _ 24)

theorem isNear_ofMillis (ms : ℕ) : (ofMillis ms).form.IsNear ms (ofMillis ms).millis := by
  rw [millis_ofMillis]
  unfold ofMillis
  split
  · change (ms : ℤ) - 10 < _ ∧ _ ≤ (ms : ℤ)
    omega
  split
  · change |_| ≤ _
    rw [abs_le]
    omega
  split
  · change |_| ≤ _
    rw [abs_le]
    omega
  · change |_| ≤ _
    rw [abs_le]
    omega

/-- Each unit is rounded in the order of the one below it, and takes over at a hundred of it. -/
theorem millis_ofMillis_mono {a b : ℕ} (h : a ≤ b) :
    (ofMillis a).millis ≤ (ofMillis b).millis := by
  have hsecs : (a + 500) / 1000 ≤ (b + 500) / 1000 := Nat.div_le_div_right (by omega)
  have hmins : ((a + 500) / 1000 + 30) / 60 ≤ ((b + 500) / 1000 + 30) / 60 :=
    Nat.div_le_div_right (by omega)
  have hhours : (((a + 500) / 1000 + 30) / 60 + 30) / 60 ≤
      (((b + 500) / 1000 + 30) / 60 + 30) / 60 := Nat.div_le_div_right (by omega)
  rw [millis_ofMillis, millis_ofMillis]
  split_ifs <;> omega

end Duration

section Ticks

variable {ticks t₁ t₂ : Binary64} {hertz : ℕ}

theorem elapsed_of_millis {ms : ℕ} (h : millis ticks hertz = ms) :
    elapsed ticks hertz = (Duration.ofMillis ms).text := by
  have hsecs : ((ms : ℤ) + 500) / 1000 = ((ms + 500) / 1000 : ℕ) := by push_cast; rfl
  have hmins : (((ms + 500) / 1000 : ℕ) + 30 : ℤ) / 60 = (((ms + 500) / 1000 + 30) / 60 : ℕ) := by
    push_cast; rfl
  have hhours : ((((ms + 500) / 1000 + 30) / 60 : ℕ) + 30 : ℤ) / 60 =
      ((((ms + 500) / 1000 + 30) / 60 + 30) / 60 : ℕ) := by
    push_cast; rfl
  rw [elapsed, h]
  dsimp only
  rw [hsecs, hmins, hhours]
  unfold Duration.ofMillis
  generalize (ms + 500) / 1000 = secs
  generalize (secs + 30) / 60 = mins
  generalize (mins + 30) / 60 = hours
  norm_cast
  by_cases hms : ms < 100000
  · rw [if_pos (by omega), if_pos hms]
    rfl
  · rw [if_neg (by omega), if_neg hms]
    split
    · rfl
    split <;> rfl

/-- What the ticks are in milliseconds fits into 64 bits, and so do the roundings. -/
def Fits (ticks : Binary64) (hertz : ℕ) : Prop := millis ticks hertz + 500 ≤ 9223372036854775807

def milliseconds (ticks : Binary64) (hertz : ℕ) : Binary64 :=
  ticks * 1000 / Binary64.ofNat (max hertz 1)

theorem millis_eq (ticks : Binary64) (hertz : ℕ) : millis ticks hertz =
    (milliseconds ticks hertz).toIntWithin (-9223372036854775808) 9223372036854775807 := rfl

theorem finite_hertz (h : hertz < 2 ^ 64) :
    (Binary64.ofNat (max hertz 1)).isFinite = true ∧ 0 < (Binary64.ofNat (max hertz 1)).value := by
  have hbetween := between_ofNat (n := max hertz 1) (k := 64) (by omega) (by omega) (by decide)
  exact ⟨hbetween.finite, hbetween.pos⟩

theorem value_thousand : (1000 : Binary64).value = 1000 := by decide +kernel

theorem zero_le_milliseconds (hh : hertz < 2 ^ 64) (h0 : 0 ≤ ticks) :
    0 ≤ milliseconds ticks hertz :=
  zero_le_div (zero_le_mul h0 (by rw [value_thousand]; norm_num)) (finite_hertz hh).2

theorem finite_milliseconds (hh : hertz < 2 ^ 64) (h0 : 0 ≤ ticks) (hf : Fits ticks hertz) :
    (milliseconds ticks hertz).isFinite = true ∧ 0 ≤ (milliseconds ticks hertz).value := by
  obtain hinfinity | hfinite := zero_le_iff.1 (zero_le_milliseconds hh h0)
  · rw [Fits, millis_eq, hinfinity] at hf
    exact absurd hf (by decide)
  · exact hfinite

theorem exists_millis (hh : hertz < 2 ^ 64) (h0 : 0 ≤ ticks) (hf : Fits ticks hertz) :
    ∃ ms : ℕ, millis ticks hertz = ms ∧ integerPart (milliseconds ticks hertz).value = ms := by
  obtain ⟨hfinite, hvalue⟩ := finite_milliseconds hh h0 hf
  have hpart := integerPart_nonneg hvalue
  have hfits : max (-9223372036854775808) (min 9223372036854775807
      (integerPart (milliseconds ticks hertz).value)) + 500 ≤ 9223372036854775807 := by
    rw [← toIntWithin_of_finite hfinite]
    exact hf
  refine ⟨(integerPart (milliseconds ticks hertz).value).toNat, ?_, by omega⟩
  rw [millis_eq, toIntWithin_of_finite hfinite]
  omega

theorem millis_mono (hh : hertz < 2 ^ 64) (h0 : 0 ≤ t₁) (h : t₁ ≤ t₂) (hf₁ : Fits t₁ hertz)
    (hf₂ : Fits t₂ hertz) :
    integerPart (milliseconds t₁ hertz).value ≤ integerPart (milliseconds t₂ hertz).value := by
  have hhertz := finite_hertz hh
  have hthousand : (1000 : Binary64).isFinite = true := by decide +kernel
  obtain ⟨hq₁, hv₁⟩ := finite_milliseconds hh h0 hf₁
  obtain ⟨hq₂, -⟩ := finite_milliseconds hh (zero_le_trans h0 h) hf₂
  -- A product or a quotient of what is not finite would not be finite either.
  have hp₁ := isFinite_of_div hhertz.1 hq₁
  have hp₂ := isFinite_of_div hhertz.1 hq₂
  have ht₁ := isFinite_of_mul hthousand hp₁
  have ht₂ := isFinite_of_mul hthousand hp₂
  have hle := (le_iff_value_le ht₁ ht₂).1 h
  have hproduct := value_mul_mono ht₁ ht₂ hthousand (by rw [value_thousand]; norm_num) hp₁ hp₂ hle
  exact integerPart_mono hv₁ (value_div_mono hp₁ hp₂ hhertz.2 hq₁ hq₂ hproduct)

theorem exists_elapsed (hh : hertz < 2 ^ 64) (h0 : 0 ≤ ticks) (hf : Fits ticks hertz) :
    ∃ ms : ℕ, integerPart (milliseconds ticks hertz).value = ms ∧
      Duration.ofText? (elapsed ticks hertz) = some (Duration.ofMillis ms) := by
  obtain ⟨ms, hms, hpart⟩ := exists_millis hh h0 hf
  refine ⟨ms, hpart, ?_⟩
  rw [elapsed_of_millis hms, Duration.ofText?_text]

/-- What is shown of ticks that fit, `hertz` of them a second, is a time whose second count is less
than one of the first and which is near the milliseconds; and more ticks are shown as no less
time. -/
theorem elapsed_near_and_ascending (hh : hertz < 2 ^ 64) :
    (∀ ticks, 0 ≤ ticks → Fits ticks hertz →
      ∃ d, Duration.ofText? (elapsed ticks hertz) = some d ∧ d.second < d.form.base ∧
        d.form.IsNear (integerPart (milliseconds ticks hertz).value) d.millis) ∧
    ∀ t₁ t₂, 0 ≤ t₁ → t₁ ≤ t₂ → Fits t₁ hertz → Fits t₂ hertz → ∀ d₁ d₂,
      Duration.ofText? (elapsed t₁ hertz) = some d₁ →
        Duration.ofText? (elapsed t₂ hertz) = some d₂ → d₁.millis ≤ d₂.millis := by
  constructor
  · intro ticks h0 hf
    obtain ⟨ms, hms, htext⟩ := exists_elapsed hh h0 hf
    refine ⟨_, htext, Duration.second_ofMillis_lt ms, ?_⟩
    rw [hms]
    exact Duration.isNear_ofMillis ms
  · intro t₁ t₂ h0 hle hf₁ hf₂ d₁ d₂ hd₁ hd₂
    obtain ⟨a, ha, htext₁⟩ := exists_elapsed hh h0 hf₁
    obtain ⟨b, hb, htext₂⟩ := exists_elapsed hh (zero_le_trans h0 hle) hf₂
    have hab := millis_mono hh h0 hle hf₁ hf₂
    rw [ha, hb] at hab
    rw [htext₁] at hd₁
    rw [htext₂] at hd₂
    cases hd₁
    cases hd₂
    exact Duration.millis_ofMillis_mono (by exact_mod_cast hab)

theorem elapsed_near_and_ascending_switching :
    (100 < 2 ^ 64 ∧ 0 ≤ (599950 : Binary64) ∧ (599950 : Binary64) ≤ 600050 ∧ Fits 599950 100 ∧
      Fits 600050 100) ∧
    (∃ d, Duration.ofText? (elapsed 599950 100) = some d ∧ d.second < d.form.base ∧
      d.form.IsNear (integerPart (milliseconds 599950 100).value) d.millis) ∧
    ∀ d₁ d₂, Duration.ofText? (elapsed 599950 100) = some d₁ →
      Duration.ofText? (elapsed 600050 100) = some d₂ → d₁.millis ≤ d₂.millis := by
  have h0 : 0 ≤ (599950 : Binary64) := by decide +kernel
  have hle : (599950 : Binary64) ≤ 600050 := by decide +kernel
  have hf₁ : Fits 599950 100 := by unfold Fits; decide +kernel
  have hf₂ : Fits 600050 100 := by unfold Fits; decide +kernel
  have hh : 100 < 2 ^ 64 := by norm_num
  obtain ⟨hnear, hascending⟩ := elapsed_near_and_ascending hh
  exact ⟨⟨hh, h0, hle, hf₁, hf₂⟩, hnear _ h0 hf₁, hascending _ _ h0 hle hf₁ hf₂⟩

end Ticks

end ActivityBoard.Display
