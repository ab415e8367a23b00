import ActivityBoard.Display.Annotate
import ActivityBoard.Proofs.Display.Elapsed
import ActivityBoard.Proofs.Json.Literal

namespace ActivityBoard.Display

open Json Binary64

/-- A text of this form, with a minus sign before its first count, its second, or both. -/
def Form.Writes (form : Form) (first second : Bool) (text : String) : Prop :=
  ∃ a b, IsDigits a ∧ IsDigits b ∧ text.toList =
    Decimal.signed first a ++ form.marks.1 :: (Decimal.signed second b ++ [form.marks.2])

/-- A text of one of the forms that has no minus sign, or one in front. -/
def IsTime (text : String) : Prop := ∃ (form : Form) (first : Bool), form.Writes first false text

section Signs

variable {form : Form} {first second : Bool} {text : String} {digits : List Char}

theorem minus_not_mem_digits (h : IsDigits digits) : '-' ∉ digits := by
  intro hmem
  exact absurd (h.isDigit '-' hmem) (by decide)

theorem minus_not_mem_tail_signed (h : IsDigits digits) (first : Bool) :
    '-' ∉ (Decimal.signed first digits).tail := by
  have hdigits := minus_not_mem_digits h
  cases first with
  | false => exact fun hmem => hdigits (List.mem_of_mem_tail hmem)
  | true => exact hdigits

theorem signed_ne_nil (h : IsDigits digits) (first : Bool) : Decimal.signed first digits ≠ [] := by
  cases first with
  | false => exact h.ne_nil
  | true => exact List.cons_ne_nil _ _

theorem Form.minus_ne_marks (form : Form) : '-' ≠ form.marks.1 ∧ '-' ≠ form.marks.2 := by
  cases form <;> decide

theorem Form.Writes.minus_mem_tail_iff (h : form.Writes first second text) :
    '-' ∈ text.toList.tail ↔ second = true := by
  obtain ⟨a, b, ha, hb, htext⟩ := h
  have hmarks := form.minus_ne_marks
  rw [htext, List.tail_append_of_ne_nil (signed_ne_nil ha first), List.mem_append,
    or_iff_right (minus_not_mem_tail_signed ha first)]
  cases second with
  | false => simp [Decimal.signed, minus_not_mem_digits hb, hmarks]
  | true => simp [Decimal.signed]

/-- The sign of the second count is all that can be wrong with a text of two counts. -/
theorem Form.Writes.isTime_iff (h : form.Writes first second text) :
    IsTime text ↔ second = false := by
  constructor
  · rintro ⟨form', first', htime⟩
    rw [← Bool.not_eq_true, ← h.minus_mem_tail_iff, htime.minus_mem_tail_iff]
    exact Bool.false_ne_true
  · rintro rfl
    exact ⟨form, first, h⟩

end Signs

theorem toList_repr (n : ℤ) :
    (Int.repr n).toList = Decimal.signed (n < 0) (Nat.toDigits 10 n.natAbs) := by
  rw [← Numeral.chars_ofInt]
  simp [Numeral.ofInt, Numeral.chars, Numeral.fractionChars, Numeral.exponentChars]

theorem Form.writes_pair (form : Form) (a b : ℤ) : form.Writes (a < 0) (b < 0)
    (pair a (String.singleton form.marks.1) b (String.singleton form.marks.2)) := by
  refine ⟨_, _, isDigits_toDigits a.natAbs, isDigits_toDigits b.natAbs, ?_⟩
  simp [pair, toList_repr]

namespace Duration

theorem writes_text (d : Duration) : d.form.Writes false false d.text := by
  have h := d.form.writes_pair d.first d.second
  rw [decide_eq_false (by omega), decide_eq_false (by omega)] at h
  exact h

theorem form_ofMillis_eq_seconds_iff (ms : ℕ) : (ofMillis ms).form = .seconds ↔ ms < 100000 := by
  unfold ofMillis
  split
  · rename_i hms
    exact iff_of_true rfl hms
  · rename_i hms
    refine iff_of_false ?_ hms
    split
    · exact Form.noConfusion
    split <;> exact Form.noConfusion

end Duration

theorem tdiv_neg_iff (n : ℤ) {k : ℤ} (hk : 0 < k) : n.tdiv k < 0 ↔ n ≤ -k := by
  obtain ⟨j, rfl⟩ := Int.eq_ofNat_of_zero_le hk.le
  obtain ⟨m, rfl | rfl⟩ := Int.eq_nat_or_neg n
  · have hquotient : 0 ≤ (m : ℤ).tdiv j := Int.tdiv_nonneg (by omega) (by omega)
    omega
  · have hquotient : 0 < m / j ↔ j ≤ m := Nat.div_pos_iff.trans (and_iff_right (by omega))
    rw [Int.neg_tdiv, ← Int.ofNat_tdiv]
    omega

section Ticks

variable {ticks : Binary64} {hertz : ℕ}

theorem writes_elapsed_of_neg (h : millis ticks hertz < 0) :
    Form.seconds.Writes (millis ticks hertz ≤ -1000) ((millis ticks hertz).tmod 1000 ≤ -10)
      (elapsed ticks hertz) := by
  have hwrites := Form.seconds.writes_pair ((millis ticks hertz).tdiv 1000)
    (((millis ticks hertz).tmod 1000).tdiv 10)
  have hfirst := tdiv_neg_iff (millis ticks hertz) (show 0 < 1000 by decide)
  have hsecond := tdiv_neg_iff ((millis ticks hertz).tmod 1000) (show 0 < 10 by decide)
  rw [decide_eq_decide.2 hfirst, decide_eq_decide.2 hsecond] at hwrites
  rw [elapsed, if_pos (by omega)]
  exact hwrites

theorem writes_elapsed_of_nonneg {ms : ℕ} (h : millis ticks hertz = ms) :
    (Duration.ofMillis ms).form.Writes (millis ticks hertz ≤ -1000)
      ((millis ticks hertz).tmod 1000 ≤ -10) (elapsed ticks hertz) := by
  have hrest : 0 ≤ (ms : ℤ).tmod 1000 := Int.tmod_nonneg _ (by omega)
  rw [elapsed_of_millis h, h, decide_eq_false (by omega), decide_eq_false (by omega)]
  exact Duration.writes_text _

theorem exists_writes_elapsed (ticks : Binary64) (hertz : ℕ) :
    ∃ form : Form, (form = .seconds ↔ millis ticks hertz < 100000) ∧
      form.Writes (millis ticks hertz ≤ -1000) ((millis ticks hertz).tmod 1000 ≤ -10)
        (elapsed ticks hertz) := by
  by_cases hneg : millis ticks hertz < 0
  · exact ⟨.seconds, iff_of_true rfl (by omega), writes_elapsed_of_neg hneg⟩
  · obtain ⟨ms, hms⟩ := Int.eq_ofNat_of_zero_le (not_lt.1 hneg)
    refine ⟨(Duration.ofMillis ms).form, ?_, writes_elapsed_of_nonneg hms⟩
    rw [Duration.form_ofMillis_eq_seconds_iff, hms]
    omega

/-- Ticks are shown in one of the forms, in seconds below a hundred of them, with a minus sign in
front from a whole second below zero on, and one in the middle if there are hundredths below zero.
The text is a time unless there are. -/
theorem elapsed_signs (ticks : Binary64) (hertz : ℕ) :
    (∃ form : Form, (form = .seconds ↔ millis ticks hertz < 100000) ∧
      form.Writes (millis ticks hertz ≤ -1000) ((millis ticks hertz).tmod 1000 ≤ -10)
        (elapsed ticks hertz)) ∧
    (IsTime (elapsed ticks hertz) ↔ -10 < (millis ticks hertz).tmod 1000) := by
  obtain ⟨form, hform, hwrites⟩ := exists_writes_elapsed ticks hertz
  refine ⟨⟨form, hform, hwrites⟩, hwrites.isTime_iff.trans ?_⟩
  rw [decide_eq_false_iff_not, not_le]

theorem shrunken_delay_malformed :
    Fits (-150) 100 ∧ elapsed (-150) 100 = "-1.-50s" ∧ ¬IsTime (elapsed (-150) 100) ∧
      (annotate ⟨450, 100⟩ (.obj [("rundelay", .int (-150))])).1.compact =
        "\x7b\"rundelay\":\"-1.-50s\"\x7d" := by
  have hfits : Fits (-150) 100 := by unfold Fits; decide +kernel
  have hshown : elapsed (-150) 100 = "-1.-50s" := by decide +kernel
  refine ⟨hfits, hshown, ?_, by decide +kernel⟩
  rintro ⟨form, first, htime⟩
  rw [hshown] at htime
  exact absurd (htime.minus_mem_tail_iff.1 (by decide)) Bool.false_ne_true

end Ticks

end ActivityBoard.Display
