import ActivityBoard.Metric
import ActivityBoard.Proofs.Binary64.Integers
import ActivityBoard.Proofs.Json.Roundtrip

namespace ActivityBoard

namespace Binary64

/-- Equality in which both zeros are equal and `nan` equals nothing. -/
def Equal (x y : Binary64) : Prop := x ≤ y ∧ y ≤ x

theorem equal_of_value_eq {x y : Binary64} (hx : x.isFinite = true) (hy : y.isFinite = true)
    (h : x.value = y.value) : x.Equal y := by
  cases x with
  | finite s m e hc =>
    cases y with
    | finite t n f hd => exact ⟨decide_eq_true h.le, decide_eq_true h.ge⟩
    | _ => cases hy
  | _ => cases hx

theorem lt_iff_value_lt {x y : Binary64} (hx : x.isFinite = true) (hy : y.isFinite = true) :
    x < y ↔ x.value < y.value := by
  cases x with
  | finite s m e hc =>
    cases y with
    | finite t n f hd => exact decide_eq_true_iff
    | _ => cases hy
  | _ => cases hx

theorem le_iff_value_le {x y : Binary64} (hx : x.isFinite = true) (hy : y.isFinite = true) :
    x ≤ y ↔ x.value ≤ y.value := by
  cases x with
  | finite s m e hc =>
    cases y with
    | finite t n f hd => exact decide_eq_true_iff
    | _ => cases hy
  | _ => cases hx

end Binary64

namespace Json

open Binary64

variable {low high : Int}

@[simp] theorem bounds_count32 : Bounds 0 4294967295 :=
  ⟨by decide, by decide, by decide, by decide, by decide +kernel, by decide +kernel⟩

@[simp] theorem bounds_count64 : Bounds 0 18446744073709551615 :=
  ⟨by decide, by decide, by decide, by decide, by decide +kernel, by decide +kernel⟩

@[simp] theorem bounds_int32 : Bounds (-2147483648) 2147483647 :=
  ⟨by decide, by decide, by decide, by decide, by decide +kernel, by decide +kernel⟩

@[simp] theorem bounds_int64 : Bounds (-9223372036854775808) 9223372036854775807 :=
  ⟨by decide, by decide, by decide, by decide, by decide +kernel, by decide +kernel⟩

theorem counter_int (low high n : Int) :
    counter low high (.int n) = toIntWithin low high (ofInt n) := rfl

@[simp] theorem counter_int_counter (h : Bounds low high) (v : Json) :
    counter low high (.int (counter low high v)) = counter low high v := by
  rw [counter_int]
  unfold counter
  split
  · exact h.toIntWithin_again _
  · exact h.toIntWithin_again .nan

theorem counter_mem (h : Bounds low high) (v : Json) :
    low ≤ counter low high v ∧ counter low high v ≤ high := by
  have := h.low_nonpos
  have := h.high_nonneg
  unfold counter
  split
  · unfold toIntWithin
    split <;> omega
  · omega

@[simp 1100] theorem coe_toNat_counter (h : Bounds 0 high) (v : Json) :
    ((counter 0 high v).toNat : Int) = counter 0 high v :=
  Int.toNat_of_nonneg (counter_mem h v).1

theorem real_ofFloat {x : Binary64} (hx : x.isFinite = true) : (ofFloat x).real = x := by
  rw [ofFloat, if_pos hx]
  rfl

variable {depth : Nat}

@[simp] theorem storable_counter (h : Bounds low high) (v : Json) :
    Storable depth (.int (counter low high v)) := by
  obtain ⟨hlow, hhigh⟩ := counter_mem h v
  exact .int (h.least_le.trans hlow) (hhigh.trans h.le_greatest)

end Json

namespace Metric

open Binary64

variable {depth : Nat} {m : Metric}

/-- A metric is compared with its like: numbers as numbers, texts as texts. -/
def Equal : Metric → Metric → Prop
  | .number x, .number y => x.Equal y
  | .malformed s, .malformed t => s = t
  | _, _ => False

def Finite : Metric → Prop
  | .number x => x.isFinite = true
  | .malformed _ => True

instance : DecidablePred Finite
  | .number x => inferInstanceAs (Decidable (x.isFinite = true))
  | .malformed _ => isTrue trivial

theorem eq_of_ofText_malformed {text raw : String} (h : ofText text = .malformed raw) :
    raw = text := by
  unfold ofText at h
  split at h
  · cases h
  · split at h
    · cases h
    · cases h
      rfl

theorem ofText_of_ofJson? {v : Json} {text : String} (h : ofJson? v = some (.malformed text)) :
    ofText text = .malformed text := by
  cases v with
  | str raw =>
    have htext := Option.some.inj h
    obtain rfl := eq_of_ofText_malformed htext
    exact htext
  | _ => cases h

theorem value_limit : (9000000000000000 : Binary64).value = 9000000000000000 := by
  have hlimit := value_ofInt (representable_of_lt (k := 9000000000000000) (by decide))
  exact_mod_cast hlimit.2

theorem abs_value_abs (x : Binary64) : x.abs.value = |x.value| := by
  cases x with
  | finite s m e h =>
    have hpos : (0 : ℚ) ≤ m * 2 ^ e := by positivity
    cases s with
    | false => rw [Binary64.abs, value, abs_of_nonneg hpos]
    | true => rw [Binary64.abs, value, value, abs_neg, abs_of_nonneg hpos]
  | _ => rfl

theorem abs_value_lt {x : Binary64} (hx : x.isFinite = true)
    (h : x.abs < (9000000000000000 : Binary64)) : |x.value| < 9000000000000000 := by
  have hlimit := (value_ofInt (representable_of_lt (k := 9000000000000000) (by decide))).1
  rw [← abs_value_abs, ← value_limit]
  exact (lt_iff_value_lt (isFinite_abs hx) hlimit).1 h

theorem ofMetric_cases {x : Binary64} (hx : x.isFinite = true) :
    (∃ n : ℤ, Json.ofMetric x = .int n ∧ x.value = n ∧ |n| < 9000000000000000) ∨
      Json.ofMetric x = .float x := by
  rw [Json.ofMetric]
  split
  · rename_i h
    obtain ⟨hinteger, hlimit⟩ := Bool.and_eq_true_iff.1 h
    have hden : x.value.den = 1 := by simpa [isInteger, hx] using hinteger
    have hvalue : x.value = x.value.num := (Rat.den_eq_one_iff x.value).1 hden |>.symm
    have hfloor : x.value.floor = x.value.num := by
      rw [hvalue]
      exact Rat.floor_intCast _
    refine .inl ⟨x.value.num, congrArg _ hfloor, hvalue, ?_⟩
    have hlt := abs_value_lt hx (of_decide_eq_true hlimit)
    rw [hvalue] at hlt
    exact_mod_cast hlt
  · exact .inr (if_pos hx)

theorem storable_toJson (hm : m.Finite) : Json.Storable depth m.toJson := by
  cases m with
  | number x =>
    rw [toJson]
    obtain ⟨n, hn, -, hlimit⟩ | hfloat := ofMetric_cases hm
    · rw [hn]
      rw [abs_lt] at hlimit
      refine .int ?_ ?_ <;> simp only [Json.leastInt, Json.greatestInt] <;> omega
    · rw [hfloat]
      exact .float hm
  | malformed text => exact .str text

theorem exists_equal_of_toJson (hm : m.Finite)
    (hkept : ∀ text, m = .malformed text → ofText text = .malformed text) :
    ∃ m', ofJson? m.toJson = some m' ∧ m'.Equal m := by
  cases m with
  | number x =>
    have hx : x.isFinite = true := hm
    rw [toJson]
    obtain ⟨n, hn, hvalue, -⟩ | hfloat := ofMetric_cases hx
    · obtain ⟨hfinite, hint⟩ := value_ofInt ⟨x, hx, hvalue⟩
      rw [hn]
      exact ⟨_, rfl, equal_of_value_eq hfinite hx (hint.trans hvalue.symm)⟩
    · rw [hfloat]
      exact ⟨_, rfl, equal_of_value_eq hx hx rfl⟩
  | malformed text => exact ⟨_, congrArg some (hkept text rfl), rfl⟩

end Metric

end ActivityBoard
