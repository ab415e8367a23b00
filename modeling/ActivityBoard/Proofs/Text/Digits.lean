import Mathlib.Data.List.TakeWhile
import Mathlib.Tactic.IntervalCases

namespace ActivityBoard.Digits

variable {cs : List Char} {n : Nat}

theorem ofDigitChars_zeros_append (n : Nat) (cs : List Char) :
    Nat.ofDigitChars 10 (List.replicate n '0' ++ cs) 0 = Nat.ofDigitChars 10 cs 0 := by
  rw [Nat.ofDigitChars_append, Nat.ofDigitChars_replicate_zero, Nat.mul_zero]

theorem ofDigitChars_append_zeros (cs : List Char) (n : Nat) :
    Nat.ofDigitChars 10 (cs ++ List.replicate n '0') 0 = 10 ^ n * Nat.ofDigitChars 10 cs 0 := by
  rw [Nat.ofDigitChars_append, Nat.ofDigitChars_replicate_zero]

theorem isDigit_of_mem_replicate {c : Char} (h : c ∈ List.replicate n '0') : c.isDigit = true := by
  rw [List.eq_of_mem_replicate h]
  decide

theorem isDigit_of_mem_toDigits {c : Char} (h : c ∈ Nat.toDigits 10 n) : c.isDigit = true :=
  Nat.isDigit_of_mem_toDigits (by decide) le_rfl h

theorem head?_toDigits_ne (h : n ≠ 0) : (Nat.toDigits 10 n).head? ≠ some '0' := by
  induction n using Nat.strongRecOn with
  | ind n ih =>
    by_cases hn : n < 10
    · rw [Nat.toDigits_of_lt_base hn]
      interval_cases n
      · contradiction
      all_goals decide
    · rw [Nat.toDigits_of_base_le (by decide) (not_lt.1 hn),
        List.head?_append, Option.or_of_isSome (List.isSome_head?.2 Nat.toDigits_ne_nil)]
      exact ih (n / 10) (by omega) (by omega)

theorem exists_eq_append_zeros (cs : List Char) :
    ∃ k, cs = (cs.reverse.dropWhile (· = '0')).reverse ++ List.replicate k '0' := by
  have hzeros : (cs.reverse.takeWhile (· = '0')).reverse =
      List.replicate (cs.reverse.takeWhile (· = '0')).length '0' := by
    apply List.eq_replicate_iff.2 ⟨List.length_reverse, ?_⟩
    intro c hc
    have hzero := List.mem_takeWhile_imp (List.mem_reverse.1 hc)
    exact of_decide_eq_true hzero
  refine ⟨_, Eq.trans ?_ (congrArg _ hzeros)⟩
  rw [← List.reverse_append, List.takeWhile_append_dropWhile, List.reverse_reverse]

/-- Digits as a number above zero is written. -/
structure Significant (digits : List Char) : Prop where
  ne_nil : digits ≠ []
  isDigit : ∀ c ∈ digits, c.isDigit = true
  head?_ne : digits.head? ≠ some '0'

theorem significant_toDigits (h : n ≠ 0) : Significant (Nat.toDigits 10 n) where
  ne_nil := Nat.toDigits_ne_nil
  isDigit _ := isDigit_of_mem_toDigits
  head?_ne := head?_toDigits_ne h

theorem Significant.of_append_zeros {digits : List Char} {k : Nat}
    (h : Significant (digits ++ List.replicate k '0')) : Significant digits := by
  have hne : digits ≠ [] := by
    rintro rfl
    cases k with
    | zero => exact h.ne_nil rfl
    | succ k => exact h.head?_ne rfl
  refine ⟨hne, fun c hc => h.isDigit c (List.mem_append_left _ hc), ?_⟩
  rw [← Option.or_of_isSome (List.isSome_head?.2 hne), ← List.head?_append]
  exact h.head?_ne

end ActivityBoard.Digits
