import ActivityBoard.Binary64.Shortest
import ActivityBoard.Proofs.Binary64.Rounding

namespace ActivityBoard

namespace Decimal

def value (d : Decimal) : ℚ := d.coefficient * 10 ^ d.exponent

theorem value_ofBinary (m : ℕ) (e : ℤ) : (ofBinary m e).value = m * 2 ^ e := by
  rw [ofBinary]
  split
  · rename_i he
    obtain ⟨n, rfl⟩ := Int.eq_ofNat_of_zero_le he
    simp [value]
  · rename_i he
    obtain ⟨n, rfl⟩ : ∃ n : ℕ, e = -n := ⟨(-e).toNat, by omega⟩
    have hpow : (5 : ℚ) ^ n * (10 ^ n)⁻¹ = (2 ^ n)⁻¹ := by
      rw [← div_eq_mul_inv, ← div_pow, ← inv_pow]
      norm_num
    simp [value, mul_assoc, hpow]

end Decimal

namespace Binary64

variable {x : Binary64} {c d : Decimal}

theorem isFinite_abs (hx : x.isFinite = true) : x.abs.isFinite = true := by
  cases x with
  | finite s m e h => rfl
  | _ => cases hx

theorem neg_abs (h : x.negative = true) : x.abs.neg = x := by
  cases x with
  | nan => rfl
  | infinity s =>
    cases h
    rfl
  | finite s m e hc =>
    cases h
    rfl

theorem abs_of_not_negative (h : x.negative = false) : x.abs = x := by
  cases x with
  | nan => rfl
  | infinity s =>
    cases h
    rfl
  | finite s m e hc =>
    cases h
    rfl

theorem round_abs_value (hx : x.isFinite = true) : round x.abs.value false = x.abs := by
  cases x with
  | finite s m e h => exact round_value rfl
  | _ => cases hx

theorem readsBack_iff : x.readsBack d = true ↔ ofDecimal d.coefficient d.exponent = x.abs :=
  decide_eq_true_iff

/-- Only the value of a decimal counts when it is read. -/
theorem readsBack_congr (h : c.value = d.value) (hd : x.readsBack d = true) :
    x.readsBack c = true := by
  rw [readsBack_iff, ofDecimal_eq_round] at hd ⊢
  rw [← hd]
  exact congrArg (round · false) h

theorem readsBack_of_value (hx : x.isFinite = true) (h : d.value = x.abs.value) :
    x.readsBack d = true := by
  rw [readsBack_iff, ofDecimal_eq_round, ← round_abs_value hx]
  exact congrArg (round · false) h

theorem findSome?_find? {α β : Type} {p : β → Bool} {f : α → List β} {l : List α} {b : β}
    (h : l.findSome? (fun a => (f a).find? p) = some b) : p b = true := by
  obtain ⟨a, -, ha⟩ := List.exists_of_findSome?_eq_some h
  exact List.find?_some ha

theorem readsBack_shortest (tie : Decimal.Tie) (hx : x.isFinite = true) :
    x.readsBack (x.shortest tie) = true := by
  cases x with
  | finite s m e h =>
    cases m with
    | zero =>
      apply readsBack_of_value rfl
      simp [shortest, Decimal.value, abs, value]
    | succ m =>
      rw [shortest]
      · generalize hfew : List.findSome? _ _ = fewest
        cases fewest with
        | some d => exact findSome?_find? hfew
        | none =>
          apply readsBack_of_value rfl
          exact Decimal.value_ofBinary (m + 1) e
      · exact Nat.succ_ne_zero m
  | _ => cases hx

end Binary64

end ActivityBoard
