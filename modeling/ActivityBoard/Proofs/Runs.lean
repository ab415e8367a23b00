import Mathlib.Data.List.Induction

namespace ActivityBoard

variable {σ : Type} {P : List σ → Prop} {Q : σ → Prop} {xs front back : List σ} {x y : σ}

/-- The step `y` came after steps of which `P` holds, and `Q` holds of every step since. -/
def Since (P : List σ → Prop) (y : σ) (Q : σ → Prop) (xs : List σ) : Prop :=
  ∃ front back, xs = front ++ y :: back ∧ P front ∧ ∀ z ∈ back, Q z

theorem concat_eq_append_cons : xs ++ [x] = front ++ y :: back ↔
    xs = front ∧ x = y ∧ back = [] ∨ ∃ mid, back = mid ++ [x] ∧ xs = front ++ y :: mid := by
  rcases List.eq_nil_or_concat back with rfl | ⟨mid, z, rfl⟩
  · simp
  · rw [List.concat_eq_append]
    constructor
    · intro h
      have h' : xs ++ [x] = (front ++ y :: mid) ++ [z] := by simpa using h
      obtain ⟨hxs, hx⟩ := List.append_inj' h' rfl
      cases hx
      exact .inr ⟨mid, rfl, hxs⟩
    · intro hx
      rcases hx with ⟨_, _, h⟩ | ⟨mid', h, rfl⟩
      · simp at h
      · rw [h, List.append_assoc, List.cons_append]

theorem since_nil : ¬ Since P y Q [] := by
  intro hx
  obtain ⟨front, back, he, _⟩ := hx
  simp at he

theorem since_concat : Since P y Q (xs ++ [x]) ↔ x = y ∧ P xs ∨ Since P y Q xs ∧ Q x := by
  constructor
  · intro hx
    obtain ⟨front, back, he, hp, hq⟩ := hx
    rcases concat_eq_append_cons.1 he with ⟨rfl, hx, _⟩ | ⟨mid, rfl, hxs⟩
    · exact .inl ⟨hx, hp⟩
    · rw [List.forall_mem_append, List.forall_mem_singleton] at hq
      exact .inr ⟨⟨front, mid, hxs, hp, hq.1⟩, hq.2⟩
  · intro hx
    rcases hx with ⟨rfl, hp⟩ | ⟨⟨front, mid, rfl, hp, hmid⟩, hq⟩
    · exact ⟨xs, [], rfl, hp, by simp⟩
    · refine ⟨front, mid ++ [x], by simp, hp, ?_⟩
      rw [List.forall_mem_append, List.forall_mem_singleton]
      exact ⟨hmid, hq⟩

/-- If one kind of step brings about what others end, then it holds since such a step. -/
theorem iff_since {S : List σ → Prop} (hnil : ¬ S [])
    (hstep : ∀ xs x, S (xs ++ [x]) ↔ x = y ∧ P xs ∨ S xs ∧ Q x) (xs : List σ) :
    S xs ↔ Since P y Q xs := by
  induction xs using List.reverseRecOn with
  | nil => exact iff_of_false hnil since_nil
  | append_singleton xs x ih => rw [hstep, since_concat, ih]

end ActivityBoard
