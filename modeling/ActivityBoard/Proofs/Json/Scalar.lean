import ActivityBoard.Proofs.Json.Literal
import ActivityBoard.Proofs.Json.Roundtrip

namespace ActivityBoard.Json

variable {cs rest : List Char} {v : Json} {text : String} {fuel depth : Nat}

def isNumber : Json → Bool
  | .int _ => true
  | .float _ => true
  | _ => false

theorem readLeaf_eq_ok (h : readLeaf cs = .ok (v, rest)) :
    ∃ scalar, readScalar cs = some (scalar, rest) ∧ scalar.value? = some v := by
  unfold readLeaf at h
  split at h
  · cases h
  · rename_i scalar rest' hread
    split at h
    · cases h
    · rename_i hvalue
      cases h
      exact ⟨scalar, hread, hvalue⟩

theorem readLeaf_of_readValue (h : readValue fuel depth cs = .ok (v, rest))
    (hitems : v.items? = none) (hfields : v.fields? = none) : readLeaf cs = .ok (v, rest) := by
  unfold readValue at h
  split at h
  case h_1 => cases h
  case h_2 => cases h
  case h_3 =>
    obtain ⟨items, -, hv⟩ := exists_of_bind_eq_ok h
    cases hv
    cases hitems
  case h_4 =>
    obtain ⟨fields, -, hv⟩ := exists_of_bind_eq_ok h
    cases hv
    cases hfields
  case h_5 => exact h

theorem scalarValue_of_readLeaf (h : readLeaf cs = .ok (v, rest)) :
    scalarValue fuel depth cs = .ok (v, rest) := by
  obtain ⟨scalar, hread, -⟩ := readLeaf_eq_ok h
  obtain ⟨c, hc, hopens⟩ := opens_of_readScalar hread
  cases cs with
  | nil => cases hc
  | cons c cs =>
    cases hc
    unfold scalarValue
    split
    case h_3 => exact h
    all_goals
      rename_i he
      cases he
      exact absurd (by decide) hopens

theorem number_of_readLeaf (h : readLeaf cs = .ok (v, rest)) (hv : v.isNumber = true) :
    ∃ n : Numeral, n.value? = some v ∧
      ∃ spelled, n.Spells spelled ∧ cs = Decimal.signed n.negative spelled ++ rest := by
  obtain ⟨scalar, hread, hvalue⟩ := readLeaf_eq_ok h
  cases scalar with
  | number n => exact ⟨n, hvalue, readScalar_eq_some hread⟩
  | str pieces =>
    obtain ⟨s, -, rfl⟩ := Option.map_eq_some_iff.1 hvalue
    cases hv
  | _ =>
    cases hvalue
    cases hv

theorem decodeText_of_ofText? (h : ofText? text = some v) : decodeText readValue text = .ok v := by
  rw [ofText?] at h
  cases hd : decodeText readValue text with
  | error e =>
    rw [hd] at h
    cases h
  | ok w =>
    rw [hd] at h
    cases h
    rfl

/-- Of a text only what stands between its blanks is read. -/
theorem exists_of_decodeText {α : Type} {read : Reader α} {a : α}
    (h : decodeText read text = .ok a) :
    ∃ lead cs tail, Blank lead ∧ Blank tail ∧ text.toList = lead ++ cs ∧
      read text.toList.length depthLimit cs = .ok (a, tail) := by
  obtain ⟨⟨a', tail⟩, hread, hend⟩ := exists_of_bind_eq_ok h
  dsimp only at hend
  split at hend
  · rename_i htail
    cases hend
    refine ⟨_, _, tail, ?_, ?_, List.takeWhile_append_dropWhile.symm, hread⟩
    · exact fun c hc => List.mem_takeWhile_imp hc
    · exact List.dropWhile_eq_nil_iff.1 (List.isEmpty_iff.1 htail)
  · cases hend

/-- A reader that goes as far as another one reads the same texts. -/
theorem decodeText_congr {α β : Type} {read : Reader α} {other : Reader β} {a : α} {b : β}
    (h : decodeText read text = .ok a)
    (hother : ∀ fuel depth cs rest, read fuel depth cs = .ok (a, rest) →
      other fuel depth cs = .ok (b, rest)) :
    decodeText other text = .ok b := by
  obtain ⟨⟨a', rest⟩, hread, hend⟩ := exists_of_bind_eq_ok h
  dsimp only at hend
  split at hend
  · rename_i hrest
    cases hend
    rw [decodeText]
    dsimp only
    rw [hother _ _ _ _ hread]
    exact if_pos hrest
  · cases hend

theorem text_isBlank_of_isBlank {c : Char} (h : isBlank c = true) : Text.isBlank c = true := by
  obtain rfl | rfl | rfl | rfl := eq_of_isBlank h <;> rfl

theorem items?_of_isNumber (h : v.isNumber = true) : v.items? = none ∧ v.fields? = none := by
  cases v with
  | int n => exact ⟨rfl, rfl⟩
  | float x => exact ⟨rfl, rfl⟩
  | _ => cases h

theorem numeral_of_ofText? (h : ofText? text = some v) (hv : v.isNumber = true) :
    ∃ n : Numeral, n.value? = some v ∧ ∃ spelled, n.Spells spelled ∧
      ∃ lead tail, Blank lead ∧ Blank tail ∧
        text.toList = lead ++ (Decimal.signed n.negative spelled ++ tail) := by
  obtain ⟨lead, cs, tail, hlead, htail, htext, hread⟩ :=
    exists_of_decodeText (decodeText_of_ofText? h)
  obtain ⟨hitems, hfields⟩ := items?_of_isNumber hv
  obtain ⟨n, hn, spelled, hspells, rfl⟩ :=
    number_of_readLeaf (readLeaf_of_readValue hread hitems hfields) hv
  exact ⟨n, hn, spelled, hspells, lead, tail, hlead, htail, htext⟩

end ActivityBoard.Json
