import ActivityBoard.Proofs.Display.Positions
import ActivityBoard.Proofs.Text.Digits
import Mathlib.Data.List.Basic

/-!
When the text of a position tells it from all others. A key may itself look like a way through the
document, so what is told apart depends on the keys at the top.
-/
namespace ActivityBoard.Display

def Path.entry (list : String) (index : Nat) (key : String) : Path :=
  [.field list, .item index, .field key]

def PlainKey (key : String) : Prop := key ≠ "" ∧ ∀ c ∈ key.toList, c ≠ '.' ∧ c ≠ '[' ∧ c ≠ ']'

instance : DecidablePred PlainKey := fun key =>
  decidable_of_iff (key ≠ "" ∧ key.toList.all fun c => c != '.' && c != '[' && c != ']')
    (by simp [PlainKey, and_assoc])

/-- A key at the top of a document that cannot be taken for the way into a list. -/
def ApartFrom (list key : String) : Prop :=
  key ≠ "" ∧ ¬ list.toList ++ ['['] <+: key.toList

instance (list : String) : DecidablePred (ApartFrom list) := fun key =>
  inferInstanceAs (Decidable (key ≠ "" ∧ ¬ list.toList ++ ['['] <+: key.toList))

section Texts

variable {list key k : String} {i : Nat} {path : Path}

theorem Path.toList_rest_cons (step : Step) (path : Path) :
    (Path.rest (step :: path)).toList = step.text.toList ++ (Path.rest path).toList :=
  String.toList_append

theorem toList_text_field (key : String) : (Step.field key).text.toList = '.' :: key.toList := by
  rw [Step.text, String.toList_append]
  rfl

theorem toList_text_item (index : Nat) :
    (Step.item index).text.toList = '[' :: (Nat.toDigits 10 index ++ [']']) := by
  rw [Step.text, String.toList_append, String.toList_append]
  simp [Nat.repr]

theorem Path.head_rest {c : Char} {cs : List Char} (h : path.rest.toList = c :: cs) :
    c = '.' ∨ c = '[' := by
  cases path with
  | nil => cases h
  | cons step path =>
    rw [Path.toList_rest_cons] at h
    cases step with
    | field key =>
      rw [toList_text_field] at h
      cases h
      exact .inl rfl
    | item index =>
      rw [toList_text_item] at h
      cases h
      exact .inr rfl

theorem Path.eq_nil_of_rest (h : path.rest.toList = []) : path = [] := by
  cases path with
  | nil => rfl
  | cons step path =>
    rw [Path.toList_rest_cons] at h
    cases step with
    | field key =>
      rw [toList_text_field] at h
      cases h
    | item index =>
      rw [toList_text_item] at h
      cases h

theorem Path.text_entry (hlist : list ≠ "") (index : Nat) (key : String) :
    pathText (Path.entry list index key) = list ++ "[" ++ Nat.repr index ++ "]." ++ key := by
  rw [pathText_eq_dotted, Path.entry, Path.dotted, if_neg hlist]
  apply String.toList_inj.1
  simp [Path.rest, Step.text]

theorem Path.toList_dotted (hk : k ≠ "") (path : Path) :
    (Path.dotted (.field k :: path)).toList = k.toList ++ path.rest.toList := by
  rw [Path.dotted, if_neg hk, String.toList_append]

theorem key_eq_of_text (hlist : PlainKey list) (hk : ApartFrom list k) {cs : List Char}
    (h : k.toList ++ path.rest.toList = list.toList ++ '[' :: cs) :
    k = list ∧ path.rest.toList = '[' :: cs := by
  obtain ⟨back, hback, hrest⟩ | ⟨back, hback, hrest⟩ := List.append_eq_append_iff.1 h
  · cases back with
    | nil => exact ⟨String.toList_inj.1 ((List.append_nil _).symm.trans hback.symm), hrest⟩
    | cons c back =>
      -- The rest would begin within the plain key.
      have hplain := hlist.2 c (by simp [hback])
      obtain rfl | rfl := Path.head_rest hrest
      · exact absurd rfl hplain.1
      · exact absurd rfl hplain.2.1
  · cases back with
    | nil =>
      exact ⟨String.toList_inj.1 (hback.trans (List.append_nil _)), hrest.symm⟩
    | cons c back =>
      obtain rfl : '[' = c := (List.cons.inj hrest).1
      refine absurd ⟨back, ?_⟩ hk.2
      rw [hback, List.append_assoc]
      rfl

theorem field_eq_of_text (hkey : PlainKey key)
    (h : path.rest.toList = '.' :: key.toList) : path = [.field key] := by
  cases path with
  | nil => cases h
  | cons step path =>
    rw [Path.toList_rest_cons] at h
    cases step with
    | item index =>
      rw [toList_text_item] at h
      cases h
    | field k =>
      rw [toList_text_field] at h
      have hback : k.toList ++ (Path.rest path).toList = key.toList := (List.cons.inj h).2
      cases hrest : (Path.rest path).toList with
      | nil =>
        rw [hrest, List.append_nil] at hback
        rw [Path.eq_nil_of_rest hrest, String.toList_inj.1 hback]
      | cons c cs =>
        have hplain := hkey.2 c (by simp [← hback, hrest])
        obtain rfl | rfl := Path.head_rest hrest
        · exact absurd rfl hplain.1
        · exact absurd rfl hplain.2.1

theorem not_mem_toDigits (n : Nat) : ']' ∉ Nat.toDigits 10 n := by
  intro hm
  have hdigit := Digits.isDigit_of_mem_toDigits hm
  revert hdigit
  decide

theorem item_eq_of_text {cs : List Char} (hcs : ']' ∉ cs)
    (h : path.rest.toList = '[' :: (Nat.toDigits 10 i ++ ']' :: cs)) :
    ∃ back, path = .item i :: back ∧ (Path.rest back).toList = cs := by
  cases path with
  | nil => cases h
  | cons step path =>
    rw [Path.toList_rest_cons] at h
    cases step with
    | field k =>
      rw [toList_text_field] at h
      cases h
    | item j =>
      rw [toList_text_item, List.cons_append, List.append_assoc] at h
      have hback : Nat.toDigits 10 i ++ ']' :: cs =
          Nat.toDigits 10 j ++ ']' :: (Path.rest path).toList := (List.cons.inj h).2.symm
      obtain ⟨hdigits, -, hrest⟩ :=
        (List.append_cons_inj_of_notMem (not_mem_toDigits i) hcs).1 hback
      have hindex := congrArg (fun digits => Nat.ofDigitChars 10 digits 0) hdigits
      simp only [Nat.ofDigitChars_ten_toDigits] at hindex
      exact ⟨path, by rw [hindex], hrest.symm⟩

/-- The text of a position in a list belongs to no other position of a document, if no key at its
top is taken for the way there. -/
theorem Path.entry_of_text (hlist : PlainKey list) (hkey : PlainKey key) (hk : ApartFrom list k)
    (h : pathText (.field k :: path) = pathText (Path.entry list i key)) :
    .field k :: path = Path.entry list i key := by
  rw [pathText_eq_dotted, pathText_eq_dotted] at h
  have hchars := congrArg String.toList h
  rw [Path.toList_dotted hk.1, Path.entry, Path.toList_dotted hlist.1, Path.toList_rest_cons,
    toList_text_item] at hchars
  obtain ⟨rfl, hrest⟩ := key_eq_of_text hlist hk hchars
  have hbracket : ']' ∉ '.' :: key.toList := by
    intro hm
    obtain hdot | hm := List.mem_cons.1 hm
    · cases hdot
    · exact (hkey.2 _ hm).2.2 rfl
  have hitem : path.rest.toList = '[' :: (Nat.toDigits 10 i ++ ']' :: '.' :: key.toList) := by
    rw [hrest]
    simp [toList_text_field, Path.rest]
  obtain ⟨back, rfl, hback⟩ := item_eq_of_text hbracket hitem
  rw [field_eq_of_text hkey hback, Path.entry]

end Texts

end ActivityBoard.Display
