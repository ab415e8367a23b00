import ActivityBoard.Display.Annotate
import ActivityBoard.Proofs.Metric

/-!
A rendered text ends in the letter of a unit or in a percent sign, and no text of a number does.
-/
namespace ActivityBoard

namespace Text

variable {p q : Char → Bool} {cs : List Char}

def EndsIn (p : Char → Bool) (cs : List Char) : Prop := ∃ c, cs.getLast? = some c ∧ p c = true

theorem EndsIn.append (h : EndsIn p cs) (front : List Char) : EndsIn p (front ++ cs) := by
  obtain ⟨c, hc, hp⟩ := h
  refine ⟨c, ?_, hp⟩
  rw [List.getLast?_append, hc, Option.some_or]

theorem EndsIn.cons (h : EndsIn p cs) (c : Char) : EndsIn p (c :: cs) := h.append [c]

theorem EndsIn.imp (h : EndsIn p cs) (hpq : ∀ c, p c = true → q c = true) : EndsIn q cs := by
  obtain ⟨c, hc, hp⟩ := h
  exact ⟨c, hc, hpq c hp⟩

theorem EndsIn.not_of_disjoint (h : EndsIn p cs) (hpq : ∀ c, p c = true → q c = false) :
    ¬ EndsIn q cs := by
  rintro ⟨d, hd, hq⟩
  obtain ⟨c, hc, hp⟩ := h
  rw [hc] at hd
  cases hd
  exact absurd hq (by simp [hpq d hp])

theorem endsIn_of_all (hne : cs ≠ []) (hall : ∀ c ∈ cs, p c = true) : EndsIn p cs :=
  ⟨cs.getLast hne, List.getLast?_eq_some_getLast hne, hall _ (List.getLast_mem hne)⟩

theorem EndsIn.dropWhile (h : EndsIn p cs) (hq : ∀ c, p c = true → q c = false) :
    EndsIn p (cs.dropWhile q) := by
  induction cs with
  | nil => exact h
  | cons c rest ih =>
    rw [List.dropWhile_cons]
    split
    · rename_i hc
      cases rest with
      | nil =>
        obtain ⟨d, hd, hp⟩ := h
        cases hd
        exact absurd hc (by simp [hq c hp])
      | cons d rest =>
        apply ih
        obtain ⟨e, he, hp⟩ := h
        exact ⟨e, (List.getLast?_cons_cons).symm.trans he, hp⟩
    · exact h

theorem EndsIn.trim (h : EndsIn p cs) (hp : ∀ c, p c = true → isBlank c = false) :
    EndsIn p (trim cs) := by
  obtain ⟨c, hc, hpc⟩ := h.dropWhile hp
  refine ⟨c, ?_, hpc⟩
  rw [Text.trim, List.getLast?_reverse]
  rw [← List.head?_reverse] at hc
  cases hr : (List.dropWhile isBlank cs).reverse with
  | nil =>
    rw [hr] at hc
    cases hc
  | cons d rest =>
    rw [hr] at hc
    cases hc
    rw [List.dropWhile_cons_of_neg (by simp [hp c hpc])]
    rfl

end Text

open Text

namespace Decimal

variable {cs : List Char}

theorem endsIn_of_signedInt? {n : Int} (h : signedInt? cs = some n) :
    EndsIn Char.isDigit cs := by
  have hdigits {digits : List Char} {m : Int}
      (hn : (if digits.isEmpty || !digits.all Char.isDigit then none else some m) = some n) :
      EndsIn Char.isDigit digits := by
    split at hn
    · cases hn
    · rename_i hall
      simp only [Bool.or_eq_true, List.isEmpty_iff, Bool.not_eq_true', not_or,
        Bool.not_eq_false, List.all_eq_true] at hall
      exact endsIn_of_all hall.1 hall.2
  unfold signedInt? at h
  split at h
  rename_i negative digits hcs
  have hd := hdigits h
  split at hcs <;> cases hcs
  · exact hd.cons _
  · exact hd.cons _
  · exact hd

theorem endsIn_of_exponent? {e : Int} (h : exponent? cs = some e) :
    cs = [] ∨ EndsIn Char.isDigit cs := by
  cases cs with
  | nil => exact .inl rfl
  | cons c rest =>
    rw [exponent?] at h
    split at h
    · exact .inr ((endsIn_of_signedInt? h).cons c)
    · cases h

end Decimal

namespace Binary64

variable {cs : List Char} {x : Binary64}

/-- The characters that a number may end in: a digit, a point, or the last letter of a word. -/
def closes (c : Char) : Bool := c.isDigit || c == '.' || ['f', 'y', 'n'].contains c.toLower

theorem closes_of_isDigit (c : Char) (h : c.isDigit = true) : closes c = true := by
  simp [closes, h]

theorem endsIn_of_digits {whole tail : List Char} {e : Int} (hwhole : whole.all Char.isDigit = true)
    (hne : whole ≠ []) (he : Decimal.exponent? tail = some e) : EndsIn closes (whole ++ tail) := by
  obtain rfl | hend := Decimal.endsIn_of_exponent? he
  · rw [List.append_nil]
    exact endsIn_of_all hne fun c hc => closes_of_isDigit c (List.all_eq_true.1 hwhole c hc)
  · exact (hend.imp closes_of_isDigit).append _

theorem endsIn_of_point {fraction tail : List Char} {e : Int}
    (hfraction : fraction.all Char.isDigit = true) (he : Decimal.exponent? tail = some e) :
    EndsIn closes ('.' :: (fraction ++ tail)) := by
  by_cases hf : fraction = []
  · subst hf
    obtain rfl | hend := Decimal.endsIn_of_exponent? he
    · exact ⟨'.', rfl, rfl⟩
    · exact (hend.imp closes_of_isDigit).cons _
  · exact (endsIn_of_digits hfraction hf he).cons _

theorem endsIn_of_ofDecimalText? (h : ofDecimalText? cs = some x) : EndsIn closes cs := by
  obtain ⟨d, hd, -⟩ := Option.map_eq_some_iff.1 h
  have hcs := List.takeWhile_append_dropWhile (p := Char.isDigit) (l := cs)
  unfold Decimal.ofText? at hd
  dsimp only at hd
  rw [← hcs]
  -- A text with a point may end in it: neither fraction nor exponent has to follow.
  split at hd
  · rename_i r hr
    rw [hr]
    split at hd
    · cases hd
    · obtain ⟨e, he, -⟩ := Option.map_eq_some_iff.1 hd
      have hend := endsIn_of_point (List.all_takeWhile (l := r)) he
      rw [List.takeWhile_append_dropWhile] at hend
      exact hend.append _
  · split at hd
    · cases hd
    · rename_i hempty
      obtain ⟨e, he, -⟩ := Option.map_eq_some_iff.1 hd
      exact endsIn_of_digits List.all_takeWhile (by simpa using hempty) he

theorem endsIn_of_magnitude? (h : magnitude? cs = some x) : EndsIn closes cs := by
  have hword (word : List Char) {c : Char} (hw : cs.map Char.toLower = word ++ [c])
      (hc : c ∈ ['f', 'y', 'n']) : EndsIn closes cs := by
    have hlast : (cs.map Char.toLower).getLast? = some c := by
      rw [hw, List.getLast?_concat]
    rw [List.getLast?_map] at hlast
    obtain ⟨d, hd, rfl⟩ := Option.map_eq_some_iff.1 hlast
    refine ⟨d, hd, ?_⟩
    simp [closes, hc]
  unfold magnitude? at h
  dsimp only at h
  split at h
  · rename_i hw
    obtain hw | hw := hw
    · exact hword ['i', 'n'] hw (by decide)
    · exact hword ['i', 'n', 'f', 'i', 'n', 'i', 't'] hw (by decide)
  · split at h
    · rename_i hw
      exact hword ['n', 'a'] hw (by decide)
    · exact endsIn_of_ofDecimalText? h

theorem endsIn_of_ofText? (h : ofText? cs = some x) : EndsIn closes cs := by
  unfold ofText? at h
  split at h
  · obtain ⟨y, hy, -⟩ := Option.map_eq_some_iff.1 h
    exact (endsIn_of_magnitude? hy).cons _
  · exact (endsIn_of_magnitude? h).cons _
  · exact endsIn_of_magnitude? h

end Binary64

namespace Display

def unitEnds : List Char := ['%', 'z', 's', 'm', 'h', 'B', 'G', 'T']

def endsUnit (c : Char) : Bool := unitEnds.contains c

theorem isBlank_of_endsUnit (c : Char) (h : endsUnit c = true) : isBlank c = false := by
  have hunits : unitEnds.all (fun c => !isBlank c) = true := by decide
  exact Bool.not_eq_true' _ ▸ List.all_eq_true.1 hunits c (List.contains_iff_mem.1 h)

theorem closes_of_endsUnit (c : Char) (h : endsUnit c = true) : Binary64.closes c = false := by
  have hunits : unitEnds.all (fun c => !Binary64.closes c) = true := by decide
  exact Bool.not_eq_true' _ ▸ List.all_eq_true.1 hunits c (List.contains_iff_mem.1 h)

/-- A text that ends in a unit is no number. -/
theorem ofText_of_endsUnit {text : String} (h : EndsIn endsUnit text.toList) :
    Metric.ofText text = .malformed text := by
  have htrim := h.trim isBlank_of_endsUnit
  unfold Metric.ofText
  split
  · rename_i hnil
    obtain ⟨c, hc, -⟩ := htrim
    rw [hnil] at hc
    cases hc
  · split
    · rename_i x hx
      exact absurd (Binary64.endsIn_of_ofText? hx) (htrim.not_of_disjoint closes_of_endsUnit)
    · rfl

theorem endsUnit_append (text unit : String) (h : EndsIn endsUnit unit.toList) :
    EndsIn endsUnit (text ++ unit).toList := by
  rw [String.toList_append]
  exact h.append _

theorem endsUnit_percent (text : String) : EndsIn endsUnit (percent text).toList :=
  endsUnit_append text "%" ⟨'%', rfl, rfl⟩

theorem endsUnit_pair (a : Int) (aUnit : String) (b : Int) (unit : String)
    (h : EndsIn endsUnit unit.toList) : EndsIn endsUnit (pair a aUnit b unit).toList :=
  endsUnit_append _ unit h

theorem endsUnit_share (ticks perCore : Binary64) :
    EndsIn endsUnit (share ticks perCore).toList := by
  unfold share
  split
  · exact endsUnit_percent "0"
  · exact endsUnit_percent _

theorem endsUnit_frequency (mhz : Binary64) : EndsIn endsUnit (frequency mhz).toList := by
  unfold frequency
  split
  · exact endsUnit_append _ _ ⟨'z', rfl, rfl⟩
  · dsimp only
    split
    · exact endsUnit_append _ "THz" ⟨'z', rfl, rfl⟩
    · exact endsUnit_append _ "GHz" ⟨'z', rfl, rfl⟩

theorem endsUnit_elapsed (ticks : Binary64) (hertz : Nat) :
    EndsIn endsUnit (elapsed ticks hertz).toList := by
  unfold elapsed
  dsimp only
  split
  · exact endsUnit_pair _ _ _ _ ⟨'s', rfl, rfl⟩
  · split
    · exact endsUnit_pair _ _ _ _ ⟨'s', rfl, rfl⟩
    · split
      · exact endsUnit_pair _ _ _ _ ⟨'m', rfl, rfl⟩
      · exact endsUnit_pair _ _ _ _ ⟨'h', rfl, rfl⟩

theorem endsUnit_sizeUp (bytes : Binary64) : EndsIn endsUnit (sizeUp bytes).toList := by
  unfold sizeUp
  split
  · exact endsUnit_append _ _ ⟨'B', rfl, rfl⟩
  · split
    · exact endsUnit_append _ _ ⟨'B', rfl, rfl⟩
    · split
      · exact endsUnit_append _ _ ⟨'B', rfl, rfl⟩
      · split
        · exact endsUnit_append _ _ ⟨'G', rfl, rfl⟩
        · exact endsUnit_append _ _ ⟨'T', rfl, rfl⟩

theorem endsUnit_size (bytes : Binary64) : EndsIn endsUnit (size bytes).toList := by
  unfold size
  split
  · exact endsUnit_append "-" _ (endsUnit_sizeUp _)
  · exact endsUnit_sizeUp bytes

theorem endsUnit_rate (kbps : Binary64) : EndsIn endsUnit (rate kbps).toList := by
  unfold rate
  split
  · exact endsUnit_append _ _ ⟨'s', rfl, rfl⟩
  · split
    · exact endsUnit_append _ _ ⟨'s', rfl, rfl⟩
    · split
      · exact endsUnit_append _ _ ⟨'s', rfl, rfl⟩
      · exact endsUnit_append _ _ ⟨'s', rfl, rfl⟩

theorem endsUnit_render (kind : FieldKind) (context : Context) (x : Binary64) :
    EndsIn endsUnit (kind.render context x).toList := by
  cases kind with
  | share => exact endsUnit_share ..
  | pressure => exact endsUnit_percent _
  | frequency => exact endsUnit_frequency _
  | elapsed => exact endsUnit_elapsed ..
  | size => exact endsUnit_size _
  | rate => exact endsUnit_rate _
  | percent => exact endsUnit_percent _

end Display

end ActivityBoard
