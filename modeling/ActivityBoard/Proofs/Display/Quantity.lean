import ActivityBoard.Display.Units
import ActivityBoard.Proofs.Binary64.Shown

namespace ActivityBoard.Display

open Json Binary64

variable {x y c : Binary64} {f g : Binary64 → ℚ} {k : ℚ} {places : ℕ} {text unit : String}

section Reading

/-- What the units stand for: bytes in powers of 1024, bits per second and hertz in powers of
1000. -/
def units : List (String × ℚ) :=
  [("B", 1), ("KB", 1024), ("MB", 1024 ^ 2), ("G", 1024 ^ 3), ("T", 1024 ^ 4),
    ("Kbps", 1000), ("Mbps", 1000 ^ 2), ("Gbps", 1000 ^ 3), ("Tbps", 1000 ^ 4),
    ("MHz", 1000 ^ 2), ("GHz", 1000 ^ 3), ("THz", 1000 ^ 4)]

def unit? (cs : List Char) : Option ℚ := units.lookup (String.ofList (cs.dropWhile (· = ' ')))

/-- The number that a text starts with, times the unit that follows it. -/
def quantity? (text : String) : Option ℚ :=
  match readScalar text.toList with
  | some (.number n, rest) => (unit? rest).map (n.value * ·)
  | _ => none

example : quantity? "1.50 Mbps" = some 1500000 := by decide +kernel

theorem endsNumber_of_unit? {cs : List Char} (h : unit? cs = some k) : EndsNumber cs := by
  cases cs with
  | nil => exact fun c hc => by cases hc
  | cons c rest =>
    have hc : c ∈ [' ', 'B', 'K', 'M', 'G', 'T'] := by
      by_cases hblank : c = ' '
      · simp [hblank]
      · rw [unit?, List.dropWhile_cons_of_neg (by simpa using hblank)] at h
        obtain ⟨front, back, hunits, -⟩ := List.lookup_eq_some_iff.1 h
        have hmem : (String.ofList (c :: rest), k) ∈ units := by simp [hunits]
        have hhead : ∀ u ∈ units, u.1.toList.head? ∈ ['B', 'K', 'M', 'G', 'T'].map some := by
          decide +kernel
        simpa [hblank] using hhead _ hmem
    intro d hd
    cases hd
    simp only [List.mem_cons, List.not_mem_nil, or_false] at hc
    obtain rfl | rfl | rfl | rfl | rfl | rfl := hc <;> decide

theorem quantity?_append (h : IsPlain text) (hunit : unit? unit.toList = some k) :
    quantity? (text ++ unit) = some (reading text * k) := by
  obtain ⟨n, hn, -, htext⟩ := h
  rw [quantity?, String.toList_append, htext,
    Numeral.readScalar_append hn (endsNumber_of_unit? hunit), reading_eq hn htext]
  change (unit? unit.toList).map _ = _
  rw [hunit, Option.map_some]

end Reading

/-- What is shown of a finite number does not decrease where the number grows. -/
def Rising (f : Binary64 → ℚ) : Prop :=
  ∀ ⦃x y : Binary64⦄, x.isFinite = true → y.isFinite = true → x.value ≤ y.value → f x ≤ f y

section Rising

theorem rising_shown : Rising fun x => reading x.shown := fun _ _ hx hy h =>
  reading_shown_mono hx hy h

theorem rising_toFixed (hplaces : places ≤ 22) : Rising fun x => reading (x.toFixed places) :=
  fun _ _ hx hy h => reading_toFixed_mono hplaces hx hy h

theorem Rising.mul (h : Rising f) (hk : 0 ≤ k) : Rising fun x => f x * k := fun _ _ hx hy hle =>
  mul_le_mul_of_nonneg_right (h hx hy hle) hk

theorem Rising.div (h : Rising f) (hc : 2 ≤ c.value) : Rising fun x => f (x / c) := by
  intro x y hx hy hle
  have hfx := isFinite_div hx hc
  have hfy := isFinite_div hy hc
  exact h hfx hfy (value_div_mono hx hy (two_pos.trans_le hc) hfx hfy hle)

/-- Two tiers rise if they do so where the one takes over from the other. -/
theorem Rising.ite (hf : Rising f) (bound : Binary64) (hg : Rising g)
    (hb : bound.isFinite = true) (h : f bound ≤ g bound) :
    Rising fun x => if x < bound then f x else g x := by
  intro x y hx hy hle
  dsimp only
  by_cases hxb : x < bound
  · rw [if_pos hxb]
    by_cases hyb : y < bound
    · rw [if_pos hyb]
      exact hf hx hy hle
    · rw [if_neg hyb]
      have hxv := (lt_iff_value_lt hx hb).1 hxb
      have hyv := le_of_not_gt fun hlt => hyb ((lt_iff_value_lt hy hb).2 hlt)
      calc f x ≤ f bound := hf hx hb hxv.le
        _ ≤ g bound := h
        _ ≤ g y := hg hb hy hyv
  · have hyb : ¬ y < bound := fun hlt => hxb <|
      (lt_iff_value_lt hx hb).2 (hle.trans_lt ((lt_iff_value_lt hy hb).1 hlt))
    rw [if_neg hxb, if_neg hyb]
    exact hg hx hy hle

end Rising

section Tiers

/-- What is shown in multiples of `c`, where one of them is `k`. -/
def tier (c : Binary64) (places : ℕ) (k : ℚ) (x : Binary64) : ℚ :=
  reading ((x / c).toFixed places) * k

theorem rising_tier (hplaces : places ≤ 22) (hc : 2 ≤ c.value) (hk : 0 ≤ k) :
    Rising (tier c places k) :=
  ((rising_toFixed hplaces).div hc).mul hk

theorem quantity?_tier (hx : x.isFinite = true) (hc : 2 ≤ c.value)
    (hunit : unit? unit.toList = some k) :
    quantity? ((x / c).toFixed places ++ unit) = some (tier c places k x) :=
  quantity?_append (isPlain_toFixed (isFinite_div hx hc) places) hunit

end Tiers

section Size

def sizeShown (bytes : Binary64) : ℚ :=
  if bytes < kilo then reading bytes.shown * 1
  else if bytes < mega * 0.8 then tier kilo 1 1024 bytes
  else if bytes < giga * 0.8 then tier mega 1 (1024 ^ 2) bytes
  else if bytes < tera * 0.8 then tier giga 1 (1024 ^ 3) bytes
  else tier tera 1 (1024 ^ 4) bytes

theorem quantity?_sizeUp (hx : x.isFinite = true) : quantity? (sizeUp x) = some (sizeShown x) := by
  rw [sizeUp, sizeShown]
  split
  · exact quantity?_append (isPlain_shown hx) (by decide +kernel)
  split
  · exact quantity?_tier hx (by decide +kernel) (by decide +kernel)
  split
  · exact quantity?_tier hx (by decide +kernel) (by decide +kernel)
  split
  · exact quantity?_tier hx (by decide +kernel) (by decide +kernel)
  · exact quantity?_tier hx (by decide +kernel) (by decide +kernel)

theorem rising_sizeShown : Rising sizeShown := by
  have hkilo : Rising (tier kilo 1 1024) :=
    rising_tier (by decide) (by decide +kernel) (by decide +kernel)
  have hmega : Rising (tier mega 1 (1024 ^ 2)) :=
    rising_tier (by decide) (by decide +kernel) (by decide +kernel)
  have hgiga : Rising (tier giga 1 (1024 ^ 3)) :=
    rising_tier (by decide) (by decide +kernel) (by decide +kernel)
  have htera : Rising (tier tera 1 (1024 ^ 4)) :=
    rising_tier (by decide) (by decide +kernel) (by decide +kernel)
  have hfromGiga := hgiga.ite (tera * 0.8) htera (by decide +kernel) (by decide +kernel)
  have hfromMega := hmega.ite (giga * 0.8) hfromGiga (by decide +kernel) (by decide +kernel)
  have hfromKilo := hkilo.ite (mega * 0.8) hfromMega (by decide +kernel) (by decide +kernel)
  exact (rising_shown.mul zero_le_one).ite kilo hfromKilo (by decide +kernel) (by decide +kernel)

end Size

section Rate

def rateShown (kbps : Binary64) : ℚ :=
  if kbps < 1000 then reading kbps.shown * 1000
  else if kbps < 1000000 then tier 1000 2 (1000 ^ 2) kbps
  else if kbps < 1000000000 then tier 1000000 2 (1000 ^ 3) kbps
  else tier 1000000000 2 (1000 ^ 4) kbps

theorem quantity?_rate (hx : x.isFinite = true) : quantity? (rate x) = some (rateShown x) := by
  rw [rate, rateShown]
  split
  · exact quantity?_append (isPlain_shown hx) (by decide +kernel)
  split
  · exact quantity?_tier hx (by decide +kernel) (by decide +kernel)
  split
  · exact quantity?_tier hx (by decide +kernel) (by decide +kernel)
  · exact quantity?_tier hx (by decide +kernel) (by decide +kernel)

theorem rising_rateShown : Rising rateShown := by
  have hmega : Rising (tier 1000 2 (1000 ^ 2)) :=
    rising_tier (by decide) (by decide +kernel) (by decide +kernel)
  have hgiga : Rising (tier 1000000 2 (1000 ^ 3)) :=
    rising_tier (by decide) (by decide +kernel) (by decide +kernel)
  have htera : Rising (tier 1000000000 2 (1000 ^ 4)) :=
    rising_tier (by decide) (by decide +kernel) (by decide +kernel)
  have hfromGiga := hgiga.ite 1000000000 htera (by decide +kernel) (by decide +kernel)
  have hfromMega := hmega.ite 1000000 hfromGiga (by decide +kernel) (by decide +kernel)
  exact (rising_shown.mul (by decide +kernel)).ite 1000 hfromMega (by decide +kernel)
    (by decide +kernel)

end Rate

section Frequency

def placesOf (scaled : Binary64) : ℕ := if scaled < 10 then 2 else if scaled < 100 then 1 else 0

def fromGigaShown (giga : Binary64) : ℚ :=
  if giga < 1000 then reading (giga.toFixed (placesOf giga)) * 1000 ^ 3
  else reading ((giga / 1000).toFixed (placesOf (giga / 1000))) * 1000 ^ 4

def frequencyShown (mhz : Binary64) : ℚ :=
  if mhz < 1000 then reading mhz.shown * 1000 ^ 2 else fromGigaShown (mhz / 1000)

theorem frequency_eq (mhz : Binary64) : frequency mhz =
    if mhz < 1000 then mhz.shown ++ "MHz"
    else if 1000 ≤ mhz / 1000 then
      (mhz / 1000 / 1000).toFixed (placesOf (mhz / 1000 / 1000)) ++ "THz"
    else (mhz / 1000).toFixed (placesOf (mhz / 1000)) ++ "GHz" := by
  rw [frequency]
  split
  · rfl
  · dsimp only
    split <;> rfl

theorem quantity?_frequency (hx : x.isFinite = true) :
    quantity? (frequency x) = some (frequencyShown x) := by
  have hgiga : (x / 1000).isFinite = true := isFinite_div hx (by decide +kernel)
  have htera : (x / 1000 / 1000).isFinite = true := isFinite_div hgiga (by decide +kernel)
  have hbound : (1000 : Binary64).isFinite = true := by decide +kernel
  have hswitch : 1000 ≤ x / 1000 ↔ ¬ x / 1000 < 1000 := by
    rw [le_iff_value_le hbound hgiga, lt_iff_value_lt hgiga hbound, not_lt]
  rw [frequency_eq, frequencyShown]
  split
  · exact quantity?_append (isPlain_shown hx) (by decide +kernel)
  · rw [fromGigaShown]
    by_cases h : x / 1000 < 1000
    · rw [if_neg (fun hle => hswitch.1 hle h), if_pos h]
      exact quantity?_append (isPlain_toFixed hgiga _) (by decide +kernel)
    · rw [if_pos (hswitch.2 h), if_neg h]
      exact quantity?_append (isPlain_toFixed htera _) (by decide +kernel)

theorem reading_placesOf (x : Binary64) : reading (x.toFixed (placesOf x)) =
    if x < 10 then reading (x.toFixed 2)
    else if x < 100 then reading (x.toFixed 1) else reading (x.toFixed 0) := by
  rw [placesOf]
  split
  · rfl
  · split <;> rfl

theorem rising_toFixed_placesOf : Rising fun x => reading (x.toFixed (placesOf x)) := by
  -- At ten and at a hundred the same number is shown with and without the last place.
  have hfew := (rising_toFixed (show 1 ≤ 22 by decide)).ite 100
    (rising_toFixed (show 0 ≤ 22 by decide)) (by decide +kernel) (by decide +kernel)
  have hall := (rising_toFixed (show 2 ≤ 22 by decide)).ite 10 hfew (by decide +kernel)
    (by decide +kernel)
  simp only [reading_placesOf]
  exact hall

theorem rising_fromGigaShown : Rising fromGigaShown := by
  have hgiga : Rising fun x => reading (x.toFixed (placesOf x)) * 1000 ^ 3 :=
    rising_toFixed_placesOf.mul (by decide +kernel)
  have htera : Rising fun x => reading ((x / 1000).toFixed (placesOf (x / 1000))) * 1000 ^ 4 :=
    (rising_toFixed_placesOf.div (by decide +kernel)).mul (by decide +kernel)
  exact hgiga.ite 1000 htera (by decide +kernel) (by decide +kernel)

theorem rising_frequencyShown : Rising frequencyShown := by
  have hmega : Rising fun x => reading x.shown * 1000 ^ 2 := rising_shown.mul (by decide +kernel)
  have hfromGiga : Rising fun x => fromGigaShown (x / 1000) :=
    rising_fromGigaShown.div (by decide +kernel)
  exact hmega.ite 1000 hfromGiga (by decide +kernel) (by decide +kernel)

end Frequency

def ShowNoLess (text other : String) : Prop :=
  ∃ p q, quantity? text = some p ∧ quantity? other = some q ∧ p ≤ q

/-- Where a number grows, no smaller size, rate or frequency is shown. -/
theorem quantities_ascend (hx : x.isFinite = true) (hy : y.isFinite = true) (h : x ≤ y) :
    (0 ≤ x → ShowNoLess (size x) (size y)) ∧ ShowNoLess (rate x) (rate y) ∧
      ShowNoLess (frequency x) (frequency y) := by
  have hle := (le_iff_value_le hx hy).1 h
  refine ⟨fun h0 => ?_, ?_, ?_⟩
  · have hzero : (0 : Binary64).isFinite = true := rfl
    have hsign (z : Binary64) (hz : z.isFinite = true) (hz0 : x.value ≤ z.value) :
        size z = sizeUp z := by
      have hx0 := (le_iff_value_le hzero hx).1 h0
      rw [size, if_neg]
      exact fun hneg => ((lt_iff_value_lt hz hzero).1 hneg).not_ge (hx0.trans hz0)
    rw [hsign x hx le_rfl, hsign y hy hle]
    exact ⟨_, _, quantity?_sizeUp hx, quantity?_sizeUp hy, rising_sizeShown hx hy hle⟩
  · exact ⟨_, _, quantity?_rate hx, quantity?_rate hy, rising_rateShown hx hy hle⟩
  · exact ⟨_, _, quantity?_frequency hx, quantity?_frequency hy, rising_frequencyShown hx hy hle⟩

/-- No smaller size is shown by the shorter text. -/
example : size 838860.75 = "819.2KB" ∧ size 838860.9 = "0.8MB" := by decide +kernel

theorem quantities_ascend_switching :
    ((838860.75 : Binary64).isFinite = true ∧ (838860.9 : Binary64).isFinite = true ∧
      (838860.75 : Binary64) ≤ 838860.9 ∧ (0 : Binary64) ≤ 838860.75) ∧
    ShowNoLess (size 838860.75) (size 838860.9) ∧ ShowNoLess (rate 838860.75) (rate 838860.9) ∧
      ShowNoLess (frequency 838860.75) (frequency 838860.9) := by
  have hx : (838860.75 : Binary64).isFinite = true := by decide +kernel
  have hy : (838860.9 : Binary64).isFinite = true := by decide +kernel
  have hle : (838860.75 : Binary64) ≤ 838860.9 := by decide +kernel
  have h0 : (0 : Binary64) ≤ 838860.75 := by decide +kernel
  obtain ⟨hsize, hrate, hfrequency⟩ := quantities_ascend hx hy hle
  exact ⟨⟨hx, hy, hle, h0⟩, hsize h0, hrate, hfrequency⟩

end ActivityBoard.Display
