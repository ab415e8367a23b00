import ActivityBoard.Proofs.Json.Canonical
import ActivityBoard.Proofs.Json.Numeral
import ActivityBoard.Proofs.Json.Quoted
import ActivityBoard.Proofs.Json.Split

namespace ActivityBoard.Json

variable {cs rest : List Char} {depth fuel : Nat} {v : Json}

section Opens

def Opens (excluded : List Char) (cs : List Char) : Prop := ∃ c ∈ cs.head?, c ∉ excluded

def separators : List Char := [' ', '\t', '\n', '\r', ',', ':', ']', '\x7d']

theorem Opens.append {excluded : List Char} (h : Opens excluded cs) (rest : List Char) :
    Opens excluded (cs ++ rest) := by
  obtain ⟨c, hc, hexcluded⟩ := h
  refine ⟨c, ?_, hexcluded⟩
  rw [List.head?_append, hc]
  rfl

theorem eq_of_isBlank {c : Char} (h : isBlank c = true) :
    c = ' ' ∨ c = '\t' ∨ c = '\n' ∨ c = '\r' := by
  simpa [isBlank, or_assoc] using h

theorem Opens.skipBlanks_eq (h : Opens separators cs) : skipBlanks cs = cs := by
  obtain ⟨c, hc, hseparators⟩ := h
  cases cs with
  | nil => cases hc
  | cons c cs =>
    cases hc
    apply List.dropWhile_cons_of_neg
    intro hblank
    obtain rfl | rfl | rfl | rfl := eq_of_isBlank hblank <;> exact hseparators (by decide)

theorem opens_of_readScalar {scalar : Scalar} (h : readScalar cs = some (scalar, rest)) :
    Opens ('[' :: '\x7b' :: separators) cs := by
  cases cs with
  | nil => cases h
  | cons c cs =>
    refine ⟨c, rfl, ?_⟩
    intro hc
    simp only [separators, List.mem_cons, List.not_mem_nil, or_false] at hc
    obtain rfl | rfl | rfl | rfl | rfl | rfl | rfl | rfl | rfl | rfl := hc
    all_goals cases h

end Opens

theorem readValue_of_readScalar {scalar : Scalar} (h : readScalar cs = some (scalar, rest))
    (hv : scalar.value? = some v) : readValue fuel depth cs = .ok (v, rest) := by
  obtain ⟨c, hc, hopens⟩ := opens_of_readScalar h
  have hleaf : readLeaf cs = .ok (v, rest) := by
    rw [readLeaf, h]
    simp only [hv]
  cases cs with
  | nil => cases hc
  | cons c cs =>
    cases hc
    unfold readValue
    split
    case h_5 => exact hleaf
    all_goals
      rename_i he
      cases he
      exact absurd (by decide) hopens

section Blanks

def Blank (cs : List Char) : Prop := ∀ c ∈ cs, isBlank c = true

theorem blank_nil : Blank [] := fun _ => nofun

theorem Blank.skipBlanks_append {blanks : List Char} (h : Blank blanks) (cs : List Char) :
    skipBlanks (blanks ++ cs) = skipBlanks cs :=
  List.dropWhile_append_of_pos h

theorem Blank.endsNumber_append {blanks : List Char} (h : Blank blanks) (hcs : EndsNumber cs) :
    EndsNumber (blanks ++ cs) := by
  cases blanks with
  | nil => exact hcs
  | cons b blanks =>
    intro c hc
    cases hc
    obtain rfl | rfl | rfl | rfl := eq_of_isBlank (h b List.mem_cons_self) <;> decide

end Blanks

section Entries

variable {α : Type} {lead tail : List Char} {write : α → List Char} {entry : List α → Reading α}
  {close : Char}

def joined (lead : List Char) (write : α → List Char) : List α → List Char
  | [] => []
  | [x] => lead ++ write x
  | x :: y :: xs => lead ++ (write x ++ ',' :: joined lead write (y :: xs))

theorem length_write_le (lead : List Char) (write : α → List Char) {x : α} {xs : List α}
    (h : x ∈ xs) :
    (write x).length ≤ (joined lead write xs).length := by
  induction xs with
  | nil => cases h
  | cons y xs ih =>
    cases xs with
    | nil =>
      obtain rfl := List.mem_singleton.1 h
      rw [joined, List.length_append]
      omega
    | cons z xs =>
      rw [joined, List.length_append, List.length_append, List.length_cons]
      obtain rfl | h := List.mem_cons.1 h
      · omega
      · have := ih h
        omega

/-- Each entry is read from its own text, whatever stands in front of it. -/
structure Reads (entry : List α → Reading α) (write : α → List Char) (x : α) : Prop where
  opens : Opens separators (write x)
  read : ∀ earlier rest, EndsNumber rest → entry earlier (write x ++ rest) = .ok (x, rest)

theorem Opens.length_pos {excluded : List Char} (h : Opens excluded cs) : 0 < cs.length := by
  obtain ⟨c, hc, -⟩ := h
  cases cs with
  | nil => cases hc
  | cons c cs => exact Nat.succ_pos _

theorem length_le_joined {xs : List α} (h : ∀ x ∈ xs, Reads entry write x) :
    xs.length ≤ (joined lead write xs).length := by
  induction xs with
  | nil => exact Nat.zero_le _
  | cons x xs ih =>
    have hx := (h x List.mem_cons_self).opens.length_pos
    cases xs with
    | nil =>
      rw [joined, List.length_append, List.length_singleton]
      omega
    | cons y xs =>
      have := ih fun z hz => h z (List.mem_cons_of_mem _ hz)
      simp only [joined, List.length_append, List.length_cons] at this ⊢
      omega

def Closes (close : Char) : Prop := close = ']' ∨ close = '\x7d'

theorem Closes.endsNumber (h : Closes close) (rest : List Char) : EndsNumber (close :: rest) := by
  intro c hc
  cases hc
  obtain rfl | rfl := h <;> decide

theorem Closes.skipBlanks_eq (h : Closes close) (rest : List Char) :
    skipBlanks (close :: rest) = close :: rest := by
  obtain rfl | rfl := h <;> rfl

theorem Closes.mem_separators (h : Closes close) : close ∈ separators := by
  obtain rfl | rfl := h <;> decide

theorem Closes.ne_comma (h : Closes close) : ',' ≠ close := by
  obtain rfl | rfl := h <;> decide

theorem endsNumber_comma (rest : List Char) : EndsNumber (',' :: rest) := by
  intro c hc
  cases hc
  decide

theorem readEntries_joined (hclose : Closes close) (hlead : Blank lead) (htail : Blank tail)
    {xs : List α} (hne : xs ≠ []) (h : ∀ x ∈ xs, Reads entry write x) (hfuel : xs.length ≤ fuel)
    (earlier : List α) (rest : List Char) :
    readEntries entry close fuel earlier (joined lead write xs ++ (tail ++ close :: rest)) =
      .ok (xs, rest) := by
  induction xs generalizing fuel earlier with
  | nil => exact absurd rfl hne
  | cons x xs ih =>
    have hx := h x List.mem_cons_self
    cases fuel with
    | zero => exact absurd hfuel (by simp)
    | succ fuel =>
      cases xs with
      | nil =>
        have hend := htail.endsNumber_append (hclose.endsNumber rest)
        rw [joined, List.append_assoc, readEntries, hlead.skipBlanks_append,
          (hx.opens.append _).skipBlanks_eq, hx.read earlier _ hend]
        simp only [bind, Except.bind, htail.skipBlanks_append, hclose.skipBlanks_eq, ↓reduceIte]
      | cons y xs =>
        have hrest := ih (List.cons_ne_nil y xs) (fun z hz => h z (List.mem_cons_of_mem _ hz))
          (Nat.le_of_succ_le_succ hfuel) (x :: earlier)
        rw [joined, List.append_assoc, List.append_assoc, List.cons_append, readEntries,
          hlead.skipBlanks_append, (hx.opens.append _).skipBlanks_eq,
          hx.read earlier _ (endsNumber_comma _)]
        change (if ',' = close then _ else if ',' = ',' then _ else _) = _
        rw [if_neg hclose.ne_comma, if_pos rfl, hrest]
        rfl

theorem opens_skipBlanks_joined (hlead : Blank lead) {xs : List α} (hne : xs ≠ [])
    (h : ∀ x ∈ xs, Reads entry write x) (cs : List Char) :
    Opens separators (skipBlanks (joined lead write xs ++ cs)) := by
  cases xs with
  | nil => exact absurd rfl hne
  | cons x xs =>
    have hx := (h x List.mem_cons_self).opens
    cases xs with
    | nil =>
      rw [joined, List.append_assoc, hlead.skipBlanks_append, (hx.append _).skipBlanks_eq]
      exact hx.append _
    | cons y xs =>
      rw [joined, List.append_assoc, List.append_assoc, hlead.skipBlanks_append,
        (hx.append _).skipBlanks_eq]
      exact hx.append _

theorem readContainer_joined (hclose : Closes close) (hlead : Blank lead) (htail : Blank tail)
    {xs : List α} (h : ∀ x ∈ xs, Reads entry write x) (hfuel : (joined lead write xs).length ≤ fuel)
    (rest : List Char) :
    readContainer entry close fuel (joined lead write xs ++ (tail ++ close :: rest)) =
      .ok (xs, rest) := by
  rw [readContainer]
  cases xs with
  | nil =>
    rw [joined, List.nil_append, htail.skipBlanks_append, hclose.skipBlanks_eq]
    exact if_pos rfl
  | cons x xs =>
    have hne := List.cons_ne_nil x xs
    have hread := readEntries_joined hclose hlead htail hne h ((length_le_joined h).trans hfuel) []
      rest
    obtain ⟨c, hc, hseparators⟩ := opens_skipBlanks_joined hlead hne h (tail ++ close :: rest)
    cases hskip : skipBlanks (joined lead write (x :: xs) ++ (tail ++ close :: rest)) with
    | nil =>
      rw [hskip] at hc
      cases hc
    | cons d cs =>
      rw [hskip] at hc
      cases hc
      refine Eq.trans (if_neg ?_) hread
      rintro rfl
      exact hseparators hclose.mem_separators

end Entries

section Layouts

def fieldChars (gap : List Char) (write : Json → List Char) (field : String × Json) : List Char :=
  quoted field.1 ++ ':' :: (gap ++ write field.2)

/-- A way to write values: `write` at a level of indentation, with `lead` in front of each entry at
that level and `gap` behind each colon. -/
structure Prints (write : Nat → Json → List Char) (lead : Nat → List Char) (gap : List Char) :
    Prop where
  blank_lead : ∀ level, Blank (lead level)
  blank_gap : Blank gap
  scalar : ∀ level v, v.items? = none → v.fields? = none → write level v = scalarChars v
  arr : ∀ level items, ∃ tail, Blank tail ∧ write level (.arr items) =
    '[' :: (joined (lead (level + 1)) (write (level + 1)) items ++ (tail ++ [']']))
  obj : ∀ level fields, ∃ tail, Blank tail ∧ write level (.obj fields) =
    '\x7b' :: (joined (lead (level + 1)) (fieldChars gap (write (level + 1))) fields ++
      (tail ++ ['\x7d']))

theorem compactItems_eq_joined (items : List Json) :
    compactItems items = joined [] compactChars items := by
  induction items with
  | nil => rfl
  | cons v items ih =>
    cases items with
    | nil => rfl
    | cons w items => rw [compactItems, ih, joined, List.nil_append]

theorem compactFields_eq_joined (fields : Fields) :
    compactFields fields = joined [] (fieldChars [] compactChars) fields := by
  induction fields with
  | nil => rfl
  | cons field fields ih =>
    cases fields with
    | nil => rfl
    | cons next fields =>
      rw [compactFields, ih, joined, List.nil_append, fieldChars, List.nil_append]

theorem prints_compact : Prints (fun _ => compactChars) (fun _ => []) [] where
  blank_lead _ := blank_nil
  blank_gap := blank_nil
  scalar _ v hitems hfields := by
    cases v with
    | arr items => cases hitems
    | obj fields => cases hfields
    | _ => rw [compactChars] <;> exact fun _ h => by cases h
  arr _ items := ⟨[], blank_nil, by
    rw [compactChars, compactItems_eq_joined]
    rfl⟩
  obj _ fields := ⟨[], blank_nil, by
    rw [compactChars, compactFields_eq_joined]
    rfl⟩

theorem blank_newLine (level : Nat) : Blank (newLine level) := by
  intro c hc
  obtain rfl | hc := List.mem_cons.1 hc
  · rfl
  · rw [List.eq_of_mem_replicate hc]
    rfl

theorem prettyItems_eq_joined (level : Nat) (items : List Json) :
    prettyItems level items = joined (newLine level) (prettyChars level) items := by
  induction items with
  | nil => rfl
  | cons v items ih =>
    cases items with
    | nil => rfl
    | cons w items => rw [prettyItems, ih, joined, List.append_assoc]

theorem prettyFields_eq_joined (level : Nat) (fields : Fields) :
    prettyFields level fields =
      joined (newLine level) (fieldChars [' '] (prettyChars level)) fields := by
  induction fields with
  | nil => rfl
  | cons field fields ih =>
    cases fields with
    | nil =>
      rw [prettyFields, joined, fieldChars, List.append_assoc]
      rfl
    | cons next fields =>
      rw [prettyFields, ih, joined, fieldChars]
      simp

theorem prints_pretty : Prints prettyChars newLine [' '] where
  blank_lead := blank_newLine
  blank_gap c hc := List.mem_singleton.1 hc ▸ rfl
  scalar level v hitems hfields := by
    cases v with
    | arr items => cases hitems
    | obj fields => cases hfields
    | _ => rw [prettyChars] <;> nofun
  arr level items := by
    cases items with
    | nil => exact ⟨[], blank_nil, rfl⟩
    | cons v items =>
      refine ⟨newLine level, blank_newLine level, ?_⟩
      rw [prettyChars, prettyItems_eq_joined]
      simp
  obj level fields := by
    cases fields with
    | nil => exact ⟨[], blank_nil, rfl⟩
    | cons field fields =>
      refine ⟨newLine level, blank_newLine level, ?_⟩
      rw [prettyChars, prettyFields_eq_joined]
      simp

end Layouts

section Values

variable {write : Json → List Char}

theorem reads_scalar (h : ∀ rest, EndsNumber rest → ∃ scalar,
    readScalar (write v ++ rest) = some (scalar, rest) ∧ scalar.value? = some v) :
    Reads (fun _ => readValue fuel depth) write v where
  opens := by
    obtain ⟨scalar, hread, -⟩ := h [] fun c hc => by cases hc
    rw [List.append_nil] at hread
    obtain ⟨c, hc, hopens⟩ := opens_of_readScalar hread
    exact ⟨c, hc, fun hmem => hopens (List.mem_cons_of_mem _ (List.mem_cons_of_mem _ hmem))⟩
  read _ rest hrest := by
    obtain ⟨scalar, hread, hv⟩ := h rest hrest
    exact readValue_of_readScalar hread hv

theorem readScalar_str (s : String) (rest : List Char) : ∃ scalar,
    readScalar (scalarChars (.str s) ++ rest) = some (scalar, rest) ∧
      scalar.value? = some (.str s) := by
  obtain ⟨pieces, hread, htext⟩ := readPieces_quoted s rest
  refine ⟨.str pieces, ?_, ?_⟩
  · rw [scalarChars, quoted, List.append_assoc]
    change (readPieces (s.toList.flatMap quotedChar ++ '"' :: rest)).map _ = _
    rw [hread, Option.map_some]
  · rw [Scalar.value?, htext, Option.map_some]

theorem reads_field {gap : List Char} {value : Reading Json} (key : String) (hgap : Blank gap)
    (h : Reads (fun _ => value) write v) :
    Reads (fun _ => readField fun _ => .ok value) (fieldChars gap write) (key, v) where
  opens := ⟨'"', rfl, by decide⟩
  read _ rest hrest := by
    obtain ⟨pieces, hread, htext⟩ := readPieces_quoted key (':' :: (gap ++ write v ++ rest))
    have hcolon : afterColon (':' :: (gap ++ write v ++ rest)) = .ok (write v ++ rest) := by
      change Except.ok (skipBlanks (gap ++ write v ++ rest)) = _
      rw [List.append_assoc, hgap.skipBlanks_append, (h.opens.append rest).skipBlanks_eq]
    have hchars : fieldChars gap write (key, v) ++ rest =
        '"' :: (key.toList.flatMap quotedChar ++ '"' :: ':' :: (gap ++ write v ++ rest)) := by
      simp [fieldChars, quoted]
    rw [hchars, readField, hread]
    simp only [htext, bind, Except.bind, hcolon, h.read [] rest hrest]

variable {lead tail gap : List Char}

theorem readValue_arr {items : List Json} (hlead : Blank lead) (htail : Blank tail)
    (h : ∀ v ∈ items, Reads (fun _ => readValue fuel depth) write v)
    (hfuel : (joined lead write items).length ≤ fuel) (rest : List Char) :
    readValue fuel (depth + 1) ('[' :: (joined lead write items ++ (tail ++ [']'])) ++ rest) =
      .ok (.arr items, rest) := by
  have hread := readContainer_joined (.inl rfl) hlead htail h hfuel rest
  rw [List.cons_append, List.append_assoc, List.append_assoc]
  change (readContainer _ ']' fuel (joined lead write items ++ (tail ++ ']' :: rest)) >>= _) = _
  rw [hread]
  rfl

theorem readValue_obj {fields : Fields} (hlead : Blank lead) (htail : Blank tail)
    (hgap : Blank gap) (hascending : fields.Ascending)
    (h : ∀ field ∈ fields, Reads (fun _ => readValue fuel depth) write field.2)
    (hfuel : (joined lead (fieldChars gap write) fields).length ≤ fuel) (rest : List Char) :
    readValue fuel (depth + 1)
      ('\x7b' :: (joined lead (fieldChars gap write) fields ++ (tail ++ ['\x7d'])) ++ rest) =
      .ok (.obj fields, rest) := by
  have hread := readContainer_joined (.inr rfl) hlead htail
    (fun field hfield => reads_field field.1 hgap (h field hfield)) hfuel rest
  rw [List.cons_append, List.append_assoc, List.append_assoc]
  change (readContainer _ '\x7d' fuel
    (joined lead (fieldChars gap write) fields ++ (tail ++ '\x7d' :: rest)) >>= _) = _
  rw [hread]
  change Except.ok (Json.obj (Fields.ofList fields), rest) = _
  rw [hascending.ofList_eq]

end Values

section Prints

variable {write : Nat → Json → List Char} {lead : Nat → List Char} {gap : List Char}

theorem Prints.reads_of_storable (hp : Prints write lead gap) (h : Storable depth v) (level : Nat)
    (hfuel : (write level v).length ≤ fuel) :
    Reads (fun _ => readValue fuel depth) (write level) v := by
  -- The entries of a container are written and read one level further in.
  induction h generalizing level with
  | null => exact reads_scalar fun _ _ => hp.scalar level .null rfl rfl ▸ ⟨.null, rfl, rfl⟩
  | bool b =>
    refine reads_scalar fun _ _ => hp.scalar level (.bool b) rfl rfl ▸ ?_
    cases b with
    | true => exact ⟨.bool true, rfl, rfl⟩
    | false => exact ⟨.bool false, rfl, rfl⟩
  | int hlow hhigh =>
    refine reads_scalar fun rest hrest => hp.scalar level (.int _) rfl rfl ▸ ?_
    exact readScalar_int hlow hhigh hrest
  | float hx =>
    refine reads_scalar fun rest hrest => hp.scalar level (.float _) rfl rfl ▸ ?_
    exact readScalar_float hx hrest
  | str s =>
    exact reads_scalar fun rest _ => hp.scalar level (.str s) rfl rfl ▸ readScalar_str s rest
  | @arr depth items hitems ih =>
    obtain ⟨tail, htail, hwrite⟩ := hp.arr level items
    rw [hwrite, List.length_cons, List.length_append] at hfuel
    have hreads : ∀ v ∈ items, Reads (fun _ => readValue fuel depth) (write (level + 1)) v :=
      fun v hv => ih v hv (level + 1)
        ((length_write_le (lead (level + 1)) (write (level + 1)) hv).trans (by omega))
    have hopen : (write level (.arr items)).head? = some '[' := congrArg List.head? hwrite
    refine ⟨⟨'[', hopen, by decide⟩, fun _ rest _ => ?_⟩
    rw [hwrite]
    exact readValue_arr (hp.blank_lead _) htail hreads (by omega) rest
  | @obj depth fields hascending hfields ih =>
    obtain ⟨tail, htail, hwrite⟩ := hp.obj level fields
    rw [hwrite, List.length_cons, List.length_append] at hfuel
    have hreads : ∀ field ∈ fields,
        Reads (fun _ => readValue fuel depth) (write (level + 1)) field.2 := by
      intro field hfield
      have hlength := length_write_le (lead (level + 1)) (fieldChars gap (write (level + 1))) hfield
      rw [fieldChars, List.length_append, List.length_cons, List.length_append] at hlength
      exact ih field hfield (level + 1) (by omega)
    have hopen : (write level (.obj fields)).head? = some '\x7b' := congrArg List.head? hwrite
    refine ⟨⟨'\x7b', hopen, by decide⟩, fun _ rest _ => ?_⟩
    rw [hwrite]
    exact readValue_obj (hp.blank_lead _) htail hp.blank_gap hascending hreads (by omega) rest

theorem Prints.ofText? (hp : Prints write lead gap) (h : Storable depthLimit v) (level : Nat) :
    Json.ofText? (String.ofList (write level v)) = some v := by
  have hreads := hp.reads_of_storable h level le_rfl
  have hread := hreads.read [] [] fun c hc => by cases hc
  rw [List.append_nil] at hread
  rw [Json.ofText?, decodeText, String.toList_ofList]
  dsimp only
  rw [hreads.opens.skipBlanks_eq, hread]
  rfl

end Prints

/-- A value that can be written without loss is read back from its text in one line. -/
theorem ofText?_compact (h : Storable depthLimit v) : ofText? v.compact = some v :=
  prints_compact.ofText? h 0

theorem ofText?_pretty (h : Storable depthLimit v) : ofText? v.pretty = some v :=
  prints_pretty.ofText? h 0

end ActivityBoard.Json
