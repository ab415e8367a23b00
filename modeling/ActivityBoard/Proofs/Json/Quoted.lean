import ActivityBoard.Json.Printer
import ActivityBoard.Json.Reader

namespace ActivityBoard.Json

variable {c : Char} {cs rest : List Char} {pieces : List Piece}

/-- How a character is read once it has been quoted: a control character without a letter of its own
comes back as a code unit. -/
def piece (c : Char) : Piece :=
  if c.toNat < 0x20 ∧ c ∉ ['\x08', '\x0c', '\n', '\r', '\t'] then .unit c.toNat else .char c

theorem codeUnit?_hexChar {n : Nat} (h : n < 0x20) :
    codeUnit? '0' '0' (hexChar (n / 16)) (hexChar (n % 16)) = some n := by
  revert n
  decide

theorem readPieces_escaped {letter : Char} (hu : letter ≠ 'u') (he : escaped? letter = some c)
    (h : readPieces cs = some (pieces, rest)) :
    readPieces ('\\' :: letter :: cs) = some (.char c :: pieces, rest) := by
  simp [readPieces, hu, he, h]

theorem readPieces_quotedChar (c : Char) (h : readPieces cs = some (pieces, rest)) :
    readPieces (quotedChar c ++ cs) = some (piece c :: pieces, rest) := by
  rw [quotedChar]
  -- Seven characters are written as a letter behind a backslash.
  iterate 7
    split
    · rename_i hc
      subst hc
      exact readPieces_escaped (by decide) rfl h
  split
  · rename_i hc
    simp [readPieces, codeUnit?_hexChar hc, piece, *]
  · simp [readPieces, piece, *]

theorem characters?_piece (c : Char) (h : characters? pieces = some cs) :
    characters? (piece c :: pieces) = some (c :: cs) := by
  rw [piece]
  split
  · rename_i hc
    -- A control character is no half of a surrogate pair.
    have htrailing : isTrailing c.toNat = false := by
      rw [isTrailing, Bool.and_eq_false_iff, decide_eq_false_iff_not]
      omega
    have hleading : isLeading c.toNat = false := by
      rw [isLeading, Bool.and_eq_false_iff, decide_eq_false_iff_not]
      omega
    unfold characters?
    simp [htrailing, hleading, h, Char.ofNat_toNat]
  · rw [characters?, h, Option.map_some]

theorem readPieces_flatMap (cs rest : List Char) :
    ∃ pieces, readPieces (cs.flatMap quotedChar ++ '"' :: rest) = some (pieces, rest) ∧
      characters? pieces = some cs := by
  induction cs with
  | nil => exact ⟨[], by simp [readPieces], rfl⟩
  | cons c cs ih =>
    obtain ⟨pieces, hread, hcharacters⟩ := ih
    refine ⟨piece c :: pieces, ?_, characters?_piece c hcharacters⟩
    rw [List.flatMap_cons, List.append_assoc]
    exact readPieces_quotedChar c hread

theorem readPieces_quoted (s : String) (rest : List Char) :
    ∃ pieces, readPieces (s.toList.flatMap quotedChar ++ '"' :: rest) = some (pieces, rest) ∧
      text? pieces = some s := by
  obtain ⟨pieces, hread, hcharacters⟩ := readPieces_flatMap s.toList rest
  refine ⟨pieces, hread, ?_⟩
  rw [text?, hcharacters, Option.map_some, String.ofList_toList]

end ActivityBoard.Json
