import ActivityBoard.Toml.Value

namespace ActivityBoard.Toml

inductive Line where
  | header (key : Key)
  | element (key : Key)
  | assignment (assignment : Assignment)

def readHeader (cs : List Char) : Option (Line × List Char) := do
  let (key, rest) ← readKey (skipBlanks cs)
  let rest ← match rest with
    | ']' :: rest => some rest
    | _ => none
  pure (.header key, rest)

def readElement (cs : List Char) : Option (Line × List Char) := do
  let (key, rest) ← readKey (skipBlanks cs)
  let rest ← match rest with
    | ']' :: ']' :: rest => some rest
    | _ => none
  pure (.element key, rest)

def readLineContent (fuel : Nat) : List Char → Option (Line × List Char)
  | '[' :: '[' :: rest => readElement rest
  | '[' :: rest => readHeader rest
  | cs => do
    let (a, rest) ← readAssignment skipBlanks (readValue fuel depthLimit) cs
    pure (.assignment a, rest)

def endLine? (cs : List Char) : Option (List Char) :=
  let rest := match skipBlanks cs with
    | '#' :: comment => comment.dropWhile isPlain
    | rest => rest
  if rest.isEmpty then some [] else afterBreak? rest

def readLines : Nat → List Char → Option (List Line)
  | 0, _ => none
  | fuel + 1, cs =>
    match skipGaps false cs with
    | [] => some []
    | cs => do
      let (line, rest) ← readLineContent cs.length cs
      let rest ← endLine? rest
      let lines ← readLines fuel rest
      pure (line :: lines)

structure Draft where
  entries : Entries
  current : List String

namespace Draft

/-- Opens the table of a header: a new one, or one that only headers further in have named. -/
def openTable (name : String) (parent : Entries) : Option Entries :=
  match parent.get? name with
  | none => some (parent ++ [(name, .table .header [])])
  | some (.table .nested inner) => some (parent.replace name (.table .header inner))
  | some _ => none

def openElement (name : String) (parent : Entries) : Option Entries :=
  match parent.get? name with
  | none => some (parent ++ [(name, .tables [] [])])
  | some (.tables earlier last) => some (parent.replace name (.tables (earlier ++ [last]) []))
  | some _ => none

def take (draft : Draft) : Line → Option Draft
  | .header key => do
    let entries ← draft.entries.change .nested (fun _ t => openTable key.name t) .header key.path
    pure ⟨entries, key.path ++ [key.name]⟩
  | .element key => do
    let entries ← draft.entries.change .nested (fun _ t => openElement key.name t) .header key.path
    pure ⟨entries, key.path ++ [key.name]⟩
  | .assignment a => do
    let entries ← draft.entries.change .nested (fun _ t => t.assign a) .header draft.current
    pure { draft with entries := entries }

end Draft

def ofLines? (lines : List Line) : Option Entries :=
  (lines.foldlM Draft.take ⟨[], []⟩).map Draft.entries

def ofText? (text : String) : Option Entries := do
  let cs := match text.toList with
    | '\ufeff' :: rest => rest
    | cs => cs
  let lines ← readLines (cs.length + 1) cs
  ofLines? lines

end ActivityBoard.Toml
