/-!
Lists of rows: ranked by a key, or with a pid in each. A pid may occur more than once: it stands
where it first appears, and its last row counts.
-/
namespace ActivityBoard

/-- The rows by descending key in the order `le`. Rows of equal key keep their order. -/
def ranked {α κ : Type} (key : α → κ) (le : κ → κ → Bool) (rows : List α) : List α :=
  rows.mergeSort fun a b => le (key b) (key a)

def natLe (a b : Nat) : Bool := decide (a ≤ b)

def intLe (a b : Int) : Bool := decide (a ≤ b)

def pairLe (a b : Int × Nat) : Bool :=
  decide (a.1 < b.1) || (decide (a.1 = b.1) && decide (a.2 ≤ b.2))

def firstSeen : List Nat → List Nat
  | [] => []
  | n :: rest => n :: (firstSeen rest).filter (· ≠ n)

namespace Table

def latest? {α : Type} (pid : α → Nat) (rows : List α) (p : Nat) : Option α :=
  rows.reverse.find? fun row => pid row == p

def pids {α : Type} (pid : α → Nat) (rows : List α) : List Nat := firstSeen (rows.map pid)

def distinct {α : Type} (pid : α → Nat) (rows : List α) : List α :=
  (pids pid rows).filterMap (latest? pid rows)

def total {α : Type} (counter : α → Nat) (rows : List α) : Nat :=
  rows.foldr (fun row sum => counter row + sum) 0

end Table

end ActivityBoard
