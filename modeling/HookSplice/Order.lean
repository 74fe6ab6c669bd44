/-!
# Stable sorting

Insertion sort by a key.  Elements with equal keys keep their order, which several answers show:
the exits of a run, the regions around an instruction, the edges out of a block.
-/

namespace HookSplice.Order

variable {α : Type}

/-- Puts `x` before the first element whose key is larger. -/
def insertBy (key : α → Nat) (x : α) : List α → List α
  | [] => [x]
  | y :: rest => if key x < key y then x :: y :: rest else y :: insertBy key x rest

/-- The list by ascending key, equal keys in their old order. -/
def sortBy (key : α → Nat) (xs : List α) : List α :=
  xs.foldl (fun sorted x => insertBy key x sorted) []

/-- Puts `x` before the first element whose text is larger. -/
def insertByText (text : α → String) (x : α) : List α → List α
  | [] => [x]
  | y :: rest => if text x < text y then x :: y :: rest else y :: insertByText text x rest

/-- The list by ascending text, in the order of code points; equal texts in their old order. -/
def sortByText (text : α → String) (xs : List α) : List α :=
  xs.foldl (fun sorted x => insertByText text x sorted) []

end HookSplice.Order
