/-! How much two texts have in common: the longest run of characters found in both, and, to its left and to its
right, what they have in common there. -/

namespace CommandScript.Text

/-- How many characters two texts begin with alike. -/
def alikeFor : List Char → List Char → Nat
  | a :: as, b :: bs => if a = b then alikeFor as bs + 1 else 0
  | _, _ => 0

/-- A run of characters found in two texts, by where it begins in each. -/
structure SharedRun where
  left : Nat := 0
  right : Nat := 0
  length : Nat := 0

/-- The longest shared run, of several the one that begins first in the left text, then in the right one. -/
def longestSharedRun (as bs : List Char) : SharedRun :=
  let begins := (List.range as.length).flatMap fun i => (List.range bs.length).map fun j => (i, j)
  begins.foldl (fun best (i, j) =>
    let length := alikeFor (as.drop i) (bs.drop j)
    if best.length < length then ⟨i, j, length⟩ else best) {}

/-- The length of all shared runs together. At most `bound` runs are nested in each other. -/
def sharedWithin : (bound : Nat) → List Char → List Char → Nat
  | 0, _, _ => 0
  | bound + 1, as, bs =>
    let run := longestSharedRun as bs
    if run.length = 0 then 0
    else
      sharedWithin bound (as.take run.left) (bs.take run.right) + run.length +
        sharedWithin bound (as.drop (run.left + run.length)) (bs.drop (run.right + run.length))

def sharedLength (as bs : List Char) : Nat := sharedWithin as.length as bs

/-- Whether shared runs make up three fifths of two texts or more. -/
def resembles (a b : String) : Bool :=
  3 * (a.length + b.length) ≤ 10 * sharedLength a.toList b.toList

end CommandScript.Text
