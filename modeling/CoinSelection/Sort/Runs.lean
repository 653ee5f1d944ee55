/-
# CoinSelection.Sort.Runs -- the runs that a sort begins from

A list is read once from the left and cut into chunks.  A chunk is a run that is there already,
ascending or strictly descending, lengthened to a least length if it is short.  Where the chunks
begin decides two things: in which order the elements of a list are first looked at
(`opensChunk`), and, for keys that cannot be ordered consistently, what the sort returns
(`Sort.Adaptive`).
-/

namespace CoinSelection.Sort

set_option autoImplicit false

variable {α : Type}

/-- How many elements, each compared with the one before it, go on in one direction. -/
def continues (less : α → α → Bool) (descending : Bool) (last : α) : List α → Nat
  | [] => 0
  | x :: rest =>
      if less x last = descending then continues less descending x rest + 1 else 0

/-- The length of the run at the front of a list.  The first two elements fix its direction. -/
def runLength (less : α → α → Bool) : List α → Nat
  | [] => 0
  | [_] => 1
  | x :: y :: rest => continues less (less y x) y rest + 2

/-- The least length of a chunk: all of a list of fewer than 64 elements, and else between 32 and
64, so that the number of chunks is a power of two or just below one. -/
def leastChunk (n : Nat) : Nat :=
  let halvings := n.log2 - 5
  (n + (1 <<< halvings) - 1) >>> halvings

/-- The length of the chunk at the front of a list with `remaining` elements, of which the front is
known. -/
def chunkLength (less : α → α → Bool) (least remaining : Nat) (front : List α) : Nat :=
  max (runLength less front) (min least remaining)

theorem runLength_pos (less : α → α → Bool) {xs : List α} (h : xs ≠ []) :
    0 < runLength less xs := by
  match xs with
  | [_] => simp [runLength]
  | _ :: _ :: _ => simp [runLength]

/-- Whether a chunk begins right behind the elements in `front`, which are the first of a list with
`remaining` elements. -/
def opensChunk (less : α → α → Bool) (least remaining : Nat) (front : List α) : Bool :=
  if _ : front = [] then true
  else if runLength less front = front.length then false
  else
    let size := chunkLength less least remaining front
    if front.length < size then false
    else opensChunk less least (remaining - size) (front.drop size)
termination_by front.length
decreasing_by
  have filled : front ≠ [] := ‹_›
  have := runLength_pos less filled
  have := List.length_pos_iff.2 filled
  simp only [List.length_drop, chunkLength]
  omega

end CoinSelection.Sort
