/-
# CoinSelection.Source -- collections and windows

A `Source` shows coins at positions.  A collection holds them; a window is a list of positions in
another source, in an order of its own.  Any position can be asked for and any can be listed in a
window, so a lookup can fail, at the window or further down; the fault names the list at which it
failed.

Reordering a window reorders its list of positions and leaves what it looks at alone.

`slots` is what a source shows from the first position to the last, and all that a selection sees.
-/
import CoinSelection.Arrangement
import CoinSelection.Fault
import CoinSelection.Sort.Swaps

namespace CoinSelection

set_option autoImplicit false

/-! ## Lists with positions -/

namespace Shelf

variable {α : Type}

/-- The place of a position, which must be one of the list. -/
def place (shelf : Shelf) (items : Array α) (i : Index) : Except Fault (Fin items.size) :=
  match i.place? items.size with
  | some n => .ok n
  | none => .error (.outOfRange shelf i items.size)

/-- The entry at a position. -/
def entry (shelf : Shelf) (items : Array α) (i : Index) : Except Fault α := do
  return items[← shelf.place items i]

/-- Exchanges two entries; nothing changes unless both are there. -/
def swap (shelf : Shelf) (items : Array α) (i j : Index) : Except Fault (Array α) := do
  let m ← shelf.place items i
  let n ← shelf.place items j
  return items.swap m n

end Shelf

/-! ## Sources -/

inductive Source where
  | collection (coins : Array Coin)
  | window (source : Source) (positions : Array Index)

/-- What a source shows at one position. -/
abbrev Slot := Except Fault Coin

namespace Source

def size : Source → Nat
  | collection coins => coins.size
  | window _ positions => positions.size

/-- The coin at a position. -/
def coin : Source → Index → Slot
  | collection coins, i => Shelf.collection.entry coins i
  | window source positions, i => do source.coin (← Shelf.window.entry positions i)

/-- The position below that a position of a window stands for; a position of a collection stands for
itself. -/
def sourceIndex : Source → Index → Except Fault Index
  | collection coins, i => do
      discard (Shelf.collection.entry coins i)
      return i
  | window _ positions, i => Shelf.window.entry positions i

/-- Whether the coin at `i` is less than the coin at `j`.  In a descending order the coin at `j` is
looked at first. -/
def less (o : Order) (s : Source) (i j : Index) : Except Fault Bool :=
  if o.descending then do
    let b ← s.coin j
    let a ← s.coin i
    return o.less a b
  else do
    let a ← s.coin i
    let b ← s.coin j
    return o.less a b

/-- The source with two positions exchanged. -/
def swap (s : Source) (i j : Index) : Except Fault Source :=
  match s with
  | collection coins => do return collection (← Shelf.collection.swap coins i j)
  | window source positions => do return window source (← Shelf.window.swap positions i j)

/-- The source after several exchanges of positions that are there. -/
def applySwaps (s : Source) (swaps : List (Nat × Nat)) : Source :=
  match s with
  | collection coins => collection (Sort.applySwaps coins swaps)
  | window source positions => window source (Sort.applySwaps positions swaps)

/-- The window over all of a source, in order. -/
def whole (s : Source) : Source := window s (Index.upTo s.size)

def slots (s : Source) : List Slot := (List.range s.size).map fun n => s.coin (.nat n)

@[simp] theorem length_slots (s : Source) : s.slots.length = s.size := by simp [slots]

@[simp] theorem size_applySwaps (s : Source) (swaps : List (Nat × Nat)) :
    (s.applySwaps swaps).size = s.size := by
  cases s <;> simp [applySwaps, size]

end Source

/-! ## What can be read -/

namespace Slot

/-- The coins in front of the first slot that cannot be read. -/
def readable : List Slot → List Coin
  | .ok c :: rest => c :: readable rest
  | _ => []

/-- The fault of a slot that cannot be read. -/
def fault? : Slot → Option Fault
  | .ok _ => none
  | .error f => some f

/-- The fault at a place of a list of slots. -/
def faultAt (slots : List Slot) (n : Nat) : Option Fault := slots[n]?.bind fault?

end Slot

/-! ## Sorting -/

namespace Order

/-- The fault that a sort meets first.  It looks at the slots from the left, except that the first
two of a chunk are compared with each other, and which of them is looked at first depends on the
direction of the order. -/
def firstFault? (o : Order) (slots : List Slot) : Option Fault :=
  let front := Slot.readable slots
  let n := front.length
  if !o.descending
      && Sort.opensChunk o.less (Sort.leastChunk slots.length) slots.length front then
    Slot.faultAt slots (n + 1) <|> Slot.faultAt slots n
  else Slot.faultAt slots n

end Order

/-- The swaps that put a source in order.  Every slot is looked at first, so a fault comes before
anything is moved; a source of fewer than two coins is in order unseen. -/
def Source.sortSwaps (o : Order) (s : Source) : Except Fault (List (Nat × Nat)) :=
  if s.size < 2 then .ok []
  else match o.firstFault? s.slots with
    | some fault => .error fault
    | none => .ok (Sort.swapsTo (o.permutation (Slot.readable s.slots)))

end CoinSelection
