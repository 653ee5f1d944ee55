/-
# CoinSelection.Deque -- a list taken from at both ends

The elements stand in an array of which a part at the front has been taken already.  Taking from
the front advances over one element; once half of the array lies behind, the rest is copied, so
the cost of taking from the front is constant on average.

`Deque.toList` is the list that a deque stands for, and each operation is stated by what it does
to that list.
-/

namespace CoinSelection

set_option autoImplicit false

structure Deque (α : Type) where
  items : Array α
  /-- How many elements in front have been taken. -/
  taken : Nat
  taken_le : taken ≤ items.size

namespace Deque

variable {α : Type}

def toList (q : Deque α) : List α := q.items.toList.drop q.taken

def size (q : Deque α) : Nat := q.items.size - q.taken

def empty : Deque α := ⟨#[], 0, Nat.le_refl 0⟩

def pushBack (q : Deque α) (x : α) : Deque α where
  items := q.items.push x
  taken := q.taken
  taken_le := by simp only [Array.size_push]; have := q.taken_le; omega

/-- Drops what has been taken. -/
def compact (q : Deque α) : Deque α := ⟨q.items.extract q.taken, 0, Nat.zero_le _⟩

def front? (q : Deque α) : Option α := q.items[q.taken]?

/-- The deque without its first element; an empty one stays as it is. -/
def popFront (q : Deque α) : Deque α :=
  if h : q.taken < q.items.size then
    let next : Deque α := ⟨q.items, q.taken + 1, h⟩
    if q.items.size ≤ 2 * next.taken then next.compact else next
  else q

def back? (q : Deque α) : Option α := if q.taken < q.items.size then q.items.back? else none

/-- The deque without its last element; an empty one stays as it is. -/
def popBack (q : Deque α) : Deque α :=
  if h : q.taken < q.items.size then
    ⟨q.items.pop, q.taken, by simp only [Array.size_pop]; omega⟩
  else q

/-! ## The list of a deque -/

@[simp] theorem toList_empty : (empty : Deque α).toList = [] := rfl

@[simp] theorem length_toList (q : Deque α) : q.toList.length = q.size := by
  simp [toList, size]

@[simp] theorem toList_pushBack (q : Deque α) (x : α) :
    (q.pushBack x).toList = q.toList ++ [x] := by
  have := q.taken_le
  simp only [toList, pushBack, Array.toList_push]
  rw [List.drop_append_of_le_length (by simpa using this)]

@[simp] theorem toList_compact (q : Deque α) : q.compact.toList = q.toList := by
  simp only [toList, compact, Array.toList_extract, List.drop_zero, List.extract_eq_take_drop]
  exact List.take_of_length_le (by simp)

theorem front?_eq (q : Deque α) : q.front? = q.toList.head? := by
  simp [front?, toList]

@[simp] theorem toList_popFront (q : Deque α) : q.popFront.toList = q.toList.tail := by
  unfold popFront
  split
  next h =>
    dsimp only
    split
    · rw [toList_compact]; simp [toList]
    · simp [toList]
  next h =>
    have : q.toList = [] := by simp [toList]; omega
    simp [this]

theorem back?_eq (q : Deque α) : q.back? = q.toList.getLast? := by
  unfold back? toList
  split
  next h =>
    rw [List.getLast?_drop, if_neg (by simpa using h)]
    simp
  next h => rw [List.drop_eq_nil_of_le (by simpa using h)]; rfl

@[simp] theorem toList_popBack (q : Deque α) : q.popBack.toList = q.toList.dropLast := by
  unfold popBack toList
  split
  next h =>
    simp only [Array.toList_pop, List.dropLast_eq_take, List.drop_take, List.length_drop,
      Array.length_toList]
    congr 1; omega
  next h => rw [List.drop_eq_nil_of_le (by simpa using h)]; rfl

end Deque

end CoinSelection
