/-
# CoinSelection.Proofs.Subset.Method -- a subset is a list that is taken from at both ends

What is asked of a subset is answered as by a plain list of positions: positions are added at the
end and taken from either end, and a coin is what the source shows at its position
(`Operation.answer`, `Operation.listAfter`).  The totals go up by the coin that is added and down by
the coin that is returned, and not at all if the operation fails (`Operation.change?`).

`perform_eq` states this of the methods, which work in place: what has been taken already stays in
front of the list until it is dropped, and a failure undoes nothing.
-/
import Mathlib
import CoinSelection.Session
import CoinSelection.Proofs.Subset
import CoinSelection.Proofs.Subset.Change

namespace CoinSelection

set_option autoImplicit false

/-- Steps that work in place: what comes next goes on where the first part ends, unless that
fails. -/
theorem run_bind {σ α β : Type} (first : ExceptT Fault (StateM σ) α)
    (next : α → ExceptT Fault (StateM σ) β) (s : σ) :
    (first >>= next).run s = match first.run s with
      | (.ok a, after) => (next a).run after
      | (.error fault, after) => (.error fault, after) := by
  simp only [bind, ExceptT.bind, ExceptT.mk, ExceptT.run, StateT.bind]
  cases first s with
  | mk given after =>
      cases given with
      | error fault => rfl
      | ok a => rfl

namespace Subset

variable {α : Type} {source : Source} {s : Subset} {i : Index}

/-! ## Methods -/

namespace Method

theorem get_run (s : Subset) : (get : Method Subset).run s = (.ok s, s) := rfl

theorem lookUp_run (source : Source) (i : Index) (s : Subset) :
    (lookUp source i).run s = (source.coin i, s) := rfl

/-- The method gives what the operation on values gives; and it has changed nothing when it fails,
so there is nothing to undo. -/
def Does (method : Method α) (s : Subset) (outcome : Except Fault (α × Subset)) : Prop :=
  method.run s = match outcome with
    | .ok (a, after) => (.ok a, after)
    | .error fault => (.error fault, s)

theorem pushBack_does (source : Source) (i : Index) (s : Subset) :
    Does (pushBack source i) s ((Subset.pushBack source s i).map fun after => ((), after)) := by
  unfold Does pushBack Subset.pushBack
  rw [run_bind, lookUp_run]
  cases source.coin i with
  | error fault => rfl
  | ok c => rfl

theorem popBack_does (source : Source) (s : Subset) :
    Does (popBack source) s (Subset.popBack source s) := by
  unfold Does popBack Subset.popBack
  rw [run_bind, get_run]
  dsimp only
  cases s.positions.back? with
  | none => rfl
  | some i =>
      dsimp only
      rw [run_bind, lookUp_run]
      cases source.coin i with
      | error fault => rfl
      | ok c => rfl

theorem popFront_does (source : Source) (s : Subset) :
    Does (popFront source) s (Subset.popFront source s) := by
  unfold Does popFront Subset.popFront
  rw [run_bind, get_run]
  dsimp only
  cases s.positions.front? with
  | none => rfl
  | some i =>
      dsimp only
      rw [run_bind, lookUp_run]
      cases source.coin i with
      | error fault => rfl
      | ok c => rfl

/-- All of the array is read, after what has been taken was dropped from it. -/
theorem indexes_run (s : Subset) :
    indexes.run s = (.ok s.indexes, ⟨s.positions.compact, s.totals⟩) := by
  have read : s.positions.compact.items.toList = s.indexes := Deque.toList_compact s.positions
  rw [← read]
  rfl

theorem mapM_lookUp_run (source : Source) (listed : List Index) (s : Subset) :
    (listed.mapM (lookUp source)).run s = (listed.mapM source.coin, s) := by
  induction listed with
  | nil => rfl
  | cons i listed ih =>
      rw [List.mapM_cons, List.mapM_cons, run_bind, lookUp_run]
      cases source.coin i with
      | error fault => rfl
      | ok c =>
          dsimp only
          rw [run_bind, ih]
          cases listed.mapM source.coin with
          | error fault => rfl
          | ok cs => rfl

theorem coins_run (source : Source) (s : Subset) :
    (coins source).run s = (s.coins source, ⟨s.positions.compact, s.totals⟩) := by
  rw [coins, run_bind, indexes_run]
  exact mapM_lookUp_run source s.indexes _

end Method

/-! ## Plain lists -/

theorem back?_eq (s : Subset) : s.positions.back? = s.indexes.getLast? := Deque.back?_eq _

theorem front?_eq (s : Subset) : s.positions.front? = s.indexes.head? := Deque.front?_eq _

namespace Operation

/-- How a plain list of positions answers. -/
def answer (source : Source) (list : List Index) : Operation → Except Fault Answer
  | size => .ok (.count list.length)
  | pushBack i => (source.coin i).map fun _ => .done
  | popBack =>
      match list.getLast? with
      | none => .error (.emptySubset "popBack")
      | some i => (source.coin i).map .coin
  | popFront =>
      match list.head? with
      | none => .error (.emptySubset "popFront")
      | some i => (source.coin i).map .coin
  | indexes => .ok (.indexes list)
  | coins => (list.mapM source.coin).map .coins

/-- The list after an operation that was answered so. -/
def listAfter (answered : Except Fault Answer) (list : List Index) : Operation → List Index
  | pushBack i => if answered.isOk then list ++ [i] else list
  | popBack => if answered.isOk then list.dropLast else list
  | popFront => if answered.isOk then list.tail else list
  | size | indexes | coins => list

/-- The coin that is added or returned by an operation that was answered so. -/
def change? (source : Source) (answered : Except Fault Answer) : Operation → Option Change
  | pushBack i => if answered.isOk then (source.coin i).toOption.map .added else none
  | popBack | popFront =>
      match answered with
      | .ok (.coin c) => some (.returned c)
      | _ => none
  | size | indexes | coins => none

/-! ### Failures -/

theorem listAfter_error (fault : Fault) (list : List Index) (op : Operation) :
    op.listAfter (.error fault) list = list := by
  cases op <;> rfl

theorem change?_error (source : Source) (fault : Fault) (op : Operation) :
    op.change? source (.error fault) = none := by
  cases op <;> rfl

/-- An operation fails for want of a coin, which only the empty list can want, or in a lookup. -/
theorem error_cases {fault : Fault} {list : List Index} {op : Operation}
    (fails : op.answer source list = .error fault) :
    (∃ shelf i size, fault = .outOfRange shelf i size) ∨
      (list = [] ∧ (op = .popBack ∨ op = .popFront)) := by
  cases op with
  | size => cases fails
  | pushBack i => exact .inl (Source.fault_of_coin (error_of_map fails))
  | popBack =>
      cases last : list.getLast? with
      | none => exact .inr ⟨List.getLast?_eq_none_iff.1 last, .inl rfl⟩
      | some i =>
          rw [answer, last] at fails
          exact .inl (Source.fault_of_coin (error_of_map fails))
  | popFront =>
      cases first : list.head? with
      | none => exact .inr ⟨List.head?_eq_none_iff.1 first, .inr rfl⟩
      | some i =>
          rw [answer, first] at fails
          exact .inl (Source.fault_of_coin (error_of_map fails))
  | indexes => cases fails
  | coins =>
      obtain ⟨i, -, fails⟩ := exists_of_mapM_error (error_of_map fails)
      exact .inl (Source.fault_of_coin fails)

theorem wants_iff (source : Source) (list : List Index) (op : Operation) :
    (∃ name, op.answer source list = .error (.emptySubset name)) ↔
      list = [] ∧ (op = .popBack ∨ op = .popFront) := by
  constructor
  · rintro ⟨name, fails⟩
    rcases error_cases fails with ⟨shelf, i, size, different⟩ | empty
    · cases different
    · exact empty
  · rintro ⟨rfl, rfl | rfl⟩
    · exact ⟨_, rfl⟩
    · exact ⟨_, rfl⟩

/-! ### Answers -/

/-- A subset answers as its list does. -/
theorem perform_eq (source : Source) (op : Operation) (s : Subset) :
    ∃ after, (op.perform source).run s = (op.answer source s.indexes, after) ∧
      after.indexes = op.listAfter (op.answer source s.indexes) s.indexes ∧
      after.totals = (op.change? source (op.answer source s.indexes)).elim s.totals
        (Change.apply s.totals) := by
  have compacted : (⟨s.positions.compact, s.totals⟩ : Subset).indexes = s.indexes :=
    Deque.toList_compact s.positions
  cases op with
  | size =>
      refine ⟨s, ?_, rfl, rfl⟩
      rw [answer, ← size_eq]
      rfl
  | pushBack i =>
      have does := Method.pushBack_does source i s
      unfold Method.Does Subset.pushBack at does
      rw [perform, run_bind, does, answer, change?]
      cases source.coin i with
      | error fault => exact ⟨s, rfl, rfl, rfl⟩
      | ok c => exact ⟨⟨s.positions.pushBack i, s.totals.add c⟩, rfl, Deque.toList_pushBack _ _, rfl⟩
  | popBack =>
      have does := Method.popBack_does source s
      unfold Method.Does Subset.popBack at does
      rw [back?_eq] at does
      rw [perform, run_bind, does, answer]
      cases s.indexes.getLast? with
      | none => exact ⟨s, rfl, rfl, rfl⟩
      | some i =>
          dsimp only
          cases source.coin i with
          | error fault => exact ⟨s, rfl, rfl, rfl⟩
          | ok c =>
              exact ⟨⟨s.positions.popBack, s.totals.remove c⟩, rfl, Deque.toList_popBack _, rfl⟩
  | popFront =>
      have does := Method.popFront_does source s
      unfold Method.Does Subset.popFront at does
      rw [front?_eq] at does
      rw [perform, run_bind, does, answer]
      cases s.indexes.head? with
      | none => exact ⟨s, rfl, rfl, rfl⟩
      | some i =>
          dsimp only
          cases source.coin i with
          | error fault => exact ⟨s, rfl, rfl, rfl⟩
          | ok c =>
              exact ⟨⟨s.positions.popFront, s.totals.remove c⟩, rfl, Deque.toList_popFront _, rfl⟩
  | indexes =>
      refine ⟨⟨s.positions.compact, s.totals⟩, ?_, compacted, rfl⟩
      rw [perform, run_bind, Method.indexes_run]
      rfl
  | coins =>
      refine ⟨⟨s.positions.compact, s.totals⟩, ?_, compacted, rfl⟩
      rw [perform, run_bind, Method.coins_run, answer, Subset.coins]
      cases s.indexes.mapM source.coin with
      | error fault => rfl
      | ok cs => rfl

end Operation

end Subset

end CoinSelection
