/-
# CoinSelection.Proofs.Sort.Tables -- the tables say where everything is

The two tables are inverse to each other at the start, and a swap that changes both keeps them so
(`Agree.exchange`).  The table of elements is the list that is put in order, so the place that is
looked up is the place that a search would have found, and the swaps are those of `swapsTo`
(`swaps_start`).
-/
import Mathlib
import CoinSelection.Proofs.Sort.Swaps
import CoinSelection.Sort.Tables

namespace CoinSelection.Sort.Tables

open scoped List

set_option autoImplicit false

variable {t : Tables} {k here found want n : Nat}

/-- An element is at a place exactly when that is its place. -/
def Agree (t : Tables) : Prop := ∀ p e : Nat, t.held[p]? = some e ↔ t.place[e]? = some p

theorem agree_start (n : Nat) : (start n).Agree := by
  intro p e
  simp only [start, Array.getElem?_range]
  grind

/-- A swap settles one place and one element, and sends the element that it finds there to the place
that has become free. -/
theorem Agree.exchange (agree : t.Agree) (holds : t.held[k]? = some here)
    (lies : t.place[want]? = some found) : (t.exchange k here found want).Agree := by
  have hereLies := (agree k here).1 holds
  have foundHolds := (agree found want).2 lies
  intro p e
  have others := agree p e
  simp only [Tables.exchange, Array.getElem?_setIfInBounds]
  grind

section Lists

variable {done rest : List Nat} {h : Nat}

theorem held_behind (holds : t.held = (done ++ h :: rest).toArray) (i : Nat) :
    t.held[done.length + 1 + i]? = rest[i]? := by
  rw [holds, List.getElem?_toArray, List.getElem?_append_right (by omega),
    show done.length + 1 + i - done.length = i + 1 by omega, List.getElem?_cons_succ]

theorem held_exchange (holds : t.held = (done ++ h :: rest).toArray) (i w : Nat) :
    (t.exchange done.length h (done.length + 1 + i) w).held =
      (done ++ w :: rest.set i h).toArray := by
  simp only [Tables.exchange, holds, List.setIfInBounds_toArray]
  rw [List.set_append_right _ _ le_rfl, Nat.sub_self, List.set_cons_zero,
    List.set_append_right _ _ (by omega),
    show done.length + 1 + i - done.length = i + 1 by omega, List.set_cons_succ]

end Lists

/-- The loop from one place on: the table of elements is the list that is put in order, and the place
that is looked up is where the wanted element stands. -/
theorem swaps_eq {k : Nat} {held wanted : List Nat} {swaps : List (Nat × Nat)}
    (settling : Settling k held wanted swaps) (agree : t.Agree) (done : List Nat)
    (place : done.length = k) (holds : t.held = (done ++ held).toArray) :
    t.swaps k wanted = swaps := by
  induction settling generalizing t done with
  | done k => rfl
  | stays w rest ih =>
      subst place
      have front : t.held[done.length]? = some w := by simp [holds]
      have lies := (agree _ _).1 front
      have later := ih agree (done ++ [w]) (by simp) (by simpa using holds)
      simpa [Tables.swaps, lies, front] using later
  | @moves k held wanted swaps h w i there rest ih =>
      subst place
      have front : t.held[done.length]? = some h := by simp [holds]
      have lies := (agree _ _).1 ((held_behind holds i).trans there)
      have moved := held_exchange holds i w
      have later := ih (agree.exchange front lies) (done ++ [w]) (by simp) (by simpa using moved)
      have elsewhere : done.length + 1 + i ≠ done.length := by omega
      simpa [Tables.swaps, lies, front, elsewhere] using later

/-- The tables find the swaps. -/
theorem swaps_start {order : List Nat} (perm : order ~ List.range n) :
    (start n).swaps 0 order = swapsTo order := by
  have length : order.length = n := by simpa using perm.length_eq
  rw [swapsTo, length]
  exact swaps_eq (settling_swapsFrom perm.symm) (agree_start n) [] rfl (by simp [start])

end CoinSelection.Sort.Tables
