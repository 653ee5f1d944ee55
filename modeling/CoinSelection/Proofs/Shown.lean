/-
# CoinSelection.Proofs.Shown -- sources all of whose coins can be read

A source `Shows` a list of coins when each of its positions can be read and the coins are those.  A
collection shows its coins, and so does a window all of whose positions, at every depth, name a
place of what it looks at (`InRange.shows`).

Sorting such a source cannot fail (`Shows.sortSwaps_eq`), and afterwards it shows the same coins in
their new order (`Shows.sorted`).  A policy on it is the policy on the list
(`Shows.apply_eq`), so what is proved about lists of coins holds of collections and windows alike.
-/
import Mathlib
import CoinSelection.Policy
import CoinSelection.Proofs.Arrangement
import CoinSelection.Proofs.Sort.Swaps

namespace CoinSelection

open scoped List

set_option autoImplicit false

section Steps

variable {α β ε : Type} {f : α → Except ε β} {xs : List α}

/-- All steps succeed exactly when each does. -/
theorem mapM_eq_ok_iff {ys : List β} : xs.mapM f = .ok ys ↔ xs.map f = ys.map .ok := by
  induction xs generalizing ys with
  | nil => cases ys <;> simp [pure, Except.pure]
  | cons x xs ih =>
      rw [List.mapM_cons, List.map_cons]
      cases head : f x with
      | error e => cases ys <;> simp [bind, Except.bind]
      | ok y =>
          cases tail : xs.mapM f with
          | error e =>
              cases ys with
              | nil => simp [bind, Except.bind]
              | cons y' ys =>
                  have fails : ¬ xs.map f = ys.map .ok := ih.not.1 (by simp [tail])
                  simp [bind, Except.bind, fails]
          | ok rest =>
              have same := ih.1 tail
              have injective : Function.Injective (Except.ok (ε := ε) (α := β)) :=
                fun _ _ => Except.ok.inj
              cases ys with
              | nil => simp [bind, Except.bind, pure, Except.pure]
              | cons y' ys =>
                  simp [bind, Except.bind, pure, Except.pure, same,
                    (List.map_injective_iff.2 injective).eq_iff]

theorem exists_map_ok (fine : ∀ x ∈ xs, ∃ y, f x = .ok y) :
    ∃ ys : List β, xs.map f = ys.map .ok := by
  induction xs with
  | nil => exact ⟨[], rfl⟩
  | cons x xs ih =>
      obtain ⟨⟨y, head⟩, others⟩ := List.forall_mem_cons.1 fine
      obtain ⟨ys, tail⟩ := ih others
      exact ⟨y :: ys, by rw [List.map_cons, head, tail, List.map_cons]⟩

/-- What succeeds after another step: that step succeeds. -/
theorem exists_of_bind_ok {step : Except ε α} {next : α → Except ε β} {b : β}
    (gives : step >>= next = .ok b) : ∃ a, step = .ok a ∧ next a = .ok b := by
  cases step with
  | error e => cases gives
  | ok a => exact ⟨a, rfl, gives⟩

/-- What fails after another step: one of the two fails. -/
theorem error_of_bind {step : Except ε α} {next : α → Except ε β} {e : ε}
    (fails : step >>= next = .error e) :
    step = .error e ∨ ∃ a, step = .ok a ∧ next a = .error e := by
  cases step with
  | error e' => exact .inl (congrArg _ (Except.error.inj fails))
  | ok a => exact .inr ⟨a, rfl, fails⟩

theorem error_of_map {step : Except ε α} {g : α → β} {e : ε} (fails : step.map g = .error e) :
    step = .error e := by
  cases step with
  | error e' => exact congrArg _ (Except.error.inj fails)
  | ok a => cases fails

theorem exists_of_map_ok {step : Except ε α} {g : α → β} {b : β} (gives : step.map g = .ok b) :
    ∃ a, step = .ok a ∧ g a = b := by
  cases step with
  | error e => cases gives
  | ok a => exact ⟨a, rfl, Except.ok.inj gives⟩

theorem exists_of_mapM_error {e : ε} (fails : xs.mapM f = .error e) : ∃ x ∈ xs, f x = .error e := by
  induction xs with
  | nil => cases fails
  | cons x xs ih =>
      rw [List.mapM_cons] at fails
      rcases error_of_bind fails with head | ⟨y, -, fails⟩
      · exact ⟨x, List.mem_cons_self, head⟩
      · rcases error_of_bind fails with tail | ⟨ys, -, fails⟩
        · obtain ⟨x', inside, fails⟩ := ih tail
          exact ⟨x', List.mem_cons_of_mem x inside, fails⟩
        · cases fails

theorem eq_ok_of_toOption {r : Except ε α × β} {a : α}
    (gives : r.1.toOption = some a) : r = (.ok a, r.2) := by
  obtain ⟨answer, left⟩ := r
  cases answer with
  | error e => cases gives
  | ok b =>
      cases gives
      rfl

end Steps

@[simp] theorem Slot.readable_map_ok (coins : List Coin) :
    Slot.readable (coins.map .ok) = coins := by
  induction coins with
  | nil => rfl
  | cons c coins ih => rw [List.map_cons, Slot.readable, ih]

namespace Index

theorem place?_nat {n size : Nat} (inside : n < size) : (nat n).place? size = some ⟨n, inside⟩ := by
  simp [place?, toNat?, inside]

theorem place?_eq_some {i : Index} {size : Nat} {n : Fin size} (_ : i.place? size = some n) :
    (nat n).place? size = some n :=
  place?_nat n.2

end Index

/-- The entry at a place of the list. -/
theorem Shelf.entry_nat {α : Type} (shelf : Shelf) {items : Array α} {k : Nat}
    (inside : k < items.size) : shelf.entry items (.nat k) = .ok items[k] := by
  rw [entry, place, Index.place?_nat inside]
  rfl

theorem Shelf.fault_of_entry {α : Type} {shelf : Shelf} {items : Array α} {i : Index}
    {fault : Fault} (fails : shelf.entry items i = .error fault) :
    fault = .outOfRange shelf i items.size := by
  rcases error_of_bind fails with fails | ⟨n, -, fails⟩
  · unfold place at fails
    split at fails
    · cases fails
    · exact (Except.error.inj fails).symm
  · cases fails

/-- The positions of coins that are tagged with their places. -/
abbrev positions (coins : List (Coin × Nat)) : List Index := coins.map fun c => .nat c.2

/-- The places of the coins in front are the first numbers. -/
theorem places_take {line : List Coin} {k : Nat} (inside : k ≤ line.length) :
    (line.zipIdx.take k).map (·.2) = List.range k := by
  rw [List.map_take, List.zipIdx_map_snd, List.take_range'_of_length_ge inside,
    List.range_eq_range']

namespace Source

variable {s : Source} {coins : List Coin}

/-! ## What a source shows -/

/-- The source shows these coins, and every position of it can be read. -/
def Shows (s : Source) (coins : List Coin) : Prop := s.slots = coins.map .ok

/-- Every position listed names a place of the source below. -/
def InRange : Source → Prop
  | collection _ => True
  | window source positions =>
      source.InRange ∧ ∀ i ∈ positions, (i.place? source.size).isSome

/-- Coins read one after the other at the places that they are tagged with. -/
theorem mapM_coin {chosen : List (Coin × Nat)}
    (there : ∀ c ∈ chosen, s.coin (.nat c.2) = .ok c.1) :
    (chosen.map (·.2)).mapM (fun k => s.coin (.nat k)) = .ok (chosen.map (·.1)) := by
  rw [mapM_eq_ok_iff, List.map_map, List.map_map]
  exact List.map_congr_left there

theorem slots_collection (coins : Array Coin) :
    (collection coins).slots = coins.toList.map .ok := by
  apply List.ext_getElem (by simp [size])
  intro k _ inside
  have inside : k < coins.size := by simpa using inside
  simp [slots, coin, Shelf.entry_nat _ inside]

theorem slots_window (s : Source) (positions : Array Index) :
    (window s positions).slots = positions.toList.map s.coin := by
  apply List.ext_getElem (by simp [size])
  intro k _ inside
  have inside : k < positions.size := by simpa using inside
  simp [slots, coin, Shelf.entry_nat _ inside, bind, Except.bind]

/-- A lookup that succeeds depends on the place alone. -/
theorem coin_of_place? (s : Source) {i : Index} {n : Fin s.size}
    (there : i.place? s.size = some n) : s.coin i = s.coin (.nat n) := by
  have named := Index.place?_eq_some there
  cases s with
  | collection coins =>
      simp only [size] at n there named
      simp only [coin, Shelf.entry, Shelf.place, there, named]
  | window source positions =>
      simp only [size] at n there named
      simp only [coin, Shelf.entry, Shelf.place, there, named]

/-- A lookup fails at a position that is not there, here or below. -/
theorem fault_of_coin {i : Index} {fault : Fault} (fails : s.coin i = .error fault) :
    ∃ shelf j size, fault = .outOfRange shelf j size := by
  induction s generalizing i with
  | collection coins => exact ⟨_, _, _, Shelf.fault_of_entry fails⟩
  | window source positions ih =>
      rcases error_of_bind fails with here | ⟨j, -, below⟩
      · exact ⟨_, _, _, Shelf.fault_of_entry here⟩
      · exact ih below

namespace Shows

theorem size_eq (shown : s.Shows coins) : s.size = coins.length := by
  rw [← length_slots, shown, List.length_map]

/-- A source shows one list of coins. -/
theorem unique {coins' : List Coin} (shown : s.Shows coins) (shown' : s.Shows coins') :
    coins = coins' := by
  have injective : Function.Injective (Except.ok (ε := Fault) (α := Coin)) :=
    fun _ _ => Except.ok.inj
  exact List.map_injective_iff.2 injective (shown.symm.trans shown')

/-- The coins, read back off the slots. -/
theorem filterMap_toOption (shown : s.Shows coins) : s.slots.filterMap Except.toOption = coins := by
  rw [shown, List.filterMap_map]
  exact List.filterMap_some

theorem coin_eq (shown : s.Shows coins) {k : Nat} (inside : k < coins.length) :
    s.coin (.nat k) = .ok coins[k] := by
  have inSource : k < s.size := shown.size_eq ▸ inside
  have slot : s.slots[k]? = some (.ok coins[k]) := by
    rw [shown, List.getElem?_map, List.getElem?_eq_getElem inside]
    rfl
  simpa [slots, List.getElem?_range inSource] using slot

/-- Each coin can be read at its place. -/
theorem coin_zipIdx (shown : s.Shows coins) :
    ∀ c ∈ coins.zipIdx, s.coin (.nat c.2) = .ok c.1 := by
  intro c listed
  obtain ⟨inside, value⟩ := List.getElem?_eq_some_iff.1 (List.mem_zipIdx_iff_getElem?.1 listed)
  rw [shown.coin_eq inside, value]

end Shows

theorem shows_collection (coins : Array Coin) : (collection coins).Shows coins.toList :=
  slots_collection coins

/-- A collection, or a window whose positions are all in range, shows some coins. -/
theorem InRange.shows {s : Source} (inRange : s.InRange) : ∃ coins, s.Shows coins := by
  induction s with
  | collection coins => exact ⟨_, shows_collection coins⟩
  | window source positions ih =>
      obtain ⟨below, places⟩ := inRange
      obtain ⟨coins, shown⟩ := ih below
      have read : ∀ i ∈ positions.toList, ∃ c, source.coin i = .ok c := by
        intro i listed
        obtain ⟨n, there⟩ := Option.isSome_iff_exists.1 (places i (by simpa using listed))
        rw [coin_of_place? source there]
        exact ⟨_, shown.coin_eq (shown.size_eq ▸ n.2)⟩
      obtain ⟨listed, read⟩ := exists_map_ok read
      exact ⟨listed, (slots_window source positions).trans read⟩

/-! ## Sorting -/

theorem slots_applySwaps (s : Source) (swaps : List (Nat × Nat)) :
    (s.applySwaps swaps).slots = (Sort.applySwaps s.slots.toArray swaps).toList := by
  cases s with
  | collection coins =>
      simp only [applySwaps, slots_collection, ← Array.toList_map, Array.toArray_toList,
        Sort.map_applySwaps]
  | window source positions =>
      simp only [applySwaps, slots_window, ← Array.toList_map, Array.toArray_toList,
        Sort.map_applySwaps]

namespace Shows

theorem reordered (shown : s.Shows coins) {order : List Nat}
    (perm : order ~ List.range coins.length) :
    (s.applySwaps (Sort.swapsTo order)).Shows (order.filterMap (coins[·]?)) := by
  unfold Shows
  rw [slots_applySwaps, shown, Sort.applySwaps_swapsTo _ _ (by simpa using perm),
    List.map_filterMap]
  apply List.filterMap_congr
  intro k _
  simp

theorem sortSwaps_eq (shown : s.Shows coins) (o : Order) :
    s.sortSwaps o = .ok (Sort.swapsTo (o.permutation coins)) := by
  have slots : s.slots = coins.map .ok := shown
  have noFault : ∀ n, Slot.faultAt (coins.map .ok) n = none := by
    intro n
    unfold Slot.faultAt
    rw [List.getElem?_map]
    cases coins[n]? <;> rfl
  rw [sortSwaps, shown.size_eq]
  split
  · rename_i few
    have perm := o.permutation_perm coins
    match coins, few with
    | [], _ => rw [List.Perm.eq_nil perm]; rfl
    | [c], _ => rw [List.perm_singleton.1 perm]; rfl
  · simp [slots, Order.firstFault?, noFault]

end Shows

end Source

/-! ## Policies -/

namespace Policy

variable {τ υ : Type} {s : Source} {coins : List Coin}

/-- Tagged coins in the order of the policy. -/
def ordered (p : Policy) (coins : List (Coin × τ)) : List (Coin × τ) :=
  match p.order? with
  | some o => o.arrange coins
  | none => coins

theorem ordered_perm (p : Policy) (coins : List (Coin × τ)) : p.ordered coins ~ coins := by
  unfold ordered
  split
  · exact Order.arrange_perm _ _
  · exact List.Perm.refl _

/-- The places of some coins, in the order of the policy. -/
theorem places_perm (p : Policy) (coins : List Coin) :
    (p.ordered coins.zipIdx).map (·.2) ~ List.range coins.length := by
  simpa [List.zipIdx_map_snd, List.range_eq_range'] using (p.ordered_perm coins.zipIdx).map (·.2)

/-- The coins in the order of the policy. -/
def inLine (p : Policy) (coins : List Coin) : List Coin := (p.ordered coins.zipIdx).map (·.1)

theorem inLine_perm (p : Policy) (coins : List Coin) : p.inLine coins ~ coins := by
  simpa [inLine, List.zipIdx_map_fst] using (p.ordered_perm coins.zipIdx).map (·.1)

theorem ordered_map (p : Policy) (f : τ → υ) (coins : List (Coin × τ)) :
    p.ordered (coins.map fun c => (c.1, f c.2)) =
      (p.ordered coins).map fun c => (c.1, f c.2) := by
  unfold ordered
  split
  · exact Order.map_arrange _ f coins
  · rfl

/-- The source in the order of the policy. -/
def sorted (p : Policy) (s : Source) (coins : List Coin) : Source :=
  s.applySwaps (Sort.swapsTo ((p.ordered coins.zipIdx).map (·.2)))

/-- What the policy answers when it sees these coins in order. -/
def answer (p : Policy) (budget : Nat) (g : Goal) (coins : List Coin) : Except Fault (List Nat) :=
  match p.choose budget g coins.zipIdx with
  | some chosen => .ok (chosen.map (·.2))
  | none => .error (.noSelection g.target)

theorem answer_eq_ok {p : Policy} {budget : Nat} {g : Goal} {places : List Nat}
    (found : p.answer budget g coins = .ok places) :
    ∃ chosen, p.choose budget g coins.zipIdx = some chosen ∧ chosen.map (·.2) = places := by
  unfold answer at found
  split at found
  · rename_i chosen chooses
    exact ⟨chosen, chooses, Except.ok.inj found⟩
  · cases found

theorem choosePositions_shown (p : Policy) (budget : Nat) (g : Goal) (coins : List Coin) :
    p.choosePositions budget g (coins.map .ok) = p.answer budget g coins := by
  have near : ¬ coins.length < p.reach budget coins.length := by
    cases p <;> simp [reach]
  unfold choosePositions answer
  rw [Slot.readable_map_ok]
  dsimp only
  cases p.choose budget g coins.zipIdx with
  | some chosen => rfl
  | none => simp [near]

end Policy

namespace Source.Shows

variable {s : Source} {coins : List Coin}

theorem sorted (shown : s.Shows coins) (p : Policy) :
    (p.sorted s coins).Shows ((p.ordered coins.zipIdx).map (·.1)) := by
  have read : ((p.ordered coins.zipIdx).map (·.2)).filterMap (coins[·]?) =
      (p.ordered coins.zipIdx).map (·.1) := by
    rw [List.filterMap_map, ← List.filterMap_eq_map]
    apply List.filterMap_congr
    intro c placed
    exact List.mem_zipIdx_iff_getElem?.1 ((p.ordered_perm coins.zipIdx).mem_iff.1 placed)
  exact read ▸ shown.reordered (p.places_perm coins)

theorem swaps_eq (shown : s.Shows coins) (p : Policy) :
    p.swaps s = .ok (Sort.swapsTo ((p.ordered coins.zipIdx).map (·.2))) := by
  unfold Policy.swaps Policy.ordered
  cases p.order? with
  | some o =>
      dsimp only
      rw [shown.sortSwaps_eq, Order.arrange_zipIdx]
  | none =>
      dsimp only
      rw [List.zipIdx_map_snd, ← List.range_eq_range', Sort.swapsTo_range]

/-- A policy on a source that is shown is the policy on the list in order. -/
theorem apply_eq (shown : s.Shows coins) (p : Policy) (budget : Nat) (g : Goal) :
    p.apply budget g s =
      (p.answer budget g ((p.ordered coins.zipIdx).map (·.1)), p.sorted s coins) := by
  have slots : (p.sorted s coins).slots = ((p.ordered coins.zipIdx).map (·.1)).map .ok :=
    shown.sorted p
  rw [← Policy.choosePositions_shown, ← slots, Policy.apply, shown.swaps_eq]
  rfl

end Source.Shows

end CoinSelection
