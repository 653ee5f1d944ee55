/-
# CoinSelection.Proofs.Session -- objects, and what becomes of them

What a number stands for depends on the objects up to that number alone (`source?_congr`), so new
objects change nothing (`Extends.source?_eq`), and neither does what happens to an object that comes
later.  An object that is a source is put in another order by `Session.reorder`; then it stands for
that source (`source?_reorder`) and every other object is as it was (`getElem?_reorder`).
-/
import Mathlib
import CoinSelection.Session

namespace CoinSelection

set_option autoImplicit false

/-! ## Sources in another order -/

/-- A source with its entries in another order.  A window looks at what it looked at. -/
inductive Source.Rearranged : Source → Source → Prop where
  | collection {coins coins' : Array Coin} (perm : coins'.Perm coins) :
      Rearranged (.collection coins) (.collection coins')
  | window {source : Source} {positions positions' : Array Index}
      (perm : positions'.Perm positions) :
      Rearranged (.window source positions) (.window source positions')

theorem Source.rearranged_applySwaps (s : Source) (swaps : List (Nat × Nat)) :
    s.Rearranged (s.applySwaps swaps) := by
  cases s with
  | collection coins => exact .collection (Sort.applySwaps_perm _ _)
  | window source positions => exact .window (Sort.applySwaps_perm _ _)

namespace Session

variable {s s' s'' : Session} {ref k : Nat} {source source' source'' : Source}

/-! ## What a number stands for -/

theorem source?_eq_collection {coins : Array Coin} :
    s.source? ref = some (.collection coins) ↔ s.objects[ref]? = some (.collection coins) := by
  rw [source?]
  cases s.objects[ref]? with
  | none => simp
  | some object =>
      cases object with
      | collection coins' => simp
      | window below positions => by_cases earlier : below < ref <;> simp [earlier]
      | subset below contents => simp

theorem source?_eq_window {positions : Array Index} :
    s.source? ref = some (.window source positions) ↔
      ∃ below < ref, s.objects[ref]? = some (.window below positions) ∧
        s.source? below = some source := by
  rw [source?]
  cases s.objects[ref]? with
  | none => simp
  | some object =>
      cases object with
      | collection coins => simp
      | window below positions' =>
          by_cases earlier : below < ref
          · simp [earlier]
            grind
          · simp [earlier]
      | subset below contents => simp

theorem lt_of_source? (there : s.source? ref = some source) : ref < s.objects.size := by
  have held : s.objects[ref]? ≠ none := by
    intro missing
    rw [source?, missing] at there
    cases there
  by_contra beyond
  exact held (Array.getElem?_eq_none (by omega))

theorem source?_congr (same : ∀ k ≤ ref, s'.objects[k]? = s.objects[k]?) :
    s'.source? ref = s.source? ref := by
  induction ref using Nat.strong_induction_on with
  | _ ref ih =>
      rw [source?, source?, same ref le_rfl]
      cases s.objects[ref]? with
      | none => rfl
      | some object =>
          cases object with
          | collection coins => rfl
          | window below positions =>
              by_cases earlier : below < ref
              · have below_eq := ih below earlier fun k lower => same k (lower.trans earlier.le)
                simp only [earlier, if_true, below_eq]
              · simp only [earlier, if_false]
          | subset below contents => rfl

/-! ## New objects -/

/-- All the objects are there as they were, and perhaps some new ones. -/
def Extends (s s' : Session) : Prop := ∃ made : Array Object, s'.objects = s.objects ++ made

namespace Extends

theorem refl (s : Session) : s.Extends s := ⟨#[], (Array.append_empty ..).symm⟩

theorem trans (first : s.Extends s') (second : s'.Extends s'') : s.Extends s'' := by
  obtain ⟨made, first⟩ := first
  obtain ⟨made', second⟩ := second
  exact ⟨made ++ made', by rw [second, first, Array.append_assoc]⟩

theorem push (s : Session) (o : Object) : s.Extends (s.push o) := ⟨#[o], Array.push_eq_append ..⟩

theorem getElem?_eq (grown : s.Extends s') (old : k < s.objects.size) :
    s'.objects[k]? = s.objects[k]? := by
  obtain ⟨made, grown⟩ := grown
  rw [grown, Array.getElem?_append_left old]

theorem source?_eq (grown : s.Extends s') (there : s.source? ref = some source) :
    s'.source? ref = some source := by
  rw [← there]
  apply source?_congr
  intro k lower
  exact grown.getElem?_eq (lower.trans_lt (lt_of_source? there))

end Extends

/-- A new window looks at what its number stands for. -/
theorem source?_push_window (there : s.source? ref = some source) (positions : Array Index) :
    (s.push (.window ref positions)).source? s.objects.size = some (.window source positions) := by
  rw [source?_eq_window]
  refine ⟨ref, lt_of_source? there, ?_, (Extends.push s _).source?_eq there⟩
  rw [Session.push, Array.getElem?_push_size]

/-! ## Objects in another order -/

@[simp] theorem size_set (s : Session) (ref : Nat) (o : Object) :
    (s.set ref o).objects.size = s.objects.size := by
  simp [set]

theorem getElem?_set_ne {o : Object} (other : k ≠ ref) :
    (s.set ref o).objects[k]? = s.objects[k]? :=
  Array.getElem?_setIfInBounds_ne other.symm

theorem getElem?_set_self {o : Object} (old : ref < s.objects.size) :
    (s.set ref o).objects[ref]? = some o :=
  Array.getElem?_setIfInBounds_self_of_lt old

theorem reorder_collection {coins : Array Coin} (held : s.objects[ref]? = some (.collection coins))
    (coins' : Array Coin) : s.reorder ref (.collection coins') = s.set ref (.collection coins') := by
  simp only [reorder, held]

theorem reorder_window {below : Nat} {positions : Array Index}
    (held : s.objects[ref]? = some (.window below positions)) (source : Source)
    (positions' : Array Index) :
    s.reorder ref (.window source positions') = s.set ref (.window below positions') := by
  simp only [reorder, held]

/-- Whatever the order, it is that of one object alone. -/
theorem getElem?_reorder (s : Session) (source : Source) (other : k ≠ ref) :
    (s.reorder ref source).objects[k]? = s.objects[k]? := by
  unfold reorder
  split
  · exact getElem?_set_ne other
  · exact getElem?_set_ne other
  · rfl

@[simp] theorem size_reorder (s : Session) (ref : Nat) (source : Source) :
    (s.reorder ref source).objects.size = s.objects.size := by
  unfold reorder
  split <;> simp

theorem source?_reorder (there : s.source? ref = some source)
    (rearranged : source.Rearranged source') :
    (s.reorder ref source').source? ref = some source' := by
  have old := lt_of_source? there
  cases rearranged with
  | collection perm =>
      rw [reorder_collection (source?_eq_collection.1 there)]
      exact source?_eq_collection.2 (getElem?_set_self old)
  | window perm =>
      obtain ⟨below, earlier, held, looks⟩ := source?_eq_window.1 there
      rw [reorder_window held]
      refine source?_eq_window.2 ⟨below, earlier, getElem?_set_self old, ?_⟩
      rw [← looks]
      apply source?_congr
      intro k lower
      exact getElem?_set_ne (by omega)

theorem set_self {o : Object} (held : s.objects[ref]? = some o) : s.set ref o = s := by
  obtain ⟨old, value⟩ := Array.getElem?_eq_some_iff.1 held
  show Session.mk _ = _
  congr 1
  rw [Array.setIfInBounds, dif_pos old, ← value]
  exact Array.set_getElem_self old

theorem set_set (s : Session) (ref : Nat) (o o' : Object) :
    (s.set ref o).set ref o' = s.set ref o' := by
  simp [set]

theorem reorder_self (there : s.source? ref = some source) : s.reorder ref source = s := by
  cases source with
  | collection coins =>
      have held := source?_eq_collection.1 there
      rw [reorder_collection held, set_self held]
  | window source positions =>
      obtain ⟨below, -, held, -⟩ := source?_eq_window.1 there
      rw [reorder_window held, set_self held]

theorem reorder_reorder (there : s.source? ref = some source)
    (first : source.Rearranged source') (second : source'.Rearranged source'') :
    (s.reorder ref source').reorder ref source'' = s.reorder ref source'' := by
  have old := lt_of_source? there
  cases first with
  | collection perm =>
      cases second
      have held := source?_eq_collection.1 there
      rw [reorder_collection held, reorder_collection held,
        reorder_collection (getElem?_set_self old), set_set]
  | window perm =>
      cases second
      obtain ⟨below, -, held, -⟩ := source?_eq_window.1 there
      rw [reorder_window held, reorder_window held, reorder_window (getElem?_set_self old), set_set]

/-- The order of a new window. -/
theorem reorder_push (s : Session) (ref : Nat) (source : Source)
    (positions positions' : Array Index) :
    (s.push (.window ref positions)).reorder s.objects.size (.window source positions') =
      s.push (.window ref positions') := by
  have held : (s.push (.window ref positions)).objects[s.objects.size]? =
      some (.window ref positions) := by
    rw [push, Array.getElem?_push_size]
  rw [reorder_window held]
  show Session.mk _ = Session.mk _
  congr 1
  apply Array.ext
  · simp [push]
  · intro k _ _
    grind [push]

end Session

end CoinSelection
