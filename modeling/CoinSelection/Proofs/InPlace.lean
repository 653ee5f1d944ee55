/-
# CoinSelection.Proofs.InPlace -- what a selection does to shared objects

A selection in place (`InPlace.select`) makes windows over windows, sorts them and reads through
them, all of them objects that refer to each other.  It gives what the same selection gives on
values, and of the objects that were there it changes one: the one it was asked to select from,
which it leaves sorted (`run_follows`, `select_follows`).

`Keeps` says of an action that all objects stay as they were and new ones may have been made;
`Follows` that one object is put in another order besides.  Every part of a search is stated by one
of the two.  A window that has just been made is not among the objects that were there, so an action
that `Follows` on it keeps the rest (`Follows.keeps`).
-/
import Mathlib
import CoinSelection.InPlace
import CoinSelection.Proofs.MinPriority.Checked
import CoinSelection.Proofs.Session

namespace CoinSelection

open scoped List

set_option autoImplicit false

/-! ## Swaps that can be carried out -/

theorem Slot.length_readable_le (slots : List Slot) : (readable slots).length ≤ slots.length := by
  fun_induction readable slots with
  | case1 c rest ih => simpa using ih
  | case2 => simp

theorem Source.sortSwaps_inside {o : Order} {s : Source} {swaps : List (Nat × Nat)}
    (sorts : s.sortSwaps o = .ok swaps) : ∀ w ∈ swaps, w.1 < w.2 ∧ w.2 < s.size := by
  unfold sortSwaps at sorts
  split at sorts
  · cases sorts
    simp
  · split at sorts
    · cases sorts
    · cases sorts
      intro w listed
      have inside := Sort.swapsTo_inside (o.permutation_perm _) w listed
      have front := Slot.length_readable_le s.slots
      rw [length_slots] at front
      omega

theorem Policy.swaps_inside {p : Policy} {s : Source} {swaps : List (Nat × Nat)}
    (sorts : p.swaps s = .ok swaps) : ∀ w ∈ swaps, w.1 < w.2 ∧ w.2 < s.size := by
  unfold Policy.swaps at sorts
  split at sorts
  · exact Source.sortSwaps_inside sorts
  · cases sorts
    simp

theorem Source.swap_nat {s : Source} {i j : Nat} (insideI : i < s.size) (insideJ : j < s.size) :
    s.swap (.nat i) (.nat j) = .ok (s.applySwaps [(i, j)]) := by
  cases s with
  | collection coins =>
      simp only [size] at insideI insideJ
      simp [Source.swap, Shelf.swap, Shelf.place, Index.place?_nat, insideI, insideJ, applySwaps,
        Sort.applySwaps, bind, Except.bind, pure, Except.pure, Array.swapIfInBounds_def]
  | window source positions =>
      simp only [size] at insideI insideJ
      simp [Source.swap, Shelf.swap, Shelf.place, Index.place?_nat, insideI, insideJ, applySwaps,
        Sort.applySwaps, bind, Except.bind, pure, Except.pure, Array.swapIfInBounds_def]

@[simp] theorem Source.applySwaps_nil (s : Source) : s.applySwaps [] = s := by cases s <;> rfl

theorem Source.applySwaps_cons (s : Source) (w : Nat × Nat) (swaps : List (Nat × Nat)) :
    (s.applySwaps [w]).applySwaps swaps = s.applySwaps (w :: swaps) := by
  cases s <;> rfl

theorem Policy.rearranged_apply (p : Policy) (budget : Nat) (g : Goal) (s : Source) :
    s.Rearranged (p.apply budget g s).2 := by
  unfold Policy.apply
  split
  · simpa using s.rearranged_applySwaps []
  · exact s.rearranged_applySwaps _

namespace InPlace

open MinPriority
open MinPriority.Checked (Mishap Step Limits quotient firstReaching pad combine)

variable {α β : Type} {s s' : Session} {ref : Nat} {source : Source}

/-! ## Actions -/

section Actions

variable {action : Action α} {next : α → Action β} {a : α} {mishap : Mishap}

theorem bind_ok (gives : action s = some (.ok a, s')) : (action >>= next) s = next a s' := by
  simp [bind, ExceptT.bind, ExceptT.mk, StateT.bind, ExceptT.bindCont, gives]

theorem bind_error (gives : action s = some (.error mishap, s')) :
    (action >>= next) s = some (.error mishap, s') := by
  simp [bind, ExceptT.bind, ExceptT.mk, StateT.bind, ExceptT.bindCont, gives, pure, StateT.pure]

theorem lift_eq (step : Step α) (s : Session) : (liftM step : Action α) s = some (step, s) := rfl

theorem look_eq (there : s.source? ref = some source) :
    look ref s = some (.ok source, s) := by
  simp [look, ExceptT.mk, there]

/-- The want of a selection as a value. -/
def attempted : Step α → Step (Option α)
  | .ok a => .ok (some a)
  | .error (.fault (.noSelection _)) => .ok none
  | .error mishap => .error mishap

theorem attempted_error (other : ∀ target, mishap ≠ .fault (.noSelection target)) :
    attempted (.error mishap : Step α) = .error mishap := by
  cases mishap with
  | fault f =>
      cases f with
      | noSelection target => exact absurd rfl (other target)
      | _ => rfl
  | divisionByZero => rfl
  | notSmaller => rfl

theorem attempt_eq {r : Step α} (gives : action s = some (r, s')) :
    attempt action s = some (attempted r, s') := by
  have mapped : (some <$> action) s = some (some <$> r, s') := by
    simp only [Functor.map, ExceptT.map, ExceptT.mk, bind, StateT.bind, gives]
    cases r <;> rfl
  unfold attempt
  simp only [tryCatch, tryCatchThe, MonadExceptOf.tryCatch, ExceptT.tryCatch, ExceptT.mk, bind,
    StateT.bind, mapped]
  cases r with
  | ok a => rfl
  | error mishap =>
      cases mishap with
      | fault f => cases f <;> rfl
      | divisionByZero => rfl
      | notSmaller => rfl

end Actions

/-! ## What becomes of the objects -/

/-- The action gives this, and the objects of `base` are there afterwards as they were. -/
def Keeps (base : Session) (action : Action α) (s : Session) (r : Step α) : Prop :=
  ∃ s', action s = some (r, s') ∧ base.Extends s'

namespace Keeps

variable {base : Session} {action : Action α} {next : α → Action β} {r : Step α} {r' : Step β}

theorem of_eq (gives : action s = some (r, s')) (grown : base.Extends s') :
    Keeps base action s r :=
  ⟨s', gives, grown⟩

/-- What comes after an action that gives something. -/
theorem after {a : α} (gives : action s = some (.ok a, s')) (second : Keeps base (next a) s' r') :
    Keeps base (action >>= next) s r' := by
  obtain ⟨s₂, gives₂, grown⟩ := second
  exact of_eq ((bind_ok gives).trans gives₂) grown

theorem bind {rest : α → Step β} (first : Keeps base action s r)
    (second : ∀ a s', base.Extends s' → Keeps base (next a) s' (rest a)) :
    Keeps base (action >>= next) s (r >>= rest) := by
  obtain ⟨s₁, gives, grown⟩ := first
  cases r with
  | error mishap => exact of_eq (bind_error gives) grown
  | ok a => exact (second a s₁ grown).after gives

theorem lift_bind {step : Step α} {rest : α → Step β} (grown : base.Extends s)
    (second : ∀ a, step = .ok a → Keeps base (next a) s (rest a)) :
    Keeps base (liftM step >>= next) s (step >>= rest) := by
  cases step with
  | error mishap => exact of_eq (bind_error (lift_eq _ s)) grown
  | ok a => exact (second a rfl).after (lift_eq _ s)

theorem look_bind {next : Source → Action β} (there : s.source? ref = some source)
    (second : Keeps base (next source) s r') : Keeps base (look ref >>= next) s r' :=
  second.after (look_eq there)

/-- An action that may want a selection: what comes next depends on whether it does. -/
theorem attempt_bind {next : Option α → Action β} (gives : action s = some (r, s'))
    (grown : base.Extends s')
    (wanting : ∀ target, r = .error (.fault (.noSelection target)) → Keeps base (next none) s' r')
    (found : ∀ a, r = .ok a → Keeps base (next (some a)) s' r')
    (fails : ∀ mishap, r = .error mishap →
      (∀ target, mishap ≠ .fault (.noSelection target)) → r' = .error mishap) :
    Keeps base (attempt action >>= next) s r' := by
  have gives := attempt_eq gives
  cases r with
  | ok a => exact (found a rfl).after gives
  | error mishap =>
      by_cases wants : ∃ target, mishap = .fault (.noSelection target)
      · obtain ⟨target, rfl⟩ := wants
        exact (wanting target rfl).after gives
      · have other : ∀ target, mishap ≠ .fault (.noSelection target) :=
          fun target same => wants ⟨target, same⟩
        rw [attempted_error other] at gives
        rw [fails mishap rfl other]
        exact of_eq (bind_error gives) grown

end Keeps

/-- The action on an object gives the first part of this outcome and puts the object in the order
that is the second part.  All other objects are left as they were, and there may be new ones. -/
structure Follows (action : Action α) (s : Session) (ref : Nat) (source : Source)
    (outcome : Step α × Source) : Prop where
  rearranged : source.Rearranged outcome.2
  gives : ∃ s', action s = some (outcome.1, s') ∧ (s.reorder ref outcome.2).Extends s'

/-- The positions from `start` on, as a window lists them. -/
abbrev listed (start count : Nat) : Array Index :=
  ((List.range' start count).map Index.nat).toArray

/-- On a window that has just been made: everything but the window is kept. -/
theorem Follows.keeps {base : Session} {action : Action α} {outcome : Step α × Source}
    {positions : Array Index} (there : s.source? ref = some source) (grown : base.Extends s)
    (follows : Follows action (s.push (.window ref positions)) s.objects.size
      (.window source positions) outcome) :
    ∃ s', action (s.push (.window ref positions)) = some (outcome.1, s') ∧ base.Extends s' ∧
      s'.source? s.objects.size = some outcome.2 := by
  obtain ⟨rearranged, s', gives, more⟩ := follows
  obtain ⟨result, after⟩ := outcome
  cases rearranged with
  | @window _ _ positions' perm =>
      rw [Session.reorder_push] at more
      exact ⟨s', gives, grown.trans ((Session.Extends.push s _).trans more),
        more.source?_eq (Session.source?_push_window there positions')⟩

/-! ## Sorting and scanning -/

/-- Exchanges of places that are there, one after the other. -/
theorem exchanges_eq {one : Nat → Nat → Action Unit}
    (each : ∀ {s : Session} {source : Source} {i j : Nat}, s.source? ref = some source →
      i < source.size → j < source.size →
      one i j s = some (.ok (), s.reorder ref (source.applySwaps [(i, j)])))
    (there : s.source? ref = some source) {swaps : List (Nat × Nat)}
    (inside : ∀ w ∈ swaps, w.1 < w.2 ∧ w.2 < source.size) :
    swaps.forM (fun w => one w.1 w.2) s =
      some (.ok (), s.reorder ref (source.applySwaps swaps)) := by
  induction swaps generalizing s source with
  | nil =>
      rw [Source.applySwaps_nil, Session.reorder_self there]
      rfl
  | cons w swaps ih =>
      obtain ⟨⟨below, bound⟩, others⟩ := List.forall_mem_cons.1 inside
      have rearranged := source.rearranged_applySwaps [w]
      rw [List.forM, bind_ok (each there (below.trans bound) bound),
        ih (Session.source?_reorder there rearranged) (by simpa using others),
        Session.reorder_reorder there rearranged (Source.rearranged_applySwaps _ _),
        Source.applySwaps_cons]

theorem swap_eq (there : s.source? ref = some source) {i j : Nat} (insideI : i < source.size)
    (insideJ : j < source.size) :
    swap ref i j s = some (.ok (), s.reorder ref (source.applySwaps [(i, j)])) := by
  rw [swap, bind_ok (look_eq there), Source.swap_nat insideI insideJ, Step.of_ok]
  rfl

theorem swapAll_eq_forM (ref : Nat) (swaps : List (Nat × Nat)) :
    swapAll ref swaps = swaps.forM fun w => swap ref w.1 w.2 := by
  induction swaps with
  | nil => rfl
  | cons w swaps ih =>
      rw [swapAll, ih]
      rfl

theorem swapAll_eq (there : s.source? ref = some source) {swaps : List (Nat × Nat)}
    (inside : ∀ w ∈ swaps, w.1 < w.2 ∧ w.2 < source.size) :
    swapAll ref swaps s = some (.ok (), s.reorder ref (source.applySwaps swaps)) := by
  rw [swapAll_eq_forM]
  exact exchanges_eq (fun there first second => swap_eq there first second) there inside

theorem arrange_ok (there : s.source? ref = some source) {p : Policy} {swaps : List (Nat × Nat)}
    (sorts : p.swaps source = .ok swaps) :
    arrange p ref s = some (.ok (), s.reorder ref (source.applySwaps swaps)) := by
  rw [arrange, bind_ok (look_eq there), sorts, Step.of_ok, bind_ok (lift_eq _ _)]
  exact swapAll_eq there (Policy.swaps_inside sorts)

theorem arrange_error (there : s.source? ref = some source) {p : Policy} {fault : Fault}
    (fails : p.swaps source = .error fault) :
    arrange p ref s = some (.error (.fault fault), s) := by
  rw [arrange, bind_ok (look_eq there), fails]
  rfl

theorem scan_follows (there : s.source? ref = some source) (p : Policy) (limits : Limits)
    (target : Float) :
    Follows (scan p limits target ref) s ref source
      (Step.of (p.apply limits.budget (limits.goal target) source).1,
        (p.apply limits.budget (limits.goal target) source).2) := by
  refine ⟨p.rearranged_apply _ _ _, ?_⟩
  rw [Policy.apply, scan]
  cases sorts : p.swaps source with
  | error fault =>
      refine ⟨s, bind_error (arrange_error there sorts), ?_⟩
      rw [Session.reorder_self there]
      exact .refl s
  | ok swaps =>
      have looks := look_eq (Session.source?_reorder there (source.rearranged_applySwaps swaps))
      exact ⟨_, (bind_ok (arrange_ok there sorts)).trans (bind_ok looks), .refl _⟩

/-! ## Topping up -/

/-- Searches in objects do what searches on values do, on sources below a size. -/
def Simulates (search : Search) (search' : Checked.Search) (size : Nat) : Prop :=
  ∀ limits threshold target s ref source, s.source? ref = some source → source.size < size →
    Follows (search limits threshold target ref) s ref source
      (search' limits threshold target source)

section Parts

variable {search : Search} {search' : Checked.Search} {limits : Limits} {threshold : Int}
variable {target : Float} {cutoff : Nat} {base : Session}

/-- A search in a new window. -/
theorem search_window (simulates : Simulates search search' source.size)
    (there : base.source? ref = some source) (inside : cutoff < source.size)
    (grown : base.Extends s) (inner : Limits) (lowered : Int) (residual : Float) :
    ∃ s', search inner lowered residual s.objects.size (s.push (.window ref (listed 0 cutoff))) =
        some ((search' inner lowered residual (Checked.stretch source 0 cutoff)).1, s') ∧
      base.Extends s' ∧
      s'.source? s.objects.size =
        some (search' inner lowered residual (Checked.stretch source 0 cutoff)).2 := by
  have there := grown.source?_eq there
  refine Follows.keeps there grown (simulates _ _ _ _ _ _ ?_ ?_)
  · exact Session.source?_push_window there _
  · simpa [Checked.stretch, Source.size] using inside

theorem topUpWith_keeps (simulates : Simulates search search' source.size)
    (there : base.source? ref = some source) (inside : cutoff < source.size) (window : Subset)
    (most : Array Float) (numbers : List Nat) (grown : base.Extends s) :
    Keeps base (topUpWith search limits threshold target ref cutoff window most numbers) s
      (Checked.topUpWith search' limits threshold target source cutoff window most numbers) := by
  induction numbers generalizing s with
  | nil => exact .of_eq rfl grown
  | cons n rest ih =>
      simp only [topUpWith, Checked.topUpWith]
      split
      · exact ih grown
      · refine Keeps.lift_bind grown fun lowered _ => Keeps.after rfl ?_
        refine Keeps.lift_bind (grown.trans (.push s _)) fun inner _ => ?_
        obtain ⟨s₁, gives, grown₁, low⟩ := search_window simulates there inside grown inner lowered
          (target - window.totals.amount)
        generalize search' inner lowered _ (Checked.stretch source 0 cutoff) = outcome at gives low ⊢
        obtain ⟨result, sorted⟩ := outcome
        refine Keeps.attempt_bind gives grown₁ ?_ ?_ ?_
        · rintro _ rfl
          exact ih grown₁
        · rintro chosen rfl
          refine Keeps.look_bind (grown₁.source?_eq there) (Keeps.look_bind low ?_)
          refine Keeps.lift_bind grown₁ fun found _ => ?_
          cases found with
          | some indexes => exact .of_eq rfl grown₁
          | none => exact ih grown₁
        · rintro mishap rfl other
          cases mishap with
          | fault f =>
              cases f with
              | noSelection target => exact absurd rfl (other target)
              | _ => rfl
          | divisionByZero => rfl
          | notSmaller => rfl

theorem topUp_keeps (simulates : Simulates search search' source.size)
    (there : base.source? ref = some source) (inside : cutoff < source.size) (size : Nat)
    (grown : base.Extends s) :
    Keeps base (topUp search limits threshold target ref cutoff size) s
      (Checked.topUp search' limits threshold target source cutoff size) := by
  have there' := grown.source?_eq there
  refine Keeps.look_bind there' (Keeps.lift_bind grown fun window _ => ?_)
  refine Keeps.look_bind there' (Keeps.lift_bind grown fun low _ => ?_)
  exact topUpWith_keeps simulates there inside window _ _ grown

/-! ## One level -/

/-- A scan of a new window. -/
theorem scan_window (there : base.source? ref = some source) (grown : base.Extends s) (p : Policy)
    (limits : Limits) (target : Float) (start count : Nat) :
    ∃ s', scan p limits target s.objects.size (s.push (.window ref (listed start count))) =
        some (Step.of (p.apply limits.budget (limits.goal target)
          (Checked.stretch source start count)).1, s') ∧
      base.Extends s' ∧
      s'.source? s.objects.size =
        some (p.apply limits.budget (limits.goal target) (Checked.stretch source start count)).2 := by
  have there := grown.source?_eq there
  exact Follows.keeps there grown (scan_follows (Session.source?_push_window there _) p limits target)

theorem windows_keeps (simulates : Simulates search search' source.size)
    (there : base.source? ref = some source) (inside : cutoff < source.size) (sizes : List Nat)
    (grown : base.Extends s) :
    Keeps base (windows search limits threshold target ref cutoff sizes) s
      (Checked.windows search' limits threshold target source cutoff sizes) := by
  induction sizes generalizing s with
  | nil => exact .of_eq rfl grown
  | cons size rest ih =>
      simp only [windows, Checked.windows]
      refine Keeps.after rfl ?_
      obtain ⟨s₁, gives, grown₁, high⟩ :=
        scan_window there grown .minNumber limits target cutoff size
      have there₁ := grown₁.source?_eq there
      generalize Policy.minNumber.apply limits.budget _ (Checked.stretch source cutoff size) =
        outcome at gives high ⊢
      obtain ⟨result, sorted⟩ := outcome
      refine Keeps.attempt_bind gives grown₁ ?_ ?_ ?_
      · intro target' wants
        cases result with
        | ok places => cases wants
        | error fault =>
          cases wants
          refine (topUp_keeps simulates there inside size grown₁).bind ?_
          intro found s₂ grown₂
          cases found with
          | some indexes => exact .of_eq rfl grown₂
          | none => exact ih grown₂
      · intro places found
        cases result with
        | error fault => cases found
        | ok places' =>
          cases found
          refine Keeps.look_bind high (Keeps.lift_bind grown₁ fun indexes _ => ?_)
          refine Keeps.look_bind there₁ (Keeps.lift_bind grown₁ fun subset _ => ?_)
          refine Keeps.look_bind there₁ (Keeps.lift_bind grown₁ fun padded _ => ?_)
          exact .of_eq rfl grown₁
      · intro mishap fails other
        cases result with
        | ok places => cases fails
        | error fault =>
          cases fails
          cases fault with
          | noSelection target => exact absurd rfl (other target)
          | _ => rfl

end Parts

/-- A level puts its object in order; what it does after that changes no object that was there. -/
theorem level_follows {search : Search} {search' : Checked.Search}
    (simulates : Simulates search search' source.size) (there : s.source? ref = some source)
    (limits : Limits) (threshold : Int) (target : Float) :
    Follows (level search limits threshold target ref) s ref source
      (Checked.level search' limits threshold target source) := by
  have swaps_eq : (Policy.minPriority threshold).swaps source =
      source.sortSwaps (.ascending .valueAge) := rfl
  rw [Checked.level]
  cases sorts : source.sortSwaps (.ascending .valueAge) with
  | error fault =>
      rw [sorts] at swaps_eq
      refine ⟨by simpa using source.rearranged_applySwaps [], s,
        bind_error (arrange_error there swaps_eq), ?_⟩
      rw [Session.reorder_self there]
      exact .refl s
  | ok swaps =>
      rw [sorts] at swaps_eq
      have rearranged := source.rearranged_applySwaps swaps
      have there' := Session.source?_reorder there rearranged
      refine ⟨rearranged, ?_⟩
      show Keeps (s.reorder ref (source.applySwaps swaps)) _ s (Checked.inOrder ..)
      refine Keeps.after (arrange_ok there swaps_eq) (Keeps.look_bind there' ?_)
      refine Keeps.lift_bind (.refl _) fun cutoff found => ?_
      cases cutoff with
      | none => exact .of_eq rfl (.refl _)
      | some cutoff =>
          have inside := List.mem_range.1 (Checked.mem_of_firstReaching found)
          refine windows_keeps ?_ there' inside _ (.refl _)
          simpa using simulates

/-! ## All levels -/

theorem sizeAt_eq (there : s.source? ref = some source) : sizeAt s ref = source.size := by
  rw [sizeAt, there]
  rfl

/-- Inner searches are searches, of smaller objects. -/
theorem Simulates.within {size : Nat}
    (simulates : Simulates (fun limits threshold target ref =>
      ExceptT.mk (run limits threshold target ref)) Checked.run size) :
    Simulates (within size) Checked.run size := by
  intro limits threshold target s ref source there smaller
  obtain ⟨rearranged, s', gives, grown⟩ := simulates limits threshold target s ref source there smaller
  refine ⟨rearranged, s', ?_, grown⟩
  rw [← gives]
  exact if_pos (sizeAt_eq there ▸ smaller)

theorem run_follows (there : s.source? ref = some source) (limits : Limits) (threshold : Int)
    (target : Float) :
    Follows (ExceptT.mk (run limits threshold target ref)) s ref source
      (Checked.run limits threshold target source) := by
  induction size : source.size using Nat.strong_induction_on
    generalizing limits threshold target s ref source with
  | _ n ih =>
      subst size
      have simulates : Simulates (within source.size) Checked.run source.size :=
        Simulates.within fun inner lowered residual _ _ low looks smaller =>
          ih low.size smaller looks inner lowered residual rfl
      obtain ⟨rearranged, s', gives, grown⟩ := level_follows simulates there limits threshold target
      rw [← Checked.run_unfold] at rearranged gives grown
      refine ⟨rearranged, s', ?_, grown⟩
      rw [← gives, ← sizeAt_eq there]
      exact run_eq limits threshold target ref s

theorem simulates_within (size : Nat) : Simulates (within size) Checked.run size :=
  Simulates.within fun limits threshold target _ _ _ there _ =>
    run_follows there limits threshold target

/-! ## All policies -/

/-- What the policy gives on a source that is a value, as the outcome of an action. -/
def valued (p : Policy) (limits : Limits) (target : Float) (source : Source) :
    Step (List Index) × Source :=
  let outcome := p.apply limits.budget (limits.goal target) source
  (Step.of (outcome.1.map (·.map .nat)), outcome.2)

theorem scan_places (there : s.source? ref = some source) (p : Policy) (limits : Limits)
    (target : Float) :
    Follows (do return (← scan p limits target ref).map .nat) s ref source
      (valued p limits target source) := by
  obtain ⟨rearranged, s', gives, grown⟩ := scan_follows there p limits target
  refine ⟨rearranged, s', ?_, grown⟩
  rw [valued]
  generalize p.apply limits.budget (limits.goal target) source = outcome at gives ⊢
  obtain ⟨answer, sorted⟩ := outcome
  cases answer with
  | error fault => exact bind_error gives
  | ok places => exact bind_ok gives

/-- A selection among shared objects is the selection on values: it gives the same, and leaves the
object in the same order and all others as they were. -/
theorem select_follows {coins : List Coin} (there : s.source? ref = some source)
    (shown : source.Shows coins) (p : Policy) (limits : Limits) (target : Float) :
    Follows (select p limits target ref) s ref source (valued p limits target source) := by
  cases p with
  | minPriority threshold =>
      have follows := run_follows there limits threshold target
      rwa [Checked.run_eq shown] at follows
  | minIndex => exact scan_places there .minIndex limits target
  | minNumber => exact scan_places there .minNumber limits target
  | maxValueAge => exact scan_places there .maxValueAge limits target

end InPlace

end CoinSelection
