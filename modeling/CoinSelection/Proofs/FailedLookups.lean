/-
# CoinSelection.Proofs.FailedLookups -- lookups that fail before anything is moved

A window can list any positions, so a coin of it may not be there, at whatever depth.  Sorting such
an object, or a selection that sorts it, fails, and leaves it as it was: all coins are compared
before the first exchange, the exchanges name places that are there, and an exchange looks up both
entries before it writes the first (`Shelf.exchange_of_error`).

A plan sorts an object in place one step at a time, and what has been written stays written
(`InPlace.sortBy`).  Whatever the plan is, it fails exactly where some coin cannot be read, as each
of them is compared (`Sort.Plan.Sorts.reads`); and then nothing has been written yet.

The want of a selection is found out later, when the object has been sorted (`failed_lookups`); so
it is for a selection of which the sort is carried out by a plan (`InPlace.selectBy_eq_select`).
-/
import Mathlib
import CoinSelection.Proofs.InPlace.Sort
import CoinSelection.Proofs.Session.Frame

namespace CoinSelection

open scoped List

set_option autoImplicit false

/-! ## Numbers out of range -/

/-- Whether a number is out of its range: a position that is not there, or a number that is no
integer where one is needed. -/
def Fault.ofRange : Fault → Bool
  | outOfRange .. | notWhole _ => true
  | noSelection _ | emptySubset _ | invalidArgs _ | notNumeral _ | unusable _ => false

open MinPriority.Checked in
/-- Whether a number is out of its range; so is a divisor that is zero. -/
def MinPriority.Checked.Mishap.ofRange : Mishap → Bool
  | fault f => f.ofRange
  | divisionByZero => true
  | notSmaller => false

/-! ## What cannot be read -/

namespace Source

variable {s : Source} {o : Order} {i j : Nat} {fault : Fault}

/-- Some position of the source does not lead to a coin. -/
def Unreadable (s : Source) : Prop := ∃ k < s.size, ∀ c, s.coin (.nat k) ≠ .ok c

theorem ofRange_of_coin {i : Index} (fails : s.coin i = .error fault) : fault.ofRange := by
  obtain ⟨shelf, j, size, rfl⟩ := fault_of_coin fails
  rfl

theorem unreadable_of_coin {k : Nat} (inside : k < s.size)
    (fails : s.coin (.nat k) = .error fault) : s.Unreadable := by
  refine ⟨k, inside, ?_⟩
  intro c found
  rw [fails] at found
  cases found

theorem Shows.not_unreadable {coins : List Coin} (shown : s.Shows coins) : ¬ s.Unreadable := by
  rintro ⟨k, inside, fails⟩
  exact fails _ (shown.coin_eq (shown.size_eq ▸ inside))

theorem shows_of_not_unreadable (readable : ¬ s.Unreadable) : ∃ coins, s.Shows coins := by
  simp only [Unreadable, not_exists, not_and, not_forall, not_not] at readable
  exact exists_map_ok fun k listed => readable k (List.mem_range.1 listed)

theorem coin_of_faultAt {n : Nat} (there : Slot.faultAt s.slots n = some fault) :
    n < s.size ∧ s.coin (.nat n) = .error fault := by
  obtain ⟨slot, held, fails⟩ := Option.bind_eq_some_iff.1 there
  obtain ⟨inside, value⟩ := List.getElem?_eq_some_iff.1 held
  rw [length_slots] at inside
  refine ⟨inside, ?_⟩
  have same : s.coin (.nat n) = slot := by simpa [slots] using value
  rw [same]
  cases slot with
  | ok c => cases fails
  | error f =>
      cases fails
      rfl

/-! ## Sorting on values -/

/-- A sort fails for a coin that cannot be read. -/
theorem coin_of_sortSwaps (fails : s.sortSwaps o = .error fault) :
    ∃ k < s.size, s.coin (.nat k) = .error fault := by
  unfold sortSwaps at fails
  split at fails
  · cases fails
  · split at fails
    · rename_i found
      cases fails
      unfold Order.firstFault? at found
      dsimp only at found
      split at found
      · rcases (Option.orElse_eq_some _ _ _).1 found with next | ⟨-, here⟩
        · exact ⟨_, coin_of_faultAt next⟩
        · exact ⟨_, coin_of_faultAt here⟩
      · exact ⟨_, coin_of_faultAt found⟩
    · cases fails

theorem sortSwaps_fails_iff (several : 2 ≤ s.size) (o : Order) :
    (∃ fault, s.sortSwaps o = .error fault) ↔ s.Unreadable := by
  constructor
  · rintro ⟨fault, fails⟩
    obtain ⟨k, inside, fails⟩ := coin_of_sortSwaps fails
    exact unreadable_of_coin inside fails
  · intro unreadable
    cases sorts : s.sortSwaps o with
    | error fault => exact ⟨fault, rfl⟩
    | ok swaps => exact absurd unreadable (shows_of_sortSwaps sorts (by omega)).not_unreadable

end Source

/-! ## Policies on values -/

namespace Policy

variable {p : Policy} {budget : Nat} {g : Goal} {source : Source} {o : Order} {fault : Fault}

/-- A policy moves nothing in a source that cannot be read. -/
theorem swaps_of_unreadable (unreadable : source.Unreadable) {swaps : List (Nat × Nat)}
    (sorts : p.swaps source = .ok swaps) : swaps = [] := by
  cases orders : p.order? with
  | none =>
      rw [Policy.swaps, orders] at sorts
      cases sorts
      rfl
  | some o =>
      rw [swaps_eq_sortSwaps orders] at sorts
      have few : source.size < 2 := by
        by_contra several
        exact (Source.shows_of_sortSwaps sorts several).not_unreadable unreadable
      rw [Source.sortSwaps, if_pos few] at sorts
      cases sorts
      rfl

theorem left_of_unreadable (unreadable : source.Unreadable) (p : Policy) (budget : Nat) (g : Goal) :
    (p.apply budget g source).2 = source := by
  unfold apply
  cases sorts : p.swaps source with
  | error f => rfl
  | ok swaps =>
      obtain rfl := swaps_of_unreadable unreadable sorts
      exact source.applySwaps_nil

/-- A number is out of range only for a coin that cannot be read. -/
theorem unreadable_of_range (fails : (p.apply budget g source).1 = .error fault)
    (range : fault.ofRange) : source.Unreadable := by
  by_contra readable
  obtain ⟨coins, shown⟩ := Source.shows_of_not_unreadable readable
  rw [shown.apply_eq] at fails
  rcases p.answer_ends budget g ((p.ordered coins.zipIdx).map (·.1)) with ⟨places, found⟩ | wants
  · rw [found] at fails
    cases fails
  · rw [wants] at fails
    cases fails
    cases range

theorem range_of_unreadable (orders : p.order? = some o) (several : 2 ≤ source.size)
    (unreadable : source.Unreadable) (budget : Nat) (g : Goal) :
    ∃ fault, (p.apply budget g source).1 = .error fault ∧ fault.ofRange := by
  obtain ⟨fault, sorts⟩ := (Source.sortSwaps_fails_iff several o).2 unreadable
  obtain ⟨k, -, fails⟩ := Source.coin_of_sortSwaps sorts
  refine ⟨fault, ?_, Source.ofRange_of_coin fails⟩
  rw [apply, swaps_eq_sortSwaps orders, sorts]

/-- A selection is wanting when the source has been sorted. -/
theorem sorted_of_noSelection (orders : p.order? = some o) {t : Float}
    (wants : (p.apply budget g source).1 = .error (.noSelection t)) :
    ∃ swaps, source.sortSwaps o = .ok swaps ∧
      (p.apply budget g source).2 = source.applySwaps swaps := by
  rw [apply, swaps_eq_sortSwaps orders] at wants ⊢
  cases sorts : source.sortSwaps o with
  | error fault =>
      rw [sorts] at wants
      cases wants
      obtain ⟨k, -, fails⟩ := Source.coin_of_sortSwaps sorts
      cases Source.ofRange_of_coin fails
  | ok swaps => exact ⟨swaps, rfl, rfl⟩

end Policy

/-! ## Actions -/

namespace InPlace

open MinPriority.Checked (Step Mishap Limits)

variable {α : Type} {s now : Session} {ref : Nat} {source : Source} {action : Action α}
variable {o : Order} {p : Policy} {fault : Fault}

/-- Where the action fails for a number out of range, the objects are as they were. -/
def LooksFirst (action : Action α) (s : Session) : Prop :=
  ∀ mishap now, action s = some (.error mishap, now) → mishap.ofRange → s.Extends now

/-- An action that sorts an object: it moves nothing unless every coin can be read, and fails where
one of several cannot. -/
structure Guarded (action : Action α) (s : Session) (source : Source) : Prop where
  looksFirst : LooksFirst action s
  fails_iff : 2 ≤ source.size →
    ((∃ mishap now, action s = some (.error mishap, now) ∧ mishap.ofRange) ↔ source.Unreadable)

/-- Such an action on an object of several coins, one of which cannot be read. -/
theorem Guarded.stays (guarded : Guarded action s source) (several : 2 ≤ source.size)
    (unreadable : source.Unreadable) :
    ∃ mishap now, action s = some (.error mishap, now) ∧ mishap.ofRange ∧ s.Extends now := by
  obtain ⟨mishap, now, fails, range⟩ := (guarded.fails_iff several).2 unreadable
  exact ⟨mishap, now, fails, range, guarded.looksFirst mishap now fails range⟩

/-- A selection that sorts the object to the end before it is found wanting: what is left is what
the sort alone leaves. -/
structure SortsFirst (action : Action α) (s : Session) (ref : Nat) (source : Source)
    (o : Order) : Prop extends Guarded action s source where
  wants : ∀ t now, action s = some (.error (.fault (.noSelection t)), now) →
    ∃ swaps sorted, command (.sort ref o) s = some (.ok (.swaps swaps), sorted) ∧
      sorted.Extends now

theorem LooksFirst.of_ok {a : α} (gives : action s = some (.ok a, now)) : LooksFirst action s := by
  intro mishap now' fails
  rw [gives] at fails
  cases fails

theorem LooksFirst.of_still {mishap : Mishap} (fails : action s = some (.error mishap, s)) :
    LooksFirst action s := by
  intro mishap' now fails' _
  rw [fails] at fails'
  cases fails'
  exact .refl s

/-- An action that fails only for coins that cannot be read, and then has changed nothing. -/
theorem guarded_of_cases
    (ends : (∃ fault k, k < source.size ∧ source.coin (.nat k) = .error fault ∧
        action s = some (.error (.fault fault), s)) ∨
      (∃ a now, action s = some (.ok a, now)) ∧ (2 ≤ source.size → ¬ source.Unreadable)) :
    Guarded action s source := by
  rcases ends with ⟨fault, k, inside, here, fails⟩ | ⟨⟨a, now, gives⟩, readable⟩
  · refine ⟨.of_still fails, fun _ => ⟨fun _ => Source.unreadable_of_coin inside here, fun _ => ?_⟩⟩
    exact ⟨_, s, fails, Source.ofRange_of_coin here⟩
  · refine ⟨.of_ok gives, fun several => ⟨?_, fun unreadable => absurd unreadable (readable several)⟩⟩
    rintro ⟨mishap, now', fails, -⟩
    rw [gives] at fails
    cases fails

/-! ## Exchanges and sorts -/

theorem command_eq {c : Command} {answer : Except Fault Answer}
    (step : s.step c = some (answer, now)) : command c s = some (Step.of answer, now) := by
  simp only [command, ExceptT.mk, step, Option.map_some]

section Changes

variable {β : Type} {c : Command} {first : Except Fault β} {next : β → Answer × Session}

/-- A command that changes an object if some step succeeds. -/
theorem command_ok (step : s.step c = some (s.changed (next <$> first))) {b : β}
    (gives : first = .ok b) : command c s = some (.ok (next b).1, (next b).2) := by
  have changed : s.step c = some (.ok (next b).1, (next b).2) := by
    rw [step, gives]
    rfl
  exact command_eq changed

theorem command_error (step : s.step c = some (s.changed (next <$> first)))
    (fails : first = .error fault) : command c s = some (.error (.fault fault), s) := by
  have still : s.step c = some (.error fault, s) := by
    rw [step, fails]
    rfl
  exact command_eq still

end Changes

theorem step_swap (there : s.source? ref = some source) (i j : Index) :
    s.step (.swap ref i j) = some (s.changed
      ((fun swapped => (.done, s.reorder ref swapped)) <$> source.swap i j)) := by
  rw [Session.step, there]
  rfl

theorem step_sort (there : s.source? ref = some source) (o : Order) :
    s.step (.sort ref o) = some (s.changed
      ((fun swaps => (.swaps swaps, s.reorder ref (source.applySwaps swaps))) <$>
        source.sortSwaps o)) := by
  rw [Session.step, there]
  rfl

theorem command_select (there : s.source? ref = some source) {given : Value} {args : Args}
    (made : Args.ofValue given = .ok args) (p : Policy) (target : Float) :
    command (.select ref p given target) s =
      some (Step.of ((p.run args target source).1.map fun places => .indexes (places.map .nat)),
        s.reorder ref (p.run args target source).2) := by
  apply command_eq
  rw [Session.step, there]
  simp only [Option.bind_eq_bind, Option.bind_some, made]
  rfl

theorem looksFirst_swap (there : s.source? ref = some source) (i j : Index) :
    LooksFirst (command (.swap ref i j)) s ∧ LooksFirst (exchange ref i j) s := by
  have step := step_swap there i j
  cases swaps : source.swap i j with
  | error fault =>
      exact ⟨.of_still (command_error step swaps), .of_still (exchange_error there swaps)⟩
  | ok swapped => exact ⟨.of_ok (command_ok step swaps), .of_ok (exchange_ok there swaps)⟩

theorem guarded_sort (there : s.source? ref = some source) (o : Order) :
    Guarded (command (.sort ref o)) s source := by
  apply guarded_of_cases
  cases sorts : source.sortSwaps o with
  | error fault =>
      obtain ⟨k, inside, here⟩ := Source.coin_of_sortSwaps sorts
      exact .inl ⟨fault, k, inside, here, command_error (step_sort there o) sorts⟩
  | ok swaps =>
      refine .inr ⟨⟨_, _, command_ok (step_sort there o) sorts⟩, ?_⟩
      intro several unreadable
      obtain ⟨fault, fails⟩ := (Source.sortSwaps_fails_iff several o).2 unreadable
      rw [sorts] at fails
      cases fails

theorem guarded_sortBy (there : s.source? ref = some source) (o : Order) {plan : Sort.Plan}
    (sorts : plan.Sorts source.size []) : Guarded (sortBy plan o ref) s source := by
  apply guarded_of_cases
  cases runs : plan.run (source.compare o) with
  | error fault =>
      obtain ⟨k, inside, here⟩ := sorts.coin_of_run runs
      exact .inl ⟨fault, k, inside, here, sortBy_error there runs⟩
  | ok order =>
      obtain ⟨perm, read⟩ := sorts.reads (by simp) runs
      refine .inr ⟨⟨_, _, sortBy_ok there runs perm⟩, ?_⟩
      rintro several ⟨k, inside, fails⟩
      obtain ⟨c, found⟩ := read several k inside
      exact fails c found

/-- A sort that ends has put all of the object in order. -/
theorem inOrder_of_sortBy (there : s.source? ref = some source) {plan : Sort.Plan}
    (sorts : plan.Sorts source.size []) (ends : sortBy plan o ref s = some (.ok (), now)) :
    ∃ order, order ~ List.range source.size ∧ now = s.reorder ref (source.inOrder order) := by
  cases runs : plan.run (source.compare o) with
  | error fault =>
      rw [sortBy_error there runs] at ends
      cases ends
  | ok order =>
      obtain ⟨perm, -⟩ := sorts.reads (by simp) runs
      rw [sortBy_ok there runs perm] at ends
      cases ends
      exact ⟨order, perm, rfl⟩

/-! ## Selections -/

/-- An action that answers as a policy does, and leaves the object as the policy leaves it. -/
theorem sortsFirst_of_apply {budget : Nat} {g : Goal} {found : List Nat → α}
    (there : s.source? ref = some source) (orders : p.order? = some o)
    (gives : action s = some (Step.of ((p.apply budget g source).1.map found), now))
    (grown : (s.reorder ref (p.apply budget g source).2).Extends now) :
    SortsFirst action s ref source o := by
  have fails : ∀ mishap now', action s = some (.error mishap, now') →
      now' = now ∧ ∃ fault, mishap = .fault fault ∧ (p.apply budget g source).1 = .error fault := by
    intro mishap now' fails
    rw [gives] at fails
    cases answer : (p.apply budget g source).1 with
    | ok places =>
        rw [answer] at fails
        cases fails
    | error fault =>
        rw [answer] at fails
        cases fails
        exact ⟨rfl, fault, rfl, rfl⟩
  refine ⟨⟨?_, fun several => ⟨?_, ?_⟩⟩, ?_⟩
  · intro mishap now' failed range
    obtain ⟨rfl, fault, rfl, answer⟩ := fails mishap now' failed
    have unreadable := Policy.unreadable_of_range answer range
    rwa [Policy.left_of_unreadable unreadable, Session.reorder_self there] at grown
  · rintro ⟨mishap, now', failed, range⟩
    obtain ⟨-, fault, rfl, answer⟩ := fails mishap now' failed
    exact Policy.unreadable_of_range answer range
  · intro unreadable
    obtain ⟨fault, answer, range⟩ := Policy.range_of_unreadable orders several unreadable budget g
    rw [answer] at gives
    exact ⟨.fault fault, now, gives, range⟩
  · intro t now' failed
    obtain ⟨rfl, fault, same, answer⟩ := fails _ now' failed
    cases same
    obtain ⟨swaps, sorts, left⟩ := Policy.sorted_of_noSelection orders answer
    rw [left] at grown
    exact ⟨swaps, _, command_ok (step_sort there o) sorts, grown⟩

/-- A selection that begins with a sort that fails. -/
theorem sortsFirst_of_error (there : s.source? ref = some source) {plan : Sort.Plan}
    (sorts : plan.Sorts source.size []) (runs : plan.run (source.compare o) = .error fault)
    (p : Policy) (limits : Limits) (target : Float) :
    SortsFirst (selectBy plan o p limits target ref) s ref source o := by
  obtain ⟨k, inside, here⟩ := sorts.coin_of_run runs
  have fails : selectBy plan o p limits target ref s = some (.error (.fault fault), s) :=
    bind_error (sortBy_error there runs)
  refine ⟨guarded_of_cases (.inl ⟨fault, k, inside, here, fails⟩), ?_⟩
  intro t now wants
  rw [fails] at wants
  cases wants
  cases Source.ofRange_of_coin here

end InPlace

open InPlace in
/-- An exchange, a sort or a selection that fails for a position that is not there leaves the
objects as they were; and a sort of several coins fails so exactly where one of them cannot be read.
That holds of the commands, and of the same work done one lookup and one write at a time: for a sort
whatever it compares, as long as it sees every coin.  The want of a selection leaves the object
sorted. -/
theorem failed_lookups {s : Session} {ref : Nat} {source : Source} {given : Value} {args : Args}
    (there : s.source? ref = some source) (made : Args.ofValue given = .ok args) (target : Float) :
    (∀ i j, LooksFirst (command (.swap ref i j)) s ∧ LooksFirst (exchange ref i j) s) ∧
    (∀ o, Guarded (command (.sort ref o)) s source) ∧
    (∀ o plan, plan.Sorts source.size [] →
      Guarded (sortBy plan o ref) s source ∧
      ∀ now, sortBy plan o ref s = some (.ok (), now) → ∃ order, order ~ List.range source.size ∧
        now = s.reorder ref (source.inOrder order)) ∧
    ∀ p o, p.order? = some o →
      SortsFirst (command (.select ref p given target)) s ref source o ∧
      SortsFirst (select p args.limits target ref) s ref source o ∧
      ∀ plan, plan.Sorts source.size [] → plan.Finds o source →
        SortsFirst (selectBy plan o p args.limits target ref) s ref source o := by
  refine ⟨looksFirst_swap there, guarded_sort there, ?_, ?_⟩
  · intro o plan sorts
    exact ⟨guarded_sortBy there o sorts, fun now => inOrder_of_sortBy there sorts⟩
  · intro p o orders
    obtain ⟨-, now, gives, grown⟩ := follows_select there p args.limits target
    refine ⟨?_, sortsFirst_of_apply there orders gives grown, ?_⟩
    · exact sortsFirst_of_apply there orders (command_select there made p target) (.refl _)
    · intro plan sorts finds
      cases runs : plan.run (source.compare o) with
      | error fault => exact sortsFirst_of_error there sorts runs p args.limits target
      | ok order =>
          have same := selectBy_eq_select there orders sorts finds runs args.limits target
          exact sortsFirst_of_apply there orders (same.trans gives) grown

open InPlace in
/-- Two windows over one that lists a position that is not there: the first window does not show
that one, and is left sorted by a selection that finds nothing; the second does, and stays as it is
whatever it is asked for. -/
theorem failed_lookups_windows :
    ∃ (s : Session) (given : Value) (args : Args) (plan : Sort.Plan) (good bad : Source),
      Args.ofValue given = .ok args ∧ s.source? 2 = some good ∧ s.source? 3 = some bad ∧
      plan.Sorts 2 [] ∧ plan.Finds .largestFirst good ∧ bad.Unreadable ∧
      (∀ action, action = command (.sort 3 .largestFirst) ∨
          action = command (.select 3 .minNumber given 4) ∨
          action = command (.select 3 (.minPriority 7) given 4) →
        ∃ mishap now, action s = some (.error mishap, now) ∧ mishap.ofRange ∧ s.Extends now) ∧
      (∃ mishap now, sortBy plan .largestFirst 3 s = some (.error mishap, now) ∧
        mishap.ofRange ∧ s.Extends now) ∧
      ∃ now swaps sorted,
        selectBy plan .largestFirst .minNumber args.limits 100 2 s =
          some (.error (.fault (.noSelection 100)), now) ∧
        command (.sort 2 .largestFirst) s = some (.ok (.swaps swaps), sorted) ∧
        sorted.Extends now := by
  let given : Value := .object [("maxInputs", .number 3), ("minChangeAmount", .number 0)]
  let args : Args := ⟨3, 0, by decide +kernel, by decide +kernel⟩
  let coins : Array Coin := #[⟨"a", 4, 9⟩, ⟨"b", 2, 6⟩, ⟨"c", 1, 0⟩]
  let middle : Array Index := #[.nat 2, .nat 7, .real 0]
  let good : Source := .window (.window (.collection coins) middle) #[.nat 0, .nat 2]
  let bad : Source := .window (.window (.collection coins) middle) #[.nat 0, .nat 1]
  let s : Session := ⟨#[.collection coins, .window 0 middle, .window 1 #[.nat 0, .nat 2],
    .window 1 #[.nat 0, .nat 1]]⟩
  let plan : Sort.Plan := .compare 1 0 fun outcome => .done (if outcome = .lt then [1, 0] else [0, 1])
  have made : Args.ofValue given = .ok args := rfl
  have thereGood : s.source? 2 = some good := by simp [Session.source?, s, good]
  have thereBad : s.source? 3 = some bad := by simp [Session.source?, s, bad]
  have sorts : plan.Sorts 2 [] := by
    refine .compare (by decide) (by decide) fun outcome => .done (by decide) ?_
    cases outcome <;> decide
  have shown : good.Shows [⟨"c", 1, 0⟩, ⟨"a", 4, 9⟩] := rfl
  have runs : plan.run (good.compare .largestFirst) = .ok [1, 0] := by
    have places : (plan.run (good.compare .largestFirst)).toOption = some [1, 0] := by
      decide +kernel
    cases answer : plan.run (good.compare .largestFirst) with
    | error fault =>
        rw [answer] at places
        cases places
    | ok order =>
        rw [answer] at places
        cases places
        rfl
  have finds : plan.Finds .largestFirst good := by
    intro coins order shown' runs'
    rw [runs] at runs'
    cases runs'
    rw [← shown.unique shown']
    decide +kernel
  have unreadable : bad.Unreadable := ⟨1, by decide, by rintro c ⟨⟩⟩
  obtain ⟨-, sort, inPlace, select⟩ := failed_lookups thereBad made 4
  obtain ⟨-, -, -, selectGood⟩ := failed_lookups thereGood made 100
  refine ⟨s, given, args, plan, good, bad, made, thereGood, thereBad, sorts, finds, unreadable,
    ?_, ?_, ?_⟩
  · rintro action (rfl | rfl | rfl)
    · exact (sort .largestFirst).stays (by decide) unreadable
    · exact (select .minNumber .largestFirst rfl).1.stays (by decide) unreadable
    · exact (select (.minPriority 7) _ rfl).1.stays (by decide) unreadable
  · exact (inPlace .largestFirst plan sorts).1.stays (by decide) unreadable
  · have wanting : (Policy.minNumber.run args 100 good).1.toOption = none := by decide +kernel
    obtain ⟨-, now, gives, -⟩ := follows_select thereGood .minNumber args.limits 100
    rw [← selectBy_eq_select thereGood rfl sorts finds runs] at gives
    change _ =
      some (MinPriority.Checked.Step.of ((Policy.minNumber.run args 100 good).1.map _), now) at gives
    rw [Policy.run_shown shown] at wanting gives
    rcases Policy.minNumber.answer_ends args.budget ⟨100, args.minChangeAmount⟩
      ((Policy.minNumber.ordered _).map (·.1)) with ⟨places, found⟩ | wants
    · rw [found] at wanting
      cases wanting
    · rw [wants] at gives
      obtain ⟨-, -, byPlan⟩ := selectGood .minNumber .largestFirst rfl
      obtain ⟨swaps, sorted, done, grown⟩ := (byPlan plan sorts finds).wants 100 now gives
      exact ⟨now, swaps, sorted, gives, done, grown⟩

end CoinSelection
