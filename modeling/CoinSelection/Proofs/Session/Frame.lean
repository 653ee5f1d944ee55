/-
# CoinSelection.Proofs.Session.Frame -- what a whole session leaves alone

Whatever commands are given, and whether they fail or not, every object of a session is what it
was when it was made, with its entries in some order (`Object.Rearranged`): a collection has its
coins, a window looks at the same source and lists the same positions, and a subset is of the same
source.  A command changes no object but the one that it is about (`Effect.getElem?_eq`).

A selection makes windows on the way, and sorts them and its source by exchanges of two entries.
Done in that way it gives what the command gives and leaves the same objects, with its windows
behind them (`InPlace.follows_select`), also where some position of its source cannot be read.
-/
import Mathlib
import CoinSelection.Proofs.Session.Run
import CoinSelection.Proofs.Total

namespace CoinSelection

open scoped List

set_option autoImplicit false

/-! ## Sources that cannot be read -/

/-- Where the first slot that cannot be read has no fault, all can be read. -/
theorem Slot.eq_map_readable {slots : List Slot}
    (sound : faultAt slots (readable slots).length = none) : slots = (readable slots).map .ok := by
  fun_induction readable slots with
  | case1 c rest ih => exact congrArg _ (ih sound)
  | case2 slots other =>
      cases slots with
      | nil => rfl
      | cons slot rest =>
          cases slot with
          | ok c => exact absurd rfl (other c rest)
          | error fault => cases sound

/-- What can be sorted can be read, unless it is too short to be looked at. -/
theorem Source.shows_of_sortSwaps {o : Order} {s : Source} {swaps : List (Nat × Nat)}
    (sorts : s.sortSwaps o = .ok swaps) (several : ¬ s.size < 2) :
    s.Shows (Slot.readable s.slots) := by
  rw [sortSwaps, if_neg several] at sorts
  split at sorts
  · cases sorts
  · rename_i sound
    apply Slot.eq_map_readable
    unfold Order.firstFault? at sound
    dsimp only at sound
    split at sound
    · exact ((Option.orElse_eq_none _ _).1 sound).2
    · exact sound

namespace MinPriority.Checked

variable {limits : Limits} {threshold : Int} {target : Float} {s : Source}

/-- A search in a source that cannot be read fails as the policy does. -/
theorem run_unreadable (unreadable : ∀ coins, ¬ s.Shows coins) :
    run limits threshold target s = expected limits threshold target s := by
  have swaps_eq : (Policy.minPriority threshold).swaps s = s.sortSwaps (.ascending .valueAge) := rfl
  rw [run_unfold, level, expected, Policy.apply, swaps_eq]
  cases sorts : s.sortSwaps (.ascending .valueAge) with
  | error fault => rfl
  | ok swaps =>
      -- one slot, which is not looked at before the search
      have few : s.size < 2 := by
        by_contra several
        exact unreadable _ (Source.shows_of_sortSwaps sorts several)
      rw [Source.sortSwaps, if_pos few] at sorts
      cases sorts
      simp only [Source.applySwaps_nil]
      obtain ⟨fault, slots⟩ : ∃ fault, s.slots = [.error fault] := by
        have short : s.slots.length < 2 := by simpa using few
        rcases listed : s.slots with _ | ⟨slot, rest⟩
        · exact absurd listed (unreadable [])
        · rw [listed, List.length_cons] at short
          obtain rfl : rest = [] := List.eq_nil_of_length_eq_zero (by omega)
          cases slot with
          | ok c => exact absurd listed (unreadable [c])
          | error fault => exact ⟨fault, rfl⟩
      have one : s.size = 1 := by
        rw [← s.length_slots, slots]
        rfl
      have look : s.coin (.nat 0) = .error fault := by
        simpa [Source.slots, one] using slots
      have searched : inOrder run limits threshold target s = .error (.fault fault) := by
        rw [inOrder, one, List.range_one, firstReaching, look]
        rfl
      have none : select limits.budget threshold (limits.goal target) ([] : List (Coin × Nat)) =
          .none := by
        rw [select]
        rfl
      have chosen : (Policy.minPriority threshold).choosePositions limits.budget
          (limits.goal target) s.slots = .error fault := by
        rw [slots, Policy.choosePositions]
        simp only [Slot.readable, List.zipIdx_nil, Policy.choose, none]
        rfl
      rw [searched, chosen]
      rfl

end MinPriority.Checked

/-- A selection in place is the selection on values, whether or not the source can be read. -/
theorem InPlace.follows_select {s : Session} {ref : Nat} {source : Source}
    (there : s.source? ref = some source) (p : Policy) (limits : MinPriority.Checked.Limits)
    (target : Float) :
    Follows (select p limits target ref) s ref source (valued p limits target source) := by
  by_cases readable : ∃ coins, source.Shows coins
  · obtain ⟨coins, shown⟩ := readable
    exact select_follows there shown p limits target
  · cases p with
    | minPriority threshold =>
        have follows := run_follows there limits threshold target
        rwa [MinPriority.Checked.run_unreadable (not_exists.1 readable)] at follows
    | minIndex => exact scan_places there .minIndex limits target
    | minNumber => exact scan_places there .minNumber limits target
    | maxValueAge => exact scan_places there .maxValueAge limits target

/-! ## Objects as they were made -/

/-- An object with its entries in another order.  A window lists positions of the same source, and
a subset is of the same source. -/
inductive Object.Rearranged : Object → Object → Prop where
  | collection {coins coins' : Array Coin} (perm : coins'.Perm coins) :
      Rearranged (.collection coins) (.collection coins')
  | window {below : Nat} {positions positions' : Array Index} (perm : positions'.Perm positions) :
      Rearranged (.window below positions) (.window below positions')
  | subset {below : Nat} {contents contents' : Subset} :
      Rearranged (.subset below contents) (.subset below contents')

namespace Object.Rearranged

instance : Std.Refl Object.Rearranged where
  refl o := by
    cases o with
    | collection coins => exact .collection (Array.Perm.refl coins)
    | window below positions => exact .window (Array.Perm.refl positions)
    | subset below contents => exact .subset

instance : IsTrans Object Object.Rearranged where
  trans := by
    intro o o' o'' first second
    cases first with
    | collection perm =>
        cases second with
        | collection perm' => exact .collection (perm'.trans perm)
    | window perm =>
        cases second with
        | window perm' => exact .window (perm'.trans perm)
    | subset =>
        cases second with
        | subset => exact .subset

end Object.Rearranged

theorem Object.rearranged_trans {first second third : List Object}
    (one : List.Forall₂ Rearranged first second) (two : List.Forall₂ Rearranged second third) :
    List.Forall₂ Rearranged first third := by
  induction one generalizing third with
  | nil => exact two
  | cons head _ ih =>
      cases two with
      | cons head' tail' => exact .cons (trans_of Rearranged head head') (ih tail')

/-- The number of the object that a command is about, if it does not make one. -/
def Command.about? : Command → Option Nat
  | .window .. | .range .. | .subset .. => none
  | .size on | .coin on _ | .coins on | .sourceIndex on _ | .less on .. | .swap on .. | .sort on _
  | .select on .. | .pushBack on _ | .popBack on | .popFront on | .indexes on => some on

theorem Command.about?_of_moved {c : Command} {on : Nat} (moves : c.moved? = some on) :
    c.about? = some on := by
  cases c <;> simp_all [moved?, about?]

theorem Command.about?_of_operation {c : Command} {on : Nat} {op : Subset.Operation}
    (asks : c.operation? on = some op) : c.about? = some on := by
  obtain rfl := Command.eq_command asks
  cases op <;> rfl

namespace Session

variable {s s' : Session} {on k : Nat} {source source' : Source} {c : Command}

/-- The objects that are new in a session. -/
def news (s s' : Session) : List Object := s'.objects.toList.drop s.objects.size

theorem news_eq_nil (same : s'.objects.size = s.objects.size) : s.news s' = [] := by
  apply List.drop_eq_nil_of_le
  rw [Array.length_toList, same]

/-- One object in another order. -/
theorem rearranged_set {o o' : Object} (held : s.objects[on]? = some o)
    (rearranged : o.Rearranged o') :
    List.Forall₂ Object.Rearranged s.objects.toList (s.set on o').objects.toList := by
  obtain ⟨old, value⟩ := Array.getElem?_eq_some_iff.1 held
  refine List.forall₂_iff_get.2 ⟨by simp, ?_⟩
  intro k inside _
  by_cases here : on = k
  · subst here
    simpa [set, value] using rearranged
  · simpa [set, here] using refl_of Object.Rearranged s.objects[k]

theorem rearranged_reorder (there : s.source? on = some source)
    (rearranged : source.Rearranged source') :
    List.Forall₂ Object.Rearranged s.objects.toList (s.reorder on source').objects.toList := by
  cases rearranged with
  | collection perm =>
      have held := source?_eq_collection.1 there
      rw [reorder_collection held]
      exact rearranged_set held (.collection perm)
  | window perm =>
      obtain ⟨below, -, held, -⟩ := source?_eq_window.1 there
      rw [reorder_window held]
      exact rearranged_set held (.window perm)

namespace Effect

/-- A command puts the entries of objects in another order, and puts new objects behind them. -/
theorem rearranged (effect : s.Effect c s') :
    List.Forall₂ Object.Rearranged (s.objects.toList ++ s.news s') s'.objects.toList := by
  cases effect with
  | unchanged =>
      rw [news_eq_nil rfl, List.append_nil]
      exact List.forall₂_refl _
  | made o =>
      have behind : s.objects.toList ++ s.news (s.push o) = (s.push o).objects.toList := by
        simp [news, push]
      rw [behind]
      exact List.forall₂_refl _
  | reordered moves there rearranged =>
      rw [news_eq_nil (s.size_reorder _ _), List.append_nil]
      exact rearranged_reorder there rearranged
  | asked asks held after =>
      rw [news_eq_nil (s.size_set _ _), List.append_nil]
      exact rearranged_set held .subset

/-- A command leaves every object alone but the one that it is about. -/
theorem getElem?_eq (effect : s.Effect c s') (old : k < s.objects.size)
    (other : c.about? ≠ some k) : s'.objects[k]? = s.objects[k]? := by
  cases effect with
  | unchanged => rfl
  | made o => exact (Extends.push s o).getElem?_eq old
  | reordered moves there rearranged =>
      apply getElem?_reorder
      rintro rfl
      exact other (Command.about?_of_moved moves)
  | asked asks held after =>
      apply getElem?_set_ne
      rintro rfl
      exact other (Command.about?_of_operation asks)

end Effect

end Session

/-! ## In the long run -/

/-- The objects that a command of a run has made. -/
def Event.made (e : Event) : List Object :=
  (e.before.step e.command).elim [] fun outcome => e.before.news outcome.2

namespace Session

open MinPriority.Checked (Step)

variable {s s' : Session} {on : Nat} {events : List Event} {answer : Except Fault Answer}

/-- All the objects there have been, as they were when they were made. -/
def originals (s : Session) (events : List Event) : List Object :=
  s.objects.toList ++ events.flatMap Event.made

theorem Run.rearranged (run : s.Run events s') :
    List.Forall₂ Object.Rearranged (s.originals events) s'.objects.toList := by
  induction run with
  | nil =>
      rw [originals, List.flatMap_nil, List.append_nil]
      exact List.forall₂_refl _
  | @snoc events s' s'' c answer earlier step ih =>
      have made : Event.made ⟨s', c, answer⟩ = s'.news s'' := by
        rw [Event.made, step]
        rfl
      rw [originals, List.flatMap_append, List.flatMap_singleton, made, ← List.append_assoc]
      exact Object.rearranged_trans (List.rel_append ih (List.forall₂_refl _))
        (step_effect step).rearranged

/-- A window is made with the positions that are given for it. -/
theorem Run.made_window (run : s.Run events s') {e : Event} (listed : e ∈ events) {ref : Nat}
    {positions : List Index} (makes : e.command = .window ref positions) :
    e.made = [.window ref positions.toArray] := by
  induction run with
  | nil => cases listed
  | @snoc events s' s'' c answer earlier step ih =>
      rcases List.mem_append.1 listed with before | last
      · exact ih before
      · obtain rfl := List.mem_singleton.1 last
        obtain rfl : c = .window ref positions := makes
        rw [Event.made, step]
        cases there : s'.source? ref with
        | none =>
            rw [Session.step, there] at step
            cases step
        | some source =>
            rw [Session.step, there] at step
            cases step
            simp [news, push]

/-- A sort, one exchange after the other. -/
theorem swapAll_of_step {o : Order} {swaps : List (Nat × Nat)}
    (step : s.step (.sort on o) = some (.ok (.swaps swaps), s')) :
    InPlace.swapAll on swaps s = some (.ok (), s') := by
  obtain ⟨source, there, gives⟩ := looked step
  cases sorts : source.sortSwaps o with
  | error fault =>
      rw [sorts] at gives
      cases gives
  | ok swaps' =>
      rw [sorts] at gives
      cases gives
      exact InPlace.swapAll_eq there (Source.sortSwaps_inside sorts)

/-- A selection, with its windows among the objects. -/
theorem select_of_step {p : Policy} {given : Value} {target : Float} {args : Args}
    (step : s.step (.select on p given target) = some (answer, s'))
    (made : Args.ofValue given = .ok args) :
    ∃ chosen now, answer = chosen.map .indexes ∧
      InPlace.select p args.limits target on s = some (Step.of chosen, now) ∧ s'.Extends now := by
  obtain ⟨source, there, gives⟩ := looked step
  obtain ⟨-, now, selects, grown⟩ := InPlace.follows_select there p args.limits target
  rw [made] at gives
  cases gives
  refine ⟨_, now, ?_, selects, grown⟩
  show Except.map _ (p.run args target source).1 =
    Except.map _ (Except.map _ (p.run args target source).1)
  cases (p.run args target source).1 <;> rfl

/-- Whatever has been done in a session, its objects are those that were made, with their entries in
some order; and whatever is done next, every other object stays as it is.  Sorts and selections do
no more than that when they are carried out one exchange after the other, among objects that can all
see it. -/
theorem frame_of_run (run : s.Run events s') :
    List.Forall₂ Object.Rearranged (s.originals events) s'.objects.toList ∧
    (∀ e ∈ events, ∀ ref positions, e.command = .window ref positions →
      e.made = [.window ref positions.toArray]) ∧
    ∀ c answer next, s'.step c = some (answer, next) →
      (∀ k < s'.objects.size, c.about? ≠ some k → next.objects[k]? = s'.objects[k]?) ∧
      (∀ on o swaps, c = .sort on o → answer = .ok (.swaps swaps) →
        InPlace.swapAll on swaps s' = some (.ok (), next)) ∧
      ∀ on p given target args, c = .select on p given target →
        Args.ofValue given = .ok args →
          ∃ chosen now, answer = chosen.map .indexes ∧
            InPlace.select p args.limits target on s' = some (Step.of chosen, now) ∧
            next.Extends now := by
  refine ⟨run.rearranged, fun e listed ref positions => run.made_window listed, ?_⟩
  intro c answer next step
  refine ⟨fun k old other => (step_effect step).getElem?_eq old other, ?_, ?_⟩
  · rintro on o swaps rfl rfl
    exact swapAll_of_step step
  · rintro on p given target args rfl made
    exact select_of_step step made

/-- A window that lists a position twice, over a window with a position that is not there: a sort
and a search fail in the lower one, a selection finds nothing in the upper one, and both keep their
positions, while the collection is put in another order. -/
theorem frame_of_run_failing :
    ∃ (s s' : Session) (events : List Event), s.Run events s' ∧
      events.map (·.answer.isOk) = [true, true, true, false, false, false, true, false, true] ∧
      List.Forall₂ Object.Rearranged (s.originals events) s'.objects.toList ∧
      s'.objects.size = 4 ∧
      ∀ c answer next, s'.step c = some (answer, next) → c.about? = some 1 →
        next.objects[0]? = s'.objects[0]? ∧ next.objects[2]? = s'.objects[2]? ∧
          next.objects[3]? = s'.objects[3]? := by
  let s : Session := .ofCoins [⟨"a", 5, 7⟩, ⟨"b", 3, -2⟩, ⟨"c", 1, 4⟩]
  let args : Value := .object [("maxInputs", .number 3), ("minChangeAmount", .number 0)]
  let commands : List Command :=
    [.window 0 [.nat 2, .nat 7, .nat 0], .window 1 [.nat 2, .nat 0, .real 0], .subset 2 [.nat 1],
      .sort 1 (.ascending .amount), .select 1 (.minPriority 5) args 4,
      .select 2 .minNumber args 100, .popBack 3, .swap 0 (.nat 0) (.nat 5),
      .sort 0 (.ascending .valueAge)]
  have answers : (s.follow [] commands).map (fun run => run.1.map (·.answer.isOk)) =
      some [true, true, true, false, false, false, true, false, true] := by
    decide +kernel
  have objects : (s.follow [] commands).map (fun run => run.2.objects.size) = some 4 := by
    decide +kernel
  cases follows : s.follow [] commands with
  | none =>
      rw [follows] at answers
      cases answers
  | some reached =>
      obtain ⟨events, s'⟩ := reached
      rw [follows] at answers objects
      have run := Run.nil.follow follows
      obtain ⟨rearranged, -, next⟩ := frame_of_run run
      have size : s'.objects.size = 4 := Option.some.inj objects
      refine ⟨s, s', events, run, Option.some.inj answers, rearranged, size, ?_⟩
      intro c answer after step about
      obtain ⟨frame, -, -⟩ := next c answer after step
      exact ⟨frame 0 (by omega) (by simp [about]), frame 2 (by omega) (by simp [about]),
        frame 3 (by omega) (by simp [about])⟩

end Session

end CoinSelection
