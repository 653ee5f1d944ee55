/-
# CoinSelection.Proofs.Session.Run -- subsets in the long run

A run is any sequence of commands, for any objects of a session; its events are the commands with
their answers, each with the session as it was before (`Session.Run`).  The events that are about one
subset make up the list that it should show (`Session.listAfter`), and `Run.keeps` says that it
shows it, and that its totals have gone up and down by the coins that were added and returned.

So in every state that a run can reach a subset answers as that list would (`subset_is_list`).
-/
import Mathlib
import CoinSelection.Proofs.Session.Step

namespace CoinSelection

set_option autoImplicit false

/-! ## Runs -/

/-- One command of a run: the session before it, and the answer. -/
structure Event where
  before : Session
  command : Command
  answer : Except Fault Answer

namespace Event

/-- The list of a subset after the event. -/
def listAfter (on : Nat) (list : List Index) (e : Event) : List Index :=
  (e.command.operation? on).elim list fun op => op.listAfter e.answer list

/-- The coin that is added to a subset or returned from it. -/
def change? (below on : Nat) (e : Event) : Option Subset.Change := do
  let op ← e.command.operation? on
  op.change? (← e.before.source? below) e.answer

end Event

namespace Session

/-- The events that lead from one session to another. -/
inductive Run (s : Session) : List Event → Session → Prop where
  | nil : Run s [] s
  | snoc {events : List Event} {s' s'' : Session} {c : Command} {answer : Except Fault Answer}
      (earlier : Run s events s') (step : s'.step c = some (answer, s'')) :
      Run s (events ++ [⟨s', c, answer⟩]) s''

/-- The list of positions that some events make of the one that a subset began with. -/
def listAfter (on : Nat) (initial : List Index) (events : List Event) : List Index :=
  events.foldl (Event.listAfter on) initial

/-- Carries out some commands; the events are put behind those that there are. -/
def follow (s : Session) (events : List Event) : List Command → Option (List Event × Session)
  | [] => some (events, s)
  | c :: rest => do
      let (answer, next) ← s.step c
      next.follow (events ++ [⟨s, c, answer⟩]) rest

variable {s s₀ s' : Session} {on below : Nat} {source : Source} {contents : Subset}
variable {initial : List Index} {events : List Event}

theorem Run.follow {events' : List Event} {s'' : Session} {commands : List Command}
    (run : s.Run events s') (follows : s'.follow events commands = some (events', s'')) :
    s.Run events' s'' := by
  induction commands generalizing events s' with
  | nil =>
      cases follows
      exact run
  | cons c rest ih =>
      obtain ⟨⟨answer, next⟩, step, follows⟩ := Option.bind_eq_some_iff.1 follows
      exact ih (run.snoc step) follows

/-! ## A subset in a run -/

/-- A new subset has the positions it was given, and the totals of the coins at them. -/
theorem made_subset (made : s.step (.subset below initial) = some (.ok .done, s₀)) :
    ∃ (source : Source) (contents : Subset) (coins : List Coin), s.source? below = some source ∧
      s₀ = s.push (.subset below contents) ∧ initial.map source.coin = coins.map .ok ∧
      contents.indexes = initial ∧ contents.totals = .of coins := by
  obtain ⟨source, there, gives⟩ := looked made
  cases makes : Subset.ofIndexes source initial with
  | error fault =>
      rw [makes] at gives
      cases gives
  | ok contents =>
      rw [makes] at gives
      cases gives
      obtain ⟨coins, read, indexes, totals⟩ := Subset.foldlM_pushBack_ok makes
      exact ⟨source, contents, coins, there, rfl, read, indexes, totals⟩

/-- One command, whatever it is about. -/
theorem step_keeps {c : Command} {answer : Except Fault Answer}
    (there : s.source? below = some source)
    (held : s.objects[on]? = some (.subset below contents)) (step : s.step c = some (answer, s')) :
    ∃ source' contents', s'.source? below = some source' ∧
      s'.objects[on]? = some (.subset below contents') ∧
      contents'.indexes = Event.listAfter on contents.indexes ⟨s, c, answer⟩ ∧
      contents'.totals =
        (Event.change? below on ⟨s, c, answer⟩).elim contents.totals
          (Subset.Change.apply contents.totals) := by
  have effect := step_effect step
  obtain ⟨source', there'⟩ := effect.source? there
  cases asks : c.operation? on with
  | none =>
      refine ⟨source', contents, there', effect.getElem?_subset held asks, ?_, ?_⟩
      · simp [Event.listAfter, asks]
      · simp [Event.change?, asks]
  | some op =>
      obtain rfl := Command.eq_command asks
      obtain ⟨after, steps, indexes, totals⟩ := step_subset held there op
      rw [steps] at step
      cases step
      refine ⟨source', after, there', ?_, ?_, ?_⟩
      · exact getElem?_set_self (Array.getElem?_eq_some_iff.1 held).1
      · simpa [Event.listAfter] using indexes
      · simpa [Event.change?, there] using totals

/-- Any number of commands. -/
theorem Run.keeps (run : s.Run events s') (there : s.source? below = some source)
    (held : s.objects[on]? = some (.subset below contents)) :
    ∃ source' contents', s'.source? below = some source' ∧
      s'.objects[on]? = some (.subset below contents') ∧
      contents'.indexes = listAfter on contents.indexes events ∧
      contents'.totals =
        (events.filterMap (Event.change? below on)).foldl Subset.Change.apply contents.totals := by
  induction run with
  | nil => exact ⟨source, contents, there, held, rfl, rfl⟩
  | snoc earlier step ih =>
      obtain ⟨source', contents', there', held', indexes', totals'⟩ := ih
      obtain ⟨source'', contents'', there'', held'', indexes'', totals''⟩ :=
        step_keeps there' held' step
      refine ⟨source'', contents'', there'', held'', ?_, ?_⟩
      · rw [indexes'', indexes', listAfter, listAfter, List.foldl_append]
        rfl
      · rw [totals'', totals', List.filterMap_append, List.foldl_append]
        cases change : Event.change? below on _ with
        | none => simp [change]
        | some change => simp [change]

/-- Whatever has happened since a subset was made, its positions are a list to which the positions
that were accepted have been added at the end, and from which one has been taken at either end by each
coin that was returned.  It answers as that list does; only a pop of the empty list fails for want of
a coin; and a failure of any kind changes neither positions nor totals. -/
theorem subset_is_list (made : s.step (.subset below initial) = some (.ok .done, s₀))
    (run : s₀.Run events s') :
    ∃ (source : Source) (contents : Subset), s'.source? below = some source ∧
      s'.objects[s.objects.size]? = some (.subset below contents) ∧
      contents.indexes = listAfter s.objects.size initial events ∧
      contents.size = contents.indexes.length ∧
      ∀ op : Subset.Operation, ∃ (answer : Except Fault Answer) (after : Subset),
        s'.step (op.command s.objects.size) =
          some (answer, s'.set s.objects.size (.subset below after)) ∧
        answer = op.answer source contents.indexes ∧
        after.indexes = op.listAfter answer contents.indexes ∧
        after.size = after.indexes.length ∧
        ((∃ name, answer = .error (.emptySubset name)) ↔
          contents.indexes = [] ∧ (op = .popBack ∨ op = .popFront)) ∧
        (∀ i, op = .popBack → contents.indexes.getLast? = some i →
          answer = (source.coin i).map .coin) ∧
        (∀ i, op = .popFront → contents.indexes.head? = some i →
          answer = (source.coin i).map .coin) ∧
        ∀ fault, answer = .error fault →
          after.indexes = contents.indexes ∧ after.size = contents.size ∧
            after.totals = contents.totals := by
  obtain ⟨source₀, contents₀, coins, there₀, rfl, -, indexes₀, -⟩ := made_subset made
  have held₀ : (s.push (.subset below contents₀)).objects[s.objects.size]? =
      some (.subset below contents₀) := by
    rw [push, Array.getElem?_push_size]
  obtain ⟨source, contents, there, held, indexes, -⟩ :=
    run.keeps ((Extends.push s _).source?_eq there₀) held₀
  refine ⟨source, contents, there, held, indexes₀ ▸ indexes, contents.size_eq, ?_⟩
  intro op
  obtain ⟨after, steps, indexes, totals⟩ := step_subset held there op
  refine ⟨_, after, steps, rfl, indexes, after.size_eq, op.wants_iff source contents.indexes,
    ?_, ?_, ?_⟩
  · rintro i rfl last
    simp only [Subset.Operation.answer, last]
  · rintro i rfl first
    simp only [Subset.Operation.answer, first]
  · intro fault fails
    rw [fails, Subset.Operation.listAfter_error] at indexes
    rw [fails, Subset.Operation.change?_error] at totals
    exact ⟨indexes, by rw [after.size_eq, indexes, contents.size_eq], totals⟩

/-- A position that is not there is refused, and taking from both ends leaves an empty list, of which
nothing can be taken although a position that was taken may still be kept. -/
theorem subset_is_list_drained :
    ∃ (s s₀ s' : Session) (events : List Event) (source : Source) (contents : Subset),
      s.step (.subset 0 [.nat 0, .nat 2, .nat 1]) = some (.ok .done, s₀) ∧ s₀.Run events s' ∧
      events.map (·.answer.isOk) = [true, true, false, true, true] ∧
      s'.source? 0 = some source ∧ s'.objects[1]? = some (.subset 0 contents) ∧
      contents.indexes = [] ∧
      ∃ answer after, s'.step (.popBack 1) = some (answer, s'.set 1 (.subset 0 after)) ∧
        (∃ name, answer = .error (.emptySubset name)) ∧ after.indexes = [] ∧
        after.totals = contents.totals := by
  let s : Session := .ofCoins [⟨"a", 5, 7⟩, ⟨"b", 3, -2⟩, ⟨"c", 1, 4⟩]
  let commands : List Command :=
    [.popFront 1, .swap 0 (.nat 0) (.nat 1), .pushBack 1 (.real (0 / 0)), .popBack 1, .popBack 1]
  have there : s.source? 0 = some (.collection #[⟨"a", 5, 7⟩, ⟨"b", 3, -2⟩, ⟨"c", 1, 4⟩]) :=
    source?_eq_collection.2 rfl
  obtain ⟨s₀, made⟩ : ∃ s₀, s.step (.subset 0 [.nat 0, .nat 2, .nat 1]) = some (.ok .done, s₀) := by
    rw [Session.step, there]
    exact ⟨_, rfl⟩
  have answers : ((s.step (.subset 0 [.nat 0, .nat 2, .nat 1])).bind fun made =>
      made.2.follow [] commands).map (fun run => run.1.map (·.answer.isOk)) =
        some [true, true, false, true, true] := by
    decide +kernel
  have list : ((s.step (.subset 0 [.nat 0, .nat 2, .nat 1])).bind fun made =>
      made.2.follow [] commands).map (fun run =>
        listAfter 1 [.nat 0, .nat 2, .nat 1] run.1) = some [] := by
    decide +kernel
  rw [made, Option.bind_some] at answers list
  cases follows : s₀.follow [] commands with
  | none =>
      rw [follows] at answers
      cases answers
  | some reached =>
      obtain ⟨events, s'⟩ := reached
      rw [follows] at answers list
      have run := Run.nil.follow follows
      obtain ⟨source, contents, there', held, indexes, -, asks⟩ := subset_is_list made run
      have empty : contents.indexes = [] := indexes.trans (Option.some.inj list)
      obtain ⟨answer, after, steps, -, -, -, wants, -, -, fails⟩ := asks .popBack
      obtain ⟨name, want⟩ := wants.2 ⟨empty, .inl rfl⟩
      obtain ⟨kept, -, totals⟩ := fails _ want
      exact ⟨s, s₀, s', events, source, contents, made, run, Option.some.inj answers, there', held,
        empty, answer, after, steps, ⟨name, want⟩, kept.trans empty, totals⟩

end Session

end CoinSelection
