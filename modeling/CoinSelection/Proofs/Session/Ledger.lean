/-
# CoinSelection.Proofs.Session.Ledger -- the totals of a subset are its ledger

The ledger of a subset lists the coins that were added to it and those that it returned, in the order
of the events of a run (`Session.ledger`); a coin is added as the source shows it at that moment.
The totals are what the ledger comes to.

While the source shows the same coins, the coins that have been added and not returned are those at
the positions of the subset (`Run.balanced`), so the totals are those of a new subset at the same
positions (`totals_of_ledger`).
-/
import Mathlib
import CoinSelection.Proofs.Session.Run

namespace CoinSelection

open Binary64 (Exact lastExact)

set_option autoImplicit false

/-! ## Sources that show the same -/

theorem Index.place?_cast {i : Index} {a b : Nat} (same : a = b) {n : Fin a}
    (there : i.place? a = some n) : i.place? b = some (n.cast same) := by
  subst same
  exact there

theorem Shelf.place?_of_entry {α : Type} {shelf : Shelf} {items : Array α} {i : Index} {a : α}
    (held : shelf.entry items i = .ok a) : ∃ n, i.place? items.size = some n := by
  obtain ⟨n, there, -⟩ := exists_of_bind_ok held
  unfold place at there
  split at there
  · rename_i n named
    exact ⟨n, named⟩
  · cases there

namespace Source

variable {s s' : Source} {i : Index} {c : Coin}

theorem place?_of_coin (look : s.coin i = .ok c) : ∃ n, i.place? s.size = some n := by
  cases s with
  | collection coins => exact Shelf.place?_of_entry look
  | window source positions =>
      obtain ⟨j, held, -⟩ := exists_of_bind_ok look
      exact Shelf.place?_of_entry held

theorem getElem?_slots {n : Nat} (inside : n < s.size) : s.slots[n]? = some (s.coin (.nat n)) := by
  simp [slots, List.getElem?_range inside]

/-- Where the slots are the same, so is every lookup that succeeds. -/
theorem coin_of_slots (same : s.slots = s'.slots) (look : s.coin i = .ok c) :
    s'.coin i = .ok c := by
  have size_eq : s.size = s'.size := by
    rw [← length_slots, same, length_slots]
  obtain ⟨n, there⟩ := place?_of_coin look
  have slot := getElem?_slots n.2
  rw [same, getElem?_slots (size_eq ▸ n.2)] at slot
  rw [coin_of_place? s' (Index.place?_cast size_eq there), ← look, coin_of_place? s there]
  exact Option.some.inj slot

theorem map_coin_of_slots (same : s.slots = s'.slots) {listed : List Index} {coins : List Coin}
    (read : listed.map s.coin = coins.map .ok) : listed.map s'.coin = coins.map .ok := by
  rw [← read]
  apply List.map_congr_left
  intro i inside
  obtain ⟨c, -, look⟩ := List.mem_map.1 (read ▸ List.mem_map_of_mem inside)
  rw [← look, coin_of_slots same look.symm]

end Source

/-! ## New subsets -/

/-- A new subset has the totals of the coins at its positions. -/
theorem Subset.ofIndexes_read {source : Source} {listed : List Index} {coins : List Coin}
    (read : listed.map source.coin = coins.map .ok) :
    ∃ s, ofIndexes source listed = .ok s ∧
      s.totals.valueAge = (coins.map Coin.valueAge).sum ∧
      (Change.Counted (coins.map .added) →
        Exact s.totals.amount (coins.map Coin.units).sum) := by
  obtain ⟨s, makes, -, totals⟩ := foldlM_pushBack_read read .empty
  have totals : s.totals = (coins.map Change.added).foldl Change.apply .zero := by
    rw [totals, Change.foldl_apply_added]
    rfl
  refine ⟨s, makes, ?_, ?_⟩
  · rw [totals, Change.foldl_apply_valueAge, Change.net_map_added]
    exact zero_add _
  · intro counted
    rw [totals, ← Change.net_map_added]
    exact counted.exact_foldl

/-! ## One operation -/

namespace Subset.Operation

variable {source : Source} {list : List Index} {coins : List Coin}

/-- The coins at the positions change as the totals do. -/
theorem balanced (read : list.map source.coin = coins.map .ok) (op : Operation) :
    ∃ coins' : List Coin,
      (op.listAfter (op.answer source list) list).map source.coin = coins'.map .ok ∧
      ∀ measure, (coins'.map measure).sum =
        (coins.map measure).sum +
          (op.change? source (op.answer source list)).elim 0 (Change.worth measure) := by
  cases answered : op.answer source list with
  | error fault =>
      rw [listAfter_error, change?_error]
      exact ⟨coins, read, fun _ => (add_zero _).symm⟩
  | ok a =>
      cases op with
      | size => exact ⟨coins, read, fun _ => (add_zero _).symm⟩
      | pushBack i =>
          obtain ⟨c, look, -⟩ := exists_of_map_ok answered
          refine ⟨coins ++ [c], ?_, ?_⟩
          · show (list ++ [i]).map source.coin = _
            rw [List.map_append, List.map_append, read, List.map_singleton, List.map_singleton, look]
          · intro measure
            show _ = _ + ((source.coin i).toOption.map Change.added).elim 0 _
            simp [look, Except.toOption, Change.worth]
      | popBack =>
          rcases list.eq_nil_or_concat' with rfl | ⟨front, i, rfl⟩
          · cases answered
          · rw [answer, List.getLast?_concat] at answered
            obtain ⟨c, look, rfl⟩ := exists_of_map_ok answered
            rw [List.map_append] at read
            obtain ⟨first, second, rfl, isFront, isLast⟩ := List.map_eq_append_iff.1 read.symm
            obtain ⟨c', rfl, same⟩ := List.map_eq_singleton_iff.1 isLast
            obtain rfl := Except.ok.inj (same.trans look)
            refine ⟨first, ?_, ?_⟩
            · show ((front ++ [i]).dropLast).map source.coin = _
              rw [List.dropLast_concat, isFront]
            · intro measure
              show _ = _ + -measure c'
              simp
      | popFront =>
          rcases list with _ | ⟨i, rest⟩
          · cases answered
          · obtain ⟨c, look, rfl⟩ := exists_of_map_ok answered
            obtain ⟨c', others, rfl, same, tail⟩ := List.map_eq_cons_iff.1 read.symm
            obtain rfl := Except.ok.inj (same.trans look)
            refine ⟨others, tail.symm, ?_⟩
            intro measure
            show _ = _ + -measure c'
            simp
      | indexes => exact ⟨coins, read, fun _ => (add_zero _).symm⟩
      | coins => exact ⟨coins, read, fun _ => (add_zero _).symm⟩

end Subset.Operation

namespace Session

open Subset (Change)

variable {s s₀ s' : Session} {on below : Nat} {source : Source} {contents : Subset}
variable {initial : List Index} {events : List Event} {coins : List Coin}

/-! ## Runs -/

/-- What the object with a number shows, if it is a source. -/
def shown? (s : Session) (ref : Nat) : Option (List Slot) := (s.source? ref).map Source.slots

/-- The source shows the same before each event and at the end as it does in `s`. -/
def Still (s : Session) (below : Nat) (events : List Event) (s' : Session) : Prop :=
  ∀ now ∈ s' :: events.map (·.before), now.shown? below = s.shown? below

/-- Where no order changes, every source shows the same. -/
theorem Run.still (run : s.Run events s') (there : s.source? below = some source)
    (moveless : ∀ e ∈ events, e.command.moved? = none) : s.Still below events s' := by
  have same : s'.source? below = some source ∧
      ∀ e ∈ events, e.before.source? below = some source := by
    induction run with
    | nil => exact ⟨there, List.forall_mem_nil _⟩
    | snoc earlier step ih =>
        obtain ⟨early, last⟩ := List.forall_mem_append.1 moveless
        obtain ⟨now, before⟩ := ih early
        refine ⟨(step_effect step).source?_eq (last _ List.mem_cons_self) now, ?_⟩
        exact List.forall_mem_append.2 ⟨before, by simpa using now⟩
  intro now listed
  rw [shown?, shown?, there]
  rcases List.mem_cons.1 listed with rfl | listed
  · rw [same.1]
  · obtain ⟨e, inside, rfl⟩ := List.mem_map.1 listed
    rw [same.2 e inside]

theorem Still.earlier {s'' : Session} {e : Event} (still : s.Still below (events ++ [e]) s'') :
    s.Still below events e.before := by
  intro now listed
  apply still
  rcases List.mem_cons.1 listed with rfl | listed
  · simp
  · simp only [List.map_append, List.mem_cons, List.mem_append]
    exact .inr (.inl listed)

/-- One command, while the source shows what it did. -/
theorem step_balanced {c : Command} {answer : Except Fault Answer}
    (there : s.source? below = some source) (held : s.objects[on]? = some (.subset below contents))
    (read : contents.indexes.map source.coin = coins.map .ok)
    (step : s.step c = some (answer, s')) :
    ∃ (contents' : Subset) (coins' : List Coin),
      s'.objects[on]? = some (.subset below contents') ∧
      contents'.indexes.map source.coin = coins'.map .ok ∧
      ∀ measure, (coins'.map measure).sum =
        (coins.map measure).sum +
          (Event.change? below on ⟨s, c, answer⟩).elim 0 (Change.worth measure) := by
  cases asks : c.operation? on with
  | none =>
      refine ⟨contents, coins, (step_effect step).getElem?_subset held asks, read, fun _ => ?_⟩
      simp [Event.change?, asks]
  | some op =>
      obtain rfl := Command.eq_command asks
      obtain ⟨after, steps, indexes, -⟩ := step_subset held there op
      obtain ⟨coins', read', sums⟩ := op.balanced read
      rw [steps] at step
      cases step
      refine ⟨after, coins', ?_, indexes ▸ read', ?_⟩
      · exact getElem?_set_self (Array.getElem?_eq_some_iff.1 held).1
      · intro measure
        simpa [Event.change?, there] using sums measure

/-- While the source shows the same, the coins at the positions of a subset are those that it had,
with those that were added and without those that were returned. -/
theorem Run.balanced (run : s.Run events s') (there : s.source? below = some source)
    (held : s.objects[on]? = some (.subset below contents))
    (read : contents.indexes.map source.coin = coins.map .ok) (still : s.Still below events s') :
    ∃ (source' : Source) (contents' : Subset) (coins' : List Coin),
      s'.source? below = some source' ∧ s'.objects[on]? = some (.subset below contents') ∧
      contents'.indexes.map source'.coin = coins'.map .ok ∧
      ∀ measure, (coins'.map measure).sum =
        (coins.map measure).sum + Change.net measure (events.filterMap (Event.change? below on)) := by
  induction run with
  | nil => exact ⟨source, contents, coins, there, held, read, fun _ => (add_zero _).symm⟩
  | @snoc events s' s'' c answer earlier step ih =>
      obtain ⟨source', contents', coins', there', held', read', sums'⟩ := ih still.earlier
      obtain ⟨source'', there''⟩ := (step_effect step).source? there'
      obtain ⟨contents'', coins'', held'', read'', sums''⟩ := step_balanced there' held' read' step
      -- what the source shows now is what it showed before the command
      have same : source'.slots = source''.slots := by
        have before := still s' (by simp)
        have after := still s'' List.mem_cons_self
        rw [← after, shown?, shown?, there', there''] at before
        exact Option.some.inj before
      refine ⟨source'', contents'', coins'', there'', held'',
        Source.map_coin_of_slots same read'', ?_⟩
      intro measure
      rw [sums'', sums', List.filterMap_append, Change.net_append, add_assoc]
      congr 2
      cases change : Event.change? below on ⟨s', c, answer⟩ with
      | none => simp [change]
      | some change => simp [change]

/-! ## The ledger -/

/-- The coins that a subset is made with, what the events add to it, and what it returns. -/
def ledger (s : Session) (below : Nat) (initial : List Index) (events : List Event) :
    List Change :=
  ((s.source? below).elim [] fun source =>
      initial.filterMap fun i => (source.coin i).toOption.map .added) ++
    events.filterMap (Event.change? below s.objects.size)

/-- The ledger begins with the coins at the initial positions. -/
theorem ledger_eq (there : s.source? below = some source)
    (read : initial.map source.coin = coins.map .ok) (events : List Event) :
    s.ledger below initial events =
      coins.map .added ++ events.filterMap (Event.change? below s.objects.size) := by
  have opening : initial.filterMap (fun i => (source.coin i).toOption.map Change.added) =
      (coins.map (Except.ok (ε := Fault))).filterMap (·.toOption.map Change.added) := by
    rw [← read, List.filterMap_map]
    rfl
  have added : (fun slot : Slot => slot.toOption.map Change.added) ∘ Except.ok =
      some ∘ Change.added := rfl
  rw [ledger, there, Option.elim_some, opening, List.filterMap_map, added, List.filterMap_eq_map]

/-- A command that fails is not in the ledger. -/
theorem change?_of_error {e : Event} {fault : Fault} (fails : e.answer = .error fault) :
    e.change? below on = none := by
  unfold Event.change?
  rw [fails]
  cases e.command.operation? on with
  | none => rfl
  | some op =>
      cases e.before.source? below with
      | none => rfl
      | some source => exact op.change?_error source fault

/-- The totals of a subset are what its ledger comes to: the value-age always, the amount as long as
amounts are whole and running totals are counted one by one.  While the source shows the same coins
they are the totals of a new subset at the same positions; in amount too, unless negative amounts take
the running totals of the new subset out of what is counted one by one. -/
theorem totals_of_ledger (made : s.step (.subset below initial) = some (.ok .done, s₀))
    (run : s₀.Run events s') :
    ∃ (source : Source) (contents : Subset), s'.source? below = some source ∧
      s'.objects[s.objects.size]? = some (.subset below contents) ∧
      (∀ e ∈ events, ∀ fault, e.answer = .error fault →
        e.change? below s.objects.size = none) ∧
      contents.totals.valueAge = Change.net Coin.valueAge (s.ledger below initial events) ∧
      (Change.Counted (s.ledger below initial events) →
        Exact contents.totals.amount (Change.net Coin.units (s.ledger below initial events))) ∧
      (s₀.Still below events s' → ∃ (coins : List Coin) (again : Subset),
        contents.indexes.map source.coin = coins.map .ok ∧
        Subset.ofIndexes source contents.indexes = .ok again ∧
        contents.totals.valueAge = (coins.map Coin.valueAge).sum ∧
        again.totals.valueAge = contents.totals.valueAge ∧
        (Change.Counted (s.ledger below initial events) →
          Exact contents.totals.amount (coins.map Coin.units).sum ∧
          ((∀ c ∈ coins, (Whole.nat? c.amount).isSome) ∨ Change.Counted (coins.map .added) →
            again.totals.amount == contents.totals.amount))) := by
  obtain ⟨source₀, contents₀, opening, there₀, rfl, read₀, indexes₀, totals₀⟩ := made_subset made
  have isLedger := ledger_eq there₀ read₀ events
  have held₀ : (s.push (.subset below contents₀)).objects[s.objects.size]? =
      some (.subset below contents₀) := by
    rw [push, Array.getElem?_push_size]
  have there₁ := (Extends.push s (.subset below contents₀)).source?_eq there₀
  obtain ⟨source, contents, there, held, -, totals⟩ := run.keeps there₁ held₀
  have totals : contents.totals = (s.ledger below initial events).foldl Change.apply .zero := by
    rw [totals, totals₀, isLedger, List.foldl_append, Change.foldl_apply_added]
    rfl
  have valueAge : contents.totals.valueAge =
      Change.net Coin.valueAge (s.ledger below initial events) := by
    rw [totals, Change.foldl_apply_valueAge]
    exact zero_add _
  have amount (counted : Change.Counted (s.ledger below initial events)) :
      Exact contents.totals.amount (Change.net Coin.units (s.ledger below initial events)) := by
    rw [totals]
    exact counted.exact_foldl
  refine ⟨source, contents, there, held, fun e _ fault => change?_of_error, valueAge, amount, ?_⟩
  intro still
  obtain ⟨source', contents', coins, there', held', read, sums⟩ :=
    run.balanced there₁ held₀ (indexes₀ ▸ read₀) still
  obtain rfl := Option.some.inj (there.symm.trans there')
  obtain ⟨-, rfl⟩ := Object.subset.inj (Option.some.inj (held.symm.trans held'))
  -- what the ledger comes to is what the coins at the positions come to
  have balance : ∀ measure, Change.net measure (s.ledger below initial events) =
      (coins.map measure).sum := by
    intro measure
    rw [isLedger, Change.net_append, Change.net_map_added, sums]
  have valueAge := valueAge.trans (balance _)
  obtain ⟨again, makes, againValueAge, againAmount⟩ := Subset.ofIndexes_read read
  refine ⟨coins, again, read, makes, valueAge, againValueAge.trans valueAge.symm, ?_⟩
  intro counted
  have exact := amount counted
  rw [balance] at exact
  refine ⟨exact, ?_⟩
  intro fits
  have countedAgain : Change.Counted (coins.map .added) :=
    fits.elim (fun whole => Change.counted_of_nonneg whole exact.small) id
  exact ((againAmount countedAgain).beq_iff exact).2 rfl

/-- Two coins, to which a third is added and from which two are taken; a position that is not there
is refused on the way. -/
theorem totals_of_ledger_pops :
    ∃ (s s₀ s' : Session) (events : List Event) (source : Source) (contents again : Subset),
      s.step (.subset 0 [.nat 0, .nat 2]) = some (.ok .done, s₀) ∧ s₀.Run events s' ∧
      s₀.Still 0 events s' ∧ Change.Counted (s.ledger 0 [.nat 0, .nat 2] events) ∧
      events.map (·.answer.isOk) = [true, true, false, true] ∧
      s'.source? 0 = some source ∧ s'.objects[1]? = some (.subset 0 contents) ∧
      contents.totals.valueAge = -2 ∧ Exact contents.totals.amount 3 ∧
      Subset.ofIndexes source contents.indexes = .ok again ∧
      again.totals.valueAge = contents.totals.valueAge := by
  let s : Session := .ofCoins [⟨"a", 5, 7⟩, ⟨"b", 3, -2⟩, ⟨"c", 1, 4⟩]
  let initial : List Index := [.nat 0, .nat 2]
  let commands : List Command :=
    [.pushBack 1 (.nat 1), .popFront 1, .pushBack 1 (.real (0 / 0)), .popFront 1]
  let source : Source := .collection #[⟨"a", 5, 7⟩, ⟨"b", 3, -2⟩, ⟨"c", 1, 4⟩]
  have there : s.source? 0 = some source := source?_eq_collection.2 rfl
  have read : initial.map source.coin =
      [Coin.mk "a" 5 7, Coin.mk "c" 1 4].map .ok := rfl
  obtain ⟨s₀, made⟩ : ∃ s₀, s.step (.subset 0 initial) = some (.ok .done, s₀) := by
    obtain ⟨contents, makes, -⟩ := Subset.ofIndexes_read read
    rw [Session.step, there]
    exact ⟨s.push (.subset 0 contents), by simp [makes]; rfl⟩
  have answers : ((s.step (.subset 0 initial)).bind fun made => made.2.follow [] commands).map
      (fun run => run.1.map (·.answer.isOk)) = some [true, true, false, true] := by
    decide +kernel
  have facts : ((s.step (.subset 0 initial)).bind fun made => made.2.follow [] commands).all
      (fun run => decide ((∀ e ∈ run.1, e.command.moved? = none) ∧
        (∀ change ∈ s.ledger 0 initial run.1, (Whole.int? change.coin.amount).isSome) ∧
        (∀ front ∈ (s.ledger 0 initial run.1).inits,
          (Change.net Coin.units front).natAbs ≤ lastExact) ∧
        Change.net Coin.valueAge (s.ledger 0 initial run.1) = -2 ∧
        Change.net Coin.units (s.ledger 0 initial run.1) = 3)) = true := by
    decide +kernel
  rw [made, Option.bind_some] at answers facts
  cases follows : s₀.follow [] commands with
  | none =>
      rw [follows] at answers
      cases answers
  | some reached =>
      obtain ⟨events, s'⟩ := reached
      rw [follows] at answers facts
      obtain ⟨moveless, whole, small, ages, units⟩ := of_decide_eq_true facts
      have run := Run.nil.follow follows
      have there₀ := (step_effect made).source?_eq rfl there
      have still := run.still there₀ moveless
      have counted : Change.Counted (s.ledger 0 initial events) := ⟨whole, small⟩
      obtain ⟨source, contents, there', held, -, valueAge, amount, recomputed⟩ :=
        totals_of_ledger made run
      obtain ⟨-, again, -, makes, -, same, -⟩ := recomputed still
      exact ⟨s, s₀, s', events, source, contents, again, made, run, still, counted,
        Option.some.inj answers, there', held, valueAge.trans ages, units ▸ amount counted, makes,
        same⟩

end Session

end CoinSelection
