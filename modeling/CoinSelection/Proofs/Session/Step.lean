/-
# CoinSelection.Proofs.Session.Step -- what one command can do

A command leaves the session as it is, adds an object, puts the entries of a source in another
order, or asks a subset (`Session.Effect`, `step_effect`).  Everything that holds in the long run is
taken from that: sources stay sources (`Effect.source?`), and a subset stays as it is until it is
asked itself (`Effect.getElem?_subset`).
-/
import Mathlib
import CoinSelection.Proofs.InPlace
import CoinSelection.Proofs.Session
import CoinSelection.Proofs.Subset.Method

namespace CoinSelection

set_option autoImplicit false

/-! ## Commands for subsets -/

/-- The command that asks the subset with a number. -/
def Subset.Operation.command (on : Nat) : Subset.Operation → Command
  | size => .size on
  | pushBack i => .pushBack on i
  | popBack => .popBack on
  | popFront => .popFront on
  | indexes => .indexes on
  | coins => .coins on

/-- What a command asks of the subset with a number, if it is about that. -/
def Command.operation? (on : Nat) : Command → Option Subset.Operation
  | .size k => if k = on then some .size else none
  | .pushBack k i => if k = on then some (.pushBack i) else none
  | .popBack k => if k = on then some .popBack else none
  | .popFront k => if k = on then some .popFront else none
  | .indexes k => if k = on then some .indexes else none
  | .coins k => if k = on then some .coins else none
  | _ => none

@[simp] theorem Command.operation?_command (on : Nat) (op : Subset.Operation) :
    (op.command on).operation? on = some op := by
  cases op <;> simp [Subset.Operation.command, operation?]

theorem Command.eq_command {on : Nat} {c : Command} {op : Subset.Operation}
    (asks : c.operation? on = some op) : c = op.command on := by
  cases c <;> simp only [operation?, Option.ite_none_right_eq_some, Option.some.injEq, reduceCtorEq]
    at asks <;> obtain ⟨rfl, rfl⟩ := asks <;> rfl

/-- The source whose order a command may change. -/
def Command.moved? : Command → Option Nat
  | .swap on .. | .sort on _ | .select on .. => some on
  | _ => none

/-! ## Other orders -/

theorem Shelf.perm_of_swap {α : Type} {shelf : Shelf} {items items' : Array α} {i j : Index}
    (swaps : shelf.swap items i j = .ok items') : items'.Perm items := by
  obtain ⟨m, -, swaps⟩ := exists_of_bind_ok swaps
  obtain ⟨n, -, swaps⟩ := exists_of_bind_ok swaps
  cases swaps
  exact Array.swap_perm ..

theorem Source.rearranged_swap {s s' : Source} {i j : Index} (swaps : s.swap i j = .ok s') :
    s.Rearranged s' := by
  cases s with
  | collection coins =>
      obtain ⟨coins', moved, same⟩ := exists_of_bind_ok swaps
      cases same
      exact .collection (Shelf.perm_of_swap moved)
  | window source positions =>
      obtain ⟨positions', moved, same⟩ := exists_of_bind_ok swaps
      cases same
      exact .window (Shelf.perm_of_swap moved)

namespace Session

variable {s s' : Session} {on ref below : Nat} {source source' other : Source}
variable {contents : Subset} {c : Command} {answer : Except Fault Answer}

theorem source?_eq_none_of_subset (held : s.objects[on]? = some (.subset below contents)) :
    s.source? on = none := by
  rw [source?, held]

theorem getElem?_of_subset? {contents : Subset}
    (there : s.subset? on = some (below, source, contents)) :
    s.objects[on]? = some (.subset below contents) ∧ s.source? below = some source := by
  unfold subset? at there
  split at there
  · rename_i ref contents' held
    simp only [Option.map_eq_some_iff, Prod.mk.injEq] at there
    obtain ⟨source', looks, rfl, rfl, rfl⟩ := there
    exact ⟨held, looks⟩
  · cases there

theorem subset?_eq (held : s.objects[on]? = some (.subset below contents))
    (there : s.source? below = some source) :
    s.subset? on = some (below, source, contents) := by
  rw [subset?, held]
  simp [there]

/-- Sources stay sources when one of them is put in another order. -/
theorem source?_of_reorder (there : s.source? on = some source)
    (rearranged : source.Rearranged source') (stands : s.source? ref = some other) :
    ∃ other', (s.reorder on source').source? ref = some other' := by
  induction ref using Nat.strong_induction_on generalizing other with
  | _ ref ih =>
      by_cases same : ref = on
      · subst same
        exact ⟨source', source?_reorder there rearranged⟩
      · have kept := s.getElem?_reorder source' same
        cases other with
        | collection coins =>
            refine ⟨.collection coins, source?_eq_collection.2 ?_⟩
            rw [kept, source?_eq_collection.1 stands]
        | window lower positions =>
            obtain ⟨k, earlier, held, looks⟩ := source?_eq_window.1 stands
            obtain ⟨lower', looks'⟩ := ih k earlier looks
            exact ⟨.window lower' positions,
              source?_eq_window.2 ⟨k, earlier, by rw [kept, held], looks'⟩⟩

/-- Sources do not look at subsets. -/
theorem source?_set_subset (held : s.objects[on]? = some (.subset below contents))
    (after : Subset) (stands : s.source? ref = some other) :
    (s.set on (.subset below after)).source? ref = some other := by
  induction ref using Nat.strong_induction_on generalizing other with
  | _ ref ih =>
      have different : ref ≠ on := by
        rintro rfl
        rw [source?_eq_none_of_subset held] at stands
        cases stands
      have kept := s.getElem?_set_ne (o := .subset below after) different
      cases other with
      | collection coins =>
          refine source?_eq_collection.2 ?_
          rw [kept, source?_eq_collection.1 stands]
      | window lower positions =>
          obtain ⟨k, earlier, held', looks⟩ := source?_eq_window.1 stands
          exact source?_eq_window.2 ⟨k, earlier, by rw [kept, held'], ih k earlier looks⟩

/-! ## One command -/

/-- What a command can do to a session. -/
inductive Effect (s : Session) (c : Command) : Session → Prop where
  | unchanged : Effect s c s
  | made (o : Object) : Effect s c (s.push o)
  | reordered {on : Nat} {source source' : Source} (moves : c.moved? = some on)
      (there : s.source? on = some source) (rearranged : source.Rearranged source') :
      Effect s c (s.reorder on source')
  | asked {on below : Nat} {contents : Subset} {op : Subset.Operation}
      (asks : c.operation? on = some op) (held : s.objects[on]? = some (.subset below contents))
      (after : Subset) : Effect s c (s.set on (.subset below after))

theorem perform_effect {op : Subset.Operation} (asks : c.operation? on = some op)
    (performs : s.perform on op = some (answer, s')) : s.Effect c s' := by
  simp only [perform, Option.bind_eq_bind, Option.bind_eq_some_iff] at performs
  obtain ⟨⟨below, source, contents⟩, there, gives⟩ := performs
  cases gives
  exact .asked asks (getElem?_of_subset? there).1 _

/-- A change that needs a step that can fail: if that fails nothing has changed. -/
theorem changed_cases {α : Type} {first : Except Fault α} {next : α → Answer × Session}
    (gives : s.changed (next <$> first) = (answer, s')) :
    s' = s ∨ ∃ a, first = .ok a ∧ s' = (next a).2 := by
  cases first with
  | error fault =>
      cases gives
      exact .inl rfl
  | ok a =>
      cases gives
      exact .inr ⟨a, rfl, rfl⟩

/-- An answer about a source. -/
theorem looked {next : Source → Except Fault Answer × Session}
    (step : (do return next (← s.source? on)) = some (answer, s')) :
    ∃ source, s.source? on = some source ∧ next source = (answer, s') := by
  obtain ⟨source, there, gives⟩ := Option.bind_eq_some_iff.1 step
  exact ⟨source, there, Option.some.inj gives⟩

/-- A new object over a source. -/
theorem made_effect {o : Object}
    (step : (do discard (s.source? ref); return (.ok .done, s.push o)) = some (answer, s')) :
    s.Effect c s' := by
  cases there : s.source? ref with
  | none =>
      rw [there] at step
      cases step
  | some source =>
      rw [there] at step
      cases step
      exact .made o

theorem step_effect (step : s.step c = some (answer, s')) : s.Effect c s' := by
  cases c with
  | window ref positions => exact made_effect step
  | range ref start stop => exact made_effect step
  | subset ref indexes =>
      obtain ⟨source, -, gives⟩ := looked step
      rcases changed_cases gives with rfl | ⟨contents, -, rfl⟩
      · exact .unchanged
      · exact .made _
  | size on =>
      rw [Session.step] at step
      split at step
      · cases step
        exact .unchanged
      · cases step
        exact .unchanged
      · exact perform_effect (if_pos rfl) step
      · cases step
  | coin on i =>
      obtain ⟨source, -, gives⟩ := looked step
      cases gives
      exact .unchanged
  | coins on =>
      rw [Session.step] at step
      split at step
      · cases step
        exact .unchanged
      · exact perform_effect (if_pos rfl) step
      · cases step
  | sourceIndex on i =>
      obtain ⟨source, -, gives⟩ := looked step
      cases gives
      exact .unchanged
  | less on o i j =>
      obtain ⟨source, -, gives⟩ := looked step
      cases gives
      exact .unchanged
  | swap on i j =>
      obtain ⟨source, there, gives⟩ := looked step
      rcases changed_cases gives with rfl | ⟨source', swaps, rfl⟩
      · exact .unchanged
      · exact .reordered rfl there (Source.rearranged_swap swaps)
  | sort on o =>
      obtain ⟨source, there, gives⟩ := looked step
      rcases changed_cases gives with rfl | ⟨swaps, -, rfl⟩
      · exact .unchanged
      · exact .reordered rfl there (source.rearranged_applySwaps swaps)
  | select on p given target =>
      obtain ⟨source, there, gives⟩ := looked step
      dsimp only at gives
      split at gives
      · cases gives
        exact .unchanged
      · cases gives
        exact .reordered rfl there (p.rearranged_apply _ _ _)
  | pushBack on i => exact perform_effect (if_pos rfl) step
  | popBack on => exact perform_effect (if_pos rfl) step
  | popFront on => exact perform_effect (if_pos rfl) step
  | indexes on => exact perform_effect (if_pos rfl) step

namespace Effect

theorem source? (effect : s.Effect c s') (stands : s.source? ref = some other) :
    ∃ other', s'.source? ref = some other' := by
  cases effect with
  | unchanged => exact ⟨other, stands⟩
  | made o => exact ⟨other, (Extends.push s o).source?_eq stands⟩
  | reordered moves there rearranged => exact source?_of_reorder there rearranged stands
  | asked asks held after => exact ⟨other, source?_set_subset held after stands⟩

/-- Where no order changes, a source stays the same. -/
theorem source?_eq (effect : s.Effect c s') (still : c.moved? = .none)
    (stands : s.source? ref = some other) : s'.source? ref = some other := by
  cases effect with
  | unchanged => exact stands
  | made o => exact (Extends.push s o).source?_eq stands
  | reordered moves there rearranged =>
      rw [still] at moves
      cases moves
  | asked asks held after => exact source?_set_subset held after stands

/-- A subset stays as it is while others are asked. -/
theorem getElem?_subset (effect : s.Effect c s')
    (held : s.objects[ref]? = some (.subset below contents)) (others : c.operation? ref = none) :
    s'.objects[ref]? = some (.subset below contents) := by
  have old := (Array.getElem?_eq_some_iff.1 held).1
  cases effect with
  | unchanged => exact held
  | made o => rw [(Extends.push s o).getElem?_eq old, held]
  | reordered moves there rearranged =>
      rw [s.getElem?_reorder _ ?_, held]
      rintro rfl
      rw [source?_eq_none_of_subset held] at there
      cases there
  | asked asks held' after =>
      rw [s.getElem?_set_ne ?_, held]
      rintro rfl
      rw [others] at asks
      cases asks

end Effect

/-! ## A subset that is asked -/

theorem step_command (held : s.objects[on]? = some (.subset below contents))
    (op : Subset.Operation) : s.step (op.command on) = s.perform on op := by
  cases op with
  | size => rw [Subset.Operation.command, Session.step, held]
  | coins => rw [Subset.Operation.command, Session.step, held]
  | pushBack i => rfl
  | popBack => rfl
  | popFront => rfl
  | indexes => rfl

/-- A subset that is asked answers as its list does. -/
theorem step_subset (held : s.objects[on]? = some (.subset below contents))
    (there : s.source? below = some source) (op : Subset.Operation) :
    ∃ after, s.step (op.command on) =
        some (op.answer source contents.indexes, s.set on (.subset below after)) ∧
      after.indexes = op.listAfter (op.answer source contents.indexes) contents.indexes ∧
      after.totals = (op.change? source (op.answer source contents.indexes)).elim contents.totals
        (Subset.Change.apply contents.totals) := by
  obtain ⟨after, performs, indexes, totals⟩ := op.perform_eq source contents
  refine ⟨after, ?_, indexes, totals⟩
  rw [step_command held, perform, subset?_eq held there, Option.bind_eq_bind, Option.bind_some]
  dsimp only
  rw [performs]
  rfl

end Session

end CoinSelection
