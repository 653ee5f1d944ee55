/-
# CoinSelection.Proofs.Sort.Adaptive -- the adaptive sort permutes

Whatever the comparison answers, consistent or not, no element is lost or made up: each stage of
the sort only moves elements.  The chunks of a list are a permutation of it (`flatten_chunks_perm`),
a merge of two runs is one of both together (`mergeRuns_perm`), and so the sorted list is one of
the list (`sort_perm`).
-/
import Mathlib
import CoinSelection.Sort.Adaptive

namespace CoinSelection.Sort.Adaptive

open scoped List

set_option autoImplicit false

variable {α : Type} (less : α → α → Bool)

/-! ## Chunks -/

theorem insert_perm (sorted : List α) (x : α) : insert less sorted x ~ x :: sorted := by
  simp only [insert]
  exact List.perm_middle.trans (by rw [List.take_append_drop])

theorem foldl_insert_perm (xs run : List α) : xs.foldl (insert less) run ~ run ++ xs := by
  induction xs generalizing run with
  | nil => simp
  | cons x xs ih =>
      refine (ih _).trans (((insert_perm less run x).append_right xs).trans ?_)
      exact List.perm_middle.symm

theorem frontRun_perm (xs : List α) : frontRun less xs ~ xs.take (runLength less xs) := by
  unfold frontRun
  dsimp only
  split
  · rename_i x y rest run
    rw [run]
    split
    · exact List.reverse_perm _
    · exact List.Perm.refl _
  · exact List.Perm.refl _

theorem flatten_chunks_perm (least : Nat) (xs : List α) : (chunks less least xs).flatten ~ xs := by
  fun_induction chunks less least xs with
  | case1 => simp
  | case2 xs filled size rest ih =>
      have shorter : runLength less xs ≤ size := Nat.le_max_left _ _
      have front : xs.take (runLength less xs) = (xs.take size).take (runLength less xs) := by
        rw [List.take_take, Nat.min_eq_left shorter]
      have chunk : rest.foldl (insert less) (frontRun less xs) ~ xs.take size := by
        refine (foldl_insert_perm less rest _).trans ?_
        refine ((frontRun_perm less xs).append_right _).trans ?_
        rw [front, List.take_append_drop]
      rw [List.flatten_cons]
      refine (chunk.append ih).trans ?_
      rw [List.take_append_drop]

/-! ## Merging -/

theorem search_perm (c : Comparison α) (side : Side) (x y : α) (xs ys : List α) :
    (Merge.search c side x y xs ys).1 ++
      ((Merge.search c side x y xs ys).2.1 ++ (Merge.search c side x y xs ys).2.2.1) ~
        x :: xs ++ y :: ys := by
  cases side with
  | first =>
      simp only [Merge.search]
      generalize c.firstAhead (x :: xs) y = n
      calc (x :: xs).take n ++ [y] ++ ((x :: xs).drop n ++ ys)
        _ = (x :: xs).take n ++ y :: ((x :: xs).drop n ++ ys) := by simp
        _ ~ (x :: xs).take n ++ ((x :: xs).drop n ++ y :: ys) := List.perm_middle.symm.append_left _
        _ = x :: xs ++ y :: ys := by rw [← List.append_assoc, List.take_append_drop]
  | second =>
      simp only [Merge.search]
      generalize c.secondAhead (y :: ys) x = n
      calc (y :: ys).take n ++ [x] ++ (xs ++ (y :: ys).drop n)
        _ = (y :: ys).take n ++ (x :: xs ++ (y :: ys).drop n) := by simp
        _ ~ x :: xs ++ ((y :: ys).take n ++ (y :: ys).drop n) := List.perm_append_comm_assoc _ _ _
        _ = x :: xs ++ y :: ys := by rw [List.take_append_drop]

theorem step_perm (c : Comparison α) (patience : Nat) (pace : Pace) (x y : α) (xs ys : List α) :
    (Merge.step c patience pace x y xs ys).1 ++
      ((Merge.step c patience pace x y xs ys).2.first ++
        (Merge.step c patience pace x y xs ys).2.second) ~ x :: xs ++ y :: ys := by
  simp only [Merge.step]
  generalize pace.settle patience = next
  obtain ⟨patience, pace⟩ := next
  cases pace with
  | counting m n =>
      by_cases takes : c.takesSecond x y = true
      · simp only [takes, if_true]
        exact (@List.perm_middle _ y (x :: xs) ys).symm
      · simp only [takes]
        exact List.Perm.refl _
  | opening => exact search_perm c c.leads x y xs ys
  | closing m => exact search_perm c c.leads.other x y xs ys
  | weighing m n => exact search_perm c c.leads x y xs ys

theorem run_perm (c : Comparison α) (fuel : Nat) (s : Merge α) :
    (Merge.run c fuel s).1 ~ s.first ++ s.second := by
  induction fuel generalizing s with
  | zero => exact List.Perm.refl _
  | succ fuel ih =>
      obtain ⟨first, second, patience, pace⟩ := s
      unfold Merge.run
      dsimp only
      split
      · simp
      · simp
      · exact List.perm_append_comm
      · rename_i x xs y ys _
        have step := step_perm c patience pace x y xs ys
        exact ((ih _).append_left _).trans step

theorem mergeRuns_perm (patience : Nat) (left right : List α) :
    (mergeRuns less patience left right).1 ~ left ++ right := by
  unfold mergeRuns
  split
  · simp
  · rename_i y' right'
    dsimp only
    generalize upperBound less y' left 0 = before
    split
    · exact List.Perm.refl _
    · rename_i x last
      generalize lowerBound less x (y' :: right') ((y' :: right').length - 1) = upTo
      split
      · exact List.Perm.refl _
      · rename_i y ys head
        have left_parts : left.take before ++ left.drop before = left := List.take_append_drop _ _
        have right_parts : (y :: ys) ++ (y' :: right').drop upTo = y' :: right' := by
          rw [← head, List.take_append_drop]
        have middle : ∀ {merged : List α}, merged ~ left.drop before ++ (y :: ys) →
            left.take before ++ merged ++ (y' :: right').drop upTo ~ left ++ y' :: right' := by
          intro merged perm
          calc left.take before ++ merged ++ (y' :: right').drop upTo
            _ ~ left.take before ++ (left.drop before ++ (y :: ys)) ++ (y' :: right').drop upTo :=
                (perm.append_left _).append_right _
            _ = left ++ y' :: right' := by
                rw [← List.append_assoc, left_parts, List.append_assoc, right_parts]
        split
        · refine middle ?_
          exact ((run_perm _ _ _).cons y).trans List.perm_middle.symm
        · refine middle ?_
          have ends : (left.drop before).dropLast ++ [x] = left.drop before :=
            List.dropLast_append_getLast? x last
          refine (List.reverse_perm _).trans (((run_perm _ _ _).cons x).trans ?_)
          calc x :: ((y :: ys).reverse ++ (left.drop before).dropLast.reverse)
            _ ~ x :: ((y :: ys) ++ (left.drop before).dropLast) :=
                List.Perm.cons x ((List.reverse_perm _).append (List.reverse_perm _))
            _ ~ (y :: ys) ++ (left.drop before).dropLast ++ [x] :=
                (List.perm_append_singleton x _).symm
            _ = (y :: ys) ++ left.drop before := by rw [List.append_assoc, ends]
            _ ~ left.drop before ++ (y :: ys) := List.perm_append_comm

theorem collapse_perm (toOne : Bool) (patience : Nat) (runs : List (List α)) :
    (collapse less toOne patience runs).runs.flatten ~ runs.flatten := by
  fun_induction collapse less toOne patience runs with
  | case1 patience c b a older merged patience' merge crowd far ih =>
      have perm := mergeRuns_perm less patience a b
      rw [merge] at perm
      rw [if_pos far, merge]
      refine ih.trans ?_
      simp only [List.flatten_cons]
      refine List.Perm.append_left c ?_
      rw [← List.append_assoc]
      exact (perm.trans List.perm_append_comm).append_right _
  | case2 patience c b a older merged patience' merge crowd near ih =>
      have perm := mergeRuns_perm less patience b c
      rw [merge] at perm
      rw [if_neg near, merge]
      refine ih.trans ?_
      simp only [List.flatten_cons]
      rw [← List.append_assoc c b]
      exact (perm.trans List.perm_append_comm).append_right _
  | case3 patience c b merged patience' merge crowd ih =>
      have perm := mergeRuns_perm less patience b c
      rw [merge] at perm
      refine ih.trans ?_
      simpa using perm.trans List.perm_append_comm
  | case4 => exact List.Perm.refl _
  | case5 => exact List.Perm.refl _

theorem foldl_collapse_perm (all : List (List α)) (pending : Pending α) :
    (all.foldl (fun (p : Pending α) chunk => collapse less false p.patience (chunk :: p.runs))
      pending).runs.flatten ~ pending.runs.flatten ++ all.flatten := by
  induction all generalizing pending with
  | nil => simp
  | cons chunk all ih =>
      refine (ih _).trans (((collapse_perm less false _ _).append_right _).trans ?_)
      simp only [List.flatten_cons, ← List.append_assoc]
      exact List.perm_append_comm.append_right _

/-- The sort permutes, whatever the comparison. -/
theorem sort_perm (xs : List α) : sort less xs ~ xs := by
  unfold sort
  refine (collapse_perm less true _ _).trans ((foldl_collapse_perm less _ _).trans ?_)
  simpa using flatten_chunks_perm less (leastChunk xs.length) xs

end CoinSelection.Sort.Adaptive
