/-
# CoinSelection.Proofs.MinPriority.Shape -- what a selection looks like

The places that a run answers with are those of some high coins followed by those of some low ones,
and whether the high coins pay by themselves tells how they were found (`run_shape`).

* If they do, they come from a scan, in descending order of amount, and the low coins from the
  padding (`Padded`).  Whatever the padding has added so far is what it adds to fewer low coins
  (`exists_padding_of_prefix`), so one may stop after any of them and has a valid selection.
  Where no change is too little, every coin that is tried pays, and each brings the sum closer to
  the threshold; so the padding is the longest beginning of the aged low coins that leaves the
  budget and the average as they should be (`padding_longest`).
* If they do not, they are a whole window, and there are low coins that make up for what it lacks
  (`ToppedUp`).
-/
import Mathlib
import CoinSelection.Proofs.MinPriority.Reach
import CoinSelection.Proofs.MinPriority.Sound
import CoinSelection.Proofs.OrderLeft

namespace CoinSelection.MinPriority

open Binary64 (Exact)
open scoped List

set_option autoImplicit false

variable {τ : Type} {budget : Nat} {threshold : Int} {g : Goal}
variable {coins chosen : List (Coin × τ)}

/-! ## Shapes -/

/-- Within the budget, with a total that meets the goal, and averaging the threshold. -/
structure Valid (budget : Nat) (threshold : Int) (g : Goal) (chosen : List (Coin × τ)) : Prop where
  few : chosen.length ≤ budget
  met : g.met (Totals.of (chosen.map (·.1))).amount
  average : threshold * chosen.length ≤ (chosen.map (·.1.valueAge)).sum

/-- The coins that have a value-age. -/
def aged (coins : List (Coin × τ)) : List (Coin × τ) := coins.filter fun c => c.1.valueAge ≠ 0

/-- High coins that pay by themselves, and what is added to them out of the low ones. -/
structure Padded (budget : Nat) (threshold : Int) (g : Goal)
    (low paying added : List (Coin × Nat)) : Prop where
  descending : paying.Pairwise fun a b => b.1.amount ≤ a.1.amount
  increasing : added.Pairwise fun a b => a.2 < b.2
  hasAge : ∀ c ∈ added, c.1.valueAge ≠ 0
  valid : ∀ front, front <+: added → Valid budget threshold g (paying ++ front)
  /-- Where no change is too little, no longer beginning of the aged low coins could be added. -/
  longest : Whole.units g.minChange = 0 → added <+: aged low ∧
    ∀ front, front <+: aged low → (paying ++ front).length ≤ budget →
      threshold * (paying ++ front).length ≤ ((paying ++ front).map (·.1.valueAge)).sum →
        front.length ≤ added.length

/-- A whole window of high coins from the cutoff on, and low ones that it needs. -/
structure ToppedUp (budget : Nat) (threshold : Int) (g : Goal) (cutoff : Nat)
    (window extra : List (Coin × Nat)) : Prop where
  whole : ∃ size, window.map (·.2) = List.range' cutoff size
  some : extra ≠ []
  valid : Valid budget threshold g (window ++ extra)

/-! ## Padding -/

/-- What a padding begins with is a padding with fewer coins. -/
theorem exists_padding_of_prefix {count : Nat} {totals : Totals} {front : List (Coin × τ)}
    (begins : front <+: padding budget threshold g count totals coins) :
    ∃ k, front = padding budget threshold g count totals (coins.take k) := by
  fun_induction padding budget threshold g count totals coins generalizing front with
  | case1 => exact ⟨0, List.prefix_nil.1 begins⟩
  | case2 => exact ⟨0, List.prefix_nil.1 begins⟩
  | case3 count totals c rest room ageless ih =>
      obtain ⟨k, rfl⟩ := ih begins
      refine ⟨k + 1, ?_⟩
      rw [List.take_succ_cons, padding, if_neg room, if_pos ageless]
  | case4 => exact ⟨0, List.prefix_nil.1 begins⟩
  | case5 count totals c rest room aged with' enough met =>
      rename_i ih
      rcases List.prefix_cons_iff.1 begins with rfl | ⟨later, rfl, tail⟩
      · exact ⟨0, rfl⟩
      · obtain ⟨k, rfl⟩ := ih tail
        refine ⟨k + 1, ?_⟩
        rw [List.take_succ_cons, padding, if_neg room, if_neg aged]
        dsimp only
        rw [if_neg enough, if_pos met]
  | case6 count totals c rest room aged with' enough short =>
      rename_i ih
      obtain ⟨k, rfl⟩ := ih begins
      refine ⟨k + 1, ?_⟩
      rw [List.take_succ_cons, padding, if_neg room, if_neg aged]
      dsimp only
      rw [if_neg enough, if_neg short]

theorem padding_sublist_aged (count : Nat) (totals : Totals) (coins : List (Coin × τ)) :
    padding budget threshold g count totals coins <+ aged coins := by
  have all : aged (padding budget threshold g count totals coins) =
      padding budget threshold g count totals coins := by
    apply List.filter_eq_self.2
    fun_induction padding budget threshold g count totals coins with
    | case1 => exact List.forall_mem_nil _
    | case2 => exact List.forall_mem_nil _
    | case3 count totals c rest room ageless ih => exact ih
    | case4 => exact List.forall_mem_nil _
    | case5 count totals c rest room aged with' enough met ih =>
        exact List.forall_mem_cons.2 ⟨decide_eq_true aged, ih⟩
    | case6 count totals c rest room aged with' enough short ih => exact ih
  rw [← all]
  exact (padding_sublist count totals coins).filter _

/-- Coins below the threshold do not add up to what that many need. -/
theorem sum_valueAge_le {front : List (Coin × τ)} (young : ∀ c ∈ front, c.1.valueAge < threshold) :
    (front.map (·.1.valueAge)).sum ≤ threshold * front.length := by
  have each : ∀ v ∈ front.map (·.1.valueAge), v ≤ threshold := by
    intro v listed
    obtain ⟨c, inside, rfl⟩ := List.mem_map.1 listed
    exact (young c inside).le
  have sum := List.sum_le_card_nsmul _ _ each
  rwa [nsmul_eq_mul, List.length_map, mul_comm] at sum

/-- Coins that pay, where no change is too little, pay with more coins too. -/
theorem paid_of_no_change {d : Due} (noChange : d.change = 0) {n more : Int} (paid : d.Paid n)
    (nonneg : 0 ≤ more) : d.Paid (n + more) := by
  simp only [Due.Paid] at paid ⊢
  omega

/-- Where no change is too little, the padding is the longest beginning of the aged low coins for
which there is room and the average holds. -/
theorem padding_longest (goal : g.Counted) (noChange : Whole.units g.minChange = 0) {count : Nat}
    {totals : Totals} {n : Int} (exact : Exact totals.amount n) (addable : Addable n coins)
    (start : g.due.Paid n) (young : ∀ c ∈ coins, c.1.valueAge < threshold) :
    padding budget threshold g count totals coins <+: aged coins ∧
      ∀ front, front <+: aged coins → count + front.length ≤ budget →
        threshold * (count + front.length : Nat) ≤
          totals.valueAge + (front.map (·.1.valueAge)).sum →
        front.length ≤ (padding budget threshold g count totals coins).length := by
  fun_induction padding budget threshold g count totals coins generalizing n with
  | case1 =>
      refine ⟨List.nil_prefix, fun front begins _ _ => ?_⟩
      exact begins.length_le
  | case2 =>
      refine ⟨List.nil_prefix, fun front _ fits _ => ?_⟩
      rw [List.length_nil]
      omega
  | case3 count totals c rest room ageless ih =>
      have skipped : aged (c :: rest) = aged rest := by simp [aged, ageless]
      rw [skipped]
      exact ih exact addable.skip start (List.forall_mem_cons.1 young).2
  | case4 count totals c rest room hasAge with' =>
      rename_i below
      refine ⟨List.nil_prefix, fun front begins fits average => ?_⟩
      have kept : aged (c :: rest) = c :: aged rest := by simp [aged, hasAge]
      rw [kept] at begins
      rcases List.prefix_cons_iff.1 begins with rfl | ⟨later, rfl, tail⟩
      · exact le_refl 0
      -- the coins after this one are below the threshold, so they do not make up for it
      · have laterYoung : ∀ d ∈ later, d.1.valueAge < threshold := by
          intro d inside
          have isLow : d ∈ rest := List.mem_of_mem_filter (tail.subset inside)
          exact (List.forall_mem_cons.1 young).2 d isLow
        have sum := sum_valueAge_le laterYoung
        have total : with'.valueAge = totals.valueAge + c.1.valueAge := rfl
        rw [Bool.not_eq_true', MinPriority.averages, decide_eq_false_iff_not, not_le,
          total] at below
        rw [List.length_cons, List.map_cons, List.sum_cons] at average
        push_cast at average below
        linarith
  | case5 count totals c rest room hasAge with' enough met =>
      rename_i ih
      have sum := addable.add exact
      obtain ⟨isBeginning, longest⟩ :=
        ih sum addable.take ((goal.met_iff sum).1 met) (List.forall_mem_cons.1 young).2
      have kept : aged (c :: rest) = c :: aged rest := by simp [aged, hasAge]
      rw [kept]
      refine ⟨List.cons_prefix_cons.2 ⟨rfl, isBeginning⟩, fun front begins fits average => ?_⟩
      rcases List.prefix_cons_iff.1 begins with rfl | ⟨later, rfl, tail⟩
      · exact Nat.zero_le _
      · have total : with'.valueAge = totals.valueAge + c.1.valueAge := rfl
        rw [List.length_cons] at fits average ⊢
        rw [List.map_cons, List.sum_cons, ← Int.add_assoc, ← total] at average
        rw [← Nat.add_assoc, Nat.add_right_comm] at fits average
        exact Nat.succ_le_succ (longest later tail fits average)
  | case6 count totals c rest room hasAge with' enough short =>
      have units := Coin.units_nonneg (addable.whole c List.mem_cons_self)
      have paid := paid_of_no_change noChange start units
      exact absurd ((goal.met_iff (addable.add exact)).2 paid) short

/-! ## Places of low and high coins -/

section Places

variable {line : List Coin}

/-- The first place whose coin reaches the threshold. -/
def cutoff (threshold : Int) (line : List Coin) : Nat :=
  line.findIdx fun c => threshold ≤ c.valueAge

theorem findIdx_zipIdx (threshold : Int) (line : List Coin) :
    (line.zipIdx.findIdx fun c => threshold ≤ c.1.valueAge) = cutoff threshold line := by
  conv_rhs => rw [cutoff, ← List.zipIdx_map_fst 0 line, List.findIdx_map]
  rfl

theorem low_zipIdx (threshold : Int) (line : List Coin) :
    low threshold line.zipIdx = line.zipIdx.take (cutoff threshold line) := by
  rw [low, findIdx_zipIdx]

theorem high_zipIdx (threshold : Int) (line : List Coin) :
    high threshold line.zipIdx = line.zipIdx.drop (cutoff threshold line) := by
  rw [high, findIdx_zipIdx]

theorem low_places (threshold : Int) (line : List Coin) :
    (low threshold line.zipIdx).map (·.2) = List.range (cutoff threshold line) := by
  have inside : cutoff threshold line ≤ line.length := List.findIdx_le_length
  rw [low_zipIdx, places_take inside]

theorem high_places (threshold : Int) (line : List Coin) :
    (high threshold line.zipIdx).map (·.2) =
      List.range' (cutoff threshold line) (line.length - cutoff threshold line) := by
  rw [high_zipIdx, List.map_drop, List.zipIdx_map_snd, List.drop_range', Nat.zero_add, Nat.mul_one]

theorem place_lt_cutoff {c : Coin × Nat} (inside : c ∈ low threshold line.zipIdx) :
    c.2 < cutoff threshold line := by
  have place : c.2 ∈ (low threshold line.zipIdx).map (·.2) := List.mem_map_of_mem inside
  rwa [low_places, List.mem_range] at place

theorem cutoff_le_place {c : Coin × Nat} (inside : c ∈ high threshold line.zipIdx) :
    cutoff threshold line ≤ c.2 := by
  have place : c.2 ∈ (high threshold line.zipIdx).map (·.2) := List.mem_map_of_mem inside
  rw [high_places] at place
  exact (List.mem_range'_1.1 place).1

end Places

/-! ## The two ways -/

/-- What is found in a window comes in descending order of amount. -/
theorem descending_of_fewest (counted : CountedCoins coins)
    (pays : g.fewest budget coins = some chosen) :
    chosen.Pairwise fun a b => b.1.amount ≤ a.1.amount := by
  obtain ⟨k, -, rfl⟩ := Option.map_eq_some_iff.1 pays
  have descending := List.pairwise_map.1 counted.descending
  refine (descending.sublist (List.take_sublist k _)).imp_of_mem ?_
  intro a b insideA insideB le
  have among : ∀ c ∈ (Order.largestFirst.arrange coins).take k, Exact c.1.amount c.1.units := by
    intro c inside
    apply counted.exact_amount
    exact (Order.largestFirst.arrange_perm coins).mem_iff.1 (List.mem_of_mem_take inside)
  exact ((among b insideB).le_iff (among a insideA)).2 le

theorem valid_of_paid (goal : g.Counted) (counted : CountedCoins chosen)
    (few : chosen.length ≤ budget) (paid : g.due.Paid (worth chosen))
    (average : threshold * chosen.length ≤ (chosen.map (·.1.valueAge)).sum) :
    Valid budget threshold g chosen :=
  ⟨few, (goal.met_iff counted.exact_total).2 paid, average⟩

section Line

variable {line : List Coin} {size : Nat}

theorem padded_of_fewest (goal : g.Counted) (counted : CountedCoins line.zipIdx)
    (sorted : Order.Ascending line.zipIdx) {found : List (Coin × Nat)}
    (pays : g.fewest budget ((high threshold line.zipIdx).take size) = some found) :
    Padded budget threshold g (low threshold line.zipIdx) found
      (padding budget threshold g found.length (.of (found.map (·.1)))
        (low threshold line.zipIdx)) := by
  have fromHigh := subperm_high_of_fewest pays
  have windowCounted := counted_window counted threshold size
  obtain ⟨foundCounted, addable⟩ := addable_low counted fromHigh
  have paid := goal.paid_of_fewest windowCounted pays
  have start := averages_of_subperm_high sorted fromHigh
  constructor
  case descending => exact descending_of_fewest windowCounted pays
  case increasing =>
    have places : (low threshold line.zipIdx).Pairwise fun a b => a.2 < b.2 := by
      rw [low_zipIdx]
      exact (Order.increasing_zipIdx line).sublist (List.take_sublist _ _)
    exact places.sublist (padding_sublist _ _ _)
  case hasAge =>
    intro c added
    simpa using (List.mem_filter.1 ((padding_sublist_aged _ _ _).subset added)).2
  case valid =>
    intro front begins
    obtain ⟨k, rfl⟩ := exists_padding_of_prefix begins
    have among : padding budget threshold g found.length (.of (found.map (·.1)))
        ((low threshold line.zipIdx).take k) <+ low threshold line.zipIdx :=
      (padding_sublist _ _ _).trans (List.take_sublist _ _)
    have all := (counted.subperm (subperm_of_high_low fromHigh among.subperm)).1
    apply valid_of_paid goal all
    · rw [List.length_append]
      exact length_padding_le (Goal.fewest_eq_some pays).1.few _ _
    · rw [worth_append]
      have some := addable.sublist (List.take_sublist k _)
      exact padding_pays goal foundCounted.exact_total some paid
    · rw [List.length_append, List.map_append, List.sum_append, ← Totals.of_tagged_valueAge found]
      exact padding_averages start _
  case longest =>
    intro noChange
    refine And.imp_right ?_ (padding_longest goal noChange foundCounted.exact_total addable paid
      fun c inside => lt_of_mem_low inside)
    intro longest front begins fits average
    refine longest front begins ?_ ?_
    · rwa [← List.length_append]
    · rwa [Totals.of_tagged_valueAge, ← List.sum_append, ← List.map_append, ← List.length_append]

theorem toppedUp_of_selects (goal : g.Counted) (counted : CountedCoins line.zipIdx)
    {extra : List (Coin × Nat)}
    (selects : Selects budget threshold g line.zipIdx
      ((high threshold line.zipIdx).take size ++ extra))
    (sorted : Order.Ascending line.zipIdx) (some : extra ≠ []) :
    ToppedUp budget threshold g (cutoff threshold line) ((high threshold line.zipIdx).take size)
      extra := by
  refine ⟨⟨min size (line.length - cutoff threshold line), ?_⟩, some, ?_⟩
  · rw [List.map_take, high_places]
    rcases Nat.le_total size (line.length - cutoff threshold line) with le | le
    · rw [List.take_range'_of_length_ge le, Nat.min_eq_left le]
    · rw [List.take_range'_of_length_le le, Nat.min_eq_right le]
  · exact valid_of_paid goal (counted.subperm selects.picked.among).1 selects.picked.few
      (selects.pays goal counted) (selects.averages sorted)

/-- High coins and then low ones; whether the high coins pay tells which of the two ways it was. -/
theorem shape_of_select (goal : g.Counted) (counted : CountedCoins line.zipIdx)
    (sorted : Order.Ascending line.zipIdx) {chosen : List (Coin × Nat)}
    (selected : select budget threshold g line.zipIdx = some chosen) :
    ∃ first second, chosen = first ++ second ∧ first ≠ [] ∧
      (∀ c ∈ first, c ∈ high threshold line.zipIdx) ∧
      (∀ c ∈ second, c ∈ low threshold line.zipIdx) ∧
      (g.met (Totals.of (first.map (·.1))).amount →
        Padded budget threshold g (low threshold line.zipIdx) first second) ∧
      (¬ g.met (Totals.of (first.map (·.1))).amount →
        ToppedUp budget threshold g (cutoff threshold line) first second) := by
  have selects := select_selects selected
  cases selects with
  | @scanned _ _ _ _ size found pays =>
      obtain ⟨picked, met⟩ := Goal.fewest_eq_some pays
      refine ⟨_, _, rfl, picked.nonempty, ?_, ?_,
        fun _ => padded_of_fewest goal counted sorted pays, fun unmet => absurd met unmet⟩
      · exact (subperm_high_of_fewest pays).subset
      · exact (padding_sublist _ _ _).subset
  | @toppedUp _ _ _ _ size window extra n isWindow nonempty short pos within search average =>
      have windowCounted : CountedCoins window := isWindow ▸ counted_window counted threshold size
      have unpaid := goal.not_paid_of_fewest windowCounted nonempty (by omega) short
      have topped := toppedUp_of_selects goal counted (isWindow ▸ select_selects selected) sorted
        search.picked.nonempty
      refine ⟨_, _, rfl, nonempty, ?_, search.picked.among.subset,
        fun met => absurd ((goal.met_iff windowCounted.exact_total).1 met) unpaid, fun _ => ?_⟩
      · rw [isWindow]
        exact (List.take_sublist _ _).subset
      · rwa [← isWindow] at topped

end Line

/-- The places that a run answers with are those of high coins and then those of low ones.  Where
the high coins pay by themselves they were scanned and padded, and otherwise they are a window that
was topped up. -/
theorem run_shape {s sorted : Source} {coins : List Coin} (shown : s.Shows coins) (args : Args)
    (threshold : Int) {target : Float} (goal : Goal.Counted ⟨target, args.minChangeAmount⟩)
    (counted : CountedCoins coins.zipIdx) {places : List Nat}
    (found : (Policy.minPriority threshold).run args target s = (.ok places, sorted)) :
    ∃ (placed : List (Coin × Nat)) (ordered : List Coin) (first second : List (Coin × Nat)),
      (Policy.minPriority threshold).Leaves coins placed ∧ ordered = placed.map (·.1) ∧
      sorted.Shows ordered ∧ cutoff threshold ordered < ordered.length ∧
      places = first.map (·.2) ++ second.map (·.2) ∧
      (∀ c ∈ first ++ second, ordered[c.2]? = some c.1) ∧ first ≠ [] ∧
      (∀ c ∈ first, cutoff threshold ordered ≤ c.2) ∧
      (∀ c ∈ second, c.2 < cutoff threshold ordered) ∧
      (Goal.met ⟨target, args.minChangeAmount⟩ (Totals.of (first.map (·.1))).amount →
        Padded args.budget threshold ⟨target, args.minChangeAmount⟩
          (ordered.zipIdx.take (cutoff threshold ordered)) first second) ∧
      (¬ Goal.met ⟨target, args.minChangeAmount⟩ (Totals.of (first.map (·.1))).amount →
        ToppedUp args.budget threshold ⟨target, args.minChangeAmount⟩ (cutoff threshold ordered)
          first second) := by
  rw [Policy.run, shown.apply_eq] at found
  obtain ⟨answer, rfl⟩ := Prod.mk.inj found
  obtain ⟨chosen, chooses, rfl⟩ := Policy.answer_eq_ok answer
  have lineCounted := counted.reorder ((Policy.minPriority threshold).inLine_perm coins)
  obtain ⟨first, second, rfl, nonempty, fromHigh, fromLow, padded, toppedUp⟩ :=
    shape_of_select goal lineCounted (Policy.ascending_ordered threshold coins) chooses
  have picked := Policy.choose_picked chooses
  obtain ⟨c, listed⟩ := List.exists_mem_of_ne_nil first nonempty
  have isHigh := cutoff_le_place (fromHigh c listed)
  have inside := picked.inside c (List.mem_append_left second listed)
  refine ⟨(Policy.minPriority threshold).ordered coins.zipIdx, _, first, second,
    (Policy.minPriority threshold).leaves_ordered counted.comparable, rfl, shown.sorted _,
    isHigh.trans_lt inside, List.map_append, picked.there, nonempty,
    fun c listed => cutoff_le_place (fromHigh c listed),
    fun c listed => place_lt_cutoff (fromLow c listed), ?_, toppedUp⟩
  rwa [low_zipIdx] at padded

/-- The aged coin pays by itself; the young one is added to it, but not the one of no age. -/
theorem run_shape_padded :
    ∃ (args : Args) (ageless young aged : Coin) (sorted : Source),
      (Policy.minPriority 3).run args 5 (.collection #[ageless, young, aged]) =
        (.ok [2, 1], sorted) ∧
      sorted.Shows [ageless, young, aged] ∧ cutoff 3 [ageless, young, aged] = 2 ∧
      Padded args.budget 3 ⟨5, args.minChangeAmount⟩ [(ageless, 0), (young, 1)] [(aged, 2)]
        [(young, 1)] := by
  let args : Args := ⟨3, 0, by decide +kernel, by decide +kernel⟩
  let ageless : Coin := ⟨"ageless", 2, 0⟩
  let young : Coin := ⟨"young", 1, 1⟩
  let aged : Coin := ⟨"aged", 5, 10⟩
  let coins : List Coin := [ageless, young, aged]
  have goal : Goal.Counted ⟨5, args.minChangeAmount⟩ :=
    ⟨⟨by decide +kernel, by decide +kernel⟩, ⟨by decide +kernel, by decide +kernel⟩,
      by decide +kernel⟩
  have counted : CountedCoins coins.zipIdx := ⟨by decide +kernel, by decide +kernel⟩
  have ascending : Order.Ascending coins.zipIdx := by
    simp [Order.Ascending, coins, ageless, young, aged]
  have answer : ((Policy.minPriority 3).run args 5 (.collection coins.toArray)).1.toOption =
      some [2, 1] := by
    decide +kernel
  obtain ⟨placed, _, first, second, leaves, rfl, shown, -, places, there, nonempty, high, low,
    padded, -⟩ := run_shape (Source.shows_collection coins.toArray) args 3 goal counted
      (eq_ok_of_toOption answer)
  -- the coins are in order as they are given
  have stays : placed = coins.zipIdx :=
    Policy.leaves_unique counted.comparable leaves
      (Order.arrange_of_ascending ascending ▸ Policy.leaves_ordered _ counted.comparable)
  have two : cutoff 3 coins = 2 := by decide
  rw [stays, List.zipIdx_map_fst] at shown there high low padded
  rw [two] at high low padded
  obtain ⟨rfl, rfl⟩ : first = [(aged, 2)] ∧ second = [(young, 1)] := by
    rcases first with _ | ⟨⟨c, k⟩, _ | ⟨d, rest⟩⟩
    · exact absurd rfl nonempty
    · obtain ⟨rfl, one⟩ := List.cons.inj places
      obtain ⟨⟨d, j⟩, rfl, rfl⟩ := List.map_eq_singleton_iff.1 one.symm
      obtain ⟨⟨⟩, ⟨⟩⟩ : some aged = some c ∧ some young = some d := by
        simpa [coins] using there
      exact ⟨rfl, rfl⟩
    · obtain ⟨-, later⟩ := List.cons.inj places
      have isOne : 1 = d.2 := (List.cons.inj later).1
      have beyond := high d (List.mem_cons_of_mem _ List.mem_cons_self)
      omega
  exact ⟨args, ageless, young, aged, _, eq_ok_of_toOption answer, shown, two,
    padded (by decide +kernel)⟩

end CoinSelection.MinPriority
