/-
# CoinSelection.MinPriority -- selections with a least average value-age

The coins come in ascending order of value-age.  Those from the threshold on are *high*, those
below it are *low*.  Windows of high coins are tried in growing order, each beginning with the
first high coin.

* A window that meets the goal by itself gives the fewest of its coins that do, and low coins are
  added to them as long as the average stays at the threshold or above (`padding`).
* A window that falls short is taken whole, and low coins make up for what is missing (`topUp`, by
  a search among the low coins).  If `n` low coins are to bring the average to the threshold, they
  need an average of `loweredThreshold` among themselves.

A number of low coins whose largest amounts cannot reach what is missing is passed over without a
search.  Low coins are fewer than the coins they are taken from, so the search ends.
-/
import CoinSelection.Scan

namespace CoinSelection.MinPriority

set_option autoImplicit false

variable {τ : Type}

/-- Whether coins with these totals have an average value-age of at least the threshold. -/
def averages (threshold : Int) (count : Nat) (valueAge : Int) : Bool :=
  decide (threshold * count ≤ valueAge)

/-- The low coins that can be added, in the order given, to `count` coins with these totals.  Coins
without value-age are left out.  The first coin that brings the average below the threshold ends the
search; a coin with which the goal is no longer met is left out, and the next one is tried. -/
def padding (budget : Nat) (threshold : Int) (g : Goal) (count : Nat) (totals : Totals) :
    List (Coin × τ) → List (Coin × τ)
  | [] => []
  | c :: rest =>
      if budget ≤ count then []
      else if c.1.valueAge = 0 then padding budget threshold g count totals rest
      else
        let with' := totals.add c.1
        if !averages threshold (count + 1) with'.valueAge then []
        else if g.met with'.amount then c :: padding budget threshold g (count + 1) with' rest
        else padding budget threshold g count (with'.remove c.1) rest

/-- The average that `n` low coins need so that together with `high` coins of value-age `valueAge`
they average the threshold, rounded toward zero. -/
def loweredThreshold (threshold : Int) (high n : Nat) (valueAge : Int) : Int :=
  (threshold * (high + n : Nat) - valueAge).tdiv n

/-- The sums of the first amounts of a list: of none, of one, of two, … -/
def partialSums : Float → List Float → List Float
  | total, [] => [total]
  | total, amount :: rest => total :: partialSums (total + amount) rest

/-- The largest totals that none, one, two, … of the coins can have. -/
def reachable (coins : List (Coin × τ)) : Array Float :=
  (partialSums 0 (Order.largestFirst.amounts (coins.map (·.1)))).toArray

/-- Whether `n` coins can have a total that is not below what is missing. -/
def mayReach (reachable : Array Float) (n : Nat) (missing : Float) : Bool :=
  !(reachable[n]?.any fun most => decide (most < missing))

/-- A whole window and low coins that make up for what it lacks.  `search` finds a given number of
low coins, or fewer, with a given average; `most` is what any number of them can reach.  The
numbers are tried in growing order.  A search that finds fewer coins, or whose average was
rounded, may still miss the threshold. -/
def topUp (search : Nat → Int → Goal → Option (List (Coin × τ))) (most : Array Float) (low : Nat)
    (budget : Nat) (threshold : Int) (g : Goal) (window : List (Coin × τ)) :
    Option (List (Coin × τ)) :=
  let totals := Totals.of (window.map (·.1))
  let missing := g.after totals.amount
  (List.range' 1 (min low (budget - window.length))).findSome? fun n =>
    if mayReach most n missing.target then
      (search n (loweredThreshold threshold window.length n totals.valueAge) missing).bind
        fun chosen =>
          let combined := (chosen.map (·.1)).foldl Totals.add totals
          if averages threshold (window.length + chosen.length) combined.valueAge then
            some (window ++ chosen)
          else none
    else none

/-- At most `budget` coins that meet the goal and average at least `threshold`, out of coins in
ascending order of value-age. -/
def select (budget : Nat) (threshold : Int) (g : Goal) (coins : List (Coin × τ)) :
    Option (List (Coin × τ)) :=
  let cutoff := coins.findIdx fun c => threshold ≤ c.1.valueAge
  if _ : cutoff < coins.length then
    let low := coins.take cutoff
    let high := coins.drop cutoff
    let most := reachable low
    (List.range' 1 high.length).findSome? fun size =>
      let window := high.take size
      match g.fewest budget window with
      | some chosen =>
          some (chosen ++ padding budget threshold g chosen.length (.of (chosen.map (·.1))) low)
      | none =>
          topUp (fun n lowered missing => select n lowered missing low) most low.length
            budget threshold g window
  else none
termination_by coins.length
decreasing_by
  have : coins.findIdx (fun c => threshold ≤ c.1.valueAge) < coins.length := ‹_›
  simp only [List.length_take]
  omega

end CoinSelection.MinPriority
