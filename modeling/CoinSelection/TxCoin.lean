/-
# CoinSelection.TxCoin -- a coin read off a transaction

A transaction output together with the number of confirmations of its transaction.  The amount is
looked up in the transaction at every call, so a transaction that changes shows through; the
output number and the confirmations are checked once, when the coin is made.
-/
import CoinSelection.Coin
import CoinSelection.Fault

namespace CoinSelection

set_option autoImplicit false

/-- The part of a transaction that a coin reads: its name and the amounts of its outputs. -/
structure Tx where
  txid : String
  outputs : Array Float

structure TxCoin where
  tx : Tx
  output : Float
  confirmations : Float
  output_whole : (Whole.nat? output).isSome
  confirmations_whole : (Whole.nat? confirmations).isSome

namespace TxCoin

/-- The amount of an output of a transaction, if it is there. -/
def outputAmount (tx : Tx) (output : Float) : Except Fault Float :=
  match Index.place? (.real output) tx.outputs.size with
  | some n => .ok tx.outputs[n]
  | none => .error (.invalidArgs (.noOutput tx.txid output))

/-- Makes a coin of an output that is there, with a whole amount that is not negative and a whole
number of confirmations that is not negative. -/
def of? (tx : Tx) (output confirmations : Float) : Except Fault TxCoin := do
  let amount ← outputAmount tx output
  if h : (Whole.nat? output).isSome then
    if (Whole.nat? amount).isSome then
      if h' : (Whole.nat? confirmations).isSome then
        return ⟨tx, output, confirmations, h, h'⟩
      else throw (.invalidArgs (.confirmations confirmations))
    else throw (.invalidArgs (.outputAmount tx.txid output amount))
  else throw (.invalidArgs (.noOutput tx.txid output))

def confirmationCount (c : TxCoin) : Nat :=
  (Whole.nat? c.confirmations).get c.confirmations_whole

def amount (c : TxCoin) : Except Fault Float := outputAmount c.tx c.output

/-- The confirmations times the amount, exactly.  An amount that has become fractional since the
coin was made has no value-age. -/
def valueAge (c : TxCoin) : Except Fault Int := do
  let amount ← c.amount
  match Whole.int? amount with
  | some n => return c.confirmationCount * n
  | none => throw (.notWhole amount)

/-- The name of the output. -/
def outpoint (c : TxCoin) : String := c.tx.txid ++ ":" ++ Layout.amount.number c.output

/-- The transaction with the amount of one output changed; an output that is not there stays so. -/
def setAmount (c : TxCoin) (output : Nat) (amount : Float) : TxCoin :=
  { c with tx := { c.tx with outputs := c.tx.outputs.setIfInBounds output amount } }

/-- The transaction with its first outputs only. -/
def truncate (c : TxCoin) (size : Nat) : TxCoin :=
  { c with tx := { c.tx with outputs := c.tx.outputs.take size } }

/-- The coin as it stands, under the name of its output. -/
def toCoin (c : TxCoin) : Except Fault Coin := do
  return ⟨c.outpoint, ← c.amount, ← c.valueAge⟩

end TxCoin

end CoinSelection
