import CoinSelection.TxCoin
import CoinSelection.Config
import CoinSelection.Session
import CoinSelection.Failure
import CoinSelection.Proofs.MinPriority.Unpruned
import CoinSelection.Proofs.Selection
import CoinSelection.Proofs.Total
import CoinSelection.Proofs.Transparent
import CoinSelection.Proofs.OrderLeft
import CoinSelection.Proofs.Session.Run
import CoinSelection.Proofs.Session.Ledger
import CoinSelection.Proofs.MinPriority.Complete
import CoinSelection.Proofs.Budget
import CoinSelection.Proofs.GivenOrder
import CoinSelection.Proofs.Config.Merge
import CoinSelection.Proofs.Config.Parse
import CoinSelection.Proofs.Config.Inert
import CoinSelection.Proofs.Config.Selector
import CoinSelection.Proofs.Session.Frame
import CoinSelection.Sort.Tables
import CoinSelection.Proofs.FewSwaps
import CoinSelection.Proofs.LeastPrefix
import CoinSelection.Proofs.FewestInputs
import CoinSelection.Proofs.MinPriority.Shape
import CoinSelection.Proofs.MinPriority.Lowered
import CoinSelection.Proofs.Config.Unknown
import CoinSelection.InPlace.Sort
import CoinSelection.Proofs.FailedLookups
