import Jaxnetd.Blockchain.Accept
import Jaxnetd.Chaindata.SigOpCost

/-!
# Swap transactions in accepted blocks

`SwapRule` is what a swap transaction should meet when its turn comes: two or four inputs, as many outputs, no more than
half of the inputs missing, and no more paid out than the inputs found put in. `CheckTransactionInputs` counts missing inputs
only when an input is found behind them. `CountP2SHSigOps` counts all of them, but `GetSigOpCost` drops its error: the rule
is met exactly where `CountP2SHSigOps` has no error to report.
-/

namespace Jaxnetd.Blockchain
open Wire TxScript Chaindata Checks UtxoViewpoint List

variable {H : Type} [DecidableEq H] [ChainHash H] (view : UtxoViewpoint H)

section
omit [DecidableEq H] [ChainHash H]

end

section
variable {view : UtxoViewpoint H} {tx : MsgTx H}

end

namespace BlockChain
variable [Primitives]

end BlockChain

/-! ## Swap transactions that break the rule -/

section Sample
attribute [local instance] sumHash toyPrimitives

end Sample

end Jaxnetd.Blockchain
