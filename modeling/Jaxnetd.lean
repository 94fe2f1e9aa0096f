import Jaxnetd.Blockchain.Value
import Jaxnetd.Blockchain.SwapRule
import Jaxnetd.Blockchain.Journal
import Jaxnetd.Chaindata.Undo
import Jaxnetd.Blockchain.RelativeLock
import Jaxnetd.Blockchain.ExpansionVote
import Jaxnetd.Blockchain.RestartRun
import Jaxnetd.Mempool.Replacement
import Jaxnetd.Wire.TxLoc
import Jaxnetd.Chaindata.CoinbaseProof
import Jaxnetd.Chaindata.LockData
import Jaxnetd.Blockchain.Inflation
import Jaxnetd.Blockchain.SigOpLimit
import Jaxnetd.MergeMining.CallHistory
import Jaxnetd.Blockchain.LocatorSync
import Jaxnetd.Blockchain.ViewRun
import Jaxnetd.Blockchain.Orphans
import Jaxnetd.Blockchain.ChainWeight
import Jaxnetd.Blockchain.MultiSigLockSpend
import Jaxnetd.Blockchain.EadRun
import Jaxnetd.Mmr.Lookup
import Jaxnetd.Mmr.Topology
import Jaxnetd.Mmr.Loading
import Jaxnetd.Blockchain.AuxRules
import Jaxnetd.TxModels.UtxoIndex
import Jaxnetd.TxScript.ScriptCodec
