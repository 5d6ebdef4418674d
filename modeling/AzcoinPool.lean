import AzcoinPool.Coin.MerkleBranch
import AzcoinPool.Coin.CoinbaseParts
import AzcoinPool.Coin.ShareClassification
import AzcoinPool.Sv1.MinerHeader
import AzcoinPool.Coin.ShareReports
import AzcoinPool.Sv1.Connection
import AzcoinPool.Sv1.VersionRolling
import AzcoinPool.Sv1.BlockTime
import AzcoinPool.Pool.JobAgreement
import AzcoinPool.Pool.BlockSubmission
import AzcoinPool.Pool.StaleGuard
import AzcoinPool.Pool.TipChanges
import AzcoinPool.Pool.Framing
import AzcoinPool.Pool.Attribution
import AzcoinPool.Coin.RawBlock
import AzcoinPool.Pool.SolvedBlock
import AzcoinPool.Pool.NewestJob
import AzcoinPool.Pool.WorkOrder
import AzcoinPool.Pool.CurrentWork
import AzcoinPool.Pool.SearchSpaces
import AzcoinPool.Pool.SessionOutput
import AzcoinPool.Core.RegistryList
import AzcoinPool.Core.ShareHistory
import AzcoinPool.Sv1.SubmitGrammar
import AzcoinPool.Sv1.ConfigureAgreement
import AzcoinPool.Coin.TransactionIds
import AzcoinPool.Coin.CompactTarget
import AzcoinPool.Coin.CheckedBuild
import AzcoinPool.Pool.DispatchFrame
import AzcoinPool.Pool.SubmissionPipeline
import AzcoinPool.Pool.OnSubmit
import AzcoinPool.Coin.CoinbaseScript
import AzcoinPool.Coin.PlaceholderCut
import AzcoinPool.Coin.TargetDivision
import AzcoinPool.Sv1.PrevHashOrder
import AzcoinPool.Sv2.JobBridge
import AzcoinPool.Sv2.Aggregation
import AzcoinPool.Sv2.PoolFlow
import AzcoinPool.Sv2.ShareFlowCheck
import AzcoinPool.Pool.Credit
import AzcoinPool.Pool.Progress
import AzcoinPool.Pool.FoundBlocks
import AzcoinPool.Pool.Linearization
import AzcoinPool.Pool.MinerWork
import AzcoinPool.Pool.ApiServer
import AzcoinPool.Pool.Startup
