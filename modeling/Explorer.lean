import Explorer.Lib.Counting
import Explorer.Lib.FiniteMap
import Explorer.Lib.Json
import Explorer.Lib.Keyset
import Explorer.Lib.Ordered
import Explorer.Lib.Results
import Explorer.Lib.Runs
import Explorer.Lib.Steps
import Explorer.Lib.Surrogate
import Explorer.Lib.Tables
import Explorer.Ref.Rust
import Explorer.Ref.RateLimit
import Explorer.Ref.Staking
import Explorer.Ref.StakeTables
import Explorer.Ref.Pipeline
import Explorer.Ref.ChainTables
import Explorer.Ref.Worker
import Explorer.Ref.Balances
import Explorer.Ref.Dimensions
import Explorer.Ref.Pages
import Explorer.Ref.Resolution
import Explorer.Ref.AddressLinks
import Explorer.Ref.LegacyDecode
import Explorer.Ref.LegacyTool
import Explorer.Ref.BlockWrites
import Explorer.Ref.EventTables
import Explorer.Ref.ExtendedEvents
import Explorer.Ref.Prices
import Explorer.Proofs.SlidingWindow
import Explorer.Proofs.StakeConsistent
import Explorer.Proofs.StakeReverse
import Explorer.Proofs.StakeBuild
import Explorer.Proofs.StakeResume
import Explorer.Proofs.PipelineSafe
import Explorer.Proofs.PipelineAgree
import Explorer.Proofs.WorkerSafe
import Explorer.Proofs.ZeroState
import Explorer.Proofs.WorkerStall
import Explorer.Proofs.ReliefMode
import Explorer.Proofs.DirtyBalances
import Explorer.Proofs.DimensionCache
import Explorer.Proofs.DimensionCalls
import Explorer.Proofs.Pagination
import Explorer.Proofs.ResolutionCalls
import Explorer.Proofs.AddressLinks
import Explorer.Proofs.BlockWrites
import Explorer.Proofs.TransactionWrites
import Explorer.Proofs.LegacyAgree
import Explorer.Proofs.LegacyConverge
import Explorer.Proofs.EventFrames
import Explorer.Proofs.NftOwnership
import Explorer.Proofs.SupplyReplay
import Explorer.Proofs.CarbonIntx
import Explorer.Proofs.BlockRepair
import Explorer.Proofs.TypedPayloads
import Explorer.Proofs.DailyPrices
import Explorer.Proofs.Outages
import Explorer.Proofs.AddressLists
import Explorer.Proofs.ParityDigests
import Explorer.Lib.Readers
import Explorer.Proofs.AccountWalk
import Explorer.Proofs.EventNumbering
import Explorer.Proofs.LegacyLayouts
import Explorer.Lib.Decimals
import Explorer.Lib.Formats
import Explorer.Lib.Queues
import Explorer.Proofs.ClientIp
import Explorer.Proofs.Disassembly
import Explorer.Proofs.EventTokens
import Explorer.Proofs.GasFees
import Explorer.Proofs.KeyBudgets
import Explorer.Proofs.Starvation
import Explorer.Lib.OffsetPages
import Explorer.Lib.FoldedMap
import Explorer.Lib.Firsts
import Explorer.Proofs.NewAddresses
import Explorer.Proofs.MethodHistory
import Explorer.Proofs.BlockList
import Explorer.Proofs.MetadataColumns
import Explorer.Proofs.Reprojection
import Explorer.Proofs.StakeDedup
import Explorer.Lib.Threads
import Explorer.Ref.Overview
import Explorer.Proofs.SingleFlight
import Explorer.Proofs.WindowMap
import Explorer.Ref.InFlight
import Explorer.Proofs.InFlight
import Explorer.Ref.Memberships
import Explorer.Proofs.Memberships
import Explorer.Lib.Months
import Explorer.Ref.StakeMonthlies
import Explorer.Proofs.StakeMonthlies
import Explorer.Ref.RejectedCandidates
import Explorer.Proofs.RejectedCandidates
import Explorer.Ref.Supervisor
import Explorer.Proofs.Supervisor
import Explorer.Proofs.MaintenanceTasks
import Explorer.Lib.Grouped
import Explorer.Proofs.NftBatches
import Explorer.Proofs.NftQueue
import Explorer.Proofs.SeriesTexts
import Explorer.Ref.AttachedEvents
import Explorer.Proofs.AttachedEvents
