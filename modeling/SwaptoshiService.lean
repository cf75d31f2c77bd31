import SwaptoshiService.Jobs.BlocksTable
import SwaptoshiService.Jobs.Rollback
import SwaptoshiService.Jobs.TransactionOrder
import SwaptoshiService.Jobs.IndexDeleteRace
import SwaptoshiService.Jobs.DeletionQueue
import SwaptoshiService.Jobs.EventCache
import SwaptoshiService.Jobs.TickUndo
import SwaptoshiService.Lib.Reach
import SwaptoshiService.Jobs.SwapUndo
import SwaptoshiService.Indexer.Totals
import SwaptoshiService.Lib.Total
import SwaptoshiService.Jobs.IndexedChain
import SwaptoshiService.Jobs.LockedTotals
import SwaptoshiService.Jobs.TransactionRecords
import SwaptoshiService.Jobs.StakeTotals
import SwaptoshiService.Jobs.CreationUndo
import SwaptoshiService.Jobs.RegistrationUndo
import SwaptoshiService.Lib.Effect
import SwaptoshiService.Jobs.PositionLiquidity
import SwaptoshiService.Lib.Replay
import SwaptoshiService.Jobs.BlockHistory
import SwaptoshiService.Jobs.PositionOwners
import SwaptoshiService.Jobs.PoolLedgers
import SwaptoshiService.Lib.Posting
import SwaptoshiService.Jobs.TokenSupply
import SwaptoshiService.Jobs.GeneratorCounters
import SwaptoshiService.Jobs.PriceUndo
import SwaptoshiService.Indexer.KlyusdPrices
import SwaptoshiService.Jobs.PriceHistory
import SwaptoshiService.Jobs.CandleMeaning
import SwaptoshiService.Coordinator.Scheduler
import SwaptoshiService.Connector.ClientPool
import SwaptoshiService.Connector.PingListener
import SwaptoshiService.FeeEstimator.DynamicFees
import SwaptoshiService.DataService.LastBlock
import SwaptoshiService.DataService.Validators
import SwaptoshiService.Jobs.BalanceRefresh
import SwaptoshiService.Jobs.FailurePolling
import SwaptoshiService.AppRegistry.MetadataIndex
import SwaptoshiService.AppRegistry.SyncRepository
import SwaptoshiService.AppRegistry.SyncOutcome
import SwaptoshiService.AppRegistry.SyncFollows
import SwaptoshiService.Jobs.PoolRows
import SwaptoshiService.Indexer.MissingBlocks
import SwaptoshiService.Indexer.PoolAddress
import SwaptoshiService.Indexer.TradingPath
import SwaptoshiService.Indexer.ValidatorRewards
import SwaptoshiService.Lib.Walk
import SwaptoshiService.DataService.PriceQuoter
import SwaptoshiService.DataService.ShortestRoute
import SwaptoshiService.DataService.QuotedPrice
import SwaptoshiService.Framework.Filters
import SwaptoshiService.Framework.QueryBuilder
import SwaptoshiService.Framework.Upsert
import SwaptoshiService.TransactionStatistics.DailyStatistics
import SwaptoshiService.Indexer.PriceFormatter
import SwaptoshiService.Jobs.PoolCreation
import SwaptoshiService.Lib.Layout
import SwaptoshiService.Lib.Like
import SwaptoshiService.FeeEstimator.DynamicFeesLIP
import SwaptoshiService.DataService.TransactionsEstimateFees
import SwaptoshiService.FeeEstimator.EstimateOrder
import SwaptoshiService.FeeEstimator.FeeBatch
import SwaptoshiService.FeeEstimator.BestEstimate
import SwaptoshiService.Lib.Fibers
import SwaptoshiService.TransactionStatistics.Conservation
import SwaptoshiService.Framework.NumericText
import SwaptoshiService.DataService.RangeParam
import SwaptoshiService.TransactionStatistics.FetchTransactions
import SwaptoshiService.Export.Chronology
import SwaptoshiService.Lib.Keyed
import SwaptoshiService.Export.TransferHistory
import SwaptoshiService.Export.MessageLookup
import SwaptoshiService.Export.BlockRewards
import SwaptoshiService.Export.EntryKinds
import SwaptoshiService.Export.Movements
import SwaptoshiService.Framework.LiteralSearch
import SwaptoshiService.Framework.KeyValueStore
import SwaptoshiService.Export.RequestAll
import SwaptoshiService.DataService.Parser
import SwaptoshiService.Framework.Difference
import SwaptoshiService.Lib.Sorting
import SwaptoshiService.DataService.SortComparator
import SwaptoshiService.DataService.RangeFilter
import SwaptoshiService.Lib.Record
import SwaptoshiService.Gateway.ParamValidator
import SwaptoshiService.Indexer.LiquidityAmounts
import SwaptoshiService.DataService.BlockQuery
import SwaptoshiService.DataService.NormalizeBlock
import SwaptoshiService.DataService.EventQuery
import SwaptoshiService.AppRegistry.SupportedTokens
import SwaptoshiService.AppRegistry.AppPaging
import SwaptoshiService.AppRegistry.TokenMetadata
import SwaptoshiService.Connector.EngineEvents
import SwaptoshiService.DataService.MergeTransactions
import SwaptoshiService.Jobs.PriceCache
import SwaptoshiService.Jobs.PriceBatches
import SwaptoshiService.Indexer.TickOfPrice
import SwaptoshiService.DataService.StatisticSummary
import SwaptoshiService.DataService.DexLists
import SwaptoshiService.DataService.DexStatements
import SwaptoshiService.Export.ExportJobs
import SwaptoshiService.Connector.BlockCache
import SwaptoshiService.TransactionStatistics.Reports
import SwaptoshiService.Gateway.CustomMapper
import SwaptoshiService.Gateway.RpcHandler
import SwaptoshiService.Market.TargetPrices
import SwaptoshiService.Connector.GenesisAssets
import SwaptoshiService.Export.OpeningBalances
import SwaptoshiService.DataService.PriceSeries
import SwaptoshiService.Lib.JsonText
import SwaptoshiService.Gateway.RpcCache
