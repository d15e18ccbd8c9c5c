import SmcPipeline.Runs
import SmcPipeline.OrderedDict
import SmcPipeline.Frames
import SmcPipeline.RamLayer
import SmcPipeline.WriteBehind
import SmcPipeline.UnifiedStore
import SmcPipeline.WriteOrder
import SmcPipeline.Shutdown
import SmcPipeline.DiskHistory
import SmcPipeline.ReadThrough
import SmcPipeline.Candles
import SmcPipeline.Swings
import SmcPipeline.Tasks
import SmcPipeline.StructureEngine
import SmcPipeline.StructureState
import SmcPipeline.Extremes
import SmcPipeline.OteZones
import SmcPipeline.FxcmIngestor
import SmcPipeline.SignedPackets
import SmcPipeline.LiveBars
import SmcPipeline.EventHistory
import SmcPipeline.Snapshots
import SmcPipeline.SlidingWindow
import SmcPipeline.EventMemory
import SmcPipeline.OrderBlocks
import SmcPipeline.BlockBreaks
import SmcPipeline.PacketStream
import SmcPipeline.ListenLoop
import SmcPipeline.Upserts
import SmcPipeline.PacketGrouping
import SmcPipeline.MemorySpec
import SmcPipeline.BiasChanges
import SmcPipeline.InputAdapter
import SmcPipeline.BlockCoordinates
import SmcPipeline.Rounding
import SmcPipeline.Breakers
import SmcPipeline.FirstHit
import SmcPipeline.BreakerSpec
import SmcPipeline.BlockTimes
import SmcPipeline.Ranges
import SmcPipeline.LiquidityPools
import SmcPipeline.Sweeps
import SmcPipeline.AmdPhase
import SmcPipeline.FairValueGaps
import SmcPipeline.ZonesState
import SmcPipeline.BreakerRoles
import SmcPipeline.WarmupRequester
import SmcPipeline.PrefetchStops
import SmcPipeline.RateLimit
import SmcPipeline.ResetLaw
import SmcPipeline.ViewerConnect
import SmcPipeline.ChartAdapter
import SmcPipeline.ChartTimes
import SmcPipeline.Calendar
import SmcPipeline.ViewerStateBuilder
import SmcPipeline.Serializers
import SmcPipeline.ViewerClient
import SmcPipeline.EventTimes
import SmcPipeline.ShownStructure
import SmcPipeline.ViewerBroadcaster
import SmcPipeline.PriceTicks
import SmcPipeline.SmcProducer
import SmcPipeline.LivePrice
import SmcPipeline.BlockDirections
import SmcPipeline.JsonText
import SmcPipeline.Magnets
import SmcPipeline.SmcEngine
import SmcPipeline.FiniteHint
import SmcPipeline.SmcPublisher
import SmcPipeline.CleanHints
import SmcPipeline.PublishedNumbers
import SmcPipeline.ViewerNumbers
import SmcPipeline.Pipeline
import SmcPipeline.StrictMessages
import SmcPipeline.EventAutomaton
import SmcPipeline.BreakSides
import SmcPipeline.OteOrder
import SmcPipeline.SweepSpec
import SmcPipeline.SweepCausality
import SmcPipeline.MeanRuns
import SmcPipeline.MagnetRuns
import SmcPipeline.ClusterTolerance
import SmcPipeline.RamInvariant
import SmcPipeline.QuotaEvictions
import SmcPipeline.HotQuota
import SmcPipeline.AlertRetention
import SmcPipeline.MergeLaw
import SmcPipeline.Ingestion
import SmcPipeline.FailedWrites
import SmcPipeline.LiveFinalisation
import SmcPipeline.FeedLag
import SmcPipeline.ZoneIds
import SmcPipeline.InTurn
import SmcPipeline.PriceRescaling
import SmcPipeline.FxcmValidate
import SmcPipeline.LegLabels
import SmcPipeline.SnapshotUnits
import SmcPipeline.Champions
import SmcPipeline.PoolDedup
import SmcPipeline.SortedSearch
import SmcPipeline.ChartMirrors
import SmcPipeline.FloatRounding
import SmcPipeline.MilliFloats
import SmcPipeline.IsoFormat
import SmcPipeline.EpochNormalisers
import SmcPipeline.EpochTexts
import SmcPipeline.EpochAgreement
import SmcPipeline.ProducerReadiness
import SmcPipeline.ProducerLoop
import SmcPipeline.ProducerAssets
import SmcPipeline.ProducerMeta
import SmcPipeline.ProducerRounds
import SmcPipeline.Reconnects
import SmcPipeline.PageRequests
import SmcPipeline.LivePage
import SmcPipeline.LivePageRuns
import SmcPipeline.Intervals
import SmcPipeline.PriceBounds
import SmcPipeline.StructureUnits
import SmcPipeline.GreedyPicks
import SmcPipeline.ChartSelection
import SmcPipeline.PubSub
import SmcPipeline.Debounce
import SmcPipeline.FxcmGateway
import SmcPipeline.GatewayRuns
import SmcPipeline.ReceivedPrices
import SmcPipeline.HttpMessages
import SmcPipeline.JsonReader
import SmcPipeline.ViewerDicts
import SmcPipeline.ViewerHttp
import SmcPipeline.ViewerService
