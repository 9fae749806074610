import TorSim.Lib.Comp
import TorSim.Lib.System
import TorSim.Lib.Processes
import TorSim.Lib.PairTree
import TorSim.Lib.Ladder
import TorSim.Lib.Handover
import TorSim.Lib.Belt
import TorSim.Lib.LruCache
import TorSim.Lib.Text
import TorSim.Lib.Bytes
import TorSim.Lib.Float
import TorSim.Lib.Json
import TorSim.Lib.JsonText
import TorSim.Lib.JsonRoundTrip
import TorSim.Types.Transaction
import TorSim.Types.Memo
import TorSim.Types.Timeline
import TorSim.Types.TransactionCaches
import TorSim.Types.Block
import TorSim.Types.BlockCaches
import TorSim.Types.BlockCacheLaws
import TorSim.Vm.Store
import TorSim.Vm.CtrBase
import TorSim.Vm.CtrLightClient
import TorSim.Vm.LightClientLaws
import TorSim.Vm.Executor
import TorSim.Vm.LightClientHistory
import TorSim.Vm.LightClientTables
import TorSim.Vm.SyncedHeaders
import TorSim.Vm.VerifiedStates
import TorSim.Mempool.SyncMemPool
import TorSim.Blockchain.Chain
import TorSim.Blockchain.ChainLaws
import TorSim.Blockchain.ChainRuns
import TorSim.Blockchain.Building
import TorSim.Blockchain.Mining
import TorSim.Blockchain.Positions
import TorSim.Blockchain.Addresses
import TorSim.Blockchain.Memos
import TorSim.Blcsr.EfficientMerkleTree
import TorSim.Blcsr.MerkleBinding
import TorSim.Blcsr.UpdatePath
import TorSim.Service.Handlers
import TorSim.Blockchain.Commit
import TorSim.Blockchain.IndexedQueries
import TorSim.Relayer.Connector
import TorSim.Relayer.ConnectorLaws
import TorSim.Relayer.Retries
import TorSim.Relayer.TaskLaws
import TorSim.Relayer.RelayerUnix
import TorSim.Relayer.FilterLaws
import TorSim.Relayer.Statuses
import TorSim.Relayer.ListenLaws
import TorSim.Relayer.TwoLayers
import TorSim.Relayer.AsyncRelayer
import TorSim.Relayer.AsyncRelayerLaws
import TorSim.Relayer.Multiplexing
import TorSim.Blockchain.LocalChain
import TorSim.Relayer.AsyncLocalConnector
import TorSim.Relayer.AsyncLocalRelayer
import TorSim.Relayer.AsyncLocalLaws
import TorSim.Relayer.AsyncLocalHeaders
import TorSim.Network.Net
import TorSim.Network.Spot
import TorSim.Network.NetLaws
import TorSim.Network.Headers
import TorSim.Network.Waiting
import TorSim.Network.Timelines
import TorSim.Network.Parcels
import TorSim.Network.Belts
import TorSim.Network.Stages
import TorSim.Network.Conservation
import TorSim.Network.Layers
import TorSim.Network.Shortcuts
import TorSim.Network.Gateways
import TorSim.Network.Lanes
import TorSim.Network.Arrivals
import TorSim.Network.Deployments
import TorSim.Network.Provenance
import TorSim.Network.Mirrors
import TorSim.Network.Verified
import TorSim.Utils.SendTx
import TorSim.Utils.Check
import TorSim.Blockchain.Agreement
import TorSim.Blockchain.Outcomes
