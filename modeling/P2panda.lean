import P2panda.Lib.Order
import P2panda.Lib.Serde
import P2panda.Lib.Framing
import P2panda.Lib.Base32
import P2panda.Lib.CborBytes
import P2panda.Lib.Collections
import P2panda.Lib.Run
import P2panda.Lib.Text
import P2panda.Core.Identity
import P2panda.Core.Header
import P2panda.Core.HeaderCodec
import P2panda.Core.Operation
import P2panda.Store.Memory
import P2panda.Store.MemoryInvariant
import P2panda.Store.Sqlite
import P2panda.Stream.Ingest
import P2panda.Stream.PartialOrder
import P2panda.Stream.PartialOrderClosure
import P2panda.Stream.IngestPrefix
import P2panda.Lib.Duplex
import P2panda.Lib.Dependency
import P2panda.Sync.LogSync
import P2panda.Sync.Session
import P2panda.Sync.Convergence
import P2panda.Net.TopicStreams
import P2panda.Net.TopicStreamsDelivery
import P2panda.Net.SyncSessions
import P2panda.Net.SyncManager
import P2panda.Sync.Heights
import P2panda.Net.TopicDiscovery
import P2panda.Store.Agreement
import P2panda.Sync.CborFraming
import P2panda.Discovery.Mdns
import P2panda.Stream.IngestStream
import P2panda.Stream.OperationOrder
import P2panda.Discovery.LocalDiscovery
import P2panda.Lib.Reservoir
import P2panda.Net.AddressBook
import P2panda.Net.Engine
import P2panda.Net.EnginePanics
