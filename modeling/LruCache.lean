import LruCache.Lib.NodeList
import LruCache.Lib.Run
import LruCache.Basic
import LruCache.CacheStorage
import LruCache.Lib.Recency
import LruCache.Contents
import LruCache.Represents
import LruCache.Operations
import LruCache.Loops
import LruCache.Commits
import LruCache.RepInv
import LruCache.ReadYourWrites
import LruCache.Lru
import LruCache.SnapshotStorage
import LruCache.CacheState
import LruCache.Overlay
import LruCache.Linked
import LruCache.Transparency
import LruCache.ReplayHandles
import LruCache.Lib.Bytes
import LruCache.SnapshotExport
import LruCache.BufferSerializer
import LruCache.StateMachine
import LruCache.Connection
import LruCache.Removal
import LruCache.Eviction
import LruCache.MemoryBudget
import LruCache.CacheConfig
import LruCache.PurgeTime
import LruCache.Purge
import LruCache.Rejections
import LruCache.EvictionArithmetic
import LruCache.ExactlyOnce
import LruCache.MalformedStreams
import LruCache.Lib.Interleaving
import LruCache.ThreadPool
import LruCache.ThreadPoolOwner
import LruCache.ThreadPoolStop
import LruCache.NetworkManager
import LruCache.Lib.Crc
import LruCache.Crc32
import LruCache.Buffer
import LruCache.Lib.OrderedMap
import LruCache.LogStore
import LruCache.LogStoreEntries
import LruCache.Lib.IndexedLog
import LruCache.LogStoreRuns
import LruCache.Lib.Text
import LruCache.IniParser
import LruCache.IniRoundTrip
import LruCache.PurgeSchedule
import LruCache.StateManager
import LruCache.Lib.Voting
import LruCache.RaftServer
import LruCache.RaftBallot
import LruCache.RaftTurns
import LruCache.RaftHandlers
import LruCache.RaftCluster
