import NetworkFileSystem.Common
import NetworkFileSystem.Utils
import NetworkFileSystem.Library.Machine
import NetworkFileSystem.Library.Interleaving
import NetworkFileSystem.Library.Layout
import NetworkFileSystem.Trie
import NetworkFileSystem.TrieTraversal
import NetworkFileSystem.Library.DoublyLinked
import NetworkFileSystem.LruCache
import NetworkFileSystem.RecencyList
import NetworkFileSystem.LruCacheRefinement
import NetworkFileSystem.LruCacheSafety
import NetworkFileSystem.LruCacheSoundness
import NetworkFileSystem.NamingServer
import NetworkFileSystem.CacheTransparency
import NetworkFileSystem.Directory
import NetworkFileSystem.RegistryAgreement
import NetworkFileSystem.WireCounts
import NetworkFileSystem.System
import NetworkFileSystem.SystemInvariants
import NetworkFileSystem.ExclusiveCreation
import NetworkFileSystem.DeletedStaysDeleted
import NetworkFileSystem.PositiveAnswer
import NetworkFileSystem.RegistrySlots
import NetworkFileSystem.Listing
import NetworkFileSystem.SsFileOperations
import NetworkFileSystem.StorageServer
import NetworkFileSystem.Library.RwLock
import NetworkFileSystem.Library.Linearizability
import NetworkFileSystem.TrieHeap
import NetworkFileSystem.NamingLocks
import NetworkFileSystem.TrieLinearization
import NetworkFileSystem.LockOwnership
import NetworkFileSystem.NamingDeadlock
import NetworkFileSystem.PathOrder
import NetworkFileSystem.ListSnapshot
import NetworkFileSystem.FileLocks
import NetworkFileSystem.FileSteps
import NetworkFileSystem.FileThreads
import NetworkFileSystem.FileOwnership
import NetworkFileSystem.FileDeadlock
import NetworkFileSystem.FileHistory
import NetworkFileSystem.FileSerialization
import NetworkFileSystem.NegativeAnswer
import NetworkFileSystem.CopyFidelity
import NetworkFileSystem.Agreement
import NetworkFileSystem.FaithfulStore
import NetworkFileSystem.SafeCreation
import NetworkFileSystem.CollectedPaths
import NetworkFileSystem.RoundRobin
import NetworkFileSystem.Library.RecencyOrder
import NetworkFileSystem.Library.SinglyLinked
import NetworkFileSystem.CacheSequence
import NetworkFileSystem.CacheCompleteness
import NetworkFileSystem.FileLockChains
import NetworkFileSystem.PathAliases
import NetworkFileSystem.OneDisk
import NetworkFileSystem.LostReplies
import NetworkFileSystem.Progress
import NetworkFileSystem.NamingHandler
import NetworkFileSystem.StorageHandlers
import NetworkFileSystem.ClientProgram
import NetworkFileSystem.ServerPrograms
import NetworkFileSystem.Announcement
