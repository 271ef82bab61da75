import FCache.Replies
import FCache.MissingLists
import FCache.KvIsolation
import FCache.KvFailures
import FCache.KvEmptyGroup
import FCache.SequentialQueries
import FCache.ReplyDelivery
import FCache.Deque
import FCache.Client
import FCache.UnsortedList
import FCache.ListDeque
import FCache.Slice
import FCache.AlgorithmSpec
import FCache.ListRanges
import FCache.ListRemoval
import FCache.ListAddition
import FCache.ListOverwrite
import FCache.ListIntersections
import FCache.Footprint
import FCache.ListCommutation
import FCache.CacheMapAllocation
import FCache.CachedValueTransfers
import FCache.KvClearSet
import FCache.ListSizes
import FCache.ListPaging
import FCache.CheckedInt
import FCache.ListBounds
import FCache.AtomicService
import FCache.Network
import FCache.NetworkLog
import FCache.Linearizability
import FCache.ListRefinement
import FCache.ServerRefinement
import FCache.KvApi
import FCache.KvApiRefinement
import FCache.KvCells
import FCache.AlgorithmKeys
import FCache.ElementKeys
import FCache.SortedLists
import FCache.OrderedLists
import FCache.ListApi
import FCache.ListApiRefinement
import FCache.ClientPlans
import FCache.ApiPlans
import FCache.ApiService
import FCache.Liveness
import FCache.NetworkLiveness
