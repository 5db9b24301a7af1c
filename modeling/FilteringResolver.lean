import FilteringResolver.Lib.Loop
import FilteringResolver.Lib.PathSet
import FilteringResolver.Lib.Separated
import FilteringResolver.Dns
import FilteringResolver.DnsParser
import FilteringResolver.DnsBuilder
import FilteringResolver.Filter
import FilteringResolver.Resolver
import FilteringResolver.DnsServer
import FilteringResolver.Verify.Trie
import FilteringResolver.Verify.Labels
import FilteringResolver.Verify.Blocklist
import FilteringResolver.Verify.Octets
import FilteringResolver.Verify.WireName
import FilteringResolver.Verify.PointerLoop
import FilteringResolver.Verify.Uncompressed
import FilteringResolver.Verify.Encode
import FilteringResolver.Verify.Message
import FilteringResolver.Verify.ErrorResponse
import FilteringResolver.Verify.QueryName
import FilteringResolver.Verify.Forward
import FilteringResolver.Verify.Query
import FilteringResolver.Verify.Filtering
import FilteringResolver.Verify.Server
import FilteringResolver.Verify.Upstream
import FilteringResolver.Verify.ValidOctets
import FilteringResolver.Verify.Counters
import FilteringResolver.Verify.Echo
import FilteringResolver.Verify.NormalName
import FilteringResolver.Verify.Verdicts
import FilteringResolver.Verify.WellFormed
import FilteringResolver.Verify.FilterFile
import FilteringResolver.Verify.LineEndings
import FilteringResolver.Verify.RawData
import FilteringResolver.Verify.NameLimit
import FilteringResolver.Verify.Splitting
import FilteringResolver.Verify.Stats
import FilteringResolver.Verify.LetterCase
import FilteringResolver.Heap.Memory
import FilteringResolver.Heap.Messages
import FilteringResolver.Verify.HeapMessages
import FilteringResolver.Heap.Filter
import FilteringResolver.Verify.HeapFilter
import FilteringResolver.Verify.FilterApi
import FilteringResolver.Heap.DnsServer
import FilteringResolver.Verify.HeapServer
import FilteringResolver.Heap.Main
import FilteringResolver.Verify.CommandLine
import FilteringResolver.Verify.HeapMain
import FilteringResolver.Verify.Loader
import FilteringResolver.Lib.Machine
import FilteringResolver.Verify.Service
import FilteringResolver.Verify.Wrappers
import FilteringResolver.Verify.EndToEnd
import FilteringResolver.Verify.Bounds
import FilteringResolver.Lib.Inet
import FilteringResolver.Verify.Address
import FilteringResolver.Verify.RoundTrip
import FilteringResolver.Lib.Requests
import FilteringResolver.Verify.Pressure
import FilteringResolver.Verify.Refusals
import FilteringResolver.Lib.UpperSets
import FilteringResolver.Verify.Pieces
