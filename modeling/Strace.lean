import Strace.Seccomp.TraceOption
import Strace.Qualify.ParseTs
import Strace.Qualify.Invocations
import Strace.Qualify.SetHistory
import Strace.Qualify.PokeToken
import Strace.Tracer.RestartOps
import Strace.Tracer.SeccompStops
import Strace.Tracer.Tampering
import Strace.Tracer.InjectSignal
import Strace.Tracer.Delivery
import Strace.Tracer.Delays
import Strace.Tracer.HideLog
import Strace.Tracer.Cleanup
import Strace.Tracer.OsRelease
import Strace.Output.Interrupted
import Strace.Output.Resumption
import Strace.Output.PrintStr
import Strace.Ucopy.Upoken
import Strace.Summary.Exactness
import Strace.Decode.MsgControl
import Strace.Decode.NetlinkSafety
import Strace.Decode.SelectListing
import Strace.Decode.RecordsSafety
import Strace.Decode.Bitset
import Strace.Decode.PrintArray
import Strace.Decode.Poll
import Strace.Decode.Dyxlat
import Strace.Decode.IoctlLookup
import Strace.Xlat.Lookup
import Strace.Decode.Sigmask
import Strace.Dump.Dumpio
import Strace.Trie.Visits
import Strace.MmapCache.Search
import Strace.Pidns.Bounds
import Strace.Pidns.Namespaces
import Strace.Pidns.Cache
import Strace.Poke.Lists
import Strace.Tracer.UnwindCache
import Strace.Tracer.MakeEnv
import Strace.Dump.Dumpstr
