import Udk.AuthVariableLib.CertDbClean
import Udk.AuthVariableLib.CounterReplay
import Udk.AuthVariableLib.PlatformMode
import Udk.AuthVariableLib.ServiceFrame
import Udk.AuthVariableLib.SignatureFormat
import Udk.BasePeCoffLib.RelocationTwice
import Udk.BasePrintLib.PrintRun
import Udk.Dispatcher.BeforeAfter
import Udk.Dispatcher.DepexAccess
import Udk.DxeMem.FindFreePages
import Udk.DxeMem.Pool
import Udk.Event.DeliveryRun
import Udk.Event.TimerDeadline
import Udk.Fat.EntryAccess
import Udk.Fat.FileRun
import Udk.FaultTolerantWriteDxe.WriteQueue
import Udk.Gcd.AllocationSearch
import Udk.Hand.MultipleRun
import Udk.Hand.OwnershipRun
import Udk.HiiDatabase.RoundTrip
import Udk.Ip4.ReassemblyRun
import Udk.Ip6.ReassemblyRun
import Udk.NetLib.Checksum
import Udk.NetLib.NetBufferQueue
import Udk.NetLib.NetBufferRun
import Udk.OrderedCollection.Traversal
import Udk.PartitionDxe.GptChildren
import Udk.PiDxeS3BootScriptLib.BootScriptRun
import Udk.PiSmmCore.PageRun
import Udk.PiSmmCore.PoolRun
import Udk.PropertiesTable.MergeMap
import Udk.SectionExtraction.SectionRun
import Udk.SmmLockBoxLib.LockBoxRun
import Udk.TcpDxe.CongestionWindow
import Udk.TcpDxe.TcpTimer
import Udk.Variable.Accounting
import Udk.Variable.BlockWrites
import Udk.Variable.CacheCoherence
import Udk.Variable.CrashAtomicity
import Udk.Variable.VolatileSpace
