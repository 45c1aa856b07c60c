import Xnu.Lib.Bytes
import Xnu.Lib.LinkedIndex
import Xnu.Bpf.Insn
import Xnu.Bpf.Filter
import Xnu.Bpf.Safety
import Xnu.Bpf.MbufPath
import Xnu.Serialize.Format
import Xnu.Serialize.Unserialize
import Xnu.Serialize.UnserializeSafety
import Xnu.Serialize.Serialize
import Xnu.Serialize.RoundTrip
import Xnu.Ipc.Entry
import Xnu.Ipc.FreeList
import Xnu.Ipc.Grow
import Xnu.Ipc.Space
import Xnu.Ipc.Run
import Xnu.Lib.PairingHeap
import Xnu.PriorityQueue.Pqueue
import Xnu.PriorityQueue.Linked
import Xnu.PriorityQueue.Meld
import Xnu.PriorityQueue.Remove
import Xnu.PriorityQueue.Ops
import Xnu.Lib.Comparator
import Xnu.PriorityQueue.Run
import Xnu.Lib.OnesComplement
import Xnu.Net.Cksum
import Xnu.Net.CksumCorrect
import Xnu.Net.CksumChain
import Xnu.Lib.Reassembly
import Xnu.Net.IpReass
import Xnu.Net.IpReassCorrect
import Xnu.Net.IpReassQueues
import Xnu.Lib.Serial
import Xnu.Net.TcpReass
import Xnu.Net.TcpReassCorrect
import Xnu.Net.TcpReassStream
import Xnu.Sched.RunQueue
import Xnu.Sched.RunQueueCorrect
import Xnu.Fd.Filedesc
import Xnu.Fd.FdallocCorrect
import Xnu.Fd.FdavailCorrect
import Xnu.Kauth.Acl
import Xnu.Kauth.AclCorrect
import Xnu.Resource.Rlimit
import Xnu.Resource.RlimitRun
import Xnu.CodeSign.Blob
import Xnu.CodeSign.BlobCorrect
import Xnu.CodeSign.HashesCorrect
import Xnu.Bpf.Alu
import Xnu.Ipc.Right
import Xnu.Ipc.RightCorrect
import Xnu.Ipc.RightFailure
import Xnu.Kcdata.ArrayCorrect
import Xnu.Lib.Ring
import Xnu.MachO.Loader
import Xnu.MachO.LoaderCorrect
import Xnu.Pipe.Pipe
import Xnu.Pipe.PipeCorrect
import Xnu.Serialize.Indexed
import Xnu.Socket.Sockbuf
import Xnu.Vm.MapStore
import Xnu.Vm.MapStoreCorrect
import Xnu.Ipc.GrowCopy
import Xnu.Ipc.GrowCopyCorrect
import Xnu.Lib.Align
import Xnu.Vm.FindSpace
import Xnu.Vm.FindSpaceCorrect
import Xnu.Lib.CInt
import Xnu.MachO.LoadSegment
import Xnu.MachO.Unprotect
import Xnu.PriorityQueue.Stable
import Xnu.Resource.RlimitStack
import Xnu.Serialize.XmlLex
import Xnu.Serialize.XmlStrings
import Xnu.Lib.ByteBits
import Xnu.Tty.Clist
import Xnu.Tty.ClistCorrect
import Xnu.Tty.ClistRun
import Xnu.Tty.ClistScan
import Xnu.Net.IpReassLimits
import Xnu.Lib.Span
import Xnu.Net.TcpSack
import Xnu.Net.TcpSackCorrect
import Xnu.Kern.Bits
import Xnu.Kern.BitsCorrect
import Xnu.Sched.ClutchCpu
import Xnu.Sched.ClutchCpuCorrect
import Xnu.Sched.ClutchRoot
import Xnu.Sched.ClutchRootCorrect
import Xnu.Sched.ClutchRootSelect
import Xnu.Sched.ClutchThread
import Xnu.Sched.ClutchThreadCorrect
import Xnu.Sched.ClutchThreadRun
import Xnu.Sched.ClutchThreadReturns
import Xnu.Sched.BitmapWords
import Xnu.Sched.ClutchThreadSpec
import Xnu.Sched.ClutchProcessor
import Xnu.Sched.ClutchProcessorCorrect
import Xnu.Sched.ClutchProcessorSpec
