import KernelModules.Lib.Runs
import KernelModules.Lib.FlatArray
import KernelModules.Lib.Uaccess
import KernelModules.Lib.CString
import KernelModules.Block.SimpleBlock
import KernelModules.Block.FlatDisk
import KernelModules.Vma.SimpleVma
import KernelModules.Vma.Coherence
import KernelModules.Ioctl.IoctlDemo
import KernelModules.Ioctl.Registers
import KernelModules.Lib.Window
import KernelModules.VirtualLog.Newest
import KernelModules.VirtualLog.SeqRead
import KernelModules.Vfs.Dcache
import KernelModules.Vfs.Names
import KernelModules.Lib.Threads
import KernelModules.Locks.DeadlockDemo
import KernelModules.Lib.Deferred
import KernelModules.Locks.MutexSemDemo
import KernelModules.Teardown.InterruptDemo
import KernelModules.Teardown.TaskletDemo
import KernelModules.Teardown.TimerDemo
import KernelModules.Teardown.WorkQueueDemo
import KernelModules.Netlink.NetlinkExample
import KernelModules.Netlink.Replies
import KernelModules.Lib.Numbering
import KernelModules.SharedMem.SharedMemoryDemo
import KernelModules.SharedMem.EchoClients
import KernelModules.Locks.SpinlockDemo
import KernelModules.Locks.RwlockDemo
import KernelModules.Lib.Increments
import KernelModules.Locks.ResourceIds
import KernelModules.Irq.ThreadedIrq
import KernelModules.Teardown.SimpleTimer
import KernelModules.Sysfs.SysfsExample
import KernelModules.Block.Transfer
import KernelModules.Block.Status
import KernelModules.Block.Segmentation
import KernelModules.Lib.Calls
import KernelModules.Locks.MutexDemo
import KernelModules.Procfs.ReadHandlers
import KernelModules.Atomic.AtomicDemo
import KernelModules.Atomic.RefCount
import KernelModules.Lib.Reads
import KernelModules.Vfs.FileData
import KernelModules.Vma.Backed
import KernelModules.SharedMem.SharedBuffer
import KernelModules.Locks.SyncDemo
import KernelModules.Lib.Scan
import KernelModules.Atomic.Commands
import KernelModules.VirtualLog.Indices
import KernelModules.Netlink.Packets
import KernelModules.Timers.JiffiesConversions
import KernelModules.Timers.RaisingSoftirqs
import KernelModules.Lib.Heap
import KernelModules.Alloc.MemAllocatorDemo
import KernelModules.Lib.Linked
import KernelModules.Lib.SearchTree
import KernelModules.DataStructures.DataStructuresDemo
import KernelModules.DataStructures.Calls
import KernelModules.DataStructures.Exit
import KernelModules.Lib.Assembly
import KernelModules.InlineAssembly.Blocks
import KernelModules.InlineAssembly.Variables
import KernelModules.InlineAssembly.Effects
import KernelModules.InlineAssembly.Examples
import KernelModules.Lib.Lifecycle
import KernelModules.Lifecycle.Modules
import KernelModules.Teardown.PeriodicTimers
import KernelModules.Teardown.InterruptProcessing
import KernelModules.Lib.Clients
import KernelModules.Ioctl.IoctlApp
import KernelModules.Ioctl.AppRuns
import KernelModules.Netlink.Races
import KernelModules.Netlink.NetlinkTest
import KernelModules.Netlink.Sessions
import KernelModules.SharedMem.SharedMemTest
import KernelModules.SharedMem.TestRuns
import KernelModules.VirtualLog.Accesses
import KernelModules.VirtualLog.Races
