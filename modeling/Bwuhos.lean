import Bwuhos.Kdef
import Bwuhos.MemLayout
import Bwuhos.Pmm
import Bwuhos.Data.Transition
import Bwuhos.Pmm.Refill
import Bwuhos.Pmm.Ownership
import Bwuhos.Data.Pool
import Bwuhos.Pmm.Runs
import Bwuhos.Data.RadixTree
import Bwuhos.Paging
import Bwuhos.Paging.Walk
import Bwuhos.Paging.Tree
import Bwuhos.Paging.Calls
import Bwuhos.Paging.Runs
import Bwuhos.Paging.Permission
import Bwuhos.Vmm
import Bwuhos.Vmm.Writable
import Bwuhos.Data.LinkedList
import Bwuhos.Kheap
import Bwuhos.Kheap.Blocks
import Bwuhos.Kheap.Runs
import Bwuhos.Buffer
import Bwuhos.LowMemory
import Bwuhos.Blkdev
import Bwuhos.Blkdev.Ranges
import Bwuhos.BlkCache
import Bwuhos.BlkCache.Reads
import Bwuhos.Data.Loop
import Bwuhos.Fat
import Bwuhos.Fat.Dirent
import Bwuhos.Fat.Listing
import Bwuhos.Fat.Walk
import Bwuhos.Fat.Frame
import Bwuhos.Fat.Search
import Bwuhos.Fat.File
import Bwuhos.Fat.Resolve
import Bwuhos.Fat.OpenFiles
import Bwuhos.Fat.Runs
import Bwuhos.Vfs
import Bwuhos.Vfs.Failures
import Bwuhos.Fat.Geometry
import Bwuhos.BlkCache.Bounds
import Bwuhos.Pmm.Stale
import Bwuhos.Vfs.Mounts
import Bwuhos.Vfs.Handles
import Bwuhos.AtaPio
import Bwuhos.AtaPio.Reads
import Bwuhos.Vfs.Allocations
import Bwuhos.Paging.Exhaustion
import Bwuhos.Mbr
import Bwuhos.Mbr.Layout
import Bwuhos.Vfs.AutoMount
import Bwuhos.Vfs.Overlaps
import Bwuhos.Data.Integers
import Bwuhos.Paging.Physical
import Bwuhos.Vmm.Init
import Bwuhos.Paging.Spare
import Bwuhos.Vmm.Built
import Bwuhos.Vmm.Supply
import Bwuhos.Vmm.Mapped
import Bwuhos.Fat.Seek
import Bwuhos.Vfs.ReadBounds
import Bwuhos.Fat.LongNames
import Bwuhos.Fat.Names
import Bwuhos.Fat.Paths
import Bwuhos.Vfs.Open
import Bwuhos.Data.Locks
import Bwuhos.Locking
import Bwuhos.Locking.Print
import Bwuhos.Locking.Memory
import Bwuhos.Locking.Storage
import Bwuhos.Locking.Discipline
import Bwuhos.Locking.Returns
import Bwuhos.Kheap.Bump
import Bwuhos.Kheap.Oversized
import Bwuhos.Vmm.NoExec
import Bwuhos.AtaPio.Log
import Bwuhos.AtaPio.Select
import Bwuhos.AtaPio.Drive
import Bwuhos.AtaPio.Requests
import Bwuhos.AtaPio.Identify
import Bwuhos.AtaPio.Calls
import Bwuhos.AtaPio.Commands
import Bwuhos.Vfs.Files
import Bwuhos.Vfs.Modes
import Bwuhos.Vfs.Sequential
import Bwuhos.Fat.Parent
import Bwuhos.Fat.Slashes
import Bwuhos.Fat.Next
import Bwuhos.Fat.Stamps
import Bwuhos.Fat.ShortNames
import Bwuhos.Data.Tree
import Bwuhos.Vfs.Forest
import Bwuhos.Mbr.Mutexes
import Bwuhos.Blkdev.Lookup
import Bwuhos.Pmm.Layout
import Bwuhos.Pmm.Available
import Bwuhos.Data.Ram
import Bwuhos.Data.StackMachine
import Bwuhos.Isr
import Bwuhos.Isr.Except
import Bwuhos.Isr.Syscall
import Bwuhos.Kutil.Memory
import Bwuhos.Kutil.Spin
import Bwuhos.AtaPio.Bounds
import Bwuhos.Fat.Clusters
import Bwuhos.BlkCache.Histories
import Bwuhos.Rtc
import Bwuhos.Locking.Format
import Bwuhos.Data.Digits
import Bwuhos.Kutil.Digits
import Bwuhos.Smp.Aatomic
import Bwuhos.Data.LockFree
import Bwuhos.Smp.Print
import Bwuhos.Smp.Pmm
import Bwuhos.Smp.Memory
import Bwuhos.Smp.Storage
import Bwuhos.Smp.Calls
import Bwuhos.Paging.Stores
import Bwuhos.Vmm.Tlb
import Bwuhos.Vmm.Frames
import Bwuhos.Kheap.Physical
import Bwuhos.Kheap.Backed
import Bwuhos.Kheap.Headers
import Bwuhos.Kheap.Clients
import Bwuhos.Smp.Kheap
import Bwuhos.Smp.Lines
