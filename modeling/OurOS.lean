import OurOS.Lib.Links
import OurOS.Lib.AlignedBlocks
import OurOS.Lib.Run
import OurOS.Linux.List
import OurOS.Utils
import OurOS.Mm.Buddy
import OurOS.Mm.BuddyInv
import OurOS.Mm.BuddyRun
import OurOS.Mm.Slab
import OurOS.Mm.SlabInv
import OurOS.Mm.SlabStep
import OurOS.Mm.SlabRun
import OurOS.Vm.PageTable
import OurOS.Vm.Vm
import OurOS.Vm.VmInv
import OurOS.Vm.VmFault
import OurOS.Vm.VmAccess
import OurOS.Vm.VmRun
import OurOS.Vm.VmSwap
import OurOS.Fs.FatTable
import OurOS.Fs.Fscache
import OurOS.Fs.Inode
import OurOS.Fs.ReadWrite
import OurOS.Fs.PageCache
import OurOS.Fs.PageRun
import OurOS.Fs.FatSpec
import OurOS.Fs.FatEntries
import OurOS.Fs.BlockBytes
import OurOS.Fs.InodeSpec
import OurOS.Fs.ByteFile
import OurOS.Fs.ByteFileRun
import OurOS.Fs.CacheFlush
import OurOS.Fs.CacheRun
import OurOS.Pc.Pid
import OurOS.Fs.Geometry
import OurOS.Pc.Task
import OurOS.Pc.Schedule
import OurOS.Pc.TaskLists
import OurOS.Pc.TaskRun
import OurOS.Pc.Context
import OurOS.Fs.Directory
import OurOS.Fs.Volume
import OurOS.Fs.FatChain
import OurOS.Fs.Frame
import OurOS.Fs.FrameRun
import OurOS.Fs.ChainOps
import OurOS.Fs.ChainRun
import OurOS.Fs.BlockRun
import OurOS.Fs.Contents
import OurOS.Fs.Scan
import OurOS.Driver.Ps2
import OurOS.Pc.Clearup
import OurOS.Lib.Extents
import OurOS.Mm.Bootmm
import OurOS.Mm.BootmmInfo
import OurOS.Mm.FindPages
import OurOS.Mm.BootmmRun
import OurOS.Pc.Wakeup
import OurOS.Vm.VmFifo
import OurOS.Vm.VmFaultRun
import OurOS.Vm.VmFree
import OurOS.Fs.Sizes
import OurOS.Fs.SizeRun
import OurOS.Fs.Open
import OurOS.Fs.Tree
import OurOS.Fs.Evolve
import OurOS.Fs.EvolveDir
import OurOS.Fs.TreeRun
import OurOS.Pc.RoundRobin
import OurOS.Pc.Kill
import OurOS.Pc.Semaphore
import OurOS.Mm.AllocSize
import OurOS.Mm.CacheRun
import OurOS.Vm.Shm
import OurOS.Vm.ShmFault
import OurOS.Fs.Selection
import OurOS.Vm.Victim
import OurOS.Fs.Seek
import OurOS.Fs.TailRun
import OurOS.Fs.FreeSearch
import OurOS.Fs.MapBuild
import OurOS.Fs.NameHash
import OurOS.Fs.Hint
import OurOS.Fs.Transfer
import OurOS.Fs.Walk
import OurOS.Fs.TransferBounds
import OurOS.Fs.NameOrder
import OurOS.Fs.ShortName
import OurOS.Fs.Ext2
import OurOS.Fs.Ext2Pages
import OurOS.Fs.Ext2Scan
import OurOS.Fs.PathWalk
import OurOS.Fs.PathCreate
import OurOS.Linux.ListSort
import OurOS.Fs.Unmoved
import OurOS.Fs.Listing
import OurOS.Fs.DeleteDir
import OurOS.Fs.OwnBlocks
import OurOS.Fs.CloseFile
import OurOS.Fs.ListClean
import OurOS.Lib.Decimal
import OurOS.Time
import OurOS.PutInt
import OurOS.Driver.Vga
import OurOS.Driver.Modifiers
import OurOS.Usr.ReadLine
import OurOS.Usr.Screen
import OurOS.Fs.Printf
import OurOS.Fs.PrintfRun
import OurOS.Arch.Intr
import OurOS.Usr.Command
import OurOS.Usr.ParseCmd
import OurOS.Fs.Vfs
import OurOS.Fs.Ext2Stubs
import OurOS.Vm.PageSwap
import OurOS.Vm.PageTableMem
import OurOS.Vm.ShmRun
import OurOS.Usr.Cd
import OurOS.Lib.RedBlack
import OurOS.Lib.RedBlackErase
import OurOS.Lib.Cells
import OurOS.Linux.Rbtree
import OurOS.Linux.RbtreeRep
import OurOS.Linux.RbtreeInsert
import OurOS.Linux.RbtreeErase
import OurOS.Linux.RbtreeEraseNode
import OurOS.Lib.TreeWalk
import OurOS.Linux.RbtreeWalk
import OurOS.Linux.RbtreeRun
import OurOS.Fs.Mount
import OurOS.Fs.MountRun
import OurOS.Fs.Mountable
