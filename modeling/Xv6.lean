import Xv6.Machine
import Xv6.MinHeap
import Xv6.Proc.Defs
import Xv6.Proc.Heap
import Xv6.Proc.Sched
import Xv6.Proc.Kernel
import Xv6.Proc.ReadyQueue
import Xv6.Proc.Accounting
import Xv6.Proc.Dispatch
import Xv6.Proc.Bookkeeping
import Xv6.Fs.Log
import Xv6.Proc.Handoff
import Xv6.Proc.LostWakeup
import Xv6.Chain
import Xv6.Mem.Kalloc
import Xv6.Dev.Console
import Xv6.File.Pipe
import Xv6.Dev.Virtio
import Xv6.Pool
import Xv6.File.FileTable
import Xv6.Flat
import Xv6.Lib.String
import Xv6.Fs.Path
import Xv6.Mem.Vm
import Xv6.Fs.Inode
import Xv6.Fs.Dir
import Xv6.Lib.Holding
import Xv6.Mem.PageTable
import Xv6.Mem.Uvm
import Xv6.Mem.Copy
import Xv6.Proc.Memory
import Xv6.Proc.Fork
