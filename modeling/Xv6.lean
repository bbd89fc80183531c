import Xv6.Lib.Run
import Xv6.Files.Accounts
import Xv6.Files.Directories
import Xv6.Files.Durable
import Xv6.Files.Fresh
import Xv6.Files.Naming
import Xv6.Files.Owners
import Xv6.Files.Pages
import Xv6.Files.PipeCalls
import Xv6.Files.Representation
import Xv6.Files.Resolve
import Xv6.Files.Visible
import Xv6.Files.Tags
import Xv6.Ipc.Receive
import Xv6.Ipc.Wakeup
import Xv6.Kernel.Destroy
import Xv6.Kernel.Join
import Xv6.Kernel.Killed
import Xv6.Kernel.Membership
import Xv6.Kernel.Memmove
import Xv6.Kernel.PidRange
import Xv6.Kernel.RoundRobin
import Xv6.Kernel.Schedulable
import Xv6.Kernel.Tree
import Xv6.Log.Recovery
import Xv6.Log.Reserve
import Xv6.Maekawa.Decision
import Xv6.Maekawa.Deadlock
import Xv6.Message.Exhausted
import Xv6.Bio.Commit
import Xv6.Mkfs.Agree
import Xv6.Mkfs.Mount
import Xv6.Multicast.Once
import Xv6.Pipe.Record
import Xv6.Request.Confined
import Xv6.Request.UserMemory
import Xv6.Signal.Dispatch
import Xv6.Syscall.Trace
import Xv6.Vm.Copyout
import Xv6.Vm.Ownership
import Xv6.Vm.Growproc
import Xv6.Jacobi.Blocks
import Xv6.Fs.Directory
import Xv6.Fs.Path
import Xv6.User.Grep
import Xv6.User.Malloc
