import Xv6.Log.Pins
import Xv6.Log.Space
import Xv6.Log.Crash
import Xv6.Log.Buffers
import Xv6.Sched.Dispatch
import Xv6.Sched.Kill
import Xv6.Ipc.Stranded
import Xv6.Ipc.Killable
import Xv6.Proc.Delivery
import Xv6.Disk.Account
import Xv6.Fs.Offset
import Xv6.Sched.Wakeup
import Xv6.Sched.Scan
import Xv6.Fs.Reclaim
import Xv6.Fs.Made
import Xv6.Vm.PartialMap
import Xv6.Vm.Strings
import Xv6.Vm.Launch
import Xv6.Vm.Freelist
import Xv6.Io.Bounds
import Xv6.Io.Console
import Xv6.User.Grep
import Xv6.Proc.Pause
import Xv6.User.Lifetime
import Xv6.User.Promise
import Xv6.User.Unparse
import Xv6.Lib.Memmove
import Xv6.Lib.Printf
import Xv6.Bio.Links
