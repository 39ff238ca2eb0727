import Xv6K230.Kernel.Fault
import Xv6K230.Kernel.ForkCopy
import Xv6K230.Kernel.Inherit
import Xv6K230.Block.Capacity
import Xv6K230.Block.Supply
import Xv6K230.Pipe.Fifo
import Xv6K230.Pipe.Lifetime
import Xv6K230.Process.Returns
import Xv6K230.Fs.Sharing
import Xv6K230.Console.Discipline
import Xv6K230.Process.OneCpu
import Xv6K230.Mkfs.Build
import Xv6K230.Names.Failures
import Xv6K230.Names.Reading
import Xv6K230.Fs.Writing
import Xv6K230.Exec.Segments
import Xv6K230.Exec.Arguments
import Xv6K230.Exec.Atomic
import Xv6K230.Shell.Completeness
import Xv6K230.Console.Printf
import Xv6K230.Machine.Memmove
import Xv6K230.Block.Ramdisk
