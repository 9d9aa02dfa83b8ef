import MoonlightKernel.Heap.GiveBack
import MoonlightKernel.Heap.Failure
import MoonlightKernel.Heap.Release
import MoonlightKernel.Heap.Fit
import MoonlightKernel.FrameLimits
import MoonlightKernel.UserPages
import MoonlightKernel.Process.Pid
import MoonlightKernel.Process.RoundRobin
import MoonlightKernel.Process.Wait
import MoonlightKernel.Process.Munmap
import MoonlightKernel.Process.Placement
import MoonlightKernel.Process.Fork
import MoonlightKernel.Process.Pending
import MoonlightKernel.Process.Account
import MoonlightKernel.Process.OnHeap
import MoonlightKernel.Process.NoTrace
import MoonlightKernel.Process.Kill
import MoonlightKernel.Process.Endings
import MoonlightKernel.Process.Disposition
import MoonlightKernel.Process.ForkSignals
import MoonlightKernel.Io.KeyLayout
import MoonlightKernel.Printk.Numbers
import MoonlightKernel.Tty.Text
import MoonlightKernel.Tty.Submitted
import MoonlightKernel.Printk.Modifiers
import MoonlightKernel.Printk.ReadBase
import MoonlightKernel.Boot.Walk
import MoonlightKernel.Boot.Range
import MoonlightKernel.Mem.Move
import MoonlightKernel.Str.Search
import MoonlightKernel.Str.Sort
import MoonlightKernel.Acpi.Header
import MoonlightKernel.Shell.Command
import MoonlightKernel.Lib.Lockstep
import MoonlightKernel.Process.Context
import MoonlightKernel.Process.MemoryRuns
import MoonlightKernel.Shell.Session
import MoonlightKernel.Process.Faults
import MoonlightKernel.Boot.Firmware
import MoonlightKernel.Process.Waiting
import MoonlightKernel.Acpi.SleepPackage
import MoonlightKernel.Boot.StackSetup
import MoonlightKernel.Acpi.RootPointer
