import SyscallMonitor.Basic
import SyscallMonitor.Lib.Run
import SyscallMonitor.Capture.Pending
import SyscallMonitor.Capture.Scan
import SyscallMonitor.Capture.Steps
import SyscallMonitor.Capture.Conservation
import SyscallMonitor.Capture.Keys
import SyscallMonitor.Lib.BinarySearch
import SyscallMonitor.Lib.KeyedQueue
import SyscallMonitor.Capture.Refinement
import SyscallMonitor.Capture.Pairing
import SyscallMonitor.Kvm
import SyscallMonitor.Arm
import SyscallMonitor.ArmOutcome
import SyscallMonitor.Monitor
import SyscallMonitor.Repeats
import SyscallMonitor.Smp.System
import SyscallMonitor.Smp.StepOver
import SyscallMonitor.Smp.Traps
import SyscallMonitor.Smp.Completeness
import SyscallMonitor.Smp.Order
import SyscallMonitor.Smp.GuestBytes
import SyscallMonitor.Lib.Stutter
import SyscallMonitor.Transparency
import SyscallMonitor.BootSync
import SyscallMonitor.TimerSafety
import SyscallMonitor.Evidence
import SyscallMonitor.RetryTimer
import SyscallMonitor.Log.Table
import SyscallMonitor.Lib.Digits
import SyscallMonitor.Lib.Json
import SyscallMonitor.Log.Event
import SyscallMonitor.Log.Format
import SyscallMonitor.Log.Agreement
import SyscallMonitor.Lib.Lines
import SyscallMonitor.Log.Tail
import SyscallMonitor.Gdb
import SyscallMonitor.Lib.Regex
import SyscallMonitor.Lib.Text
import SyscallMonitor.Strace
import SyscallMonitor.Lib.Utf8
import SyscallMonitor.Hmp
import SyscallMonitor.Lib.SequenceMatcher
import SyscallMonitor.Lib.MatchingBlocks
import SyscallMonitor.Lib.UnifiedDiff
import SyscallMonitor.Validate
import SyscallMonitor.EndToEnd
import SyscallMonitor.LiveView
import SyscallMonitor.Lib.Numeral
import SyscallMonitor.HookAddresses
import SyscallMonitor.GdbCapture
import SyscallMonitor.Attach
