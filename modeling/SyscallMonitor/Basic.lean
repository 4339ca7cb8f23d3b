import Mathlib.Data.Fintype.Pi
import Mathlib.Data.Fin.VecNotation

/-!
# Registers, hook addresses and log lines

The data that the monitor reads from a vCPU and the lines it writes, under the names of
`vmi-syscall-monitor.c`.
-/

namespace SyscallMonitor

/-- The part of `CPUX86State` that the monitor reads: `env->regs[]` and `env->eip`. -/
structure CPUX86State where
  regs : Fin 16 → UInt64
  eip : UInt64
  deriving DecidableEq

/-! Indices into `env->regs[]`, numbered as in `target/i386/cpu.h`. -/

def rEax : Fin 16 := 0
def rEcx : Fin 16 := 1
def rEdx : Fin 16 := 2
def rEsp : Fin 16 := 4
def rEsi : Fin 16 := 6
def rEdi : Fin 16 := 7
def rR8 : Fin 16 := 8
def rR9 : Fin 16 := 9
def rR10 : Fin 16 := 10

/-- `struct timeval`, as `gettimeofday` fills it in. -/
structure Timeval where
  tvSec : Int
  tvUsec : Int
  deriving DecidableEq

/-- The hook addresses of an enabled monitor. A zero `vmiRetAddr` means that return capture is
off; `vmi_monitor_init` never leaves the other two combinations behind. -/
structure Hooks where
  vmiAddr : UInt64
  vmiRetAddr : UInt64
  addr_ne_zero : vmiAddr ≠ 0
  ret_ne_addr : vmiRetAddr ≠ vmiAddr

/-- The part of `vmi_monitor_init` that settles the hook addresses. `addr` and `ret` are
`VMI_MONITOR_ADDR` and `VMI_MONITOR_RET_ADDR` after `strtoull`, `none` where the variable is
unset; `logOpens` tells whether the log file could be opened. `none`: the monitor stays
disabled. -/
def vmiMonitorInit (addr ret : Option UInt64) (logOpens : Bool) : Option Hooks :=
  match addr with
  | none => none
  | some a =>
    if ha : a = 0 then none
    else if logOpens then
      let r := ret.getD 0
      -- an unusable return address falls back to entry-only logging
      if hr : r = 0 ∨ r = a then some ⟨a, 0, ha, fun h => ha h.symm⟩
      else some ⟨a, r, ha, fun h => hr (Or.inr h)⟩
    else none

/-- The hooks of the documented nginx build. -/
def nginxHooks : Hooks := ⟨0x101000, 0x1010da, by decide, by decide⟩

namespace Hooks

/-- `vmi_monitor_is_hook_addr`, for an enabled monitor. -/
def IsHook (h : Hooks) (pc : UInt64) : Prop :=
  pc = h.vmiAddr ∨ h.vmiRetAddr ≠ 0 ∧ pc = h.vmiRetAddr

instance (h : Hooks) (pc : UInt64) : Decidable (h.IsHook pc) :=
  inferInstanceAs (Decidable (_ ∨ _))

/-- `is_ret` of `vmi_monitor_breakpoint_hit`. -/
def IsRet (h : Hooks) (pc : UInt64) : Prop :=
  h.vmiRetAddr ≠ 0 ∧ pc = h.vmiRetAddr

instance (h : Hooks) (pc : UInt64) : Decidable (h.IsRet pc) :=
  inferInstanceAs (Decidable (_ ∧ _))

lemma isHook_addr (h : Hooks) : h.IsHook h.vmiAddr := Or.inl rfl

lemma not_isRet_addr (h : Hooks) : ¬ h.IsRet h.vmiAddr := fun hr => h.ret_ne_addr hr.2.symm

lemma IsRet.isHook {h : Hooks} {pc : UInt64} (hr : h.IsRet pc) : h.IsHook pc := Or.inr hr

end Hooks

/-! ### Log lines -/

/-- The `why` argument of `vmi_write_unfinished`. -/
inductive UnfinishedWhy where
  | superseded
  | evicted
  | shutdown
  deriving DecidableEq

/-- `VmiRetKind`, with the arguments of `vmi_write_event` that each kind uses. -/
inductive VmiRetKind where
  | none
  | value (ret : Int64) (retTv : Timeval)
  | unfinished (why : UnfinishedWhy)
  deriving DecidableEq

/-- One call of `vmi_write_event`, that is, one line of the log. -/
structure LogLine where
  cpuIndex : Int
  num : UInt64
  argv : Fin 6 → UInt64
  tv : Timeval
  kind : VmiRetKind
  deriving DecidableEq

/-- `vmi_read_args`: the six syscall arguments `rdi, rsi, rdx, r10, r8, r9`. -/
def vmiReadArgs (env : CPUX86State) : Fin 6 → UInt64 :=
  ![env.regs rEdi, env.regs rEsi, env.regs rEdx, env.regs 10, env.regs 8, env.regs 9]

end SyscallMonitor
