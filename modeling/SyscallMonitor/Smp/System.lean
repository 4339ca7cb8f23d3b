import SyscallMonitor.Monitor
import SyscallMonitor.Lib.Run

/-!
# Several vCPUs and the monitor

Any number of vCPUs share the guest's memory and the breakpoint registry. A vCPU retires an
instruction, takes an interrupt, or executes an `int3` that the monitor has planted; the debug exit
this raises is handled later, under the BQL, and other vCPUs may move in between. The timer, the
run-state notifications, the `fw_cfg` transfers and other writers of guest memory interleave freely.
-/

namespace SyscallMonitor

open Lib Monitor

/-- A vCPU: its registers, the debug exit that is still to be handled, and whether an interrupt has
put off the single-step trap until the interrupted context is resumed. -/
structure VCpu where
  env : CPUX86State
  trap : Option KvmDebugExitArch
  stepMasked : Bool

/-- What is recorded of a run: the calls into the capture, and the executions of the instruction at
the entry hook. -/
inductive Obs where
  | call (e : HookEvent)
  | exec (cs : ℕ) (env : CPUX86State)

/-- The whole machine. `trace` only records. -/
structure Smp where
  vmi : Monitor
  cpus : ℕ → VCpu
  trace : List Obs

/-- What can happen next. `mem` is the guest's memory afterwards; `faults` are the memory accesses
that fail inside the handler. -/
inductive SmpEvent where
  /-- `cs` retires the instruction at its pc, perhaps one that ends an interrupt handler. -/
  | retire (cs : ℕ) (env : CPUX86State) (mem : UInt64 → UInt8) (resume : Bool)
  /-- `cs` takes an interrupt or an exception. -/
  | interrupt (cs : ℕ) (env : CPUX86State)
  /-- `cs` executes a planted `int3`. -/
  | fetchInt3 (cs : ℕ)
  /-- The debug exit of `cs` is handled. -/
  | debugExit (cs : ℕ) (tv : Timeval) (faults : List Bool)
  | timerExpiry (faults : List Bool)
  | vmStateChange (running : Bool) (state : RunState) (faults : List Bool)
  | fwCfgDma (d : FwCfgDma) (mem : UInt64 → UInt8) (faults : List Bool)
  /-- Somebody else writes guest memory. -/
  | overwrite (mem : UInt64 → UInt8)

namespace Smp

/-- The monitor has planted an `int3` at `pc`, and it is in memory. -/
def Planted (h : Hooks) (s : Smp) (pc : UInt64) : Prop := h.IsHook pc ∧ (s.vmi.kvm.site pc).Live

instance (h : Hooks) (s : Smp) (pc : UInt64) : Decidable (s.Planted h pc) :=
  inferInstanceAs (Decidable (_ ∧ _))

/-- `cs` is in the guest, and the instruction at its pc is not a planted `int3`. -/
def CanRetire (h : Hooks) (s : Smp) (cs : ℕ) : Prop :=
  (s.cpus cs).trap = none ∧ ¬ s.Planted h (s.cpus cs).env.eip

instance (h : Hooks) (s : Smp) (cs : ℕ) : Decidable (s.CanRetire h cs) :=
  inferInstanceAs (Decidable (_ ∧ _))

def setCpu (s : Smp) (cs : ℕ) (c : VCpu) : Smp := { s with cpus := Function.update s.cpus cs c }

def setMem (s : Smp) (mem : UInt64 → UInt8) : Smp :=
  { s with vmi.kvm.mem := mem }

def setFaults (s : Smp) (faults : List Bool) : Smp :=
  { s with vmi.kvm.faults := faults }

/-- The monitor has run; its calls into the capture are recorded. -/
def setVmi (s : Smp) (v : Monitor) : Smp :=
  { s with
    vmi := v
    trace := s.trace ++ (v.hookCalls.drop s.vmi.hookCalls.length).map .call }

/-- The instruction at the entry hook is recorded when it is executed. -/
def recordExec (h : Hooks) (s : Smp) (cs : ℕ) : Smp :=
  if (s.cpus cs).env.eip = h.vmiAddr then
    { s with trace := s.trace ++ [.exec cs (s.cpus cs).env] }
  else s

/-- The debug exit of `cs` as `kvm_handle_debug` sees it: outcome and monitor afterwards. -/
def handleDebug (h : Hooks) (s : Smp) (cs : ℕ) (tv : Timeval) (info : KvmDebugExitArch) :
    HandleDebug × Monitor :=
  kvmHandleDebug h cs (s.cpus cs).env tv info s.vmi

/-- One step; `none` if the event cannot happen now. -/
def step (h : Hooks) (s : Smp) : SmpEvent → Option Smp
  | .retire cs env mem resume =>
    let c := s.cpus cs
    if s.CanRetire h cs then
      let stepped := s.vmi.kvm.singlestepEnabled cs ≠ 0 ∧ c.stepMasked = false
      some (((s.recordExec h cs).setMem mem).setCpu cs
        { env := env
          trap := if stepped then some (stepTrap env.eip) else none
          stepMasked := c.stepMasked && !resume })
    else none
  | .interrupt cs env =>
    let c := s.cpus cs
    if c.trap = none then
      some (s.setCpu cs
        { c with
          env := env
          stepMasked := c.stepMasked || decide (s.vmi.kvm.singlestepEnabled cs ≠ 0) })
    else none
  | .fetchInt3 cs =>
    let c := s.cpus cs
    if c.trap = none ∧ s.Planted h c.env.eip then
      some (s.setCpu cs { c with trap := some (int3Trap c.env.eip) })
    else none
  | .debugExit cs tv faults =>
    match (s.cpus cs).trap with
    | none => none
    | some info =>
      let r := (s.setFaults faults).handleDebug h cs tv info
      some ((s.setVmi r.2).setCpu cs
        { s.cpus cs with
          trap := none
          stepMasked := if r.1 = .consumed then false else (s.cpus cs).stepMasked })
  | .timerExpiry faults =>
    if s.vmi.vmiArmTimer = some ⟨true⟩ then
      some (s.setVmi (vmiTryArm h { (s.setFaults faults).vmi with vmiArmTimer := some ⟨false⟩ }))
    else none
  | .vmStateChange running state faults =>
    some (s.setVmi (vmiVmStateChange h running state (s.setFaults faults).vmi))
  | .fwCfgDma d mem faults =>
    some (s.setVmi (fwCfgDmaTransferEnd h d ((s.setMem mem).setFaults faults).vmi))
  | .overwrite mem => some (s.setMem mem)

variable {h : Hooks} {s s' : Smp} {cs : ℕ}

lemma step_retire {env : CPUX86State} {mem : UInt64 → UInt8} {resume : Bool}
    (hstep : s.step h (.retire cs env mem resume) = some s') :
    s.CanRetire h cs ∧ s' = ((s.recordExec h cs).setMem mem).setCpu cs
      { env := env
        trap :=
          if s.vmi.kvm.singlestepEnabled cs ≠ 0 ∧ (s.cpus cs).stepMasked = false then
            some (stepTrap env.eip)
          else none
        stepMasked := (s.cpus cs).stepMasked && !resume } := by
  simp only [step, Option.ite_none_right_eq_some, Option.some.injEq] at hstep
  exact ⟨hstep.1, hstep.2.symm⟩

lemma step_interrupt {env : CPUX86State} (hstep : s.step h (.interrupt cs env) = some s') :
    (s.cpus cs).trap = none ∧ s' = s.setCpu cs
      { s.cpus cs with
        env := env
        stepMasked := (s.cpus cs).stepMasked || decide (s.vmi.kvm.singlestepEnabled cs ≠ 0) } := by
  simp only [step, Option.ite_none_right_eq_some, Option.some.injEq] at hstep
  exact ⟨hstep.1, hstep.2.symm⟩

lemma step_fetchInt3 (hstep : s.step h (.fetchInt3 cs) = some s') :
    ((s.cpus cs).trap = none ∧ s.Planted h (s.cpus cs).env.eip) ∧
      s' = s.setCpu cs { s.cpus cs with trap := some (int3Trap (s.cpus cs).env.eip) } := by
  simp only [step, Option.ite_none_right_eq_some, Option.some.injEq] at hstep
  exact ⟨hstep.1, hstep.2.symm⟩

lemma step_timerExpiry {faults : List Bool} (hstep : s.step h (.timerExpiry faults) = some s') :
    s.vmi.vmiArmTimer = some ⟨true⟩ ∧ s' = s.setVmi
      (vmiTryArm h { (s.setFaults faults).vmi with vmiArmTimer := some ⟨false⟩ }) := by
  simp only [step, Option.ite_none_right_eq_some, Option.some.injEq] at hstep
  exact ⟨hstep.1, hstep.2.symm⟩

/-- What is known after a debug exit: what `kvm_handle_debug` answered, and that the vCPU is ready
to run again. -/
lemma step_debugExit {tv : Timeval} {faults : List Bool}
    (hstep : s.step h (.debugExit cs tv faults) = some s') :
    ∃ info outcome v, (s.cpus cs).trap = some info ∧
      kvmHandleDebug h cs (s.cpus cs).env tv info (s.setFaults faults).vmi = (outcome, v) ∧
      s' = (s.setVmi v).setCpu cs
        { s.cpus cs with
          trap := none
          stepMasked := if outcome = .consumed then false else (s.cpus cs).stepMasked } := by
  simp only [step] at hstep
  split at hstep
  · cases hstep
  · rename_i info htrap
    exact ⟨info, _, _, htrap, rfl, (Option.some.inj hstep).symm⟩

end Smp

/-! ### What a step does to the monitor -/

namespace SmpEvent

/-- The accesses that fail inside the handler that the event runs. -/
def faults : SmpEvent → List Bool
  | .retire .. => []
  | .interrupt .. => []
  | .fetchInt3 _ => []
  | .debugExit _ _ faults => faults
  | .timerExpiry faults => faults
  | .vmStateChange _ _ faults => faults
  | .fwCfgDma _ _ faults => faults
  | .overwrite _ => []

/-- The guest's memory after an event in which somebody other than the monitor may write it. -/
def mem : SmpEvent → Option (UInt64 → UInt8)
  | .retire _ _ mem _ => some mem
  | .interrupt .. => none
  | .fetchInt3 _ => none
  | .debugExit .. => none
  | .timerExpiry _ => none
  | .vmStateChange .. => none
  | .fwCfgDma _ mem _ => some mem
  | .overwrite mem => some mem

end SmpEvent

/-- The monitor as the handler of an event finds it: the event has written memory, and its `faults`
are the accesses to come. -/
def Smp.entering (s : Smp) (e : SmpEvent) : Monitor :=
  { s.vmi with kvm.mem := e.mem.getD s.vmi.kvm.mem, kvm.faults := e.faults }

/-- The event handles a hit at `pc`: the trap of a registered breakpoint on `cs` in `VMI_NORMAL`. -/
def Smp.HitAt (s : Smp) (cs : ℕ) (pc : UInt64) (e : SmpEvent) : Prop :=
  ∃ tv info, e = .debugExit cs tv e.faults ∧ (s.cpus cs).trap = some info ∧
    info.exception ≠ excp01Db ∧ info.pc = pc ∧ (s.vmi.kvm.swBreakpoints pc).isSome = true ∧
    s.vmi.vmiStateTable cs = .normal

/-- What the handler of an event does to the monitor, and to QEMU. -/
inductive VmiStep (h : Hooks) (s : Smp) (e : SmpEvent) (v' : Monitor) : Prop where
  | idle (f : List Bool) (heq : v' = { s.entering e with kvm.faults := f })
  | arming (harm : ArmingStep h (s.entering e) v')
  | hit (cs : ℕ) (tv : Timeval) (info : KvmDebugExitArch) (he : e = .debugExit cs tv e.faults)
      (htrap : (s.cpus cs).trap = some info) (hint3 : info.exception ≠ excp01Db)
      (hreg : (s.vmi.kvm.swBreakpoints info.pc).isSome = true) (hpc : h.IsHook info.pc)
      (hnormal : s.vmi.vmiStateTable cs = .normal)
      (heq : v' = vmiMonitorBreakpointHit h cs (s.cpus cs).env tv info.pc (s.entering e))
  | complete (cs : ℕ) (hstepping : s.vmi.vmiStateTable cs = .stepping)
      (heq : v' = vmiMonitorStepComplete cs (s.entering e))

namespace VmiStep

variable {h : Hooks} {s : Smp} {e : SmpEvent} {v' : Monitor}

lemma vmiEnabled (hstep : VmiStep h s e v') : v'.vmiEnabled = s.vmi.vmiEnabled := by
  cases hstep with
  | idle f heq => rw [heq, Smp.entering]
  | arming harm => exact harm.sameSteps.vmiEnabled
  | hit cs tv info _ _ _ _ _ _ heq =>
    rw [heq]
    exact (vmiMonitorBreakpointHit_flags h cs _ tv info.pc (s.entering e)).1
  | complete cs hstepping heq =>
    obtain ⟨err, site, f, -, -, hv⟩ := vmiMonitorStepComplete_spec cs (s.entering e)
    rw [heq, hv, Smp.entering]

/-- The flag of the first hit is set by a hit only, and never reset. -/
lemma vmiFirstHitSeen (hstep : VmiStep h s e v') :
    v'.vmiFirstHitSeen = s.vmi.vmiFirstHitSeen ∨
      v'.vmiFirstHitSeen = true ∧ ∃ cs tv pc, h.IsHook pc ∧ s.HitAt cs pc e ∧
        v' = vmiMonitorBreakpointHit h cs (s.cpus cs).env tv pc (s.entering e) := by
  cases hstep with
  | idle f heq =>
    rw [heq]
    exact Or.inl rfl
  | arming harm => exact Or.inl harm.sameSteps.vmiFirstHitSeen
  | hit cs tv info he htrap hint3 hreg hpc hnormal heq =>
    refine Or.inr ⟨?_, cs, tv, info.pc, hpc, ⟨tv, info, he, htrap, hint3, rfl, hreg, hnormal⟩, heq⟩
    rw [heq]
    exact (vmiMonitorBreakpointHit_flags h cs _ tv info.pc (s.entering e)).2
  | complete cs hstepping heq =>
    obtain ⟨err, site, f, -, -, hv⟩ := vmiMonitorStepComplete_spec cs (s.entering e)
    rw [heq, hv]
    exact Or.inl rfl

lemma vmiFirstHitSeen_before (hstep : VmiStep h s e v') (hhit : v'.vmiFirstHitSeen = false) :
    s.vmi.vmiFirstHitSeen = false := by
  rcases hstep.vmiFirstHitSeen with heq | ⟨hset, -⟩
  · rw [← heq, hhit]
  · rw [hhit] at hset
    cases hset

end VmiStep

namespace Smp

@[simp] lemma recordExec_vmi (h : Hooks) (s : Smp) (cs : ℕ) : (s.recordExec h cs).vmi = s.vmi := by
  rw [recordExec]
  split_ifs <;> rfl

@[simp] lemma recordExec_cpus (h : Hooks) (s : Smp) (cs : ℕ) :
    (s.recordExec h cs).cpus = s.cpus := by
  rw [recordExec]
  split_ifs <;> rfl

/-- Every step does one of the four things to the monitor. -/
theorem step_vmi {h : Hooks} {s s' : Smp} {e : SmpEvent} (hen : s.vmi.vmiEnabled = true)
    (hstep : s.step h e = some s') : VmiStep h s e s'.vmi := by
  cases e with
  | retire cs env mem resume =>
    obtain ⟨-, rfl⟩ := step_retire hstep
    refine .idle s.vmi.kvm.faults ?_
    simp [setCpu, setMem, entering, SmpEvent.mem, SmpEvent.faults]
  | interrupt cs env =>
    obtain ⟨-, rfl⟩ := step_interrupt hstep
    exact .idle s.vmi.kvm.faults rfl
  | fetchInt3 cs =>
    obtain ⟨-, rfl⟩ := step_fetchInt3 hstep
    exact .idle s.vmi.kvm.faults rfl
  | debugExit cs tv faults =>
    obtain ⟨info, outcome, v, htrap, hhandle, rfl⟩ := step_debugExit hstep
    rcases kvmHandleDebug_cases h cs (s.cpus cs).env tv info (s.setFaults faults).vmi with
      ⟨-, hstepping, heq⟩ | ⟨hint3, hreg, hpc, hnormal, heq⟩ | ⟨r, -, heq⟩
    · exact .complete cs hstepping (Prod.mk.inj (hhandle.symm.trans heq)).2
    · exact .hit cs tv info rfl htrap hint3 hreg hpc hnormal
        (Prod.mk.inj (hhandle.symm.trans heq)).2
    · exact .idle faults (Prod.mk.inj (hhandle.symm.trans heq)).2
  | timerExpiry faults =>
    obtain ⟨-, rfl⟩ := step_timerExpiry hstep
    have harm := vmiTryArm_arming h { (s.setFaults faults).vmi with vmiArmTimer := some ⟨false⟩ }
    exact .arming harm.of_timer
  | vmStateChange running state faults =>
    obtain rfl := Option.some.inj hstep
    exact .arming (vmiVmStateChange_arming h running state hen)
  | fwCfgDma d mem faults =>
    obtain rfl := Option.some.inj hstep
    exact .arming (fwCfgDmaTransferEnd_arming h d _)
  | overwrite mem =>
    obtain rfl := Option.some.inj hstep
    exact .idle s.vmi.kvm.faults rfl

/-! ### Steps without failures -/

/-- All calls that insert, remove or read back a breakpoint go through. -/
def NoFaults (_ : Smp) (e : SmpEvent) : Prop := e.faults = []

/-- No access of a handler fails, and nobody but the monitor writes the hook bytes. -/
def Clean (h : Hooks) (s : Smp) (e : SmpEvent) : Prop :=
  e.faults = [] ∧ ∀ mem ∈ e.mem, ∀ a, h.IsHook a → mem a = s.vmi.kvm.mem a

/-- Events without failures that write no memory make a clean run. -/
lemma along_clean {h : Hooks} {s : Smp} {es : List SmpEvent}
    (hes : (es.all fun e => e.faults.isEmpty && e.mem.isNone) = true) :
    Along (step h) (Clean h) s es := by
  refine (along_iff s es).mpr fun pre e post s' hsplit _ => ?_
  have he := List.all_eq_true.mp hes e (by simp [hsplit])
  simp only [Bool.and_eq_true, List.isEmpty_iff, Option.isNone_iff_eq_none] at he
  refine ⟨he.1, ?_⟩
  intro mem hmem
  rw [he.2] at hmem
  cases hmem

/-- The state after a `vmi_arm_once` in which no access failed, with all vCPUs in `VMI_NORMAL`:
nobody else uses the hooks or single-stepping, and the only debug exits still to be handled are
those of hooks. -/
structure ArmedStart (h : Hooks) (s : Smp) : Prop where
  enabled : s.vmi.vmiEnabled = true
  armed : ∃ k, k.faults = [] ∧ (∀ a, h.IsHook a → (k.site a).useCount ≤ 1) ∧
    vmiArmOnce h k = (true, s.vmi.kvm)
  normal : ∀ cs, s.vmi.vmiStateTable cs = .normal
  noStep : ∀ cs, s.vmi.kvm.singlestepEnabled cs = 0
  traps : ∀ cs info, (s.cpus cs).trap = some info →
    info = int3Trap (s.cpus cs).env.eip ∧ h.IsHook (s.cpus cs).env.eip
  armCalls : s.vmi.armCalls = []
  trace : s.trace = []

/-- The machine when QEMU has started and the monitor is enabled: `k` is the state of QEMU, `env`
are the registers of the vCPUs. -/
def powerOn (k : Kvm) (env : ℕ → CPUX86State) : Smp where
  vmi := .init k
  cpus cs := ⟨env cs, none, false⟩
  trace := []

/-- The machine after a first attempt of the polling path, with nobody at a hook yet: `k` is the
state of QEMU before the attempt, `env` are the registers of the vCPUs. -/
def boot (h : Hooks) (k : Kvm) (env : ℕ → CPUX86State) : Smp where
  vmi := .boot h k
  cpus cs := ⟨env cs, none, false⟩
  trace := []

/-- Booting QEMU without breakpoints and single-stepping leads to an armed machine. -/
theorem armedStart_boot (h : Hooks) {k : Kvm} (env : ℕ → CPUX86State) (hf : k.faults = [])
    (hbp : ∀ a, k.swBreakpoints a = none) (hstep : ∀ cs, k.singlestepEnabled cs = 0) :
    ArmedStart h (boot h k env) := by
  have hcount : ∀ a, h.IsHook a → (k.site a).useCount ≤ 1 := by
    intro a _
    rw [Kvm.site, hbp a]
    exact Nat.zero_le 1
  obtain ⟨k', harm, -, -⟩ := vmiArmOnce_clean hf hcount
  refine ⟨rfl, ⟨k, hf, hcount, ?_⟩, fun _ => rfl, ?_, ?_, rfl, rfl⟩
  · simp [boot, Monitor.boot, Monitor.init, harm]
  · intro cs
    exact (congrFun (vmiArmOnce_sameElsewhere h k).singlestepEnabled cs).trans (hstep cs)
  · intro cs info htrap
    cases htrap

end Smp

/-- The documented nginx build when QEMU has started. -/
def nginxPowerOn : Smp := .powerOn nginxKvm fun _ => ⟨fun _ => 0, 0x101000⟩

/-- The transfer of a kernel image of one page. -/
def kernelImage : FwCfgDma := ⟨true, false, fwCfgKernelData, some 4096, 4096⟩

/-- The documented nginx build, with all vCPUs about to execute the instruction at the entry hook.
-/
def nginxSmp : Smp :=
  .boot nginxHooks nginxKvm fun _ => ⟨fun _ => 0, 0x101000⟩

lemma armedStart_nginxSmp : nginxSmp.ArmedStart nginxHooks :=
  Smp.armedStart_boot nginxHooks _ rfl (fun _ => rfl) fun _ => rfl

/-- vCPU `cs` is being stepped over the hook `a`. -/
def Monitor.SteppingOver (v : Monitor) (cs : ℕ) (a : UInt64) : Prop :=
  v.vmiStateTable cs = .stepping ∧ v.vmiStepAddrTable cs = a

end SyscallMonitor
