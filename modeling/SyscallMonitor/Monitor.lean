import SyscallMonitor.Arm
import SyscallMonitor.Capture.Pending

/-!
# The monitor

The static variables of `vmi-syscall-monitor.c` and the functions that QEMU calls: the timer and
run-state callbacks, the boot-sync hook in `fw_cfg_dma_transfer`, and the two handlers that the
patched `kvm_handle_debug` calls. Diagnostics (`vmi_debug`, `error_report`) are left out.

`vmi_try_arm` is given in two halves, before and after its call of `vmi_arm_once`.
-/

namespace SyscallMonitor

inductive VmiState where
  | normal
  | stepping
  deriving DecidableEq

/-- A `QEMUTimer`, as far as it matters whether it will fire. -/
structure QEMUTimer where
  scheduled : Bool
  deriving DecidableEq

/-- `VMI_ARM_MAX_ATTEMPTS`. -/
def vmiArmMaxAttempts : ℕ := 100

/-- The `log_tag` of an attempt. -/
inductive ArmTag where
  | arm
  | bootSync
  deriving DecidableEq

/-- A call of `vmi_arm_once`, and the states of the vCPUs at that time. -/
structure ArmCall where
  tag : ArmTag
  vmiStateTable : ℕ → VmiState

/-- The static variables, with the parts of QEMU that the monitor changes. The last three fields
record what happened and are read by no function: the calls of `vmi_handle_entry`,
`vmi_handle_return` and `vmi_flush_pending`, the calls of `vmi_arm_once`, and whether `timer_mod`
has been called without a timer. -/
structure Monitor where
  vmiEnabled : Bool
  vmiStateTable : ℕ → VmiState
  vmiStepAddrTable : ℕ → UInt64
  vmiArmTimer : Option QEMUTimer
  vmiArmAttempts : ℕ
  vmiFirstHitSeen : Bool
  vmiBootSyncOk : Bool
  capture : Capture
  kvm : Kvm
  hookCalls : List HookEvent
  armCalls : List ArmCall
  timerModNull : Bool

namespace Monitor

/-- The guarded `timer_free(vmi_arm_timer); vmi_arm_timer = NULL`. -/
def timerFree (v : Monitor) : Monitor := { v with vmiArmTimer := none }

/-- `timer_mod(vmi_arm_timer, ..)`, which dereferences its timer. -/
def timerMod (v : Monitor) : Monitor :=
  match v.vmiArmTimer with
  | some _ => { v with vmiArmTimer := some ⟨true⟩ }
  | none => { v with timerModNull := true }

/-- `vmi_monitor_set_state`. -/
def setState (v : Monitor) (cs : ℕ) (state : VmiState) : Monitor :=
  { v with vmiStateTable := Function.update v.vmiStateTable cs state }

/-- A call of `vmi_handle_entry`, `vmi_handle_return` or `vmi_flush_pending`. -/
def callHook (h : Hooks) (v : Monitor) (e : HookEvent) : Monitor :=
  { v with capture := v.capture.handle h e, hookCalls := v.hookCalls ++ [e] }

/-- A call of `vmi_arm_once`. -/
def callArm (h : Hooks) (tag : ArmTag) (v : Monitor) : Bool × Monitor :=
  ((vmiArmOnce h v.kvm).1,
    { v with
      kvm := (vmiArmOnce h v.kvm).2
      armCalls := v.armCalls ++ [⟨tag, v.vmiStateTable⟩] })

end Monitor

open Monitor

/-! ### Arming -/

/-- `vmi_try_arm` up to the call of `vmi_arm_once`; `false` if it stands down instead. -/
def vmiTryArmBegin (v : Monitor) : Bool × Monitor :=
  if v.vmiFirstHitSeen || v.vmiBootSyncOk then (false, v.timerFree)
  else (true, { v with vmiArmAttempts := v.vmiArmAttempts + 1 })

/-- `vmi_try_arm` after `vmi_arm_once` has returned `armed`. -/
def vmiTryArmEnd (armed : Bool) (v : Monitor) : Monitor :=
  if armed then
    if v.vmiArmAttempts ≥ vmiArmMaxAttempts then v.timerFree else v.timerMod
  else -- retry_or_fail
    if v.vmiArmAttempts ≥ vmiArmMaxAttempts then v.timerFree else v.timerMod

/-- `vmi_try_arm`. -/
def vmiTryArm (h : Hooks) (v : Monitor) : Monitor :=
  match vmiTryArmBegin v with
  | (false, v) => v
  | (true, v) =>
    let (armed, v) := v.callArm h .arm
    vmiTryArmEnd armed v

/-- `vmi_monitor_kernel_loaded`. -/
def vmiMonitorKernelLoaded (h : Hooks) (v : Monitor) : Monitor :=
  if !v.vmiEnabled || v.vmiBootSyncOk || v.vmiFirstHitSeen then v
  else
    match v.callArm h .bootSync with
    | (true, v) => { v with vmiBootSyncOk := true }.timerFree
    | (false, v) => v

/-- QEMU's run states, as far as the monitor tells them apart. -/
inductive RunState where
  | running
  | shutdown
  | other
  deriving DecidableEq

/-- `vmi_vm_state_change`. -/
def vmiVmStateChange (h : Hooks) (running : Bool) (state : RunState) (v : Monitor) : Monitor :=
  let v :=
    if !running && v.vmiEnabled && state = .shutdown then v.callHook h .flush else v
  if !running || !v.vmiEnabled then v
  else
    match v.vmiArmTimer with
    | some _ => v
    | none => vmiTryArm h { v with vmiArmAttempts := 0, vmiArmTimer := some ⟨false⟩ }

/-- The state of `fw_cfg_dma_transfer` at the end of a request: the direction, the error bit, the
selected item with the length of its entry, and the offset reached. -/
structure FwCfgDma where
  read : Bool
  error : Bool
  curEntry : UInt16
  entryLen : Option ℕ
  curOffset : ℕ

/-- `FW_CFG_KERNEL_DATA`. -/
def fwCfgKernelData : UInt16 := 0x11

/-- The condition under which `fw_cfg_dma_transfer` calls the monitor: the kernel image has been
transferred completely. -/
def FwCfgDma.IsKernelData (d : FwCfgDma) : Prop :=
  d.read = true ∧ d.error = false ∧ d.curEntry = fwCfgKernelData ∧
    ∃ len ∈ d.entryLen, d.curOffset ≥ len

instance (d : FwCfgDma) : Decidable d.IsKernelData :=
  inferInstanceAs (Decidable (_ ∧ _ ∧ _ ∧ _))

/-- The end of `fw_cfg_dma_transfer`. -/
def fwCfgDmaTransferEnd (h : Hooks) (d : FwCfgDma) (v : Monitor) : Monitor :=
  if d.IsKernelData then vmiMonitorKernelLoaded h v else v

/-- The monitor once `vmi_monitor_init` has enabled it. -/
def Monitor.init (k : Kvm) : Monitor where
  vmiEnabled := true
  vmiStateTable := fun _ => .normal
  vmiStepAddrTable := fun _ => 0
  vmiArmTimer := none
  vmiArmAttempts := 0
  vmiFirstHitSeen := false
  vmiBootSyncOk := false
  capture := .init []
  kvm := k
  hookCalls := []
  armCalls := []
  timerModNull := false

/-- The monitor after a first attempt of the polling path; `k` is the state of QEMU before it. -/
def Monitor.boot (h : Hooks) (k : Kvm) : Monitor :=
  { Monitor.init (vmiArmOnce h k).2 with vmiArmTimer := some ⟨true⟩, vmiArmAttempts := 1 }

/-! ### Debug exits -/

/-- `vmi_monitor_breakpoint_hit`; `tv` is the time at which the handler runs. -/
def vmiMonitorBreakpointHit (h : Hooks) (cs : ℕ) (env : CPUX86State) (tv : Timeval) (pc : UInt64)
    (v : Monitor) : Monitor :=
  let v := if v.vmiFirstHitSeen then v else { v with vmiFirstHitSeen := true }.timerFree
  let v := v.callHook h (if h.IsRet pc then .ret cs env tv else .entry cs env tv)
  match kvmRemoveBreakpoint pc v.kvm with
  | (some _, k) => { v with kvm := k }
  | (none, k) =>
    { v with
      kvm := cpuSingleStep cs 1 k
      vmiStepAddrTable := Function.update v.vmiStepAddrTable cs pc }.setState cs .stepping

/-- `vmi_monitor_step_complete`. -/
def vmiMonitorStepComplete (cs : ℕ) (v : Monitor) : Monitor :=
  let addr := v.vmiStepAddrTable cs
  match kvmInsertBreakpoint addr (cpuSingleStep cs 0 v.kvm) with
  | (some _, k) => { v with kvm := k }.setState cs .normal
  | (none, k) =>
    let (readback, k) := cpuMemoryRead addr k
    let verified := readback = some int3
    if ¬ verified then { v with kvm := k }.setState cs .normal
    else { v with kvm := k }.setState cs .normal

/-- `EXCP01_DB`. -/
def excp01Db : ℕ := 1

/-- `EXCP03_INT3`. -/
def excp03Int3 : ℕ := 3

/-- `DR6_BS`. -/
def dr6Bs : UInt64 := 0x4000

/-- `struct kvm_debug_exit_arch`. `hwBreakpoint` is what the loop over the four debug registers
finds, which is stock code outside the patch. -/
structure KvmDebugExitArch where
  exception : ℕ
  pc : UInt64
  dr6 : UInt64
  hwBreakpoint : Bool
  deriving DecidableEq

/-- The debug exit of a planted `int3`. -/
def int3Trap (pc : UInt64) : KvmDebugExitArch := ⟨excp03Int3, pc, 0, false⟩

/-- The debug exit of a single step. -/
def stepTrap (pc : UInt64) : KvmDebugExitArch := ⟨excp01Db, pc, dr6Bs, false⟩

/-- What becomes of a debug exit. -/
inductive HandleDebug where
  /-- `vmi_consumed`. -/
  | consumed
  /-- `ret = EXCP_DEBUG`: the VM stops. -/
  | excpDebug
  /-- `ret == 0`: the exception is injected into the guest. -/
  | passToGuest
  deriving DecidableEq

/-- The patched `kvm_handle_debug`. -/
def kvmHandleDebug (h : Hooks) (cs : ℕ) (env : CPUX86State) (tv : Timeval) (info : KvmDebugExitArch)
    (v : Monitor) : HandleDebug × Monitor :=
  if info.exception = excp01Db then
    if info.dr6 &&& dr6Bs ≠ 0 then
      if v.vmiEnabled ∧ v.vmiStateTable cs = .stepping then
        (.consumed, vmiMonitorStepComplete cs v)
      else if v.kvm.singlestepEnabled cs ≠ 0 then (.excpDebug, v)
      else (.passToGuest, v)
    else if info.hwBreakpoint then (.excpDebug, v)
    else (.passToGuest, v)
  else if (kvmFindSwBreakpoint v.kvm info.pc).isSome then
    if (v.vmiEnabled ∧ h.IsHook info.pc) ∧ v.vmiStateTable cs = .normal then
      (.consumed, vmiMonitorBreakpointHit h cs env tv info.pc v)
    else (.excpDebug, v)
  else (.passToGuest, v)

/-! ### What the arming paths do -/

namespace Monitor

/-- What the arming paths leave alone. -/
structure SameSteps (v v' : Monitor) : Prop where
  vmiEnabled : v'.vmiEnabled = v.vmiEnabled
  vmiStateTable : v'.vmiStateTable = v.vmiStateTable
  vmiStepAddrTable : v'.vmiStepAddrTable = v.vmiStepAddrTable
  vmiFirstHitSeen : v'.vmiFirstHitSeen = v.vmiFirstHitSeen
  hookCalls : ∃ l, v'.hookCalls = v.hookCalls ++ l ∧ ∀ e ∈ l, e = .flush

lemma SameSteps.refl (v : Monitor) : SameSteps v v := ⟨rfl, rfl, rfl, rfl, [], by simp, by simp⟩

/-- A timer expiry, a run-state notification or a completed transfer either makes no attempt, or
makes one with neither flag set. -/
inductive ArmingStep (h : Hooks) (v v' : Monitor) : Prop where
  | idle (hkvm : v'.kvm = v.kvm) (harm : v'.armCalls = v.armCalls) (hsame : SameSteps v v')
      (hsync : v'.vmiBootSyncOk = v.vmiBootSyncOk)
  | attempt (tag : ArmTag) (hhit : v.vmiFirstHitSeen = false) (hsync : v.vmiBootSyncOk = false)
      (hkvm : v'.kvm = (vmiArmOnce h v.kvm).2)
      (harm : v'.armCalls = v.armCalls ++ [⟨tag, v.vmiStateTable⟩]) (hsame : SameSteps v v')

/-- An arming step does not look at the timer. -/
lemma ArmingStep.of_timer {h : Hooks} {v v' : Monitor} {timer : Option QEMUTimer}
    (hstep : ArmingStep h { v with vmiArmTimer := timer } v') : ArmingStep h v v' := by
  cases hstep with
  | idle hkvm harm hsame hsync =>
    exact .idle hkvm harm ⟨hsame.1, hsame.2, hsame.3, hsame.4, hsame.5⟩ hsync
  | attempt tag hhit hsync hkvm harm hsame =>
    exact .attempt tag hhit hsync hkvm harm ⟨hsame.1, hsame.2, hsame.3, hsame.4, hsame.5⟩

lemma ArmingStep.sameSteps {h : Hooks} {v v' : Monitor} (hstep : ArmingStep h v v') :
    SameSteps v v' := by
  cases hstep with
  | idle _ _ hsame _ => exact hsame
  | attempt _ _ _ _ _ hsame => exact hsame

@[simp] lemma timerMod_kvm (v : Monitor) : v.timerMod.kvm = v.kvm := by
  rw [timerMod]
  split <;> rfl

@[simp] lemma timerMod_armCalls (v : Monitor) : v.timerMod.armCalls = v.armCalls := by
  rw [timerMod]
  split <;> rfl

lemma sameSteps_timerMod (v : Monitor) : SameSteps v v.timerMod := by
  rw [timerMod]
  split <;> exact ⟨rfl, rfl, rfl, rfl, [], by simp, by simp⟩

end Monitor

/-- The two branches of `vmi_try_arm` after the attempt treat the timer alike. -/
lemma vmiTryArmEnd_eq (armed : Bool) (v : Monitor) :
    vmiTryArmEnd armed v
      = if v.vmiArmAttempts ≥ vmiArmMaxAttempts then v.timerFree else v.timerMod := by
  cases armed <;> rfl

lemma vmiTryArm_of_standDown {h : Hooks} {v : Monitor}
    (hflag : v.vmiFirstHitSeen = true ∨ v.vmiBootSyncOk = true) :
    vmiTryArm h v = v.timerFree := by
  have : (v.vmiFirstHitSeen || v.vmiBootSyncOk) = true := Bool.or_eq_true_iff.mpr hflag
  simp only [vmiTryArm, vmiTryArmBegin, this, ↓reduceIte]

lemma vmiTryArm_of_attempt {h : Hooks} {v : Monitor} (hhit : v.vmiFirstHitSeen = false)
    (hsync : v.vmiBootSyncOk = false) :
    vmiTryArm h v = vmiTryArmEnd (vmiArmOnce h v.kvm).1
      { v with
        vmiArmAttempts := v.vmiArmAttempts + 1
        kvm := (vmiArmOnce h v.kvm).2
        armCalls := v.armCalls ++ [⟨.arm, v.vmiStateTable⟩] } := by
  simp only [vmiTryArm, vmiTryArmBegin, hhit, hsync, Bool.or_self, Bool.false_eq_true, ↓reduceIte,
    callArm]

theorem vmiTryArm_arming (h : Hooks) (v : Monitor) : ArmingStep h v (vmiTryArm h v) := by
  by_cases hflag : v.vmiFirstHitSeen = true ∨ v.vmiBootSyncOk = true
  · rw [vmiTryArm_of_standDown hflag]
    exact .idle rfl rfl ⟨rfl, rfl, rfl, rfl, [], by simp [timerFree], by simp⟩ rfl
  · have hhit : v.vmiFirstHitSeen = false := by simpa using fun hh => hflag (Or.inl hh)
    have hsync : v.vmiBootSyncOk = false := by simpa using fun hs => hflag (Or.inr hs)
    rw [vmiTryArm_of_attempt hhit hsync, vmiTryArmEnd_eq]
    split_ifs
    · exact .attempt .arm hhit hsync rfl rfl ⟨rfl, rfl, rfl, rfl, [], by simp [timerFree], by simp⟩
    · refine .attempt .arm hhit hsync (timerMod_kvm _) (timerMod_armCalls _) ?_
      obtain ⟨he, hs, ha, hf, hc⟩ := sameSteps_timerMod
        { v with
          vmiArmAttempts := v.vmiArmAttempts + 1
          kvm := (vmiArmOnce h v.kvm).2
          armCalls := v.armCalls ++ [⟨.arm, v.vmiStateTable⟩] }
      exact ⟨he, hs, ha, hf, hc⟩

/-- Once either flag is set, `vmi_monitor_kernel_loaded` does nothing. -/
lemma vmiMonitorKernelLoaded_of_flag {h : Hooks} {v : Monitor}
    (hflag : v.vmiFirstHitSeen = true ∨ v.vmiBootSyncOk = true) :
    vmiMonitorKernelLoaded h v = v := by
  apply if_pos
  rcases hflag with hflag | hflag <;> simp [hflag]

/-- With neither flag set, `vmi_monitor_kernel_loaded` makes an attempt. -/
lemma vmiMonitorKernelLoaded_of_armed {h : Hooks} {v : Monitor} {k : Kvm}
    (hen : v.vmiEnabled = true) (hhit : v.vmiFirstHitSeen = false)
    (hsync : v.vmiBootSyncOk = false) (harm : vmiArmOnce h v.kvm = (true, k)) :
    (vmiMonitorKernelLoaded h v).kvm = k ∧ (vmiMonitorKernelLoaded h v).vmiBootSyncOk = true := by
  simp [vmiMonitorKernelLoaded, hen, hhit, hsync, callArm, harm, timerFree]

theorem vmiMonitorKernelLoaded_arming (h : Hooks) (v : Monitor) :
    ArmingStep h v (vmiMonitorKernelLoaded h v) := by
  rw [vmiMonitorKernelLoaded]
  split_ifs with hguard
  · exact .idle rfl rfl (.refl v) rfl
  · have hsync : v.vmiBootSyncOk = false := by
      by_contra hs
      simp [hs] at hguard
    have hhit : v.vmiFirstHitSeen = false := by
      by_contra hs
      simp [hs] at hguard
    cases harm : vmiArmOnce h v.kvm with
    | mk armed k =>
      simp only [callArm, harm]
      cases armed with
      | true =>
        exact .attempt .bootSync hhit hsync (by rw [harm]; rfl) rfl
          ⟨rfl, rfl, rfl, rfl, [], by simp [timerFree], by simp⟩
      | false =>
        exact .attempt .bootSync hhit hsync (by rw [harm]) rfl
          ⟨rfl, rfl, rfl, rfl, [], by simp, by simp⟩

theorem fwCfgDmaTransferEnd_arming (h : Hooks) (d : FwCfgDma) (v : Monitor) :
    ArmingStep h v (fwCfgDmaTransferEnd h d v) := by
  rw [fwCfgDmaTransferEnd]
  split_ifs
  · exact vmiMonitorKernelLoaded_arming h v
  · exact .idle rfl rfl (.refl v) rfl

/-- A stop of the machine makes no attempt. -/
lemma vmiVmStateChange_of_stopped {h : Hooks} {state : RunState} {v : Monitor} :
    vmiVmStateChange h false state v = v ∨
      vmiVmStateChange h false state v = v.callHook h .flush := by
  rw [vmiVmStateChange]
  simp only [Bool.not_false, Bool.true_and, Bool.true_or, ↓reduceIte]
  split_ifs
  · exact Or.inr rfl
  · exact Or.inl rfl

/-- A start of the machine makes an attempt unless a timer is there already. -/
lemma vmiVmStateChange_of_running {h : Hooks} {state : RunState} {v : Monitor}
    (hen : v.vmiEnabled = true) :
    vmiVmStateChange h true state v =
      match v.vmiArmTimer with
      | some _ => v
      | none => vmiTryArm h { v with vmiArmAttempts := 0, vmiArmTimer := some ⟨false⟩ } := by
  simp only [vmiVmStateChange, Bool.not_true, Bool.false_and, Bool.false_eq_true, ↓reduceIte,
    hen, Bool.or_self]

theorem vmiVmStateChange_arming (h : Hooks) (running : Bool) (state : RunState) {v : Monitor}
    (hen : v.vmiEnabled = true) : ArmingStep h v (vmiVmStateChange h running state v) := by
  cases running with
  | false =>
    rcases vmiVmStateChange_of_stopped (h := h) (v := v) with heq | heq
    · rw [heq]
      exact .idle rfl rfl (.refl v) rfl
    · rw [heq]
      exact .idle rfl rfl ⟨rfl, rfl, rfl, rfl, [.flush], rfl, by simp⟩ rfl
  | true =>
    rw [vmiVmStateChange_of_running hen]
    cases htimer : v.vmiArmTimer with
    | some t => exact .idle rfl rfl (.refl v) rfl
    | none =>
      rcases vmiTryArm_arming h { v with vmiArmAttempts := 0, vmiArmTimer := some ⟨false⟩ } with
        ⟨hkvm, harm, ⟨he, hs, ha, hf, hc⟩, hsync⟩ |
        ⟨tag, hhit, hsync, hkvm, harm, ⟨he, hs, ha, hf, hc⟩⟩
      · exact .idle hkvm harm ⟨he, hs, ha, hf, hc⟩ hsync
      · exact .attempt tag hhit hsync hkvm harm ⟨he, hs, ha, hf, hc⟩

/-! ### What the debug handlers do -/

/-- The call that a hit at `pc` makes. -/
def hookEvent (h : Hooks) (cs : ℕ) (env : CPUX86State) (tv : Timeval) (pc : UInt64) : HookEvent :=
  if h.IsRet pc then .ret cs env tv else .entry cs env tv

/-- A debug exit that is consumed is the step of a stepping vCPU, or a hit at a registered hook on
a vCPU in `VMI_NORMAL`; any other leaves the monitor as it is. -/
theorem kvmHandleDebug_cases (h : Hooks) (cs : ℕ) (env : CPUX86State) (tv : Timeval)
    (info : KvmDebugExitArch) (v : Monitor) :
    (info.exception = excp01Db ∧ v.vmiStateTable cs = .stepping ∧
      kvmHandleDebug h cs env tv info v = (.consumed, vmiMonitorStepComplete cs v)) ∨
    (info.exception ≠ excp01Db ∧ (v.kvm.swBreakpoints info.pc).isSome = true ∧
      h.IsHook info.pc ∧ v.vmiStateTable cs = .normal ∧
      kvmHandleDebug h cs env tv info v =
        (.consumed, vmiMonitorBreakpointHit h cs env tv info.pc v)) ∨
    ∃ r, r ≠ HandleDebug.consumed ∧ kvmHandleDebug h cs env tv info v = (r, v) := by
  rw [kvmHandleDebug, kvmFindSwBreakpoint]
  by_cases hdb : info.exception = excp01Db
  · rw [if_pos hdb]
    split_ifs with hbs hstep hsingle hhw
    · exact Or.inl ⟨hdb, hstep.2, rfl⟩
    · exact Or.inr (Or.inr ⟨_, by simp, rfl⟩)
    · exact Or.inr (Or.inr ⟨_, by simp, rfl⟩)
    · exact Or.inr (Or.inr ⟨_, by simp, rfl⟩)
    · exact Or.inr (Or.inr ⟨_, by simp, rfl⟩)
  · rw [if_neg hdb]
    split_ifs with hreg hhook
    · exact Or.inr (Or.inl ⟨hdb, hreg, hhook.1.2, hhook.2, rfl⟩)
    · exact Or.inr (Or.inr ⟨_, by simp, rfl⟩)
    · exact Or.inr (Or.inr ⟨_, by simp, rfl⟩)

/-- An `int3` is consumed exactly when its address is a registered hook and the vCPU is in
`VMI_NORMAL`. -/
lemma kvmHandleDebug_int3 {h : Hooks} {cs : ℕ} {env : CPUX86State} {tv : Timeval}
    {info : KvmDebugExitArch} {v : Monitor} (hen : v.vmiEnabled = true)
    (hint3 : info.exception = excp03Int3) (hhook : h.IsHook info.pc) :
    (kvmHandleDebug h cs env tv info v).1 = .consumed ↔
      (v.kvm.swBreakpoints info.pc).isSome = true ∧ v.vmiStateTable cs = .normal := by
  have hdb : info.exception ≠ excp01Db := by
    rw [hint3]
    decide
  simp only [kvmHandleDebug, hdb, ↓reduceIte, kvmFindSwBreakpoint, hen, hhook, and_self, true_and]
  split_ifs with hreg hnormal
  · exact ⟨fun _ => ⟨hreg, hnormal⟩, fun _ => rfl⟩
  · simp [hreg, hnormal]
  · simp [hreg]

/-- The single-step trap of a stepping vCPU ends its step. -/
lemma kvmHandleDebug_stepTrap (h : Hooks) {cs : ℕ} {v : Monitor} (hen : v.vmiEnabled = true)
    (hstate : v.vmiStateTable cs = .stepping) (env : CPUX86State) (tv : Timeval) (pc : UInt64) :
    kvmHandleDebug h cs env tv (stepTrap pc) v = (.consumed, vmiMonitorStepComplete cs v) := by
  have hdb : (stepTrap pc).exception = excp01Db := rfl
  have hbs : (stepTrap pc).dr6 &&& dr6Bs ≠ 0 := by
    have hdr6 : (stepTrap pc).dr6 = dr6Bs := rfl
    rw [hdr6]
    decide
  rw [kvmHandleDebug, if_pos hdb, if_pos hbs, if_pos ⟨hen, hstate⟩]

/-- The trap of an `int3` at a registered hook is a hit, on a vCPU in `VMI_NORMAL`. -/
lemma kvmHandleDebug_int3Trap {h : Hooks} {cs : ℕ} {v : Monitor} (hen : v.vmiEnabled = true)
    (hstate : v.vmiStateTable cs = .normal) {pc : UInt64} (hpc : h.IsHook pc)
    (hreg : (v.kvm.swBreakpoints pc).isSome = true) (env : CPUX86State) (tv : Timeval) :
    kvmHandleDebug h cs env tv (int3Trap pc) v
      = (.consumed, vmiMonitorBreakpointHit h cs env tv pc v) := by
  have hdb : (int3Trap pc).exception ≠ excp01Db := by
    have hexc : (int3Trap pc).exception = excp03Int3 := rfl
    rw [hexc]
    decide
  have hfind : (kvmFindSwBreakpoint v.kvm (int3Trap pc).pc).isSome = true := hreg
  have hhook : h.IsHook (int3Trap pc).pc := hpc
  rw [kvmHandleDebug, if_neg hdb, if_pos hfind, if_pos ⟨⟨hen, hhook⟩, hstate⟩]
  rfl

/-- A hit seen by the monitor: the flag is set, the timer goes, the capture is called. -/
def Monitor.noteHit (v : Monitor) (h : Hooks) (cs : ℕ) (env : CPUX86State) (tv : Timeval)
    (pc : UInt64) : Monitor :=
  { v with
    vmiFirstHitSeen := true
    vmiArmTimer := if v.vmiFirstHitSeen then v.vmiArmTimer else none
    capture := v.capture.handle h (hookEvent h cs env tv pc)
    hookCalls := v.hookCalls ++ [hookEvent h cs env tv pc] }

/-- A hit is noted, and unless the breakpoint cannot be removed the vCPU starts to step over it. -/
lemma vmiMonitorBreakpointHit_of_remove (h : Hooks) (cs : ℕ) (env : CPUX86State) (tv : Timeval)
    {pc : UInt64} {v : Monitor} {err : Option Errno} {s : Site} {f : List Bool}
    (heq : kvmRemoveBreakpoint pc v.kvm = (err, v.kvm.setSite pc s f)) :
    (err = none → vmiMonitorBreakpointHit h cs env tv pc v =
      { v.noteHit h cs env tv pc with
        kvm := cpuSingleStep cs 1 (v.kvm.setSite pc s f)
        vmiStepAddrTable := Function.update v.vmiStepAddrTable cs pc
        vmiStateTable := Function.update v.vmiStateTable cs .stepping }) ∧
    (err ≠ none → vmiMonitorBreakpointHit h cs env tv pc v =
      { v.noteHit h cs env tv pc with kvm := v.kvm.setSite pc s f }) := by
  constructor
  · rintro rfl
    cases hhit : v.vmiFirstHitSeen <;>
      simp only [vmiMonitorBreakpointHit, noteHit, hhit, Bool.false_eq_true, ↓reduceIte, callHook,
        timerFree, heq, setState, hookEvent]
  · intro herr
    obtain ⟨e, rfl⟩ := Option.ne_none_iff_exists'.mp herr
    cases hhit : v.vmiFirstHitSeen <;>
      simp only [vmiMonitorBreakpointHit, noteHit, hhit, Bool.false_eq_true, ↓reduceIte, callHook,
        timerFree, heq, hookEvent]

/-- The hit, for any registry. -/
theorem vmiMonitorBreakpointHit_spec (h : Hooks) (cs : ℕ) (env : CPUX86State) (tv : Timeval)
    (pc : UInt64) (v : Monitor) :
    ∃ err s f, RemoveAt (v.kvm.site pc) err s ∧ (v.kvm.faults = [] → err ≠ some .einval ∧ f = []) ∧
      (err = none → vmiMonitorBreakpointHit h cs env tv pc v =
        { v.noteHit h cs env tv pc with
          kvm := cpuSingleStep cs 1 (v.kvm.setSite pc s f)
          vmiStepAddrTable := Function.update v.vmiStepAddrTable cs pc
          vmiStateTable := Function.update v.vmiStateTable cs .stepping }) ∧
      (err ≠ none → vmiMonitorBreakpointHit h cs env tv pc v =
        { v.noteHit h cs env tv pc with kvm := v.kvm.setSite pc s f }) := by
  obtain ⟨err, s, f, hrem, heq, hclean⟩ := kvmRemoveBreakpoint_spec pc v.kvm
  exact ⟨err, s, f, hrem, hclean, vmiMonitorBreakpointHit_of_remove h cs env tv heq⟩

lemma vmiMonitorBreakpointHit_flags (h : Hooks) (cs : ℕ) (env : CPUX86State) (tv : Timeval)
    (pc : UInt64) (v : Monitor) :
    (vmiMonitorBreakpointHit h cs env tv pc v).vmiEnabled = v.vmiEnabled ∧
      (vmiMonitorBreakpointHit h cs env tv pc v).vmiFirstHitSeen = true := by
  obtain ⟨err, s, f, -, -, hnone, hsome⟩ := vmiMonitorBreakpointHit_spec h cs env tv pc v
  by_cases herr : err = none
  · rw [hnone herr]
    exact ⟨rfl, rfl⟩
  · rw [hsome herr]
    exact ⟨rfl, rfl⟩

/-- The end of a step: the breakpoint is inserted again if that is possible, and the vCPU is in
`VMI_NORMAL` in any case. -/
theorem vmiMonitorStepComplete_spec (cs : ℕ) (v : Monitor) :
    ∃ err s f, InsertAt (v.kvm.site (v.vmiStepAddrTable cs)) err s ∧
      (v.kvm.faults = [] → err = none ∧ f = []) ∧
      vmiMonitorStepComplete cs v =
        { v with
          kvm := (cpuSingleStep cs 0 v.kvm).setSite (v.vmiStepAddrTable cs) s f
          vmiStateTable := Function.update v.vmiStateTable cs .normal } := by
  obtain ⟨err, s, f, hins, heq, hclean⟩ :=
    kvmInsertBreakpoint_spec (v.vmiStepAddrTable cs) (cpuSingleStep cs 0 v.kvm)
  cases err with
  | some e =>
    refine ⟨some e, s, f, hins, hclean, ?_⟩
    simp only [vmiMonitorStepComplete, heq, setState]
  | none =>
    obtain ⟨r, f', -, hread, hclean'⟩ := cpuMemoryRead_spec (v.vmiStepAddrTable cs)
      ((cpuSingleStep cs 0 v.kvm).setSite (v.vmiStepAddrTable cs) s f)
    refine ⟨none, s, f', hins, fun hf => ⟨rfl, (hclean' (hclean hf).2).2⟩, ?_⟩
    simp only [vmiMonitorStepComplete, heq, hread, setState, ite_self]
    rfl

end SyscallMonitor
