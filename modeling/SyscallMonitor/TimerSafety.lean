import SyscallMonitor.Smp.System

/-!
# The timer while an attempt is suspended

On the main thread, the calls that `vmi_arm_once` makes reach `run_on_cpu`, which releases the BQL
until the vCPU has done the work. Meanwhile the handlers run on the vCPU threads, and two of them
free the timer that `vmi_try_arm` schedules again when it comes back.

`ArmPc` says where `vmi_arm_once` is suspended. Resumed without anything in between, its calls add
up to `vmi_arm_once` (`completes_vmiArmOnce`).
-/

namespace SyscallMonitor

open Lib Monitor

/-! ### `vmi_arm_once` call by call -/

/-- The two hooks. -/
inductive Hook where
  | entry
  | ret
  deriving DecidableEq

def Hook.addr (h : Hooks) : Hook → UInt64
  | .entry => h.vmiAddr
  | .ret   => h.vmiRetAddr

/-- The next call that `vmi_arm_once` makes. -/
inductive ArmPc where
  /-- The removal, the insertion and the readback of `vmi_arm_addr`. -/
  | remove (hook : Hook)
  | insert (hook : Hook)
  | readback (hook : Hook)
  /-- The removal after a readback that failed, or did not show `0xcc`. -/
  | withdraw (hook : Hook)
  /-- The removal of the entry hook after the return hook could not be armed. -/
  | undo
  deriving DecidableEq

/-- Where `vmi_arm_once` is: before a call, or at its end. -/
inductive ArmControl where
  | before (pc : ArmPc)
  | returned (armed : Bool)
  deriving DecidableEq

namespace ArmControl

/-- `vmi_arm_once` after `vmi_arm_addr` has returned `true`. -/
def armed (h : Hooks) : Hook → ArmControl
  | .entry => if h.vmiRetAddr ≠ 0 then .before (.remove .ret) else .returned true
  | .ret   => .returned true

/-- `vmi_arm_once` after `vmi_arm_addr` has returned `false`. -/
def failed : Hook → ArmControl
  | .entry => .returned false
  | .ret   => .before .undo

end ArmControl

/-- One call. -/
def ArmPc.call (h : Hooks) (k : Kvm) : ArmPc → ArmControl × Kvm
  | .remove hook => (.before (.insert hook), (kvmRemoveBreakpoint (hook.addr h) k).2)
  | .insert hook =>
    match kvmInsertBreakpoint (hook.addr h) k with
    | (some _, k) => (.failed hook, k)
    | (none, k)   => (.before (.readback hook), k)
  | .readback hook =>
    match cpuMemoryRead (hook.addr h) k with
    | (none, k) => (.before (.withdraw hook), k)
    | (some b, k) =>
      if b ≠ int3 then (.before (.withdraw hook), k) else (.armed h hook, k)
  | .withdraw hook => (.failed hook, (kvmRemoveBreakpoint (hook.addr h) k).2)
  | .undo => (.returned false, (kvmRemoveBreakpoint h.vmiAddr k).2)

/-- Call by call, `vmi_arm_once` comes to an end. -/
inductive Completes (h : Hooks) : ArmControl → Kvm → Bool → Kvm → Prop where
  | returned (ok : Bool) (k : Kvm) : Completes h (.returned ok) k ok k
  | call {pc : ArmPc} {k k' : Kvm} {ok : Bool}
      (hrest : Completes h (pc.call h k).1 (pc.call h k).2 ok k') : Completes h (.before pc) k ok k'

/-- The calls of `vmi_arm_addr`. -/
lemma completes_vmiArmAddr {h : Hooks} {hook : Hook} {k k' : Kvm} {ok : Bool}
    (hrest : Completes h
      (if (vmiArmAddr (hook.addr h) k).1 then .armed h hook else .failed hook)
      (vmiArmAddr (hook.addr h) k).2 ok k') :
    Completes h (.before (.remove hook)) k ok k' := by
  apply Completes.call
  apply Completes.call
  rw [vmiArmAddr] at hrest
  simp only [ArmPc.call]
  cases hins : kvmInsertBreakpoint (hook.addr h) (kvmRemoveBreakpoint (hook.addr h) k).2 with
  | mk err k₁ =>
    cases err with
    | some e => simpa [hins] using hrest
    | none =>
      apply Completes.call
      simp only [ArmPc.call]
      cases hread : cpuMemoryRead (hook.addr h) k₁ with
      | mk r k₂ =>
        cases r with
        | none =>
          apply Completes.call
          simpa [hins, hread, ArmPc.call] using hrest
        | some b =>
          by_cases hb : b = int3
          · simpa [hins, hread, hb] using hrest
          · simp only [hb, ne_eq, not_false_eq_true, ↓reduceIte]
            apply Completes.call
            simpa [hins, hread, hb, ArmPc.call] using hrest

/-- Undisturbed, the calls add up to `vmi_arm_once`. -/
theorem completes_vmiArmOnce (h : Hooks) (k : Kvm) :
    Completes h (.before (.remove .entry)) k (vmiArmOnce h k).1 (vmiArmOnce h k).2 := by
  apply completes_vmiArmAddr
  rw [vmiArmOnce]
  cases hentry : vmiArmAddr h.vmiAddr k with
  | mk ok k₁ =>
    cases ok with
    | false => simpa [Hook.addr, hentry, ArmControl.failed] using Completes.returned false k₁
    | true =>
      by_cases hret : h.vmiRetAddr = 0
      · simpa [Hook.addr, hentry, ArmControl.armed, hret] using Completes.returned true k₁
      · simp only [Hook.addr, hentry, ↓reduceIte, ArmControl.armed, ne_eq, hret, not_false_eq_true]
        apply completes_vmiArmAddr
        cases hret' : vmiArmAddr h.vmiRetAddr k₁ with
        | mk ok k₂ =>
          cases ok with
          | true => simpa [Hook.addr, hret', ArmControl.armed] using Completes.returned true k₂
          | false =>
            simp only [Hook.addr, hret', Bool.false_eq_true, ↓reduceIte, ArmControl.failed]
            apply Completes.call
            exact Completes.returned ..

/-! ### The main thread and the vCPU threads -/

/-- `vmi_vm_state_change` up to its call of `vmi_try_arm`; `false` if there is none. -/
def vmiVmStateChangeBegin (h : Hooks) (running : Bool) (state : RunState) (v : Monitor) :
    Bool × Monitor :=
  let v :=
    if !running && v.vmiEnabled && state = .shutdown then v.callHook h .flush else v
  if !running || !v.vmiEnabled then (false, v)
  else
    match v.vmiArmTimer with
    | some _ => (false, v)
    | none   => (true, { v with vmiArmAttempts := 0, vmiArmTimer := some ⟨false⟩ })

lemma vmiVmStateChange_eq (h : Hooks) (running : Bool) (state : RunState) (v : Monitor) :
    vmiVmStateChange h running state v =
      match vmiVmStateChangeBegin h running state v with
      | (true, v)  => vmiTryArm h v
      | (false, v) => v := by
  simp only [vmiVmStateChange, vmiVmStateChangeBegin]
  generalize (if (!running && v.vmiEnabled && decide (state = .shutdown)) = true
    then v.callHook h .flush else v) = v₁
  by_cases hguard : (!running || !v₁.vmiEnabled) = true
  · simp [hguard]
  · cases v₁.vmiArmTimer <;> simp [hguard]

/-- What runs on a vCPU thread. -/
def SmpEvent.onVcpu : SmpEvent → Bool
  | .timerExpiry _ => false
  | .vmStateChange .. => false
  | _ => true

/-- The machine, and where `vmi_try_arm` is suspended in `vmi_arm_once`. -/
structure Threads where
  smp : Smp
  main : Option ArmPc

/-- A step of a vCPU thread, or of the main thread; `faults` are the memory accesses that fail in
the call. -/
inductive ThreadEvent where
  | vcpu (e : SmpEvent)
  | timerExpiry
  | vmStateChange (running : Bool) (state : RunState)
  | resume (faults : List Bool)

namespace Threads

/-- `vmi_try_arm` up to the first call of `vmi_arm_once`. -/
def tryArm (s : Threads) (v : Monitor) : Threads :=
  match vmiTryArmBegin v with
  | (false, v) => ⟨s.smp.setVmi v, none⟩
  | (true, v)  =>
    ⟨s.smp.setVmi { v with armCalls := v.armCalls ++ [⟨.arm, v.vmiStateTable⟩] },
      some (.remove .entry)⟩

/-- One step. The main thread handles an expiry or a notification only when it is back from
`vmi_try_arm`; the vCPU threads run at any time. -/
def step (h : Hooks) (s : Threads) : ThreadEvent → Option Threads
  | .vcpu e => if e.onVcpu then (s.smp.step h e).map fun smp => ⟨smp, s.main⟩ else none
  | .timerExpiry =>
    if s.main = none ∧ s.smp.vmi.vmiArmTimer = some ⟨true⟩ then
      some (s.tryArm { s.smp.vmi with vmiArmTimer := some ⟨false⟩ })
    else none
  | .vmStateChange running state =>
    if s.main = none then
      match vmiVmStateChangeBegin h running state s.smp.vmi with
      | (true, v)  => some (s.tryArm v)
      | (false, v) => some ⟨s.smp.setVmi v, none⟩
    else none
  | .resume faults =>
    match s.main with
    | none => none
    | some pc =>
      match pc.call h { s.smp.vmi.kvm with faults := faults } with
      | (.before pc, k) => some ⟨s.smp.setVmi { s.smp.vmi with kvm := k }, some pc⟩
      | (.returned armed, k) =>
        some ⟨s.smp.setVmi (vmiTryArmEnd armed { s.smp.vmi with kvm := k }), none⟩

variable {h : Hooks} {s s' : Threads}

/-! ### Without interleaving -/

lemma setVmi_of_hookCalls {s : Smp} {v : Monitor} (hcalls : v.hookCalls = s.vmi.hookCalls) :
    s.setVmi v = { s with vmi := v } := by
  simp [Smp.setVmi, hcalls]

/-- A call with the failures that were to come anyway. -/
lemma step_resume {pc : ArmPc} (hmain : s.main = some pc) :
    s.step h (.resume s.smp.vmi.kvm.faults) =
      match pc.call h s.smp.vmi.kvm with
      | (.before pc, k) => some ⟨{ s.smp with vmi.kvm := k }, some pc⟩
      | (.returned armed, k) =>
        some ⟨s.smp.setVmi (vmiTryArmEnd armed { s.smp.vmi with kvm := k }), none⟩ := by
  simp only [step, hmain]
  cases hcall : pc.call h s.smp.vmi.kvm with
  | mk c k =>
    cases c with
    | before pc' =>
      exact congrArg (fun smp => some (Threads.mk smp (some pc'))) (setVmi_of_hookCalls rfl)
    | returned armed => rfl

/-- Resumed without anything in between, an attempt goes on to its end. -/
theorem run_resume {c : ArmControl} {k k' : Kvm} {armed : Bool} (hrest : Completes h c k armed k') :
    ∀ {s : Threads} {pc : ArmPc}, c = .before pc → s.main = some pc → s.smp.vmi.kvm = k →
      ∃ fs : List (List Bool), run (step h) s (fs.map .resume)
        = some ⟨s.smp.setVmi (vmiTryArmEnd armed { s.smp.vmi with kvm := k' }), none⟩ := by
  induction hrest with
  | returned armed k =>
    intro s pc hc
    cases hc
  | @call pc' k k' armed hrest ih =>
    intro s pc hc hmain hk
    cases hc
    subst hk
    have hstep := step_resume (h := h) hmain
    cases hcall : pc'.call h s.smp.vmi.kvm with
    | mk c k₁ =>
      rw [hcall] at hstep ih hrest
      cases c with
      | returned ok =>
        cases hrest with
        | returned _ _ => exact ⟨[s.smp.vmi.kvm.faults], by simp [hstep]⟩
      | before next =>
        obtain ⟨fs, hfs⟩ := ih (s := ⟨{ s.smp with vmi.kvm := k₁ }, some next⟩) rfl rfl rfl
        refine ⟨s.smp.vmi.kvm.faults :: fs, ?_⟩
        rw [List.map_cons, run_cons, hstep]
        exact hfs

/-- An attempt without interleaving is `vmi_try_arm`. -/
theorem tryArm_uninterrupted {v : Monitor} (hcalls : v.hookCalls = s.smp.vmi.hookCalls) :
    ∃ fs : List (List Bool), run (step h) (s.tryArm v) (fs.map .resume)
      = some ⟨s.smp.setVmi (vmiTryArm h v), none⟩ := by
  rw [tryArm, vmiTryArm]
  cases hbegin : vmiTryArmBegin v with
  | mk attempt v₁ =>
    cases attempt with
    | false => exact ⟨[], rfl⟩
    | true =>
      have hcalls₁ : v₁.hookCalls = s.smp.vmi.hookCalls := by
        rw [vmiTryArmBegin] at hbegin
        split_ifs at hbegin
        · cases hbegin
        · cases hbegin
          exact hcalls
      obtain ⟨fs, hfs⟩ := run_resume (completes_vmiArmOnce h v₁.kvm)
        (s := ⟨s.smp.setVmi { v₁ with
          armCalls := v₁.armCalls ++ [⟨.arm, v₁.vmiStateTable⟩] }, some (.remove .entry)⟩)
        rfl rfl rfl
      refine ⟨fs, hfs.trans ?_⟩
      simp [callArm, Smp.setVmi, hcalls₁]

/-! ### The timer -/

/-- The timer has been freed exactly if one of the flags is set. -/
def FreedByFlag (v : Monitor) : Prop :=
  v.vmiArmTimer = none ↔ v.vmiFirstHitSeen = true ∨ v.vmiBootSyncOk = true

lemma FreedByFlag.timer_ne_none_iff {v : Monitor} (hfreed : FreedByFlag v) :
    v.vmiArmTimer ≠ none ↔ v.vmiFirstHitSeen = false ∧ v.vmiBootSyncOk = false := by
  have hflags : v.vmiArmTimer = none ↔ v.vmiFirstHitSeen = true ∨ v.vmiBootSyncOk = true := hfreed
  rw [ne_eq, hflags, not_or, Bool.not_eq_true, Bool.not_eq_true]

/-- The timer is left alone, or freed together with setting a flag. -/
structure TimerStep (v v' : Monitor) : Prop where
  timerModNull : v'.timerModNull = v.timerModNull
  freed : FreedByFlag v → FreedByFlag v'

lemma timerStep_of_eq {v v' : Monitor} (hnull : v'.timerModNull = v.timerModNull)
    (htimer : v'.vmiArmTimer = v.vmiArmTimer) (hhit : v'.vmiFirstHitSeen = v.vmiFirstHitSeen)
    (hsync : v'.vmiBootSyncOk = v.vmiBootSyncOk) : TimerStep v v' := by
  refine ⟨hnull, fun hfreed => ?_⟩
  rw [FreedByFlag, htimer, hhit, hsync]
  exact hfreed

/-- The first hit sets its flag and frees the timer. -/
lemma timerStep_noteHit (v : Monitor) (cs : ℕ) (env : CPUX86State) (tv : Timeval) (pc : UInt64) :
    TimerStep v (v.noteHit h cs env tv pc) := by
  refine ⟨rfl, fun hfreed => ?_⟩
  cases hhit : v.vmiFirstHitSeen with
  | false => simp [FreedByFlag, noteHit, hhit]
  | true => simpa [FreedByFlag, noteHit, hhit] using hfreed

lemma timerStep_vmiMonitorBreakpointHit (v : Monitor) (cs : ℕ) (env : CPUX86State) (tv : Timeval)
    (pc : UInt64) : TimerStep v (vmiMonitorBreakpointHit h cs env tv pc v) := by
  obtain ⟨err, site, f, -, -, hnone, hsome⟩ := vmiMonitorBreakpointHit_spec h cs env tv pc v
  have hnote := timerStep_noteHit (h := h) v cs env tv pc
  by_cases herr : err = none
  · rw [hnone herr]
    exact ⟨hnote.timerModNull, hnote.freed⟩
  · rw [hsome herr]
    exact ⟨hnote.timerModNull, hnote.freed⟩

lemma timerStep_vmiMonitorStepComplete (v : Monitor) (cs : ℕ) :
    TimerStep v (vmiMonitorStepComplete cs v) := by
  obtain ⟨err, site, f, -, -, hv⟩ := vmiMonitorStepComplete_spec cs v
  rw [hv]
  exact timerStep_of_eq rfl rfl rfl rfl

/-- A successful transfer sets its flag and frees the timer. -/
lemma timerStep_vmiMonitorKernelLoaded (v : Monitor) :
    TimerStep v (vmiMonitorKernelLoaded h v) := by
  rw [vmiMonitorKernelLoaded]
  split_ifs
  · exact timerStep_of_eq rfl rfl rfl rfl
  · cases harm : vmiArmOnce h v.kvm with
    | mk armed k =>
      simp only [callArm, harm]
      cases armed with
      | true => exact ⟨rfl, fun _ => by simp [FreedByFlag, timerFree]⟩
      | false => exact timerStep_of_eq rfl rfl rfl rfl

/-- On the vCPU threads the timer is freed only together with setting a flag. -/
theorem timerStep_vcpu {s s' : Smp} {e : SmpEvent} (hvcpu : e.onVcpu = true)
    (hstep : s.step h e = some s') : TimerStep s.vmi s'.vmi := by
  cases e with
  | retire cs env mem resume =>
    obtain ⟨-, rfl⟩ := Smp.step_retire hstep
    refine timerStep_of_eq ?_ ?_ ?_ ?_ <;> simp [Smp.setCpu, Smp.setMem]
  | interrupt cs env =>
    obtain ⟨-, rfl⟩ := Smp.step_interrupt hstep
    exact timerStep_of_eq rfl rfl rfl rfl
  | fetchInt3 cs =>
    obtain ⟨-, rfl⟩ := Smp.step_fetchInt3 hstep
    exact timerStep_of_eq rfl rfl rfl rfl
  | debugExit cs tv faults =>
    obtain ⟨info, outcome, v, -, hhandle, rfl⟩ := Smp.step_debugExit hstep
    rcases kvmHandleDebug_cases h cs (s.cpus cs).env tv info (s.setFaults faults).vmi with
      ⟨-, -, heq⟩ | ⟨-, -, -, -, heq⟩ | ⟨r, -, heq⟩
    · obtain ⟨-, rfl⟩ := Prod.mk.inj (hhandle.symm.trans heq)
      have hcomplete := timerStep_vmiMonitorStepComplete (s.setFaults faults).vmi cs
      exact ⟨hcomplete.timerModNull, hcomplete.freed⟩
    · obtain ⟨-, rfl⟩ := Prod.mk.inj (hhandle.symm.trans heq)
      have hhit := timerStep_vmiMonitorBreakpointHit (h := h) (s.setFaults faults).vmi cs
        (s.cpus cs).env tv info.pc
      exact ⟨hhit.timerModNull, hhit.freed⟩
    · obtain ⟨-, rfl⟩ := Prod.mk.inj (hhandle.symm.trans heq)
      exact timerStep_of_eq rfl rfl rfl rfl
  | timerExpiry faults => cases hvcpu
  | vmStateChange running state faults => cases hvcpu
  | fwCfgDma d mem faults =>
    obtain rfl := Option.some.inj hstep
    have hloaded := timerStep_vmiMonitorKernelLoaded (h := h) ((s.setMem mem).setFaults faults).vmi
    simp only [Smp.setVmi, fwCfgDmaTransferEnd]
    split_ifs
    · exact ⟨hloaded.timerModNull, hloaded.freed⟩
    · exact timerStep_of_eq rfl rfl rfl rfl
  | overwrite mem =>
    obtain rfl := Option.some.inj hstep
    exact timerStep_of_eq rfl rfl rfl rfl

/-- While an attempt is suspended, the timer is there unless a flag has been set in the meantime. -/
def TimerKept (s : Threads) : Prop := ∀ pc, s.main = some pc → FreedByFlag s.smp.vmi

/-- When `vmi_arm_once` returns to `vmi_try_arm`, neither flag has been set, or it was the last
attempt. -/
def ReturnsUnflagged (h : Hooks) (s : Threads) : ThreadEvent → Prop
  | .resume faults => ∀ pc armed k, s.main = some pc →
      pc.call h { s.smp.vmi.kvm with faults := faults } = (.returned armed, k) →
      (s.smp.vmi.vmiFirstHitSeen = false ∧ s.smp.vmi.vmiBootSyncOk = false) ∨
        s.smp.vmi.vmiArmAttempts ≥ vmiArmMaxAttempts
  | _ => True

lemma timerKept_of_idle (hmain : s.main = none) : TimerKept s := by
  intro pc hpc
  rw [hmain] at hpc
  cases hpc

/-- An attempt starts with a timer and without flags. -/
lemma tryArm_spec {v : Monitor} (htimer : v.vmiArmTimer ≠ none) :
    TimerKept (s.tryArm v) ∧ (s.tryArm v).smp.vmi.timerModNull = v.timerModNull := by
  rw [tryArm, vmiTryArmBegin]
  by_cases hflag : (v.vmiFirstHitSeen || v.vmiBootSyncOk) = true
  · simp only [hflag, ↓reduceIte]
    exact ⟨timerKept_of_idle rfl, rfl⟩
  · simp only [hflag]
    refine ⟨fun pc _ => ?_, rfl⟩
    simpa [FreedByFlag, Smp.setVmi, htimer] using hflag

lemma vmiVmStateChangeBegin_spec (h : Hooks) (running : Bool) (state : RunState) (v : Monitor) :
    (vmiVmStateChangeBegin h running state v).2.timerModNull = v.timerModNull ∧
      ((vmiVmStateChangeBegin h running state v).1 = true →
        (vmiVmStateChangeBegin h running state v).2.vmiArmTimer ≠ none) := by
  rw [vmiVmStateChangeBegin]
  generalize hv₁ : (if (!running && v.vmiEnabled && decide (state = .shutdown)) = true
    then v.callHook h .flush else v) = v₁
  have hnull : v₁.timerModNull = v.timerModNull := by
    rw [← hv₁]
    split_ifs <;> rfl
  by_cases hguard : (!running || !v₁.vmiEnabled) = true
  · simp [hguard, hnull]
  · cases v₁.vmiArmTimer <;> simp [hguard, hnull]

/-- `timer_mod` dereferences its timer at the end of an attempt unless it is the last one. -/
lemma vmiTryArmEnd_timerModNull (armed : Bool) (v : Monitor) :
    (vmiTryArmEnd armed v).timerModNull = false ↔ v.timerModNull = false ∧
      (v.vmiArmTimer ≠ none ∨ v.vmiArmAttempts ≥ vmiArmMaxAttempts) := by
  rw [vmiTryArmEnd_eq]
  split_ifs with hlast
  · simp [timerFree, hlast]
  · cases htimer : v.vmiArmTimer <;> simp [timerMod, htimer, hlast]

/-- What is asked of a return does not depend on which one it is. -/
lemma returnsUnflagged_of_returned {pc : ArmPc} {faults : List Bool} {armed : Bool} {k : Kvm}
    (hmain : s.main = some pc)
    (hcall : pc.call h { s.smp.vmi.kvm with faults := faults } = (.returned armed, k)) :
    ReturnsUnflagged h s (.resume faults) ↔
      (s.smp.vmi.vmiFirstHitSeen = false ∧ s.smp.vmi.vmiBootSyncOk = false) ∨
        s.smp.vmi.vmiArmAttempts ≥ vmiArmMaxAttempts :=
  ⟨fun hret => hret pc armed k hmain hcall, fun hflags _ _ _ _ _ => hflags⟩

/-- One step: the timer is kept, and `timer_mod` is called on `NULL` exactly if `vmi_arm_once`
returns to a flag that has been set. -/
theorem timerKept_step {e : ThreadEvent} (hs : TimerKept s) (hstep : s.step h e = some s') :
    TimerKept s' ∧ (s'.smp.vmi.timerModNull = false ↔
      s.smp.vmi.timerModNull = false ∧ ReturnsUnflagged h s e) := by
  cases e with
  | vcpu e =>
    simp only [step, Option.ite_none_right_eq_some, Option.map_eq_some_iff] at hstep
    obtain ⟨hvcpu, smp, hsmp, rfl⟩ := hstep
    have htimer := timerStep_vcpu hvcpu hsmp
    refine ⟨fun pc hpc => htimer.freed (hs pc hpc), ?_⟩
    rw [htimer.timerModNull]
    exact (and_iff_left trivial).symm
  | timerExpiry =>
    simp only [step, Option.ite_none_right_eq_some, Option.some.injEq] at hstep
    obtain ⟨-, rfl⟩ := hstep
    obtain ⟨hkept, hnull⟩ := tryArm_spec (s := s)
      (v := { s.smp.vmi with vmiArmTimer := some ⟨false⟩ }) (by simp)
    refine ⟨hkept, ?_⟩
    rw [hnull]
    exact (and_iff_left trivial).symm
  | vmStateChange running state =>
    obtain ⟨hnull, htimer⟩ := vmiVmStateChangeBegin_spec h running state s.smp.vmi
    simp only [step, Option.ite_none_right_eq_some] at hstep
    obtain ⟨-, hstep⟩ := hstep
    cases hbegin : vmiVmStateChangeBegin h running state s.smp.vmi with
    | mk attempt v =>
      rw [hbegin] at hstep hnull htimer
      cases attempt with
      | true =>
        obtain rfl := Option.some.inj hstep
        obtain ⟨hkept, hnull'⟩ := tryArm_spec (s := s) (htimer rfl)
        refine ⟨hkept, ?_⟩
        rw [hnull', hnull]
        exact (and_iff_left trivial).symm
      | false =>
        obtain rfl := Option.some.inj hstep
        refine ⟨timerKept_of_idle rfl, ?_⟩
        rw [← hnull]
        exact (and_iff_left trivial).symm
  | resume faults =>
    simp only [step] at hstep
    cases hmain : s.main with
    | none => simp [hmain] at hstep
    | some pc =>
      have hfreed := hs pc hmain
      cases hcall : pc.call h { s.smp.vmi.kvm with faults := faults } with
      | mk c k =>
        simp only [hmain, hcall] at hstep
        cases c with
        | before pc' =>
          obtain rfl := Option.some.inj hstep
          refine ⟨fun _ _ => hfreed, (and_iff_left ?_).symm⟩
          intro pc₁ armed k₁ hpc₁ hcall₁
          cases hmain.symm.trans hpc₁
          cases hcall.symm.trans hcall₁
        | returned armed =>
          obtain rfl := Option.some.inj hstep
          refine ⟨timerKept_of_idle rfl, ?_⟩
          rw [returnsUnflagged_of_returned hmain hcall, ← hfreed.timer_ne_none_iff]
          exact vmiTryArmEnd_timerModNull armed { s.smp.vmi with kvm := k }

/-- The threads when QEMU has started. -/
def powerOn (k : Kvm) (env : ℕ → CPUX86State) : Threads := ⟨.powerOn k env, none⟩

end Threads

/-- **Timer safety.** In every interleaving of the main thread with the vCPU threads, `vmi_try_arm`
never calls `timer_mod` on `NULL` if and only if, whenever `vmi_arm_once` returns to it, neither
`vmi_first_hit_seen` nor `vmi_boot_sync_ok` has been set while it was suspended, or the attempt was
the last one. -/
theorem threads_timer_iff (h : Hooks) (k : Kvm) (env : ℕ → CPUX86State) (es : List ThreadEvent)
    (s : Threads) (hrun : run (Threads.step h) (.powerOn k env) es = some s) :
    s.smp.vmi.timerModNull = false ↔
      Along (Threads.step h) (Threads.ReturnsUnflagged h) (.powerOn k env) es := by
  have hkept : Threads.TimerKept (.powerOn k env) := Threads.timerKept_of_idle rfl
  apply (Along.flag_iff (fun s => s.smp.vmi.timerModNull)
    (fun _ _ _ => Threads.timerKept_step) hkept hrun).trans
  exact and_iff_right rfl

/-- A first attempt without interleaving. -/
theorem nginx_threads_timer_iff :
    Along (Threads.step nginxHooks) (Threads.ReturnsUnflagged nginxHooks) ⟨nginxPowerOn, none⟩
      (.vmStateChange true .running :: List.replicate 6 (.resume [])) :=
  (threads_timer_iff nginxHooks nginxKvm (fun _ => ⟨fun _ => 0, 0x101000⟩) _ _ rfl).mp rfl

/-- The main thread is suspended in its first attempt while a vCPU runs into the entry hook, or
while the transfer of the kernel image completes: the timer is freed, and `vmi_try_arm` calls
`timer_mod` on `NULL`. -/
theorem timer_mod_null :
    ¬ ∃ es ∈ [
        [.vmStateChange true .running, .resume [], .resume [], .vcpu (.fetchInt3 0),
          .vcpu (.debugExit 0 ⟨0, 0⟩ []), .resume [], .resume []],
        .vmStateChange true .running :: .vcpu (.fwCfgDma kernelImage (fun _ => 0xfa) []) ::
          List.replicate 6 (.resume [])],
      ∀ s, run (Threads.step nginxHooks) ⟨nginxPowerOn, none⟩ es = some s →
        s.smp.vmi.timerModNull = false := by
  simp only [List.mem_cons, List.not_mem_nil, or_false]
  rintro ⟨es, rfl | rfl, hall⟩
  · cases hall _ rfl
  · cases hall _ rfl

end SyscallMonitor
