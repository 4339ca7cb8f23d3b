import SyscallMonitor.Smp.StepOver

/-!
# Which traps the monitor consumes

A trap is taken at one moment and classified at a later one. By then another vCPU may be stepping
over the hook, so that the breakpoint is gone, or the vCPU itself may be stepping over the other
hook. `Consumed` says that the monitor claims the trap, `HookFree` that neither is the case.
-/

namespace SyscallMonitor

open Lib Monitor

namespace Smp

variable {h : Hooks} {s s' : Smp} {e : SmpEvent}

/-- The debug exits still to be handled are of an `int3` at a hook, or of a single step. -/
def TrapsAtPc (h : Hooks) (s : Smp) : Prop :=
  ∀ cs info, (s.cpus cs).trap = some info →
    (info = int3Trap (s.cpus cs).env.eip ∧ h.IsHook (s.cpus cs).env.eip) ∨
      info = stepTrap (s.cpus cs).env.eip

lemma ArmedStart.trapsAtPc (hs : ArmedStart h s) : TrapsAtPc h s :=
  fun cs info htrap => Or.inl (hs.traps cs info htrap)

/-- A vCPU that changes keeps its own debug exit in order; the others are untouched. -/
lemma TrapsAtPc.setCpu (hs : TrapsAtPc h s) {cs : ℕ} {c : VCpu}
    (hc : ∀ info, c.trap = some info → (info = int3Trap c.env.eip ∧ h.IsHook c.env.eip) ∨
      info = stepTrap c.env.eip) : TrapsAtPc h (s.setCpu cs c) := by
  intro cs' info htrap
  by_cases hcs : cs' = cs
  · subst hcs
    simp only [Smp.setCpu, Function.update_self] at htrap ⊢
    exact hc info htrap
  · simp only [Smp.setCpu, Function.update_of_ne hcs] at htrap ⊢
    exact hs cs' info htrap

theorem trapsAtPc_step (hs : TrapsAtPc h s) (hstep : s.step h e = some s') : TrapsAtPc h s' := by
  cases e with
  | retire cs env mem resume =>
    obtain ⟨-, rfl⟩ := step_retire hstep
    have hrec : TrapsAtPc h ((s.recordExec h cs).setMem mem) := by
      simpa [TrapsAtPc, setMem] using hs
    apply hrec.setCpu
    intro info htrap
    split_ifs at htrap
    exact Or.inr (Option.some.inj htrap).symm
  | interrupt cs env =>
    obtain ⟨hnone, rfl⟩ := step_interrupt hstep
    apply hs.setCpu
    intro info htrap
    rw [hnone] at htrap
    cases htrap
  | fetchInt3 cs =>
    obtain ⟨⟨-, hplanted⟩, rfl⟩ := step_fetchInt3 hstep
    apply hs.setCpu
    intro info htrap
    exact Or.inl ⟨(Option.some.inj htrap).symm, hplanted.1⟩
  | debugExit cs tv faults =>
    obtain ⟨info, outcome, v, -, -, rfl⟩ := step_debugExit hstep
    apply TrapsAtPc.setCpu (s := s.setVmi v) hs
    intro info' htrap
    cases htrap
  | timerExpiry faults =>
    obtain ⟨-, rfl⟩ := step_timerExpiry hstep
    exact hs
  | vmStateChange running state faults =>
    obtain rfl := Option.some.inj hstep
    exact hs
  | fwCfgDma d mem faults =>
    obtain rfl := Option.some.inj hstep
    exact hs
  | overwrite mem =>
    obtain rfl := Option.some.inj hstep
    exact hs

/-- What every step without failures keeps: the step-over invariant, and that the debug exits still
to be handled are in order. -/
structure Consistent (h : Hooks) (H : HookSites) (s : Smp) : Prop where
  stepOver : StepOver h H s.vmi
  traps : TrapsAtPc h s

lemma ArmedStart.consistent (hs : ArmedStart h s) : Consistent h .registry s :=
  ⟨hs.stepOver fun _ _ => ⟨_, rfl⟩, hs.trapsAtPc⟩

lemma Consistent.step (s : Smp) (e : SmpEvent) (s' : Smp) (hs : Consistent h .registry s)
    (hf : s.NoFaults e) (hstep : s.step h e = some s') : Consistent h .registry s' :=
  ⟨stepOver_step hs.stepOver hf (respects_registry s e) hstep, trapsAtPc_step hs.traps hstep⟩

/-- If the debug exit of an `int3` is handled here, the monitor consumes it: `kvm_handle_debug`
neither returns `EXCP_DEBUG` nor injects the exception into the guest. -/
def Consumed (h : Hooks) (s : Smp) : SmpEvent → Prop
  | .debugExit cs tv faults => ∀ info, (s.cpus cs).trap = some info →
      info.exception = excp03Int3 → ((s.setFaults faults).handleDebug h cs tv info).1 = .consumed
  | _ => True

/-- If the debug exit of an `int3` is handled here, its vCPU is in `VMI_NORMAL` and nobody is being
stepped over the hook. -/
def HookFree (s : Smp) : SmpEvent → Prop
  | .debugExit cs _ _ => ∀ info, (s.cpus cs).trap = some info → info.exception = excp03Int3 →
      s.vmi.vmiStateTable cs = .normal ∧ ∀ cs', ¬ s.vmi.SteppingOver cs' info.pc
  | _ => True

/-- At one step, the trap is consumed exactly when the hook is free and the vCPU is. -/
lemma Consistent.consumed_iff {H : HookSites} (hs : Consistent h H s) (e : SmpEvent) :
    Consumed h s e ↔ HookFree s e := by
  cases e with
  | debugExit cs tv faults =>
    refine forall_congr' fun info => forall_congr' fun htrap => forall_congr' fun hint3 => ?_
    have hhook : h.IsHook info.pc := by
      rcases hs.traps cs info htrap with ⟨rfl, hhook⟩ | rfl
      · exact hhook
      · cases hint3
    have hfree := hs.stepOver.registered_iff hhook
    rw [handleDebug, kvmHandleDebug_int3 (v := (s.setFaults faults).vmi) hs.stepOver.enabled hint3
      hhook, ← hfree]
    exact And.comm
  | retire _ _ _ _ => exact Iff.rfl
  | interrupt _ _ => exact Iff.rfl
  | fetchInt3 _ => exact Iff.rfl
  | timerExpiry _ => exact Iff.rfl
  | vmStateChange _ _ _ => exact Iff.rfl
  | fwCfgDma _ _ _ => exact Iff.rfl
  | overwrite _ => exact Iff.rfl

end Smp

/-- **Traps.** In a run from an armed machine in which no call fails, every planted `int3` is
consumed if and only if, whenever one is handled, its vCPU is in `VMI_NORMAL` and no vCPU is being
stepped over its hook. -/
theorem smp_consumed_iff (h : Hooks) (s₀ : Smp) (es : List SmpEvent) (hstart : s₀.ArmedStart h)
    (hclean : Along (Smp.step h) Smp.NoFaults s₀ es) :
    Along (Smp.step h) (Smp.Consumed h) s₀ es ↔ Along (Smp.step h) Smp.HookFree s₀ es :=
  Along.congr Smp.Consistent.step (fun _ e hs _ => hs.consumed_iff e) hstart.consistent hclean

/-- `smp_consumed_iff` on a run in which one vCPU runs into the entry hook. -/
theorem nginx_smp_consumed_iff :
    Along (Smp.step nginxHooks) (Smp.Consumed nginxHooks) nginxSmp
      [.fetchInt3 0, .debugExit 0 ⟨0, 0⟩ []] := by
  refine (smp_consumed_iff nginxHooks nginxSmp _ armedStart_nginxSmp
    (along_of_forall (by simp [SmpEvent.faults]) _)).mpr
    ⟨trivial, fun s hs => ⟨?_, fun _ _ => trivial⟩⟩
  obtain rfl := Option.some.inj hs
  intro info _ _
  refine ⟨rfl, ?_⟩
  rintro cs ⟨hcs, -⟩
  cases hcs

/-- Two vCPUs execute the `int3` of the entry hook before either is served: the first handler takes
the breakpoint away, and the trap of the second is passed to the guest. -/
theorem smp_not_consumed :
    ¬ ∀ (h : Hooks) (s₀ : Smp) (es : List SmpEvent), s₀.ArmedStart h →
      Along (Smp.step h) Smp.NoFaults s₀ es → Along (Smp.step h) (Smp.Consumed h) s₀ es := by
  intro hall
  have hclean : Along (Smp.step nginxHooks) Smp.NoFaults nginxSmp
      [.fetchInt3 0, .fetchInt3 1, .debugExit 0 ⟨0, 0⟩ [], .debugExit 1 ⟨0, 0⟩ []] :=
    along_of_forall (by simp [SmpEvent.faults]) _
  have hcons := hall nginxHooks nginxSmp _ armedStart_nginxSmp hclean
  have hlast := (((hcons.2 _ rfl).2 _ rfl).2 _ rfl).1 (int3Trap 0x101000) rfl rfl
  have hpassed : HandleDebug.passToGuest = .consumed := hlast
  cases hpassed

end SyscallMonitor
