import SyscallMonitor.Smp.System

/-!
# The kernel-image transfer

`vmi_monitor_kernel_loaded` arms the hooks in the freshly written image, unless a hit or an earlier
transfer has already convinced the monitor that they are live: then it does nothing, and the bytes
of the new image stay where the breakpoints were.
-/

namespace SyscallMonitor

open Lib Monitor

namespace Smp

variable {h : Hooks} {s s' : Smp} {e : SmpEvent} {v' : Monitor}

/-- What is known as long as no hit has been seen: no vCPU has been stepped over a hook, and no hook
is referenced twice. -/
structure Untouched (h : Hooks) (v : Monitor) : Prop where
  normal : ∀ cs, v.vmiStateTable cs = .normal
  count : ∀ a, h.IsHook a → (v.kvm.site a).useCount ≤ 1

/-- If no access fails, whatever a handler does before the first hit leaves the hooks with at most
one reference. -/
theorem Untouched.step (hs : s.vmi.vmiFirstHitSeen = false → Untouched h s.vmi) (hf : s.NoFaults e)
    (hstep : VmiStep h s e v') (hhit : v'.vmiFirstHitSeen = false) : Untouched h v' := by
  obtain ⟨hnormal, hcount⟩ := hs (hstep.vmiFirstHitSeen_before hhit)
  cases hstep with
  | idle f heq =>
    rw [heq]
    exact ⟨hnormal, hcount⟩
  | arming harm =>
    have hnormal' : ∀ cs, v'.vmiStateTable cs = .normal := by
      intro cs
      rw [harm.sameSteps.vmiStateTable]
      exact hnormal cs
    refine ⟨hnormal', fun a ha => ?_⟩
    cases harm with
    | idle hkvm _ _ _ =>
      rw [hkvm]
      exact hcount a ha
    | attempt _ _ _ hkvm _ _ =>
      obtain ⟨k, harmed, -, hsites⟩ := vmiArmOnce_clean (k := (s.entering e).kvm) hf hcount
      rw [hkvm, harmed, hsites a ha, Site.useCount_armed]
  | hit cs tv info _ _ _ _ _ _ heq =>
    rw [heq, (vmiMonitorBreakpointHit_flags h cs _ tv info.pc (s.entering e)).2] at hhit
    cases hhit
  | complete cs hstepping _ =>
    rw [hnormal cs] at hstepping
    cases hstepping

lemma enabled_run {s₀ : Smp} {es : List SmpEvent} (hen : s₀.vmi.vmiEnabled = true)
    (hrun : run (step h) s₀ es = some s) : s.vmi.vmiEnabled = true :=
  run_invariant (I := fun s => s.vmi.vmiEnabled = true)
    (fun _ _ _ hen hstep => (step_vmi hen hstep).vmiEnabled.trans hen) hen hrun

/-- In a history without failing accesses, nothing but a hit takes the hooks out of the hands of the
arming paths. -/
theorem untouched_run {k : Kvm} {env : ℕ → CPUX86State} {es : List SmpEvent}
    (hbp : ∀ a, h.IsHook a → k.swBreakpoints a = none)
    (hclean : Along (step h) NoFaults (powerOn k env) es)
    (hrun : run (step h) (powerOn k env) es = some s) (hhit : s.vmi.vmiFirstHitSeen = false) :
    Untouched h s.vmi := by
  have hinv := hclean.run_invariant
    (I := fun s => s.vmi.vmiEnabled = true ∧ (s.vmi.vmiFirstHitSeen = false → Untouched h s.vmi))
    ?_ ⟨rfl, fun _ => ⟨fun _ => rfl, fun a ha => ?_⟩⟩ hrun
  · exact hinv.2 hhit
  · intro s e s' hs hf hstep
    have hvmi := step_vmi hs.1 hstep
    exact ⟨hvmi.vmiEnabled.trans hs.1,
      Untouched.step hs.2 hf hvmi⟩
  · simp [powerOn, Monitor.init, Site.useCount, hbp a ha]

end Smp

/-- **Boot-sync.** However the machine has got there, when a transfer of the kernel image completes
with neither flag set and no hook referenced twice, and no access of the handler fails, every hook
is registered with its `int3` in memory when `vmi_monitor_kernel_loaded` returns. No hook is
referenced twice if no access has failed before. With a flag set, `vmi_monitor_kernel_loaded` does
nothing. -/
theorem kernelLoaded_run (h : Hooks) (k : Kvm) (env : ℕ → CPUX86State)
    (hbp : ∀ a, h.IsHook a → k.swBreakpoints a = none) (es : List SmpEvent) (s s' : Smp)
    (d : FwCfgDma) (mem : UInt64 → UInt8) (faults : List Bool)
    (hrun : run (Smp.step h) (.powerOn k env) es = some s) (hd : d.IsKernelData)
    (hstep : s.step h (.fwCfgDma d mem faults) = some s') :
    (s.vmi.vmiFirstHitSeen = false → s.vmi.vmiBootSyncOk = false →
      (∀ a, h.IsHook a → (s.vmi.kvm.site a).useCount ≤ 1) → faults = [] →
      s'.vmi.vmiBootSyncOk = true ∧ ∀ a, h.IsHook a → (s'.vmi.kvm.site a).Live) ∧
    (Along (Smp.step h) Smp.NoFaults (.powerOn k env) es → s.vmi.vmiFirstHitSeen = false →
      ∀ a, h.IsHook a → (s.vmi.kvm.site a).useCount ≤ 1) ∧
    (s.vmi.vmiFirstHitSeen = true ∨ s.vmi.vmiBootSyncOk = true →
      s'.vmi = s.entering (.fwCfgDma d mem faults)) := by
  have hen := Smp.enabled_run rfl hrun
  obtain rfl := Option.some.inj hstep
  have hloaded : fwCfgDmaTransferEnd h d (s.entering (.fwCfgDma d mem faults))
      = vmiMonitorKernelLoaded h (s.entering (.fwCfgDma d mem faults)) := if_pos hd
  refine ⟨?_, fun hclean hhit => (Smp.untouched_run hbp hclean hrun hhit).count, ?_⟩
  · rintro hhit hsync hcount rfl
    obtain ⟨k', harm, -, -⟩ :=
      vmiArmOnce_clean (k := (s.entering (.fwCfgDma d mem [])).kvm) rfl hcount
    obtain ⟨hkvm, hok⟩ := vmiMonitorKernelLoaded_of_armed
      (v := s.entering (.fwCfgDma d mem [])) hen hhit hsync harm
    rw [← hloaded] at hkvm hok
    refine ⟨hok, fun a ha => ?_⟩
    rw [← hkvm] at harm
    exact vmiArmOnce_live harm ha
  · intro hflag
    exact hloaded.trans (vmiMonitorKernelLoaded_of_flag hflag)

/-- The first transfer of a boot, after an early attempt of the polling path. -/
theorem nginx_kernelLoaded_run :
    ∃ s s', run (Smp.step nginxHooks) nginxPowerOn [.vmStateChange true .running []] = some s ∧
      s.step nginxHooks (.fwCfgDma kernelImage (fun _ => 0xfa) []) = some s' ∧
      s'.vmi.vmiBootSyncOk = true ∧
      ∀ a, nginxHooks.IsHook a → (s'.vmi.kvm.site a).Live := by
  have hloaded := kernelLoaded_run nginxHooks nginxKvm (fun _ => ⟨fun _ => 0, 0x101000⟩)
    (fun _ _ => rfl) [.vmStateChange true .running []] _ _ kernelImage (fun _ => 0xfa) [] rfl
    (by decide) rfl
  have hclean : Along (Smp.step nginxHooks) Smp.NoFaults nginxPowerOn
      [.vmStateChange true .running []] := along_of_forall (by simp [SmpEvent.faults]) _
  exact ⟨_, _, rfl, rfl, hloaded.1 rfl rfl (hloaded.2.1 hclean rfl) rfl⟩

/-- Three histories after which a transferred image is not monitored: firmware has run into an
early `0xcc`; the machine has been reset and the image is transferred again; an earlier removal has
failed, so that the next insertion only counts a second reference. -/
theorem not_live_after_transfer :
    ¬ ∃ es ∈ [
        [.vmStateChange true .running [], .fetchInt3 0, .debugExit 0 ⟨0, 0⟩ []],
        [.vmStateChange true .running [], .fwCfgDma kernelImage (fun _ => 0xfa) []],
        [.vmStateChange true .running [], .timerExpiry [true]]],
      ∀ s s', run (Smp.step nginxHooks) nginxPowerOn es = some s →
        s.step nginxHooks (.fwCfgDma kernelImage (fun _ => 0xfa) []) = some s' →
        ∀ a, nginxHooks.IsHook a → (s'.vmi.kvm.site a).Live := by
  have hne : (0xfa : UInt8) ≠ int3 := by decide
  simp only [List.mem_cons, List.not_mem_nil, or_false]
  rintro ⟨es, rfl | rfl | rfl, hall⟩
  all_goals exact hne (hall _ _ rfl rfl _ nginxHooks.isHook_addr).2

end SyscallMonitor
