import SyscallMonitor.Smp.System

/-!
# The step-over invariant

`StepOver` ties together the four places where the monitor keeps track of a step-over: the shared
registry with its use counts, the guest's byte, the table of vCPU states and the table of addresses
being stepped over. It holds after a successful `vmi_arm_once` and every clean step keeps it.
-/

namespace SyscallMonitor

open Lib Monitor

/-! ### Armed and freed hooks -/

/-- What is known of a hook while it is armed with one reference, and while a vCPU is stepped over
it: a removal leads from the one to the other, an insertion back. -/
structure HookSites where
  armed : UInt64 → Site → Prop
  freed : UInt64 → Site → Prop
  registered : ∀ {a s}, armed a s → ∃ b, s.bp = some ⟨b, 1⟩
  unregistered : ∀ {a s}, freed a s → s.bp = none
  remove : ∀ {a s s'}, armed a s → RemoveAt s none s' → freed a s'
  insert : ∀ {a s s'}, freed a s → InsertAt s none s' → armed a s'
  rearm : ∀ {a s}, armed a s → armed a s.armed

namespace HookSites

/-- The registry alone. -/
def registry : HookSites where
  armed _ s := ∃ b, s.bp = some ⟨b, 1⟩
  freed _ s := s.bp = none
  registered h := h
  unregistered h := h
  remove := by
    rintro a s s' ⟨b, hb⟩ hrem
    cases hrem with
    | shared bp _ hcount =>
      obtain rfl := Option.some.inj hb
      exact absurd hcount (Nat.lt_irrefl 1)
    | overwritten _ _ _ _ => rfl
    | restore _ _ => rfl
  insert := by
    rintro a s s' hs hins
    cases hins with
    | again _ _ => cases hs
    | patch b => exact ⟨b, rfl⟩
  rearm _ := ⟨_, rfl⟩

/-- Registry and memory, where `orig` are the guest's own bytes. -/
def bytes (orig : UInt64 → UInt8) : HookSites where
  armed a s := s = ⟨some ⟨orig a, 1⟩, int3⟩
  freed a s := s = ⟨none, orig a⟩
  registered := by
    rintro a s rfl
    exact ⟨_, rfl⟩
  unregistered := by
    rintro a s rfl
    rfl
  remove := by
    rintro a s s' rfl hrem
    exact (hrem.of_planted (by simp)).2
  insert := by
    rintro a s s' rfl hins
    exact hins.of_free
  rearm := by
    rintro a s rfl
    rw [Site.armed, Site.guestByte_of_eq]

variable {H : HookSites}

lemma useCount_le {a : UInt64} {s : Site} (hs : H.armed a s) : s.useCount ≤ 1 := by
  obtain ⟨b, hb⟩ := H.registered hs
  rw [Site.useCount, hb]
  rfl

/-- Without failing accesses the breakpoint of an armed hook is removed. -/
lemma removed {a : UInt64} {s s' : Site} {err : Option Errno} (hs : H.armed a s)
    (hrem : RemoveAt s err s') (herr : err ≠ some .einval) : err = none := by
  obtain ⟨b, hb⟩ := H.registered hs
  cases hrem with
  | unknown _ => cases hb
  | shared _ _ _ => rfl
  | fault _ _ _ => exact absurd rfl herr
  | overwritten _ _ _ _ => rfl
  | restore _ _ => rfl

end HookSites

/-! ### The invariant -/

/-- The step-over invariant, where `H` says what is known of the hooks. -/
structure StepOver (h : Hooks) (H : HookSites) (v : Monitor) : Prop where
  enabled : v.vmiEnabled = true
  free : ∀ a, h.IsHook a → (∀ cs, ¬ v.SteppingOver cs a) → H.armed a (v.kvm.site a)
  stepped : ∀ cs a, v.SteppingOver cs a → h.IsHook a ∧ H.freed a (v.kvm.site a)
  unique : ∀ cs cs' a, v.SteppingOver cs a → v.SteppingOver cs' a → cs = cs'
  single : ∀ cs, v.kvm.singlestepEnabled cs ≠ 0 ↔ v.vmiStateTable cs = .stepping
  hit : ∀ cs, v.vmiStateTable cs = .stepping → v.vmiFirstHitSeen = true
  arms : ∀ call ∈ v.armCalls, ∀ cs, call.vmiStateTable cs = .normal

namespace StepOver

variable {h : Hooks} {H : HookSites} {v v' : Monitor}

/-- The invariant speaks of the hooks' sites and of five fields. -/
lemma congr (hv : StepOver h H v) (hen : v'.vmiEnabled = v.vmiEnabled)
    (hstate : v'.vmiStateTable = v.vmiStateTable)
    (haddr : v'.vmiStepAddrTable = v.vmiStepAddrTable)
    (hhit : v'.vmiFirstHitSeen = v.vmiFirstHitSeen) (harms : v'.armCalls = v.armCalls)
    (harmed : ∀ a, h.IsHook a → H.armed a (v.kvm.site a) → H.armed a (v'.kvm.site a))
    (hfreed : ∀ a, h.IsHook a → H.freed a (v.kvm.site a) → H.freed a (v'.kvm.site a))
    (hsingle : v'.kvm.singlestepEnabled = v.kvm.singlestepEnabled) : StepOver h H v' := by
  have hover : ∀ cs a, v'.SteppingOver cs a ↔ v.SteppingOver cs a := by
    intro cs a
    rw [Monitor.SteppingOver, Monitor.SteppingOver, hstate, haddr]
  refine ⟨hen.trans hv.enabled, ?_, ?_, ?_, ?_, ?_, ?_⟩
  · intro a ha hfree
    exact harmed a ha (hv.free a ha fun cs hcs => hfree cs ((hover cs a).mpr hcs))
  · intro cs a hcs
    obtain ⟨ha, hsite⟩ := hv.stepped cs a ((hover cs a).mp hcs)
    exact ⟨ha, hfreed a ha hsite⟩
  · intro cs cs' a hcs hcs'
    exact hv.unique cs cs' a ((hover cs a).mp hcs) ((hover cs' a).mp hcs')
  · intro cs
    rw [hsingle, hstate]
    exact hv.single cs
  · intro cs hcs
    rw [hhit]
    exact hv.hit cs (hstate ▸ hcs)
  · rw [harms]
    exact hv.arms

/-- A registered hook is one that nobody steps over. -/
lemma registered_iff (hv : StepOver h H v) {a : UInt64} (ha : h.IsHook a) :
    (v.kvm.swBreakpoints a).isSome = true ↔ ∀ cs, ¬ v.SteppingOver cs a := by
  constructor
  · intro hreg cs hcs
    have hsite := H.unregistered (hv.stepped cs a hcs).2
    rw [Kvm.site_bp] at hsite
    rw [hsite] at hreg
    cases hreg
  · intro hfree
    obtain ⟨b, hsite⟩ := H.registered (hv.free a ha hfree)
    rw [Kvm.site_bp] at hsite
    rw [hsite]
    rfl

lemma not_steppingOver_of_normal {cs : ℕ} (hcs : v.vmiStateTable cs = .normal) (a : UInt64) :
    ¬ v.SteppingOver cs a := by
  rintro ⟨hstepping, -⟩
  rw [hcs] at hstepping
  cases hstepping

/-- Before the first hit nobody steps. -/
lemma normal_of_not_hit (hv : StepOver h H v) (hhit : v.vmiFirstHitSeen = false) (cs : ℕ) :
    v.vmiStateTable cs = .normal := by
  cases hcs : v.vmiStateTable cs with
  | normal => rfl
  | stepping =>
    have hseen := hv.hit cs hcs
    rw [hhit] at hseen
    cases hseen

/-- The flag of one vCPU and its state change together. -/
lemma single_update (hv : StepOver h H v) {k : Kvm}
    (hk : k.singlestepEnabled = v.kvm.singlestepEnabled) {cs enabled : ℕ} {st : VmiState}
    (hst : enabled ≠ 0 ↔ st = .stepping) (cs' : ℕ) :
    (cpuSingleStep cs enabled k).singlestepEnabled cs' ≠ 0
      ↔ Function.update v.vmiStateTable cs st cs' = .stepping := by
  by_cases hcs : cs' = cs
  · subst hcs
    simpa [cpuSingleStep] using hst
  · simpa [cpuSingleStep, hcs, hk] using hv.single cs'

/-- The arming paths keep the invariant: an attempt is only made while nobody steps, and then every
hook stays armed. -/
theorem arming (hv : StepOver h H v) (hf : v.kvm.faults = []) (hstep : ArmingStep h v v') :
    StepOver h H v' := by
  cases hstep with
  | idle hkvm harm hsame _ =>
    refine hv.congr hsame.vmiEnabled hsame.vmiStateTable hsame.vmiStepAddrTable
      hsame.vmiFirstHitSeen harm ?_ ?_ ?_
    · intro a _ hs
      rwa [hkvm]
    · intro a _ hs
      rwa [hkvm]
    · rw [hkvm]
  | attempt tag hhit hsync hkvm harm hsame =>
    have hnormal := hv.normal_of_not_hit hhit
    have hfree : ∀ a, h.IsHook a → H.armed a (v.kvm.site a) := by
      intro a ha
      apply hv.free a ha
      exact fun cs => not_steppingOver_of_normal (hnormal cs) a
    obtain ⟨k, harmed, -, hsites⟩ := vmiArmOnce_clean hf fun a ha =>
      HookSites.useCount_le (hfree a ha)
    have hold : StepOver h H { v' with armCalls := v.armCalls } := by
      refine hv.congr hsame.vmiEnabled hsame.vmiStateTable hsame.vmiStepAddrTable
        hsame.vmiFirstHitSeen rfl ?_ ?_ ?_
      · intro a ha hs
        simp only [hkvm, harmed]
        rw [hsites a ha]
        exact H.rearm hs
      · intro a ha hs
        obtain ⟨b, hb⟩ := H.registered (hfree a ha)
        rw [H.unregistered hs] at hb
        cases hb
      · simp only [hkvm]
        exact (vmiArmOnce_sameElsewhere h v.kvm).singlestepEnabled
    refine ⟨hold.enabled, hold.free, hold.stepped, hold.unique, hold.single, hold.hit, ?_⟩
    intro call hcall
    rw [harm] at hcall
    rcases List.mem_append.mp hcall with hcall | hcall
    · exact hv.arms call hcall
    · rw [List.mem_singleton.mp hcall]
      exact hnormal

/-- A hit keeps the invariant: the vCPU steps over a hook that nobody stepped over. -/
theorem breakpointHit (hv : StepOver h H v) (hf : v.kvm.faults = []) {cs : ℕ}
    (env : CPUX86State) (tv : Timeval) {pc : UInt64} (hpc : h.IsHook pc)
    (hreg : (v.kvm.swBreakpoints pc).isSome = true) (hnormal : v.vmiStateTable cs = .normal) :
    StepOver h H (vmiMonitorBreakpointHit h cs env tv pc v) := by
  have hfree := (hv.registered_iff hpc).mp hreg
  have harmed := hv.free pc hpc hfree
  obtain ⟨err, s, f, hrem, hclean, hhit, -⟩ := vmiMonitorBreakpointHit_spec h cs env tv pc v
  obtain rfl := HookSites.removed harmed hrem (hclean hf).1
  rw [hhit rfl]
  generalize hv' : Monitor.mk .. = v'
  have hover : ∀ cs' a, v'.SteppingOver cs' a ↔
      (cs' = cs ∧ a = pc) ∨ (cs' ≠ cs ∧ v.SteppingOver cs' a) := by
    intro cs' a
    subst hv'
    by_cases hcs : cs' = cs
    · subst hcs
      simp [Monitor.SteppingOver, eq_comm]
    · simp [Monitor.SteppingOver, hcs]
  have hself : H.freed pc (v'.kvm.site pc) := by
    subst hv'
    rw [show (cpuSingleStep cs 1 (v.kvm.setSite pc s f)).site pc = s from
      Kvm.site_setSite_self v.kvm pc s f]
    exact H.remove harmed hrem
  have hother : ∀ a, a ≠ pc → v'.kvm.site a = v.kvm.site a := by
    intro a ha
    subst hv'
    exact Kvm.site_setSite_of_ne v.kvm pc s f ha
  refine ⟨?_, ?_, ?_, ?_, ?_, ?_, ?_⟩
  · subst hv'
    exact hv.enabled
  · intro a ha hnone
    have hne : a ≠ pc := by
      rintro rfl
      exact hnone cs ((hover cs a).mpr (Or.inl ⟨rfl, rfl⟩))
    rw [hother a hne]
    refine hv.free a ha fun cs' hcs' => hnone cs' ((hover cs' a).mpr (Or.inr ⟨?_, hcs'⟩))
    rintro rfl
    exact not_steppingOver_of_normal hnormal a hcs'
  · intro cs' a hcs'
    rcases (hover cs' a).mp hcs' with ⟨-, rfl⟩ | ⟨-, hcs'⟩
    · exact ⟨hpc, hself⟩
    · have hne : a ≠ pc := by
        rintro rfl
        exact hfree cs' hcs'
      rw [hother a hne]
      exact hv.stepped cs' a hcs'
  · intro cs₁ cs₂ a h₁ h₂
    rcases (hover cs₁ a).mp h₁ with ⟨rfl, rfl⟩ | ⟨-, h₁⟩ <;>
      rcases (hover cs₂ a).mp h₂ with ⟨rfl, ha⟩ | ⟨-, h₂⟩
    · rfl
    · exact absurd h₂ (hfree cs₂)
    · exact absurd (ha ▸ h₁) (hfree cs₁)
    · exact hv.unique cs₁ cs₂ a h₁ h₂
  · subst hv'
    apply hv.single_update rfl
    simp
  · intro cs' _
    subst hv'
    rfl
  · subst hv'
    exact hv.arms

/-- The end of a step keeps the invariant: the hook is armed again. -/
theorem stepComplete (hv : StepOver h H v) (hf : v.kvm.faults = []) {cs : ℕ}
    (hstepping : v.vmiStateTable cs = .stepping) : StepOver h H (vmiMonitorStepComplete cs v) := by
  obtain ⟨hpc, hfreed⟩ := hv.stepped cs _ ⟨hstepping, rfl⟩
  obtain ⟨err, s, f, hins, hclean, heq⟩ := vmiMonitorStepComplete_spec cs v
  obtain ⟨rfl, -⟩ := hclean hf
  rw [heq]
  generalize hpcv : v.vmiStepAddrTable cs = pc at hpc hfreed hins
  generalize hv' : Monitor.mk .. = v'
  have hover : ∀ cs' a, v'.SteppingOver cs' a ↔ cs' ≠ cs ∧ v.SteppingOver cs' a := by
    intro cs' a
    subst hv'
    by_cases hcs : cs' = cs
    · subst hcs
      simp [Monitor.SteppingOver]
    · simp [Monitor.SteppingOver, hcs]
  have hself : H.armed pc (v'.kvm.site pc) := by
    subst hv'
    rw [Kvm.site_setSite_self]
    exact H.insert hfreed hins
  have hother : ∀ a, a ≠ pc → v'.kvm.site a = v.kvm.site a := by
    intro a ha
    subst hv'
    exact Kvm.site_setSite_of_ne _ pc s f ha
  refine ⟨?_, ?_, ?_, ?_, ?_, ?_, ?_⟩
  · subst hv'
    exact hv.enabled
  · intro a ha hnone
    by_cases hne : a = pc
    · subst hne
      exact hself
    · rw [hother a hne]
      refine hv.free a ha fun cs' hcs' => hnone cs' ((hover cs' a).mpr ⟨?_, hcs'⟩)
      rintro rfl
      exact hne (hcs'.2.symm.trans hpcv)
  · intro cs' a hcs'
    obtain ⟨hcs, hcs'⟩ := (hover cs' a).mp hcs'
    have hne : a ≠ pc := by
      rintro rfl
      exact hcs (hv.unique cs' cs a hcs' ⟨hstepping, hpcv⟩)
    rw [hother a hne]
    exact hv.stepped cs' a hcs'
  · intro cs₁ cs₂ a h₁ h₂
    exact hv.unique cs₁ cs₂ a ((hover cs₁ a).mp h₁).2 ((hover cs₂ a).mp h₂).2
  · subst hv'
    apply hv.single_update rfl
    simp
  · intro cs' hcs'
    subst hv'
    by_cases hcs : cs' = cs
    · subst hcs
      simp at hcs'
    · simp only [Function.update_of_ne hcs] at hcs'
      exact hv.hit cs' hcs'
  · subst hv'
    exact hv.arms

end StepOver

/-! ### Runs -/

namespace Smp

variable {h : Hooks} {H : HookSites} {s s' : Smp} {e : SmpEvent}

/-- The guest's own byte at every address, in a state with armed hooks. -/
def origBytes (s : Smp) (a : UInt64) : UInt8 := (s.vmi.kvm.site a).guestByte

/-- What `H` knows of the hooks does not depend on the memory that the event writes. -/
def Respects (h : Hooks) (H : HookSites) (s : Smp) (e : SmpEvent) : Prop :=
  ∀ mem ∈ e.mem, ∀ a, h.IsHook a →
    (H.armed a (s.vmi.kvm.site a) → H.armed a ⟨s.vmi.kvm.swBreakpoints a, mem a⟩) ∧
      (H.freed a (s.vmi.kvm.site a) → H.freed a ⟨s.vmi.kvm.swBreakpoints a, mem a⟩)

lemma respects_registry (s : Smp) (e : SmpEvent) : Respects h .registry s e :=
  fun _ _ _ _ => ⟨fun hs => hs, fun hs => hs⟩

lemma Clean.respects (hclean : s.Clean h e) (orig : UInt64 → UInt8) :
    Respects h (.bytes orig) s e := by
  intro mem hmem a ha
  rw [hclean.2 mem hmem a ha]
  exact ⟨fun hs => hs, fun hs => hs⟩

/-- The invariant is not concerned with what happens before the handler runs. -/
lemma stepOver_entering (hs : StepOver h H s.vmi) (hresp : Respects h H s e) :
    StepOver h H (s.entering e) := by
  cases hmem : e.mem with
  | none =>
    exact hs.congr rfl rfl rfl rfl rfl (fun a _ ha => by simpa [entering, hmem, Kvm.site] using ha)
      (fun a _ ha => by simpa [entering, hmem, Kvm.site] using ha) rfl
  | some mem =>
    have hsite : ∀ a, (s.entering e).kvm.site a = ⟨s.vmi.kvm.swBreakpoints a, mem a⟩ := by
      intro a
      simp [entering, hmem, Kvm.site]
    refine hs.congr rfl rfl rfl rfl rfl ?_ ?_ rfl
    · intro a ha harmed
      rw [hsite]
      exact (hresp mem hmem a ha).1 harmed
    · intro a ha hfreed
      rw [hsite]
      exact (hresp mem hmem a ha).2 hfreed

/-- One step without failures keeps the invariant. -/
theorem stepOver_step (hs : StepOver h H s.vmi) (hf : e.faults = []) (hresp : Respects h H s e)
    (hstep : s.step h e = some s') : StepOver h H s'.vmi := by
  have hentering := stepOver_entering hs hresp
  cases step_vmi hs.enabled hstep with
  | idle f heq =>
    rw [heq]
    exact hentering.congr rfl rfl rfl rfl rfl (fun _ _ ha => ha) (fun _ _ ha => ha) rfl
  | arming harm => exact hentering.arming hf harm
  | hit cs tv info _ _ _ hreg hpc hnormal heq =>
    rw [heq]
    exact hentering.breakpointHit hf _ tv hpc hreg hnormal
  | complete cs hstepping heq =>
    rw [heq]
    exact hentering.stepComplete hf hstepping

/-- The invariant holds after a successful `vmi_arm_once`. -/
theorem ArmedStart.stepOver (hs : ArmedStart h s)
    (hsites : ∀ a, h.IsHook a → H.armed a ⟨some ⟨s.origBytes a, 1⟩, int3⟩) :
    StepOver h H s.vmi := by
  obtain ⟨k, hf, hcount, harm⟩ := hs.armed
  obtain ⟨k', harm', -, hsites'⟩ := vmiArmOnce_clean hf hcount
  obtain rfl : k' = s.vmi.kvm := (Prod.mk.inj (harm'.symm.trans harm)).2
  have hnone : ∀ cs a, ¬ s.vmi.SteppingOver cs a :=
    fun cs => StepOver.not_steppingOver_of_normal (hs.normal cs)
  refine ⟨hs.enabled, ?_, ?_, ?_, ?_, ?_, ?_⟩
  · intro a ha _
    have harmed := hsites a ha
    rw [origBytes, hsites' a ha, Site.guestByte_armed] at harmed
    rw [hsites' a ha]
    exact harmed
  · intro cs a hcs
    exact absurd hcs (hnone cs a)
  · intro cs _ a hcs
    exact absurd hcs (hnone cs a)
  · intro cs
    simp [hs.noStep cs, hs.normal cs]
  · intro cs hcs
    rw [hs.normal cs] at hcs
    cases hcs
  · simp [hs.armCalls]

theorem stepOver_run {s₀ : Smp} (hstart : ArmedStart h s₀) {es : List SmpEvent}
    (hclean : Along (step h) (Clean h) s₀ es) (hrun : run (step h) s₀ es = some s) :
    StepOver h (.bytes s₀.origBytes) s.vmi :=
  hclean.run_invariant (I := fun s => StepOver h (.bytes s₀.origBytes) s.vmi)
    (fun _ _ _ hs hclean hstep => stepOver_step hs hclean.1 (hclean.respects _) hstep)
    (hstart.stepOver fun _ _ => rfl) hrun

end Smp

/-- **Step-over invariant.** In every state that clean steps lead to from a successful arming:
each hook is stepped over by at most one vCPU; a hook has one reference and its `int3` in memory, or
is unregistered with the guest's byte, according to whether somebody steps over it; a vCPU
single-steps exactly while it is `VMI_STEPPING`; and no attempt to arm has been made while any vCPU
was. -/
theorem smp_stepOver (h : Hooks) (s₀ s : Smp) (es : List SmpEvent) (hstart : s₀.ArmedStart h)
    (hclean : Along (Smp.step h) (Smp.Clean h) s₀ es) (hrun : run (Smp.step h) s₀ es = some s) :
    (∀ a cs cs', s.vmi.SteppingOver cs a → s.vmi.SteppingOver cs' a → cs = cs') ∧
      (∀ a, h.IsHook a →
        ((∀ cs, ¬ s.vmi.SteppingOver cs a) →
          s.vmi.kvm.swBreakpoints a = some ⟨s₀.origBytes a, 1⟩ ∧ s.vmi.kvm.mem a = int3) ∧
        ((∃ cs, s.vmi.SteppingOver cs a) →
          s.vmi.kvm.swBreakpoints a = none ∧ s.vmi.kvm.mem a = s₀.origBytes a)) ∧
      (∀ cs, s.vmi.kvm.singlestepEnabled cs ≠ 0 ↔ s.vmi.vmiStateTable cs = .stepping) ∧
      ∀ call ∈ s.vmi.armCalls, ∀ cs, call.vmiStateTable cs = .normal := by
  have hinv := Smp.stepOver_run hstart hclean hrun
  refine ⟨fun a cs cs' => hinv.unique cs cs' a, ?_, hinv.single, hinv.arms⟩
  intro a ha
  constructor
  · intro hfree
    have hsite := hinv.free a ha hfree
    exact ⟨congrArg Site.bp hsite, congrArg Site.byte hsite⟩
  · rintro ⟨cs, hcs⟩
    have hsite := (hinv.stepped cs a hcs).2
    exact ⟨congrArg Site.bp hsite, congrArg Site.byte hsite⟩

/-- `smp_stepOver` where two vCPUs run into the entry hook and only the first one is served. -/
theorem nginx_smp_stepOver :
    ∃ s, run (Smp.step nginxHooks) nginxSmp
        [.fetchInt3 0, .fetchInt3 1, .debugExit 0 ⟨0, 0⟩ [], .debugExit 1 ⟨0, 0⟩ []] = some s ∧
      s.vmi.vmiStateTable 0 = .stepping ∧
      ∀ a cs cs', s.vmi.SteppingOver cs a → s.vmi.SteppingOver cs' a → cs = cs' := by
  have hclean : Along (Smp.step nginxHooks) (Smp.Clean nginxHooks) nginxSmp
      [.fetchInt3 0, .fetchInt3 1, .debugExit 0 ⟨0, 0⟩ [], .debugExit 1 ⟨0, 0⟩ []] :=
    Smp.along_clean (by decide)
  exact ⟨_, rfl, rfl, (smp_stepOver nginxHooks _ _ _ armedStart_nginxSmp hclean rfl).1⟩

end SyscallMonitor
