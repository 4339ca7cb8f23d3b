import SyscallMonitor.Smp.Traps

/-!
# Which executions of the entry hook are observed

While a vCPU is stepped over the entry hook, the guest's own byte is back for all vCPUs. A vCPU
that executes it is observed if it is the one being stepped, and unobserved otherwise.
-/

namespace SyscallMonitor

open Lib Monitor

namespace Smp

/-- What an observation does to the calls of `vmi_handle_entry` for `cs` since `cs` last executed
the instruction at the entry hook. -/
def noteObs (cs : ℕ) (calls : List CPUX86State) : Obs → List CPUX86State
  | .call (.entry cpuIndex env _) => if cpuIndex = cs then calls ++ [env] else calls
  | .call _ => calls
  | .exec cs' _ => if cs' = cs then [] else calls

/-- The calls of `vmi_handle_entry` for `cs`, with the registers passed, since `cs` last executed
the instruction at the entry hook. -/
def pendingCalls (cs : ℕ) (trace : List Obs) : List CPUX86State := trace.foldl (noteObs cs) []

lemma pendingCalls_concat (cs : ℕ) (trace : List Obs) (o : Obs) :
    pendingCalls cs (trace ++ [o]) = noteObs cs (pendingCalls cs trace) o := List.foldl_concat ..

lemma pendingCalls_flushes (cs : ℕ) (trace : List Obs) {l : List HookEvent}
    (hl : ∀ e ∈ l, e = .flush) :
    pendingCalls cs (trace ++ l.map .call) = pendingCalls cs trace := by
  induction l generalizing trace with
  | nil => rw [List.map_nil, List.append_nil]
  | cons e l ih =>
    obtain rfl := hl e List.mem_cons_self
    rw [List.map_cons, List.append_cons, ih _ fun e he => hl e (List.mem_cons_of_mem _ he),
      pendingCalls_concat]
    rfl

/-- A handler that calls nothing. -/
lemma pendingCalls_quiet (s : Smp) (cs : ℕ) :
    pendingCalls cs (s.trace ++ (s.vmi.hookCalls.drop s.vmi.hookCalls.length).map .call)
      = pendingCalls cs s.trace := by
  rw [List.drop_length, List.map_nil, List.append_nil]

/-- No call fails, and no vCPU is interrupted while it is `VMI_STEPPING`. -/
def Undisturbed (s : Smp) (e : SmpEvent) : Prop :=
  e.faults = [] ∧ ∀ cs env, e = .interrupt cs env → s.vmi.vmiStateTable cs = .normal

/-- An execution of the instruction at the entry hook is preceded by exactly one call of
`vmi_handle_entry` for its vCPU since the last, with the registers it has. -/
def Observed (h : Hooks) (s : Smp) : SmpEvent → Prop
  | .retire cs _ _ _ => s.CanRetire h cs → (s.cpus cs).env.eip = h.vmiAddr →
      pendingCalls cs s.trace = [(s.cpus cs).env]
  | _ => True

/-- A vCPU that executes the instruction at the entry hook is being stepped over it. -/
def OwnStep (h : Hooks) (s : Smp) : SmpEvent → Prop
  | .retire cs _ _ _ => s.CanRetire h cs → (s.cpus cs).env.eip = h.vmiAddr →
      s.vmi.SteppingOver cs h.vmiAddr
  | _ => True

/-- Nobody else is being stepped over the entry hook when a vCPU executes the instruction there. -/
def NoOtherStep (h : Hooks) (s : Smp) : SmpEvent → Prop
  | .retire cs _ _ _ => s.CanRetire h cs → (s.cpus cs).env.eip = h.vmiAddr →
      ∀ cs', s.vmi.SteppingOver cs' h.vmiAddr → cs' = cs
  | _ => True

/-- Where a vCPU is between its hook trap and the end of its step, and what has been called for it:
nothing, the call for the instruction it is about to execute, or nothing again. -/
structure CallsInStep (h : Hooks) (s : Smp) (cs : ℕ) : Prop where
  normal : s.vmi.vmiStateTable cs = .normal → pendingCalls cs s.trace = []
  ahead : s.vmi.vmiStateTable cs = .stepping → (s.cpus cs).trap = none →
    (s.cpus cs).env.eip = s.vmi.vmiStepAddrTable cs ∧ (s.cpus cs).stepMasked = false ∧
      pendingCalls cs s.trace
        = if s.vmi.vmiStepAddrTable cs = h.vmiAddr then [(s.cpus cs).env] else []
  done : ∀ info, s.vmi.vmiStateTable cs = .stepping → (s.cpus cs).trap = some info →
    info.exception = excp01Db ∧ pendingCalls cs s.trace = []

variable {h : Hooks} {s s' : Smp} {e : SmpEvent} {cs : ℕ}

lemma CallsInStep.of_normal (hstate : s.vmi.vmiStateTable cs = .normal)
    (hcalls : pendingCalls cs s.trace = []) : CallsInStep h s cs := by
  refine ⟨fun _ => hcalls, ?_, ?_⟩
  · intro hcs
    rw [hstate] at hcs
    cases hcs
  · intro info hcs
    rw [hstate] at hcs
    cases hcs

lemma ArmedStart.callsInStep (hs : ArmedStart h s) (cs : ℕ) : CallsInStep h s cs := by
  refine .of_normal (hs.normal cs) ?_
  rw [hs.trace]
  rfl

/-- A vCPU that does not take part in an event. -/
lemma CallsInStep.congr (hs : CallsInStep h s cs)
    (hstate : s'.vmi.vmiStateTable cs = s.vmi.vmiStateTable cs)
    (haddr : s'.vmi.vmiStepAddrTable cs = s.vmi.vmiStepAddrTable cs)
    (hcpu : s'.cpus cs = s.cpus cs)
    (htrace : pendingCalls cs s'.trace = pendingCalls cs s.trace) : CallsInStep h s' cs := by
  refine ⟨?_, ?_, ?_⟩
  · intro hcs
    rw [htrace]
    exact hs.normal (hstate ▸ hcs)
  · intro hcs htrap
    rw [htrace, haddr, hcpu]
    exact hs.ahead (hstate ▸ hcs) (hcpu ▸ htrap)
  · intro info hcs htrap
    rw [htrace]
    exact hs.done info (hstate ▸ hcs) (hcpu ▸ htrap)

lemma CallsInStep.arming (hs : CallsInStep h s cs) {v v' : Monitor}
    (hstate : v.vmiStateTable = s.vmi.vmiStateTable)
    (haddr : v.vmiStepAddrTable = s.vmi.vmiStepAddrTable)
    (hcalls : v.hookCalls = s.vmi.hookCalls) (hstep : ArmingStep h v v') :
    CallsInStep h (s.setVmi v') cs := by
  have hsame := hstep.sameSteps
  obtain ⟨l, hl, hflush⟩ := hsame.hookCalls
  refine hs.congr (congrFun (hsame.vmiStateTable.trans hstate) cs)
    (congrFun (hsame.vmiStepAddrTable.trans haddr) cs) rfl ?_
  rw [setVmi, hl, hcalls, List.drop_left]
  exact pendingCalls_flushes cs s.trace hflush

lemma pendingCalls_recordExec (h : Hooks) (s : Smp) (cs cs' : ℕ) :
    pendingCalls cs' (s.recordExec h cs).trace
      = if cs = cs' ∧ (s.cpus cs).env.eip = h.vmiAddr then [] else pendingCalls cs' s.trace := by
  rw [recordExec]
  by_cases heip : (s.cpus cs).env.eip = h.vmiAddr
  · simp only [heip, ↓reduceIte, and_true, pendingCalls_concat, noteObs]
  · simp only [heip, ↓reduceIte, and_false]

/-- What a hit calls for its own vCPU, and for the others. -/
lemma noteObs_hookEvent {pc : UInt64} (hpc : h.IsHook pc) (cs cs' : ℕ) (env : CPUX86State)
    (tv : Timeval) (calls : List CPUX86State) :
    noteObs cs' calls (.call (hookEvent h cs env tv pc))
      = if cs = cs' ∧ pc = h.vmiAddr then calls ++ [env] else calls := by
  rw [hookEvent]
  by_cases haddr : pc = h.vmiAddr
  · subst haddr
    rw [if_neg h.not_isRet_addr, noteObs]
    simp only [Int.natCast_inj, and_true]
  · have hret : h.IsRet pc := hpc.resolve_left haddr
    simp [hret, noteObs, haddr]

lemma CallsInStep.retire (hs : CallsInStep h s cs) (hcons : Consistent h .registry s) {cs' : ℕ}
    {env : CPUX86State} {mem : UInt64 → UInt8} {resume : Bool}
    (hstep : s.step h (.retire cs' env mem resume) = some s') : CallsInStep h s' cs := by
  obtain ⟨⟨hnone, -⟩, rfl⟩ := step_retire hstep
  have hcalls := pendingCalls_recordExec h s cs' cs
  by_cases hcs : cs' = cs
  · subst hcs
    cases hstate : s.vmi.vmiStateTable cs' with
    | normal =>
      refine .of_normal ?_ ?_
      · simpa [setCpu, setMem] using hstate
      · apply hcalls.trans
        rw [hs.normal hstate, ite_self]
    | stepping =>
      obtain ⟨heip, hmask, hahead⟩ := hs.ahead hstate hnone
      have hsingle := (hcons.stepOver.single cs').mpr hstate
      refine ⟨?_, ?_, ?_⟩
      · intro hnormal
        simp only [setCpu, setMem, recordExec_vmi, hstate] at hnormal
        cases hnormal
      · intro _ htrap
        simp [setCpu, hsingle, hmask] at htrap
      · intro info _ htrap
        simp only [setCpu, Function.update_self, hsingle, hmask, ne_eq, not_false_eq_true,
          and_self, ↓reduceIte, Option.some.injEq] at htrap
        refine ⟨htrap ▸ rfl, hcalls.trans ?_⟩
        rw [hahead, heip]
        split_ifs with h₁ h₂ <;> first | rfl | exact absurd ⟨rfl, h₂⟩ h₁
  · refine hs.congr ?_ ?_ ?_ (hcalls.trans (if_neg fun hand => hcs hand.1))
    · simp [setCpu, setMem]
    · simp [setCpu, setMem]
    · simp [setCpu, setMem, Ne.symm hcs]

lemma CallsInStep.fetchInt3 (hs : CallsInStep h s cs) (hcons : Consistent h .registry s) {cs' : ℕ}
    (hstep : s.step h (.fetchInt3 cs') = some s') : CallsInStep h s' cs := by
  obtain ⟨⟨hnone, hplanted⟩, rfl⟩ := step_fetchInt3 hstep
  by_cases hcs : cs' = cs
  · subst hcs
    cases hstate : s.vmi.vmiStateTable cs' with
    | normal => exact .of_normal hstate (hs.normal hstate)
    | stepping =>
      -- the hook that the vCPU is stepped over is not registered
      obtain ⟨heip, -, -⟩ := hs.ahead hstate hnone
      have hfree := (hcons.stepOver.registered_iff hplanted.1).mp hplanted.2.1
      exact absurd ⟨hstate, heip.symm⟩ (hfree cs')
  · exact hs.congr rfl rfl (Function.update_of_ne (Ne.symm hcs) _ _) rfl

lemma CallsInStep.debugExit (hs : ∀ cs, CallsInStep h s cs) (hcons : Consistent h .registry s)
    {cs' : ℕ} {tv : Timeval} (hstep : s.step h (.debugExit cs' tv []) = some s') :
    CallsInStep h s' cs := by
  obtain ⟨info, outcome, v, htrap, hhandle, rfl⟩ := step_debugExit hstep
  have htraps := hcons.traps cs' info htrap
  rcases kvmHandleDebug_cases h cs' (s.cpus cs').env tv info (s.setFaults []).vmi with
    ⟨hdb, hstate, heq⟩ | ⟨hdb, hreg, hpc, hstate, heq⟩ | ⟨r, hr, heq⟩
  · -- the step of `cs'` is complete
    obtain ⟨err, site, f, -, -, hv⟩ := vmiMonitorStepComplete_spec cs' (s.setFaults []).vmi
    obtain ⟨rfl, rfl⟩ := Prod.mk.inj (hhandle.symm.trans (heq.trans (congrArg _ hv)))
    by_cases hcs : cs = cs'
    · subst hcs
      refine .of_normal (Function.update_self ..) ((pendingCalls_quiet s cs).trans ?_)
      exact ((hs cs).done info hstate htrap).2
    · exact (hs cs).congr (Function.update_of_ne hcs _ _) rfl (Function.update_of_ne hcs _ _)
        (pendingCalls_quiet s cs)
  · -- `cs'` has hit a hook
    have hfree := (hcons.stepOver.registered_iff hpc).mp hreg
    obtain ⟨err, site, f, hrem, hclean, hhit, -⟩ :=
      vmiMonitorBreakpointHit_spec h cs' (s.cpus cs').env tv info.pc (s.setFaults []).vmi
    obtain rfl := HookSites.removed (H := .registry) (hcons.stepOver.free _ hpc hfree) hrem
      (hclean rfl).1
    obtain ⟨rfl, rfl⟩ := Prod.mk.inj (hhandle.symm.trans (heq.trans (congrArg _ (hhit rfl))))
    have heip : info.pc = (s.cpus cs').env.eip := by
      rcases htraps with ⟨rfl, -⟩ | rfl
      · rfl
      · exact absurd rfl hdb
    have hcalls : ∀ cs, pendingCalls cs (s.trace ++ ((s.vmi.hookCalls ++
        [hookEvent h cs' (s.cpus cs').env tv info.pc]).drop s.vmi.hookCalls.length).map .call)
          = if cs' = cs ∧ info.pc = h.vmiAddr then pendingCalls cs s.trace ++ [(s.cpus cs').env]
            else pendingCalls cs s.trace := by
      intro cs
      rw [List.drop_left, List.map_singleton, pendingCalls_concat, noteObs_hookEvent hpc]
    by_cases hcs : cs = cs'
    · subst hcs
      refine ⟨?_, ?_, ?_⟩
      · intro hnormal
        simp [setCpu, setVmi] at hnormal
      · intro _ _
        refine ⟨?_, ?_, (hcalls cs).trans ?_⟩
        · simp [setCpu, setVmi, heip]
        · simp [setCpu, setVmi]
        · rw [(hs cs).normal hstate]
          simp [setCpu, setVmi]
      · intro info' _ htrap'
        simp [setCpu] at htrap'
    · refine (hs cs).congr (Function.update_of_ne hcs _ _) (Function.update_of_ne hcs _ _)
        (Function.update_of_ne hcs _ _) ((hcalls cs).trans (if_neg ?_))
      exact fun hand => hcs hand.1.symm
  · -- the monitor does not claim the debug exit
    obtain ⟨rfl, rfl⟩ := Prod.mk.inj (hhandle.symm.trans heq)
    by_cases hcs : cs = cs'
    · subst hcs
      cases hstate : s.vmi.vmiStateTable cs with
      | normal => exact .of_normal hstate ((pendingCalls_quiet s cs).trans ((hs cs).normal hstate))
      | stepping =>
        have hdb := ((hs cs).done info hstate htrap).1
        rcases htraps with ⟨rfl, -⟩ | rfl
        · cases hdb
        · have hconsumed := kvmHandleDebug_stepTrap h (v := (s.setFaults []).vmi)
            hcons.stepOver.enabled hstate (s.cpus cs).env tv (s.cpus cs).env.eip
          rw [heq] at hconsumed
          exact absurd (Prod.mk.inj hconsumed).1 hr
    · exact (hs cs).congr rfl rfl (Function.update_of_ne hcs _ _) (pendingCalls_quiet s cs)

/-- Every undisturbed step keeps the calls of every vCPU in step. -/
theorem callsInStep_step (hs : ∀ cs, CallsInStep h s cs) (hcons : Consistent h .registry s)
    (hund : s.Undisturbed e) (hstep : s.step h e = some s') (cs : ℕ) : CallsInStep h s' cs := by
  obtain ⟨hf, hint⟩ := hund
  cases e with
  | retire cs' env mem resume => exact (hs cs).retire hcons hstep
  | fetchInt3 cs' => exact (hs cs).fetchInt3 hcons hstep
  | debugExit cs' tv faults =>
    obtain rfl : faults = [] := hf
    exact CallsInStep.debugExit hs hcons hstep
  | interrupt cs' env =>
    obtain ⟨-, rfl⟩ := step_interrupt hstep
    have hnormal := hint cs' env rfl
    by_cases hcs : cs = cs'
    · subst hcs
      exact .of_normal hnormal ((hs cs).normal hnormal)
    · exact (hs cs).congr rfl rfl (Function.update_of_ne hcs _ _) rfl
  | timerExpiry faults =>
    obtain ⟨-, rfl⟩ := step_timerExpiry hstep
    exact (hs cs).arming (v := { (s.setFaults faults).vmi with vmiArmTimer := some ⟨false⟩ }) rfl
      rfl rfl (vmiTryArm_arming h _)
  | vmStateChange running state faults =>
    obtain rfl := Option.some.inj hstep
    exact (hs cs).arming (v := (s.setFaults faults).vmi) rfl rfl rfl
      (vmiVmStateChange_arming h running state hcons.stepOver.enabled)
  | fwCfgDma d mem faults =>
    obtain rfl := Option.some.inj hstep
    exact (hs cs).arming (v := ((s.setMem mem).setFaults faults).vmi) rfl rfl rfl
      (fwCfgDmaTransferEnd_arming h d _)
  | overwrite mem =>
    obtain rfl := Option.some.inj hstep
    exact (hs cs).congr rfl rfl rfl rfl

/-- What every undisturbed step keeps. -/
structure Tracked (h : Hooks) (s : Smp) : Prop where
  consistent : Consistent h .registry s
  calls : ∀ cs, CallsInStep h s cs

lemma Tracked.step (s : Smp) (e : SmpEvent) (s' : Smp) (hs : Tracked h s)
    (hund : s.Undisturbed e) (hstep : s.step h e = some s') : Tracked h s' :=
  ⟨Consistent.step s e s' hs.consistent hund.1 hstep,
    callsInStep_step hs.calls hs.consistent hund hstep⟩

/-- At one step, a vCPU executes the entry hook observed exactly when it is the one being stepped
over it. -/
lemma Tracked.observed_iff (hs : Tracked h s) (e : SmpEvent) : Observed h s e ↔ OwnStep h s e := by
  cases e with
  | retire cs env mem resume =>
    refine forall_congr' fun hcan => forall_congr' fun heip => ?_
    cases hstate : s.vmi.vmiStateTable cs with
    | normal =>
      rw [(hs.calls cs).normal hstate]
      constructor
      · intro heq
        cases heq
      · rintro ⟨hstepping, -⟩
        rw [hstate] at hstepping
        cases hstepping
    | stepping =>
      obtain ⟨hpc, -, hcalls⟩ := (hs.calls cs).ahead hstate hcan.1
      have haddr : s.vmi.vmiStepAddrTable cs = h.vmiAddr := hpc.symm.trans heip
      rw [if_pos haddr] at hcalls
      exact ⟨fun _ => ⟨hstate, haddr⟩, fun _ => hcalls⟩
  | interrupt _ _ => exact Iff.rfl
  | fetchInt3 _ => exact Iff.rfl
  | debugExit _ _ _ => exact Iff.rfl
  | timerExpiry _ => exact Iff.rfl
  | vmStateChange _ _ _ => exact Iff.rfl
  | fwCfgDma _ _ _ => exact Iff.rfl
  | overwrite _ => exact Iff.rfl

/-- Where nobody else writes the hook bytes, the guest's own instruction is only there to execute
while somebody is stepped over it. -/
lemma ownStep_iff {orig : UInt64 → UInt8} (hs : StepOver h (.bytes orig) s.vmi) (e : SmpEvent) :
    OwnStep h s e ↔ NoOtherStep h s e := by
  cases e with
  | retire cs env mem resume =>
    refine forall_congr' fun hcan => forall_congr' fun heip => ?_
    constructor
    · intro hown cs' hcs'
      exact hs.unique cs' cs h.vmiAddr hcs' hown
    · intro honly
      by_contra hown
      have hfree : ∀ cs', ¬ s.vmi.SteppingOver cs' h.vmiAddr := by
        intro cs' hcs'
        exact hown (honly cs' hcs' ▸ hcs')
      have hsite := hs.free h.vmiAddr h.isHook_addr hfree
      apply hcan.2
      rw [heip]
      exact ⟨h.isHook_addr, congrArg (fun site => site.bp.isSome) hsite, congrArg Site.byte hsite⟩
  | interrupt _ _ => exact Iff.rfl
  | fetchInt3 _ => exact Iff.rfl
  | debugExit _ _ _ => exact Iff.rfl
  | timerExpiry _ => exact Iff.rfl
  | vmStateChange _ _ _ => exact Iff.rfl
  | fwCfgDma _ _ _ => exact Iff.rfl
  | overwrite _ => exact Iff.rfl

end Smp

/-- **Completeness.** In a run from an armed machine in which no call fails and no vCPU is
interrupted while it is `VMI_STEPPING`, every execution of the entry hook is observed exactly once
if and only if every vCPU that executes it is the one being stepped over it. If nobody else writes
the hook bytes either, that is to say that no other vCPU is being stepped over it. -/
theorem smp_observed_iff (h : Hooks) (s₀ : Smp) (es : List SmpEvent) (hstart : s₀.ArmedStart h)
    (hund : Along (Smp.step h) Smp.Undisturbed s₀ es) :
    (Along (Smp.step h) (Smp.Observed h) s₀ es ↔ Along (Smp.step h) (Smp.OwnStep h) s₀ es) ∧
      (Along (Smp.step h) (Smp.Clean h) s₀ es →
        (Along (Smp.step h) (Smp.Observed h) s₀ es ↔
          Along (Smp.step h) (Smp.NoOtherStep h) s₀ es)) := by
  have hown : Along (Smp.step h) (Smp.Observed h) s₀ es ↔
      Along (Smp.step h) (Smp.OwnStep h) s₀ es :=
    Along.congr Smp.Tracked.step (fun _ e hs _ => hs.observed_iff e)
      ⟨hstart.consistent, hstart.callsInStep⟩ hund
  refine ⟨hown, fun hclean => hown.trans ?_⟩
  exact Along.congr (I := fun s => StepOver h (.bytes s₀.origBytes) s.vmi)
    (fun _ _ _ hs hc hstep => Smp.stepOver_step hs hc.1 (hc.respects _) hstep)
    (fun _ e hs _ => Smp.ownStep_iff hs e) (hstart.stepOver fun _ _ => rfl) hclean

/-- The memory of `nginxSmp` while a vCPU is stepped over the entry hook. -/
def nginxMem (a : UInt64) : UInt8 := if a = 0x1010da then 0xcc else 0xfa

/-- `smp_observed_iff` on a run in which one vCPU is stepped over the entry hook. -/
theorem nginx_smp_observed_iff :
    Along (Smp.step nginxHooks) (Smp.Observed nginxHooks) nginxSmp
      [.fetchInt3 0, .debugExit 0 ⟨0, 0⟩ [], .retire 0 ⟨fun _ => 0, 0x101001⟩ nginxMem false] := by
  have hund : Along (Smp.step nginxHooks) Smp.Undisturbed nginxSmp
      [.fetchInt3 0, .debugExit 0 ⟨0, 0⟩ [], .retire 0 ⟨fun _ => 0, 0x101001⟩ nginxMem false] :=
    ⟨⟨rfl, nofun⟩, fun _ _ => ⟨⟨rfl, nofun⟩, fun _ _ => ⟨⟨rfl, nofun⟩, fun _ _ => trivial⟩⟩⟩
  refine (smp_observed_iff nginxHooks nginxSmp _ armedStart_nginxSmp hund).1.mpr
    ⟨trivial, fun s hs => ⟨trivial, fun s' hs' => ⟨?_, fun _ _ => trivial⟩⟩⟩
  obtain rfl := Option.some.inj hs
  obtain rfl := Option.some.inj hs'
  exact fun _ _ => ⟨rfl, rfl⟩

/-- While vCPU 0 is stepped over the entry hook, vCPU 1 executes the instruction there, and nothing
is called for it. -/
theorem smp_not_observed :
    ¬ ∀ (h : Hooks) (s₀ : Smp) (es : List SmpEvent), s₀.ArmedStart h →
      Along (Smp.step h) (Smp.Clean h) s₀ es → Along (Smp.step h) (Smp.Observed h) s₀ es := by
  intro hall
  have hclean : Along (Smp.step nginxHooks) (Smp.Clean nginxHooks) nginxSmp
      [.fetchInt3 0, .debugExit 0 ⟨0, 0⟩ [], .retire 1 ⟨fun _ => 0, 0x101001⟩ nginxMem false] := by
    refine ⟨⟨rfl, nofun⟩, fun s hs => ⟨⟨rfl, nofun⟩, fun s' hs' => ⟨⟨rfl, ?_⟩, fun _ _ => trivial⟩⟩⟩
    obtain rfl := Option.some.inj hs
    obtain rfl := Option.some.inj hs'
    rintro mem hmem a (rfl | ⟨-, rfl⟩)
    · obtain rfl := Option.some.inj hmem
      rfl
    · obtain rfl := Option.some.inj hmem
      rfl
  have hobs := hall nginxHooks nginxSmp _ armedStart_nginxSmp hclean
  have hlast := ((hobs.2 _ rfl).2 _ rfl).1 (by decide) rfl
  cases hlast

end SyscallMonitor
