import SyscallMonitor.Smp.Completeness

/-!
# The order of the calls

`Observed` counts the calls of `vmi_handle_entry` for one vCPU at a time. Here the vCPUs are taken
together: the calls come in the order in which the entry hook is executed, and at any time at most
one of them is for an execution still to come, the one of the vCPU that is being stepped over it.
-/

namespace SyscallMonitor

open Lib Monitor

/-- A call of `vmi_handle_entry`: the vCPU and its registers. -/
def Obs.entered : Obs → Option (ℤ × CPUX86State)
  | .call (.entry cpuIndex env _) => some (cpuIndex, env)
  | .call (.ret ..) => none
  | .call .flush => none
  | .exec .. => none

/-- An execution of the instruction at the entry hook: the vCPU and its registers. -/
def Obs.executed : Obs → Option (ℤ × CPUX86State)
  | .call _ => none
  | .exec cs env => some (cs, env)

namespace Smp

/-- The calls of `vmi_handle_entry`, in order. -/
def entered (s : Smp) : List (ℤ × CPUX86State) := s.trace.filterMap Obs.entered

/-- The executions of the instruction at the entry hook, in order. -/
def executed (s : Smp) : List (ℤ × CPUX86State) := s.trace.filterMap Obs.executed

/-- `cs` is being stepped over the entry hook, and has not executed the instruction there yet. -/
def Ahead (h : Hooks) (s : Smp) (cs : ℕ) : Prop :=
  s.vmi.SteppingOver cs h.vmiAddr ∧ (s.cpus cs).trap = none

/-- The calls agree with the executions, up to the one that is ahead. -/
structure InOrder (h : Hooks) (s : Smp) : Prop where
  even : (∀ cs, ¬ s.Ahead h cs) → s.entered = s.executed
  ahead : ∀ cs, s.Ahead h cs → s.entered = s.executed ++ [((cs : ℤ), (s.cpus cs).env)]

variable {h : Hooks} {s s' : Smp} {e : SmpEvent} {cs : ℕ}

lemma ArmedStart.inOrder (hs : ArmedStart h s) : InOrder h s := by
  have hnone : s.entered = s.executed := by
    rw [entered, executed, hs.trace]
    rfl
  refine ⟨fun _ => hnone, ?_⟩
  rintro cs ⟨hcs, -⟩
  exact absurd hcs (StepOver.not_steppingOver_of_normal (hs.normal cs) _)

/-- A step that neither calls nor executes, and after which nobody else is ahead. -/
lemma InOrder.congr (hs : InOrder h s) (hentered : s'.entered = s.entered)
    (hexecuted : s'.executed = s.executed)
    (hahead : ∀ cs, s'.Ahead h cs ↔ s.Ahead h cs)
    (henv : ∀ cs, s'.Ahead h cs → (s'.cpus cs).env = (s.cpus cs).env) : InOrder h s' := by
  refine ⟨?_, ?_⟩
  · intro hnone
    rw [hentered, hexecuted]
    exact hs.even fun cs hcs => hnone cs ((hahead cs).mpr hcs)
  · intro cs hcs
    rw [hentered, hexecuted, henv cs hcs]
    exact hs.ahead cs ((hahead cs).mp hcs)

/-- A vCPU that is not ahead before or after may change in any way. -/
lemma ahead_iff_of_others (hother : ∀ cs', cs' ≠ cs → (s'.Ahead h cs' ↔ s.Ahead h cs'))
    (hbefore : ¬ s.Ahead h cs) (hafter : ¬ s'.Ahead h cs) (cs' : ℕ) :
    s'.Ahead h cs' ↔ s.Ahead h cs' := by
  by_cases hcs : cs' = cs
  · subst hcs
    exact ⟨fun hcs => absurd hcs hafter, fun hcs => absurd hcs hbefore⟩
  · exact hother cs' hcs

lemma filterMap_entered_flushes {l : List HookEvent} (hl : ∀ e ∈ l, e = .flush) :
    (l.map Obs.call).filterMap Obs.entered = [] := by
  apply List.filterMap_eq_nil_iff.mpr
  intro o ho
  obtain ⟨e, he, rfl⟩ := List.mem_map.mp ho
  rw [hl e he]
  rfl

/-- Calls are no executions. -/
@[simp] lemma filterMap_executed_calls (l : List HookEvent) :
    (l.map Obs.call).filterMap Obs.executed = [] := by
  apply List.filterMap_eq_nil_iff.mpr
  intro o ho
  obtain ⟨e, -, rfl⟩ := List.mem_map.mp ho
  rfl

lemma executed_setVmi (s : Smp) (v : Monitor) : (s.setVmi v).executed = s.executed := by
  rw [executed, setVmi, List.filterMap_append, filterMap_executed_calls, List.append_nil]
  rfl

lemma entered_setVmi_of_append {v : Monitor} {l : List HookEvent}
    (hl : v.hookCalls = s.vmi.hookCalls ++ l) :
    (s.setVmi v).entered = s.entered ++ (l.map Obs.call).filterMap Obs.entered := by
  rw [entered, setVmi, hl, List.drop_left, List.filterMap_append]
  rfl

/-- A handler that calls nothing. -/
lemma entered_setVmi_of_quiet {v : Monitor} (hv : v.hookCalls = s.vmi.hookCalls) :
    (s.setVmi v).entered = s.entered := by
  rw [entered_setVmi_of_append (l := []) (by rw [hv, List.append_nil])]
  simp

lemma InOrder.arming (hs : InOrder h s) {v v' : Monitor}
    (hstate : v.vmiStateTable = s.vmi.vmiStateTable)
    (haddr : v.vmiStepAddrTable = s.vmi.vmiStepAddrTable)
    (hcalls : v.hookCalls = s.vmi.hookCalls) (hstep : ArmingStep h v v') :
    InOrder h (s.setVmi v') := by
  have hsame := hstep.sameSteps
  obtain ⟨l, hl, hflush⟩ := hsame.hookCalls
  have hover : ∀ cs, (s.setVmi v').Ahead h cs ↔ s.Ahead h cs := by
    intro cs
    rw [Ahead, Ahead, Monitor.SteppingOver, Monitor.SteppingOver, setVmi, hsame.vmiStateTable,
      hsame.vmiStepAddrTable, hstate, haddr]
  refine hs.congr ?_ (executed_setVmi s v') hover fun _ _ => rfl
  rw [entered_setVmi_of_append (hcalls ▸ hl), filterMap_entered_flushes hflush, List.append_nil]

lemma entered_recordExec (h : Hooks) (s : Smp) (cs : ℕ) :
    (s.recordExec h cs).entered = s.entered := by
  rw [entered, recordExec]
  split_ifs
  · rw [List.filterMap_append]
    exact List.append_nil _
  · rfl

lemma executed_recordExec (h : Hooks) (s : Smp) (cs : ℕ) :
    (s.recordExec h cs).executed = s.executed ++
      if (s.cpus cs).env.eip = h.vmiAddr then [((cs : ℤ), (s.cpus cs).env)] else [] := by
  rw [executed, recordExec]
  split_ifs
  · rw [List.filterMap_append]
    rfl
  · rw [List.append_nil]
    rfl

/-- The instruction at the entry hook is executed by the vCPU that is ahead, and then nobody is. -/
lemma InOrder.retire (hs : InOrder h s) (hcons : Consistent h .registry s)
    (hcalls : CallsInStep h s cs) {env : CPUX86State} {mem : UInt64 → UInt8} {resume : Bool}
    (hown : OwnStep h s (.retire cs env mem resume))
    (hstep : s.step h (.retire cs env mem resume) = some s') : InOrder h s' := by
  obtain ⟨hcan, hs'⟩ := step_retire hstep
  have hentered : s'.entered = s.entered := by
    rw [hs']
    exact entered_recordExec h s cs
  have hexecuted : s'.executed = s.executed ++
      if (s.cpus cs).env.eip = h.vmiAddr then [((cs : ℤ), (s.cpus cs).env)] else [] := by
    rw [hs']
    exact executed_recordExec h s cs
  have hother : ∀ cs', cs' ≠ cs → (s'.Ahead h cs' ↔ s.Ahead h cs') := by
    intro cs' hcs
    simp [hs', Ahead, SteppingOver, setCpu, setMem, hcs]
  -- a vCPU that is stepped has a debug exit to be handled now
  have hafter : s.vmi.vmiStateTable cs = .stepping → ¬ s'.Ahead h cs := by
    rintro hstate ⟨-, htrap⟩
    have hsingle := (hcons.stepOver.single cs).mpr hstate
    obtain ⟨-, hmask, -⟩ := hcalls.ahead hstate hcan.1
    simp [hs', setCpu, hsingle, hmask] at htrap
  by_cases heip : (s.cpus cs).env.eip = h.vmiAddr
  · have hover := hown hcan heip
    rw [if_pos heip] at hexecuted
    have hnone : ∀ cs', ¬ s'.Ahead h cs' := by
      intro cs' hcs'
      by_cases hcs : cs' = cs
      · subst hcs
        exact hafter hover.1 hcs'
      · exact hcs (hcons.stepOver.unique cs' cs _ ((hother cs' hcs).mp hcs').1 hover)
    refine ⟨fun _ => ?_, fun cs' hcs' => absurd hcs' (hnone cs')⟩
    rw [hentered, hexecuted]
    exact hs.ahead cs ⟨hover, hcan.1⟩
  · rw [if_neg heip, List.append_nil] at hexecuted
    have hbefore : ¬ s.vmi.SteppingOver cs h.vmiAddr := by
      rintro ⟨hstate, haddr⟩
      obtain ⟨hpc, -, -⟩ := hcalls.ahead hstate hcan.1
      exact heip (hpc.trans haddr)
    have hahead := ahead_iff_of_others hother (fun hcs => hbefore hcs.1) fun hcs =>
      hbefore (by simpa [hs', SteppingOver, setCpu, setMem] using hcs.1)
    refine hs.congr hentered hexecuted hahead ?_
    intro cs' hcs'
    have hcs : cs' ≠ cs := by
      rintro rfl
      exact hbefore ((hahead cs').mp hcs').1
    simp [hs', setCpu, setMem, hcs]

/-- A vCPU that changes while nobody steps it over the entry hook. -/
lemma InOrder.setCpu (hs : InOrder h s) (hbefore : ¬ s.vmi.SteppingOver cs h.vmiAddr) (c : VCpu) :
    InOrder h (s.setCpu cs c) := by
  have hahead : ∀ cs', (s.setCpu cs c).Ahead h cs' ↔ s.Ahead h cs' := by
    have hnot : ¬ s.Ahead h cs := fun hcs => hbefore hcs.1
    have hothers : ∀ cs', cs' ≠ cs → ((s.setCpu cs c).Ahead h cs' ↔ s.Ahead h cs') :=
      fun cs' hcs => by simp [Ahead, Smp.setCpu, hcs]
    exact ahead_iff_of_others hothers hnot fun hcs => hbefore hcs.1
  refine hs.congr rfl rfl hahead fun cs' hcs' => ?_
  have hcs : cs' ≠ cs := by
    rintro rfl
    exact hbefore hcs'.1
  simp [Smp.setCpu, hcs]

/-- While the breakpoint is planted, nobody is stepped over it. -/
lemma InOrder.fetchInt3 (hs : InOrder h s) (hcons : Consistent h .registry s)
    (hcalls : CallsInStep h s cs) (hstep : s.step h (.fetchInt3 cs) = some s') : InOrder h s' := by
  obtain ⟨⟨hnone, hplanted⟩, rfl⟩ := step_fetchInt3 hstep
  refine hs.setCpu ?_ _
  rintro ⟨hstate, haddr⟩
  obtain ⟨heip, -, -⟩ := hcalls.ahead hstate hnone
  have hfree := (hcons.stepOver.registered_iff hplanted.1).mp hplanted.2.1
  exact hfree cs ⟨hstate, heip.symm⟩

lemma entered_hookEvent {pc : UInt64} (hpc : h.IsHook pc) (cs : ℕ) (env : CPUX86State)
    (tv : Timeval) : Obs.entered (.call (hookEvent h cs env tv pc))
      = if pc = h.vmiAddr then some ((cs : ℤ), env) else none := by
  rw [hookEvent]
  by_cases haddr : pc = h.vmiAddr
  · subst haddr
    rw [if_neg h.not_isRet_addr, if_pos rfl, Obs.entered]
  · have hret : h.IsRet pc := hpc.resolve_left haddr
    rw [if_pos hret, if_neg haddr, Obs.entered]

/-! ### Debug exits -/

/-- A handler that runs for `cs` leaves the others where they are. -/
def AsideFrom (h : Hooks) (s : Smp) (cs : ℕ) (v : Monitor) : Prop :=
  ∀ cs', cs' ≠ cs → (v.SteppingOver cs' h.vmiAddr ↔ s.vmi.SteppingOver cs' h.vmiAddr)

variable {v : Monitor} {c : VCpu}

lemma ahead_handled_self :
    ((s.setVmi v).setCpu cs c).Ahead h cs ↔ v.SteppingOver cs h.vmiAddr ∧ c.trap = none := by
  simp [Ahead, Smp.setCpu, setVmi]

lemma AsideFrom.ahead_iff (hother : AsideFrom h s cs v) (cs' : ℕ) (hcs : cs' ≠ cs) :
    ((s.setVmi v).setCpu cs c).Ahead h cs' ↔ s.Ahead h cs' := by
  rw [Ahead, Ahead, ← hother cs' hcs]
  simp [Smp.setCpu, setVmi, hcs]

lemma env_handled (henv : c.env = (s.cpus cs).env) (cs' : ℕ) :
    (((s.setVmi v).setCpu cs c).cpus cs').env = (s.cpus cs').env := by
  by_cases hcs : cs' = cs
  · subst hcs
    simpa [Smp.setCpu] using henv
  · simp [Smp.setCpu, setVmi, hcs]

lemma executed_handled : ((s.setVmi v).setCpu cs c).executed = s.executed := executed_setVmi s v

/-- A debug exit in which nothing is called, and after which `cs` is not ahead. -/
lemma InOrder.quiet (hs : InOrder h s) (hbefore : ¬ s.Ahead h cs)
    (hother : AsideFrom h s cs v) (henv : c.env = (s.cpus cs).env)
    (hcalls : v.hookCalls = s.vmi.hookCalls)
    (hafter : ¬ (v.SteppingOver cs h.vmiAddr ∧ c.trap = none)) :
    InOrder h ((s.setVmi v).setCpu cs c) := by
  have hentered : ((s.setVmi v).setCpu cs c).entered = s.entered := entered_setVmi_of_quiet hcalls
  have hahead := ahead_iff_of_others (hother.ahead_iff (c := c)) hbefore
    (mt ahead_handled_self.mp hafter)
  exact hs.congr hentered executed_handled hahead fun cs' _ => env_handled henv cs'

/-- A hit at the entry hook is the one call that is ahead now; a hit at the return hook is none. -/
lemma InOrder.breakpointHit (hs : InOrder h s) (hbefore : ¬ s.Ahead h cs)
    (hother : AsideFrom h s cs v) (henv : c.env = (s.cpus cs).env) (htrap : c.trap = none)
    {pc : UInt64} {tv : Timeval} (hpc : h.IsHook pc) (hfree : ∀ cs', ¬ s.vmi.SteppingOver cs' pc)
    (hcalls : v.hookCalls = s.vmi.hookCalls ++ [hookEvent h cs (s.cpus cs).env tv pc])
    (hover : v.SteppingOver cs h.vmiAddr ↔ pc = h.vmiAddr) :
    InOrder h ((s.setVmi v).setCpu cs c) := by
  have hentered : ((s.setVmi v).setCpu cs c).entered = s.entered ++
      if pc = h.vmiAddr then [((cs : ℤ), (s.cpus cs).env)] else [] := by
    refine (entered_setVmi_of_append hcalls).trans (congrArg _ ?_)
    rw [List.map_singleton, List.filterMap_cons, entered_hookEvent hpc]
    split_ifs <;> rfl
  have hself : ((s.setVmi v).setCpu cs c).Ahead h cs ↔ pc = h.vmiAddr := by
    rw [ahead_handled_self, hover, htrap]
    exact and_iff_left rfl
  by_cases haddr : pc = h.vmiAddr
  · have hnone : ∀ cs', ¬ s.Ahead h cs' := fun cs' hcs' => hfree cs' (haddr ▸ hcs'.1)
    rw [if_pos haddr] at hentered
    refine ⟨fun hall => absurd (hself.mpr haddr) (hall cs), fun cs' hcs' => ?_⟩
    have hcs : cs' = cs := by
      by_contra hcs
      exact hnone cs' ((hother.ahead_iff cs' hcs).mp hcs')
    rw [hcs, hentered, executed_handled, env_handled henv, hs.even hnone]
  · rw [if_neg haddr, List.append_nil] at hentered
    have hahead := ahead_iff_of_others (hother.ahead_iff (c := c)) hbefore
      fun hcs => haddr (hself.mp hcs)
    exact hs.congr hentered executed_handled hahead fun cs' _ => env_handled henv cs'

/-- The monitor claims the debug exit of every vCPU that is stepped over a hook. -/
lemma handleDebug_consumed_of_stepping (hcons : Consistent h .registry s)
    (hcalls : CallsInStep h s cs) {info : KvmDebugExitArch} (htrap : (s.cpus cs).trap = some info)
    (hstate : s.vmi.vmiStateTable cs = .stepping) (tv : Timeval) :
    (kvmHandleDebug h cs (s.cpus cs).env tv info (s.setFaults []).vmi).1 = .consumed := by
  have hdb := (hcalls.done info hstate htrap).1
  rcases hcons.traps cs info htrap with ⟨rfl, -⟩ | rfl
  · cases hdb
  · rw [kvmHandleDebug_stepTrap h (v := (s.setFaults []).vmi) hcons.stepOver.enabled hstate
      (s.cpus cs).env tv (s.cpus cs).env.eip]

lemma InOrder.debugExit (hs : InOrder h s) (hcons : Consistent h .registry s)
    (hcalls : CallsInStep h s cs) {tv : Timeval}
    (hstep : s.step h (.debugExit cs tv []) = some s') : InOrder h s' := by
  obtain ⟨info, outcome, v, htrap, hhandle, rfl⟩ := step_debugExit hstep
  have hbefore : ¬ s.Ahead h cs := by
    rintro ⟨-, hnone⟩
    rw [htrap] at hnone
    cases hnone
  rcases kvmHandleDebug_cases h cs (s.cpus cs).env tv info (s.setFaults []).vmi with
    ⟨hdb, hstate, heq⟩ | ⟨hdb, hreg, hpc, hstate, heq⟩ | ⟨r, hr, heq⟩
  · -- the step of `cs` is complete
    obtain ⟨err, site, f, -, -, hv⟩ := vmiMonitorStepComplete_spec cs (s.setFaults []).vmi
    obtain ⟨rfl, rfl⟩ := Prod.mk.inj (hhandle.symm.trans (heq.trans (congrArg _ hv)))
    refine hs.quiet hbefore ?_ rfl rfl ?_
    · intro cs' hcs
      simp [SteppingOver, setFaults, hcs]
    · rintro ⟨hover, -⟩
      simp [SteppingOver] at hover
  · -- `cs` has hit a hook
    have hfree := (hcons.stepOver.registered_iff hpc).mp hreg
    obtain ⟨err, site, f, hrem, hclean, hhit, -⟩ :=
      vmiMonitorBreakpointHit_spec h cs (s.cpus cs).env tv info.pc (s.setFaults []).vmi
    obtain rfl := HookSites.removed (H := .registry) (hcons.stepOver.free _ hpc hfree) hrem
      (hclean rfl).1
    obtain ⟨rfl, rfl⟩ := Prod.mk.inj (hhandle.symm.trans (heq.trans (congrArg _ (hhit rfl))))
    refine hs.breakpointHit hbefore ?_ rfl rfl hpc hfree rfl ?_
    · intro cs' hcs
      simp [SteppingOver, setFaults, hcs]
    · simp [SteppingOver]
  · -- the monitor does not claim the debug exit
    obtain ⟨rfl, rfl⟩ := Prod.mk.inj (hhandle.symm.trans heq)
    refine hs.quiet hbefore (fun _ _ => Iff.rfl) rfl rfl ?_
    rintro ⟨⟨hstate, -⟩, -⟩
    have hconsumed := handleDebug_consumed_of_stepping hcons hcalls htrap hstate tv
    rw [heq] at hconsumed
    exact hr hconsumed

/-! ### Runs -/

/-- Every undisturbed step in which the entry hook is executed by the vCPU that is being stepped
over it keeps the calls in order. -/
theorem inOrder_step (hs : InOrder h s) (htracked : Tracked h s) (hund : s.Undisturbed e)
    (hown : OwnStep h s e) (hstep : s.step h e = some s') : InOrder h s' := by
  obtain ⟨hf, hint⟩ := hund
  have hcons := htracked.consistent
  cases e with
  | retire cs env mem resume => exact hs.retire hcons (htracked.calls cs) hown hstep
  | fetchInt3 cs => exact hs.fetchInt3 hcons (htracked.calls cs) hstep
  | debugExit cs tv faults =>
    obtain rfl : faults = [] := hf
    exact hs.debugExit hcons (htracked.calls cs) hstep
  | interrupt cs env =>
    obtain ⟨-, rfl⟩ := step_interrupt hstep
    exact hs.setCpu (StepOver.not_steppingOver_of_normal (hint cs env rfl) _) _
  | timerExpiry faults =>
    obtain ⟨-, rfl⟩ := step_timerExpiry hstep
    exact hs.arming (v := { (s.setFaults faults).vmi with vmiArmTimer := some ⟨false⟩ }) rfl rfl
      rfl (vmiTryArm_arming h _)
  | vmStateChange running state faults =>
    obtain rfl := Option.some.inj hstep
    exact hs.arming (v := (s.setFaults faults).vmi) rfl rfl rfl
      (vmiVmStateChange_arming h running state hcons.stepOver.enabled)
  | fwCfgDma d mem faults =>
    obtain rfl := Option.some.inj hstep
    exact hs.arming (v := ((s.setMem mem).setFaults faults).vmi) rfl rfl rfl
      (fwCfgDmaTransferEnd_arming h d _)
  | overwrite mem =>
    obtain rfl := Option.some.inj hstep
    exact hs.congr rfl rfl (fun _ => Iff.rfl) fun _ _ => rfl

/-- A run from an armed machine keeps the calls in order. -/
theorem inOrder_run {s₀ : Smp} (hstart : ArmedStart h s₀) {es : List SmpEvent}
    (hund : Along (step h) Undisturbed s₀ es) (hown : Along (step h) (OwnStep h) s₀ es)
    (hrun : run (step h) s₀ es = some s) : InOrder h s ∧ Tracked h s :=
  (hund.and hown).run_invariant (I := fun s => InOrder h s ∧ Tracked h s)
    (fun _ _ _ hs hboth hstep => ⟨inOrder_step hs.1 hs.2 hboth.1 hboth.2 hstep,
      Tracked.step _ _ _ hs.2 hboth.1 hstep⟩)
    ⟨hstart.inOrder, hstart.consistent, hstart.callsInStep⟩ hrun

/-- `l` is the call for the execution that is still to come, if a vCPU is ahead. -/
structure UnderWay (h : Hooks) (s : Smp) (l : List (ℤ × CPUX86State)) : Prop where
  length : l.length ≤ 1
  mem : ∀ x, x ∈ l ↔ ∃ cs : ℕ, s.Ahead h cs ∧ x = ((cs : ℤ), (s.cpus cs).env)

lemma InOrder.exists_underWay (hs : InOrder h s) (hcons : Consistent h .registry s) :
    ∃ l, s.UnderWay h l ∧ s.entered = s.executed ++ l := by
  by_cases hnone : ∀ cs, ¬ s.Ahead h cs
  · refine ⟨[], ⟨Nat.zero_le 1, fun x => ?_⟩, by rw [hs.even hnone, List.append_nil]⟩
    constructor
    · intro hx
      cases hx
    · rintro ⟨cs, hcs, -⟩
      exact absurd hcs (hnone cs)
  · obtain ⟨cs, hcs⟩ := not_forall_not.mp hnone
    refine ⟨[((cs : ℤ), (s.cpus cs).env)], ⟨Nat.le_refl 1, fun x => ?_⟩, hs.ahead cs hcs⟩
    rw [List.mem_singleton]
    constructor
    · rintro rfl
      exact ⟨cs, hcs, rfl⟩
    · rintro ⟨cs', hcs', rfl⟩
      rw [hcons.stepOver.unique cs' cs _ hcs'.1 hcs.1]

/-! ### One vCPU -/

end Smp

/-- The vCPU that takes part in an event. -/
def SmpEvent.cpu : SmpEvent → Option ℕ
  | .retire cs _ _ _ => some cs
  | .interrupt cs _ => some cs
  | .fetchInt3 cs => some cs
  | .debugExit cs _ _ => some cs
  | .timerExpiry _ => none
  | .vmStateChange .. => none
  | .fwCfgDma .. => none
  | .overwrite _ => none

namespace Smp

variable {h : Hooks} {s s' : Smp} {e : SmpEvent} {cs : ℕ}

/-- Events without failures and without interrupts. -/
lemma along_undisturbed {es : List SmpEvent}
    (hes : ∀ e ∈ es, e.faults = [] ∧ ∀ cs env, e ≠ .interrupt cs env) :
    Along (step h) Undisturbed s es := by
  refine (along_iff s es).mpr fun pre e post t hsplit _ => ?_
  obtain ⟨hf, hint⟩ := hes e (by simp [hsplit])
  exact ⟨hf, fun cs env he => absurd he (hint cs env)⟩

/-- Nobody but `cs` is being stepped over a hook. -/
structure OnlyStepping (s : Smp) (cs : ℕ) : Prop where
  enabled : s.vmi.vmiEnabled = true
  only : ∀ cs', s.vmi.vmiStateTable cs' = .stepping → cs' = cs

lemma OnlyStepping.step (s : Smp) (e : SmpEvent) (s' : Smp) (hs : s.OnlyStepping cs)
    (he : ∀ cs' ∈ e.cpu, cs' = cs) (hstep : s.step h e = some s') : s'.OnlyStepping cs := by
  have hvmi := step_vmi hs.enabled hstep
  refine ⟨hvmi.vmiEnabled.trans hs.enabled, fun cs' hcs' => ?_⟩
  cases hvmi with
  | idle f heq =>
    rw [heq] at hcs'
    exact hs.only cs' hcs'
  | arming harm =>
    rw [harm.sameSteps.vmiStateTable] at hcs'
    exact hs.only cs' hcs'
  | hit cs₁ tv info htv _ _ _ _ _ heq =>
    have hcs₁ : cs₁ = cs := he cs₁ (by rw [htv]; rfl)
    obtain ⟨err, site, f, -, -, hnone, hsome⟩ :=
      vmiMonitorBreakpointHit_spec h cs₁ (s.cpus cs₁).env tv info.pc (s.entering e)
    by_contra hne
    have hne₁ : cs' ≠ cs₁ := fun heq => hne (heq.trans hcs₁)
    apply hne
    apply hs.only
    by_cases herr : err = none
    · rw [heq, hnone herr] at hcs'
      simp only [Function.update_of_ne hne₁] at hcs'
      exact hcs'
    · rw [heq, hsome herr] at hcs'
      exact hcs'
  | complete cs₁ _ heq =>
    obtain ⟨err, site, f, -, -, hv⟩ := vmiMonitorStepComplete_spec cs₁ (s.entering e)
    rw [heq, hv] at hcs'
    by_cases hcs : cs' = cs₁
    · subst hcs
      simp at hcs'
    · simp only [Function.update_of_ne hcs] at hcs'
      exact hs.only cs' hcs'

/-- With one vCPU nobody else is ever stepped over the entry hook. -/
theorem along_noOtherStep {s₀ : Smp} (hstart : ArmedStart h s₀) {es : List SmpEvent}
    (hcpu : ∀ e ∈ es, ∀ cs' ∈ e.cpu, cs' = cs) : Along (step h) (NoOtherStep h) s₀ es := by
  have hone : s₀.OnlyStepping cs := by
    refine ⟨hstart.enabled, fun cs' hcs' => ?_⟩
    rw [hstart.normal cs'] at hcs'
    cases hcs'
  have hevents : Along (step h) (fun _ e => ∀ cs' ∈ e.cpu, cs' = cs) s₀ es :=
    along_of_forall hcpu s₀
  refine Along.imp OnlyStepping.step ?_ hone hevents hevents
  intro s e hs he _
  cases e with
  | retire cs₁ env mem resume =>
    intro _ _ cs' hcs'
    rw [hs.only cs' hcs'.1, he cs₁ rfl]
  | interrupt _ _ => trivial
  | fetchInt3 _ => trivial
  | debugExit _ _ _ => trivial
  | timerExpiry _ => trivial
  | vmStateChange _ _ _ => trivial
  | fwCfgDma _ _ _ => trivial
  | overwrite _ => trivial

/-- Where the hook bytes are the monitor's alone, that is enough. -/
lemma along_ownStep {s₀ : Smp} (hstart : ArmedStart h s₀) {es : List SmpEvent}
    (hclean : Along (step h) (Clean h) s₀ es) (honly : Along (step h) (NoOtherStep h) s₀ es) :
    Along (step h) (OwnStep h) s₀ es :=
  Along.imp (I := fun s => StepOver h (.bytes s₀.origBytes) s.vmi)
    (fun _ _ _ hs hc hstep => stepOver_step hs hc.1 (hc.respects _) hstep)
    (fun _ e hs _ => (ownStep_iff hs e).mpr) (hstart.stepOver fun _ _ => rfl) hclean honly

end Smp

/-- **Order.** In a run from an armed machine in which no call fails, no vCPU is interrupted while
it is `VMI_STEPPING`, and every vCPU that executes the entry hook is being stepped over it, the
calls of `vmi_handle_entry` are those executions, vCPU by vCPU and with the registers, in the same
order. At most one call more is made, for the vCPU that is about to execute the instruction. -/
theorem smp_entered_eq (h : Hooks) (s₀ s : Smp) (es : List SmpEvent) (hstart : s₀.ArmedStart h)
    (hund : Along (Smp.step h) Smp.Undisturbed s₀ es)
    (hown : Along (Smp.step h) (Smp.OwnStep h) s₀ es) (hrun : run (Smp.step h) s₀ es = some s) :
    ∃ l, s.UnderWay h l ∧ s.entered = s.executed ++ l := by
  obtain ⟨hs, htracked⟩ := Smp.inOrder_run hstart hund hown hrun
  exact hs.exists_underWay htracked.consistent

/-- `smp_entered_eq` where one vCPU is through with the entry hook and the next one is ahead. -/
theorem nginx_smp_entered_eq :
    ∃ s, run (Smp.step nginxHooks) nginxSmp
        [.fetchInt3 0, .debugExit 0 ⟨0, 0⟩ [], .retire 0 ⟨fun _ => 0, 0x101001⟩ nginxMem false,
          .debugExit 0 ⟨0, 0⟩ [], .fetchInt3 1, .debugExit 1 ⟨0, 0⟩ []] = some s ∧
      ∃ l, s.UnderWay nginxHooks l ∧ s.entered = s.executed ++ l := by
  have hund : Along (Smp.step nginxHooks) Smp.Undisturbed nginxSmp
      [.fetchInt3 0, .debugExit 0 ⟨0, 0⟩ [], .retire 0 ⟨fun _ => 0, 0x101001⟩ nginxMem false,
        .debugExit 0 ⟨0, 0⟩ [], .fetchInt3 1, .debugExit 1 ⟨0, 0⟩ []] :=
    ⟨⟨rfl, nofun⟩, fun _ _ => ⟨⟨rfl, nofun⟩, fun _ _ => ⟨⟨rfl, nofun⟩, fun _ _ => ⟨⟨rfl, nofun⟩,
      fun _ _ => ⟨⟨rfl, nofun⟩, fun _ _ => ⟨⟨rfl, nofun⟩, fun _ _ => trivial⟩⟩⟩⟩⟩⟩
  have hown : Along (Smp.step nginxHooks) (Smp.OwnStep nginxHooks) nginxSmp
      [.fetchInt3 0, .debugExit 0 ⟨0, 0⟩ [], .retire 0 ⟨fun _ => 0, 0x101001⟩ nginxMem false,
        .debugExit 0 ⟨0, 0⟩ [], .fetchInt3 1, .debugExit 1 ⟨0, 0⟩ []] := by
    refine ⟨trivial, fun s hs => ⟨trivial, fun s' hs' => ⟨?_, fun _ _ => ⟨trivial, fun _ _ =>
      ⟨trivial, fun _ _ => ⟨trivial, fun _ _ => trivial⟩⟩⟩⟩⟩⟩
    obtain rfl := Option.some.inj hs
    obtain rfl := Option.some.inj hs'
    exact fun _ _ => ⟨rfl, rfl⟩
  exact ⟨_, rfl, smp_entered_eq nginxHooks nginxSmp _ _ armedStart_nginxSmp hund hown rfl⟩

end SyscallMonitor
