import SyscallMonitor.Monitor
import SyscallMonitor.Lib.Stutter

/-!
# Transparency

A guest with one vCPU is a function `next` that executes one instruction. The same guest is run by
itself and under the patched `kvm_handle_debug`. The monitored machine keeps up with the guest
instruction by instruction: an instruction at a hook takes four steps (trap, hit, single step, step
completion), any other one takes one. What is seen of the two runs, hook bytes apart, is the same.
-/

namespace SyscallMonitor

open Lib

universe u

variable {R : Type u}

/-! ### The guest -/

/-- The state of a guest with one vCPU; `rest` is what the vCPU holds beyond `env`. -/
@[ext]
structure Guest (R : Type u) where
  env : CPUX86State
  rest : R
  mem : UInt64 → UInt8

/-- The state of the guest, hook bytes apart. -/
def Guest.erase (h : Hooks) (g : Guest R) : Guest R :=
  { g with mem := fun a => if h.IsHook a then 0 else g.mem a }

/-- States that agree hook bytes apart, and in their hook bytes, are equal. -/
lemma Guest.eq_of_erase_eq {h : Hooks} {g g' : Guest R} (herase : g'.erase h = g.erase h)
    (hhook : ∀ a, h.IsHook a → g'.mem a = g.mem a) : g' = g := by
  simp only [Guest.erase, Guest.mk.injEq] at herase
  obtain ⟨henv, hrest, hmem⟩ := herase
  refine Guest.ext henv hrest (funext fun a => ?_)
  by_cases ha : h.IsHook a
  · exact hhook a ha
  · simpa [ha] using congrFun hmem a

/-- The guest depends on a hook byte only by fetching the instruction that starts there, and never
writes one. -/
structure HookOblivious (h : Hooks) (next : Guest R → Guest R) : Prop where
  never_writes : ∀ g a, h.IsHook a → (next g).mem a = g.mem a
  only_fetches : ∀ g g', g'.env = g.env → g'.rest = g.rest →
    (∀ a, (h.IsHook a → a = g.env.eip) → g'.mem a = g.mem a) → (next g').erase h = (next g).erase h

/-- What is seen of a run. -/
inductive Item (R : Type u) where
  | handleEntry (cpuIndex : Int) (env : CPUX86State)
  | handleReturn (cpuIndex : Int) (env : CPUX86State)
  | flushPending
  | retired (g : Guest R)

/-- A call into the capture, without its time. -/
def HookEvent.item : HookEvent → Item R
  | .entry cpuIndex env _ => .handleEntry cpuIndex env
  | .ret cpuIndex env _   => .handleReturn cpuIndex env
  | .flush                => .flushPending

/-- What is to be seen of one instruction: the call of `vmi_handle_entry` or `vmi_handle_return`
with the registers before it, if it is at a hook, and the guest after it. -/
def Guest.emit (h : Hooks) (cs : ℕ) (next : Guest R → Guest R) (g : Guest R) : List (Item R) :=
  (if h.IsRet g.env.eip then [.handleReturn cs g.env]
    else if h.IsHook g.env.eip then [.handleEntry cs g.env]
    else []) ++ [.retired ((next g).erase h)]

/-! ### The monitored machine -/

/-- The vCPU under KVM, with the monitor. The guest's memory is in `vmi.kvm`; `trap` is a debug exit
that is still to be handled, `stopped` says that one was not consumed. -/
structure Machine (R : Type u) where
  vmi : Monitor
  env : CPUX86State
  rest : R
  trap : Option KvmDebugExitArch
  stopped : Bool
  ticks : ℕ
  trace : List (Item R)

namespace Machine

/-- The guest as the CPU sees it, with the planted bytes. -/
def guest (m : Machine R) : Guest R := ⟨m.env, m.rest, m.vmi.kvm.mem⟩

/-- The guest as it would be without the monitor. -/
def unmonitored (h : Hooks) (m : Machine R) : Guest R :=
  { m.guest with
    mem := fun a => if h.IsHook a then (m.vmi.kvm.site a).guestByte else m.vmi.kvm.mem a }

/-- The CPU executes the instruction at its pc; a single-stepped one raises a debug exit. -/
def execute (h : Hooks) (cs : ℕ) (next : Guest R → Guest R) (m : Machine R) : Machine R :=
  { m with
    vmi.kvm.mem := (next m.guest).mem
    env := (next m.guest).env
    rest := (next m.guest).rest
    trap :=
      if m.vmi.kvm.singlestepEnabled cs ≠ 0 then some (stepTrap (next m.guest).env.eip) else none
    trace := m.trace ++ [.retired ((next m.guest).erase h)] }

/-- The debug exit `info` is handled, at the time `tv`. -/
def debugExit (h : Hooks) (cs : ℕ) (tv : Timeval) (info : KvmDebugExitArch) (m : Machine R) :
    Machine R :=
  let r := kvmHandleDebug h cs m.env tv info m.vmi
  { m with
    vmi := r.2
    trap := none
    stopped := r.1 ≠ .consumed
    ticks := m.ticks + 1
    trace := m.trace ++ (r.2.hookCalls.drop m.vmi.hookCalls.length).map HookEvent.item }

/-- One step of the machine. A planted `int3` raises a debug exit instead of being executed. -/
def step (h : Hooks) (cs : ℕ) (next : Guest R → Guest R) (clock : ℕ → Timeval) (m : Machine R) :
    Machine R :=
  if m.stopped then m
  else
    match m.trap with
    | some info => m.debugExit h cs (clock m.ticks) info
    | none =>
      if h.IsHook m.env.eip ∧ (m.vmi.kvm.site m.env.eip).Live then
        { m with trap := some (int3Trap m.env.eip) }
      else m.execute h cs next

/-- Every hook is armed with one reference and all memory accesses go through; the vCPU is in
`VMI_NORMAL` with no debug exit pending. -/
structure Ready (h : Hooks) (cs : ℕ) (m : Machine R) : Prop where
  running : m.stopped = false
  noTrap : m.trap = none
  enabled : m.vmi.vmiEnabled = true
  normal : m.vmi.vmiStateTable cs = .normal
  noStep : m.vmi.kvm.singlestepEnabled cs = 0
  noFaults : m.vmi.kvm.faults = []
  armed : ∀ a, h.IsHook a → ∃ b, m.vmi.kvm.site a = ⟨some ⟨b, 1⟩, int3⟩

/-- The vCPU has been told to step over the hook at its pc. -/
structure Stepping (h : Hooks) (cs : ℕ) (m : Machine R) : Prop where
  running : m.stopped = false
  noTrap : m.trap = none
  enabled : m.vmi.vmiEnabled = true
  stepping : m.vmi.vmiStateTable cs = .stepping
  single : m.vmi.kvm.singlestepEnabled cs ≠ 0
  noFaults : m.vmi.kvm.faults = []
  hook : h.IsHook m.env.eip
  addr : m.vmi.vmiStepAddrTable cs = m.env.eip
  freed : m.vmi.kvm.swBreakpoints m.env.eip = none
  armed : ∀ a, h.IsHook a → a ≠ m.env.eip → ∃ b, m.vmi.kvm.site a = ⟨some ⟨b, 1⟩, int3⟩

/-- The vCPU has stepped over the hook `pc`, and the debug exit of the step is pending. -/
structure Stepped (h : Hooks) (cs : ℕ) (pc : UInt64) (m : Machine R) : Prop where
  running : m.stopped = false
  trap : m.trap = some (stepTrap m.env.eip)
  enabled : m.vmi.vmiEnabled = true
  stepping : m.vmi.vmiStateTable cs = .stepping
  noFaults : m.vmi.kvm.faults = []
  hook : h.IsHook pc
  addr : m.vmi.vmiStepAddrTable cs = pc
  freed : m.vmi.kvm.swBreakpoints pc = none
  armed : ∀ a, h.IsHook a → a ≠ pc → ∃ b, m.vmi.kvm.site a = ⟨some ⟨b, 1⟩, int3⟩

variable {h : Hooks} {cs : ℕ} {next : Guest R → Guest R} {clock : ℕ → Timeval} {m m' : Machine R}

/-- An attempt in which no access fails, on hooks that nobody else uses, makes a machine ready. -/
theorem ready_of_vmiArmOnce {k : Kvm} (hf : k.faults = [])
    (hcount : ∀ a, h.IsHook a → (k.site a).useCount ≤ 1) (hkvm : m.vmi.kvm = (vmiArmOnce h k).2)
    (hrunning : m.stopped = false) (htrap : m.trap = none) (hen : m.vmi.vmiEnabled = true)
    (hnormal : m.vmi.vmiStateTable cs = .normal) (hstep : k.singlestepEnabled cs = 0) :
    m.Ready h cs := by
  obtain ⟨k', harm, hf', hsites⟩ := vmiArmOnce_clean hf hcount
  rw [harm] at hkvm
  refine ⟨hrunning, htrap, hen, hnormal, ?_, ?_, ?_⟩
  · have hsame := (vmiArmOnce_sameElsewhere h k).singlestepEnabled
    rw [harm] at hsame
    rw [hkvm, hsame, hstep]
  · rw [hkvm, hf']
  · intro a ha
    rw [hkvm, hsites a ha]
    exact ⟨_, rfl⟩

/-! ### Executing an instruction -/

@[simp] lemma unmonitored_env (m : Machine R) : (m.unmonitored h).env = m.env := rfl

lemma unmonitored_mem_of_isHook (m : Machine R) {a : UInt64} (ha : h.IsHook a) :
    (m.unmonitored h).mem a = (m.vmi.kvm.site a).guestByte := if_pos ha

lemma unmonitored_mem_of_not_isHook (m : Machine R) {a : UInt64} (ha : ¬ h.IsHook a) :
    (m.unmonitored h).mem a = m.vmi.kvm.mem a := if_neg ha

/-- Arming hooks that nobody else uses does nothing to the guest. -/
theorem unmonitored_of_vmiArmOnce {k : Kvm} (hf : k.faults = [])
    (hbp : ∀ a, k.swBreakpoints a = none) (hkvm : m.vmi.kvm = (vmiArmOnce h k).2) :
    m.unmonitored h = ⟨m.env, m.rest, k.mem⟩ := by
  have hcount : ∀ a, h.IsHook a → (k.site a).useCount ≤ 1 := by
    intro a _
    simp [Site.useCount, hbp a]
  obtain ⟨k', harm, -, hsites⟩ := vmiArmOnce_clean hf hcount
  have hsame := vmiArmOnce_sameElsewhere h k
  rw [harm] at hkvm hsame
  refine Guest.ext rfl rfl (funext fun a => ?_)
  by_cases ha : h.IsHook a
  · rw [unmonitored_mem_of_isHook m ha, hkvm, hsites a ha, Site.guestByte_armed]
    simp [Site.guestByte, Kvm.site, hbp a]
  · rw [unmonitored_mem_of_not_isHook m ha, hkvm]
    exact congrArg Site.byte (hsame.site a ha)

/-- Nothing happens to the guest where its registers stay, and its memory does but for a hook, which
keeps the guest's own byte. -/
lemma unmonitored_congr {pc : UInt64} (hpc : h.IsHook pc) (henv : m'.env = m.env)
    (hrest : m'.rest = m.rest)
    (hself : (m'.vmi.kvm.site pc).guestByte = (m.vmi.kvm.site pc).guestByte)
    (hother : ∀ a, a ≠ pc → m'.vmi.kvm.site a = m.vmi.kvm.site a) :
    m'.unmonitored h = m.unmonitored h := by
  refine Guest.ext henv hrest (funext fun a => ?_)
  by_cases ha : h.IsHook a
  · rw [unmonitored_mem_of_isHook m' ha, unmonitored_mem_of_isHook m ha]
    by_cases hne : a = pc
    · rw [hne, hself]
    · rw [hother a hne]
  · have hne : a ≠ pc := by
      rintro rfl
      exact ha hpc
    rw [unmonitored_mem_of_not_isHook m' ha, unmonitored_mem_of_not_isHook m ha]
    exact congrArg Site.byte (hother a hne)

/-- Where no planted byte is at the pc, the instruction does to the guest what it would do without
the monitor. -/
lemma erase_next (hnext : HookOblivious h next)
    (hpc : h.IsHook m.env.eip → m.vmi.kvm.swBreakpoints m.env.eip = none) :
    (next m.guest).erase h = (next (m.unmonitored h)).erase h := by
  apply hnext.only_fetches (m.unmonitored h) m.guest rfl rfl
  intro a ha
  by_cases hhook : h.IsHook a
  · obtain rfl : a = m.env.eip := ha hhook
    rw [unmonitored_mem_of_isHook m hhook]
    simp [Site.guestByte, Kvm.site, hpc hhook, guest]
  · rw [unmonitored_mem_of_not_isHook m hhook]
    rfl

/-- An instruction leaves the hooks as they are. -/
lemma site_execute (hnext : HookOblivious h next) {a : UInt64} (ha : h.IsHook a) :
    (m.execute h cs next).vmi.kvm.site a = m.vmi.kvm.site a :=
  Site.ext rfl (hnext.never_writes m.guest a ha)

/-- The unmonitored guest moves by one instruction. -/
lemma unmonitored_execute (hnext : HookOblivious h next)
    (hpc : h.IsHook m.env.eip → m.vmi.kvm.swBreakpoints m.env.eip = none) :
    (m.execute h cs next).unmonitored h = next (m.unmonitored h) := by
  have herase := erase_next hnext hpc
  refine Guest.eq_of_erase_eq (h := h) ?_ ?_
  · rw [← herase]
    refine Guest.ext rfl rfl (funext fun a => ?_)
    by_cases ha : h.IsHook a
    · simp [Guest.erase, ha]
    · simp [Guest.erase, ha, unmonitored_mem_of_not_isHook, execute]
  · intro a ha
    rw [unmonitored_mem_of_isHook _ ha, site_execute hnext ha, hnext.never_writes _ a ha,
      unmonitored_mem_of_isHook m ha]

lemma step_of_trap (hrun : m.stopped = false) {info : KvmDebugExitArch}
    (htrap : m.trap = some info) :
    m.step h cs next clock = m.debugExit h cs (clock m.ticks) info := by
  simp [step, hrun, htrap]

lemma step_of_planted (hrun : m.stopped = false) (htrap : m.trap = none)
    (hhook : h.IsHook m.env.eip) (hlive : (m.vmi.kvm.site m.env.eip).Live) :
    m.step h cs next clock = { m with trap := some (int3Trap m.env.eip) } := by
  simp [step, hrun, htrap, hhook, hlive]

lemma step_of_not_planted (hrun : m.stopped = false) (htrap : m.trap = none)
    (hpc : h.IsHook m.env.eip → m.vmi.kvm.swBreakpoints m.env.eip = none) :
    m.step h cs next clock = m.execute h cs next := by
  have hnot : ¬ (h.IsHook m.env.eip ∧ (m.vmi.kvm.site m.env.eip).Live) := by
    rintro ⟨hhook, hreg, -⟩
    rw [Kvm.site_bp, hpc hhook] at hreg
    cases hreg
  simp [step, hrun, htrap, hnot]

/-! ### Away from the hooks -/

/-- An instruction that is not at a hook takes one step. -/
lemma Ready.execute (clock : ℕ → Timeval) (hm : m.Ready h cs) (hnext : HookOblivious h next)
    (hpc : ¬ h.IsHook m.env.eip) :
    (m.step h cs next clock).Ready h cs ∧
      (m.step h cs next clock).unmonitored h = next (m.unmonitored h) ∧
      (m.step h cs next clock).trace
        = m.trace ++ [.retired ((next (m.unmonitored h)).erase h)] := by
  have hfree : h.IsHook m.env.eip → m.vmi.kvm.swBreakpoints m.env.eip = none :=
    fun hhook => absurd hhook hpc
  rw [step_of_not_planted hm.running hm.noTrap hfree]
  refine ⟨⟨hm.running, ?_, hm.enabled, hm.normal, hm.noStep, hm.noFaults, ?_⟩,
    unmonitored_execute hnext hfree, ?_⟩
  · simp [Machine.execute, hm.noStep]
  · intro a ha
    rw [site_execute hnext ha]
    exact hm.armed a ha
  · rw [← erase_next hnext hfree]
    rfl

/-! ### At a hook -/

/-- What the capture is called with at a hook is what is to be seen there. -/
lemma item_hookEvent (env : CPUX86State) (tv : Timeval) (pc : UInt64) :
    ((hookEvent h cs env tv pc).item : Item R)
      = if h.IsRet pc then .handleReturn cs env else .handleEntry cs env := by
  rw [hookEvent]
  split_ifs <;> rfl

/-- A planted `int3` is executed, and its debug exit handled. -/
lemma step_step_of_planted (hrun : m.stopped = false) (htrap : m.trap = none)
    (hhook : h.IsHook m.env.eip) (hlive : (m.vmi.kvm.site m.env.eip).Live) :
    (step h cs next clock)^[2] m
      = m.debugExit h cs (clock m.ticks) (int3Trap m.env.eip) := by
  rw [Function.iterate_succ_apply, Function.iterate_one, step_of_planted hrun htrap hhook hlive]
  exact step_of_trap (m := { m with trap := some (int3Trap m.env.eip) }) hrun rfl

/-- The trap of a planted `int3` and its handler: the guest has not moved, and the capture has been
called. -/
lemma Ready.hit (next : Guest R → Guest R) (clock : ℕ → Timeval) (hm : m.Ready h cs)
    (hpc : h.IsHook m.env.eip) :
    ((step h cs next clock)^[2] m).Stepping h cs ∧
      ((step h cs next clock)^[2] m).unmonitored h = m.unmonitored h ∧
      ((step h cs next clock)^[2] m).trace
        = m.trace ++ [(hookEvent h cs m.env (clock m.ticks) m.env.eip).item] := by
  obtain ⟨b, hsite⟩ := hm.armed _ hpc
  have hreg : (m.vmi.kvm.swBreakpoints m.env.eip).isSome = true := by
    rw [← Kvm.site_bp, hsite]
    rfl
  have hlive : (m.vmi.kvm.site m.env.eip).Live := by
    rw [hsite]
    exact ⟨rfl, rfl⟩
  obtain ⟨err, s, f, hrem, hclean, hhit, -⟩ :=
    vmiMonitorBreakpointHit_spec h cs m.env (clock m.ticks) m.env.eip m.vmi
  obtain ⟨herr, rfl⟩ := hclean hm.noFaults
  rw [hsite] at hrem
  obtain ⟨rfl, rfl⟩ := hrem.of_planted herr
  have hhandle := kvmHandleDebug_int3Trap hm.enabled hm.normal hpc hreg m.env (clock m.ticks)
  rw [hhit rfl] at hhandle
  rw [step_step_of_planted hm.running hm.noTrap hpc hlive]
  have hother : ∀ a, a ≠ m.env.eip →
      (cpuSingleStep cs 1 (m.vmi.kvm.setSite m.env.eip ⟨none, b⟩ [])).site a = m.vmi.kvm.site a :=
    fun a ha => Kvm.site_setSite_of_ne m.vmi.kvm m.env.eip ⟨none, b⟩ [] ha
  simp only [debugExit, hhandle]
  refine ⟨⟨?_, rfl, hm.enabled, ?_, ?_, rfl, hpc, ?_, ?_, ?_⟩,
    unmonitored_congr hpc rfl rfl ?_ hother, ?_⟩
  · simp
  · simp
  · simp [cpuSingleStep]
  · simp
  · simp [cpuSingleStep, Kvm.setSite]
  · intro a ha hne
    obtain ⟨b', hb'⟩ := hm.armed a ha
    exact ⟨b', (hother a hne).trans hb'⟩
  · rw [hsite, Site.guestByte_of_eq]
    simp [cpuSingleStep, Kvm.setSite, Kvm.site, Site.guestByte]
  · simp [Monitor.noteHit]

/-- The guest's own instruction at the hook is executed, as a single step. -/
lemma Stepping.execute (clock : ℕ → Timeval) (hm : m.Stepping h cs)
    (hnext : HookOblivious h next) :
    (m.step h cs next clock).Stepped h cs m.env.eip ∧
      (m.step h cs next clock).unmonitored h = next (m.unmonitored h) ∧
      (m.step h cs next clock).trace
        = m.trace ++ [.retired ((next (m.unmonitored h)).erase h)] := by
  have hfree : h.IsHook m.env.eip → m.vmi.kvm.swBreakpoints m.env.eip = none := fun _ => hm.freed
  rw [step_of_not_planted hm.running hm.noTrap hfree]
  refine ⟨⟨hm.running, ?_, hm.enabled, hm.stepping, hm.noFaults, hm.hook, hm.addr, hm.freed, ?_⟩,
    unmonitored_execute hnext hfree, ?_⟩
  · simp [Machine.execute, hm.single]
  · intro a ha hne
    rw [site_execute hnext ha]
    exact hm.armed a ha hne
  · rw [← erase_next hnext hfree]
    rfl

/-- The trap of the step is handled: the guest has not moved, and the hook is armed again. -/
lemma Stepped.complete (next : Guest R → Guest R) (clock : ℕ → Timeval) {pc : UInt64}
    (hm : m.Stepped h cs pc) :
    (m.step h cs next clock).Ready h cs ∧
      (m.step h cs next clock).unmonitored h = m.unmonitored h ∧
      (m.step h cs next clock).trace = m.trace := by
  obtain ⟨err, s, f, hins, hclean, heq⟩ := vmiMonitorStepComplete_spec cs m.vmi
  obtain ⟨rfl, rfl⟩ := hclean hm.noFaults
  rw [hm.addr] at hins heq
  obtain ⟨b, hbefore⟩ : ∃ b, m.vmi.kvm.site pc = ⟨none, b⟩ := ⟨_, Site.ext hm.freed rfl⟩
  rw [hbefore] at hins
  obtain rfl := hins.of_free
  have hhandle := kvmHandleDebug_stepTrap h hm.enabled hm.stepping m.env (clock m.ticks) m.env.eip
  rw [heq] at hhandle
  rw [step_of_trap hm.running hm.trap]
  generalize hk : (cpuSingleStep cs 0 m.vmi.kvm).setSite pc ⟨some ⟨b, 1⟩, int3⟩ [] = k at hhandle
  have hself : k.site pc = ⟨some ⟨b, 1⟩, int3⟩ := by
    rw [← hk, Kvm.site_setSite_self]
  have hother : ∀ a, a ≠ pc → k.site a = m.vmi.kvm.site a := by
    intro a ha
    rw [← hk, Kvm.site_setSite_of_ne _ _ _ _ ha]
    rfl
  simp only [debugExit, hhandle]
  refine ⟨⟨?_, rfl, hm.enabled, ?_, ?_, ?_, ?_⟩,
    unmonitored_congr hm.hook rfl rfl ?_ hother, ?_⟩
  · simp
  · simp
  · simp [← hk, cpuSingleStep]
  · simp [← hk]
  · intro a ha
    by_cases hne : a = pc
    · subst hne
      exact ⟨b, hself⟩
    · obtain ⟨b', hb'⟩ := hm.armed a ha hne
      exact ⟨b', (hother a hne).trans hb'⟩
  · rw [hself, hbefore, Site.guestByte_of_eq]
    rfl
  · simp

/-! ### Whole runs -/

/-- The monitored machine simulates the guest, with everything that is to be seen of it. -/
theorem stutters (hnext : HookOblivious h next) (cs : ℕ) (clock : ℕ → Timeval) :
    Stutters (step h cs next clock) next (fun m g => m.Ready h cs ∧ m.unmonitored h = g) trace
      (Guest.emit h cs next) := by
  rintro m g ⟨hm, rfl⟩
  by_cases hpc : h.IsHook m.env.eip
  · obtain ⟨hstepping, hguest, htrace⟩ := hm.hit next clock hpc
    obtain ⟨hstepped, hguest', htrace'⟩ := hstepping.execute clock hnext
    obtain ⟨hready, hguest'', htrace''⟩ := hstepped.complete next clock
    refine ⟨4, by decide, ⟨hready, ?_⟩, ?_⟩
    · exact hguest''.trans (hguest'.trans (congrArg next hguest))
    · apply htrace''.trans
      rw [htrace', htrace, hguest, item_hookEvent, Guest.emit, List.append_assoc]
      by_cases hret : h.IsRet m.env.eip <;> simp [hret, hpc]
  · obtain ⟨hready, hguest, htrace⟩ := hm.execute clock hnext hpc
    refine ⟨1, Nat.one_pos, ⟨hready, hguest⟩, ?_⟩
    have hret : ¬ h.IsRet m.env.eip := fun hr => hpc hr.isHook
    rw [Function.iterate_one, htrace, Guest.emit]
    simp [hret, hpc]

/-- What has been seen stays. -/
lemma trace_prefix_step (m : Machine R) : m.trace <+: (m.step h cs next clock).trace := by
  cases hrun : m.stopped with
  | true => simp [step, hrun]
  | false =>
    cases htrap : m.trap with
    | some info =>
      rw [step_of_trap hrun htrap]
      exact List.prefix_append ..
    | none =>
      simp only [step, hrun, htrap, Bool.false_eq_true, ↓reduceIte]
      split_ifs
      · exact List.prefix_rfl
      · exact List.prefix_append ..

/-- **Transparency and exact capture.** For every number `n` of instructions the monitored machine
gets to where the guest is after them, having shown exactly what is to be seen of them, and at no
time has it shown anything else. -/
theorem run_transparent (hnext : HookOblivious h next) (clock : ℕ → Timeval) (hm : m.Ready h cs) :
    (∀ n, ∃ k ≥ n, ((step h cs next clock)^[k] m).unmonitored h = next^[n] (m.unmonitored h) ∧
      ((step h cs next clock)^[k] m).trace
        = m.trace ++ emitted next (Guest.emit h cs next) n (m.unmonitored h)) ∧
    ∀ k, ((step h cs next clock)^[k] m).trace
      <+: m.trace ++ emitted next (Guest.emit h cs next) k (m.unmonitored h) := by
  have hst := stutters hnext cs clock
  have hrel : m.Ready h cs ∧ m.unmonitored h = m.unmonitored h := ⟨hm, rfl⟩
  refine ⟨fun n => ?_, fun k => hst.prefix_emitted trace_prefix_step hrel k⟩
  obtain ⟨k, hk, ⟨-, hguest⟩, htrace⟩ := hst.reach n hrel
  exact ⟨k, hk, hguest, htrace⟩

end Machine

/-- A guest that alternates between the two hooks and loads what it fetches into `rax`. -/
def alternate (h : Hooks) (g : Guest Unit) : Guest Unit :=
  { g with
    env.regs := Function.update g.env.regs rEax (g.mem g.env.eip).toUInt64
    env.eip := if g.env.eip = h.vmiAddr then h.vmiRetAddr else h.vmiAddr }

lemma hookOblivious_alternate (h : Hooks) : HookOblivious h (alternate h) where
  never_writes _ _ _ := rfl
  only_fetches := by
    intro g g' henv hrest hmem
    refine Guest.ext ?_ hrest (funext fun a => ?_)
    · simp only [Guest.erase, alternate, henv, hmem g.env.eip fun _ => rfl]
    · by_cases ha : h.IsHook a
      · simp [Guest.erase, alternate, ha]
      · simpa [Guest.erase, alternate, ha] using hmem a fun hhook => absurd hhook ha

/-- The documented nginx build with a vCPU at the entry hook. -/
def nginxMachine : Machine Unit where
  vmi := .boot nginxHooks nginxKvm
  env := ⟨fun _ => 0, 0x101000⟩
  rest := ()
  trap := none
  stopped := false
  ticks := 0
  trace := []

lemma ready_nginxMachine : nginxMachine.Ready nginxHooks 0 :=
  Machine.ready_of_vmiArmOnce (k := nginxKvm) rfl (fun _ _ => Nat.zero_le 1) rfl rfl rfl rfl rfl rfl

/-- The guest goes from one hook straight to the other, and loads its own byte, not the planted
one. -/
theorem nginx_run_transparent :
    HookOblivious nginxHooks (alternate nginxHooks) ∧ nginxMachine.Ready nginxHooks 0 ∧
      ∃ k ≥ 2, ((Machine.step nginxHooks 0 (alternate nginxHooks) fun _ => ⟨0, 0⟩)^[k]
          nginxMachine).trace =
        [.handleEntry 0 ⟨fun _ => 0, 0x101000⟩,
          .retired ((⟨⟨Function.update (fun _ => 0) rEax 0xfa, 0x1010da⟩, (), fun _ => 0xfa⟩ :
            Guest Unit).erase nginxHooks),
          .handleReturn 0 ⟨Function.update (fun _ => 0) rEax 0xfa, 0x1010da⟩,
          .retired ((⟨⟨Function.update (fun _ => 0) rEax 0xfa, 0x101000⟩, (), fun _ => 0xfa⟩ :
            Guest Unit).erase nginxHooks)] := by
  refine ⟨hookOblivious_alternate nginxHooks, ready_nginxMachine, ?_⟩
  obtain ⟨k, hk, -, htrace⟩ := (Machine.run_transparent (hookOblivious_alternate nginxHooks)
    (fun _ => ⟨0, 0⟩) ready_nginxMachine).1 2
  refine ⟨k, hk, htrace.trans ?_⟩
  have hguest : nginxMachine.unmonitored nginxHooks
      = ⟨⟨fun _ => 0, 0x101000⟩, (), fun _ => 0xfa⟩ :=
    Machine.unmonitored_of_vmiArmOnce (k := nginxKvm) rfl (fun _ => rfl) rfl
  rw [hguest]
  simp [emitted, Guest.emit, alternate, nginxHooks, nginxMachine, Hooks.IsHook, Hooks.IsRet]

end SyscallMonitor
