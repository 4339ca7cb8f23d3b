import SyscallMonitor.Transparency
import SyscallMonitor.Lib.Hiding

/-!
# A gdb session beside the monitor

gdb and the monitor share the breakpoint registry, `cs->singlestep_enabled` and the debug exits of
`kvm_handle_debug`. The same guest is run with the monitor enabled and with it disabled, under the
same gdb session. The one goes through steps that the other does not have: the `int3` of a hook, and
the debug exits that the monitor consumes. As long as gdb has no step outstanding when a hook is
hit, and leaves `singlestep_enabled` alone during a step-over, gdb sees the same stops; a step that
gdb asks for at a hook is lost.
-/

namespace SyscallMonitor

open Lib Monitor

universe u

variable {R : Type u}

/-! ### The debugged machine -/

/-- A guest with one vCPU, QEMU's gdb stub attached. `stops` are the debug stops that have been
reported to gdb, each with its pc. -/
structure Debuggee (R : Type u) where
  vmi : Monitor
  env : CPUX86State
  rest : R
  trap : Option KvmDebugExitArch
  stops : List UInt64

/-- What can happen next. `faults` are the memory accesses that fail in the course of it. -/
inductive GdbEvent where
  /-- The vCPU executes an instruction, or its debug exit is handled at the time `tv`. -/
  | cpu (tv : Timeval) (faults : List Bool)
  /-- gdb sets a software breakpoint. -/
  | insertBreakpoint (addr : UInt64) (faults : List Bool)
  /-- gdb clears a software breakpoint. -/
  | removeBreakpoint (addr : UInt64) (faults : List Bool)
  /-- gdb sets `cs->singlestep_enabled`. -/
  | singleStep (enabled : ℕ)
  | vmStateChange (running : Bool) (state : RunState) (faults : List Bool)
  | timerExpiry (faults : List Bool)

namespace Debuggee

/-- The guest as the CPU sees it, with the planted bytes. -/
def guest (m : Debuggee R) : Guest R := ⟨m.env, m.rest, m.vmi.kvm.mem⟩

def withKvm (m : Debuggee R) (k : Kvm) : Debuggee R := { m with vmi.kvm := k }

def withFaults (m : Debuggee R) (faults : List Bool) : Debuggee R :=
  { m with vmi.kvm.faults := faults }

/-- The CPU executes the instruction at its pc; a single-stepped one raises a debug exit. -/
def execute (cs : ℕ) (next : Guest R → Guest R) (m : Debuggee R) : Debuggee R :=
  { m with
    vmi.kvm.mem := (next m.guest).mem
    env := (next m.guest).env
    rest := (next m.guest).rest
    trap :=
      if m.vmi.kvm.singlestepEnabled cs ≠ 0 then some (stepTrap (next m.guest).env.eip) else none }

/-- The debug exit `info` is handled. `queueException` is what `kvm_queue_exception` does to the
vCPU when the exception is passed to the guest. -/
def debugExit (h : Hooks) (cs : ℕ) (queueException : KvmDebugExitArch → R → R) (tv : Timeval)
    (info : KvmDebugExitArch) (m : Debuggee R) : Debuggee R :=
  match kvmHandleDebug h cs m.env tv info m.vmi with
  | (.consumed, v) => { m with vmi := v, trap := none }
  | (.excpDebug, v) => { m with vmi := v, trap := none, stops := m.stops ++ [info.pc] }
  | (.passToGuest, v) => { m with vmi := v, trap := none, rest := queueException info m.rest }

/-- What the machine is given: the hooks, the vCPU, the guest, and `kvm_queue_exception`. -/
structure Setup (R : Type u) where
  h : Hooks
  cs : ℕ
  next : Guest R → Guest R
  queueException : KvmDebugExitArch → R → R

/-- The vCPU's next step. A registered `int3` raises a debug exit instead of being executed. -/
def cpuStep (c : Setup R) (tv : Timeval) (m : Debuggee R) : Debuggee R :=
  match m.trap with
  | some info => m.debugExit c.h c.cs c.queueException tv info
  | none =>
    if (m.vmi.kvm.site m.env.eip).Live then { m with trap := some (int3Trap m.env.eip) }
    else m.execute c.cs c.next

/-- A timer expires only if it is scheduled. -/
def timerStep (h : Hooks) (m : Debuggee R) : Debuggee R :=
  if m.vmi.vmiArmTimer = some ⟨true⟩ then
    { m with vmi := vmiTryArm h { m.vmi with vmiArmTimer := some ⟨false⟩ } }
  else m

/-- One event. -/
def step (c : Setup R) (m : Debuggee R) : GdbEvent → Debuggee R
  | .cpu tv faults => (m.withFaults faults).cpuStep c tv
  | .insertBreakpoint addr faults =>
    m.withKvm (kvmInsertBreakpoint addr (m.withFaults faults).vmi.kvm).2
  | .removeBreakpoint addr faults =>
    m.withKvm (kvmRemoveBreakpoint addr (m.withFaults faults).vmi.kvm).2
  | .singleStep enabled => m.withKvm (cpuSingleStep c.cs enabled m.vmi.kvm)
  | .vmStateChange running state faults =>
    { m with vmi := vmiVmStateChange c.h running state (m.withFaults faults).vmi }
  | .timerExpiry faults => (m.withFaults faults).timerStep c.h

/-- The machine after a sequence of events. -/
def run (c : Setup R) (m : Debuggee R) (es : List GdbEvent) : Debuggee R := es.foldl (step c) m

/-- The same machine with the monitor disabled: no hook is planted, and there is no timer. -/
def disabled (h : Hooks) (m : Debuggee R) : Debuggee R :=
  { m with
    vmi := { m.vmi with
      vmiEnabled := false
      vmiArmTimer := none
      kvm := { m.vmi.kvm with
        swBreakpoints := fun a => if h.IsHook a then none else m.vmi.kvm.swBreakpoints a
        mem := fun a => if h.IsHook a then (m.vmi.kvm.site a).guestByte else m.vmi.kvm.mem a } } }

/-! ### The monitor's own steps -/

/-- The vCPU's next step does not exist without the monitor: the `int3` of a hook is executed, or
the debug exit is consumed. -/
def HiddenStep (c : Setup R) (tv : Timeval) (m : Debuggee R) : Prop :=
  (∃ info ∈ m.trap, (kvmHandleDebug c.h c.cs m.env tv info m.vmi).1 = .consumed) ∨
    (m.trap = none ∧ c.h.IsHook m.env.eip ∧ (m.vmi.kvm.site m.env.eip).Live)

instance (c : Setup R) (tv : Timeval) (m : Debuggee R) : Decidable (m.HiddenStep c tv) :=
  inferInstanceAs (Decidable (_ ∨ _))

/-- The event is such a step. -/
def Hidden (c : Setup R) (m : Debuggee R) : GdbEvent → Prop
  | .cpu tv faults => (m.withFaults faults).HiddenStep c tv
  | .insertBreakpoint .. => False
  | .removeBreakpoint .. => False
  | .singleStep _ => False
  | .vmStateChange .. => False
  | .timerExpiry _ => False

instance (c : Setup R) (m : Debuggee R) : (e : GdbEvent) → Decidable (m.Hidden c e)
  | .cpu tv faults => inferInstanceAs (Decidable ((m.withFaults faults).HiddenStep c tv))
  | .insertBreakpoint .. => isFalse id
  | .removeBreakpoint .. => isFalse id
  | .singleStep _ => isFalse id
  | .vmStateChange .. => isFalse id
  | .timerExpiry _ => isFalse id

/-- gdb and the monitor do not get in each other's way: unless the breakpoint cannot be removed, gdb
has no step outstanding when a hit is handled; while the monitor steps over a hook, gdb leaves
`singlestep_enabled` alone, except that it may clear it once the step has been made; and attempts to
arm find the memory accessible. -/
def Undisturbed (c : Setup R) (m : Debuggee R) : GdbEvent → Prop
  | .cpu _ faults =>
    m.trap = some (int3Trap m.env.eip) → c.h.IsHook m.env.eip →
      m.vmi.vmiStateTable c.cs = .normal → true ∉ faults.take 2 →
        m.vmi.kvm.singlestepEnabled c.cs = 0
  | .singleStep enabled =>
    m.vmi.vmiStateTable c.cs = .stepping → enabled = 0 ∧ m.trap.isSome = true
  | .vmStateChange _ _ faults =>
    m.vmi.vmiFirstHitSeen = false → m.vmi.vmiBootSyncOk = false → faults = []
  | .timerExpiry faults =>
    m.vmi.vmiFirstHitSeen = false → m.vmi.vmiBootSyncOk = false → faults = []
  | .insertBreakpoint .. => True
  | .removeBreakpoint .. => True

instance (c : Setup R) (m : Debuggee R) : (e : GdbEvent) → Decidable (m.Undisturbed c e)
  | .cpu .. => inferInstanceAs (Decidable (_ → _))
  | .singleStep _ => inferInstanceAs (Decidable (_ → _))
  | .vmStateChange .. => inferInstanceAs (Decidable (_ → _))
  | .timerExpiry _ => inferInstanceAs (Decidable (_ → _))
  | .insertBreakpoint .. => isTrue trivial
  | .removeBreakpoint .. => isTrue trivial

end Debuggee

/-- gdb's breakpoints are not at the hooks. -/
def GdbEvent.Elsewhere (h : Hooks) : GdbEvent → Prop
  | .insertBreakpoint addr _ => ¬ h.IsHook addr
  | .removeBreakpoint addr _ => ¬ h.IsHook addr
  | _ => True

instance (h : Hooks) : (e : GdbEvent) → Decidable (e.Elsewhere h)
  | .cpu .. => isTrue trivial
  | .insertBreakpoint addr _ => inferInstanceAs (Decidable (¬ h.IsHook addr))
  | .removeBreakpoint addr _ => inferInstanceAs (Decidable (¬ h.IsHook addr))
  | .singleStep _ => isTrue trivial
  | .vmStateChange .. => isTrue trivial
  | .timerExpiry _ => isTrue trivial

/-- The accesses that the vCPU's handlers make succeed. -/
def GdbEvent.Clean : GdbEvent → Prop
  | .cpu _ faults => faults = []
  | _ => True

/-! ### What a hook looks like -/

/-- A hook over the guest's byte `g`: planted with one reference, or not registered. -/
inductive HookSite (g : UInt8) : Site → Prop where
  | planted : HookSite g ⟨some ⟨g, 1⟩, int3⟩
  | free : HookSite g ⟨none, g⟩

namespace HookSite

variable {g : UInt8} {s : Site}

lemma guestByte (hs : HookSite g s) : s.guestByte = g := by
  cases hs with
  | planted => exact Site.guestByte_of_eq _
  | free => rfl

lemma useCount_le (hs : HookSite g s) : s.useCount ≤ 1 := by
  cases hs with
  | planted => exact Nat.le_refl 1
  | free => exact Nat.zero_le 1

/-- A clean attempt leaves the hook planted. -/
lemma armed (hs : HookSite g s) : s.armed = ⟨some ⟨g, 1⟩, int3⟩ := by
  rw [Site.armed, hs.guestByte]

lemma eq_free (hs : HookSite g s) (hbp : s.bp = none) : s = ⟨none, g⟩ := by
  cases hs with
  | planted => cases hbp
  | free => rfl

lemma eq_planted (hs : HookSite g s) (hlive : s.Live) : s = ⟨some ⟨g, 1⟩, int3⟩ := by
  cases hs with
  | planted => rfl
  | free => exact absurd hlive.1 Bool.false_ne_true

lemma unregistered (hs : HookSite g s) (hlive : ¬ s.Live) : s.bp = none := by
  cases hs with
  | planted => exact absurd ⟨rfl, rfl⟩ hlive
  | free => rfl

/-- The insertion at the end of a step plants the hook or fails. -/
lemma of_insert {err : Option Errno} (hins : InsertAt ⟨none, g⟩ err s) : HookSite g s := by
  cases hins with
  | patch => exact .planted
  | fault => exact .free

end HookSite

lemma true_mem_take_two (faults : List Bool) :
    true ∈ faults.take 2 ↔ faults.headD false = true ∨ faults.tail.headD false = true := by
  rcases faults with _ | ⟨x, _ | ⟨y, faults⟩⟩ <;> simp [eq_comm]

/-- The removal of a planted hook restores the guest's byte, unless one of its two accesses fails.
-/
lemma kvmRemoveBreakpoint_planted {a : UInt64} {k : Kvm} {g : UInt8}
    (hsite : k.site a = ⟨some ⟨g, 1⟩, int3⟩) :
    ∃ err s f, kvmRemoveBreakpoint a k = (err, k.setSite a s f) ∧
      (err = none ∧ s = ⟨none, g⟩ ∧ true ∉ k.faults.take 2 ∨
        err ≠ none ∧ s = ⟨some ⟨g, 1⟩, int3⟩ ∧ true ∈ k.faults.take 2) := by
  have hbp : k.swBreakpoints a = some ⟨g, 1⟩ := congrArg Site.bp hsite
  have hbyte : k.mem a = int3 := congrArg Site.byte hsite
  rw [kvmRemoveBreakpoint_eq, hbp, hbyte, true_mem_take_two]
  dsimp only
  rw [if_neg (Nat.lt_irrefl 1), if_neg (not_not.mpr rfl)]
  split_ifs with hread hwrite
  · exact ⟨_, _, _, rfl, Or.inr ⟨by simp, rfl, Or.inl hread⟩⟩
  · exact ⟨_, _, _, rfl, Or.inr ⟨by simp, rfl, Or.inr hwrite⟩⟩
  · exact ⟨_, _, _, rfl, Or.inl ⟨rfl, rfl, not_or_intro hread hwrite⟩⟩

/-! ### Debug exits that are not the monitor's -/

/-- A single step that is not the monitor's goes to gdb if it is stepping, and to the guest if
not. -/
lemma kvmHandleDebug_stepTrap_of_not_stepping {h : Hooks} {cs : ℕ} {v : Monitor}
    (hstep : ¬ (v.vmiEnabled = true ∧ v.vmiStateTable cs = .stepping)) (env : CPUX86State)
    (tv : Timeval) (pc : UInt64) :
    kvmHandleDebug h cs env tv (stepTrap pc) v
      = (if v.kvm.singlestepEnabled cs ≠ 0 then .excpDebug else .passToGuest, v) := by
  have hdb : (stepTrap pc).exception = excp01Db := rfl
  have hbs : (stepTrap pc).dr6 &&& dr6Bs ≠ 0 := by
    have hdr6 : (stepTrap pc).dr6 = dr6Bs := rfl
    rw [hdr6]
    decide
  rw [kvmHandleDebug, if_pos hdb, if_pos hbs, if_neg hstep]
  split_ifs <;> rfl

/-- An `int3` that is not a hit goes to gdb if it is registered, and to the guest if not. -/
lemma kvmHandleDebug_int3Trap_of_not_hit {h : Hooks} {cs : ℕ} {v : Monitor} {pc : UInt64}
    (hhit : ¬ ((v.vmiEnabled = true ∧ h.IsHook pc) ∧ v.vmiStateTable cs = .normal))
    (env : CPUX86State) (tv : Timeval) :
    kvmHandleDebug h cs env tv (int3Trap pc) v
      = (if (v.kvm.swBreakpoints pc).isSome then .excpDebug else .passToGuest, v) := by
  have hdb : (int3Trap pc).exception ≠ excp01Db := by
    have hexc : (int3Trap pc).exception = excp03Int3 := rfl
    rw [hexc]
    decide
  have hpc : (int3Trap pc).pc = pc := rfl
  rw [kvmHandleDebug, if_neg hdb, hpc, kvmFindSwBreakpoint, if_neg hhit]
  split_ifs <;> rfl

namespace Debuggee

variable {c : Setup R} {m q : Debuggee R}

/-! ### Beside each other -/

/-- `m` runs with the monitor, `q` without it; hook bytes apart, they look the same. -/
structure Beside (c : Setup R) (m q : Debuggee R) : Prop where
  enabled : m.vmi.vmiEnabled = true
  disabled : q.vmi.vmiEnabled = false
  noTimer : q.vmi.vmiArmTimer = none
  env : m.env = q.env
  rest : m.rest = q.rest
  stops : m.stops = q.stops
  elsewhere : ∀ a, ¬ c.h.IsHook a → m.vmi.kvm.site a = q.vmi.kvm.site a
  unregistered : ∀ a, c.h.IsHook a → q.vmi.kvm.swBreakpoints a = none
  hooks : ∀ a, c.h.IsHook a → HookSite (q.vmi.kvm.mem a) (m.vmi.kvm.site a)

namespace Beside

/-- Where no planted byte is at the pc, an instruction does the same to both. -/
lemma execute (hb : Beside c m q) (hnext : HookOblivious c.h c.next)
    (hpc : c.h.IsHook m.env.eip → m.vmi.kvm.swBreakpoints m.env.eip = none) :
    Beside c (m.execute c.cs c.next) (q.execute c.cs c.next) := by
  have herase : (c.next m.guest).erase c.h = (c.next q.guest).erase c.h := by
    apply hnext.only_fetches q.guest m.guest hb.env hb.rest
    intro a ha
    by_cases hhook : c.h.IsHook a
    · obtain rfl : a = m.env.eip := (ha hhook).trans (congrArg _ hb.env.symm)
      exact congrArg Site.byte ((hb.hooks _ hhook).eq_free (hpc hhook))
    · exact congrArg Site.byte (hb.elsewhere a hhook)
  simp only [Guest.erase, Guest.mk.injEq] at herase
  obtain ⟨henv, hrest, hmem⟩ := herase
  refine ⟨hb.enabled, hb.disabled, hb.noTimer, henv, hrest, hb.stops, ?_, hb.unregistered, ?_⟩
  · intro a ha
    have hbp : m.vmi.kvm.swBreakpoints a = q.vmi.kvm.swBreakpoints a :=
      congrArg Site.bp (hb.elsewhere a ha)
    have hbyte : (c.next m.guest).mem a = (c.next q.guest).mem a := by
      simpa [ha] using congrFun hmem a
    exact Site.ext hbp hbyte
  · intro a ha
    have hm : (m.execute c.cs c.next).vmi.kvm.site a = m.vmi.kvm.site a :=
      Site.ext rfl (hnext.never_writes m.guest a ha)
    have hq : (q.execute c.cs c.next).vmi.kvm.mem a = q.vmi.kvm.mem a :=
      hnext.never_writes q.guest a ha
    rw [hm, hq]
    exact hb.hooks a ha

/-- A change of one address that is not a hook. -/
lemma setSite (hb : Beside c m q) {a : UInt64} (ha : ¬ c.h.IsHook a) (s : Site) (f f' : List Bool) :
    Beside c (m.withKvm ((m.withFaults f').vmi.kvm.setSite a s f))
      (q.withKvm ((q.withFaults f').vmi.kvm.setSite a s f)) := by
  have hsite : ∀ (k : Kvm) (b : UInt64),
      (k.setSite a s f).site b = if b = a then s else k.site b := fun k b => k.site_setSite a s f b
  have hhook : ∀ (k : Kvm) (b : UInt64), c.h.IsHook b → (k.setSite a s f).site b = k.site b := by
    intro k b hb'
    rw [hsite, if_neg]
    rintro rfl
    exact ha hb'
  refine ⟨hb.enabled, hb.disabled, hb.noTimer, hb.env, hb.rest, hb.stops, ?_, ?_, ?_⟩
  · intro b hb'
    show ((m.withFaults f').vmi.kvm.setSite a s f).site b
      = ((q.withFaults f').vmi.kvm.setSite a s f).site b
    rw [hsite, hsite]
    split_ifs
    · rfl
    · exact hb.elsewhere b hb'
  · intro b hb'
    have hq := congrArg Site.bp (hhook (q.withFaults f').vmi.kvm b hb')
    exact hq.trans (hb.unregistered b hb')
  · intro b hb'
    have hq : ((q.withFaults f').vmi.kvm.setSite a s f).mem b = q.vmi.kvm.mem b :=
      congrArg Site.byte (hhook (q.withFaults f').vmi.kvm b hb')
    show HookSite (((q.withFaults f').vmi.kvm.setSite a s f).mem b)
      (((m.withFaults f').vmi.kvm.setSite a s f).site b)
    rw [hq, hhook _ b hb']
    exact hb.hooks b hb'

/-- A debug exit that changes one hook, on the monitored side only. -/
lemma setHook (hb : Beside c m q) {a : UInt64} {v : Monitor} {s : Site}
    (hen : v.vmiEnabled = true) (ha : c.h.IsHook a)
    (hkvm : ∀ b, v.kvm.site b = if b = a then s else m.vmi.kvm.site b)
    (hs : HookSite (q.vmi.kvm.mem a) s) : Beside c { m with vmi := v, trap := none } q := by
  refine ⟨hen, hb.disabled, hb.noTimer, hb.env, hb.rest, hb.stops, ?_, hb.unregistered, ?_⟩
  · intro b hb'
    have hba : b ≠ a := by
      rintro rfl
      exact hb' ha
    show v.kvm.site b = q.vmi.kvm.site b
    rw [hkvm, if_neg hba]
    exact hb.elsewhere b hb'
  · intro b hb'
    show HookSite (q.vmi.kvm.mem b) (v.kvm.site b)
    rw [hkvm]
    split_ifs with hba
    · rw [hba]
      exact hs
    · exact hb.hooks b hb'

/-- What is pending is of no concern here. -/
lemma withTrap (hb : Beside c m q) (t t' : Option KvmDebugExitArch) :
    Beside c { m with trap := t } { q with trap := t' } :=
  ⟨hb.enabled, hb.disabled, hb.noTimer, hb.env, hb.rest, hb.stops, hb.elsewhere, hb.unregistered,
    hb.hooks⟩

/-- An attempt to arm that finds the memory accessible. -/
lemma arming (hb : Beside c m q) {v : Monitor}
    (hf : m.vmi.vmiFirstHitSeen = false → m.vmi.vmiBootSyncOk = false → m.vmi.kvm.faults = [])
    (harm : ArmingStep c.h m.vmi v) : Beside c { m with vmi := v } q := by
  have hen := harm.sameSteps.vmiEnabled.trans hb.enabled
  cases harm with
  | idle hkvm _ _ _ =>
    refine ⟨hen, hb.disabled, hb.noTimer, hb.env, hb.rest, hb.stops, ?_, hb.unregistered, ?_⟩
    · intro a ha
      show v.kvm.site a = q.vmi.kvm.site a
      rw [hkvm]
      exact hb.elsewhere a ha
    · intro a ha
      show HookSite (q.vmi.kvm.mem a) (v.kvm.site a)
      rw [hkvm]
      exact hb.hooks a ha
  | attempt _ hunseen hsync hkvm _ _ =>
    obtain ⟨k, hk, -, hsites⟩ :=
      vmiArmOnce_clean (hf hunseen hsync) fun a ha => (hb.hooks a ha).useCount_le
    have hsame := vmiArmOnce_sameElsewhere c.h m.vmi.kvm
    rw [hk] at hkvm hsame
    refine ⟨hen, hb.disabled, hb.noTimer, hb.env, hb.rest, hb.stops, ?_, hb.unregistered, ?_⟩
    · intro a ha
      show v.kvm.site a = q.vmi.kvm.site a
      rw [hkvm]
      exact (hsame.site a ha).trans (hb.elsewhere a ha)
    · intro a ha
      show HookSite (q.vmi.kvm.mem a) (v.kvm.site a)
      rw [hkvm, hsites a ha, (hb.hooks a ha).armed]
      exact .planted

end Beside

/-- How far the monitored side is with a hook. -/
inductive Phase (c : Setup R) (m q : Debuggee R) : Prop where
  /-- At no hook, or before its `int3`: what is pending, if anything, is gdb's. -/
  | idle (hstate : m.vmi.vmiStateTable c.cs = .normal)
      (hsingle : m.vmi.kvm.singlestepEnabled c.cs = q.vmi.kvm.singlestepEnabled c.cs)
      (htrap : m.trap = q.trap)
      (hinfo : ∀ info ∈ q.trap, info = stepTrap info.pc ∨
        (info = int3Trap info.pc ∧ ¬ c.h.IsHook info.pc)) : Phase c m q
  /-- The `int3` of a hook has been executed. -/
  | trapped (hstate : m.vmi.vmiStateTable c.cs = .normal)
      (hsingle : m.vmi.kvm.singlestepEnabled c.cs = q.vmi.kvm.singlestepEnabled c.cs)
      (htrap : m.trap = some (int3Trap m.env.eip)) (hquiet : q.trap = none)
      (hpc : c.h.IsHook m.env.eip) (hlive : (m.vmi.kvm.site m.env.eip).Live) : Phase c m q
  /-- The hit has been handled. -/
  | stepping (hstate : m.vmi.vmiStateTable c.cs = .stepping) (hhit : m.vmi.vmiFirstHitSeen = true)
      (hsingle : m.vmi.kvm.singlestepEnabled c.cs ≠ 0)
      (hoff : q.vmi.kvm.singlestepEnabled c.cs = 0) (htrap : m.trap = none)
      (hquiet : q.trap = none) (hpc : c.h.IsHook m.env.eip)
      (haddr : m.vmi.vmiStepAddrTable c.cs = m.env.eip)
      (hfree : m.vmi.kvm.swBreakpoints m.env.eip = none) : Phase c m q
  /-- The instruction at the hook has been executed. -/
  | stepped (pc : UInt64) (hstate : m.vmi.vmiStateTable c.cs = .stepping)
      (hhit : m.vmi.vmiFirstHitSeen = true) (hoff : q.vmi.kvm.singlestepEnabled c.cs = 0)
      (htrap : m.trap = some (stepTrap m.env.eip)) (hquiet : q.trap = none)
      (hpc : c.h.IsHook pc) (haddr : m.vmi.vmiStepAddrTable c.cs = pc)
      (hfree : m.vmi.kvm.swBreakpoints pc = none) : Phase c m q

/-- `m` with the monitor keeps up with `q` without it. -/
structure KeepsUp (c : Setup R) (m q : Debuggee R) : Prop where
  beside : Beside c m q
  phase : Phase c m q

/-- How many hidden steps may be made in a row: the end of a step, then the trap and the hit of the
next hook. -/
def hiddenSteps : VmiState → Option KvmDebugExitArch → ℕ
  | .stepping, some _ => 3
  | .normal, none => 2
  | .normal, some _ => 1
  | .stepping, none => 0

def rank (c : Setup R) (m : Debuggee R) : ℕ := hiddenSteps (m.vmi.vmiStateTable c.cs) m.trap

lemma rank_lt {m' : Debuggee R} {state state' : VmiState} {trap trap' : Option KvmDebugExitArch}
    (hstate : m.vmi.vmiStateTable c.cs = state) (htrap : m.trap = trap)
    (hstate' : m'.vmi.vmiStateTable c.cs = state') (htrap' : m'.trap = trap')
    (hlt : hiddenSteps state' trap' < hiddenSteps state trap) : m'.rank c < m.rank c := by
  rw [rank, rank, hstate, htrap, hstate', htrap']
  exact hlt

lemma rank_le (c : Setup R) (m : Debuggee R) : m.rank c ≤ 3 := by
  rw [rank]
  cases m.vmi.vmiStateTable c.cs <;> cases m.trap <;> simp [hiddenSteps]

/-- One step of the vCPU, which is hidden or made on both sides, keeps the two together. -/
def Matched (c : Setup R) (m q : Debuggee R) (tv : Timeval) : Prop :=
  (m.HiddenStep c tv ∧ KeepsUp c (m.cpuStep c tv) q ∧
      (m.vmi.kvm.faults = [] → (m.cpuStep c tv).rank c < m.rank c)) ∨
    (¬ m.HiddenStep c tv ∧ KeepsUp c (m.cpuStep c tv) (q.cpuStep c tv))

/-! ### The vCPU -/

/-- A debug exit that is not the monitor's does the same to both. -/
lemma Beside.debugExit (hb : Beside c m q) {r : HandleDebug} {info : KvmDebugExitArch}
    {tv : Timeval} (hr : r ≠ .consumed)
    (hm : kvmHandleDebug c.h c.cs m.env tv info m.vmi = (r, m.vmi))
    (hq : kvmHandleDebug c.h c.cs q.env tv info q.vmi = (r, q.vmi)) :
    ∃ stops rest,
      m.debugExit c.h c.cs c.queueException tv info
        = { m with trap := none, stops := stops, rest := rest } ∧
      q.debugExit c.h c.cs c.queueException tv info
        = { q with trap := none, stops := stops, rest := rest } := by
  rw [Debuggee.debugExit, Debuggee.debugExit, hm, hq, hb.stops, hb.rest]
  cases r with
  | consumed => exact absurd rfl hr
  | excpDebug => exact ⟨_, _, by rw [← hb.rest], rfl⟩
  | passToGuest => exact ⟨_, _, by rw [← hb.stops], rfl⟩

/-- The outcome of a debug exit that is not the monitor's, which is the same on both sides. -/
lemma Beside.kvmHandleDebug_eq (hb : Beside c m q) (hstate : m.vmi.vmiStateTable c.cs = .normal)
    (hsingle : m.vmi.kvm.singlestepEnabled c.cs = q.vmi.kvm.singlestepEnabled c.cs)
    {info : KvmDebugExitArch} (hinfo : info = stepTrap info.pc ∨
      (info = int3Trap info.pc ∧ ¬ c.h.IsHook info.pc)) (tv : Timeval) :
    ∃ r ≠ HandleDebug.consumed, kvmHandleDebug c.h c.cs m.env tv info m.vmi = (r, m.vmi) ∧
      kvmHandleDebug c.h c.cs q.env tv info q.vmi = (r, q.vmi) := by
  have hoff : ∀ P, ¬ (q.vmi.vmiEnabled = true ∧ P) := by
    rintro P ⟨hen, -⟩
    rw [hb.disabled] at hen
    cases hen
  rcases hinfo with hinfo | ⟨hinfo, hpc⟩
  · rw [hinfo, kvmHandleDebug_stepTrap_of_not_stepping (by simp [hstate]),
      kvmHandleDebug_stepTrap_of_not_stepping (hoff _), hsingle]
    refine ⟨_, ?_, rfl, rfl⟩
    split_ifs <;> simp
  · have hreg : m.vmi.kvm.swBreakpoints info.pc = q.vmi.kvm.swBreakpoints info.pc :=
      congrArg Site.bp (hb.elsewhere _ hpc)
    rw [hinfo, kvmHandleDebug_int3Trap_of_not_hit (fun hhit => hpc hhit.1.2),
      kvmHandleDebug_int3Trap_of_not_hit (fun hhit => hoff _ hhit.1), hreg]
    refine ⟨_, ?_, rfl, rfl⟩
    split_ifs <;> simp

/-- gdb's own debug exits are handled alike. -/
lemma Beside.matched_of_trap (hb : Beside c m q) (hstate : m.vmi.vmiStateTable c.cs = .normal)
    (hsingle : m.vmi.kvm.singlestepEnabled c.cs = q.vmi.kvm.singlestepEnabled c.cs)
    {info : KvmDebugExitArch} (hm : m.trap = some info) (hq : q.trap = some info)
    (hinfo : info = stepTrap info.pc ∨ (info = int3Trap info.pc ∧ ¬ c.h.IsHook info.pc))
    (tv : Timeval) : Matched c m q tv := by
  obtain ⟨r, hr, hm', hq'⟩ := hb.kvmHandleDebug_eq hstate hsingle hinfo tv
  obtain ⟨stops, rest, hexit, hexit'⟩ := hb.debugExit hr hm' hq'
  refine Or.inr ⟨?_, ?_⟩
  · rintro (⟨info', hinfo', hconsumed⟩ | ⟨hnone, -⟩)
    · obtain rfl : info' = info := Option.some.inj (hinfo'.symm.trans hm)
      rw [hm'] at hconsumed
      exact hr hconsumed
    · rw [hm] at hnone
      cases hnone
  · have hstep : m.cpuStep c tv = { m with trap := none, stops := stops, rest := rest } := by
      rw [cpuStep, hm]
      exact hexit
    have hstep' : q.cpuStep c tv = { q with trap := none, stops := stops, rest := rest } := by
      rw [cpuStep, hq]
      exact hexit'
    rw [hstep, hstep']
    exact ⟨⟨hb.enabled, hb.disabled, hb.noTimer, hb.env, rfl, rfl, hb.elsewhere, hb.unregistered,
      hb.hooks⟩, .idle hstate hsingle rfl (by simp)⟩

/-- Both execute the instruction at the pc, where no byte of the monitor's is planted. -/
lemma cpuStep_of_not_live (htrap : m.trap = none) (hlive : ¬ (m.vmi.kvm.site m.env.eip).Live)
    (tv : Timeval) : m.cpuStep c tv = m.execute c.cs c.next := by
  rw [cpuStep, htrap]
  exact if_neg hlive

lemma cpuStep_of_live (htrap : m.trap = none) (hlive : (m.vmi.kvm.site m.env.eip).Live)
    (tv : Timeval) : m.cpuStep c tv = { m with trap := some (int3Trap m.env.eip) } := by
  rw [cpuStep, htrap]
  exact if_pos hlive

/-- Without a debug exit pending, the next step is hidden at a planted hook only. -/
lemma hiddenStep_of_none (htrap : m.trap = none) (tv : Timeval) :
    m.HiddenStep c tv ↔ c.h.IsHook m.env.eip ∧ (m.vmi.kvm.site m.env.eip).Live := by
  simp [HiddenStep, htrap]

/-- At a hook, the side without the monitor executes the guest's own instruction. -/
lemma Beside.not_live (hb : Beside c m q) (hpc : c.h.IsHook m.env.eip) :
    ¬ (q.vmi.kvm.site q.env.eip).Live := by
  rintro ⟨hreg, -⟩
  rw [← hb.env, Kvm.site_bp, hb.unregistered _ hpc] at hreg
  cases hreg

/-- The pc is at no planted hook: both execute an instruction, or an `int3` of gdb's. -/
lemma Beside.matched_of_none (hb : Beside c m q) (hnext : HookOblivious c.h c.next)
    (hstate : m.vmi.vmiStateTable c.cs = .normal)
    (hsingle : m.vmi.kvm.singlestepEnabled c.cs = q.vmi.kvm.singlestepEnabled c.cs)
    (hm : m.trap = none) (hq : q.trap = none) (tv : Timeval) : Matched c m q tv := by
  by_cases hlive : (m.vmi.kvm.site m.env.eip).Live
  · by_cases hpc : c.h.IsHook m.env.eip
    · refine Or.inl ⟨(hiddenStep_of_none hm tv).mpr ⟨hpc, hlive⟩, ?_⟩
      rw [cpuStep_of_live hm hlive]
      refine ⟨⟨hb.withTrap _ _, .trapped hstate hsingle rfl hq hpc hlive⟩, fun _ => ?_⟩
      exact rank_lt hstate hm hstate rfl Nat.one_lt_two
    · have hlive' : (q.vmi.kvm.site q.env.eip).Live := by
        rw [← hb.env, ← hb.elsewhere _ hpc]
        exact hlive
      refine Or.inr ⟨fun hh => hpc ((hiddenStep_of_none hm tv).mp hh).1, ?_⟩
      rw [cpuStep_of_live hm hlive, cpuStep_of_live hq hlive']
      refine ⟨hb.withTrap _ _, .idle hstate hsingle (by simp only [hb.env]) ?_⟩
      intro info hinfo
      obtain rfl := Option.some.inj hinfo
      exact Or.inr ⟨rfl, hb.env ▸ hpc⟩
  · have hlive' : ¬ (q.vmi.kvm.site q.env.eip).Live := by
      by_cases hpc : c.h.IsHook m.env.eip
      · exact hb.not_live hpc
      · rw [← hb.env, ← hb.elsewhere _ hpc]
        exact hlive
    have hfree : c.h.IsHook m.env.eip → m.vmi.kvm.swBreakpoints m.env.eip = none := by
      exact fun hpc => (hb.hooks _ hpc).unregistered hlive
    refine Or.inr ⟨fun hh => hlive ((hiddenStep_of_none hm tv).mp hh).2, ?_⟩
    have hb' := hb.execute hnext hfree
    rw [cpuStep_of_not_live hm hlive, cpuStep_of_not_live hq hlive']
    refine ⟨hb', .idle hstate hsingle ?_ ?_⟩
    · have henv : (c.next m.guest).env = (c.next q.guest).env := hb'.env
      simp only [Debuggee.execute, hsingle, henv]
    · intro info hinfo
      simp only [Debuggee.execute] at hinfo
      split_ifs at hinfo
      · obtain rfl := Option.some.inj hinfo
        exact Or.inl rfl
      · cases hinfo

lemma hiddenStep_of_consumed {info : KvmDebugExitArch} {v : Monitor} {tv : Timeval}
    (htrap : m.trap = some info)
    (hexit : kvmHandleDebug c.h c.cs m.env tv info m.vmi = (.consumed, v)) :
    m.HiddenStep c tv ∧ m.cpuStep c tv = { m with vmi := v, trap := none } := by
  refine ⟨Or.inl ⟨info, htrap, by rw [hexit]⟩, ?_⟩
  rw [cpuStep, htrap]
  simp only [Debuggee.debugExit, hexit]

/-- The hit: unless the removal fails, the vCPU is going to step over the hook. -/
lemma Beside.matched_of_trapped (hb : Beside c m q) (hstate : m.vmi.vmiStateTable c.cs = .normal)
    (hsingle : m.vmi.kvm.singlestepEnabled c.cs = q.vmi.kvm.singlestepEnabled c.cs)
    (htrap : m.trap = some (int3Trap m.env.eip)) (hquiet : q.trap = none)
    (hpc : c.h.IsHook m.env.eip) (hlive : (m.vmi.kvm.site m.env.eip).Live)
    (hoff : true ∉ m.vmi.kvm.faults.take 2 → m.vmi.kvm.singlestepEnabled c.cs = 0)
    (tv : Timeval) : Matched c m q tv := by
  have hexit := kvmHandleDebug_int3Trap hb.enabled hstate hpc hlive.1 m.env tv
  obtain ⟨hhidden, hstep⟩ := hiddenStep_of_consumed htrap hexit
  refine Or.inl ⟨hhidden, ?_⟩
  rw [hstep]
  obtain ⟨err, s, f, hrem, hcase⟩ :=
    kvmRemoveBreakpoint_planted ((hb.hooks _ hpc).eq_planted hlive)
  obtain ⟨hnone, hsome⟩ := vmiMonitorBreakpointHit_of_remove c.h c.cs m.env tv hrem
  have hsite : ∀ b, (m.vmi.kvm.setSite m.env.eip s f).site b
      = if b = m.env.eip then s else m.vmi.kvm.site b := Kvm.site_setSite m.vmi.kvm m.env.eip s f
  rcases hcase with ⟨herr, rfl, hok⟩ | ⟨herr, rfl, hfault⟩
  · have hstepping : Function.update m.vmi.vmiStateTable c.cs .stepping c.cs = .stepping :=
      Function.update_self ..
    have hone : Function.update m.vmi.kvm.singlestepEnabled c.cs 1 c.cs ≠ 0 := by simp
    rw [hnone herr]
    refine ⟨⟨hb.setHook hb.enabled hpc hsite .free, .stepping hstepping rfl hone
      (hsingle ▸ hoff hok) rfl hquiet hpc (Function.update_self ..) ?_⟩, fun _ => ?_⟩
    · exact Function.update_self ..
    · exact rank_lt hstate htrap hstepping rfl Nat.one_pos
  · rw [hsome herr]
    refine ⟨⟨hb.setHook hb.enabled hpc hsite .planted,
      .idle hstate hsingle hquiet.symm (by simp [hquiet])⟩, fun hf => ?_⟩
    rw [hf] at hfault
    cases hfault

/-- The step: the guest's own instruction is executed on both sides, and a debug exit is raised on
the monitored one. -/
lemma Beside.matched_of_stepping (hb : Beside c m q) (hnext : HookOblivious c.h c.next)
    (hstate : m.vmi.vmiStateTable c.cs = .stepping) (hhit : m.vmi.vmiFirstHitSeen = true)
    (hsingle : m.vmi.kvm.singlestepEnabled c.cs ≠ 0)
    (hoff : q.vmi.kvm.singlestepEnabled c.cs = 0) (htrap : m.trap = none) (hquiet : q.trap = none)
    (hpc : c.h.IsHook m.env.eip) (haddr : m.vmi.vmiStepAddrTable c.cs = m.env.eip)
    (hfree : m.vmi.kvm.swBreakpoints m.env.eip = none) (tv : Timeval) : Matched c m q tv := by
  have hlive : ¬ (m.vmi.kvm.site m.env.eip).Live := by
    rintro ⟨hreg, -⟩
    rw [Kvm.site_bp, hfree] at hreg
    cases hreg
  refine Or.inr ⟨fun hh => hlive ((hiddenStep_of_none htrap tv).mp hh).2, ?_⟩
  rw [cpuStep_of_not_live htrap hlive, cpuStep_of_not_live hquiet (hb.not_live hpc)]
  exact ⟨hb.execute hnext fun _ => hfree,
    .stepped m.env.eip hstate hhit hoff (if_pos hsingle) (if_neg (not_not.mpr hoff)) hpc haddr
      hfree⟩

/-- The end of the step. -/
lemma Beside.matched_of_stepped (hb : Beside c m q) {pc : UInt64}
    (hstate : m.vmi.vmiStateTable c.cs = .stepping)
    (hoff : q.vmi.kvm.singlestepEnabled c.cs = 0) (htrap : m.trap = some (stepTrap m.env.eip))
    (hquiet : q.trap = none) (hpc : c.h.IsHook pc) (haddr : m.vmi.vmiStepAddrTable c.cs = pc)
    (hfree : m.vmi.kvm.swBreakpoints pc = none) (tv : Timeval) : Matched c m q tv := by
  have hexit := kvmHandleDebug_stepTrap c.h hb.enabled hstate m.env tv m.env.eip
  obtain ⟨hhidden, hstep⟩ := hiddenStep_of_consumed htrap hexit
  refine Or.inl ⟨hhidden, ?_⟩
  rw [hstep]
  obtain ⟨err, s, f, hins, -, heq⟩ := vmiMonitorStepComplete_spec c.cs m.vmi
  rw [haddr, (hb.hooks pc hpc).eq_free hfree] at hins
  rw [haddr] at heq
  have hsite : ∀ b, ((cpuSingleStep c.cs 0 m.vmi.kvm).setSite pc s f).site b
      = if b = pc then s else m.vmi.kvm.site b :=
    Kvm.site_setSite (cpuSingleStep c.cs 0 m.vmi.kvm) pc s f
  have hnormal : Function.update m.vmi.vmiStateTable c.cs .normal c.cs = .normal :=
    Function.update_self ..
  have hcleared : Function.update m.vmi.kvm.singlestepEnabled c.cs 0 c.cs
      = q.vmi.kvm.singlestepEnabled c.cs := by
    rw [hoff, Function.update_self]
  rw [heq]
  refine ⟨⟨hb.setHook hb.enabled hpc hsite (.of_insert hins),
    .idle hnormal hcleared hquiet.symm (by simp [hquiet])⟩, fun _ => ?_⟩
  exact rank_lt hstate htrap hnormal rfl (Nat.lt_succ_self 2)

/-- One step of the vCPU keeps the two together. -/
theorem KeepsUp.matched (hk : KeepsUp c m q) (hnext : HookOblivious c.h c.next)
    (hund : m.trap = some (int3Trap m.env.eip) → c.h.IsHook m.env.eip →
      m.vmi.vmiStateTable c.cs = .normal → true ∉ m.vmi.kvm.faults.take 2 →
        m.vmi.kvm.singlestepEnabled c.cs = 0)
    (tv : Timeval) : Matched c m q tv := by
  obtain ⟨hb, hphase⟩ := hk
  cases hphase with
  | idle hstate hsingle htrap hinfo =>
    cases hq : q.trap with
    | none => exact hb.matched_of_none hnext hstate hsingle (htrap.trans hq) hq tv
    | some info =>
      exact hb.matched_of_trap hstate hsingle (htrap.trans hq) hq (hinfo info hq) tv
  | trapped hstate hsingle htrap hquiet hpc hlive =>
    exact hb.matched_of_trapped hstate hsingle htrap hquiet hpc hlive (hund htrap hpc hstate) tv
  | stepping hstate hhit hsingle hoff htrap hquiet hpc haddr hfree =>
    exact hb.matched_of_stepping hnext hstate hhit hsingle hoff htrap hquiet hpc haddr hfree tv
  | stepped pc hstate hhit hoff htrap hquiet hpc haddr hfree =>
    exact hb.matched_of_stepped hstate hoff htrap hquiet hpc haddr hfree tv

/-! ### gdb, notifications and the timer -/

/-- What the phase depends on. -/
structure SamePhase (c : Setup R) (m m' q q' : Debuggee R) : Prop where
  env : m'.env = m.env
  trap : m'.trap = m.trap
  trap' : q'.trap = q.trap
  state : m'.vmi.vmiStateTable = m.vmi.vmiStateTable
  hit : m'.vmi.vmiFirstHitSeen = m.vmi.vmiFirstHitSeen
  addr : m'.vmi.vmiStepAddrTable = m.vmi.vmiStepAddrTable
  single : m'.vmi.kvm.singlestepEnabled = m.vmi.kvm.singlestepEnabled
  single' : q'.vmi.kvm.singlestepEnabled = q.vmi.kvm.singlestepEnabled
  hooks : ∀ a, c.h.IsHook a → m'.vmi.kvm.site a = m.vmi.kvm.site a

lemma Phase.congr {m' q' : Debuggee R} (hphase : Phase c m q) (hsame : SamePhase c m m' q q') :
    Phase c m' q' := by
  obtain ⟨henv, htrap', hquiet', hstate', hhit', haddr', hsingle', hoff', hhooks⟩ := hsame
  cases hphase with
  | idle hstate hsingle htrap hinfo =>
    refine .idle (by rw [hstate', hstate]) (by rw [hsingle', hoff', hsingle])
      (by rw [htrap', hquiet', htrap]) ?_
    rw [hquiet']
    exact hinfo
  | trapped hstate hsingle htrap hquiet hpc hlive =>
    refine .trapped (by rw [hstate', hstate]) (by rw [hsingle', hoff', hsingle])
      (by rw [htrap', htrap, henv]) (by rw [hquiet', hquiet]) (by rw [henv]; exact hpc) ?_
    rw [henv, hhooks _ hpc]
    exact hlive
  | stepping hstate hhit hsingle hoff htrap hquiet hpc haddr hfree =>
    refine .stepping (by rw [hstate', hstate]) (by rw [hhit', hhit])
      (by rw [hsingle']; exact hsingle) (by rw [hoff', hoff]) (by rw [htrap', htrap])
      (by rw [hquiet', hquiet]) (by rw [henv]; exact hpc) (by rw [haddr', haddr, henv]) ?_
    rw [henv]
    exact (congrArg Site.bp (hhooks _ hpc)).trans hfree
  | stepped pc hstate hhit hoff htrap hquiet hpc haddr hfree =>
    refine .stepped pc (by rw [hstate', hstate]) (by rw [hhit', hhit]) (by rw [hoff', hoff])
      (by rw [htrap', htrap, henv]) (by rw [hquiet', hquiet]) hpc (by rw [haddr', haddr]) ?_
    exact (congrArg Site.bp (hhooks _ hpc)).trans hfree

/-- Outside a step-over, the flag is the same on both sides. -/
lemma Phase.singlestepEnabled (hphase : Phase c m q)
    (hnormal : m.vmi.vmiStateTable c.cs = .normal) :
    m.vmi.kvm.singlestepEnabled c.cs = q.vmi.kvm.singlestepEnabled c.cs := by
  cases hphase with
  | idle _ hsingle _ _ => exact hsingle
  | trapped _ hsingle _ _ _ _ => exact hsingle
  | stepping hstate _ _ _ _ _ _ _ _ =>
    rw [hstate] at hnormal
    cases hnormal
  | stepped _ hstate _ _ _ _ _ _ _ =>
    rw [hstate] at hnormal
    cases hnormal

lemma KeepsUp.withFaults (hk : KeepsUp c m q) (f f' : List Bool) :
    KeepsUp c (m.withFaults f) (q.withFaults f') :=
  ⟨⟨hk.beside.enabled, hk.beside.disabled, hk.beside.noTimer, hk.beside.env, hk.beside.rest,
    hk.beside.stops, hk.beside.elsewhere, hk.beside.unregistered, hk.beside.hooks⟩,
    hk.phase.congr ⟨rfl, rfl, rfl, rfl, rfl, rfl, rfl, rfl, fun _ _ => rfl⟩⟩

/-- gdb changes one address that is not a hook. -/
lemma KeepsUp.setSite (hk : KeepsUp c m q) {a : UInt64} (ha : ¬ c.h.IsHook a) (s : Site)
    (f f' : List Bool) :
    KeepsUp c (m.withKvm ((m.withFaults f').vmi.kvm.setSite a s f))
      (q.withKvm ((q.withFaults f').vmi.kvm.setSite a s f)) := by
  refine ⟨hk.beside.setSite ha s f f',
    hk.phase.congr ⟨rfl, rfl, rfl, rfl, rfl, rfl, rfl, rfl, fun b hb => ?_⟩⟩
  apply Kvm.site_setSite_of_ne (m.withFaults f').vmi.kvm
  rintro rfl
  exact ha hb

lemma KeepsUp.insertBreakpoint (hk : KeepsUp c m q) {a : UInt64} (ha : ¬ c.h.IsHook a)
    (faults : List Bool) :
    KeepsUp c (m.step c (.insertBreakpoint a faults)) (q.step c (.insertBreakpoint a faults)) := by
  have hsite : (q.withFaults faults).vmi.kvm.site a = (m.withFaults faults).vmi.kvm.site a :=
    (hk.beside.elsewhere a ha).symm
  obtain ⟨s, f, hm, hq⟩ := kvmInsertBreakpoint_congr hsite rfl
  rw [step, step, hm, hq]
  exact hk.setSite ha s f faults

lemma KeepsUp.removeBreakpoint (hk : KeepsUp c m q) {a : UInt64} (ha : ¬ c.h.IsHook a)
    (faults : List Bool) :
    KeepsUp c (m.step c (.removeBreakpoint a faults)) (q.step c (.removeBreakpoint a faults)) := by
  have hsite : (q.withFaults faults).vmi.kvm.site a = (m.withFaults faults).vmi.kvm.site a :=
    (hk.beside.elsewhere a ha).symm
  obtain ⟨s, f, hm, hq⟩ := kvmRemoveBreakpoint_congr hsite rfl
  rw [step, step, hm, hq]
  exact hk.setSite ha s f faults

/-- gdb sets the flag on both sides, outside a step-over. -/
lemma KeepsUp.singleStep (hk : KeepsUp c m q) {n : ℕ}
    (hund : m.vmi.vmiStateTable c.cs = .stepping → n = 0 ∧ m.trap.isSome = true) :
    KeepsUp c (m.step c (.singleStep n)) (q.step c (.singleStep n)) := by
  obtain ⟨hb, hphase⟩ := hk
  refine ⟨⟨hb.enabled, hb.disabled, hb.noTimer, hb.env, hb.rest, hb.stops, hb.elsewhere,
    hb.unregistered, hb.hooks⟩, ?_⟩
  have hsame : Function.update m.vmi.kvm.singlestepEnabled c.cs n c.cs
      = Function.update q.vmi.kvm.singlestepEnabled c.cs n c.cs := by
    rw [Function.update_self, Function.update_self]
  cases hphase with
  | idle hstate _ htrap hinfo => exact .idle hstate hsame htrap hinfo
  | trapped hstate _ htrap hquiet hpc hlive => exact .trapped hstate hsame htrap hquiet hpc hlive
  | stepping hstate _ _ _ htrap _ _ _ _ =>
    have hsome := (hund hstate).2
    rw [htrap] at hsome
    cases hsome
  | stepped pc hstate hhit hoff htrap hquiet hpc haddr hfree =>
    obtain rfl := (hund hstate).1
    exact .stepped pc hstate hhit (Function.update_self ..) htrap hquiet hpc haddr hfree

/-- An attempt to arm is made in `VMI_NORMAL`, and a planted hook stays planted. -/
lemma KeepsUp.arming (hk : KeepsUp c m q) {v : Monitor}
    (hf : m.vmi.vmiFirstHitSeen = false → m.vmi.vmiBootSyncOk = false → m.vmi.kvm.faults = [])
    (harm : ArmingStep c.h m.vmi v) : KeepsUp c { m with vmi := v } q := by
  have hbeside := hk.beside.arming hf harm
  refine ⟨hbeside, ?_⟩
  cases harm with
  | idle hkvm _ hsame _ =>
    exact hk.phase.congr ⟨rfl, rfl, rfl, hsame.vmiStateTable, hsame.vmiFirstHitSeen,
      hsame.vmiStepAddrTable, congrArg Kvm.singlestepEnabled hkvm, rfl,
      fun a _ => congrArg (fun k => Kvm.site k a) hkvm⟩
  | attempt tag hunseen hsync hkvm _ hsame =>
    obtain ⟨k, hk', -, hsites⟩ :=
      vmiArmOnce_clean (hf hunseen hsync) fun a ha => (hk.beside.hooks a ha).useCount_le
    have helse := vmiArmOnce_sameElsewhere c.h m.vmi.kvm
    rw [hk'] at hkvm helse
    have hsingle' : v.kvm.singlestepEnabled = m.vmi.kvm.singlestepEnabled := by
      rw [hkvm]
      exact helse.singlestepEnabled
    cases hk.phase with
    | idle hstate hsingle htrap hinfo =>
      exact .idle (by simp only [hsame.vmiStateTable, hstate]) (by simp only [hsingle', hsingle])
        htrap hinfo
    | trapped hstate hsingle htrap hquiet hpc hlive =>
      refine .trapped (by simp only [hsame.vmiStateTable, hstate])
        (by simp only [hsingle', hsingle]) htrap hquiet hpc ?_
      show (v.kvm.site m.env.eip).Live
      rw [hkvm, hsites _ hpc]
      exact ⟨rfl, rfl⟩
    | stepping _ hhit _ _ _ _ _ _ _ =>
      rw [hunseen] at hhit
      cases hhit
    | stepped _ _ hhit _ _ _ _ _ _ =>
      rw [hunseen] at hhit
      cases hhit

/-! ### Any event -/

/-- Without the monitor, notifications do nothing. -/
lemma vmiVmStateChange_of_disabled {v : Monitor} (hoff : v.vmiEnabled = false) (h : Hooks)
    (running : Bool) (state : RunState) : vmiVmStateChange h running state v = v := by
  simp [vmiVmStateChange, hoff]

/-- One event, which is hidden or happens on both sides, keeps the two together. -/
theorem KeepsUp.step (hk : KeepsUp c m q) (hnext : HookOblivious c.h c.next) {e : GdbEvent}
    (helse : e.Elsewhere c.h) (hund : m.Undisturbed c e) :
    (m.Hidden c e ∧ KeepsUp c (m.step c e) q ∧ (e.Clean → (m.step c e).rank c < m.rank c)) ∨
      (¬ m.Hidden c e ∧ KeepsUp c (m.step c e) (q.step c e)) := by
  cases e with
  | cpu tv faults =>
    rcases (hk.withFaults faults faults).matched hnext hund tv with ⟨hh, hk', hrank⟩ | hvisible
    · have hk'' := hk'.withFaults (m.step c (.cpu tv faults)).vmi.kvm.faults q.vmi.kvm.faults
      exact Or.inl ⟨hh, hk'', hrank⟩
    · exact Or.inr hvisible
  | insertBreakpoint a faults => exact Or.inr ⟨id, hk.insertBreakpoint helse faults⟩
  | removeBreakpoint a faults => exact Or.inr ⟨id, hk.removeBreakpoint helse faults⟩
  | singleStep n => exact Or.inr ⟨id, hk.singleStep hund⟩
  | vmStateChange running state faults =>
    refine Or.inr ⟨id, ?_⟩
    have hk' := hk.withFaults faults faults
    have hq : q.step c (.vmStateChange running state faults) = q.withFaults faults := by
      rw [Debuggee.step, vmiVmStateChange_of_disabled hk'.beside.disabled]
      rfl
    rw [hq]
    exact hk'.arming hund (vmiVmStateChange_arming c.h running state hk'.beside.enabled)
  | timerExpiry faults =>
    refine Or.inr ⟨id, ?_⟩
    have hk' := hk.withFaults faults faults
    have hq : q.step c (.timerExpiry faults) = q.withFaults faults := by
      rw [Debuggee.step, timerStep, hk'.beside.noTimer]
      rfl
    rw [hq, Debuggee.step, timerStep]
    split_ifs
    · exact hk'.arming hund (vmiTryArm_arming c.h _).of_timer
    · exact hk'

/-! ### Whole sessions -/

/-- Every hook is planted with one reference, and the vCPU is in `VMI_NORMAL` with no debug exit
pending. -/
structure Armed (c : Setup R) (m : Debuggee R) : Prop where
  trap : m.trap = none
  enabled : m.vmi.vmiEnabled = true
  normal : m.vmi.vmiStateTable c.cs = .normal
  planted : ∀ a, c.h.IsHook a → ∃ g, m.vmi.kvm.site a = ⟨some ⟨g, 1⟩, int3⟩

/-- An attempt in which no access fails, on hooks that nobody else uses, arms the machine. -/
lemma armed_of_vmiArmOnce {k : Kvm} (hf : k.faults = [])
    (hcount : ∀ a, c.h.IsHook a → (k.site a).useCount ≤ 1)
    (hkvm : m.vmi.kvm = (vmiArmOnce c.h k).2) (htrap : m.trap = none)
    (hen : m.vmi.vmiEnabled = true) (hnormal : m.vmi.vmiStateTable c.cs = .normal) :
    m.Armed c := by
  obtain ⟨k', harm, -, hsites⟩ := vmiArmOnce_clean hf hcount
  refine ⟨htrap, hen, hnormal, fun a ha => ⟨(k.site a).guestByte, ?_⟩⟩
  rw [hkvm, harm, hsites a ha, Site.armed]

lemma Armed.keepsUp (hm : m.Armed c) : KeepsUp c m (m.disabled c.h) := by
  refine ⟨⟨hm.enabled, rfl, rfl, rfl, rfl, rfl, ?_, ?_, ?_⟩, .idle hm.normal rfl rfl ?_⟩
  · intro a ha
    simp [disabled, Kvm.site, ha]
  · intro a ha
    simp [disabled, ha]
  · intro a ha
    obtain ⟨g, hg⟩ := hm.planted a ha
    have hbyte : (m.disabled c.h).vmi.kvm.mem a = g := by
      simp [disabled, ha, hg, Site.guestByte_of_eq]
    rw [hbyte, hg]
    exact .planted
  · intro info hinfo
    rw [disabled, hm.trap] at hinfo
    cases hinfo

/-- The two are kept together by whole sessions. -/
lemma KeepsUp.run (hk : KeepsUp c m q) (hnext : HookOblivious c.h c.next) {es : List GdbEvent}
    (hes : Along (total (Debuggee.step c)) (fun m e => e.Elsewhere c.h ∧ m.Undisturbed c e) m es) :
    KeepsUp c (m.run c es) (q.run c (visible (Debuggee.step c) (Hidden c) m es)) := by
  refine relation_visible ?_ ?_ hk hes
  · rintro m q e hk ⟨helse, hund⟩ hh
    rcases hk.step hnext helse hund with ⟨-, hk', -⟩ | ⟨hnot, -⟩
    · exact hk'
    · exact absurd hh hnot
  · rintro m q e hk ⟨helse, hund⟩ hh
    rcases hk.step hnext helse hund with ⟨hh', -⟩ | ⟨-, hk'⟩
    · exact absurd hh' hh
    · exact hk'

/-- While the accesses of the handlers succeed, at most three events in a row are hidden. -/
lemma KeepsUp.length_le (hk : KeepsUp c m q) (hnext : HookOblivious c.h c.next)
    {es : List GdbEvent}
    (hes : Along (total (Debuggee.step c)) (fun m e => e.Elsewhere c.h ∧ m.Undisturbed c e) m es)
    (hclean : ∀ e ∈ es, e.Clean) :
    es.length ≤ 4 * (visible (Debuggee.step c) (Hidden c) m es).length + 3 := by
  have hlen : es.length
      ≤ (3 + 1) * (visible (Debuggee.step c) (Hidden c) m es).length + m.rank c := by
    apply length_le_visible (I := fun m => ∃ q, KeepsUp c m q) ?_ (rank_le c) ?_ ⟨q, hk⟩
      (hes.and (along_of_forall hclean m))
    · rintro m e ⟨q, hk⟩ ⟨⟨helse, hund⟩, -⟩
      rcases hk.step hnext helse hund with ⟨-, hk', -⟩ | ⟨-, hk'⟩
      · exact ⟨_, hk'⟩
      · exact ⟨_, hk'⟩
    · rintro m e ⟨q, hk⟩ ⟨⟨helse, hund⟩, hc⟩ hh
      rcases hk.step hnext helse hund with ⟨-, -, hrank⟩ | ⟨hnot, -⟩
      · exact hrank hc
      · exact absurd hh hnot
  exact hlen.trans (Nat.add_le_add_left (rank_le c m) _)

/-- **Coexistence.** In every session in which gdb's breakpoints are not at the hooks and gdb and
the monitor do not get in each other's way, gdb has seen the same stops as in the session without
the monitor, which has all events but the hidden ones; and outside a step-over `singlestep_enabled`
is as gdb has set it. Hidden events do not go on forever unless accesses keep failing. -/
theorem stops_run (hnext : HookOblivious c.h c.next) (hm : m.Armed c) {es : List GdbEvent}
    (helse : ∀ e ∈ es, e.Elsewhere c.h)
    (hund : Along (total (Debuggee.step c)) (Undisturbed c) m es) :
    let q := (m.disabled c.h).run c (visible (Debuggee.step c) (Hidden c) m es)
    (m.run c es).stops = q.stops ∧
      ((m.run c es).vmi.vmiStateTable c.cs = .normal →
        (m.run c es).vmi.kvm.singlestepEnabled c.cs = q.vmi.kvm.singlestepEnabled c.cs) ∧
      ((∀ e ∈ es, e.Clean) →
        es.length ≤ 4 * (visible (Debuggee.step c) (Hidden c) m es).length + 3) := by
  have hes := (along_of_forall helse m).and hund
  have hk := hm.keepsUp.run hnext hes
  exact ⟨hk.beside.stops, hk.phase.singlestepEnabled, hm.keepsUp.length_le hnext hes⟩

end Debuggee

/-- A guest that executes one-byte instructions without effect. -/
def sled (g : Guest Unit) : Guest Unit := { g with env.eip := g.env.eip + 1 }

lemma hookOblivious_sled (h : Hooks) : HookOblivious h sled where
  never_writes _ _ _ := rfl
  only_fetches := by
    intro g g' henv hrest hmem
    refine Guest.ext (by simp only [Guest.erase, sled, henv]) hrest (funext fun a => ?_)
    by_cases ha : h.IsHook a
    · simp [Guest.erase, sled, ha]
    · simpa [Guest.erase, sled, ha] using hmem a fun hhook => absurd hhook ha

/-- The documented nginx build, with a guest that runs through the hooks. -/
def nginxSetup : Debuggee.Setup Unit := ⟨nginxHooks, 0, sled, fun _ rest => rest⟩

/-- The vCPU at `eip`, with both hooks armed. -/
def nginxDebuggee (eip : UInt64) : Debuggee Unit where
  vmi := .boot nginxHooks nginxKvm
  env := ⟨fun _ => 0, eip⟩
  rest := ()
  trap := none
  stops := []

lemma armed_nginxDebuggee (eip : UInt64) : (nginxDebuggee eip).Armed nginxSetup :=
  Debuggee.armed_of_vmiArmOnce (k := nginxKvm) rfl (fun _ _ => Nat.zero_le 1) rfl rfl rfl rfl

/-- gdb stops behind the entry hook, clears its breakpoint and makes a step. -/
def nginxSession : List GdbEvent :=
  let cpu := .cpu ⟨0, 0⟩ []
  [.insertBreakpoint 0x101001 [], cpu, cpu, cpu, cpu, cpu, cpu, cpu, .removeBreakpoint 0x101001 [],
    .singleStep 1, cpu, cpu]

/-- The hook is hit before gdb's breakpoint, and both stops are reported. -/
theorem nginx_stops_run :
    ((nginxDebuggee 0x100fff).run nginxSetup nginxSession).stops = [0x101001, 0x101002] := by
  have helse : ∀ e ∈ nginxSession, e.Elsewhere nginxHooks := by decide
  have hund : Along (total (Debuggee.step nginxSetup)) (Debuggee.Undisturbed nginxSetup)
      (nginxDebuggee 0x100fff) nginxSession := by decide
  have hrun := Debuggee.stops_run (hookOblivious_sled nginxHooks)
    (armed_nginxDebuggee 0x100fff) helse hund
  exact hrun.1.trans (by decide)

/-- gdb steps from the entry hook. The stop that it would see without the monitor does not come. -/
theorem stops_ne :
    (nginxDebuggee 0x101000).Armed nginxSetup ∧
      ¬ ∀ es : List GdbEvent, (∀ e ∈ es, e.Elsewhere nginxHooks) →
        ((nginxDebuggee 0x101000).run nginxSetup es).stops
          = (((nginxDebuggee 0x101000).disabled nginxHooks).run nginxSetup
              (visible (Debuggee.step nginxSetup) (Debuggee.Hidden nginxSetup)
                (nginxDebuggee 0x101000) es)).stops := by
  refine ⟨armed_nginxDebuggee 0x101000, fun hall => ?_⟩
  have hstops := hall
    [.singleStep 1, .cpu ⟨0, 0⟩ [], .cpu ⟨0, 0⟩ [], .cpu ⟨0, 0⟩ [], .cpu ⟨0, 0⟩ [], .cpu ⟨0, 0⟩ []]
    (by decide)
  exact absurd hstops (by decide)

end SyscallMonitor
