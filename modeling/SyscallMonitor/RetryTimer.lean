import SyscallMonitor.Monitor
import SyscallMonitor.Lib.Run

/-!
# The retry timer

The timer is created, scheduled and freed in four functions. `Retrying` says when it is scheduled
after any sequence of run-state notifications, expiries, completed transfers and hits, whatever the
attempts to arm come to: each event brings its own state of QEMU.
-/

namespace SyscallMonitor

open Lib Monitor

/-- What the timer depends on. `k` is the state of QEMU in which the handler runs. -/
inductive TimerEvent where
  | vmStateChange (running : Bool) (state : RunState) (k : Kvm)
  | timerExpiry (k : Kvm)
  | kernelLoaded (k : Kvm)
  | breakpointHit (cs : ℕ) (env : CPUX86State) (tv : Timeval) (pc : UInt64) (k : Kvm)

namespace TimerEvent

/-- A notification that the machine is running. -/
def isRunning : TimerEvent → Bool
  | .vmStateChange running _ _ => running
  | .timerExpiry _ => false
  | .kernelLoaded _ => false
  | .breakpointHit .. => false

/-- What convinces the monitor that the hooks are live: a hit, or a transfer after which all of them
can be armed. -/
def Confirms (h : Hooks) : TimerEvent → Prop
  | .vmStateChange .. => False
  | .timerExpiry _ => False
  | .kernelLoaded k => (vmiArmOnce h k).1 = true
  | .breakpointHit .. => True

/-- One event, run to completion. A timer expires only if it is scheduled. -/
def step (h : Hooks) (v : Monitor) : TimerEvent → Option Monitor
  | .vmStateChange running state k => some (vmiVmStateChange h running state { v with kvm := k })
  | .timerExpiry k =>
    if v.vmiArmTimer = some ⟨true⟩ then
      some (vmiTryArm h { v with kvm := k, vmiArmTimer := some ⟨false⟩ })
    else none
  | .kernelLoaded k => some (vmiMonitorKernelLoaded h { v with kvm := k })
  | .breakpointHit cs env tv pc k =>
    some (vmiMonitorBreakpointHit h cs env tv pc { v with kvm := k })

end TimerEvent

/-! ### History -/

/-- What has happened: whether the machine has been seen running, and the number of attempts that
`vmi_try_arm` has made since the timer was last created. -/
structure TimerHistory where
  seenRunning : Bool
  made : ℕ

/-- The attempts of the polling path. -/
def pollAttempts (v : Monitor) : ℕ := v.armCalls.countP fun c => c.tag = .arm

/-- The history after an event. A notification that finds no timer creates one. -/
def TimerHistory.note (v : Monitor) (e : TimerEvent) (v' : Monitor) (b : TimerHistory) :
    TimerHistory where
  seenRunning := b.seenRunning || e.isRunning
  made :=
    (if e.isRunning = true ∧ v.vmiArmTimer = none then 0 else b.made) +
      (pollAttempts v' - pollAttempts v)

/-- A retry is due: the machine has been seen running, nothing has convinced the monitor that the
hooks are live, and the budget is not used up. -/
def RetryDue (v : Monitor) (b : TimerHistory) : Prop :=
  b.seenRunning = true ∧ v.vmiFirstHitSeen = false ∧ v.vmiBootSyncOk = false ∧
    b.made < vmiArmMaxAttempts

instance (v : Monitor) (b : TimerHistory) : Decidable (RetryDue v b) :=
  inferInstanceAs (Decidable (_ ∧ _ ∧ _ ∧ _))

/-- The timer is there and scheduled when a retry is due, and not there otherwise. -/
structure Retrying (s : Monitor × TimerHistory) : Prop where
  enabled : s.1.vmiEnabled = true
  attempts : s.1.vmiArmAttempts = s.2.made
  made_le : s.2.made ≤ vmiArmMaxAttempts
  timer : s.1.vmiArmTimer = if RetryDue s.1 s.2 then some ⟨true⟩ else none

/-! ### One event -/

variable {h : Hooks} {v : Monitor} {b : TimerHistory}

lemma Retrying.due (hv : Retrying (v, b)) {t : QEMUTimer} (ht : v.vmiArmTimer = some t) :
    RetryDue v b ∧ t = ⟨true⟩ := by
  have htimer := hv.timer
  simp only [ht] at htimer
  split_ifs at htimer with hdue
  exact ⟨hdue, Option.some.inj htimer⟩

/-- What `vmi_try_arm` does to a timer that is there, after `n` attempts. -/
structure TriedArm (v : Monitor) (n : ℕ) (v' : Monitor) : Prop where
  enabled : v'.vmiEnabled = v.vmiEnabled
  hit : v'.vmiFirstHitSeen = v.vmiFirstHitSeen
  sync : v'.vmiBootSyncOk = v.vmiBootSyncOk
  attempts : v'.vmiArmAttempts = n + (pollAttempts v' - pollAttempts v)
  le : v'.vmiArmAttempts ≤ n + 1
  timer : v'.vmiArmTimer =
    if v.vmiFirstHitSeen = false ∧ v.vmiBootSyncOk = false ∧ v'.vmiArmAttempts < vmiArmMaxAttempts
    then some ⟨true⟩ else none

lemma triedArm {t : QEMUTimer} (ht : v.vmiArmTimer = some t) :
    TriedArm v v.vmiArmAttempts (vmiTryArm h v) := by
  by_cases hflag : v.vmiFirstHitSeen = true ∨ v.vmiBootSyncOk = true
  · rw [vmiTryArm_of_standDown hflag]
    refine ⟨rfl, rfl, rfl, ?_, Nat.le_succ _, ?_⟩
    · simp [pollAttempts, timerFree]
    · rcases hflag with hflag | hflag <;> simp [hflag, timerFree]
  · have hhit : v.vmiFirstHitSeen = false := by simpa using fun hh => hflag (Or.inl hh)
    have hsync : v.vmiBootSyncOk = false := by simpa using fun hs => hflag (Or.inr hs)
    rw [vmiTryArm_of_attempt hhit hsync, vmiTryArmEnd_eq]
    split_ifs with hmax
    · refine ⟨rfl, rfl, rfl, ?_, Nat.le_refl _, ?_⟩
      · simp [pollAttempts, timerFree]
      · simp [timerFree, Nat.not_lt.mpr hmax]
    · rw [timerMod, ht]
      refine ⟨rfl, rfl, rfl, ?_, Nat.le_refl _, ?_⟩
      · simp [pollAttempts]
      · simp only [hhit, hsync, Nat.not_le.mp hmax, and_self, ↓reduceIte]

/-- A `vmi_try_arm` that has seen `n` attempts keeps the relation between timer and history. -/
lemma TriedArm.retrying {w v' : Monitor} {n : ℕ} (htried : TriedArm w n v')
    (hen : w.vmiEnabled = true) (hn : n < vmiArmMaxAttempts) :
    Retrying (v', ⟨true, n + (pollAttempts v' - pollAttempts w)⟩) := by
  obtain ⟨henabled, hhit, hsync, hattempts, hle, htimer⟩ := htried
  refine ⟨henabled.trans hen, hattempts, ?_, ?_⟩
  · rw [← hattempts]
    exact Nat.le_trans hle hn
  · rw [htimer, ← hattempts]
    simp only [RetryDue, hhit, hsync, true_and]

/-- A completed transfer does nothing once a flag is set; a successful attempt sets the other flag
and frees the timer, and a failed one leaves both as they are. -/
lemma vmiMonitorKernelLoaded_cases (h : Hooks) (hen : v.vmiEnabled = true) :
    ((v.vmiFirstHitSeen = true ∨ v.vmiBootSyncOk = true) ∧ vmiMonitorKernelLoaded h v = v) ∨
    (v.vmiFirstHitSeen = false ∧ v.vmiBootSyncOk = false ∧ (vmiArmOnce h v.kvm).1 = true ∧
      vmiMonitorKernelLoaded h v = { (v.callArm h .bootSync).2 with
        vmiBootSyncOk := true
        vmiArmTimer := none }) ∨
    (v.vmiFirstHitSeen = false ∧ v.vmiBootSyncOk = false ∧ (vmiArmOnce h v.kvm).1 = false ∧
      vmiMonitorKernelLoaded h v = (v.callArm h .bootSync).2) := by
  by_cases hflag : v.vmiFirstHitSeen = true ∨ v.vmiBootSyncOk = true
  · exact Or.inl ⟨hflag, vmiMonitorKernelLoaded_of_flag hflag⟩
  · have hhit : v.vmiFirstHitSeen = false := by simpa using fun hh => hflag (Or.inl hh)
    have hsync : v.vmiBootSyncOk = false := by simpa using fun hs => hflag (Or.inr hs)
    apply Or.inr
    rw [vmiMonitorKernelLoaded]
    simp only [hen, hhit, hsync, Bool.not_true, Bool.or_self, Bool.false_eq_true, ↓reduceIte,
      true_and]
    cases harm : (vmiArmOnce h v.kvm).1 with
    | true => exact Or.inl ⟨rfl, by simp only [callArm, harm, timerFree]⟩
    | false => exact Or.inr ⟨rfl, by simp only [callArm, harm]⟩

@[simp] lemma pollAttempts_bootSync (h : Hooks) (v : Monitor) :
    pollAttempts (v.callArm h .bootSync).2 = pollAttempts v := by
  simp [pollAttempts, callArm]

/-- An event that neither starts the machine nor makes an attempt of the polling path leaves the
history as it is. -/
lemma note_of_quiet {e : TimerEvent} {v' : Monitor} (hrun : e.isRunning = false)
    (hcalls : pollAttempts v' = pollAttempts v) : TimerHistory.note v e v' b = b := by
  simp [TimerHistory.note, hrun, hcalls]

/-- The timer, the flags and the attempts are as before. -/
lemma Retrying.of_same (hv : Retrying (v, b)) {e : TimerEvent} {v' : Monitor}
    (hrun : e.isRunning = false) (hcalls : pollAttempts v' = pollAttempts v)
    (hen : v'.vmiEnabled = v.vmiEnabled) (htimer : v'.vmiArmTimer = v.vmiArmTimer)
    (hattempts : v'.vmiArmAttempts = v.vmiArmAttempts)
    (hhit : v'.vmiFirstHitSeen = v.vmiFirstHitSeen) (hsync : v'.vmiBootSyncOk = v.vmiBootSyncOk) :
    Retrying (v', TimerHistory.note v e v' b) := by
  have hdue : RetryDue v' b ↔ RetryDue v b := by rw [RetryDue, RetryDue, hhit, hsync]
  rw [note_of_quiet hrun hcalls]
  refine ⟨hen.trans hv.enabled, hattempts.trans hv.attempts, hv.made_le, ?_⟩
  simp only [htimer, hdue]
  exact hv.timer

/-- A flag has been set, and the timer freed. -/
lemma Retrying.of_flag (hv : Retrying (v, b)) {e : TimerEvent} {v' : Monitor}
    (hrun : e.isRunning = false) (hcalls : pollAttempts v' = pollAttempts v)
    (hen : v'.vmiEnabled = v.vmiEnabled) (htimer : v'.vmiArmTimer = none)
    (hattempts : v'.vmiArmAttempts = v.vmiArmAttempts)
    (hflag : v'.vmiFirstHitSeen = true ∨ v'.vmiBootSyncOk = true) :
    Retrying (v', TimerHistory.note v e v' b) := by
  rw [note_of_quiet hrun hcalls]
  refine ⟨hen.trans hv.enabled, hattempts.trans hv.attempts, hv.made_le, ?_⟩
  rcases hflag with hflag | hflag <;> simp [htimer, RetryDue, hflag]

/-- A run-state notification. -/
lemma Retrying.vmStateChange (hv : Retrying (v, b)) (running : Bool) (state : RunState) (k : Kvm) :
    Retrying (vmiVmStateChange h running state v,
      TimerHistory.note v (.vmStateChange running state k) (vmiVmStateChange h running state v)
        b) := by
  cases running with
  | false =>
    rcases vmiVmStateChange_of_stopped (h := h) (v := v) with heq | heq
    · rw [heq]
      exact hv.of_same rfl rfl rfl rfl rfl rfl rfl
    · rw [heq]
      exact hv.of_same rfl rfl rfl rfl rfl rfl rfl
  | true =>
    rw [vmiVmStateChange_of_running hv.enabled]
    cases htimer : v.vmiArmTimer with
    | some t =>
      -- an arm sequence is in flight, so the machine has been seen running
      have hseen : b.seenRunning = true := (hv.due htimer).1.1
      have hnote : TimerHistory.note v (.vmStateChange true state k) v b = b := by
        simp [TimerHistory.note, htimer, ← hseen, TimerEvent.isRunning]
      simp only
      rw [hnote]
      exact hv
    | none =>
      simp only
      have htried := triedArm (h := h)
        (v := { v with vmiArmAttempts := 0, vmiArmTimer := some ⟨false⟩ }) rfl
      have hretry := htried.retrying hv.enabled (show 0 < vmiArmMaxAttempts by decide)
      have hnote (v' : Monitor) : TimerHistory.note v (.vmStateChange true state k) v' b
          = ⟨true, 0 + (pollAttempts v' - pollAttempts v)⟩ := by
        simp [TimerHistory.note, htimer, TimerEvent.isRunning]
      rw [hnote]
      exact hretry

/-- An expiry. -/
lemma Retrying.timerExpiry (hv : Retrying (v, b)) (htimer : v.vmiArmTimer = some ⟨true⟩) (k : Kvm) :
    Retrying (vmiTryArm h { v with vmiArmTimer := some ⟨false⟩ },
      TimerHistory.note v (.timerExpiry k) (vmiTryArm h { v with vmiArmTimer := some ⟨false⟩ })
        b) := by
  obtain ⟨⟨hseen, -, -, hmade⟩, -⟩ := hv.due htimer
  have hattempts : v.vmiArmAttempts = b.made := hv.attempts
  have htried := triedArm (h := h) (v := { v with vmiArmTimer := some ⟨false⟩ }) rfl
  have hretry := htried.retrying hv.enabled (hattempts.trans_lt hmade)
  have hnote (v' : Monitor) : TimerHistory.note v (.timerExpiry k) v' b
      = ⟨true, v.vmiArmAttempts + (pollAttempts v' - pollAttempts v)⟩ := by
    simp [TimerHistory.note, TimerEvent.isRunning, hseen, hattempts]
  rw [hnote]
  exact hretry

/-- A completed transfer. -/
lemma Retrying.kernelLoaded (hv : Retrying (v, b)) (k : Kvm) :
    Retrying (vmiMonitorKernelLoaded h v,
      TimerHistory.note v (.kernelLoaded k) (vmiMonitorKernelLoaded h v) b) := by
  rcases vmiMonitorKernelLoaded_cases h hv.enabled with
    ⟨-, heq⟩ | ⟨-, -, -, heq⟩ | ⟨-, -, -, heq⟩
  · rw [heq]
    exact hv.of_same rfl rfl rfl rfl rfl rfl rfl
  · rw [heq]
    exact hv.of_flag rfl (pollAttempts_bootSync h v) rfl rfl rfl (Or.inr rfl)
  · rw [heq]
    exact hv.of_same rfl (pollAttempts_bootSync h v) rfl rfl rfl rfl rfl

/-- A hit. -/
lemma Retrying.breakpointHit (hv : Retrying (v, b)) (cs : ℕ) (env : CPUX86State) (tv : Timeval)
    (pc : UInt64) (k : Kvm) :
    Retrying (vmiMonitorBreakpointHit h cs env tv pc v,
      TimerHistory.note v (.breakpointHit cs env tv pc k) (vmiMonitorBreakpointHit h cs env tv pc v)
        b) := by
  have htimer : (if v.vmiFirstHitSeen then v.vmiArmTimer else none) = none := by
    cases hhit : v.vmiFirstHitSeen with
    | false => rfl
    | true =>
      rw [if_pos rfl, hv.timer]
      simp [RetryDue, hhit]
  obtain ⟨err, s, f, -, -, hnone, hsome⟩ := vmiMonitorBreakpointHit_spec h cs env tv pc v
  by_cases herr : err = none
  · rw [hnone herr]
    exact hv.of_flag rfl rfl rfl htimer rfl (Or.inl rfl)
  · rw [hsome herr]
    exact hv.of_flag rfl rfl rfl htimer rfl (Or.inl rfl)

/-- Every event keeps the timer true to the history. -/
theorem retrying_step {s s' : Monitor × TimerHistory} {e : TimerEvent} (hs : Retrying s)
    (hstep : recording (TimerEvent.step h) TimerHistory.note s e = some s') : Retrying s' := by
  obtain ⟨v, b⟩ := s
  obtain ⟨v', hv', rfl⟩ := Option.map_eq_some_iff.mp hstep
  have hgiven (k : Kvm) : Retrying ({ v with kvm := k }, b) := ⟨hs.1, hs.2, hs.3, hs.4⟩
  cases e with
  | vmStateChange running state k =>
    obtain rfl := Option.some.inj hv'
    exact (hgiven k).vmStateChange running state k
  | timerExpiry k =>
    simp only [TimerEvent.step, Option.ite_none_right_eq_some, Option.some.injEq] at hv'
    obtain ⟨htimer, rfl⟩ := hv'
    exact (hgiven k).timerExpiry htimer k
  | kernelLoaded k =>
    obtain rfl := Option.some.inj hv'
    exact (hgiven k).kernelLoaded k
  | breakpointHit cs env tv pc k =>
    obtain rfl := Option.some.inj hv'
    exact (hgiven k).breakpointHit cs env tv pc k

/-! ### Runs -/

/-- The machine has been seen running if one of the events was a notification of it. -/
lemma seenRunning_run {s s' : Monitor × TimerHistory} {es : List TimerEvent}
    (hrun : run (recording (TimerEvent.step h) TimerHistory.note) s es = some s') :
    s'.2.seenRunning = true ↔ s.2.seenRunning = true ∨ ∃ e ∈ es, e.isRunning = true := by
  refine (run_iff_exists (I := fun _ => True) (P := fun s => s.2.seenRunning = true)
    (Q := fun e => e.isRunning = true) ?_ trivial hrun).2
  intro s e s' _ hstep
  obtain ⟨v', -, rfl⟩ := Option.map_eq_some_iff.mp hstep
  simp [TimerHistory.note]

/-- The relation between timer and history holds after every run. -/
theorem retrying_run {k : Kvm} {es : List TimerEvent} {s : Monitor × TimerHistory}
    (hrun : run (recording (TimerEvent.step h) TimerHistory.note) (.init k, ⟨false, 0⟩) es
      = some s) : Retrying s := by
  have hstart : Retrying (.init k, ⟨false, 0⟩) := ⟨rfl, rfl, Nat.zero_le _, rfl⟩
  exact run_invariant (fun _ _ _ hs hstep => retrying_step hs hstep) hstart hrun

/-! ### Confirmation -/

/-- The monitor takes the hooks to be live. -/
def Confirmed (v : Monitor) : Prop := v.vmiFirstHitSeen = true ∨ v.vmiBootSyncOk = true

lemma TriedArm.confirmed_iff {w v' : Monitor} {n : ℕ} (htried : TriedArm w n v') :
    Confirmed v' ↔ Confirmed w := by
  rw [Confirmed, Confirmed, htried.hit, htried.sync]

lemma confirmed_vmStateChange (hen : v.vmiEnabled = true) (running : Bool) (state : RunState) :
    Confirmed (vmiVmStateChange h running state v) ↔ Confirmed v := by
  cases running with
  | false =>
    rcases vmiVmStateChange_of_stopped (h := h) (v := v) with heq | heq
    · rw [heq]
    · rw [heq]
      exact Iff.rfl
  | true =>
    rw [vmiVmStateChange_of_running hen]
    cases v.vmiArmTimer with
    | some t => exact Iff.rfl
    | none =>
      exact (triedArm (h := h)
        (v := { v with vmiArmAttempts := 0, vmiArmTimer := some ⟨false⟩ }) rfl).confirmed_iff

lemma confirmed_kernelLoaded (hen : v.vmiEnabled = true) :
    Confirmed (vmiMonitorKernelLoaded h v) ↔ Confirmed v ∨ (vmiArmOnce h v.kvm).1 = true := by
  rcases vmiMonitorKernelLoaded_cases h hen with
    ⟨hflag, heq⟩ | ⟨-, -, harm, heq⟩ | ⟨-, -, harm, heq⟩
  · rw [heq]
    exact (or_iff_left_of_imp fun _ => hflag).symm
  · simp [heq, Confirmed, harm]
  · simp [heq, Confirmed, harm, callArm]

/-- An event confirms the hooks, or leaves the flags as they are. -/
theorem confirmed_step {e : TimerEvent} {v' : Monitor} (hen : v.vmiEnabled = true)
    (hstep : TimerEvent.step h v e = some v') :
    v'.vmiEnabled = true ∧ (Confirmed v' ↔ Confirmed v ∨ e.Confirms h) := by
  cases e with
  | vmStateChange running state k =>
    obtain rfl := Option.some.inj hstep
    have harm := vmiVmStateChange_arming h running state (v := { v with kvm := k }) hen
    have hconf := confirmed_vmStateChange (h := h) (v := { v with kvm := k }) hen running state
    exact ⟨harm.sameSteps.vmiEnabled.trans hen, hconf.trans (or_iff_left id).symm⟩
  | timerExpiry k =>
    simp only [TimerEvent.step, Option.ite_none_right_eq_some, Option.some.injEq] at hstep
    obtain ⟨-, rfl⟩ := hstep
    have htried := triedArm (h := h) (v := { v with kvm := k, vmiArmTimer := some ⟨false⟩ }) rfl
    exact ⟨htried.enabled.trans hen, htried.confirmed_iff.trans (or_iff_left id).symm⟩
  | kernelLoaded k =>
    obtain rfl := Option.some.inj hstep
    have harm := vmiMonitorKernelLoaded_arming h { v with kvm := k }
    exact ⟨harm.sameSteps.vmiEnabled.trans hen, confirmed_kernelLoaded hen⟩
  | breakpointHit cs env tv pc k =>
    obtain rfl := Option.some.inj hstep
    obtain ⟨hsame, hhit⟩ := vmiMonitorBreakpointHit_flags h cs env tv pc { v with kvm := k }
    exact ⟨hsame.trans hen, iff_of_true (Or.inl hhit) (Or.inr trivial)⟩

lemma Monitor.ArmingStep.armCalls_of_confirmed {v' : Monitor} (harm : ArmingStep h v v')
    (hconf : Confirmed v) : v'.armCalls = v.armCalls := by
  cases harm with
  | idle _ harm _ _ => exact harm
  | attempt _ hhit hsync _ _ _ => simp [Confirmed, hhit, hsync] at hconf

/-- With a flag set, no event makes an attempt. -/
lemma armCalls_of_confirmed {e : TimerEvent} {v' : Monitor} (hen : v.vmiEnabled = true)
    (hconf : Confirmed v) (hstep : TimerEvent.step h v e = some v') :
    v'.armCalls = v.armCalls := by
  cases e with
  | vmStateChange running state k =>
    obtain rfl := Option.some.inj hstep
    have harm := vmiVmStateChange_arming h running state (v := { v with kvm := k }) hen
    exact harm.armCalls_of_confirmed hconf
  | timerExpiry k =>
    simp only [TimerEvent.step, Option.ite_none_right_eq_some, Option.some.injEq] at hstep
    obtain ⟨-, rfl⟩ := hstep
    have harm := vmiTryArm_arming h { v with kvm := k, vmiArmTimer := some ⟨false⟩ }
    exact harm.armCalls_of_confirmed hconf
  | kernelLoaded k =>
    obtain rfl := Option.some.inj hstep
    have harm := vmiMonitorKernelLoaded_arming h { v with kvm := k }
    exact harm.armCalls_of_confirmed hconf
  | breakpointHit cs env tv pc k =>
    obtain rfl := Option.some.inj hstep
    obtain ⟨err, s, f, -, -, hnone, hsome⟩ :=
      vmiMonitorBreakpointHit_spec h cs env tv pc { v with kvm := k }
    by_cases herr : err = none
    · rw [hnone herr]
      rfl
    · rw [hsome herr]
      rfl

/-- A flag is set once an event has confirmed the hooks. -/
theorem confirmed_run {v' : Monitor} {es : List TimerEvent} (hen : v.vmiEnabled = true)
    (hrun : run (TimerEvent.step h) v es = some v') :
    v'.vmiEnabled = true ∧ (Confirmed v' ↔ Confirmed v ∨ ∃ e ∈ es, e.Confirms h) :=
  run_iff_exists (I := fun v => v.vmiEnabled = true)
    (fun _ _ _ hen hstep => confirmed_step hen hstep) hen hrun

/-- With a flag set, no run makes an attempt. -/
theorem armCalls_run {v' : Monitor} {es : List TimerEvent} (hen : v.vmiEnabled = true)
    (hconf : Confirmed v) (hrun : run (TimerEvent.step h) v es = some v') :
    v'.armCalls = v.armCalls := by
  have hinv := run_invariant
    (I := fun w => (w.vmiEnabled = true ∧ Confirmed w) ∧ w.armCalls = v.armCalls) ?_
    ⟨⟨hen, hconf⟩, rfl⟩ hrun
  · exact hinv.2
  · rintro w e w' ⟨⟨hen, hconf⟩, hcalls⟩ hstep
    obtain ⟨hen', hiff⟩ := confirmed_step hen hstep
    exact ⟨⟨hen', hiff.mpr (Or.inl hconf)⟩, (armCalls_of_confirmed hen hconf hstep).trans hcalls⟩

/-- Nothing convinces a new monitor. -/
lemma not_confirmed_init (k : Kvm) : ¬ Confirmed (.init k) := by
  simp [Confirmed, Monitor.init]

/-- An expiry of a timer that is due makes an attempt. -/
lemma Retrying.armCalls_timerExpiry (hv : Retrying (v, b)) {k : Kvm} {v' : Monitor}
    (hstep : TimerEvent.step h v (.timerExpiry k) = some v') :
    v'.armCalls = v.armCalls ++ [⟨.arm, v.vmiStateTable⟩] := by
  simp only [TimerEvent.step, Option.ite_none_right_eq_some, Option.some.injEq] at hstep
  obtain ⟨htimer, rfl⟩ := hstep
  obtain ⟨⟨-, hhit, hsync, -⟩, -⟩ := hv.due htimer
  have hattempt := vmiTryArm_of_attempt (h := h)
    (v := { v with kvm := k, vmiArmTimer := some ⟨false⟩ }) hhit hsync
  rw [hattempt, vmiTryArmEnd_eq]
  split_ifs <;> rfl

/-! ### The timer -/

/-- **Retry timer.** After every sequence of events the timer is there and scheduled if and only if
a retry is due, and otherwise it is not there; no start makes more than 100 attempts, and an expiry
makes one. A flag is set if and only if there has been a hit, or a transfer after which all hooks
could be armed, and from then on no event makes an attempt. -/
theorem retryTimer_scheduled_iff (h : Hooks) (k : Kvm) (es : List TimerEvent) (v : Monitor)
    (b : TimerHistory)
    (hrun : run (recording (TimerEvent.step h) TimerHistory.note) (.init k, ⟨false, 0⟩) es
      = some (v, b)) :
    (v.vmiArmTimer = some ⟨true⟩ ↔ b.seenRunning = true ∧ v.vmiFirstHitSeen = false ∧
      v.vmiBootSyncOk = false ∧ b.made < 100) ∧
    (v.vmiArmTimer = none ∨ v.vmiArmTimer = some ⟨true⟩) ∧ b.made ≤ 100 ∧
    (∀ k' v', TimerEvent.step h v (.timerExpiry k') = some v' →
      v'.armCalls = v.armCalls ++ [⟨.arm, v.vmiStateTable⟩]) ∧
    (v.vmiFirstHitSeen = true ∨ v.vmiBootSyncOk = true ↔ ∃ e ∈ es, e.Confirms h) ∧
    ∀ es₁ es₂ w, es = es₁ ++ es₂ → run (TimerEvent.step h) (.init k) es₁ = some w →
      (∃ e ∈ es₁, e.Confirms h) → v.armCalls = w.armCalls := by
  have hinv := retrying_run hrun
  have hplain := run_of_run_recording hrun
  have htimer : v.vmiArmTimer = if RetryDue v b then some ⟨true⟩ else none := hinv.timer
  refine ⟨?_, ?_, hinv.made_le, fun _ _ hstep => hinv.armCalls_timerExpiry hstep, ?_, ?_⟩
  · change _ ↔ RetryDue v b
    rw [htimer]
    split_ifs with hdue <;> simp [hdue]
  · rw [htimer]
    split_ifs
    · exact Or.inr rfl
    · exact Or.inl rfl
  · exact (confirmed_run rfl hplain).2.trans (or_iff_right (not_confirmed_init k))
  · rintro es₁ es₂ w rfl hrun₁ hconf
    obtain ⟨hen, hiff⟩ := confirmed_run (v := .init k) rfl hrun₁
    rw [run_append, hrun₁] at hplain
    exact armCalls_run hen (hiff.mpr (Or.inr hconf)) hplain

/-- QEMU in a state in which no attempt succeeds: the first access fails. -/
def unreadableKvm : Kvm := { nginxKvm with faults := [true] }

/-- A start whose first attempt fails is retried. Once a transfer has armed the hooks, the machine
may be stopped and started again without a further attempt. -/
theorem nginx_retryTimer_scheduled_iff :
    (∃ v b, run (recording (TimerEvent.step nginxHooks) TimerHistory.note)
        (.init nginxKvm, ⟨false, 0⟩) [.vmStateChange true .running unreadableKvm] = some (v, b) ∧
      v.vmiArmTimer = some ⟨true⟩) ∧
    ∃ v b w, run (recording (TimerEvent.step nginxHooks) TimerHistory.note)
        (.init nginxKvm, ⟨false, 0⟩) [.vmStateChange true .running unreadableKvm,
          .kernelLoaded nginxKvm, .vmStateChange false .other nginxKvm,
          .vmStateChange true .running nginxKvm] = some (v, b) ∧
      run (TimerEvent.step nginxHooks) (.init nginxKvm) [.vmStateChange true .running unreadableKvm,
          .kernelLoaded nginxKvm] = some w ∧
      v.armCalls = w.armCalls := by
  constructor
  · have hdue := retryTimer_scheduled_iff nginxHooks nginxKvm
      [.vmStateChange true .running unreadableKvm] _ _ rfl
    exact ⟨_, _, rfl, hdue.1.mpr (by decide)⟩
  · have hquiet := retryTimer_scheduled_iff nginxHooks nginxKvm
      [.vmStateChange true .running unreadableKvm, .kernelLoaded nginxKvm,
        .vmStateChange false .other nginxKvm, .vmStateChange true .running nginxKvm] _ _ rfl
    have hloaded := hquiet.2.2.2.2.2
      [.vmStateChange true .running unreadableKvm, .kernelLoaded nginxKvm] _ _ rfl rfl
      ⟨.kernelLoaded nginxKvm, by simp, rfl⟩
    exact ⟨_, _, _, rfl, rfl, hloaded⟩

/-- **Fallback.** However the monitor has got there, when the machine has been seen running and an
attempt of `vmi_monitor_kernel_loaded` fails, a retry is scheduled if and only if the polling path
has not used up its attempts. -/
theorem kernelLoaded_retry_iff (h : Hooks) (k : Kvm) (es : List TimerEvent) (v : Monitor)
    (hrun : run (TimerEvent.step h) (.init k) es = some v) (hrunning : ∃ e ∈ es, e.isRunning = true)
    (k' : Kvm) (hhit : v.vmiFirstHitSeen = false) (hsync : v.vmiBootSyncOk = false)
    (hfail : (vmiArmOnce h k').1 = false) :
    (vmiMonitorKernelLoaded h { v with kvm := k' }).vmiArmTimer = some ⟨true⟩ ↔
      v.vmiArmAttempts < vmiArmMaxAttempts := by
  obtain ⟨b, hrecorded⟩ := exists_run_recording TimerHistory.note ⟨false, 0⟩ hrun
  have hinv := retrying_run hrecorded
  have hseen : b.seenRunning = true := (seenRunning_run hrecorded).mpr (Or.inr hrunning)
  have hattempts : v.vmiArmAttempts = b.made := hinv.attempts
  have htimer : v.vmiArmTimer = if RetryDue v b then some ⟨true⟩ else none := hinv.timer
  have hkept : (vmiMonitorKernelLoaded h { v with kvm := k' }).vmiArmTimer = v.vmiArmTimer := by
    rcases vmiMonitorKernelLoaded_cases h (v := { v with kvm := k' }) hinv.enabled with
      ⟨-, heq⟩ | ⟨-, -, harm, -⟩ | ⟨-, -, -, heq⟩
    · rw [heq]
    · rw [hfail] at harm
      cases harm
    · rw [heq]
      rfl
  rw [hkept, htimer, hattempts]
  simp [RetryDue, hseen, hhit, hsync]

/-- A transfer whose attempt fails, after a first attempt that has failed too. -/
theorem nginx_kernelLoaded_retry_iff :
    ∃ v, run (TimerEvent.step nginxHooks) (.init nginxKvm)
        [.vmStateChange true .running unreadableKvm] = some v ∧
      (vmiMonitorKernelLoaded nginxHooks { v with kvm := unreadableKvm }).vmiArmTimer
        = some ⟨true⟩ :=
  ⟨_, rfl, (kernelLoaded_retry_iff nginxHooks nginxKvm
    [.vmStateChange true .running unreadableKvm] _ rfl ⟨_, List.mem_singleton_self _, rfl⟩
    unreadableKvm rfl rfl rfl).mpr (by decide)⟩

/-- After a hundred failed attempts the timer is gone, and a transfer whose attempt fails does not
bring it back. -/
theorem kernelLoaded_no_retry :
    ¬ ∀ v, run (TimerEvent.step nginxHooks) (.init nginxKvm)
        (.vmStateChange true .running unreadableKvm ::
          List.replicate 99 (.timerExpiry unreadableKvm)) = some v →
      (vmiMonitorKernelLoaded nginxHooks { v with kvm := unreadableKvm }).vmiArmTimer
        = some ⟨true⟩ := by
  intro hall
  have hnone : (run (TimerEvent.step nginxHooks) (.init nginxKvm)
      (.vmStateChange true .running unreadableKvm ::
        List.replicate 99 (.timerExpiry unreadableKvm))).map (fun v =>
      (vmiMonitorKernelLoaded nginxHooks { v with kvm := unreadableKvm }).vmiArmTimer)
      = some none := by
    decide +kernel
  obtain ⟨v, hrun, htimer⟩ := Option.map_eq_some_iff.mp hnone
  rw [hall v hrun] at htimer
  cases htimer

end SyscallMonitor
