import SyscallMonitor.Capture.Conservation
import SyscallMonitor.Smp.Order
import SyscallMonitor.Validate

/-!
# From the guest to the verdict

The parts put together: the executions of the entry hook in a run of the machine, the calls that the
monitor makes for them, the lines that the capture writes, and what `validate_strace.py` reads back.
-/

namespace SyscallMonitor

open Lib Json Monitor

/-! ### The calls and the capture -/

/-- Between `v` and `v'` the calls `l` are made, and the capture takes them in order. -/
structure Calls (h : Hooks) (v v' : Monitor) (l : List HookEvent) : Prop where
  hookCalls : v'.hookCalls = v.hookCalls ++ l
  capture : v'.capture = v.capture.handleAll h l

namespace Calls

variable {h : Hooks} {v v' v'' : Monitor} {l l' : List HookEvent}

/-- Handlers that leave both fields alone. -/
lemma quiet (hcalls : v'.hookCalls = v.hookCalls) (hcapture : v'.capture = v.capture) :
    Calls h v v' [] := ⟨by rw [hcalls, List.append_nil], hcapture⟩

lemma trans (hv : Calls h v v' l) (hv' : Calls h v' v'' l') : Calls h v v'' (l ++ l') :=
  ⟨by rw [hv'.hookCalls, hv.hookCalls, List.append_assoc],
    by rw [hv'.capture, hv.capture, Capture.handleAll_append]⟩

lemma timerFree (v : Monitor) : Calls h v v.timerFree [] := quiet rfl rfl

lemma timerMod (v : Monitor) : Calls h v v.timerMod [] := by
  rw [Monitor.timerMod]
  split <;> exact quiet rfl rfl

lemma callHook (v : Monitor) (e : HookEvent) : Calls h v (v.callHook h e) [e] := ⟨rfl, rfl⟩

lemma vmiTryArm (v : Monitor) : Calls h v (vmiTryArm h v) [] := by
  by_cases hflag : v.vmiFirstHitSeen = true ∨ v.vmiBootSyncOk = true
  · rw [vmiTryArm_of_standDown hflag]
    exact timerFree v
  · have hhit : v.vmiFirstHitSeen = false := by simpa using fun hh => hflag (Or.inl hh)
    have hsync : v.vmiBootSyncOk = false := by simpa using fun hs => hflag (Or.inr hs)
    rw [vmiTryArm_of_attempt hhit hsync, vmiTryArmEnd_eq]
    have hattempt : Calls h v
        { v with
          vmiArmAttempts := v.vmiArmAttempts + 1
          kvm := (vmiArmOnce h v.kvm).2
          armCalls := v.armCalls ++ [⟨.arm, v.vmiStateTable⟩] } [] := quiet rfl rfl
    split_ifs
    · exact hattempt.trans (timerFree _)
    · exact hattempt.trans (timerMod _)

lemma fwCfgDmaTransferEnd (d : FwCfgDma) (v : Monitor) :
    Calls h v (fwCfgDmaTransferEnd h d v) [] := by
  rw [SyscallMonitor.fwCfgDmaTransferEnd, vmiMonitorKernelLoaded]
  split_ifs
  · exact quiet rfl rfl
  · cases harm : vmiArmOnce h v.kvm with
    | mk armed k =>
      simp only [callArm, harm]
      cases armed <;> exact quiet rfl rfl
  · exact quiet rfl rfl

/-- Only the end of the machine is a call. -/
lemma vmiVmStateChange (running : Bool) (state : RunState) (v : Monitor) :
    ∃ l, Calls h v (vmiVmStateChange h running state v) l ∧ ∀ e ∈ l, e = .flush := by
  cases running with
  | false =>
    have hstop := @vmiVmStateChange_of_stopped h state v
    rcases hstop with heq | heq
    · exact ⟨[], by rw [heq]; exact quiet rfl rfl, by simp⟩
    · exact ⟨[.flush], by rw [heq]; exact callHook v .flush, by simp⟩
  | true =>
    refine ⟨[], ?_, by simp⟩
    by_cases hen : v.vmiEnabled = true
    · rw [vmiVmStateChange_of_running hen]
      cases v.vmiArmTimer with
      | some t => exact quiet rfl rfl
      | none =>
        have hreset : Calls h v { v with vmiArmAttempts := 0, vmiArmTimer := some ⟨false⟩ } [] :=
          quiet rfl rfl
        exact hreset.trans (vmiTryArm _)
    · have heq : SyscallMonitor.vmiVmStateChange h true state v = v := by
        simp [SyscallMonitor.vmiVmStateChange, hen]
      rw [heq]
      exact quiet rfl rfl

lemma shutdown {v : Monitor} (hen : v.vmiEnabled = true) :
    Calls h v (SyscallMonitor.vmiVmStateChange h false .shutdown v) [.flush] := by
  have hflush : SyscallMonitor.vmiVmStateChange h false .shutdown v = v.callHook h .flush := by
    simp [SyscallMonitor.vmiVmStateChange, hen]
  rw [hflush]
  exact callHook v .flush

lemma vmiMonitorBreakpointHit (cs : ℕ) (env : CPUX86State) (tv : Timeval) (pc : UInt64)
    (v : Monitor) : Calls h v (vmiMonitorBreakpointHit h cs env tv pc v)
      [hookEvent h cs env tv pc] := by
  obtain ⟨err, s, f, -, -, hnone, hsome⟩ := vmiMonitorBreakpointHit_spec h cs env tv pc v
  by_cases herr : err = none
  · rw [hnone herr]
    exact ⟨rfl, rfl⟩
  · rw [hsome herr]
    exact ⟨rfl, rfl⟩

/-- A debug exit is one call if it is a hit, and none otherwise. -/
lemma kvmHandleDebug (cs : ℕ) (env : CPUX86State) (tv : Timeval) (info : KvmDebugExitArch)
    (v : Monitor) : ∃ l, Calls h v (kvmHandleDebug h cs env tv info v).2 l ∧
      ∀ e ∈ l, e = hookEvent h cs env tv info.pc := by
  rcases kvmHandleDebug_cases h cs env tv info v with
    ⟨-, -, heq⟩ | ⟨-, -, -, -, heq⟩ | ⟨r, -, heq⟩
  · obtain ⟨err, s, f, -, -, hv⟩ := vmiMonitorStepComplete_spec cs v
    rw [heq, hv]
    exact ⟨[], quiet rfl rfl, by simp⟩
  · rw [heq]
    exact ⟨_, vmiMonitorBreakpointHit cs env tv info.pc v, by simp⟩
  · rw [heq]
    exact ⟨[], quiet rfl rfl, by simp⟩

end Calls

/-! ### The calls in a run -/

/-- The call that is recorded. -/
def Obs.hookCall : Obs → Option HookEvent
  | .call e => some e
  | .exec .. => none

/-- Where the handler of a debug exit asks for the time, it gets a time of the calendar. -/
def SmpEvent.Timed : SmpEvent → Prop
  | .debugExit _ tv _ => tv.Valid
  | _ => True

/-- The time of a call. -/
def HookEvent.Timed : HookEvent → Prop
  | .entry _ _ tv => tv.Valid
  | .ret _ _ tv => tv.Valid
  | .flush => True

namespace Smp

variable {h : Hooks} {s s' : Smp} {e : SmpEvent}

lemma filterMap_hookCall_calls (l : List HookEvent) :
    (l.map Obs.call).filterMap Obs.hookCall = l := by
  induction l with
  | nil => rfl
  | cons e l ih => rw [List.map_cons, List.filterMap_cons, Obs.hookCall, ih]

lemma filterMap_hookCall_recordExec (h : Hooks) (s : Smp) (cs : ℕ) :
    (s.recordExec h cs).trace.filterMap Obs.hookCall = s.trace.filterMap Obs.hookCall := by
  rw [recordExec]
  split_ifs
  · rw [List.filterMap_append]
    exact List.append_nil _
  · rfl

/-- What a step calls: it is recorded, and the capture has taken it. -/
structure CallsAt (h : Hooks) (e : SmpEvent) (s s' : Smp) (l : List HookEvent) : Prop where
  calls : Calls h s.vmi s'.vmi l
  trace : s'.trace.filterMap Obs.hookCall = s.trace.filterMap Obs.hookCall ++ l
  timed : e.Timed → ∀ call ∈ l, call.Timed

/-- A step in which only the memory and the vCPUs change. -/
lemma CallsAt.quiet (hcalls : s'.vmi.hookCalls = s.vmi.hookCalls)
    (hcapture : s'.vmi.capture = s.vmi.capture)
    (htrace : s'.trace.filterMap Obs.hookCall = s.trace.filterMap Obs.hookCall) :
    CallsAt h e s s' [] :=
  ⟨.quiet hcalls hcapture, by rw [htrace, List.append_nil], by simp⟩

/-- A step that runs a handler. -/
lemma CallsAt.setVmi {v v' : Monitor} {l : List HookEvent} (hv : Calls h v v' l)
    (hcalls : v.hookCalls = s.vmi.hookCalls) (hcapture : v.capture = s.vmi.capture)
    (htimed : e.Timed → ∀ call ∈ l, call.Timed) : CallsAt h e s (s.setVmi v') l := by
  have hcalls' : v'.hookCalls = s.vmi.hookCalls ++ l := by rw [hv.hookCalls, hcalls]
  refine ⟨⟨hcalls', hv.capture.trans (by rw [hcapture])⟩, ?_, htimed⟩
  rw [Smp.setVmi, hcalls', List.drop_left, List.filterMap_append, filterMap_hookCall_calls]

lemma timed_hookEvent {tv : Timeval} (htv : tv.Valid) (h : Hooks) (cs : ℕ) (env : CPUX86State)
    (pc : UInt64) : (hookEvent h cs env tv pc).Timed := by
  rw [hookEvent]
  split_ifs <;> exact htv

theorem callsAt_step (hstep : s.step h e = some s') : ∃ l, CallsAt h e s s' l := by
  cases e with
  | retire cs env mem resume =>
    obtain ⟨-, rfl⟩ := step_retire hstep
    refine ⟨[], .quiet ?_ ?_ ?_⟩
    · simp [setCpu, setMem]
    · simp [setCpu, setMem]
    · exact filterMap_hookCall_recordExec h s cs
  | interrupt cs env =>
    obtain ⟨-, rfl⟩ := step_interrupt hstep
    exact ⟨[], .quiet rfl rfl rfl⟩
  | fetchInt3 cs =>
    obtain ⟨-, rfl⟩ := step_fetchInt3 hstep
    exact ⟨[], .quiet rfl rfl rfl⟩
  | debugExit cs tv faults =>
    obtain ⟨info, outcome, v, -, hhandle, rfl⟩ := step_debugExit hstep
    obtain ⟨l, hcalls, hl⟩ := Calls.kvmHandleDebug (h := h) cs (s.cpus cs).env tv info
      (s.setFaults faults).vmi
    rw [hhandle] at hcalls
    have hat : CallsAt h (.debugExit cs tv faults) s (s.setVmi v) l := by
      refine .setVmi hcalls rfl rfl fun htv call hcall => ?_
      rw [hl call hcall]
      exact timed_hookEvent htv h cs _ _
    exact ⟨l, hat.calls, hat.trace, hat.timed⟩
  | timerExpiry faults =>
    obtain ⟨-, rfl⟩ := step_timerExpiry hstep
    exact ⟨[], .setVmi (Calls.vmiTryArm _) rfl rfl (by simp)⟩
  | vmStateChange running state faults =>
    obtain rfl := Option.some.inj hstep
    obtain ⟨l, hcalls, hl⟩ := Calls.vmiVmStateChange (h := h) running state (s.setFaults faults).vmi
    refine ⟨l, .setVmi hcalls rfl rfl fun _ call hcall => ?_⟩
    rw [hl call hcall, HookEvent.Timed]
    trivial
  | fwCfgDma d mem faults =>
    obtain rfl := Option.some.inj hstep
    exact ⟨[], .setVmi (Calls.fwCfgDmaTransferEnd d _) rfl rfl (by simp)⟩
  | overwrite mem =>
    obtain rfl := Option.some.inj hstep
    exact ⟨[], .quiet rfl rfl rfl⟩

/-- The capture has taken the calls that are recorded, from an empty table and an empty log. -/
structure Recorded (h : Hooks) (s : Smp) : Prop where
  capture : s.vmi.capture = (Capture.init []).handleAll h (s.trace.filterMap Obs.hookCall)
  timed : ∀ call ∈ s.trace.filterMap Obs.hookCall, call.Timed

lemma Recorded.step (s : Smp) (e : SmpEvent) (s' : Smp) (hs : Recorded h s) (he : e.Timed)
    (hstep : s.step h e = some s') : Recorded h s' := by
  obtain ⟨l, hcalls, htrace, htimed⟩ := callsAt_step hstep
  refine ⟨?_, ?_⟩
  · rw [htrace, Capture.handleAll_append, ← hs.capture]
    exact hcalls.capture
  · rw [htrace]
    intro call hcall
    rcases List.mem_append.mp hcall with hcall | hcall
    · exact hs.timed call hcall
    · exact htimed he call hcall

lemma recorded_boot (h : Hooks) (k : Kvm) (env : ℕ → CPUX86State) : Recorded h (boot h k env) :=
  ⟨rfl, by simp [boot]⟩

/-- Whatever happens, the capture takes the calls in order, and all of them. -/
theorem recorded_run {k : Kvm} {env : ℕ → CPUX86State} {es : List SmpEvent}
    (htimed : ∀ e ∈ es, e.Timed) (hrun : run (step h) (boot h k env) es = some s) : Recorded h s :=
  (along_of_forall htimed _).run_invariant Recorded.step (recorded_boot h k env) hrun

end Smp

/-! ### The lines -/

/-- The name of the syscall that is made with these registers. -/
def callName (x : ℤ × CPUX86State) : List Char := syscallName (x.2.regs rEax)

/-- The line that entry-only logging writes for a call. -/
def HookEvent.entryLine : HookEvent → Option Written
  | .entry cpuIndex env tv =>
    some ⟨env.key, ⟨cpuIndex, env.regs rEax, vmiReadArgs env, tv, .none⟩⟩
  | .ret .. => none
  | .flush => none

/-- A call of `vmi_handle_entry`: the vCPU and its registers. -/
def HookEvent.entered : HookEvent → Option (ℤ × CPUX86State)
  | .entry cpuIndex env _ => some (cpuIndex, env)
  | .ret .. => none
  | .flush => none

/-- What is written without a return hook: a line for each entry, in order; nothing is held. -/
lemma handleAll_of_ret_eq_zero {h : Hooks} (hret : h.vmiRetAddr = 0) (es : List HookEvent) :
    ((Capture.init []).handleAll h es).log = es.filterMap HookEvent.entryLine ∧
      ∀ i, (((Capture.init []).handleAll h es).vmiPending i).used = false := by
  induction es using List.reverseRecOn with
  | nil => exact ⟨rfl, fun _ => rfl⟩
  | append_singleton es e ih =>
    obtain ⟨hlog, hfree⟩ := ih
    rw [Capture.handleAll_concat, List.filterMap_append, ← hlog]
    cases e with
    | entry cpuIndex env tv =>
      rw [Capture.handle, vmiHandleEntry, if_pos hret]
      exact ⟨rfl, hfree⟩
    | ret cpuIndex env tv =>
      rcases vmiHandleReturn_cases env tv ((Capture.init []).handleAll h es) with
        ⟨i, hi, -⟩ | ⟨-, heq⟩
      · have hused := hi.1
        rw [hfree i] at hused
        cases hused
      · rw [Capture.handle, heq]
        exact ⟨(List.append_nil _).symm, hfree⟩
    | flush =>
      rw [Capture.handle, vmiFlushPending_of_none (oldestUsed_eq_none_iff.mpr hfree)]
      exact ⟨(List.append_nil _).symm, hfree⟩

lemma sum_ids (es : List HookEvent) : (es.map HookEvent.ids).sum
    = ↑((es.filterMap HookEvent.entryLine).map fun w => w.line.id) := by
  induction es with
  | nil => rfl
  | cons e es ih =>
    rw [List.map_cons, List.sum_cons, ih]
    rw [List.filterMap_cons]
    cases e with
    | entry cpuIndex env tv => rfl
    | ret _ _ _ => exact zero_add _
    | flush => exact zero_add _

/-- With a return hook the final flush completes the log: it has a line for each entry. -/
lemma perm_handleAll_flush {h : Hooks} (hret : h.vmiRetAddr ≠ 0) (es : List HookEvent) :
    (((Capture.init []).handleAll h (es ++ [.flush])).log.map fun w => w.line.id).Perm
      ((es.filterMap HookEvent.entryLine).map fun w => w.line.id) := by
  rw [← Multiset.coe_eq_coe, ← sum_ids]
  exact loggedIds_handleAll_flush hret es

lemma map_entryLine (es : List HookEvent) :
    (es.filterMap HookEvent.entryLine).map (fun w => syscallName w.line.num)
      = (es.filterMap HookEvent.entered).map callName := by
  induction es with
  | nil => rfl
  | cons e es ih =>
    rw [List.filterMap_cons, List.filterMap_cons]
    cases e with
    | entry cpuIndex env tv => exact congrArg _ ih
    | ret _ _ _ => exact ih
    | flush => exact ih

lemma valid_of_mem_entryLine {es : List HookEvent} (hes : ∀ e ∈ es, e.Timed) {w : Written}
    (hw : w ∈ es.filterMap HookEvent.entryLine) : w.line.tv.Valid := by
  obtain ⟨e, he, heq⟩ := List.mem_filterMap.mp hw
  have htimed := hes e he
  cases e with
  | entry cpuIndex env tv =>
    obtain rfl := Option.some.inj heq
    exact htimed
  | ret _ _ _ => cases heq
  | flush => cases heq

/-- The text of the log file. -/
def Smp.logFile (h : Hooks) (strerrornameNp : ℤ → Option (List Char)) (s : Smp) : List Char :=
  logText h strerrornameNp (s.vmi.capture.log.map Written.line)

namespace Smp

variable {h : Hooks} {s : Smp}

lemma entered_eq (s : Smp) :
    s.entered = (s.trace.filterMap Obs.hookCall).filterMap HookEvent.entered := by
  rw [entered, List.filterMap_filterMap]
  congr 1
  funext o
  rcases o with (_ | _ | _) | _ <;> rfl

/-- **Entry-only log.** It is read back as the names of the calls, in order. -/
theorem Recorded.parseVmiJsonl (hs : Recorded h s) (hret : h.vmiRetAddr = 0)
    {strerrornameNp : ℤ → Option (List Char)} (hnames : PlainNames strerrornameNp) :
    parseVmiJsonl (s.logFile h strerrornameNp) = .ok ((s.entered.map callName).map .str) := by
  have hlog := (handleAll_of_ret_eq_zero hret (s.trace.filterMap Obs.hookCall)).1
  rw [← hs.capture] at hlog
  rw [logFile, parseVmiJsonl_logText h hnames]
  · rw [hlog, entered_eq, ← map_entryLine]
    simp only [List.map_map, Function.comp_def]
  · intro l hl
    obtain ⟨w, hw, rfl⟩ := List.mem_map.mp hl
    rw [hlog] at hw
    exact valid_of_mem_entryLine hs.timed hw

/-- **Log with return capture.** After the final flush it is read back as the names of the calls, in
the order in which they came to an end. -/
theorem Recorded.parseVmiJsonl_flush (hs : Recorded h s) (hret : h.vmiRetAddr ≠ 0)
    {calls : List HookEvent} (hcalls : s.trace.filterMap Obs.hookCall = calls ++ [.flush])
    {strerrornameNp : ℤ → Option (List Char)} (hnames : PlainNames strerrornameNp) :
    ∃ names : List (List Char),
      SyscallMonitor.parseVmiJsonl (s.logFile h strerrornameNp) = .ok (names.map .str) ∧
      names.Perm (s.entered.map callName) := by
  have hperm := perm_handleAll_flush hret calls
  rw [← hcalls, ← hs.capture] at hperm
  have hentered : s.entered = calls.filterMap HookEvent.entered := by
    rw [entered_eq, hcalls, List.filterMap_append]
    exact List.append_nil _
  refine ⟨s.vmi.capture.log.map fun w => syscallName w.line.num, ?_, ?_⟩
  · rw [logFile, parseVmiJsonl_logText h hnames]
    · simp only [List.map_map, Function.comp_def]
    · intro l hl
      obtain ⟨w, hw, rfl⟩ := List.mem_map.mp hl
      obtain ⟨w', hw', hid⟩ := List.mem_map.mp (hperm.subset (List.mem_map_of_mem hw))
      have htv : w.line.tv = w'.line.tv := congrArg SyscallId.tv hid.symm
      rw [htv]
      refine valid_of_mem_entryLine (fun e he => hs.timed e ?_) hw'
      rw [hcalls]
      exact List.mem_append_left _ he
  · rw [hentered, ← map_entryLine]
    have hmap := hperm.map fun id => syscallName id.num
    simpa only [List.map_map, Function.comp_def, LogLine.id] using hmap

end Smp

/-- Legible lines yield their names. -/
lemma parseStraceLog_of_legible {u : UnicodeData} {log : ConsoleLog}
    (hlegible : ∀ x ∈ log.all, ∀ line, x.line = .strace line → Legible u line.name x.noisy) :
    parseStraceLog u log.noisy = log.names := by
  rw [ConsoleLog.noisy, parseStraceLog_lines u fun l => l.inserted.unbroken l.line.unbroken_text,
    ConsoleLog.names, ← ConsoleLog.all]
  apply List.filterMap_congr
  intro x hx
  exact (parseStraceLine_eq_name?_iff u x.inserted).mpr (hlegible x hx)

/-! ### The whole way -/

/-- QEMU before the monitor is enabled: no breakpoints, no single-stepping, and all memory accesses
go through. -/
structure Kvm.Fresh (k : Kvm) : Prop where
  faults : k.faults = []
  swBreakpoints : ∀ a, k.swBreakpoints a = none
  singlestepEnabled : ∀ cs, k.singlestepEnabled cs = 0

lemma Kvm.Fresh.armedStart {k : Kvm} (hk : k.Fresh) (h : Hooks) (env : ℕ → CPUX86State) :
    (Smp.boot h k env).ArmedStart h :=
  Smp.armedStart_boot h env hk.faults hk.swBreakpoints hk.singlestepEnabled

section

variable (h : Hooks) (k : Kvm) (hk : k.Fresh) (env : ℕ → CPUX86State) (es : List SmpEvent) (s : Smp)
  (htimed : ∀ e ∈ es, e.Timed) (strerrornameNp : ℤ → Option (List Char))
  (hnames : PlainNames strerrornameNp)

include hk htimed hnames

/-- **Entry-only logging.** At any time in a run in which every execution of the entry hook is
observed, the log is read back as the names of the syscalls executed, in order, with at most one
that is about to be. -/
theorem smp_log_entryOnly (hret : h.vmiRetAddr = 0)
    (hund : Along (Smp.step h) Smp.Undisturbed (.boot h k env) es)
    (hown : Along (Smp.step h) (Smp.OwnStep h) (.boot h k env) es)
    (hrun : run (Smp.step h) (.boot h k env) es = some s) :
    ∃ l, s.UnderWay h l ∧ parseVmiJsonl (s.logFile h strerrornameNp)
      = .ok (((s.executed ++ l).map callName).map .str) := by
  obtain ⟨hs, htracked⟩ := Smp.inOrder_run (hk.armedStart h env) hund hown hrun
  obtain ⟨l, hl, hentered⟩ := hs.exists_underWay htracked.consistent
  refine ⟨l, hl, ?_⟩
  rw [(Smp.recorded_run htimed hrun).parseVmiJsonl hret hnames, hentered]

/-- **Cross-check.** The guest prints a line for each syscall executed, after those of the boot and
before others; the lines are legible for all the noise on the console, and no vCPU is just about to
execute the hook. Then the cross-check of the two logs reports all events of the capture to be part
of one contiguous match, and no name to be seen only in the capture; the diff is empty exactly when
the guest has made no syscalls but those of the run. -/
theorem smp_console_verdict (hret : h.vmiRetAddr = 0)
    (hund : Along (Smp.step h) Smp.Undisturbed (.boot h k env) es)
    (hown : Along (Smp.step h) (Smp.OwnStep h) (.boot h k env) es)
    (hrun : run (Smp.step h) (.boot h k env) es = some s) (hrest : ∀ cs, ¬ s.Ahead h cs)
    (hne : s.executed ≠ []) (u : UnicodeData) (log : ConsoleLog) (boot later : List (List Char))
    (hlegible : ∀ x ∈ log.all, ∀ line, x.line = .strace line → Legible u line.name x.noisy)
    (hlog : log.names = boot ++ s.executed.map callName ++ later) :
    ∃ vmiSeq, parseVmiJsonl (s.logFile h strerrornameNp) = .ok (vmiSeq.map .str) ∧
      (∃ run ∈ (compare (parseStraceLog u log.noisy) vmiSeq).longest, run.coverage = 1) ∧
      (compare (parseStraceLog u log.noisy) vmiSeq).onlyInVmi = ∅ ∧
      ((compare (parseStraceLog u log.noisy) vmiSeq).diffLines = [] ↔ boot = [] ∧ later = []) := by
  obtain ⟨hs, htracked⟩ := Smp.inOrder_run (hk.armedStart h env) hund hown hrun
  have hpart : s.executed.map callName <:+: log.names := ⟨boot, later, hlog.symm⟩
  have hnames' : s.executed.map callName ≠ [] := by simpa using hne
  refine ⟨s.executed.map callName, ?_, ?_⟩
  · rw [(Smp.recorded_run htimed hrun).parseVmiJsonl hret hnames, hs.even hrest]
  · rw [parseStraceLog_of_legible hlegible]
    refine ⟨coverage_eq_one_iff.mpr ⟨hnames', hpart⟩, onlyInVmi_eq_empty hpart, ?_⟩
    rw [compare_diffLines, unifiedDiff_eq_nil_iff, hlog]
    constructor
    · intro heq
      have hlen := congrArg List.length heq
      simp only [List.length_append] at hlen
      exact ⟨List.eq_nil_of_length_eq_zero (by omega), List.eq_nil_of_length_eq_zero (by omega)⟩
    · rintro ⟨rfl, rfl⟩
      simp

/-- **Return capture.** When the machine has shut down, the log is read back as the names of the
syscalls executed, each as often as it was executed, with at most one that was about to be. -/
theorem smp_log_shutdown (hret : h.vmiRetAddr ≠ 0)
    (hund : Along (Smp.step h) Smp.Undisturbed (.boot h k env) es)
    (hown : Along (Smp.step h) (Smp.OwnStep h) (.boot h k env) es)
    (hrun : run (Smp.step h) (.boot h k env) (es ++ [.vmStateChange false .shutdown []]) = some s) :
    ∃ (l : _) (names : List (List Char)), s.UnderWay h l ∧
      parseVmiJsonl (s.logFile h strerrornameNp) = .ok (names.map .str) ∧
      names.Perm ((s.executed ++ l).map callName) := by
  rw [run_concat] at hrun
  obtain ⟨t, ht, hlast⟩ := Option.bind_eq_some_iff.mp hrun
  obtain ⟨hinOrder, htracked⟩ := Smp.inOrder_run (hk.armedStart h env) hund hown ht
  have hund' : t.Undisturbed (.vmStateChange false .shutdown []) := ⟨rfl, nofun⟩
  obtain ⟨l, hl, hentered⟩ := (Smp.inOrder_step hinOrder htracked hund' trivial
    hlast).exists_underWay (Smp.Tracked.step _ _ _ htracked hund' hlast).consistent
  have hs := (Smp.recorded_run htimed ht).step _ (.vmStateChange false .shutdown []) _ trivial hlast
  obtain rfl := Option.some.inj hlast
  have hat : Smp.CallsAt h (.vmStateChange false .shutdown []) t _ [.flush] :=
    .setVmi (v := (t.setFaults []).vmi) (Calls.shutdown htracked.consistent.stepOver.enabled) rfl
      rfl (by simp [HookEvent.Timed])
  obtain ⟨names, hparse, hperm⟩ := hs.parseVmiJsonl_flush hret hat.trace hnames
  exact ⟨l, names, hl, hparse, hentered ▸ hperm⟩

end

/-! ### A syscall of the documented nginx build -/

lemma fresh_nginxKvm : nginxKvm.Fresh := ⟨rfl, fun _ => rfl, fun _ => rfl⟩

/-- The first vCPU makes a syscall. -/
def nginxCall : List SmpEvent :=
  [.fetchInt3 0, .debugExit 0 ⟨10, 0⟩ [], .retire 0 ⟨fun _ => 0, 0x101001⟩ nginxMem false,
    .debugExit 0 ⟨10, 58⟩ []]

lemma Timeval.valid_iff {tv : Timeval} :
    tv.Valid ↔ 0 ≤ tv.tvSec ∧ 0 ≤ tv.tvUsec ∧ tv.tvUsec < 10 ^ 6 :=
  ⟨fun htv => ⟨htv.1, htv.2, htv.3⟩, fun htv => ⟨htv.1, htv.2.1, htv.2.2⟩⟩

lemma timed_nginxCall : ∀ e ∈ nginxCall, e.Timed := by
  simp [nginxCall, SmpEvent.Timed, Timeval.valid_iff]

lemma undisturbed_nginxCall (h : Hooks) (s : Smp) :
    Along (Smp.step h) Smp.Undisturbed s nginxCall :=
  Smp.along_undisturbed (by simp [nginxCall, SmpEvent.faults])

lemma cpu_nginxCall : ∀ e ∈ nginxCall, ∀ cs ∈ e.cpu, cs = 0 := by
  simp [nginxCall, SmpEvent.cpu]

/-- The documented nginx build with the entry hook only. -/
def nginxEntrySmp : Smp := .boot nginxHooks.entryOnly nginxKvm fun _ => ⟨fun _ => 0, 0x101000⟩

lemma clean_nginxCall :
    Along (Smp.step nginxHooks) (Smp.Clean nginxHooks) nginxSmp nginxCall := by
  refine ⟨⟨rfl, nofun⟩, fun s hs => ⟨⟨rfl, nofun⟩, fun s' hs' => ⟨⟨rfl, ?_⟩, fun _ _ =>
    ⟨⟨rfl, nofun⟩, fun _ _ => trivial⟩⟩⟩⟩
  obtain rfl := Option.some.inj hs
  obtain rfl := Option.some.inj hs'
  rintro mem hmem a (rfl | ⟨-, rfl⟩)
  · obtain rfl := Option.some.inj hmem
    rfl
  · obtain rfl := Option.some.inj hmem
    rfl

lemma clean_nginxCall_entryOnly : Along (Smp.step nginxHooks.entryOnly)
    (Smp.Clean nginxHooks.entryOnly) nginxEntrySmp nginxCall := by
  refine ⟨⟨rfl, nofun⟩, fun s hs => ⟨⟨rfl, nofun⟩, fun s' hs' => ⟨⟨rfl, ?_⟩, fun _ _ =>
    ⟨⟨rfl, nofun⟩, fun _ _ => trivial⟩⟩⟩⟩
  obtain rfl := Option.some.inj hs
  obtain rfl := Option.some.inj hs'
  rintro mem hmem a (rfl | ⟨hret, -⟩)
  · obtain rfl := Option.some.inj hmem
    rfl
  · exact absurd rfl hret

/-- `smp_log_entryOnly` on a syscall. -/
theorem nginx_smp_log_entryOnly :
    ∃ s, run (Smp.step nginxHooks.entryOnly) nginxEntrySmp nginxCall = some s ∧
      ∃ l, s.UnderWay nginxHooks.entryOnly l ∧
        parseVmiJsonl (s.logFile nginxHooks.entryOnly fun _ => none)
          = .ok (((s.executed ++ l).map callName).map .str) := by
  have hown := Smp.along_ownStep (fresh_nginxKvm.armedStart nginxHooks.entryOnly _)
    clean_nginxCall_entryOnly
    (Smp.along_noOtherStep (fresh_nginxKvm.armedStart nginxHooks.entryOnly _) cpu_nginxCall)
  exact ⟨_, rfl, smp_log_entryOnly nginxHooks.entryOnly nginxKvm fresh_nginxKvm _ nginxCall _
    timed_nginxCall _ plainNames_none rfl (undisturbed_nginxCall _ _) hown rfl⟩

/-- What the guest prints for it. -/
def readLine : StraceLine where
  blanks := []
  name := ['r', 'e', 'a', 'd']
  args := []
  ret := ['0']
  blank := by simp
  identifier := by decide
  printable := by simp
  unbroken := by decide

def nginxConsole : ConsoleLog where
  lines := []
  last := ⟨.strace readLine, readLine.text, .refl _⟩

theorem nginx_smp_console_verdict :
    ∃ s, run (Smp.step nginxHooks.entryOnly) nginxEntrySmp nginxCall = some s ∧
      ∃ vmiSeq, parseVmiJsonl (s.logFile nginxHooks.entryOnly fun _ => none)
          = .ok (vmiSeq.map .str) ∧
        (∃ run ∈ (compare (parseStraceLog latin1 nginxConsole.noisy) vmiSeq).longest,
          run.coverage = 1) ∧
        (compare (parseStraceLog latin1 nginxConsole.noisy) vmiSeq).onlyInVmi = ∅ ∧
        ((compare (parseStraceLog latin1 nginxConsole.noisy) vmiSeq).diffLines = [] ↔
          ([] : List (List Char)) = [] ∧ ([] : List (List Char)) = []) := by
  have hown := Smp.along_ownStep (fresh_nginxKvm.armedStart nginxHooks.entryOnly _)
    clean_nginxCall_entryOnly
    (Smp.along_noOtherStep (fresh_nginxKvm.armedStart nginxHooks.entryOnly _) cpu_nginxCall)
  refine ⟨_, rfl, smp_console_verdict nginxHooks.entryOnly nginxKvm fresh_nginxKvm _ nginxCall _
    timed_nginxCall _ plainNames_none rfl (undisturbed_nginxCall _ _) hown rfl ?_ ?_ latin1
    nginxConsole [] [] ?_ ?_⟩
  · rintro (_ | cs) ⟨⟨hcs, -⟩, -⟩
    · cases hcs
    · cases hcs
  · exact List.cons_ne_nil _ _
  · intro x hx line hline
    obtain rfl := List.mem_singleton.mp hx
    obtain rfl := ConsoleLine.strace.inj hline
    exact StraceLine.legible latin1 readLine
  · have hname : syscallName 0 = ['r', 'e', 'a', 'd'] := by decide +kernel
    show [['r', 'e', 'a', 'd']] = [] ++ [syscallName 0] ++ []
    rw [hname]
    rfl

/-- `smp_log_shutdown` on a syscall that has not come back. -/
theorem nginx_smp_log_shutdown :
    ∃ s, run (Smp.step nginxHooks) nginxSmp (nginxCall ++ [.vmStateChange false .shutdown []])
        = some s ∧
      ∃ (l : _) (names : List (List Char)), s.UnderWay nginxHooks l ∧
        parseVmiJsonl (s.logFile nginxHooks fun _ => none) = .ok (names.map .str) ∧
        names.Perm ((s.executed ++ l).map callName) := by
  have hown := Smp.along_ownStep armedStart_nginxSmp clean_nginxCall
    (Smp.along_noOtherStep armedStart_nginxSmp cpu_nginxCall)
  exact ⟨_, rfl, smp_log_shutdown nginxHooks nginxKvm fresh_nginxKvm _ nginxCall _
    timed_nginxCall _ plainNames_none (by decide) (undisturbed_nginxCall _ _) hown rfl⟩

end SyscallMonitor
