import SyscallMonitor.Capture.Conservation
import SyscallMonitor.Capture.Refinement
import SyscallMonitor.Lib.Run
import SyscallMonitor.Monitor

/-!
# Traps taken again

If `vmi_monitor_breakpoint_hit` cannot remove the breakpoint, the guest takes the same trap again.
The queue looks at no time, so a second entry supersedes the first and leaves the queue as it was,
and a second return finds nothing. What the log says apart from its superseded lines is what it
says when each trap is taken once, as long as `vmi_pending_seq` does not wrap.
-/

namespace SyscallMonitor

open Lib Monitor

/-! ### Without times -/

/-- The time that replaces all others. -/
def epoch : Timeval := ⟨0, 0⟩

def Held.untimed (p : Held) : Held := { p with tv := epoch }

@[simp] lemma Held.key_untimed (p : Held) : Held.key (Held.untimed p) = Held.key p := rfl

def Answer.untimed (r : Answer) : Answer := (r.1, epoch)

def VmiRetKind.untimed : VmiRetKind → VmiRetKind
  | .none           => .none
  | .value ret _    => .value ret epoch
  | .unfinished why => .unfinished why

def LogLine.untimed (l : LogLine) : LogLine := { l with tv := epoch, kind := l.kind.untimed }

def SyscallId.untimed (i : SyscallId) : SyscallId := { i with tv := epoch }

def Written.untimed (w : Written) : Written := { w with line := w.line.untimed }

/-- The same event at another time. -/
def HookEvent.retime (tv : Timeval) : HookEvent → HookEvent
  | .entry cpuIndex env _ => .entry cpuIndex env tv
  | .ret cpuIndex env _   => .ret cpuIndex env tv
  | .flush                => .flush

def HookEvent.untimed (e : HookEvent) : HookEvent := e.retime epoch

@[simp] lemma HookEvent.untimed_retime (tv : Timeval) (e : HookEvent) :
    (e.retime tv).untimed = e.untimed := by
  cases e <;> rfl

lemma departureLine_untimed (d : Held × Departure Answer) :
    (departureLine d).untimed
      = departureLine (Prod.map Held.untimed (Departure.map Answer.untimed) d) := by
  obtain ⟨p, d⟩ := d
  cases d <;> rfl

namespace QueueSpec

variable {s s' : QueueSpec}

def untimed (s : QueueSpec) : QueueSpec :=
  ⟨s.queue.map Held.untimed Held.key_untimed, s.log.map Written.untimed⟩

lemma untimed_after (s : QueueSpec) (r : PendingQueue × List (Held × Departure Answer)) :
    (s.after r).untimed
      = s.untimed.after (r.1.map Held.untimed Held.key_untimed,
          KeyedQueue.mapOut Held.untimed Answer.untimed r.2) := by
  simp only [after, untimed, List.map_append, List.map_map, KeyedQueue.mapOut, QueueSpec.mk.injEq,
    true_and, List.append_cancel_left_eq]
  exact List.map_congr_left fun d _ => departureLine_untimed d

/-- The queue looks at no time. -/
theorem untimed_handle (s : QueueSpec) (e : HookEvent) :
    (s.handle e).untimed = s.untimed.handle e.untimed := by
  cases e with
  | entry cpuIndex env tv =>
    rw [handle, untimed_after, ← KeyedQueue.enter_map]
    rfl
  | ret cpuIndex env tv =>
    rw [handle, untimed_after, ← KeyedQueue.answer_map]
    rfl
  | flush =>
    rw [handle, untimed_after, ← KeyedQueue.flush_map]
    rfl

lemma untimed_handleAll (s : QueueSpec) (es : List HookEvent) :
    (s.handleAll es).untimed = s.untimed.handleAll (es.map HookEvent.untimed) := by
  induction es using List.reverseRecOn with
  | nil => rfl
  | append_singleton es e ih =>
    rw [handleAll_concat, untimed_handle, ih, List.map_append, List.map_singleton,
      handleAll_concat]

lemma handleAll_append (s : QueueSpec) (es fs : List HookEvent) :
    s.handleAll (es ++ fs) = (s.handleAll es).handleAll fs := List.foldl_append

end QueueSpec

/-! ### Without superseded lines -/

/-- A log with its `superseded` lines deleted. -/
def kept (log : List Written) : List Written :=
  log.filter fun w => w.line.kind ≠ .unfinished .superseded

/-- The `superseded` lines of a log. -/
def superseded (log : List Written) : List Written :=
  log.filter fun w => w.line.kind = .unfinished .superseded

/-- What a log says, times and `superseded` lines apart. -/
def results (log : List Written) : List Written := (kept log).map Written.untimed

lemma untimed_kind_eq_superseded {w : Written} :
    w.untimed.line.kind = .unfinished .superseded ↔ w.line.kind = .unfinished .superseded := by
  obtain ⟨key, cpuIndex, num, argv, tv, kind⟩ := w
  cases kind <;> simp [Written.untimed, LogLine.untimed, VmiRetKind.untimed]

lemma results_eq_kept (log : List Written) : results log = kept (log.map Written.untimed) := by
  simp only [results, kept, List.filter_map, Function.comp_def, ne_eq, untimed_kind_eq_superseded]

@[simp] lemma kept_append (log log' : List Written) :
    kept (log ++ log') = kept log ++ kept log' := List.filter_append ..

lemma loggedIds_untimed (log : List Written) :
    loggedIds (log.map Written.untimed) = (loggedIds log).map SyscallId.untimed := by
  simp only [loggedIds, Multiset.map_coe, List.map_map]
  rfl

/-- What is kept of a log and its superseded lines make up the log. -/
lemma loggedIds_results_add (log : List Written) :
    loggedIds (results log) + (loggedIds (superseded log)).map SyscallId.untimed
      = (loggedIds log).map SyscallId.untimed := by
  have hperm : (kept log ++ superseded log).Perm log := by
    have hsplit := List.filter_append_perm
      (fun w : Written => decide (w.line.kind ≠ .unfinished .superseded)) log
    simpa [kept, superseded] using hsplit
  rw [results, loggedIds_untimed, ← Multiset.map_add, ← loggedIds_append]
  exact congrArg _ (Multiset.coe_eq_coe.mpr (hperm.map _))

namespace QueueSpec

/-- The same queue, and logs that differ in superseded lines only. -/
structure Alike (s s' : QueueSpec) : Prop where
  queue : s.queue = s'.queue
  log : kept s.log = kept s'.log

variable {s s' s'' : QueueSpec}

lemma Alike.refl (s : QueueSpec) : Alike s s := ⟨rfl, rfl⟩

lemma Alike.trans (h : Alike s s') (h' : Alike s' s'') : Alike s s'' :=
  ⟨h.queue.trans h'.queue, h.log.trans h'.log⟩

lemma Alike.after (h : Alike s s') (r : PendingQueue × List (Held × Departure Answer)) :
    Alike (s.after r) (s'.after r) := by
  refine ⟨rfl, ?_⟩
  simp only [QueueSpec.after, kept_append, h.log]

/-- What an event does depends on the queue only. -/
lemma Alike.handle (h : Alike s s') (e : HookEvent) : Alike (s.handle e) (s'.handle e) := by
  cases e with
  | entry cpuIndex env tv =>
    rw [QueueSpec.handle, QueueSpec.handle, h.queue]
    exact h.after _
  | ret cpuIndex env tv =>
    rw [QueueSpec.handle, QueueSpec.handle, h.queue]
    exact h.after _
  | flush =>
    rw [QueueSpec.handle, QueueSpec.handle, h.queue]
    exact h.after _

lemma Alike.handleAll (h : Alike s s') (es : List HookEvent) :
    Alike (s.handleAll es) (s'.handleAll es) := by
  induction es using List.reverseRecOn with
  | nil => exact h
  | append_singleton es e ih =>
    rw [handleAll_concat, handleAll_concat]
    exact ih.handle e

/-- An event that happens again changes nothing but superseded lines. -/
theorem alike_handle_handle (s : QueueSpec) (e : HookEvent) :
    Alike ((s.handle e).handle e) (s.handle e) := by
  cases e with
  | entry cpuIndex env tv =>
    have hagain := s.queue.enter_enter (ρ := Answer) (.ofEntry cpuIndex env tv)
    simp only [handle, after, hagain]
    refine ⟨rfl, ?_⟩
    rw [kept_append]
    simp [kept, departureLine, Held.written]
  | ret cpuIndex env tv =>
    have hagain := s.queue.answer_answer env.key ((env.regs rEax).toInt64, tv)
      ((env.regs rEax).toInt64, tv)
    simp only [handle, after, hagain]
    exact ⟨rfl, by simp⟩
  | flush =>
    have hagain := s.queue.flush_flush (ρ := Answer)
    simp only [handle, after, hagain]
    exact ⟨rfl, by simp⟩

lemma alike_handleAll_replicate (s : QueueSpec) (e : HookEvent) (n : ℕ) :
    Alike ((s.handle e).handleAll (List.replicate n e)) (s.handle e) := by
  induction n generalizing s with
  | zero => exact .refl _
  | succ n ih => exact (ih (s.handle e)).trans (s.alike_handle_handle e)

end QueueSpec

/-! ### Repeated traps -/

/-- A trap, and the times at which it is taken again before anything else happens. -/
structure RepeatedTrap where
  trap : HookEvent
  again : List Timeval

/-- The trap as often as it is taken. -/
def RepeatedTrap.events (r : RepeatedTrap) : List HookEvent :=
  r.trap :: r.again.map fun tv => r.trap.retime tv

/-- All traps as they are taken. -/
def takenAgain (rs : List RepeatedTrap) : List HookEvent := rs.flatMap RepeatedTrap.events

/-- The same sequence with each trap taken once. -/
def takenOnce (rs : List RepeatedTrap) : List HookEvent := rs.map RepeatedTrap.trap

lemma RepeatedTrap.untimed_events (r : RepeatedTrap) :
    r.events.map HookEvent.untimed
      = r.trap.untimed :: List.replicate r.again.length r.trap.untimed := by
  rw [events, List.map_cons, List.map_map]
  congr 1
  refine List.eq_replicate_iff.mpr ⟨List.length_map _, ?_⟩
  intro e he
  obtain ⟨tv, -, rfl⟩ := List.mem_map.mp he
  exact HookEvent.untimed_retime tv r.trap

lemma takenAgain_concat (rs : List RepeatedTrap) (r : RepeatedTrap) :
    takenAgain (rs ++ [r]) = takenAgain rs ++ r.events := by
  simp [takenAgain]

lemma takenOnce_concat (rs : List RepeatedTrap) (r : RepeatedTrap) :
    takenOnce (rs ++ [r]) = takenOnce rs ++ [r.trap] := List.map_append

lemma takenOnce_sublist (rs : List RepeatedTrap) : (takenOnce rs).Sublist (takenAgain rs) := by
  induction rs with
  | nil => exact .slnil
  | cons r rs ih => exact (ih.trans (List.sublist_append_right ..)).cons_cons r.trap

/-- Run rule: repetitions keep the queue and change superseded lines only. -/
theorem QueueSpec.alike_takenAgain (s : QueueSpec) (rs : List RepeatedTrap) :
    Alike (s.handleAll ((takenAgain rs).map HookEvent.untimed))
      (s.handleAll ((takenOnce rs).map HookEvent.untimed)) := by
  induction rs using List.reverseRecOn with
  | nil => exact .refl s
  | append_singleton rs r ih =>
    rw [takenAgain_concat, takenOnce_concat, List.map_append, List.map_append, handleAll_append,
      handleAll_append, r.untimed_events]
    exact (alike_handleAll_replicate _ r.trap.untimed r.again.length).trans
      (ih.handle r.trap.untimed)

/-- Without times, the table writes the log of the queue fed with the events without times. -/
lemma untimed_log_handleAll {h : Hooks} (hret : h.vmiRetAddr ≠ 0) {es : List HookEvent}
    (hcount : es.countP HookEvent.isEntry < 2 ^ 64) :
    ((Capture.init []).handleAll h es).log.map Written.untimed
      = ((QueueSpec.init []).handleAll (es.map HookEvent.untimed)).log := by
  obtain ⟨order, hr⟩ := represents_handleAll hret es hcount
  rw [hr.log]
  exact congrArg QueueSpec.log ((QueueSpec.init []).untimed_handleAll es)

/-- **A failed removal does not corrupt the capture.** Let each trap be taken again any number of
times, with fewer than 2^64 entries in all, before the flush. Apart from superseded lines, the log
says line by line what it says when each trap is taken once. With the syscalls superseded there,
it accounts for every syscall exactly once. -/
theorem handleAll_takenAgain (h : Hooks) (hret : h.vmiRetAddr ≠ 0) (rs : List RepeatedTrap)
    (hcount : (takenAgain rs).countP HookEvent.isEntry < 2 ^ 64) :
    results ((Capture.init []).handleAll h (takenAgain rs ++ [.flush])).log
        = results ((Capture.init []).handleAll h (takenOnce rs ++ [.flush])).log ∧
      loggedIds (results ((Capture.init []).handleAll h (takenAgain rs ++ [.flush])).log)
          + (loggedIds (superseded ((Capture.init []).handleAll h
              (takenOnce rs ++ [.flush])).log)).map SyscallId.untimed
        = ((takenOnce rs).map HookEvent.ids).sum.map SyscallId.untimed := by
  have hagain : (takenAgain rs ++ [HookEvent.flush]).countP HookEvent.isEntry < 2 ^ 64 := by
    rw [List.countP_append]
    exact hcount
  have honce : (takenOnce rs ++ [HookEvent.flush]).countP HookEvent.isEntry < 2 ^ 64 := by
    rw [List.countP_append]
    exact Nat.lt_of_le_of_lt ((takenOnce_sublist rs).countP_le) hcount
  have hsame : results ((Capture.init []).handleAll h (takenAgain rs ++ [.flush])).log
      = results ((Capture.init []).handleAll h (takenOnce rs ++ [.flush])).log := by
    rw [results_eq_kept, results_eq_kept, untimed_log_handleAll hret hagain,
      untimed_log_handleAll hret honce, List.map_append, List.map_append,
      QueueSpec.handleAll_append, QueueSpec.handleAll_append]
    exact (((QueueSpec.init []).alike_takenAgain rs).handleAll _).log
  refine ⟨hsame, ?_⟩
  rw [hsame, loggedIds_results_add, loggedIds_handleAll_flush hret]

/-- `handleAll_takenAgain` on an entry that is trapped three times and a return that is trapped
twice, with the entry of another context in between. -/
theorem nginx_handleAll_takenAgain :
    nginxHooks.vmiRetAddr ≠ 0 ∧
      results ((Capture.init []).handleAll nginxHooks
          [.entry 0 ⟨fun _ => 1, 0x101000⟩ ⟨10, 0⟩, .entry 0 ⟨fun _ => 1, 0x101000⟩ ⟨10, 1⟩,
            .entry 0 ⟨fun _ => 1, 0x101000⟩ ⟨10, 2⟩, .entry 0 ⟨fun _ => 2, 0x101000⟩ ⟨10, 5⟩,
            .ret 0 ⟨fun _ => 1, 0x1010da⟩ ⟨10, 9⟩, .ret 0 ⟨fun _ => 1, 0x1010da⟩ ⟨11, 0⟩,
            .flush]).log
        = results ((Capture.init []).handleAll nginxHooks
          [.entry 0 ⟨fun _ => 1, 0x101000⟩ ⟨10, 0⟩, .entry 0 ⟨fun _ => 2, 0x101000⟩ ⟨10, 5⟩,
            .ret 0 ⟨fun _ => 1, 0x1010da⟩ ⟨10, 9⟩, .flush]).log :=
  ⟨by decide, (handleAll_takenAgain nginxHooks (by decide)
    [⟨.entry 0 ⟨fun _ => 1, 0x101000⟩ ⟨10, 0⟩, [⟨10, 1⟩, ⟨10, 2⟩]⟩,
      ⟨.entry 0 ⟨fun _ => 2, 0x101000⟩ ⟨10, 5⟩, []⟩,
      ⟨.ret 0 ⟨fun _ => 1, 0x1010da⟩ ⟨10, 9⟩, [⟨11, 0⟩]⟩] (by decide)).1⟩

/-! ### A removal that fails -/

/-- The error of a removal leaves its address as it was. -/
lemma RemoveAt.eq_of_error {s s' : Site} {err : Option Errno} (hrem : RemoveAt s err s')
    (herr : err ≠ none) : s' = s := by
  cases hrem with
  | unknown _ => rfl
  | fault _ _ _ => rfl
  | shared _ _ _ => exact absurd rfl herr
  | overwritten _ _ _ _ => exact absurd rfl herr
  | restore _ _ => exact absurd rfl herr

/-- The vCPU is in `VMI_NORMAL` and the `int3` of the hook `pc` is planted, so that the guest runs
into it. -/
structure AtHook (cs : ℕ) (pc : UInt64) (v : Monitor) : Prop where
  enabled : v.vmiEnabled = true
  normal : v.vmiStateTable cs = .normal
  live : (v.kvm.site pc).Live

/-- The debug exit of the hook, handled at the time `tv`. -/
def hookTrap (h : Hooks) (cs : ℕ) (env : CPUX86State) (pc : UInt64) (v : Monitor) (tv : Timeval) :
    Option Monitor :=
  some (kvmHandleDebug h cs env tv (int3Trap pc) v).2

/-- The removal of the breakpoint at `pc` is about to fail. -/
def RemovalFails (pc : UInt64) (v : Monitor) : Prop := (kvmRemoveBreakpoint pc v.kvm).1 ≠ none

section RemovalFails

variable {h : Hooks} {cs : ℕ} {pc : UInt64} {v : Monitor} (env : CPUX86State)

/-- After a hit whose removal fails, the vCPU runs into the hook again. -/
lemma AtHook.step (hv : AtHook cs pc v) (hpc : h.IsHook pc) (hfails : RemovalFails pc v)
    (tv : Timeval) :
    AtHook cs pc (kvmHandleDebug h cs env tv (int3Trap pc) v).2 ∧
      (kvmHandleDebug h cs env tv (int3Trap pc) v).2.capture
        = v.capture.handle h (hookEvent h cs env tv pc) := by
  obtain ⟨err, s, f, hrem, heq, -⟩ := kvmRemoveBreakpoint_spec pc v.kvm
  have herr : err ≠ none := by
    rw [RemovalFails, heq] at hfails
    exact hfails
  have hsame := hrem.eq_of_error herr
  obtain ⟨e, rfl⟩ := Option.ne_none_iff_exists'.mp herr
  have hhit : vmiMonitorBreakpointHit h cs env tv pc v =
      { v.noteHit h cs env tv pc with kvm := v.kvm.setSite pc s f } := by
    cases hseen : v.vmiFirstHitSeen <;>
      simp only [vmiMonitorBreakpointHit, noteHit, hseen, Bool.false_eq_true, ↓reduceIte, callHook,
        timerFree, heq, hookEvent]
  rw [kvmHandleDebug_int3Trap hv.enabled hv.normal hpc hv.live.1 env tv, hhit]
  refine ⟨⟨hv.enabled, hv.normal, ?_⟩, rfl⟩
  show ((v.kvm.setSite pc s f).site pc).Live
  rw [Kvm.site_setSite_self, hsame]
  exact hv.live

/-- As long as the removals fail, the capture is called with the same trap again and again. -/
theorem AtHook.run (hv : AtHook cs pc v) (hpc : h.IsHook pc) (tvs : List Timeval)
    (hfails : Along (hookTrap h cs env pc) (fun v _ => RemovalFails pc v) v tvs) :
    ∃ v', Lib.run (hookTrap h cs env pc) v tvs = some v' ∧ AtHook cs pc v' ∧
      v'.capture = v.capture.handleAll h (tvs.map fun tv => hookEvent h cs env tv pc) := by
  induction tvs generalizing v with
  | nil => exact ⟨v, rfl, hv, rfl⟩
  | cons tv tvs ih =>
    obtain ⟨hnow, hthen⟩ := hfails
    obtain ⟨hv', hcapture⟩ := hv.step env hpc hnow tv
    obtain ⟨v'', hrun, hv'', hcapture'⟩ := ih hv' (hthen _ rfl)
    refine ⟨v'', hrun, hv'', ?_⟩
    rw [hcapture', hcapture]
    rfl

/-- Such a series is a trap taken again. -/
lemma events_hookEvent (tv : Timeval) (tvs : List Timeval) :
    (RepeatedTrap.mk (hookEvent h cs env tv pc) tvs).events
      = (tv :: tvs).map fun tv => hookEvent h cs env tv pc := by
  rw [RepeatedTrap.events, List.map_cons]
  congr 2
  funext tv'
  rw [hookEvent, hookEvent]
  split_ifs <;> rfl

end RemovalFails

/-! ### `vmi_pending_seq` wraps -/

deriving instance DecidableEq for VmiPending

/-- The table holds `a` in slot `i`, `b` in slot `j`, and nothing else. -/
structure TwoHeld (c : Capture) (i j : Slot) (a b : VmiPending) : Prop where
  ne : i ≠ j
  used : ∀ k, (c.vmiPending k).used = true ↔ k = i ∨ k = j
  first : c.vmiPending i = a
  second : c.vmiPending j = b

namespace TwoHeld

variable {c : Capture} {i j : Slot} {a b : VmiPending} {h : Hooks} {cpuIndex : Int}
  {env : CPUX86State} {seq : UInt64} {tv : Timeval}

lemma symm (htwo : TwoHeld c i j a b) : TwoHeld c j i b a :=
  ⟨htwo.ne.symm, fun k => (htwo.used k).trans or_comm, htwo.second, htwo.first⟩

/-- A repeated entry takes the next sequence number, and perhaps another slot. -/
lemma entry (htwo : TwoHeld c i j a (.ofEntry seq cpuIndex env tv)) (hret : h.vmiRetAddr ≠ 0)
    (hkey : a.key ≠ env.key) (tv' : Timeval) :
    ∃ j', TwoHeld (vmiHandleEntry h cpuIndex env tv' c) i j' a
        (.ofEntry c.vmiPendingSeq cpuIndex env tv') ∧
      (vmiHandleEntry h cpuIndex env tv' c).vmiPendingSeq = c.vmiPendingSeq + 1 ∧
      kept (vmiHandleEntry h cpuIndex env tv' c).log = kept c.log := by
  obtain ⟨j', evicted, hslot, heq⟩ := vmiHandleEntry_cases hret cpuIndex env tv' c
  have hi : freeKey env.key c.vmiPending i = a := by
    rw [freeKey_of_not_heldAt, htwo.first]
    rintro ⟨-, hk⟩
    exact hkey (htwo.first ▸ hk)
  have hused : ∀ k, (freeKey env.key c.vmiPending k).used = true ↔ k = i := by
    intro k
    rw [freeKey_used, htwo.used]
    constructor
    · rintro ⟨rfl | rfl, hk⟩
      · rfl
      · exact absurd (congrArg VmiPending.key htwo.second) hk
    · rintro rfl
      exact ⟨Or.inl rfl, htwo.first ▸ hkey⟩
  cases hslot with
  | evict hfull _ => exact absurd ((hused j).mp (hfull j)) htwo.ne.symm
  | free hfree =>
    have hne : i ≠ j' := by
      rintro rfl
      rw [(hused i).mpr rfl] at hfree
      cases hfree
    rw [heq]
    refine ⟨j', ⟨hne, ?_, ?_, Function.update_self ..⟩, rfl, ?_⟩
    · intro k
      by_cases hk : k = j'
      · subst hk
        simp [VmiPending.ofEntry]
      · simp [hused, hk]
    · exact (Function.update_of_ne hne _ _).trans hi
    · simp only [List.append_nil, kept_append]
      have hgone : kept (supersededLines env.key c.vmiPending slots) = [] := by
        simp [kept, supersededLines, VmiPending.line]
      rw [hgone, List.append_nil]

/-- Repeated entries count `vmi_pending_seq` up, modulo its width. -/
lemma repeated (htwo : TwoHeld c i j a (.ofEntry seq cpuIndex env tv)) (hret : h.vmiRetAddr ≠ 0)
    (hkey : a.key ≠ env.key) (hseq : c.vmiPendingSeq = seq + 1) (tvs : List Timeval) :
    ∃ j' tv', TwoHeld (c.handleAll h (tvs.map fun tv => .entry cpuIndex env tv)) i j' a
        (.ofEntry (seq + UInt64.ofNat tvs.length) cpuIndex env tv') ∧
      kept (c.handleAll h (tvs.map fun tv => .entry cpuIndex env tv)).log = kept c.log := by
  induction tvs generalizing c j seq tv with
  | nil => exact ⟨j, tv, by simpa using htwo, rfl⟩
  | cons t tvs ih =>
    obtain ⟨j₁, htwo₁, hseq₁, hkept₁⟩ := htwo.entry hret hkey t
    obtain ⟨j', tv', htwo', hkept'⟩ := ih htwo₁ hseq₁
    refine ⟨j', tv', ?_, hkept'.trans hkept₁⟩
    have hcount : c.vmiPendingSeq + UInt64.ofNat tvs.length
        = seq + UInt64.ofNat (t :: tvs).length := by
      rw [hseq, List.length_cons, UInt64.ofNat_add, UInt64.add_assoc, UInt64.add_comm 1]
      rfl
    rw [← hcount]
    exact htwo'

/-- The flush writes the entry with the smaller sequence number first. -/
lemma flush (htwo : TwoHeld c i j a b) (hlt : a.seq < b.seq) :
    (vmiFlushPending .shutdown c).log
      = c.log ++ [⟨a.key, a.line (.unfinished .shutdown)⟩,
          ⟨b.key, b.line (.unfinished .shutdown)⟩] := by
  obtain ⟨l, hl, hlog, -, -⟩ := vmiFlushPending_spec .shutdown c
  have hlt' : (c.vmiPending i).seq < (c.vmiPending j).seq := by
    rw [htwo.first, htwo.second]
    exact hlt
  have hperm : l.Perm [i, j] := by
    refine (List.perm_ext_iff_of_nodup hl.nodup (by simpa using htwo.ne)).mpr fun k => ?_
    rw [hl.mem, htwo.used]
    simp
  have hsorted : [i, j].Pairwise fun x y => (c.vmiPending x).seq ≤ (c.vmiPending y).seq := by
    simpa using UInt64.le_of_lt hlt'
  have heq : l = [i, j] := by
    refine hperm.eq_of_pairwise ?_ hl.sorted hsorted
    intro x y hx hy hxy hyx
    have hx : x = i ∨ x = j := by simpa using hperm.mem_iff.mp hx
    have hy : y = i ∨ y = j := by simpa using hy
    rcases hx with rfl | rfl <;> rcases hy with rfl | rfl
    · rfl
    · exact absurd hlt' (UInt64.not_lt.mpr hyx)
    · exact absurd hlt' (UInt64.not_lt.mpr hxy)
    · rfl
  rw [hlog, heq, List.map_cons, List.map_singleton, htwo.first, htwo.second]

end TwoHeld

/-- Two contexts at the entry hook. -/
def firstContext : CPUX86State := ⟨fun _ => 1, 0x101000⟩

def secondContext : CPUX86State := ⟨fun _ => 2, 0x101000⟩

/-- The line that the final flush writes for one of them. -/
def shutdownLine (env : CPUX86State) : Written :=
  (Held.ofEntry 0 env epoch).written (.unfinished .shutdown)

/-- The first context enters, and its trap is taken twice; then the second one enters, and its trap
is taken again and again. -/
def firstThenSecond (tvs : List Timeval) : List RepeatedTrap :=
  [⟨.entry 0 firstContext epoch, [epoch]⟩, ⟨.entry 0 secondContext epoch, tvs⟩]

lemma results_takenOnce_firstThenSecond (tvs : List Timeval) :
    results ((Capture.init []).handleAll nginxHooks
        (takenOnce (firstThenSecond tvs) ++ [.flush])).log
      = [shutdownLine firstContext, shutdownLine secondContext] := by
  have htwo : TwoHeld ((Capture.init []).handleAll nginxHooks (takenOnce (firstThenSecond []))) 0 1
      (.ofEntry 0 0 firstContext epoch) (.ofEntry 1 0 secondContext epoch) :=
    ⟨by decide, by decide +kernel, by decide +kernel, by decide +kernel⟩
  have hkept : kept ((Capture.init []).handleAll nginxHooks
      (takenOnce (firstThenSecond []))).log = [] := by decide +kernel
  have hflush := htwo.flush (by decide)
  rw [Capture.handleAll_concat, results, Capture.handle]
  rw [show takenOnce (firstThenSecond tvs) = takenOnce (firstThenSecond []) from rfl, hflush,
    kept_append, hkept]
  decide

/-- When the second context has taken the number 2^64, that is, 0, it is the older one. -/
lemma results_takenAgain_firstThenSecond {tvs : List Timeval}
    (hlen : 2 + UInt64.ofNat tvs.length = 0) :
    results ((Capture.init []).handleAll nginxHooks
        (takenAgain (firstThenSecond tvs) ++ [.flush])).log
      = [shutdownLine secondContext, shutdownLine firstContext] := by
  have htwo : TwoHeld ((Capture.init []).handleAll nginxHooks (takenAgain (firstThenSecond []))) 0 1
      (.ofEntry 1 0 firstContext epoch) (.ofEntry 2 0 secondContext epoch) :=
    ⟨by decide, by decide +kernel, by decide +kernel, by decide +kernel⟩
  have hkept : kept ((Capture.init []).handleAll nginxHooks
      (takenAgain (firstThenSecond []))).log = [] := by decide +kernel
  have hseq : ((Capture.init []).handleAll nginxHooks
      (takenAgain (firstThenSecond []))).vmiPendingSeq = 2 + 1 := by decide +kernel
  obtain ⟨j, tv, htwo', hkept'⟩ := htwo.repeated (h := nginxHooks) (by decide) (by decide) hseq tvs
  rw [hlen] at htwo'
  have hflush := htwo'.symm.flush (show (0 : UInt64) < 1 by decide)
  have hsplit : takenAgain (firstThenSecond tvs) = takenAgain (firstThenSecond [])
      ++ tvs.map fun tv => .entry 0 secondContext tv := by
    simp [takenAgain, firstThenSecond, RepeatedTrap.events, HookEvent.retime]
  rw [Capture.handleAll_concat, results, Capture.handle, hsplit, Capture.handleAll_append, hflush,
    kept_append, hkept', hkept]
  rfl

/-- An entry that is trapped 2^64 times in all falls behind the entries before it in the order of
the flush. -/
theorem results_takenAgain_ne :
    ¬ ∀ rs : List RepeatedTrap,
      results ((Capture.init []).handleAll nginxHooks (takenAgain rs ++ [.flush])).log
        = results ((Capture.init []).handleAll nginxHooks (takenOnce rs ++ [.flush])).log := by
  intro hall
  have hlen : ∃ tvs : List Timeval, 2 + UInt64.ofNat tvs.length = 0 :=
    ⟨List.replicate (2 ^ 64 - 2) epoch, by rw [List.length_replicate]; decide⟩
  obtain ⟨tvs, htvs⟩ := hlen
  have hsame := hall (firstThenSecond tvs)
  rw [results_takenAgain_firstThenSecond htvs, results_takenOnce_firstThenSecond] at hsame
  exact absurd hsame (by decide)

end SyscallMonitor
