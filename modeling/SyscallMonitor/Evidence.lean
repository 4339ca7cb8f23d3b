import SyscallMonitor.Smp.System

/-!
# The first hit as evidence

The polling path re-arms the hooks until the first hit, which is taken as proof that they are live.
A hit at the return hook proves nothing about the entry hook. It is live all the same if the last
attempt has armed both and nobody has written the entry byte since; that is followed by a history
variable.
-/

namespace SyscallMonitor

open Lib Monitor

namespace Smp

variable {h : Hooks} {s s' : Smp} {e : SmpEvent}

/-- If the event sets `vmi_first_hit_seen`, the entry hook is registered with its `int3` in memory
afterwards, or has just been hit itself. -/
def FirstHitIsEvidence (h : Hooks) (s : Smp) (e : SmpEvent) : Prop :=
  ∀ s', s.step h e = some s' → s.vmi.vmiFirstHitSeen = false → s'.vmi.vmiFirstHitSeen = true →
    (∃ cs, s.HitAt cs h.vmiAddr e) ∨ (s'.vmi.kvm.site h.vmiAddr).Live

/-- An attempt to arm has been made. -/
def Attempted (s s' : Smp) : Prop := s'.vmi.armCalls.length ≠ s.vmi.armCalls.length

instance (s s' : Smp) : Decidable (s.Attempted s') := inferInstanceAs (Decidable (_ ≠ _))

/-- The event leaves the byte at the entry hook as it is, unless it is the monitor who writes it. -/
def KeepsEntryByte (h : Hooks) (s : Smp) (e : SmpEvent) : Prop :=
  e.mem.getD s.vmi.kvm.mem h.vmiAddr = s.vmi.kvm.mem h.vmiAddr

instance (h : Hooks) (s : Smp) (e : SmpEvent) : Decidable (s.KeepsEntryByte h e) :=
  inferInstanceAs (Decidable (_ = _))

/-- Whether the last attempt has succeeded, and nobody else has written the entry byte since. -/
def noteArmed (h : Hooks) (s : Smp) (e : SmpEvent) (s' : Smp) (armed : Bool) : Bool :=
  if s.Attempted s' then (vmiArmOnce h (s.entering e).kvm).1
  else armed && decide (s.KeepsEntryByte h e)

/-- If the event handles a hit at the return hook before any hit has been seen, the last attempt has
succeeded, and nobody else has written the entry byte since. -/
def ArmedAtReturnHit (h : Hooks) (s : Smp × Bool) (e : SmpEvent) : Prop :=
  s.1.vmi.vmiFirstHitSeen = false → (∃ cs, s.1.HitAt cs h.vmiRetAddr e) → s.2 = true

/-- What the history variable tells about the entry hook before the first hit. -/
structure EntryArmed (h : Hooks) (s : Smp × Bool) : Prop where
  enabled : s.1.vmi.vmiEnabled = true
  live : s.1.vmi.vmiFirstHitSeen = false → s.2 = true → (s.1.vmi.kvm.site h.vmiAddr).Live

/-- An insertion leaves a live breakpoint live. -/
lemma live_of_insertAt {s s' : Site} {err : Option Errno} (hlive : s.Live)
    (hins : InsertAt s err s') : s'.Live := by
  cases hins with
  | again bp b => exact ⟨rfl, hlive.2⟩
  | patch b => cases hlive.1
  | fault b => cases hlive.1

/-- Every step keeps the history variable true to the entry hook. -/
theorem entryArmed_step {s s' : Smp × Bool} (hs : EntryArmed h s)
    (hstep : recording (step h) (noteArmed h) s e = some s') : EntryArmed h s' := by
  obtain ⟨t, ht, rfl⟩ := Option.map_eq_some_iff.mp hstep
  have hvmi := step_vmi hs.enabled ht
  refine ⟨hvmi.vmiEnabled.trans hs.enabled, fun hhit harmed => ?_⟩
  -- without an attempt, the handler finds the entry hook live
  have hfound : t.vmi.armCalls = s.1.vmi.armCalls →
      ((s.1.entering e).kvm.site h.vmiAddr).Live := by
    intro hcalls
    have hatt : ¬ s.1.Attempted t := fun hatt => hatt (congrArg List.length hcalls)
    simp only [noteArmed, hatt, ↓reduceIte, Bool.and_eq_true, decide_eq_true_eq] at harmed
    have hlive := hs.live (hvmi.vmiFirstHitSeen_before hhit) harmed.1
    have hsite : (s.1.entering e).kvm.site h.vmiAddr = s.1.vmi.kvm.site h.vmiAddr :=
      Site.ext rfl harmed.2
    rwa [hsite]
  cases hvmi with
  | idle f heq =>
    have hlive := hfound (by rw [heq, entering])
    rw [heq]
    exact hlive
  | arming harm =>
    cases harm with
    | idle hkvm hcalls _ _ =>
      rw [hkvm]
      exact hfound hcalls
    | attempt tag _ _ hkvm hcalls _ =>
      have hatt : s.1.Attempted t := by
        simp [Attempted, hcalls, entering]
      simp only [noteArmed, hatt, ↓reduceIte] at harmed
      exact vmiArmOnce_live (Prod.ext harmed hkvm.symm) h.isHook_addr
  | hit cs tv info _ _ _ _ _ _ heq =>
    rw [heq, (vmiMonitorBreakpointHit_flags h cs _ tv info.pc (s.1.entering e)).2] at hhit
    cases hhit
  | complete cs _ heq =>
    obtain ⟨err, site, f, hins, -, hv⟩ := vmiMonitorStepComplete_spec cs (s.1.entering e)
    rw [hv] at heq
    have hlive := hfound (by rw [heq, entering])
    rw [heq]
    by_cases haddr : h.vmiAddr = (s.1.entering e).vmiStepAddrTable cs
    · rw [haddr, Kvm.site_setSite_self]
      rw [haddr] at hlive
      exact live_of_insertAt hlive hins
    · rw [Kvm.site_setSite_of_ne _ _ _ _ haddr]
      exact hlive

/-- A hit at the return hook does not touch the entry hook. -/
lemma firstHitIsEvidence {s : Smp × Bool} (hs : EntryArmed h s)
    (hret : ArmedAtReturnHit h s e) : s.1.FirstHitIsEvidence h e := by
  intro s' hstep hhit hseen
  rcases (step_vmi hs.enabled hstep).vmiFirstHitSeen with heq | ⟨-, cs, tv, pc, hpc, hhitAt, heq⟩
  · rw [heq, hhit] at hseen
    cases hseen
  · rcases hpc with rfl | ⟨-, rfl⟩
    · exact Or.inl ⟨cs, hhitAt⟩
    · have hlive := hs.live hhit (hret hhit ⟨cs, hhitAt⟩)
      obtain ⟨err, site, f, -, -, hnone, hsome⟩ :=
        vmiMonitorBreakpointHit_spec h cs (s.1.cpus cs).env tv h.vmiRetAddr (s.1.entering e)
      have hother : ((s.1.entering e).kvm.setSite h.vmiRetAddr site f).site h.vmiAddr
          = s.1.vmi.kvm.site h.vmiAddr := by
        rw [Kvm.site_setSite_of_ne _ _ _ _ h.ret_ne_addr.symm]
        obtain ⟨tv', info, he, -⟩ := hhitAt
        rw [he]
        rfl
      rw [← hother] at hlive
      apply Or.inr
      by_cases herr : err = none
      · rw [heq, hnone herr]
        exact hlive
      · rw [heq, hsome herr]
        exact hlive

end Smp

/-- **Evidence.** In every run in which the first hit is at the entry hook, or else the last attempt
before it has succeeded and nobody else has written the entry byte since, `vmi_first_hit_seen` is
set only when the entry hook is live, or has just been hit. -/
theorem smp_first_hit_isEvidence (h : Hooks) (k : Kvm) (env : ℕ → CPUX86State) (es : List SmpEvent)
    (harmed : Along (recording (Smp.step h) (Smp.noteArmed h)) (Smp.ArmedAtReturnHit h)
      (.powerOn k env, false) es) :
    Along (Smp.step h) (Smp.FirstHitIsEvidence h) (.powerOn k env) es := by
  rw [← along_recording (Smp.noteArmed h) (.powerOn k env) false es]
  have hstart : Smp.EntryArmed h (.powerOn k env, false) := ⟨rfl, fun _ hfalse => nomatch hfalse⟩
  exact Along.imp (G := fun _ _ => True) (fun _ _ _ hs _ hstep => Smp.entryArmed_step hs hstep)
    (fun _ _ hs _ hret => Smp.firstHitIsEvidence hs hret) hstart
    (along_of_forall (E := fun _ => True) (fun _ _ => trivial) _) harmed

/-- The documented nginx build when QEMU has started, with all vCPUs at the return hook. -/
def nginxReturning : Smp := .powerOn nginxKvm fun _ => ⟨fun _ => 0, 0x1010da⟩

/-- The first hit is at the return hook, right after both hooks have been armed. -/
theorem nginx_first_hit_isEvidence :
    Along (Smp.step nginxHooks) (Smp.FirstHitIsEvidence nginxHooks) nginxReturning
      [.vmStateChange true .running [], .fetchInt3 0, .debugExit 0 ⟨0, 0⟩ []] := by
  refine smp_first_hit_isEvidence nginxHooks nginxKvm (fun _ => ⟨fun _ => 0, 0x1010da⟩) _
    ⟨?_, fun s hs => ⟨?_, fun s' hs' => ⟨?_, fun _ _ => trivial⟩⟩⟩
  · rintro - ⟨cs, tv, info, he, -⟩
    cases he
  · rintro - ⟨cs, tv, info, he, -⟩
    cases he
  · obtain rfl := Option.some.inj hs
    obtain rfl := Option.some.inj hs'
    exact fun _ _ => rfl

/-- Two histories in which a hit at the return hook stops the re-arming of an entry hook that is not
live: its byte has been overwritten, or the last attempt has failed after removing it. -/
theorem first_hit_not_isEvidence :
    ¬ ∃ es ∈ [
        [.vmStateChange true .running [],
          .overwrite (Function.update (fun _ => 0xfa) 0x1010da int3),
          .fetchInt3 0, .debugExit 0 ⟨0, 0⟩ []],
        [.vmStateChange true .running [], .timerExpiry [false, false, true],
          .fetchInt3 0, .debugExit 0 ⟨0, 0⟩ []]],
      Along (Smp.step nginxHooks) (Smp.FirstHitIsEvidence nginxHooks) nginxReturning es := by
  have hne : (0xfa : UInt8) ≠ int3 := by decide
  simp only [List.mem_cons, List.not_mem_nil, or_false]
  rintro ⟨es, rfl | rfl, hall⟩
  all_goals
    rcases (((hall.2 _ rfl).2 _ rfl).2 _ rfl).1 _ rfl rfl rfl with
      ⟨cs, tv, info, he, htrap, -, hpc, -⟩ | ⟨-, hbyte⟩
    · cases he
      obtain rfl := Option.some.inj htrap
      exact absurd hpc (by decide)
    · exact hne hbyte

end SyscallMonitor
