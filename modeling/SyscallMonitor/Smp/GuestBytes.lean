import SyscallMonitor.Smp.System

/-!
# The guest's bytes

Any memory access of the monitor may fail, at any time, and the guest and others may write memory in
between. The byte that an address holds for the guest is all the same the last one that the guest or
somebody else has put there: an `int3` of the monitor covers it, and its breakpoint keeps it.
-/

namespace SyscallMonitor

open Lib Monitor

/-! ### One address -/

lemma RemoveAt.guestByte {s s' : Site} {err : Option Errno} (hrem : RemoveAt s err s') :
    s'.guestByte = s.guestByte := by
  cases hrem with
  | unknown b => rfl
  | shared bp b _ => rfl
  | fault bp b _ => rfl
  | overwritten bp b _ hb =>
    rw [Site.guestByte_of_ne bp hb]
    rfl
  | restore bp _ =>
    rw [Site.guestByte_of_eq]
    rfl

lemma InsertAt.guestByte {s s' : Site} {err : Option Errno} (hins : InsertAt s err s') :
    s'.guestByte = s.guestByte := by
  cases hins with
  | again bp b => rfl
  | patch b => exact Site.guestByte_of_eq _
  | fault b => rfl

lemma ArmAt.guestByte {s s' : Site} {ok : Bool} (harm : ArmAt s ok s') :
    s'.guestByte = s.guestByte := by
  cases harm with
  | insertFails hrem hins => rw [hins.guestByte, hrem.guestByte]
  | verified hrem hins _ => rw [hins.guestByte, hrem.guestByte]
  | withdrawn hrem hins hrem' => rw [hrem'.guestByte, hins.guestByte, hrem.guestByte]

lemma Site.guestByte_of_ne_int3 {s : Site} (hs : s.byte ≠ int3) : s.guestByte = s.byte := by
  obtain ⟨bp, b⟩ := s
  cases bp with
  | none => rfl
  | some bp => exact guestByte_of_ne bp hs

/-! ### The handlers -/

/-- The guest finds the same bytes as before; away from the hooks nothing has changed at all. -/
structure Kvm.SameGuest (h : Hooks) (k k' : Kvm) : Prop where
  guestByte : ∀ a, (k'.site a).guestByte = (k.site a).guestByte
  elsewhere : ∀ a, ¬ h.IsHook a → k'.site a = k.site a

namespace Kvm.SameGuest

variable {h : Hooks} {k k' k'' : Kvm}

lemma refl (k : Kvm) : SameGuest h k k := ⟨fun _ => rfl, fun _ _ => rfl⟩

lemma trans (h₁ : SameGuest h k k') (h₂ : SameGuest h k' k'') : SameGuest h k k'' :=
  ⟨fun a => (h₂.guestByte a).trans (h₁.guestByte a),
    fun a ha => (h₂.elsewhere a ha).trans (h₁.elsewhere a ha)⟩

lemma setSite (k : Kvm) {a : UInt64} (ha : h.IsHook a) {s : Site}
    (hs : s.guestByte = (k.site a).guestByte) (f : List Bool) :
    SameGuest h k (k.setSite a s f) := by
  constructor
  · intro b
    rw [Kvm.site_setSite]
    split_ifs with hba
    · rw [hs, hba]
    · rfl
  · intro b hb
    apply Kvm.site_setSite_of_ne
    rintro rfl
    exact hb ha

end Kvm.SameGuest

theorem vmiArmOnce_sameGuest (h : Hooks) (k : Kvm) : Kvm.SameGuest h k (vmiArmOnce h k).2 := by
  obtain ⟨ok, s, f, hat, heq⟩ := vmiArmAddr_spec h.vmiAddr k
  have hfirst := Kvm.SameGuest.setSite k h.isHook_addr hat.guestByte f
  rw [vmiArmOnce, heq]
  cases ok with
  | false => exact hfirst
  | true =>
    by_cases hret : h.vmiRetAddr = 0
    · simpa only [hret, ne_eq, not_true_eq_false, ↓reduceIte] using hfirst
    · obtain ⟨ok', s', f', hat', heq'⟩ := vmiArmAddr_spec h.vmiRetAddr (k.setSite h.vmiAddr s f)
      have hsecond := hfirst.trans (Kvm.SameGuest.setSite _ (Or.inr ⟨hret, rfl⟩) hat'.guestByte f')
      simp only [hret, ne_eq, not_false_eq_true, ↓reduceIte, heq']
      cases ok' with
      | true => exact hsecond
      | false =>
        -- the entry hook is withdrawn
        obtain ⟨err, s'', f'', hrem, heq'', -⟩ := kvmRemoveBreakpoint_spec h.vmiAddr
          ((k.setSite h.vmiAddr s f).setSite h.vmiRetAddr s' f')
        simp only [heq'']
        exact hsecond.trans (Kvm.SameGuest.setSite _ h.isHook_addr hrem.guestByte f'')

/-! ### Runs -/

namespace Smp

variable {h : Hooks}

/-- The bytes that the guest or somebody else has put into memory, where they differ from what was
there. -/
def noteMem (s : Smp) (e : SmpEvent) (_ : Smp) (orig : UInt64 → UInt8) (a : UInt64) : UInt8 :=
  match e.mem with
  | none => orig a
  | some mem => if mem a = s.vmi.kvm.mem a then orig a else mem a

/-- Nobody but the monitor writes an `int3` to a hook. -/
def WritesNoInt3 (h : Hooks) (s : Smp) (e : SmpEvent) : Prop :=
  ∀ mem ∈ e.mem, ∀ a, h.IsHook a → mem a ≠ s.vmi.kvm.mem a → mem a ≠ int3

/-- The invariant of all runs; `s.2` are the guest's bytes. -/
structure GuestBytes (h : Hooks) (k : Kvm) (s : Smp × (UInt64 → UInt8)) : Prop where
  enabled : s.1.vmi.vmiEnabled = true
  hooks : ∀ a, h.IsHook a → (s.1.vmi.kvm.site a).guestByte = s.2 a
  elsewhere : ∀ a, ¬ h.IsHook a → s.1.vmi.kvm.site a = ⟨k.swBreakpoints a, s.2 a⟩
  stepAddr : ∀ cs, s.1.vmi.vmiStateTable cs = .stepping → h.IsHook (s.1.vmi.vmiStepAddrTable cs)
  single : ∀ cs, s.1.vmi.kvm.singlestepEnabled cs ≠ 0 ↔ s.1.vmi.vmiStateTable cs = .stepping

namespace GuestBytes

variable {k : Kvm} {s : Smp × (UInt64 → UInt8)} {e : SmpEvent}

lemma powerOn {env : ℕ → CPUX86State} (hbp : ∀ a, h.IsHook a → k.swBreakpoints a = none)
    (hsingle : ∀ cs, k.singlestepEnabled cs = 0) : GuestBytes h k (.powerOn k env, k.mem) := by
  refine ⟨rfl, ?_, fun a _ => rfl, nofun, fun cs => ?_⟩
  · intro a ha
    have hsite : k.site a = ⟨none, k.mem a⟩ := by rw [Kvm.site, hbp a ha]
    exact congrArg Site.guestByte hsite
  · simp [Smp.powerOn, Monitor.init, hsingle cs]

/-- The bytes that the event itself writes are the guest's. -/
lemma hooks_entering (hs : GuestBytes h k s) (hint3 : s.1.WritesNoInt3 h e) (s' : Smp)
    {a : UInt64} (ha : h.IsHook a) :
    ((s.1.entering e).kvm.site a).guestByte = noteMem s.1 e s' s.2 a := by
  rw [noteMem]
  cases hmem : e.mem with
  | none =>
    simp only [entering, hmem, Option.getD_none]
    exact hs.hooks a ha
  | some mem =>
    have hsite : (s.1.entering e).kvm.site a = ⟨s.1.vmi.kvm.swBreakpoints a, mem a⟩ := by
      simp [entering, hmem, Kvm.site]
    rw [hsite]
    dsimp only
    split_ifs with hsame
    · rw [hsame]
      exact hs.hooks a ha
    · exact Site.guestByte_of_ne_int3 (hint3 mem hmem a ha hsame)

lemma elsewhere_entering (hs : GuestBytes h k s) (s' : Smp) {a : UInt64} (ha : ¬ h.IsHook a) :
    (s.1.entering e).kvm.site a = ⟨k.swBreakpoints a, noteMem s.1 e s' s.2 a⟩ := by
  have hsite := hs.elsewhere a ha
  have hbp : s.1.vmi.kvm.swBreakpoints a = k.swBreakpoints a := congrArg Site.bp hsite
  have hbyte : s.1.vmi.kvm.mem a = s.2 a := congrArg Site.byte hsite
  rw [noteMem]
  cases hmem : e.mem with
  | none => simp [entering, hmem, Kvm.site, hbp, hbyte]
  | some mem =>
    simp only [entering, hmem, Option.getD_some, Kvm.site, hbp, Site.mk.injEq, true_and]
    split_ifs with hsame
    · rw [hsame, hbyte]
    · rfl

/-- What a handler has to keep. -/
lemma of_sameGuest (hs : GuestBytes h k s) (hint3 : s.1.WritesNoInt3 h e) {s' : Smp}
    (hen : s'.vmi.vmiEnabled = true)
    (hguest : Kvm.SameGuest h (s.1.entering e).kvm s'.vmi.kvm)
    (haddr : ∀ cs, s'.vmi.vmiStateTable cs = .stepping → h.IsHook (s'.vmi.vmiStepAddrTable cs))
    (hsingle : ∀ cs, s'.vmi.kvm.singlestepEnabled cs ≠ 0 ↔ s'.vmi.vmiStateTable cs = .stepping) :
    GuestBytes h k (s', noteMem s.1 e s' s.2) := by
  refine ⟨hen, ?_, ?_, haddr, hsingle⟩
  · intro a ha
    rw [hguest.guestByte a]
    exact hs.hooks_entering hint3 s' ha
  · intro a ha
    rw [hguest.elsewhere a ha]
    exact hs.elsewhere_entering s' ha

/-- The flag of one vCPU and its state change together. -/
lemma single_update (hs : GuestBytes h k s) {k' : Kvm}
    (hk : k'.singlestepEnabled = s.1.vmi.kvm.singlestepEnabled) {cs enabled : ℕ} {st : VmiState}
    (hst : enabled ≠ 0 ↔ st = .stepping) (cs' : ℕ) :
    (cpuSingleStep cs enabled k').singlestepEnabled cs' ≠ 0
      ↔ Function.update s.1.vmi.vmiStateTable cs st cs' = .stepping := by
  by_cases hcs : cs' = cs
  · subst hcs
    simpa [cpuSingleStep] using hst
  · simpa [cpuSingleStep, hcs, hk] using hs.single cs'

/-- An attempt to arm writes to the hooks alone, and steps nobody. -/
lemma arming (hs : GuestBytes h k s) (hint3 : s.1.WritesNoInt3 h e) {s' : Smp}
    (hen : s'.vmi.vmiEnabled = true) (harm : ArmingStep h (s.1.entering e) s'.vmi) :
    GuestBytes h k (s', noteMem s.1 e s' s.2) := by
  have hsame := harm.sameSteps
  have hguest : Kvm.SameGuest h (s.1.entering e).kvm s'.vmi.kvm := by
    cases harm with
    | idle hkvm _ _ _ =>
      rw [hkvm]
      exact .refl _
    | attempt _ _ _ hkvm _ _ =>
      rw [hkvm]
      exact vmiArmOnce_sameGuest h _
  have hsingle : s'.vmi.kvm.singlestepEnabled = s.1.vmi.kvm.singlestepEnabled := by
    cases harm with
    | idle hkvm _ _ _ => rw [hkvm, entering]
    | attempt _ _ _ hkvm _ _ =>
      rw [hkvm, (vmiArmOnce_sameElsewhere h _).singlestepEnabled, entering]
  refine hs.of_sameGuest hint3 hen hguest ?_ ?_
  · rw [hsame.vmiStateTable, hsame.vmiStepAddrTable]
    exact hs.stepAddr
  · rw [hsame.vmiStateTable, hsingle]
    exact hs.single

/-- A hit writes to the hook alone; where it is handled, the vCPU steps over the hook. -/
lemma breakpointHit (hs : GuestBytes h k s) (hint3 : s.1.WritesNoInt3 h e) {s' : Smp}
    (hen : s'.vmi.vmiEnabled = true) {cs : ℕ} {env : CPUX86State} {tv : Timeval} {pc : UInt64}
    (hpc : h.IsHook pc) (heq : s'.vmi = vmiMonitorBreakpointHit h cs env tv pc (s.1.entering e)) :
    GuestBytes h k (s', noteMem s.1 e s' s.2) := by
  obtain ⟨err, site, f, hrem, -, hnone, hsome⟩ :=
    vmiMonitorBreakpointHit_spec h cs env tv pc (s.1.entering e)
  have hguest := Kvm.SameGuest.setSite (s.1.entering e).kvm hpc hrem.guestByte f
  by_cases herr : err = none
  · rw [hnone herr] at heq
    refine hs.of_sameGuest hint3 hen ?_ ?_ ?_
    · rw [heq]
      exact ⟨hguest.guestByte, hguest.elsewhere⟩
    · intro cs' hcs'
      rw [heq] at hcs' ⊢
      by_cases hcs : cs' = cs
      · subst hcs
        simpa using hpc
      · simp only [Function.update_of_ne hcs] at hcs' ⊢
        exact hs.stepAddr cs' hcs'
    · rw [heq]
      apply hs.single_update rfl
      simp
  · rw [hsome herr] at heq
    refine hs.of_sameGuest hint3 hen ?_ ?_ ?_
    · rw [heq]
      exact hguest
    · rw [heq]
      exact hs.stepAddr
    · rw [heq]
      exact hs.single

lemma stepComplete (hs : GuestBytes h k s) (hint3 : s.1.WritesNoInt3 h e) {s' : Smp}
    (hen : s'.vmi.vmiEnabled = true) {cs : ℕ} (hstepping : s.1.vmi.vmiStateTable cs = .stepping)
    (heq : s'.vmi = vmiMonitorStepComplete cs (s.1.entering e)) :
    GuestBytes h k (s', noteMem s.1 e s' s.2) := by
  obtain ⟨err, site, f, hins, -, hv⟩ := vmiMonitorStepComplete_spec cs (s.1.entering e)
  rw [hv] at heq
  have hguest := Kvm.SameGuest.setSite (cpuSingleStep cs 0 (s.1.entering e).kvm)
    (hs.stepAddr cs hstepping) hins.guestByte f
  refine hs.of_sameGuest hint3 hen ?_ ?_ ?_
  · rw [heq]
    exact ⟨hguest.guestByte, hguest.elsewhere⟩
  · intro cs' hcs'
    rw [heq] at hcs' ⊢
    by_cases hcs : cs' = cs
    · subst hcs
      simp at hcs'
    · simp only [Function.update_of_ne hcs] at hcs'
      exact hs.stepAddr cs' hcs'
  · rw [heq]
    apply hs.single_update rfl
    simp

/-- Every step keeps the guest's bytes. -/
theorem step (s : Smp × (UInt64 → UInt8)) (e : SmpEvent) (s' : Smp × (UInt64 → UInt8))
    (hs : GuestBytes h k s) (hint3 : s.1.WritesNoInt3 h e)
    (hstep : recording (Smp.step h) noteMem s e = some s') : GuestBytes h k s' := by
  obtain ⟨t, ht, rfl⟩ := Option.map_eq_some_iff.mp hstep
  have hvmi := step_vmi hs.enabled ht
  have hen := hvmi.vmiEnabled.trans hs.enabled
  cases hvmi with
  | idle f heq =>
    refine hs.of_sameGuest hint3 hen ?_ ?_ ?_
    · rw [heq]
      exact ⟨fun _ => rfl, fun _ _ => rfl⟩
    · rw [heq]
      exact hs.stepAddr
    · rw [heq]
      exact hs.single
  | arming harm => exact hs.arming hint3 hen harm
  | hit cs tv info _ _ _ _ hpc _ heq => exact hs.breakpointHit hint3 hen hpc heq
  | complete cs hstepping heq => exact hs.stepComplete hint3 hen hstepping heq

/-- The byte is in memory, or under an `int3` of the monitor. -/
lemma byte_cases (hs : GuestBytes h k s) {a : UInt64} (ha : h.IsHook a) :
    match s.1.vmi.kvm.swBreakpoints a with
    | none => s.1.vmi.kvm.mem a = s.2 a
    | some bp => s.1.vmi.kvm.mem a = s.2 a ∨ s.1.vmi.kvm.mem a = int3 ∧ bp.savedInsn = s.2 a := by
  have hbyte := hs.hooks a ha
  rw [Kvm.site] at hbyte
  cases hbp : s.1.vmi.kvm.swBreakpoints a with
  | none =>
    rw [hbp] at hbyte
    exact hbyte
  | some bp =>
    rw [hbp] at hbyte
    by_cases hint3 : s.1.vmi.kvm.mem a = int3
    · rw [hint3, Site.guestByte_of_eq] at hbyte
      exact Or.inr ⟨hint3, hbyte⟩
    · rw [Site.guestByte_of_ne bp hint3] at hbyte
      exact Or.inl hbyte

end GuestBytes

end Smp

/-- **The guest's bytes.** In every run, whichever accesses fail and whatever interleaves, as long
as nobody but the monitor writes an `int3` to a hook: where a hook is not registered, memory holds
the last byte that the guest or somebody else has put there; where it is registered, memory holds
that byte, or the `int3` of a breakpoint that keeps it. Away from the hooks the monitor changes
neither memory nor registry, and a vCPU single-steps exactly while it is `VMI_STEPPING`, over a
hook. -/
theorem smp_guestBytes (h : Hooks) (k : Kvm) (env : ℕ → CPUX86State) (es : List SmpEvent) (s : Smp)
    (orig : UInt64 → UInt8) (hbp : ∀ a, h.IsHook a → k.swBreakpoints a = none)
    (hsingle : ∀ cs, k.singlestepEnabled cs = 0)
    (hint3 : Along (Smp.step h) (Smp.WritesNoInt3 h) (.powerOn k env) es)
    (hrun : run (recording (Smp.step h) Smp.noteMem) (.powerOn k env, k.mem) es = some (s, orig)) :
    (∀ a, h.IsHook a →
      match s.vmi.kvm.swBreakpoints a with
      | none => s.vmi.kvm.mem a = orig a
      | some bp => s.vmi.kvm.mem a = orig a ∨ s.vmi.kvm.mem a = int3 ∧ bp.savedInsn = orig a) ∧
    (∀ a, ¬ h.IsHook a →
      s.vmi.kvm.mem a = orig a ∧ s.vmi.kvm.swBreakpoints a = k.swBreakpoints a) ∧
    (∀ cs, s.vmi.kvm.singlestepEnabled cs ≠ 0 ↔ s.vmi.vmiStateTable cs = .stepping) ∧
    ∀ cs, s.vmi.vmiStateTable cs = .stepping → h.IsHook (s.vmi.vmiStepAddrTable cs) := by
  have hs := ((along_recording Smp.noteMem (.powerOn k env) k.mem es).mpr hint3).run_invariant
    Smp.GuestBytes.step (Smp.GuestBytes.powerOn hbp hsingle) hrun
  refine ⟨fun a ha => hs.byte_cases ha, fun a ha => ?_, hs.single, hs.stepAddr⟩
  have hsite := hs.elsewhere a ha
  exact ⟨congrArg Site.byte hsite, congrArg Site.bp hsite⟩

/-- `smp_guestBytes` where the entry hook is overwritten while a hit is pending, and the handler
steps over it. -/
theorem nginx_smp_guestBytes :
    ∃ s orig, run (recording (Smp.step nginxHooks) Smp.noteMem) (nginxPowerOn, nginxKvm.mem)
        [.vmStateChange true .running [], .fetchInt3 0,
          .overwrite (Function.update (fun _ => 0xfa) 0x101000 0x90), .debugExit 0 ⟨0, 0⟩ []]
          = some (s, orig) ∧
      s.vmi.vmiStateTable 0 = .stepping ∧ s.vmi.kvm.singlestepEnabled 0 ≠ 0 ∧
      nginxHooks.IsHook (s.vmi.vmiStepAddrTable 0) := by
  have hint3 : Along (Smp.step nginxHooks) (Smp.WritesNoInt3 nginxHooks) nginxPowerOn
      [.vmStateChange true .running [], .fetchInt3 0,
        .overwrite (Function.update (fun _ => 0xfa) 0x101000 0x90), .debugExit 0 ⟨0, 0⟩ []] := by
    refine ⟨nofun, fun _ _ => ⟨nofun, fun _ _ => ⟨?_, fun _ _ => ⟨nofun, fun _ _ => trivial⟩⟩⟩⟩
    intro mem hmem a _ _
    obtain rfl := Option.some.inj hmem
    by_cases ha : a = 0x101000
    · rw [ha, Function.update_self]
      decide
    · rw [Function.update_of_ne ha]
      decide
  obtain ⟨-, -, hsingle, haddr⟩ := smp_guestBytes nginxHooks nginxKvm _ _ _ _ (fun _ _ => rfl)
    (fun _ => rfl) hint3 rfl
  exact ⟨_, _, rfl, rfl, (hsingle 0).mpr rfl, haddr 0 rfl⟩

end SyscallMonitor
