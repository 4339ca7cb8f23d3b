import SyscallMonitor.Kvm

/-!
# Arming the hooks

`vmi_arm_addr` removes a stale registration, inserts a fresh one and insists on reading back `0xcc`;
`vmi_arm_once` does this for every configured hook. `ArmAt` is the effect of an attempt on one
address, `Site.armed` what an undisturbed attempt leaves there.
-/

namespace SyscallMonitor

/-- `vmi_arm_addr`. -/
def vmiArmAddr (addr : UInt64) (k : Kvm) : Bool × Kvm :=
  let k := (kvmRemoveBreakpoint addr k).2
  match kvmInsertBreakpoint addr k with
  | (some _, k) => (false, k)
  | (none, k) =>
    match cpuMemoryRead addr k with
    | (none, k) => (false, (kvmRemoveBreakpoint addr k).2)
    | (some readback, k) =>
      if readback ≠ int3 then (false, (kvmRemoveBreakpoint addr k).2) else (true, k)

/-- `vmi_arm_once`. -/
def vmiArmOnce (h : Hooks) (k : Kvm) : Bool × Kvm :=
  match vmiArmAddr h.vmiAddr k with
  | (false, k) => (false, k)
  | (true, k) =>
    if h.vmiRetAddr ≠ 0 then
      match vmiArmAddr h.vmiRetAddr k with
      | (false, k) => (false, (kvmRemoveBreakpoint h.vmiAddr k).2)
      | (true, k) => (true, k)
    else (true, k)

/-- QEMU before the monitor has done anything, with memory that holds `cli` everywhere. -/
def nginxKvm : Kvm := ⟨fun _ => none, fun _ => 0xfa, fun _ => 0, []⟩

/-! ### One address -/

namespace Site

/-- The number of users of the breakpoint. -/
def useCount (s : Site) : ℕ := (s.bp.map KvmSwBreakpoint.useCount).getD 0

/-- The guest's own byte: the saved one where an `int3` of ours covers it. -/
def guestByte (s : Site) : UInt8 :=
  match s.bp with
  | some bp => if s.byte = int3 then bp.savedInsn else s.byte
  | none => s.byte

/-- The breakpoint is registered and in memory. -/
def Live (s : Site) : Prop := s.bp.isSome = true ∧ s.byte = int3

instance (s : Site) : Decidable s.Live := inferInstanceAs (Decidable (_ ∧ _))

/-- What an undisturbed attempt leaves: one reference, and `int3` over the guest's byte. -/
def armed (s : Site) : Site := ⟨some ⟨s.guestByte, 1⟩, int3⟩

@[simp] lemma useCount_armed (s : Site) : s.armed.useCount = 1 := rfl

lemma guestByte_of_eq (bp : KvmSwBreakpoint) :
    (⟨some bp, int3⟩ : Site).guestByte = bp.savedInsn := by
  simp [guestByte]

lemma guestByte_of_ne (bp : KvmSwBreakpoint) {b : UInt8} (hb : b ≠ int3) :
    (⟨some bp, b⟩ : Site).guestByte = b := by
  simp [guestByte, hb]

@[simp] lemma guestByte_armed (s : Site) : s.armed.guestByte = s.guestByte := guestByte_of_eq _

end Site

/-- The effect of one `vmi_arm_addr` on its address. -/
inductive ArmAt : Site → Bool → Site → Prop where
  | insertFails {s s₁ s₂ : Site} {err : Option Errno} {e : Errno} (hrem : RemoveAt s err s₁)
      (hins : InsertAt s₁ (some e) s₂) : ArmAt s false s₂
  | verified {s s₁ s₂ : Site} {err : Option Errno} (hrem : RemoveAt s err s₁)
      (hins : InsertAt s₁ none s₂) (hbyte : s₂.byte = int3) : ArmAt s true s₂
  | withdrawn {s s₁ s₂ s₃ : Site} {err err' : Option Errno} (hrem : RemoveAt s err s₁)
      (hins : InsertAt s₁ none s₂) (hrem' : RemoveAt s₂ err' s₃) : ArmAt s false s₃

lemma InsertAt.bp_isSome {s s' : Site} (h : InsertAt s none s') : s'.bp.isSome = true := by
  cases h <;> rfl

lemma ArmAt.live {s s' : Site} (h : ArmAt s true s') : s'.Live := by
  cases h with
  | verified _ hins hbyte => exact ⟨hins.bp_isSome, hbyte⟩

/-- The results of the calls of `kvm_remove_breakpoint` that `vmi_arm_addr` makes, which it
ignores: of the one it begins with, and of the one that withdraws an unverified insertion. -/
def vmiArmAddrRemovals (addr : UInt64) (k : Kvm) : List (Option Errno) :=
  let (err, k) := kvmRemoveBreakpoint addr k
  match kvmInsertBreakpoint addr k with
  | (some _, _) => [err]
  | (none, k) =>
    match cpuMemoryRead addr k with
    | (none, k) => [err, (kvmRemoveBreakpoint addr k).1]
    | (some readback, k) => if readback ≠ int3 then [err, (kvmRemoveBreakpoint addr k).1] else [err]

/-- `ArmAt`, with the results of the removals. -/
inductive ArmTrace : Site → List (Option Errno) → Bool → Site → Prop where
  | insertFails {s s₁ s₂ : Site} {err : Option Errno} {e : Errno} (hrem : RemoveAt s err s₁)
      (hins : InsertAt s₁ (some e) s₂) : ArmTrace s [err] false s₂
  | verified {s s₁ s₂ : Site} {err : Option Errno} (hrem : RemoveAt s err s₁)
      (hins : InsertAt s₁ none s₂) (hbyte : s₂.byte = int3) : ArmTrace s [err] true s₂
  | withdrawn {s s₁ s₂ s₃ : Site} {err err' : Option Errno} (hrem : RemoveAt s err s₁)
      (hins : InsertAt s₁ none s₂) (hrem' : RemoveAt s₂ err' s₃) : ArmTrace s [err, err'] false s₃

lemma ArmTrace.armAt {s s' : Site} {errs : List (Option Errno)} {ok : Bool}
    (h : ArmTrace s errs ok s') : ArmAt s ok s' := by
  cases h with
  | insertFails hrem hins => exact .insertFails hrem hins
  | verified hrem hins hbyte => exact .verified hrem hins hbyte
  | withdrawn hrem hins hrem' => exact .withdrawn hrem hins hrem'

/-- `vmi_arm_addr` changes its own address only, in one of the ways of `ArmTrace`. -/
theorem vmiArmAddr_trace (a : UInt64) (k : Kvm) :
    ∃ ok s f, ArmTrace (k.site a) (vmiArmAddrRemovals a k) ok s ∧
      vmiArmAddr a k = (ok, k.setSite a s f) := by
  obtain ⟨err, s₁, f₁, hrem, heq₁, -⟩ := kvmRemoveBreakpoint_spec a k
  obtain ⟨err', s₂, f₂, hins, heq₂, -⟩ := kvmInsertBreakpoint_spec a (k.setSite a s₁ f₁)
  rw [Kvm.site_setSite_self] at hins
  rw [Kvm.setSite_setSite] at heq₂
  rw [vmiArmAddr, vmiArmAddrRemovals]
  simp only [heq₁, heq₂]
  cases err' with
  | some e => exact ⟨false, s₂, f₂, .insertFails hrem hins, rfl⟩
  | none =>
    obtain ⟨r, f₃, hr, heq₃, -⟩ := cpuMemoryRead_spec a (k.setSite a s₂ f₂)
    obtain ⟨err₄, s₄, f₄, hrem', heq₄, -⟩ := kvmRemoveBreakpoint_spec a (k.setSite a s₂ f₃)
    rw [Kvm.site_setSite_self] at hrem'
    rw [Kvm.setSite_setSite] at heq₄
    have hread : cpuMemoryRead a (k.setSite a s₂ f₂) = (r, k.setSite a s₂ f₃) := heq₃
    have hbyte : (k.setSite a s₂ f₂).mem a = s₂.byte := Function.update_self ..
    simp only [hread]
    rcases hr with rfl | rfl
    · simp only [heq₄]
      exact ⟨false, s₄, f₄, .withdrawn hrem hins hrem', rfl⟩
    · simp only [hbyte]
      split_ifs with hcc
      · rw [heq₄]
        exact ⟨false, s₄, f₄, .withdrawn hrem hins hrem', rfl⟩
      · exact ⟨true, s₂, f₃, .verified hrem hins (not_not.mp hcc), rfl⟩

/-- `vmi_arm_addr` changes its own address only, in one of the ways of `ArmAt`. -/
theorem vmiArmAddr_spec (a : UInt64) (k : Kvm) :
    ∃ ok s f, ArmAt (k.site a) ok s ∧ vmiArmAddr a k = (ok, k.setSite a s f) := by
  obtain ⟨ok, s, f, htrace, heq⟩ := vmiArmAddr_trace a k
  exact ⟨ok, s, f, htrace.armAt, heq⟩

/-- Removing the last reference leaves the guest's own byte. -/
lemma RemoveAt.eq_of_useCount_le {s s' : Site} {err : Option Errno} (h : RemoveAt s err s')
    (hcount : s.useCount ≤ 1) (herr : err ≠ some .einval) : s' = ⟨none, s.guestByte⟩ := by
  cases h with
  | unknown b => rfl
  | shared bp b hshared => exact absurd hshared (Nat.not_lt.mpr hcount)
  | fault bp b _ => exact absurd rfl herr
  | overwritten bp b _ hb => rw [Site.guestByte_of_ne bp hb]
  | restore bp _ => rw [Site.guestByte_of_eq]

/-- A planted breakpoint with one user goes, and the guest's byte is back. -/
lemma RemoveAt.of_planted {g : UInt8} {s : Site} {err : Option Errno}
    (h : RemoveAt ⟨some ⟨g, 1⟩, int3⟩ err s) (herr : err ≠ some .einval) :
    err = none ∧ s = ⟨none, g⟩ := by
  cases h with
  | shared _ _ hcount => exact absurd hcount (Nat.lt_irrefl 1)
  | fault _ _ _ => exact absurd rfl herr
  | overwritten _ _ _ hb => exact absurd rfl hb
  | restore _ _ => exact ⟨rfl, rfl⟩

/-- Where nothing is registered, an insertion that does not fail plants the `int3`. -/
lemma InsertAt.of_free {b : UInt8} {s : Site} (h : InsertAt ⟨none, b⟩ none s) :
    s = ⟨some ⟨b, 1⟩, int3⟩ := by
  cases h with
  | patch => rfl

/-- If no access fails and nobody else uses the address, the attempt succeeds. -/
theorem vmiArmAddr_clean {a : UInt64} {k : Kvm} (hf : k.faults = [])
    (hcount : (k.site a).useCount ≤ 1) :
    vmiArmAddr a k = (true, k.setSite a (k.site a).armed []) := by
  obtain ⟨err, s₁, f₁, hrem, heq₁, hclean₁⟩ := kvmRemoveBreakpoint_spec a k
  obtain ⟨herr, rfl⟩ := hclean₁ hf
  obtain rfl := hrem.eq_of_useCount_le hcount herr
  obtain ⟨err', s₂, f₂, hins, heq₂, hclean₂⟩ :=
    kvmInsertBreakpoint_spec a (k.setSite a ⟨none, (k.site a).guestByte⟩ [])
  obtain ⟨rfl, rfl⟩ := hclean₂ rfl
  rw [Kvm.site_setSite_self] at hins
  rw [Kvm.setSite_setSite] at heq₂
  obtain rfl : s₂ = (k.site a).armed := hins.of_free
  obtain ⟨r, f₃, -, heq₃, hclean₃⟩ := cpuMemoryRead_spec a (k.setSite a (k.site a).armed [])
  obtain ⟨rfl, rfl⟩ := hclean₃ rfl
  have hread : cpuMemoryRead a (k.setSite a (k.site a).armed [])
      = (some int3, k.setSite a (k.site a).armed []) := by
    rw [heq₃]
    congr 2
    exact Function.update_self ..
  rw [vmiArmAddr]
  simp only [heq₁, heq₂, hread, ne_eq, not_true_eq_false, ↓reduceIte]

/-! ### All hooks -/

/-- The addresses other than the hooks, and single-stepping, are as before. -/
structure Kvm.SameElsewhere (h : Hooks) (k k' : Kvm) : Prop where
  site : ∀ a, ¬ h.IsHook a → k'.site a = k.site a
  singlestepEnabled : k'.singlestepEnabled = k.singlestepEnabled

namespace Kvm.SameElsewhere

variable {h : Hooks} {k k' k'' : Kvm}

lemma refl (k : Kvm) : SameElsewhere h k k := ⟨fun _ _ => rfl, rfl⟩

lemma trans (h₁ : SameElsewhere h k k') (h₂ : SameElsewhere h k' k'') : SameElsewhere h k k'' :=
  ⟨fun a ha => (h₂.site a ha).trans (h₁.site a ha),
    h₂.singlestepEnabled.trans h₁.singlestepEnabled⟩

lemma setSite (k : Kvm) {a : UInt64} (ha : h.IsHook a) (s : Site) (f : List Bool) :
    SameElsewhere h k (k.setSite a s f) := by
  refine ⟨fun b hb => ?_, rfl⟩
  apply Kvm.site_setSite_of_ne k a s f
  rintro rfl
  exact hb ha

end Kvm.SameElsewhere

/-- After a successful attempt every hook is registered and in memory. -/
theorem vmiArmOnce_live {h : Hooks} {k k' : Kvm} (harm : vmiArmOnce h k = (true, k')) {a : UInt64}
    (ha : h.IsHook a) : (k'.site a).Live := by
  obtain ⟨ok, s, f, hat, heq⟩ := vmiArmAddr_spec h.vmiAddr k
  rw [vmiArmOnce, heq] at harm
  cases ok with
  | false => cases harm
  | true =>
    by_cases hret : h.vmiRetAddr = 0
    · simp only [hret, ne_eq, not_true_eq_false, ↓reduceIte, Prod.mk.injEq, true_and] at harm
      subst harm
      rcases ha with rfl | ⟨hne, -⟩
      · rw [Kvm.site_setSite_self]
        exact hat.live
      · exact absurd hret hne
    · obtain ⟨ok', s', f', hat', heq'⟩ := vmiArmAddr_spec h.vmiRetAddr (k.setSite h.vmiAddr s f)
      simp only [hret, ne_eq, not_false_eq_true, ↓reduceIte, heq'] at harm
      cases ok' with
      | false => cases harm
      | true =>
        obtain rfl := (Prod.mk.inj harm).2
        rcases ha with rfl | ⟨-, rfl⟩
        · rw [Kvm.site_setSite_of_ne _ _ _ _ h.ret_ne_addr.symm, Kvm.site_setSite_self]
          exact hat.live
        · rw [Kvm.site_setSite_self]
          exact hat'.live

/-- An attempt touches nothing but the hooks. -/
theorem vmiArmOnce_sameElsewhere (h : Hooks) (k : Kvm) :
    Kvm.SameElsewhere h k (vmiArmOnce h k).2 := by
  obtain ⟨ok, s, f, -, heq⟩ := vmiArmAddr_spec h.vmiAddr k
  have hfirst := Kvm.SameElsewhere.setSite k h.isHook_addr s f
  rw [vmiArmOnce, heq]
  cases ok with
  | false => exact hfirst
  | true =>
    by_cases hret : h.vmiRetAddr = 0
    · simpa only [hret, ne_eq, not_true_eq_false, ↓reduceIte] using hfirst
    · obtain ⟨ok', s', f', -, heq'⟩ := vmiArmAddr_spec h.vmiRetAddr (k.setSite h.vmiAddr s f)
      have hsecond := hfirst.trans (Kvm.SameElsewhere.setSite _ (Or.inr ⟨hret, rfl⟩) s' f')
      simp only [hret, ne_eq, not_false_eq_true, ↓reduceIte, heq']
      cases ok' with
      | true => exact hsecond
      | false =>
        obtain ⟨err, s'', f'', -, heq'', -⟩ := kvmRemoveBreakpoint_spec h.vmiAddr
          ((k.setSite h.vmiAddr s f).setSite h.vmiRetAddr s' f')
        simp only [heq'']
        exact hsecond.trans (Kvm.SameElsewhere.setSite _ h.isHook_addr s'' f'')

/-- If no access fails and nobody else uses the hooks, `vmi_arm_once` succeeds and leaves every hook
with one reference and its `int3` in memory. -/
theorem vmiArmOnce_clean {h : Hooks} {k : Kvm} (hf : k.faults = [])
    (hcount : ∀ a, h.IsHook a → (k.site a).useCount ≤ 1) :
    ∃ k', vmiArmOnce h k = (true, k') ∧ k'.faults = [] ∧
      ∀ a, h.IsHook a → k'.site a = (k.site a).armed := by
  have hfirst := vmiArmAddr_clean hf (hcount _ h.isHook_addr)
  by_cases hret : h.vmiRetAddr = 0
  · refine ⟨k.setSite h.vmiAddr (k.site h.vmiAddr).armed [], ?_, rfl, ?_⟩
    · simp only [vmiArmOnce, hfirst, hret, ne_eq, not_true_eq_false, ↓reduceIte]
    · rintro a (rfl | ⟨hne, -⟩)
      · exact Kvm.site_setSite_self ..
      · exact absurd hret hne
  · have hother : ∀ s f, (k.setSite h.vmiAddr s f).site h.vmiRetAddr = k.site h.vmiRetAddr :=
      fun s f => Kvm.site_setSite_of_ne k _ s f h.ret_ne_addr
    have hsecond := vmiArmAddr_clean (a := h.vmiRetAddr)
      (k := k.setSite h.vmiAddr (k.site h.vmiAddr).armed []) rfl
      (by rw [hother]; exact hcount _ (Or.inr ⟨hret, rfl⟩))
    rw [hother] at hsecond
    refine ⟨(k.setSite h.vmiAddr (k.site h.vmiAddr).armed []).setSite h.vmiRetAddr
      (k.site h.vmiRetAddr).armed [], ?_, rfl, ?_⟩
    · simp only [vmiArmOnce, hfirst, hret, ne_eq, not_false_eq_true, ↓reduceIte, hsecond]
    · rintro a (rfl | ⟨-, rfl⟩)
      · rw [Kvm.site_setSite_of_ne _ _ _ _ h.ret_ne_addr.symm, Kvm.site_setSite_self]
      · exact Kvm.site_setSite_self ..

end SyscallMonitor
