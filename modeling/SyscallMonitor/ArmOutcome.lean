import SyscallMonitor.Arm

/-!
# What an attempt leaves behind

`vmi_arm_once` ignores the results of its removals. Whether a successful attempt leaves every hook
with one reference, and whether a failed one leaves no hook behind, depends on these results.
-/

namespace SyscallMonitor

/-- The results of the removals that `vmi_arm_once` makes. -/
def vmiArmOnceRemovals (h : Hooks) (k : Kvm) : List (Option Errno) :=
  let errs := vmiArmAddrRemovals h.vmiAddr k
  match vmiArmAddr h.vmiAddr k with
  | (false, _) => errs
  | (true, k) =>
    if h.vmiRetAddr ≠ 0 then
      let errs := errs ++ vmiArmAddrRemovals h.vmiRetAddr k
      match vmiArmAddr h.vmiRetAddr k with
      | (false, k) => errs ++ [(kvmRemoveBreakpoint h.vmiAddr k).1]
      | (true, _) => errs
    else errs

/-- No removal has failed for a memory access. -/
def NoFault (errs : List (Option Errno)) : Prop := ∀ err ∈ errs, err ≠ some .einval

instance (errs : List (Option Errno)) : Decidable (NoFault errs) :=
  inferInstanceAs (Decidable (∀ err ∈ errs, _))

@[simp] lemma noFault_nil : NoFault [] := List.forall_mem_nil _

@[simp] lemma noFault_cons {err : Option Errno} {errs : List (Option Errno)} :
    NoFault (err :: errs) ↔ err ≠ some .einval ∧ NoFault errs :=
  List.forall_mem_cons

@[simp] lemma noFault_append {errs errs' : List (Option Errno)} :
    NoFault (errs ++ errs') ↔ NoFault errs ∧ NoFault errs' :=
  List.forall_mem_append

/-! ### One address -/

/-- A registered breakpoint has a user. -/
def Site.Counted (s : Site) : Prop := ∀ bp ∈ s.bp, 0 < bp.useCount

namespace RemoveAt

variable {s s' : Site} {err : Option Errno}

lemma counted (h : RemoveAt s err s') (hs : s.Counted) : s'.Counted := by
  cases h with
  | unknown b => exact hs
  | shared bp b hcount =>
    rintro bp' ⟨⟩
    exact Nat.sub_pos_of_lt hcount
  | fault bp b _ => exact hs
  | overwritten bp b _ _ => rintro bp' ⟨⟩
  | restore bp _ => rintro bp' ⟨⟩

/-- A removal that fails for a memory access changes nothing. -/
lemma eq_of_einval (h : RemoveAt s (some .einval) s') :
    s' = s ∧ ∃ bp, s.bp = some bp ∧ ¬ bp.useCount > 1 := by
  cases h with
  | fault bp b hcount => exact ⟨rfl, bp, rfl, hcount⟩

/-- What is known of a removal after which the address is not registered. -/
lemma of_none {b : UInt8} (h : RemoveAt s err ⟨none, b⟩) :
    s.useCount ≤ 1 ∧ err ≠ some .einval ∧ b = s.guestByte := by
  cases h with
  | unknown => exact ⟨Nat.zero_le 1, by simp, rfl⟩
  | overwritten bp _ hcount hb =>
    exact ⟨Nat.not_lt.mp hcount, by simp, (Site.guestByte_of_ne bp hb).symm⟩
  | restore bp hcount => exact ⟨Nat.not_lt.mp hcount, by simp, (Site.guestByte_of_eq bp).symm⟩

/-- A removal leaves the address registered if somebody else uses it. -/
lemma registered (h : RemoveAt s err s') (hcount : 1 < s.useCount) : s'.bp ≠ none := by
  cases h with
  | unknown b => cases hcount
  | shared bp b _ => simp
  | fault bp b hone => exact absurd hcount hone
  | overwritten bp b hone _ => exact absurd hcount hone
  | restore bp hone => exact absurd hcount hone

end RemoveAt

lemma InsertAt.counted {s s' : Site} {err : Option Errno} (h : InsertAt s err s')
    (hs : s.Counted) : s'.Counted := by
  cases h with
  | again bp b =>
    rintro bp' ⟨⟩
    exact Nat.succ_pos _
  | patch b =>
    rintro bp' ⟨⟩
    exact Nat.one_pos
  | fault b => exact hs

namespace ArmTrace

variable {s s' : Site} {errs : List (Option Errno)}

lemma counted {ok : Bool} (h : ArmTrace s errs ok s') (hs : s.Counted) : s'.Counted := by
  cases h with
  | insertFails hrem hins => exact hins.counted (hrem.counted hs)
  | verified hrem hins _ => exact hins.counted (hrem.counted hs)
  | withdrawn hrem hins hrem' => exact hrem'.counted (hins.counted (hrem.counted hs))

/-- A successful attempt at an address with one user leaves one user, unless the removal it begins
with has failed: then the insertion has added a second one. -/
theorem of_true (h : ArmTrace s errs true s') (hs : s.Counted) (hcount : s.useCount ≤ 1) :
    (NoFault errs → s' = s.armed) ∧ (¬ NoFault errs → s'.useCount = 2) := by
  cases h with
  | verified hrem hins hbyte =>
    simp only [noFault_cons, noFault_nil, and_true, not_not]
    refine ⟨fun herr => ?_, fun herr => ?_⟩
    · obtain rfl := hrem.eq_of_useCount_le hcount herr
      cases hins with
      | patch => rfl
    · subst herr
      obtain ⟨rfl, bp, hbp, hone⟩ := hrem.eq_of_einval
      have hpos := hs bp hbp
      cases hins with
      | again bp' b =>
        obtain rfl := Option.some.inj hbp
        show bp'.useCount + 1 = 2
        omega
      | patch b => cases hbp

/-- A failed attempt leaves the address unregistered and with the guest's own byte if and only if it
had one user at most and no removal has failed. -/
theorem of_false (h : ArmTrace s errs false s') (hs : s.Counted) :
    s' = ⟨none, s.guestByte⟩ ↔ s.useCount ≤ 1 ∧ NoFault errs := by
  cases h with
  | insertFails hrem hins =>
    cases hins with
    | fault b =>
      obtain ⟨hcount, herr, rfl⟩ := hrem.of_none
      simp [hcount, herr]
  | withdrawn hrem hins hrem' =>
    cases hins with
    | again bp b =>
      -- the insertion has only counted the user that was still there
      have hpos : 0 < bp.useCount := hrem.counted hs bp rfl
      have hregistered : s'.bp ≠ none := hrem'.registered (Nat.lt_add_of_pos_left hpos)
      refine ⟨fun heq => absurd (congrArg Site.bp heq) hregistered, ?_⟩
      rintro ⟨hcount, hnofault⟩
      have heq := hrem.eq_of_useCount_le hcount (noFault_cons.mp hnofault).1
      cases heq
    | patch b =>
      obtain ⟨hcount, herr, rfl⟩ := hrem.of_none
      cases hrem' with
      | shared _ _ h => exact absurd h (Nat.lt_irrefl 1)
      | fault _ _ _ => simp [NoFault]
      | overwritten _ _ _ hb => exact absurd rfl hb
      | restore _ _ => simp [hcount, herr]

/-- A second user of the address stays. -/
lemma useCount_of_true (h : ArmTrace s errs true s') (hcount : 1 < s.useCount) :
    1 < s'.useCount := by
  cases h with
  | verified hrem hins _ =>
    cases hrem with
    | unknown b => cases hcount
    | shared bp b _ =>
      cases hins with
      | again =>
        show 1 < bp.useCount - 1 + 1
        omega
    | fault bp b hone => exact absurd hcount hone
    | overwritten bp b hone _ => exact absurd hcount hone
    | restore bp hone => exact absurd hcount hone

end ArmTrace

/-! ### All hooks -/

/-- The effect of `vmi_arm_once`, with the results of its removals. -/
inductive ArmOnceTrace (h : Hooks) (k : Kvm) : List (Option Errno) → Bool → Kvm → Prop where
  | entryFails {errs : List (Option Errno)} {k' : Kvm}
      (hentry : ArmTrace (k.site h.vmiAddr) errs false (k'.site h.vmiAddr))
      (hother : k'.site h.vmiRetAddr = k.site h.vmiRetAddr)
      (hfirst : (vmiArmAddr h.vmiAddr k).1 = false) : ArmOnceTrace h k errs false k'
  | entryOnly {errs : List (Option Errno)} {k' : Kvm} (hret : h.vmiRetAddr = 0)
      (hentry : ArmTrace (k.site h.vmiAddr) errs true (k'.site h.vmiAddr)) :
      ArmOnceTrace h k errs true k'
  | both {errs errs' : List (Option Errno)} {k' : Kvm} (hret : h.vmiRetAddr ≠ 0)
      (hentry : ArmTrace (k.site h.vmiAddr) errs true (k'.site h.vmiAddr))
      (hreturn : ArmTrace (k.site h.vmiRetAddr) errs' true (k'.site h.vmiRetAddr)) :
      ArmOnceTrace h k (errs ++ errs') true k'
  | returnFails {errs errs' : List (Option Errno)} {err : Option Errno} {s : Site} {k' : Kvm}
      (hret : h.vmiRetAddr ≠ 0) (hentry : ArmTrace (k.site h.vmiAddr) errs true s)
      (hreturn : ArmTrace (k.site h.vmiRetAddr) errs' false (k'.site h.vmiRetAddr))
      (hrem : RemoveAt s err (k'.site h.vmiAddr))
      (hfirst : (vmiArmAddr h.vmiAddr k).1 = true) :
      ArmOnceTrace h k (errs ++ errs' ++ [err]) false k'

theorem vmiArmOnce_trace (h : Hooks) (k : Kvm) :
    ArmOnceTrace h k (vmiArmOnceRemovals h k) (vmiArmOnce h k).1 (vmiArmOnce h k).2 := by
  obtain ⟨ok, s, f, hentry, heq⟩ := vmiArmAddr_trace h.vmiAddr k
  have hother : (k.setSite h.vmiAddr s f).site h.vmiRetAddr = k.site h.vmiRetAddr :=
    Kvm.site_setSite_of_ne _ _ _ _ h.ret_ne_addr
  rw [vmiArmOnceRemovals, vmiArmOnce]
  simp only [heq]
  cases ok with
  | false =>
    refine .entryFails ?_ hother (by rw [heq])
    rwa [Kvm.site_setSite_self]
  | true =>
    by_cases hret : h.vmiRetAddr = 0
    · simp only [hret, ne_eq, not_true_eq_false, ↓reduceIte]
      refine .entryOnly hret ?_
      rwa [Kvm.site_setSite_self]
    · obtain ⟨ok', s', f', hreturn, heq'⟩ := vmiArmAddr_trace h.vmiRetAddr (k.setSite h.vmiAddr s f)
      rw [hother] at hreturn
      simp only [hret, ne_eq, not_false_eq_true, ↓reduceIte, heq']
      have hentryAt :
          ((k.setSite h.vmiAddr s f).setSite h.vmiRetAddr s' f').site h.vmiAddr = s := by
        rw [Kvm.site_setSite_of_ne _ _ _ _ h.ret_ne_addr.symm, Kvm.site_setSite_self]
      cases ok' with
      | true =>
        refine .both hret ?_ ?_
        · rwa [hentryAt]
        · rwa [Kvm.site_setSite_self]
      | false =>
        obtain ⟨err, s'', f'', hrem, heq'', -⟩ := kvmRemoveBreakpoint_spec h.vmiAddr
          ((k.setSite h.vmiAddr s f).setSite h.vmiRetAddr s' f')
        rw [hentryAt] at hrem
        simp only [heq'']
        refine .returnFails hret hentry ?_ ?_ (by rw [heq])
        · rwa [Kvm.site_setSite_of_ne _ _ _ _ h.ret_ne_addr, Kvm.site_setSite_self]
        · rwa [Kvm.site_setSite_self]

/-- What holds of every hook holds of the entry hook, and of the return hook if there is one. -/
lemma Hooks.forall_isHook (h : Hooks) {p : UInt64 → Prop} :
    (∀ a, h.IsHook a → p a) ↔ p h.vmiAddr ∧ (h.vmiRetAddr ≠ 0 → p h.vmiRetAddr) := by
  constructor
  · intro hall
    exact ⟨hall _ h.isHook_addr, fun hret => hall _ (Or.inr ⟨hret, rfl⟩)⟩
  · rintro ⟨hentry, hreturn⟩ a (rfl | ⟨hret, rfl⟩)
    · exact hentry
    · exact hreturn hret

/-- Every registered hook has a user. -/
def Kvm.Counted (h : Hooks) (k : Kvm) : Prop := ∀ a, h.IsHook a → (k.site a).Counted

lemma one_iff {s s' : Site} {errs : List (Option Errno)} (htrace : ArmTrace s errs true s')
    (hs : s.Counted) (hcount : s.useCount ≤ 1) :
    (s'.useCount = 1 ∧ s'.byte = int3) ↔ NoFault errs := by
  obtain ⟨hone, htwo⟩ := htrace.of_true hs hcount
  constructor
  · rintro ⟨hcount', -⟩
    by_contra hfault
    rw [htwo hfault] at hcount'
    cases hcount'
  · intro hnofault
    rw [hone hnofault]
    exact ⟨rfl, rfl⟩

/-- **Successful arming.** If no hook has more than one reference, a successful attempt leaves every
hook with one reference and its `int3` in memory if and only if none of the removals it begins with
has failed for a memory access. -/
theorem vmiArmOnce_one_reference_iff (h : Hooks) (k k' : Kvm) (hcounted : k.Counted h)
    (hcount : ∀ a, h.IsHook a → (k.site a).useCount ≤ 1) (harm : vmiArmOnce h k = (true, k')) :
    (∀ a, h.IsHook a → (k'.site a).useCount = 1 ∧ (k'.site a).byte = int3) ↔
      NoFault (vmiArmOnceRemovals h k) := by
  have htrace := vmiArmOnce_trace h k
  rw [harm] at htrace
  rw [h.forall_isHook] at hcount
  rw [Kvm.Counted, h.forall_isHook] at hcounted
  rw [h.forall_isHook]
  generalize vmiArmOnceRemovals h k = errs at htrace ⊢
  cases htrace with
  | entryOnly hret hentry =>
    rw [one_iff hentry hcounted.1 hcount.1]
    simp [hret]
  | both hret hentry hreturn =>
    rw [noFault_append, one_iff hentry hcounted.1 hcount.1,
      one_iff hreturn (hcounted.2 hret) (hcount.2 hret)]
    simp [hret]

/-- Both hooks armed. -/
def nginxArmed : Kvm := (vmiArmOnce nginxHooks nginxKvm).2

/-- Both hooks armed, and the first access to come fails. -/
def nginxArmedThenFault : Kvm := { nginxArmed with faults := [true] }

/-- Re-arming with accesses that succeed. -/
theorem nginx_one_reference_iff :
    (vmiArmOnce nginxHooks nginxArmed).1 = true ∧
      ∀ a, nginxHooks.IsHook a → ((vmiArmOnce nginxHooks nginxArmed).2.site a).useCount = 1 ∧
        ((vmiArmOnce nginxHooks nginxArmed).2.site a).byte = int3 := by
  refine ⟨rfl, (vmiArmOnce_one_reference_iff nginxHooks nginxArmed _ ?_ ?_ rfl).mpr (by decide)⟩
  · rw [Kvm.Counted, nginxHooks.forall_isHook]
    simp only [Site.Counted]
    decide
  · rw [nginxHooks.forall_isHook]
    decide

/-- A removal whose access fails: the insertion that follows adds a second reference, and the
attempt succeeds. -/
theorem vmiArmOnce_two_references :
    (nginxArmedThenFault.site nginxHooks.vmiAddr).useCount = 1 ∧
      (nginxArmedThenFault.site nginxHooks.vmiRetAddr).useCount = 1 ∧
      (vmiArmOnce nginxHooks nginxArmedThenFault).1 = true ∧
      ¬ ∀ a, nginxHooks.IsHook a →
        ((vmiArmOnce nginxHooks nginxArmedThenFault).2.site a).useCount = 1 ∧
        ((vmiArmOnce nginxHooks nginxArmedThenFault).2.site a).byte = int3 := by
  refine ⟨by decide, by decide, by decide, fun hall => ?_⟩
  exact absurd (hall _ nginxHooks.isHook_addr).1 (by decide)

/-! ### Attempts one after another -/

/-- What an attempt finds and meets: the guest's memory, and the accesses that fail. -/
structure ArmInput where
  mem : UInt64 → UInt8
  faults : List Bool

/-- QEMU when an attempt begins. -/
def Kvm.given (k : Kvm) (c : ArmInput) : Kvm := { k with mem := c.mem, faults := c.faults }

/-- Attempts one after another. -/
def vmiArmCalls (h : Hooks) (k : Kvm) (cs : List ArmInput) : Kvm :=
  cs.foldl (fun k c => (vmiArmOnce h (k.given c)).2) k

/-- An attempt leaves a user with every registered hook. -/
lemma counted_vmiArmOnce {h : Hooks} {k : Kvm} (hk : k.Counted h) :
    (vmiArmOnce h k).2.Counted h := by
  have htrace := vmiArmOnce_trace h k
  rw [Kvm.Counted, h.forall_isHook] at hk ⊢
  obtain ⟨hke, hkr⟩ := hk
  generalize (vmiArmOnce h k).1 = ok at htrace
  generalize vmiArmOnceRemovals h k = errs at htrace
  cases htrace with
  | entryFails hentry hother _ => exact ⟨hentry.counted hke, fun hret => hother ▸ hkr hret⟩
  | entryOnly hret hentry => exact ⟨hentry.counted hke, fun hne => absurd hret hne⟩
  | both _ hentry hreturn =>
    exact ⟨hentry.counted hke, fun hret => hreturn.counted (hkr hret)⟩
  | returnFails _ hentry hreturn hrem _ =>
    exact ⟨hrem.counted (hentry.counted hke), fun hret => hreturn.counted (hkr hret)⟩

lemma counted_vmiArmCalls {h : Hooks} {k : Kvm} (hk : k.Counted h) (cs : List ArmInput) :
    (vmiArmCalls h k cs).Counted h := by
  induction cs generalizing k with
  | nil => exact hk
  | cons c cs ih => exact ih (counted_vmiArmOnce hk)

/-- A hook that is not registered, with the byte that the guest has put there. -/
def Released (s s' : Site) : Prop := s' = ⟨none, s.guestByte⟩

instance (s s' : Site) : Decidable (Released s s') := inferInstanceAs (Decidable (_ = _))

lemma released_self_iff (s : Site) : Released s s ↔ s.bp = none := by
  constructor
  · intro heq
    exact congrArg Site.bp heq
  · intro hbp
    obtain ⟨bp, byte⟩ := s
    obtain rfl : bp = none := hbp
    rfl

/-- Removing the entry hook again after the return hook has failed. -/
lemma released_entry_iff {s s₁ s' : Site} {errs : List (Option Errno)} {err : Option Errno}
    (hentry : ArmTrace s errs true s₁) (hrem : RemoveAt s₁ err s') (hs : s.Counted) :
    Released s s' ↔ s.useCount ≤ 1 ∧ NoFault errs ∧ err ≠ some .einval := by
  have hkept (hcount : 1 < s₁.useCount) : ¬ Released s s' := fun heq =>
    hrem.registered hcount (congrArg Site.bp heq)
  by_cases hcount : s.useCount ≤ 1
  · obtain ⟨hone, htwo⟩ := hentry.of_true hs hcount
    by_cases hnofault : NoFault errs
    · rw [hone hnofault] at hrem
      simp only [hcount, hnofault, true_and]
      cases hrem with
      | shared _ _ h => exact absurd h (Nat.lt_irrefl 1)
      | fault _ _ _ => simp [Released]
      | overwritten _ _ _ hb => exact absurd rfl hb
      | restore _ _ => simp [Released]
    · simp [hnofault, hkept (by rw [htwo hnofault]; exact Nat.one_lt_two)]
  · have hshared := hentry.useCount_of_true (Nat.not_le.mp hcount)
    simp [hcount, hkept hshared]

/-- **Failed arming.** Whatever earlier attempts have left behind, a failed attempt leaves no hook
registered and every hook with the guest's own byte if and only if no hook had more than one
reference, no removal of the attempt has failed for a memory access, and, if it was the entry hook
that could not be armed, the return hook was not registered. -/
theorem vmiArmOnce_all_or_nothing_iff (h : Hooks) (k₀ : Kvm)
    (hnone : ∀ a, h.IsHook a → k₀.swBreakpoints a = none) (cs : List ArmInput) (c : ArmInput)
    (k k' : Kvm) (hk : k = (vmiArmCalls h k₀ cs).given c) (harm : vmiArmOnce h k = (false, k')) :
    (∀ a, h.IsHook a → Released (k.site a) (k'.site a)) ↔
      (∀ a, h.IsHook a → (k.site a).useCount ≤ 1) ∧ NoFault (vmiArmOnceRemovals h k) ∧
        ((vmiArmAddr h.vmiAddr k).1 = false → h.vmiRetAddr ≠ 0 →
          k.swBreakpoints h.vmiRetAddr = none) := by
  have hcounted : k.Counted h := by
    rw [hk]
    refine counted_vmiArmCalls (fun a ha bp hbp => ?_) cs
    rw [Kvm.site_bp, hnone a ha] at hbp
    cases hbp
  have htrace := vmiArmOnce_trace h k
  rw [harm] at htrace
  rw [Kvm.Counted, h.forall_isHook] at hcounted
  rw [h.forall_isHook, h.forall_isHook]
  generalize vmiArmOnceRemovals h k = errs at htrace ⊢
  cases htrace with
  | entryFails hentry hother hfirst =>
    have hreturn : Released (k.site h.vmiRetAddr) (k'.site h.vmiRetAddr) ↔
        k.swBreakpoints h.vmiRetAddr = none := by
      rw [hother]
      exact released_self_iff _
    have hunused (hbp : k.swBreakpoints h.vmiRetAddr = none) :
        (k.site h.vmiRetAddr).useCount ≤ 1 := by
      rw [Site.useCount, Kvm.site_bp, hbp]
      exact Nat.zero_le 1
    have hentry' : Released (k.site h.vmiAddr) (k'.site h.vmiAddr) ↔ _ := hentry.of_false hcounted.1
    rw [hentry', hreturn]
    constructor
    · rintro ⟨⟨hcount, hnofault⟩, hbp⟩
      exact ⟨⟨hcount, fun hret => hunused (hbp hret)⟩, hnofault, fun _ => hbp⟩
    · rintro ⟨⟨hcount, -⟩, hnofault, hbp⟩
      exact ⟨⟨hcount, hnofault⟩, hbp hfirst⟩
  | returnFails hret hentry hreturn hrem hfirst =>
    have hreturn' : Released (k.site h.vmiRetAddr) (k'.site h.vmiRetAddr) ↔ _ :=
      hreturn.of_false (hcounted.2 hret)
    rw [released_entry_iff hentry hrem hcounted.1, hreturn']
    simp only [hret, hfirst, ne_eq, not_false_eq_true, forall_const, noFault_append, noFault_cons,
      noFault_nil, and_true, reduceCtorEq, false_implies]
    tauto

/-- The return hook cannot be read after the entry hook has been armed, and everything is undone. -/
theorem nginx_all_or_nothing_iff :
    (vmiArmOnce nginxHooks
        (nginxKvm.given ⟨fun _ => 0xfa, [false, false, false, true]⟩)).1 = false ∧
      ∀ a, nginxHooks.IsHook a → Released ⟨none, 0xfa⟩
        ((vmiArmOnce nginxHooks
          (nginxKvm.given ⟨fun _ => 0xfa, [false, false, false, true]⟩)).2.site a) := by
  refine ⟨by decide, ?_⟩
  refine (vmiArmOnce_all_or_nothing_iff nginxHooks nginxKvm (fun _ _ => rfl) []
    ⟨fun _ => 0xfa, [false, false, false, true]⟩ _ _ rfl (Prod.ext (by decide) rfl)).mpr
    ⟨?_, by decide, fun _ _ => rfl⟩
  rintro a -
  exact Nat.zero_le 1

/-- Both hooks are armed; at the next attempt the guest's byte at the entry hook cannot be read
again, and the return hook stays armed by itself. -/
theorem vmiArmOnce_not_all_or_nothing :
    ¬ ∀ k', vmiArmOnce nginxHooks ((vmiArmOnce nginxHooks nginxKvm).2.given
        ⟨(vmiArmOnce nginxHooks nginxKvm).2.mem, [false, false, true]⟩) = (false, k') →
      ∀ a, nginxHooks.IsHook a → (k'.site a).bp = none := by
  intro hall
  have hreturn := hall _ (Prod.ext (by decide) rfl) nginxHooks.vmiRetAddr
    (Or.inr ⟨by decide, rfl⟩)
  exact absurd hreturn (by decide)

end SyscallMonitor
