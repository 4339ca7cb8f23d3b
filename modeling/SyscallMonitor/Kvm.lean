import SyscallMonitor.Basic
import Mathlib.Logic.Function.Basic

/-!
# Software breakpoints

What the monitor uses of QEMU's KVM accelerator: the registry of software breakpoints, which all
vCPUs share, the guest's memory, and single-stepping. Whether a memory access succeeds is read off
the list `faults`, so that every pattern of failures can be played through a handler.

An insertion or removal touches one address only. `Site` is what the registry and the memory say
about an address, and `InsertAt` and `RemoveAt` are the effects of the two calls on it.
-/

namespace SyscallMonitor

/-- The error codes of the breakpoint calls; success is `none`. -/
inductive Errno where
  | enoent
  | einval
  deriving DecidableEq

/-- `struct kvm_sw_breakpoint`. -/
structure KvmSwBreakpoint where
  savedInsn : UInt8
  useCount : ℕ
  deriving DecidableEq

/-- Breakpoint registry, guest memory, `cs->singlestep_enabled`, and the accesses to come: `true`
for one that fails, the list ending where all further ones succeed. -/
structure Kvm where
  swBreakpoints : UInt64 → Option KvmSwBreakpoint
  mem : UInt64 → UInt8
  singlestepEnabled : ℕ → ℕ
  faults : List Bool

/-- The byte of the `int3` instruction. -/
def int3 : UInt8 := 0xcc

/-- `kvm_find_sw_breakpoint`: the registry is shared by all vCPUs. -/
def kvmFindSwBreakpoint (k : Kvm) (pc : UInt64) : Option KvmSwBreakpoint := k.swBreakpoints pc

/-- `cpu_single_step`. -/
def cpuSingleStep (cs : ℕ) (enabled : ℕ) (k : Kvm) : Kvm :=
  { k with singlestepEnabled := Function.update k.singlestepEnabled cs enabled }

/-- Whether the next memory access fails. -/
def Kvm.accessFails (k : Kvm) : Bool := k.faults.headD false

/-- One memory access has been made. -/
def Kvm.accessed (k : Kvm) : Kvm := { k with faults := k.faults.tail }

/-- `cpu_memory_rw_debug(cs, addr, &b, 1, 0)`. -/
def cpuMemoryRead (addr : UInt64) (k : Kvm) : Option UInt8 × Kvm :=
  (if k.accessFails then none else some (k.mem addr), k.accessed)

/-- `cpu_memory_rw_debug(cs, addr, &b, 1, 1)`; `false` if it fails. -/
def cpuMemoryWrite (addr : UInt64) (b : UInt8) (k : Kvm) : Bool × Kvm :=
  if k.accessFails then (false, k.accessed)
  else (true, { k.accessed with mem := Function.update k.mem addr b })

/-- Enter a breakpoint into the registry, or take it out. -/
def Kvm.register (k : Kvm) (addr : UInt64) (bp : Option KvmSwBreakpoint) : Kvm :=
  { k with swBreakpoints := Function.update k.swBreakpoints addr bp }

/-- `kvm_insert_breakpoint`: a registered address is only counted once more. -/
def kvmInsertBreakpoint (addr : UInt64) (k : Kvm) : Option Errno × Kvm :=
  match kvmFindSwBreakpoint k addr with
  | some bp => (none, k.register addr (some { bp with useCount := bp.useCount + 1 }))
  | none =>
    match cpuMemoryRead addr k with
    | (none, k) => (some .einval, k)
    | (some saved, k) =>
      match cpuMemoryWrite addr int3 k with
      | (false, k) => (some .einval, k)
      | (true, k) => (none, k.register addr (some ⟨saved, 1⟩))

/-- `kvm_remove_breakpoint`: the last user restores the saved byte, unless somebody else has
overwritten the `int3` in the meantime. -/
def kvmRemoveBreakpoint (addr : UInt64) (k : Kvm) : Option Errno × Kvm :=
  match kvmFindSwBreakpoint k addr with
  | none => (some .enoent, k)
  | some bp =>
    if bp.useCount > 1 then
      (none, k.register addr (some { bp with useCount := bp.useCount - 1 }))
    else
      match cpuMemoryRead addr k with
      | (none, k) => (some .einval, k)
      | (some b, k) =>
        if b ≠ int3 then (none, k.register addr none)
        else
          match cpuMemoryWrite addr bp.savedInsn k with
          | (false, k) => (some .einval, k)
          | (true, k) => (none, k.register addr none)

/-! ### One address -/

/-- What the registry and the memory say about an address. -/
@[ext]
structure Site where
  bp : Option KvmSwBreakpoint
  byte : UInt8
  deriving DecidableEq

namespace Kvm

def site (k : Kvm) (a : UInt64) : Site := ⟨k.swBreakpoints a, k.mem a⟩

/-- Change one address, and leave `faults` to come. -/
def setSite (k : Kvm) (a : UInt64) (s : Site) (faults : List Bool) : Kvm :=
  { k with
    swBreakpoints := Function.update k.swBreakpoints a s.bp
    mem := Function.update k.mem a s.byte
    faults := faults }

variable (k : Kvm) (a : UInt64) (s : Site) (f : List Bool)

@[simp] lemma site_setSite_self : (k.setSite a s f).site a = s := by
  simp [site, setSite]

@[simp] lemma site_setSite_of_ne {b : UInt64} (hba : b ≠ a) :
    (k.setSite a s f).site b = k.site b := by
  simp [site, setSite, hba]

lemma site_setSite (b : UInt64) :
    (k.setSite a s f).site b = if b = a then s else k.site b := by
  split_ifs with hba
  · rw [hba, site_setSite_self]
  · rw [site_setSite_of_ne k a s f hba]

@[simp] lemma singlestepEnabled_setSite :
    (k.setSite a s f).singlestepEnabled = k.singlestepEnabled := rfl

@[simp] lemma faults_setSite : (k.setSite a s f).faults = f := rfl

@[simp] lemma setSite_setSite (s' : Site) (f' : List Bool) :
    (k.setSite a s f).setSite a s' f' = k.setSite a s' f' := by
  simp [setSite]

lemma setSite_site : k.setSite a (k.site a) f = { k with faults := f } := by
  simp [setSite, site]

lemma setSite_self : k.setSite a (k.site a) k.faults = k := setSite_site k a _

@[simp] lemma site_bp : (k.site a).bp = k.swBreakpoints a := rfl

end Kvm

lemma Kvm.accessFails_of_nil {k : Kvm} (hf : k.faults = []) : k.accessFails = false := by
  rw [accessFails, hf, List.headD_nil]

/-- Nothing changes but the accesses to come. -/
lemma Kvm.setSite_faults_eq (k : Kvm) {a : UInt64} {s : Site} (hs : k.site a = s) (f : List Bool) :
    k.setSite a s f = { k with faults := f } := by
  rw [← hs, Kvm.setSite_site]

/-- `kvm_insert_breakpoint` changes its own address only, and looks at nothing else. -/
lemma kvmInsertBreakpoint_eq (a : UInt64) (k : Kvm) :
    kvmInsertBreakpoint a k =
      match k.swBreakpoints a with
      | some bp =>
        (none, k.setSite a ⟨some { bp with useCount := bp.useCount + 1 }, k.mem a⟩ k.faults)
      | none =>
        if k.faults.headD false then (some .einval, k.setSite a ⟨none, k.mem a⟩ k.faults.tail)
        else if k.faults.tail.headD false then
          (some .einval, k.setSite a ⟨none, k.mem a⟩ k.faults.tail.tail)
        else (none, k.setSite a ⟨some ⟨k.mem a, 1⟩, int3⟩ k.faults.tail.tail) := by
  rw [kvmInsertBreakpoint, kvmFindSwBreakpoint]
  cases hbp : k.swBreakpoints a with
  | some bp => simp [Kvm.register, Kvm.setSite]
  | none =>
    have hsite : k.site a = ⟨none, k.mem a⟩ := by rw [Kvm.site, hbp]
    simp only [cpuMemoryRead, cpuMemoryWrite, k.setSite_faults_eq hsite]
    cases hread : k.accessFails with
    | true =>
      have hhead : k.faults.headD false = true := hread
      simp only [hhead, ↓reduceIte]
      rfl
    | false =>
      have hhead : k.faults.headD false = false := hread
      cases hwrite : k.accessed.accessFails with
      | true =>
        have hnext : k.faults.tail.headD false = true := hwrite
        simp only [hhead, hwrite, hnext, Bool.false_eq_true, ↓reduceIte]
        rfl
      | false =>
        have hnext : k.faults.tail.headD false = false := hwrite
        simp only [hhead, hwrite, hnext, Bool.false_eq_true, ↓reduceIte]
        rfl

lemma kvmRemoveBreakpoint_eq (a : UInt64) (k : Kvm) :
    kvmRemoveBreakpoint a k =
      match k.swBreakpoints a with
      | none => (some .enoent, k)
      | some bp =>
        if bp.useCount > 1 then
          (none, k.setSite a ⟨some { bp with useCount := bp.useCount - 1 }, k.mem a⟩ k.faults)
        else if k.faults.headD false then
          (some .einval, k.setSite a ⟨some bp, k.mem a⟩ k.faults.tail)
        else if k.mem a ≠ int3 then (none, k.setSite a ⟨none, k.mem a⟩ k.faults.tail)
        else if k.faults.tail.headD false then
          (some .einval, k.setSite a ⟨some bp, k.mem a⟩ k.faults.tail.tail)
        else (none, k.setSite a ⟨none, bp.savedInsn⟩ k.faults.tail.tail) := by
  rw [kvmRemoveBreakpoint, kvmFindSwBreakpoint]
  cases hbp : k.swBreakpoints a with
  | none => rfl
  | some bp =>
    have hsite : k.site a = ⟨some bp, k.mem a⟩ := by rw [Kvm.site, hbp]
    by_cases hcount : bp.useCount > 1
    · simp [hcount, Kvm.register, Kvm.setSite]
    · simp only [hcount, ↓reduceIte, cpuMemoryRead, cpuMemoryWrite, k.setSite_faults_eq hsite]
      cases hread : k.accessFails with
      | true =>
        have hhead : k.faults.headD false = true := hread
        simp only [hhead, ↓reduceIte]
        rfl
      | false =>
        have hhead : k.faults.headD false = false := hread
        by_cases hbyte : k.mem a = int3
        · cases hwrite : k.accessed.accessFails with
          | true =>
            have hnext : k.faults.tail.headD false = true := hwrite
            simp only [hhead, hbyte, hwrite, hnext, Bool.false_eq_true, ne_eq, not_true_eq_false,
              ↓reduceIte]
            rfl
          | false =>
            have hnext : k.faults.tail.headD false = false := hwrite
            simp only [hhead, hbyte, hwrite, hnext, Bool.false_eq_true, ne_eq, not_true_eq_false,
              ↓reduceIte]
            rfl
        · simp only [hhead, hbyte, Bool.false_eq_true, ne_eq, not_false_eq_true, ↓reduceIte]
          simp [Kvm.register, Kvm.setSite, Kvm.accessed]

/-- The effect of `kvm_insert_breakpoint` on its address. -/
inductive InsertAt : Site → Option Errno → Site → Prop where
  | again (bp : KvmSwBreakpoint) (b : UInt8) :
      InsertAt ⟨some bp, b⟩ none ⟨some { bp with useCount := bp.useCount + 1 }, b⟩
  | patch (b : UInt8) : InsertAt ⟨none, b⟩ none ⟨some ⟨b, 1⟩, int3⟩
  | fault (b : UInt8) : InsertAt ⟨none, b⟩ (some .einval) ⟨none, b⟩

/-- The effect of `kvm_remove_breakpoint` on its address. -/
inductive RemoveAt : Site → Option Errno → Site → Prop where
  | unknown (b : UInt8) : RemoveAt ⟨none, b⟩ (some .enoent) ⟨none, b⟩
  | shared (bp : KvmSwBreakpoint) (b : UInt8) (h : bp.useCount > 1) :
      RemoveAt ⟨some bp, b⟩ none ⟨some { bp with useCount := bp.useCount - 1 }, b⟩
  | fault (bp : KvmSwBreakpoint) (b : UInt8) (h : ¬ bp.useCount > 1) :
      RemoveAt ⟨some bp, b⟩ (some .einval) ⟨some bp, b⟩
  | overwritten (bp : KvmSwBreakpoint) (b : UInt8) (h : ¬ bp.useCount > 1) (hb : b ≠ int3) :
      RemoveAt ⟨some bp, b⟩ none ⟨none, b⟩
  | restore (bp : KvmSwBreakpoint) (h : ¬ bp.useCount > 1) :
      RemoveAt ⟨some bp, int3⟩ none ⟨none, bp.savedInsn⟩

/-- `kvm_insert_breakpoint` changes its own address only, in one of the ways of `InsertAt`; where
no access fails, it does not fail. -/
theorem kvmInsertBreakpoint_spec (a : UInt64) (k : Kvm) :
    ∃ err s f, InsertAt (k.site a) err s ∧ kvmInsertBreakpoint a k = (err, k.setSite a s f) ∧
      (k.faults = [] → err = none ∧ f = []) := by
  rw [kvmInsertBreakpoint_eq, Kvm.site]
  cases k.swBreakpoints a with
  | some bp => exact ⟨_, _, _, .again bp (k.mem a), rfl, fun hf => ⟨rfl, hf⟩⟩
  | none =>
    dsimp only
    split_ifs with hread hwrite
    · refine ⟨_, _, _, .fault (k.mem a), rfl, fun hf => ?_⟩
      rw [hf] at hread
      cases hread
    · refine ⟨_, _, _, .fault (k.mem a), rfl, fun hf => ?_⟩
      rw [hf] at hwrite
      cases hwrite
    · refine ⟨_, _, _, .patch (k.mem a), rfl, fun hf => ⟨rfl, ?_⟩⟩
      rw [hf, List.tail_nil, List.tail_nil]

/-- `kvm_remove_breakpoint` changes its own address only, in one of the ways of `RemoveAt`; where
no access fails, it fails only at an address that is not registered. -/
theorem kvmRemoveBreakpoint_spec (a : UInt64) (k : Kvm) :
    ∃ err s f, RemoveAt (k.site a) err s ∧ kvmRemoveBreakpoint a k = (err, k.setSite a s f) ∧
      (k.faults = [] → err ≠ some .einval ∧ f = []) := by
  rw [kvmRemoveBreakpoint_eq]
  cases hbp : k.swBreakpoints a with
  | none =>
    have hsite : k.site a = ⟨none, k.mem a⟩ := by rw [Kvm.site, hbp]
    refine ⟨some .enoent, k.site a, k.faults, ?_, ?_, fun hf => ⟨by simp, hf⟩⟩
    · rw [hsite]
      exact .unknown (k.mem a)
    · rw [Kvm.setSite_self]
  | some bp =>
    have hsite : k.site a = ⟨some bp, k.mem a⟩ := by rw [Kvm.site, hbp]
    rw [hsite]
    dsimp only
    split_ifs with hcount hread hbyte hwrite
    · exact ⟨_, _, _, .shared bp (k.mem a) hcount, rfl, fun hf => ⟨by simp, hf⟩⟩
    · refine ⟨_, _, _, .fault bp (k.mem a) hcount, rfl, fun hf => ?_⟩
      rw [hf] at hread
      cases hread
    · exact ⟨_, _, _, .overwritten bp (k.mem a) hcount hbyte, rfl,
        fun hf => ⟨by simp, by rw [hf, List.tail_nil]⟩⟩
    · refine ⟨_, _, _, .fault bp (k.mem a) hcount, rfl, fun hf => ?_⟩
      rw [hf] at hwrite
      cases hwrite
    · rw [not_not.mp hbyte]
      refine ⟨_, _, _, .restore bp hcount, rfl, fun hf => ⟨by simp, ?_⟩⟩
      rw [hf, List.tail_nil, List.tail_nil]

/-- Both calls do the same to addresses that look alike. -/
theorem kvmInsertBreakpoint_congr {a : UInt64} {k k' : Kvm} (hsite : k'.site a = k.site a)
    (hf : k'.faults = k.faults) :
    ∃ s f, (kvmInsertBreakpoint a k).2 = k.setSite a s f ∧
      (kvmInsertBreakpoint a k').2 = k'.setSite a s f := by
  have hbp : k'.swBreakpoints a = k.swBreakpoints a := congrArg Site.bp hsite
  have hmem : k'.mem a = k.mem a := congrArg Site.byte hsite
  rw [kvmInsertBreakpoint_eq, kvmInsertBreakpoint_eq, hbp, hmem, hf]
  cases k.swBreakpoints a with
  | some bp => exact ⟨_, _, rfl, rfl⟩
  | none =>
    dsimp only
    split_ifs <;> exact ⟨_, _, rfl, rfl⟩

theorem kvmRemoveBreakpoint_congr {a : UInt64} {k k' : Kvm} (hsite : k'.site a = k.site a)
    (hf : k'.faults = k.faults) :
    ∃ s f, (kvmRemoveBreakpoint a k).2 = k.setSite a s f ∧
      (kvmRemoveBreakpoint a k').2 = k'.setSite a s f := by
  have hbp : k'.swBreakpoints a = k.swBreakpoints a := congrArg Site.bp hsite
  have hmem : k'.mem a = k.mem a := congrArg Site.byte hsite
  rw [kvmRemoveBreakpoint_eq, kvmRemoveBreakpoint_eq, hbp, hmem, hf]
  cases hreg : k.swBreakpoints a with
  | none =>
    refine ⟨k.site a, k.faults, (k.setSite_self a).symm, ?_⟩
    rw [← hsite, ← hf, k'.setSite_self a]
  | some bp =>
    dsimp only
    split_ifs <;> exact ⟨_, _, rfl, rfl⟩

/-- `cpu_memory_rw_debug` reads the byte or fails, and changes nothing. -/
lemma cpuMemoryRead_spec (a : UInt64) (k : Kvm) :
    ∃ r f, (r = none ∨ r = some (k.mem a)) ∧ cpuMemoryRead a k = (r, { k with faults := f }) ∧
      (k.faults = [] → r = some (k.mem a) ∧ f = []) := by
  refine ⟨_, k.faults.tail, ?_, rfl, fun hf => ⟨?_, by rw [hf, List.tail_nil]⟩⟩
  · split_ifs
    · exact Or.inl rfl
    · exact Or.inr rfl
  · rw [Kvm.accessFails_of_nil hf]
    rfl

end SyscallMonitor
