import SyscallMonitor.Capture.Steps
import Mathlib.Algebra.BigOperators.Fin
import Mathlib.Algebra.Order.Group.Multiset
import Mathlib.Tactic.Abel

/-!
# No syscall is lost or duplicated

`ledger` counts every syscall that has been written or is still held. An entry adds itself to the
ledger, a return or a flush only moves syscalls from the table to the log, so that after the final
flush the log accounts for every entry exactly once.
-/

namespace SyscallMonitor

open Finset

/-- What identifies a syscall in the log: entry time, cpu, number and arguments. -/
structure SyscallId where
  tv : Timeval
  cpuIndex : Int
  num : UInt64
  argv : Fin 6 → UInt64
  deriving DecidableEq

/-- The syscall a line reports. -/
def LogLine.id (l : LogLine) : SyscallId := ⟨l.tv, l.cpuIndex, l.num, l.argv⟩

/-- The syscall a slot holds. -/
def VmiPending.id (p : VmiPending) : SyscallId := ⟨p.tv, p.cpuIndex, p.num, p.argv⟩

@[simp] lemma VmiPending.line_id (p : VmiPending) (kind : VmiRetKind) :
    (p.line kind).id = p.id := rfl

/-- The syscalls reported by a list of lines. -/
def loggedIds (log : List Written) : Multiset SyscallId := ↑(log.map fun w => w.line.id)

@[simp] lemma loggedIds_append (log log' : List Written) :
    loggedIds (log ++ log') = loggedIds log + loggedIds log' := by
  simp [loggedIds]

@[simp] lemma loggedIds_nil : loggedIds [] = 0 := rfl

@[simp] lemma loggedIds_singleton (w : Written) : loggedIds [w] = {w.line.id} := rfl

/-- The syscall held by one slot, if any. -/
def VmiPending.ids (p : VmiPending) : Multiset SyscallId := if p.used then {p.id} else 0

lemma VmiPending.ids_of_used {p : VmiPending} (hp : p.used = true) : p.ids = {p.id} :=
  if_pos hp

lemma VmiPending.ids_of_not_used {p : VmiPending} (hp : p.used = false) : p.ids = 0 := by
  simp [VmiPending.ids, hp]

/-- The syscalls held by the table. -/
def heldIds (t : Slot → VmiPending) : Multiset SyscallId := ∑ i, (t i).ids

/-- Storing a new value in a slot exchanges what that slot holds. -/
lemma heldIds_update (t : Slot → VmiPending) (i : Slot) (p : VmiPending) :
    heldIds (Function.update t i p) + (t i).ids = heldIds t + p.ids := by
  have hupdate : (fun j => (Function.update t i p j).ids)
      = Function.update (fun j => (t j).ids) i p.ids := by
    funext j
    by_cases hji : j = i
    · subst hji
      simp
    · simp [hji]
  have hrest : heldIds t = (t i).ids + ∑ j ∈ univ \ {i}, (t j).ids := by
    rw [heldIds, ← Finset.sum_sdiff (subset_univ {i}), Finset.sum_singleton, add_comm]
  rw [hrest, heldIds, hupdate, Finset.sum_update_of_mem (mem_univ i)]
  abel

/-- The held syscalls of a predicate, listed in the order of a duplicate-free list. -/
lemma sum_ite_eq_map {l : List Slot} (hl : l.Nodup) {P : Slot → Prop} [DecidablePred P]
    (hP : ∀ i, P i → i ∈ l) (f : Slot → SyscallId) :
    (∑ i, if P i then ({f i} : Multiset SyscallId) else 0)
      = ↑((l.filter fun i => P i).map f) := by
  have hset : univ.filter P = (l.filter fun i => P i).toFinset := by
    ext i
    simp only [mem_filter, mem_univ, true_and, List.mem_toFinset, List.mem_filter,
      decide_eq_true_eq]
    exact ⟨fun hi => ⟨hP i hi, hi⟩, And.right⟩
  rw [← Finset.sum_filter, hset, List.sum_toFinset _ (hl.filter _)]
  induction l.filter fun i => P i with
  | nil => rfl
  | cons i l ih => rw [List.map_cons, List.sum_cons, ih, List.map_cons]; rfl

/-- The pass of `vmi_handle_entry` writes exactly what it takes out of the table. -/
lemma heldIds_freeKey (key : PairKey) (t : Slot → VmiPending) :
    heldIds (freeKey key t) + loggedIds (supersededLines key t slots) = heldIds t := by
  have hlines : loggedIds (supersededLines key t slots)
      = ∑ i, if HeldAt t key i then {(t i).id} else 0 := by
    rw [sum_ite_eq_map nodup_slots (fun i _ => mem_slots i)]
    simp [loggedIds, supersededLines, Function.comp_def]
  rw [hlines, heldIds, heldIds, ← Finset.sum_add_distrib]
  refine Finset.sum_congr rfl fun i _ => ?_
  by_cases hi : HeldAt t key i
  · rw [freeKey_of_heldAt hi, if_pos hi, VmiPending.ids_of_used hi.1]
    rfl
  · rw [freeKey_of_not_heldAt hi, if_neg hi, add_zero]

lemma heldIds_eq_of_flushOrder {t : Slot → VmiPending} {l : List Slot} (hl : FlushOrder t l) :
    heldIds t = ↑(l.map fun i => (t i).id) := by
  have hsum := sum_ite_eq_map hl.nodup (P := fun i => (t i).used = true)
    (fun i hi => (hl.mem i).mpr hi) (fun i => (t i).id)
  have hall : (l.filter fun i => (t i).used) = l :=
    List.filter_eq_self.mpr fun i hi => (hl.mem i).mp hi
  simp only [Bool.decide_eq_true, hall] at hsum
  rw [← hsum]
  rfl

lemma heldIds_of_empty {t : Slot → VmiPending} (ht : ∀ i, (t i).used = false) : heldIds t = 0 :=
  Finset.sum_eq_zero fun i _ => VmiPending.ids_of_not_used (ht i)

/-! ### One event -/

/-- Every syscall written or still held. -/
def ledger (c : Capture) : Multiset SyscallId := loggedIds c.log + heldIds c.vmiPending

/-- The syscalls that an event starts. -/
def HookEvent.ids : HookEvent → Multiset SyscallId
  | .entry cpuIndex env tv => {⟨tv, cpuIndex, env.regs rEax, vmiReadArgs env⟩}
  | .ret .. => 0
  | .flush => 0

lemma ledger_vmiHandleEntry {h : Hooks} (hret : h.vmiRetAddr ≠ 0) (cpuIndex : Int)
    (env : CPUX86State) (tv : Timeval) (c : Capture) :
    ledger (vmiHandleEntry h cpuIndex env tv c)
      = ledger c + (HookEvent.entry cpuIndex env tv).ids := by
  obtain ⟨i, evicted, hslot, heq⟩ := vmiHandleEntry_cases hret cpuIndex env tv c
  have hnew : (VmiPending.ofEntry c.vmiPendingSeq cpuIndex env tv).ids
      = (HookEvent.entry cpuIndex env tv).ids := VmiPending.ids_of_used rfl
  have hupdate := heldIds_update (freeKey env.key c.vmiPending) i
    (.ofEntry c.vmiPendingSeq cpuIndex env tv)
  have hfree := heldIds_freeKey env.key c.vmiPending
  rw [hnew] at hupdate
  have hevict : (freeKey env.key c.vmiPending i).ids = loggedIds evicted := by
    cases hslot with
    | free hi => exact VmiPending.ids_of_not_used hi
    | evict hfull _ => exact VmiPending.ids_of_used (hfull i)
  rw [hevict] at hupdate
  simp only [heq, ledger, loggedIds_append]
  rw [← hfree]
  calc loggedIds c.log + loggedIds (supersededLines env.key c.vmiPending slots)
          + loggedIds evicted + heldIds _
      = loggedIds c.log + loggedIds (supersededLines env.key c.vmiPending slots)
          + (heldIds (Function.update (freeKey env.key c.vmiPending) i
              (.ofEntry c.vmiPendingSeq cpuIndex env tv)) + loggedIds evicted) := by abel
    _ = _ := by rw [hupdate]; abel

lemma ledger_vmiHandleReturn (env : CPUX86State) (tv : Timeval) (c : Capture) :
    ledger (vmiHandleReturn env tv c) = ledger c := by
  rcases vmiHandleReturn_cases env tv c with ⟨i, hi, heq⟩ | ⟨_, heq⟩
  · have hupdate := heldIds_update c.vmiPending i { c.vmiPending i with used := false }
    rw [VmiPending.ids_of_used hi.1, VmiPending.ids_of_not_used rfl, add_zero] at hupdate
    simp only [heq, ledger, Capture.writeEvent, Capture.release, loggedIds_append,
      loggedIds_singleton, VmiPending.line_id]
    rw [← hupdate]
    abel
  · rw [heq]

lemma ledger_vmiFlushPending (why : UnfinishedWhy) (c : Capture) :
    ledger (vmiFlushPending why c) = ledger c := by
  obtain ⟨l, hl, hlog, -, hfree⟩ := vmiFlushPending_spec why c
  rw [ledger, ledger, heldIds_of_empty hfree, heldIds_eq_of_flushOrder hl, hlog, add_zero,
    loggedIds_append]
  simp [loggedIds, Function.comp_def]

/-- One event adds the syscall it starts to the ledger, and nothing else. -/
theorem ledger_handle {h : Hooks} (hret : h.vmiRetAddr ≠ 0) (c : Capture) (e : HookEvent) :
    ledger (c.handle h e) = ledger c + e.ids := by
  cases e with
  | entry cpuIndex env tv => exact ledger_vmiHandleEntry hret cpuIndex env tv c
  | ret _ env tv => rw [HookEvent.ids, add_zero]; exact ledger_vmiHandleReturn env tv c
  | flush => rw [HookEvent.ids, add_zero]; exact ledger_vmiFlushPending .shutdown c

/-! ### Whole traces -/

lemma ledger_handleAll {h : Hooks} (hret : h.vmiRetAddr ≠ 0) (c : Capture) (es : List HookEvent) :
    ledger (c.handleAll h es) = ledger c + (es.map HookEvent.ids).sum := by
  induction es using List.reverseRecOn with
  | nil => simp
  | append_singleton es e ih =>
    rw [Capture.handleAll_concat, ledger_handle hret, ih, List.map_append, List.sum_append,
      List.map_singleton, List.sum_singleton, add_assoc]

/-- After the final flush nothing is held, and the log has every syscall that was started. -/
lemma loggedIds_handleAll_flush {h : Hooks} (hret : h.vmiRetAddr ≠ 0) (es : List HookEvent) :
    loggedIds ((Capture.init []).handleAll h (es ++ [.flush])).log
      = (es.map HookEvent.ids).sum := by
  have hledger := ledger_handleAll hret (Capture.init []) (es ++ [.flush])
  obtain ⟨-, -, -, -, hempty⟩ :=
    vmiFlushPending_spec .shutdown ((Capture.init []).handleAll h es)
  have hheld : heldIds ((Capture.init []).handleAll h (es ++ [.flush])).vmiPending = 0 := by
    rw [Capture.handleAll_concat]
    exact heldIds_of_empty hempty
  have hinit : ledger (Capture.init []) = 0 := by
    rw [ledger, heldIds_of_empty fun _ => rfl]
    rfl
  rw [ledger, hheld, add_zero, hinit, zero_add, List.map_append, List.sum_append] at hledger
  rw [hledger]
  simp [HookEvent.ids]

/-- The same hooks with `vmi_ret_addr = 0`: entry-only logging. -/
def Hooks.entryOnly (h : Hooks) : Hooks :=
  ⟨h.vmiAddr, 0, h.addr_ne_zero, fun h0 => h.addr_ne_zero h0.symm⟩

lemma loggedIds_entryOnly (h : Hooks) (c : Capture) (es : List HookEvent) :
    loggedIds (c.handleAll h.entryOnly (es.filter HookEvent.isEntry)).log
      = loggedIds c.log + (es.map HookEvent.ids).sum := by
  induction es using List.reverseRecOn with
  | nil => simp
  | append_singleton es e ih =>
    rw [List.map_append, List.sum_append, List.map_singleton, List.sum_singleton, ← add_assoc,
      ← ih, List.filter_append, Capture.handleAll_append]
    cases e with
    | entry cpuIndex env tv =>
      have hwrite : ∀ c : Capture, (c.handleAll h.entryOnly [.entry cpuIndex env tv]).log
          = c.log ++ [⟨env.key, ⟨cpuIndex, env.regs rEax, vmiReadArgs env, tv, .none⟩⟩] :=
        fun _ => rfl
      rw [List.filter_cons_of_pos rfl, List.filter_nil, hwrite, loggedIds_append]
      rfl
    | ret _ _ _ => simp [HookEvent.isEntry, HookEvent.ids]
    | flush => simp [HookEvent.isEntry, HookEvent.ids]

/-- With return capture on, every line is a value line or names a reason. -/
lemma kind_ne_none_of_handle {h : Hooks} (hret : h.vmiRetAddr ≠ 0) {c : Capture}
    (hc : ∀ w ∈ c.log, w.line.kind ≠ .none) (e : HookEvent) :
    ∀ w ∈ (c.handle h e).log, w.line.kind ≠ .none := by
  cases e with
  | entry cpuIndex env tv =>
    obtain ⟨i, evicted, hslot, heq⟩ := vmiHandleEntry_cases hret cpuIndex env tv c
    intro w hw
    simp only [Capture.handle, heq, List.mem_append] at hw
    rcases hw with (hw | hw) | hw
    · exact hc w hw
    · obtain ⟨j, -, rfl⟩ := List.mem_map.mp hw
      simp [VmiPending.line]
    · cases hslot with
      | free _ => simp at hw
      | evict _ _ =>
        obtain rfl := List.mem_singleton.mp hw
        simp [VmiPending.line]
  | ret _ env tv =>
    rcases vmiHandleReturn_cases env tv c with ⟨i, _, heq⟩ | ⟨_, heq⟩
    · intro w hw
      simp only [Capture.handle, heq, Capture.writeEvent, Capture.release, List.mem_append,
        List.mem_singleton] at hw
      rcases hw with hw | rfl
      · exact hc w hw
      · simp [VmiPending.line]
    · simpa only [Capture.handle, heq] using hc
  | flush =>
    obtain ⟨l, -, hlog, -, -⟩ := vmiFlushPending_spec .shutdown c
    intro w hw
    simp only [Capture.handle, hlog, List.mem_append] at hw
    rcases hw with hw | hw
    · exact hc w hw
    · obtain ⟨j, -, rfl⟩ := List.mem_map.mp hw
      simp [VmiPending.line]

lemma kind_ne_none_of_handleAll {h : Hooks} (hret : h.vmiRetAddr ≠ 0) (es : List HookEvent) :
    ∀ w ∈ ((Capture.init []).handleAll h es).log, w.line.kind ≠ .none := by
  induction es using List.reverseRecOn with
  | nil => simp [Capture.init]
  | append_singleton es e ih =>
    rw [Capture.handleAll_concat]
    exact kind_ne_none_of_handle hret ih e

/-- **Conservation.** Over any trace that ends with a flush, return capture logs every syscall that
was entered exactly once, and so the syscalls that entry-only logging logs for the same entries; no
line is without a result or a reason, and a return that finds no entry of its key writes nothing. -/
theorem handleAll_flush_conserves (h : Hooks) (hret : h.vmiRetAddr ≠ 0) (es : List HookEvent) :
    loggedIds ((Capture.init []).handleAll h (es ++ [.flush])).log = (es.map HookEvent.ids).sum ∧
      loggedIds ((Capture.init []).handleAll h (es ++ [.flush])).log
        = loggedIds ((Capture.init []).handleAll h.entryOnly (es.filter HookEvent.isEntry)).log ∧
      (∀ w ∈ ((Capture.init []).handleAll h (es ++ [.flush])).log, w.line.kind ≠ .none) ∧
      ∀ (c : Capture) (cpuIndex : Int) (env : CPUX86State) (tv : Timeval),
        (∀ i, ¬ HeldAt c.vmiPending env.key i) →
          (c.handle h (.ret cpuIndex env tv)).log = c.log := by
  have hlogged := loggedIds_handleAll_flush hret es
  refine ⟨hlogged, ?_, kind_ne_none_of_handleAll hret _, ?_⟩
  · rw [hlogged, loggedIds_entryOnly]
    simp [Capture.init]
  · intro c cpuIndex env tv hnone
    rcases vmiHandleReturn_cases env tv c with ⟨i, hi, _⟩ | ⟨_, heq⟩
    · exact absurd hi (hnone i)
    · rw [Capture.handle, heq]

/-- `handleAll_flush_conserves` on a syscall that returns and one that does not. -/
theorem nginx_handleAll_flush_conserves :
    nginxHooks.vmiRetAddr ≠ 0 ∧
      loggedIds ((Capture.init []).handleAll nginxHooks
          ([.entry 0 ⟨fun _ => 1, 0x101000⟩ ⟨10, 0⟩, .ret 0 ⟨fun _ => 1, 0x1010da⟩ ⟨10, 58⟩,
            .entry 0 ⟨fun _ => 2, 0x101000⟩ ⟨10, 90⟩] ++ [.flush])).log
        = {⟨⟨10, 0⟩, 0, 1, fun _ => 1⟩, ⟨⟨10, 90⟩, 0, 2, fun _ => 2⟩} := by
  have hargs (r pc : UInt64) : vmiReadArgs ⟨fun _ => r, pc⟩ = fun _ => r := by
    funext i
    match i with
    | 0 | 1 | 2 | 3 | 4 | 5 => rfl
  refine ⟨by decide, (handleAll_flush_conserves nginxHooks (by decide) _).1.trans ?_⟩
  simp only [List.map_cons, List.map_nil, HookEvent.ids, hargs]
  rfl

end SyscallMonitor
