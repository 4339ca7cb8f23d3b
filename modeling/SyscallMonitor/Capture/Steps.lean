import SyscallMonitor.Capture.Scan
import Mathlib.Data.List.Nodup

/-!
# What one event does to the table and the log

One inversion lemma for each of the three functions that change the table with return capture on:
`vmiHandleEntry_cases`, `vmiHandleReturn_cases` and `vmiFlushPending_spec`. The results about whole
traces are derived from these and never look into the functions again.
-/

namespace SyscallMonitor

/-! ### Entry -/

/-- The slot that `vmi_handle_entry` fills, and the line it writes if it has to evict: a slot that
is free after the pass, or the oldest entry of a full table. -/
inductive EntrySlot (t : Slot → VmiPending) : Slot → List Written → Prop where
  | free {i : Slot} (hi : (t i).used = false) : EntrySlot t i []
  | evict {i : Slot} (hfull : ∀ j, (t j).used = true) (hi : oldestUsed t = some i) :
      EntrySlot t i [⟨(t i).key, (t i).line (.unfinished .evicted)⟩]

/-- The state after `vmi_handle_entry`: the entries of the same key are written as superseded and
freed, then perhaps the oldest one is evicted, then the new entry is stored. -/
theorem vmiHandleEntry_cases {h : Hooks} (hret : h.vmiRetAddr ≠ 0) (cpuIndex : Int)
    (env : CPUX86State) (tv : Timeval) (c : Capture) :
    ∃ i evicted, EntrySlot (freeKey env.key c.vmiPending) i evicted ∧
      vmiHandleEntry h cpuIndex env tv c =
        { vmiPending := Function.update (freeKey env.key c.vmiPending) i
            (.ofEntry c.vmiPendingSeq cpuIndex env tv)
          vmiPendingSeq := c.vmiPendingSeq + 1
          log := c.log ++ supersededLines env.key c.vmiPending slots ++ evicted } := by
  have hscan := entryScan_eq env.key c
  rw [vmiHandleEntry]
  rw [if_neg hret]
  dsimp only
  cases hslot : (entryScan env.key c).slot with
  | some i =>
    refine ⟨i, [], .free (entryScan_slot_free hslot), ?_⟩
    simp only [hscan, Capture.hold, List.append_nil]
  | none =>
    cases hold : (entryScan env.key c).oldest with
    | none => exact absurd hold (entryScan_slot_or_oldest hslot)
    | some i =>
      have hi : oldestUsed (freeKey env.key c.vmiPending) = some i := by
        rw [hscan] at hold
        exact hold
      refine ⟨i, _, .evict (entryScan_full hslot) hi, ?_⟩
      simp only [hscan, vmiWriteUnfinished, Capture.writeEvent, Capture.release, Capture.hold,
        Function.update_idem]

/-! ### Return -/

lemma findPending_eq_some {c : Capture} {key : PairKey} {i : Slot}
    (h : findPending c key = some i) : HeldAt c.vmiPending key i := by
  have hi := List.find?_some h
  simpa [HeldAt] using hi

lemma findPending_eq_none {c : Capture} {key : PairKey} (h : findPending c key = none) (i : Slot) :
    ¬ HeldAt c.vmiPending key i := by
  have hi := List.find?_eq_none.mp h i (mem_slots i)
  simpa [HeldAt] using hi

/-- `vmi_handle_return` writes and frees one entry of its key, or finds none and does nothing. -/
theorem vmiHandleReturn_cases (env : CPUX86State) (tv : Timeval) (c : Capture) :
    (∃ i, HeldAt c.vmiPending env.key i ∧ vmiHandleReturn env tv c =
        (c.writeEvent env.key
          ((c.vmiPending i).line (.value (env.regs rEax).toInt64 tv))).release i) ∨
    ((∀ i, ¬ HeldAt c.vmiPending env.key i) ∧ vmiHandleReturn env tv c = c) := by
  rw [vmiHandleReturn]
  cases hfind : findPending c env.key with
  | some i =>
    have hi := findPending_eq_some hfind
    exact Or.inl ⟨i, hi, by rw [← hi.2]⟩
  | none => exact Or.inr ⟨findPending_eq_none hfind, rfl⟩

/-! ### Flush -/

lemma vmiFlushPending_of_none {why : UnfinishedWhy} {c : Capture}
    (h : oldestUsed c.vmiPending = none) : vmiFlushPending why c = c := by
  rw [vmiFlushPending]
  split
  · rfl
  · rename_i hsome
    rw [h] at hsome
    cases hsome

lemma vmiFlushPending_of_some {why : UnfinishedWhy} {c : Capture} {i : Slot}
    (h : oldestUsed c.vmiPending = some i) :
    vmiFlushPending why c = vmiFlushPending why (vmiWriteUnfinished c i why) := by
  rw [vmiFlushPending]
  split
  · rename_i hnone
    rw [h] at hnone
    cases hnone
  · rename_i j hsome
    obtain rfl : i = j := Option.some.inj (h.symm.trans hsome)
    rfl

@[simp] lemma vmiWriteUnfinished_log (c : Capture) (i : Slot) (why : UnfinishedWhy) :
    (vmiWriteUnfinished c i why).log
      = c.log ++ [⟨(c.vmiPending i).key, (c.vmiPending i).line (.unfinished why)⟩] := rfl

lemma vmiWriteUnfinished_self (c : Capture) (i : Slot) (why : UnfinishedWhy) :
    ((vmiWriteUnfinished c i why).vmiPending i).used = false := by
  simp [vmiWriteUnfinished, Capture.writeEvent, Capture.release]

lemma vmiWriteUnfinished_of_ne {c : Capture} {i j : Slot} (why : UnfinishedWhy) (hji : j ≠ i) :
    (vmiWriteUnfinished c i why).vmiPending j = c.vmiPending j := by
  simp [vmiWriteUnfinished, Capture.writeEvent, Capture.release, hji]

/-- The slots of a list whose entries `vmi_flush_pending` writes, in the order of writing: each used
slot once, each no younger than the ones after it. -/
structure FlushOrder (t : Slot → VmiPending) (l : List Slot) : Prop where
  nodup : l.Nodup
  mem : ∀ i, i ∈ l ↔ (t i).used = true
  sorted : l.Pairwise fun i j => (t i).seq ≤ (t j).seq

lemma FlushOrder.cons {c : Capture} {why : UnfinishedWhy} {i : Slot} {l : List Slot}
    (hi : oldestUsed c.vmiPending = some i)
    (hl : FlushOrder (vmiWriteUnfinished c i why).vmiPending l) :
    FlushOrder c.vmiPending (i :: l) := by
  have hil : i ∉ l := by
    intro hmem
    have hused := (hl.mem i).mp hmem
    rw [vmiWriteUnfinished_self] at hused
    cases hused
  have hother : ∀ j ∈ l, (vmiWriteUnfinished c i why).vmiPending j = c.vmiPending j := by
    intro j hj
    exact vmiWriteUnfinished_of_ne why fun hji => hil (hji ▸ hj)
  refine ⟨List.nodup_cons.mpr ⟨hil, hl.nodup⟩, ?_, List.pairwise_cons.mpr ⟨?_, ?_⟩⟩
  · intro j
    by_cases hji : j = i
    · subst hji
      simp [oldestUsed_used hi]
    · rw [List.mem_cons, hl.mem j, vmiWriteUnfinished_of_ne why hji]
      simp [hji]
  · intro j hj
    have hused : (c.vmiPending j).used = true := by
      rw [← hother j hj]
      exact (hl.mem j).mp hj
    obtain ⟨k, hk, hkj⟩ := oldestUsed_le hused
    obtain rfl : i = k := Option.some.inj (hi.symm.trans hk)
    exact hkj
  · apply hl.sorted.imp_of_mem
    intro j k hj hk hjk
    rwa [hother j hj, hother k hk] at hjk

/-- `vmi_flush_pending` writes every held entry once, oldest first, and empties the table. -/
theorem vmiFlushPending_spec (why : UnfinishedWhy) (c : Capture) :
    ∃ l, FlushOrder c.vmiPending l ∧
      (vmiFlushPending why c).log = c.log ++ l.map (fun i =>
        ⟨(c.vmiPending i).key, (c.vmiPending i).line (.unfinished why)⟩) ∧
      (vmiFlushPending why c).vmiPendingSeq = c.vmiPendingSeq ∧
      ∀ i, ((vmiFlushPending why c).vmiPending i).used = false := by
  induction c using vmiFlushPending.induct why with
  | case1 c hnone =>
    have hfree := oldestUsed_eq_none_iff.mp hnone
    rw [vmiFlushPending_of_none hnone]
    exact ⟨[], ⟨List.nodup_nil, fun i => by simp [hfree i], .nil⟩, by simp, rfl, hfree⟩
  | case2 c i hsome ih =>
    obtain ⟨l, hl, hlog, hseq, hfree⟩ := ih
    rw [vmiFlushPending_of_some hsome]
    have horder := FlushOrder.cons hsome hl
    refine ⟨i :: l, horder, ?_, hseq, hfree⟩
    have hil : i ∉ l := (List.nodup_cons.mp horder.nodup).1
    have hother : ∀ j ∈ l, (vmiWriteUnfinished c i why).vmiPending j = c.vmiPending j := by
      intro j hj
      exact vmiWriteUnfinished_of_ne why fun hji => hil (hji ▸ hj)
    rw [hlog, vmiWriteUnfinished_log, List.append_assoc, List.singleton_append, List.map_cons]
    congr 2
    exact List.map_congr_left fun j hj => by rw [hother j hj]

end SyscallMonitor
