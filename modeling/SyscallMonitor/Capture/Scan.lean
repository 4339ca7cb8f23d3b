import SyscallMonitor.Capture.Pending
import Mathlib.Tactic.Linarith

/-!
# What the loops over the table compute

`vmi_handle_entry` frees the slots of its own key, picks a free slot and looks for the oldest
entry in one pass over a table that changes during the pass. `entryScan_eq` separates the three:
the table after the pass is `freeKey`, and slot and oldest entry are found in that table.
-/

namespace SyscallMonitor

/-- Slot `i` holds an entry under `key`. -/
def HeldAt (t : Slot → VmiPending) (key : PairKey) (i : Slot) : Prop :=
  (t i).used = true ∧ (t i).key = key

instance (t : Slot → VmiPending) (key : PairKey) : DecidablePred (HeldAt t key) := fun _ =>
  inferInstanceAs (Decidable (_ ∧ _))

lemma heldAt_congr {t t' : Slot → VmiPending} {key : PairKey} {i : Slot} (h : t i = t' i) :
    HeldAt t key i ↔ HeldAt t' key i := by
  simp only [HeldAt, h]

/-! ### The oldest used slot -/

lemma keepOldest_of_not_used {t : Slot → VmiPending} {o : Option Slot} {i : Slot}
    (hi : (t i).used = false) : keepOldest t o i = o := by
  simp [keepOldest, hi]

/-- The search reads only the flag of the slot it looks at and the sequence numbers. -/
lemma keepOldest_congr {t t' : Slot → VmiPending} {o : Option Slot} {i : Slot}
    (hused : (t i).used = (t' i).used) (hseq : ∀ j, (t j).seq = (t' j).seq) :
    keepOldest t o i = keepOldest t' o i := by
  simp only [keepOldest, hused, hseq]

/-- After a used slot the candidate is at most as old as that slot and as the candidate before. -/
lemma keepOldest_le {t : Slot → VmiPending} {o : Option Slot} {i j : Slot}
    (hj : j ∈ o ∨ j = i ∧ (t i).used = true) :
    ∃ k ∈ keepOldest t o i, (t k).seq ≤ (t j).seq := by
  simp only [keepOldest]
  rcases hj with hj | ⟨rfl, hused⟩
  · rw [Option.mem_def] at hj
    subst hj
    split_ifs with hi
    · simp only
      split_ifs with hlt
      · exact ⟨i, rfl, UInt64.le_of_lt hlt⟩
      · exact ⟨j, rfl, UInt64.le_refl _⟩
    · exact ⟨j, rfl, UInt64.le_refl _⟩
  · rw [if_pos hused]
    cases o with
    | none => exact ⟨j, rfl, UInt64.le_refl _⟩
    | some k =>
      simp only
      split_ifs with hlt
      · exact ⟨j, rfl, UInt64.le_refl _⟩
      · exact ⟨k, rfl, UInt64.not_lt.mp hlt⟩

lemma foldl_keepOldest_le {t : Slot → VmiPending} (l : List Slot) {o : Option Slot} {j : Slot}
    (hj : j ∈ o ∨ j ∈ l ∧ (t j).used = true) :
    ∃ k ∈ l.foldl (keepOldest t) o, (t k).seq ≤ (t j).seq := by
  induction l generalizing o j with
  | nil =>
    rcases hj with hj | ⟨hj, _⟩
    · exact ⟨j, hj, UInt64.le_refl _⟩
    · simp at hj
  | cons i l ih =>
    have hhead : (j ∈ o ∨ j = i ∧ (t i).used = true) ∨ j ∈ l ∧ (t j).used = true := by
      rcases hj with hj | ⟨hj, hused⟩
      · exact Or.inl (Or.inl hj)
      · rcases List.mem_cons.mp hj with rfl | hmem
        · exact Or.inl (Or.inr ⟨rfl, hused⟩)
        · exact Or.inr ⟨hmem, hused⟩
    rcases hhead with hhead | htail
    · obtain ⟨k, hk, hkj⟩ := keepOldest_le hhead
      obtain ⟨m, hm, hmk⟩ := ih (Or.inl hk)
      exact ⟨m, hm, UInt64.le_trans hmk hkj⟩
    · exact ih (Or.inr htail)

/-- Every used slot is at least as young as the one that `oldestUsed` answers. -/
theorem oldestUsed_le {t : Slot → VmiPending} {j : Slot} (hj : (t j).used = true) :
    ∃ k ∈ oldestUsed t, (t k).seq ≤ (t j).seq :=
  foldl_keepOldest_le slots (Or.inr ⟨mem_slots j, hj⟩)

lemma oldestUsed_eq_none_iff {t : Slot → VmiPending} :
    oldestUsed t = none ↔ ∀ i, (t i).used = false := by
  constructor
  · intro hnone i
    by_contra hused
    obtain ⟨k, hk, _⟩ := oldestUsed_le (t := t) (j := i) (by simpa using hused)
    rw [hnone] at hk
    cases hk
  · intro hfree
    cases h : oldestUsed t with
    | none => rfl
    | some i =>
      have := oldestUsed_used h
      rw [hfree i] at this
      cases this

/-! ### The pass of `vmi_handle_entry` -/

/-- The table with the slots of `key` freed. -/
def freeKey (key : PairKey) (t : Slot → VmiPending) (i : Slot) : VmiPending :=
  if HeldAt t key i then { t i with used := false } else t i

lemma freeKey_of_heldAt {key : PairKey} {t : Slot → VmiPending} {i : Slot}
    (hi : HeldAt t key i) : freeKey key t i = { t i with used := false } :=
  if_pos hi

lemma freeKey_of_not_heldAt {key : PairKey} {t : Slot → VmiPending} {i : Slot}
    (hi : ¬ HeldAt t key i) : freeKey key t i = t i :=
  if_neg hi

lemma freeKey_congr {key : PairKey} {t t' : Slot → VmiPending} {i : Slot} (h : t i = t' i) :
    freeKey key t i = freeKey key t' i := by
  by_cases hi : HeldAt t key i
  · rw [freeKey_of_heldAt hi, freeKey_of_heldAt ((heldAt_congr h).mp hi), h]
  · rw [freeKey_of_not_heldAt hi, freeKey_of_not_heldAt (fun h' => hi ((heldAt_congr h).mpr h')), h]

@[simp] lemma freeKey_seq (key : PairKey) (t : Slot → VmiPending) (i : Slot) :
    (freeKey key t i).seq = (t i).seq := by
  rw [freeKey]
  split_ifs <;> rfl

@[simp] lemma freeKey_key (key : PairKey) (t : Slot → VmiPending) (i : Slot) :
    (freeKey key t i).key = (t i).key := by
  rw [freeKey]
  split_ifs <;> rfl

lemma freeKey_used {key : PairKey} {t : Slot → VmiPending} {i : Slot} :
    (freeKey key t i).used = true ↔ (t i).used = true ∧ (t i).key ≠ key := by
  by_cases h : HeldAt t key i
  · rw [freeKey_of_heldAt h]
    simp [h.2]
  · rw [freeKey_of_not_heldAt h]
    exact ⟨fun hu => ⟨hu, fun hk => h ⟨hu, hk⟩⟩, And.left⟩

/-- The `superseded` lines that the pass writes, in index order. -/
def supersededLines (key : PairKey) (t : Slot → VmiPending) (l : List Slot) : List Written :=
  (l.filter fun i => HeldAt t key i).map fun i =>
    ⟨key, (t i).line (.unfinished .superseded)⟩

lemma supersede_of_heldAt {key : PairKey} {c : Capture} {i : Slot}
    (h : HeldAt c.vmiPending key i) :
    supersede key c i = vmiWriteUnfinished c i .superseded :=
  if_pos h

lemma supersede_of_not_heldAt {key : PairKey} {c : Capture} {i : Slot}
    (h : ¬ HeldAt c.vmiPending key i) : supersede key c i = c :=
  if_neg h

lemma supersede_vmiPending (key : PairKey) (c : Capture) (i : Slot) :
    (supersede key c i).vmiPending
      = Function.update c.vmiPending i (freeKey key c.vmiPending i) := by
  by_cases h : HeldAt c.vmiPending key i
  · rw [supersede_of_heldAt h, freeKey_of_heldAt h]
    rfl
  · rw [supersede_of_not_heldAt h, freeKey_of_not_heldAt h, Function.update_eq_self]

lemma supersede_log (key : PairKey) (c : Capture) (i : Slot) :
    (supersede key c i).log = c.log ++ supersededLines key c.vmiPending [i] := by
  rw [supersededLines]
  by_cases h : HeldAt c.vmiPending key i
  · rw [supersede_of_heldAt h, List.filter_cons_of_pos (by simpa using h)]
    simp [vmiWriteUnfinished, Capture.writeEvent, Capture.release, h.2]
  · rw [supersede_of_not_heldAt h, List.filter_cons_of_neg (by simpa using h)]
    simp

@[simp] lemma supersede_seq (key : PairKey) (c : Capture) (i : Slot) :
    (supersede key c i).vmiPendingSeq = c.vmiPendingSeq := by
  rw [supersede]
  split_ifs <;> rfl

lemma supersededLines_cons (key : PairKey) (t : Slot → VmiPending) (i : Slot) (l : List Slot) :
    supersededLines key t (i :: l) = supersededLines key t [i] ++ supersededLines key t l := by
  simp only [supersededLines, ← List.map_append, ← List.filter_append, List.singleton_append]

lemma supersededLines_congr {key : PairKey} {t t' : Slot → VmiPending} {l : List Slot}
    (h : ∀ i ∈ l, t i = t' i) : supersededLines key t l = supersededLines key t' l := by
  have hfilter : (l.filter fun i => HeldAt t key i) = l.filter fun i => HeldAt t' key i := by
    exact List.filter_congr fun i hi => decide_eq_decide.mpr (heldAt_congr (h i hi))
  rw [supersededLines]
  rw [hfilter]
  refine List.map_congr_left fun i hi => ?_
  rw [h i (List.mem_of_mem_filter hi)]

/-- What the pass still has to do with the slots `l` when the others are already treated. -/
def scanRest (key : PairKey) (t : Slot → VmiPending) (st : EntryScan) (l : List Slot) :
    EntryScan where
  capture :=
    { st.capture with
      vmiPending := freeKey key t
      log := st.capture.log ++ supersededLines key t l }
  slot := st.slot.or (l.find? fun i => !(freeKey key t i).used)
  oldest := l.foldl (keepOldest (freeKey key t)) st.oldest

/-- The state of the pass: the slots of `l` are as in the table `t` it started from, the others
are as in `freeKey key t`. -/
def ScanState (key : PairKey) (t : Slot → VmiPending) (l : List Slot) (st : EntryScan) : Prop :=
  ∀ i, st.capture.vmiPending i = if i ∈ l then t i else freeKey key t i

lemma ScanState.body {key : PairKey} {t : Slot → VmiPending} {l : List Slot} {i : Slot}
    {st : EntryScan} (hst : ScanState key t (i :: l) st) (hi : i ∉ l) :
    ScanState key t l (entryScanBody key st i) := by
  have hcap : (entryScanBody key st i).capture = supersede key st.capture i := by
    unfold entryScanBody
    dsimp only
    split_ifs <;> rfl
  intro j
  rw [hcap, supersede_vmiPending]
  by_cases hji : j = i
  · subst hji
    have hhead : st.capture.vmiPending j = t j := by rw [hst j, if_pos List.mem_cons_self]
    rw [Function.update_self, if_neg hi]
    exact freeKey_congr hhead
  · rw [Function.update_of_ne hji, hst j]
    simp only [List.mem_cons, hji, false_or]

lemma ScanState.scanRest_body {key : PairKey} {t : Slot → VmiPending} {l : List Slot} {i : Slot}
    {st : EntryScan} (hst : ScanState key t (i :: l) st) (hi : i ∉ l) :
    scanRest key t (entryScanBody key st i) l = scanRest key t st (i :: l) := by
  have hhead : st.capture.vmiPending i = t i := by rw [hst i, if_pos List.mem_cons_self]
  have hpend : (supersede key st.capture i).vmiPending i = freeKey key t i := by
    rw [supersede_vmiPending, Function.update_self]
    exact freeKey_congr hhead
  have hseq : ∀ j, ((supersede key st.capture i).vmiPending j).seq = (freeKey key t j).seq := by
    intro j
    rw [supersede_vmiPending]
    by_cases hji : j = i
    · subst hji
      rw [Function.update_self, freeKey_seq, hhead, freeKey_seq]
    · rw [Function.update_of_ne hji, hst j]
      split_ifs <;> simp
  have hlog : (supersede key st.capture i).log ++ supersededLines key t l
      = st.capture.log ++ supersededLines key t (i :: l) := by
    have hone : supersededLines key st.capture.vmiPending [i] = supersededLines key t [i] :=
      supersededLines_congr (by simpa using hhead)
    rw [supersede_log, hone, supersededLines_cons key t i l, List.append_assoc]
  have hold := keepOldest_congr (o := st.oldest) (congrArg VmiPending.used hpend) hseq
  unfold entryScanBody scanRest
  dsimp only
  rw [hpend]
  by_cases hused : (freeKey key t i).used = true
  · simp only [hused, ↓reduceIte, hlog, hold, List.find?_cons, Bool.not_true, List.foldl_cons,
      supersede_seq]
  · have hfree : (freeKey key t i).used = false := by simpa using hused
    simp only [hfree, Bool.false_eq_true, ↓reduceIte, hlog, List.find?_cons, Bool.not_false,
      List.foldl_cons, keepOldest_of_not_used hfree, supersede_seq, Option.or_some,
      Option.some_or]

lemma foldl_entryScanBody {key : PairKey} {t : Slot → VmiPending} {l : List Slot} (hl : l.Nodup)
    {st : EntryScan} (hst : ScanState key t l st) :
    l.foldl (entryScanBody key) st = scanRest key t st l := by
  induction l generalizing st with
  | nil =>
    have htable : st.capture.vmiPending = freeKey key t := by
      funext i
      simpa using hst i
    simp [scanRest, supersededLines, ← htable]
  | cons i l ih =>
    obtain ⟨hi, hl⟩ := List.nodup_cons.mp hl
    rw [List.foldl_cons, ih hl (hst.body hi), hst.scanRest_body hi]

/-- The pass of `vmi_handle_entry`, part by part. -/
theorem entryScan_eq (key : PairKey) (c : Capture) :
    entryScan key c =
      { capture :=
          { c with
            vmiPending := freeKey key c.vmiPending
            log := c.log ++ supersededLines key c.vmiPending slots }
        slot := slots.find? fun i => !(freeKey key c.vmiPending i).used
        oldest := oldestUsed (freeKey key c.vmiPending) } := by
  rw [entryScan]
  rw [foldl_entryScanBody nodup_slots (t := c.vmiPending) (fun i => by simp)]
  simp [scanRest, oldestUsed]

lemma entryScan_slot_free {key : PairKey} {c : Capture} {i : Slot}
    (h : (entryScan key c).slot = some i) : (freeKey key c.vmiPending i).used = false := by
  rw [entryScan_eq] at h
  simpa using List.find?_some h

lemma entryScan_full {key : PairKey} {c : Capture} (h : (entryScan key c).slot = none) (i : Slot) :
    (freeKey key c.vmiPending i).used = true := by
  rw [entryScan_eq] at h
  simpa using List.find?_eq_none.mp h i (mem_slots i)

/-- A pass that finds no free slot finds an oldest entry, so `vmi_handle_entry` never dereferences
NULL. -/
lemma entryScan_slot_or_oldest {key : PairKey} {c : Capture} (h : (entryScan key c).slot = none) :
    (entryScan key c).oldest ≠ none := by
  have hfull := entryScan_full h
  rw [entryScan_eq]
  intro hnone
  have hpos : 0 < vmiPendingMax := by decide
  have hfree := oldestUsed_eq_none_iff.mp hnone ⟨0, hpos⟩
  rw [hfull] at hfree
  cases hfree

end SyscallMonitor
