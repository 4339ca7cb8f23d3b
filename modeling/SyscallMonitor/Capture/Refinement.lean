import SyscallMonitor.Capture.Keys
import SyscallMonitor.Lib.KeyedQueue

/-!
# The pending table is a bounded queue

`QueueSpec` says what return capture is for: a queue of at most 64 entries with distinct keys in
order of entry. `Represents` relates it to the table by listing the used slots in order of their
sequence numbers. Each event keeps the relation, and so the two write the same log as long as
`vmi_pending_seq` does not wrap.
-/

namespace SyscallMonitor

open Lib

/-! ### The specification -/

instance : NeZero vmiPendingMax := ⟨by decide⟩

/-- Entries in order of entry, with distinct keys. -/
abbrev PendingQueue := KeyedQueue Held.key vmiPendingMax

/-- Value and time of a return. -/
abbrev Answer := Int64 × Timeval

/-- The line written for an entry that leaves the queue. -/
def departureLine : Held × Departure Answer → Written
  | (p, .superseded) => p.written (.unfinished .superseded)
  | (p, .evicted) => p.written (.unfinished .evicted)
  | (p, .answered (ret, retTv)) => p.written (.value ret retTv)
  | (p, .flushed) => p.written (.unfinished .shutdown)

/-- The queue and the log written so far. -/
structure QueueSpec where
  queue : PendingQueue
  log : List Written

namespace QueueSpec

def init (log : List Written) : QueueSpec := ⟨.empty, log⟩

/-- The outcome of a queue operation, with a line for everything that left. -/
def after (s : QueueSpec) (r : PendingQueue × List (Held × Departure Answer)) : QueueSpec :=
  ⟨r.1, s.log ++ r.2.map departureLine⟩

def handle (s : QueueSpec) : HookEvent → QueueSpec
  | .entry cpuIndex env tv => s.after (s.queue.enter (.ofEntry cpuIndex env tv))
  | .ret _ env tv => s.after (s.queue.answer env.key ((env.regs rEax).toInt64, tv))
  | .flush => s.after s.queue.flush

def handleAll (s : QueueSpec) (es : List HookEvent) : QueueSpec := es.foldl handle s

end QueueSpec

/-! ### The used slots in order of their sequence numbers -/

/-- `order` lists the used slots by increasing sequence number, all of them below `seq`. -/
structure InOrder (t : Slot → VmiPending) (seq : UInt64) (order : List Slot) : Prop where
  mem : ∀ i, i ∈ order ↔ (t i).used = true
  sorted : order.Pairwise fun i j => (t i).seq < (t j).seq
  below : ∀ i ∈ order, (t i).seq < seq

namespace InOrder

variable {t : Slot → VmiPending} {seq : UInt64} {order : List Slot}

lemma nodup (hord : InOrder t seq order) : order.Nodup := by
  apply hord.sorted.imp
  rintro i j hij rfl
  exact UInt64.lt_irrefl _ hij

lemma freeKey (hord : InOrder t seq order) (key : PairKey) :
    InOrder (freeKey key t) seq (order.filter fun i => (t i).key ≠ key) := by
  refine ⟨?_, ?_, ?_⟩
  · intro i
    rw [List.mem_filter, hord.mem i, decide_eq_true_eq, freeKey_used]
  · simp only [freeKey_seq]
    exact hord.sorted.filter _
  · intro i hi
    rw [freeKey_seq]
    exact hord.below i (List.mem_of_mem_filter hi)

/-- A slot that is filled with the next sequence number becomes the last. -/
lemma store (hord : InOrder t seq order) (hseq : seq < seq + 1) (i : Slot) (cpuIndex : Int)
    (env : CPUX86State) (tv : Timeval) :
    InOrder (Function.update t i (.ofEntry seq cpuIndex env tv)) (seq + 1)
      ((order.filter fun j => j ≠ i) ++ [i]) := by
  have hself : Function.update t i (.ofEntry seq cpuIndex env tv) i
      = .ofEntry seq cpuIndex env tv := Function.update_self ..
  have hother : ∀ j ∈ order.filter fun j => j ≠ i,
      Function.update t i (.ofEntry seq cpuIndex env tv) j = t j := by
    intro j hj
    refine Function.update_of_ne ?_ _ _
    simpa using (List.mem_filter.mp hj).2
  refine ⟨?_, ?_, ?_⟩
  · intro j
    by_cases hji : j = i
    · subst hji
      simp [VmiPending.ofEntry]
    · simp [hji, hord.mem j]
  · refine List.pairwise_append.mpr ⟨?_, List.pairwise_singleton _ _, ?_⟩
    · apply (hord.sorted.filter _).imp_of_mem
      intro j k hj hk hjk
      rw [hother j hj, hother k hk]
      exact hjk
    · intro j hj k hk
      obtain rfl := List.mem_singleton.mp hk
      rw [hother j hj, hself]
      exact hord.below j (List.mem_of_mem_filter hj)
  · intro j hj
    rcases List.mem_append.mp hj with hj | hj
    · rw [hother j hj]
      exact UInt64.lt_trans (hord.below j (List.mem_of_mem_filter hj)) hseq
    · obtain rfl := List.mem_singleton.mp hj
      rw [hself]
      exact hseq

lemma release {c : Capture} (hord : InOrder c.vmiPending seq order) (i : Slot) :
    InOrder (c.release i).vmiPending seq (order.filter fun j => j ≠ i) := by
  have hother : ∀ j ∈ order.filter fun j => j ≠ i,
      (c.release i).vmiPending j = c.vmiPending j := by
    intro j hj
    refine Function.update_of_ne ?_ _ _
    simpa using (List.mem_filter.mp hj).2
  refine ⟨?_, ?_, ?_⟩
  · intro j
    by_cases hji : j = i
    · subst hji
      simp [Capture.release]
    · simp [Capture.release, hji, hord.mem j]
  · apply (hord.sorted.filter _).imp_of_mem
    intro j k hj hk hjk
    rw [hother j hj, hother k hk]
    exact hjk
  · intro j hj
    rw [hother j hj]
    exact hord.below j (List.mem_of_mem_filter hj)

/-- The oldest used slot comes first. -/
lemma eq_cons_of_oldestUsed (hord : InOrder t seq order) {i : Slot} (hi : oldestUsed t = some i) :
    order = i :: order.tail := by
  have hmem : i ∈ order := (hord.mem i).mpr (oldestUsed_used hi)
  cases order with
  | nil => simp at hmem
  | cons j rest =>
    rcases List.mem_cons.mp hmem with rfl | hrest
    · rfl
    · have hlt : (t j).seq < (t i).seq := List.rel_of_pairwise_cons hord.sorted hrest
      obtain ⟨k, hk, hkj⟩ := oldestUsed_le ((hord.mem j).mp List.mem_cons_self)
      obtain rfl : i = k := Option.some.inj (hi.symm.trans hk)
      exact absurd hlt (UInt64.not_lt.mpr hkj)

/-- A flush writes the slots in this order. -/
lemma eq_of_flushOrder (hord : InOrder t seq order) {l : List Slot} (hl : FlushOrder t l) :
    l = order := by
  have hperm : l.Perm order :=
    (List.perm_ext_iff_of_nodup hl.nodup hord.nodup).mpr fun i => by rw [hl.mem i, hord.mem i]
  have hsorted : order.Pairwise fun i j => (t i).seq ≤ (t j).seq :=
    hord.sorted.imp UInt64.le_of_lt
  refine hperm.eq_of_pairwise ?_ hl.sorted hsorted
  intro i j hi hj hij hji
  by_contra hne
  -- two used slots with equal sequence numbers
  have hstrict : order.Pairwise fun i j => (t i).seq ≠ (t j).seq :=
    hord.sorted.imp UInt64.ne_of_lt
  have : Std.Symm fun i j => (t i).seq ≠ (t j).seq := ⟨fun _ _ h => h.symm⟩
  exact hstrict.forall (hperm.mem_iff.mp hi) hj hne (UInt64.le_antisymm hij hji)

lemma length_of_full (hord : InOrder t seq order) (hfull : ∀ i, (t i).used = true) :
    order.length = vmiPendingMax := by
  have hperm : order.Perm slots := (List.perm_ext_iff_of_nodup hord.nodup nodup_slots).mpr
    fun i => by rw [hord.mem i]; simp [hfull i]
  rw [hperm.length_eq, slots, List.length_finRange]

lemma notMem_of_free (hord : InOrder t seq order) {i : Slot} (hi : (t i).used = false) :
    i ∉ order := by
  rw [hord.mem i, hi]
  exact Bool.false_ne_true

lemma length_lt_of_free (hord : InOrder t seq order) {i : Slot} (hi : (t i).used = false) :
    order.length < vmiPendingMax := by
  have hni : i ∉ order.toFinset := by
    rw [List.mem_toFinset]
    exact hord.notMem_of_free hi
  have hcard := Finset.card_lt_univ_of_notMem hni
  rwa [List.toFinset_card_of_nodup hord.nodup, Fintype.card_fin] at hcard

end InOrder

/-! ### The simulation -/

/-- The queue of `s` is what the used slots hold, in order, and the logs agree. -/
structure Represents (c : Capture) (order : List Slot) (s : QueueSpec) : Prop where
  inOrder : InOrder c.vmiPending c.vmiPendingSeq order
  queue : s.queue.toList = order.map fun i => (c.vmiPending i).held
  log : c.log = s.log

namespace Represents

variable {c : Capture} {order : List Slot} {s : QueueSpec}

lemma init (log : List Written) : Represents (.init log) [] (.init log) :=
  ⟨⟨fun i => by simp [Capture.init], .nil, by simp⟩, rfl, rfl⟩

lemma lookup_of_heldAt (hr : Represents c order s) {key : PairKey} {i : Slot}
    (hi : HeldAt c.vmiPending key i) : s.queue.lookup key = some (c.vmiPending i).held := by
  have hmem : (c.vmiPending i).held ∈ s.queue.toList := by
    rw [hr.queue]
    exact List.mem_map.mpr ⟨i, (hr.inOrder.mem i).mpr hi.1, rfl⟩
  rw [← hi.2, ← VmiPending.held_key]
  exact KeyedQueue.lookup_of_mem hmem

lemma lookup_of_not_heldAt (hr : Represents c order s) {key : PairKey}
    (hnone : ∀ i, ¬ HeldAt c.vmiPending key i) : s.queue.lookup key = none := by
  cases hlook : s.queue.lookup key with
  | none => rfl
  | some p =>
    obtain ⟨hp, hkey⟩ := KeyedQueue.lookup_eq_some hlook
    rw [hr.queue] at hp
    obtain ⟨i, hi, rfl⟩ := List.mem_map.mp hp
    exact absurd ⟨(hr.inOrder.mem i).mp hi, hkey⟩ (hnone i)

lemma keysDistinct (hr : Represents c order s) : KeysDistinct c.vmiPending := by
  intro k i j hi hj
  have hnodup := s.queue.nodup
  rw [hr.queue, List.map_map] at hnodup
  exact List.inj_on_of_nodup_map hnodup ((hr.inOrder.mem i).mpr hi.1)
    ((hr.inOrder.mem j).mpr hj.1) (hi.2.trans hj.2.symm)

/-- The queue without a key is what the slots hold after the pass of `vmi_handle_entry`. -/
lemma remove_queue (hr : Represents c order s) (key : PairKey) :
    (s.queue.remove key).toList = (order.filter fun i => (c.vmiPending i).key ≠ key).map
      fun i => (freeKey key c.vmiPending i).held := by
  simp only [KeyedQueue.toList_remove, hr.queue, List.filter_map, freeKey_held]
  rfl

/-- What the slots hold after an entry is stored in slot `i`. -/
lemma map_held_store (t : Slot → VmiPending) (l : List Slot) (i : Slot) (seq : UInt64)
    (cpuIndex : Int) (env : CPUX86State) (tv : Timeval) :
    ((l.filter fun j => j ≠ i) ++ [i]).map
        (fun j => (Function.update t i (.ofEntry seq cpuIndex env tv) j).held)
      = ((l.filter fun j => j ≠ i).map fun j => (t j).held) ++ [.ofEntry cpuIndex env tv] := by
  rw [List.map_append, List.map_singleton, Function.update_self, VmiPending.held_ofEntry]
  congr 1
  refine List.map_congr_left fun j hj => ?_
  rw [Function.update_of_ne]
  simpa using (List.mem_filter.mp hj).2

lemma filter_ne_of_notMem {i : Slot} {l : List Slot} (hi : i ∉ l) :
    (l.filter fun j => j ≠ i) = l := by
  apply List.filter_eq_self.mpr
  intro j hj
  rw [decide_eq_true_eq]
  rintro rfl
  exact hi hj

/-- What `vmi_handle_entry` does with the table, the queue does when the entry enters. -/
lemma enter (hr : Represents c order s) {i : Slot} {evicted : List Written} (cpuIndex : Int)
    (env : CPUX86State) (tv : Timeval)
    (hslot : EntrySlot (freeKey env.key c.vmiPending) i evicted) :
    ∃ q out, s.queue.enter (.ofEntry cpuIndex env tv) = (q, out) ∧
      q.toList = ((order.filter fun j => (c.vmiPending j).key ≠ env.key).filter
        fun j => j ≠ i).map (fun j => (freeKey env.key c.vmiPending j).held)
          ++ [.ofEntry cpuIndex env tv] ∧
      out.map departureLine = supersededLines env.key c.vmiPending slots ++ evicted := by
  by_cases hheld : ∃ j, HeldAt c.vmiPending env.key j
  · obtain ⟨j, hj⟩ := hheld
    refine ⟨_, _, KeyedQueue.enter_of_some (hr.lookup_of_heldAt hj), ?_, ?_⟩
    all_goals
      cases hslot with
      | evict hfull _ =>
        -- the pass has freed slot `j`, so the table is not full
        exact absurd rfl (freeKey_used.mp (hj.2 ▸ hfull j)).2
      | free hi => ?_
    · have hskip := (hr.inOrder.freeKey env.key).notMem_of_free hi
      rw [KeyedQueue.toList_push, filter_ne_of_notMem hskip, ← hr.remove_queue]
      rfl
    · rw [hr.keysDistinct.supersededLines_of_heldAt hj]
      rfl
  · have hnone : ∀ j, ¬ HeldAt c.vmiPending env.key j := not_exists.mp hheld
    have htable : freeKey env.key c.vmiPending = c.vmiPending :=
      funext fun j => freeKey_of_not_heldAt (hnone j)
    have hkeep : (order.filter fun j => (c.vmiPending j).key ≠ env.key) = order := by
      refine List.filter_eq_self.mpr fun j hj => ?_
      have hne : (c.vmiPending j).key ≠ env.key :=
        fun hk => hnone j ⟨(hr.inOrder.mem j).mp hj, hk⟩
      simpa using hne
    have hlook := hr.lookup_of_not_heldAt hnone
    have hlength : s.queue.toList.length = order.length := by rw [hr.queue, List.length_map]
    rw [supersededLines_of_not_heldAt hnone, hkeep, htable]
    rw [htable] at hslot
    cases hslot with
    | free hi =>
      have hroom : s.queue.toList.length < vmiPendingMax :=
        hlength ▸ hr.inOrder.length_lt_of_free hi
      refine ⟨_, _, KeyedQueue.enter_of_room hlook hroom, ?_, rfl⟩
      rw [KeyedQueue.toList_push, filter_ne_of_notMem (hr.inOrder.notMem_of_free hi), hr.queue]
    | evict hfull hi =>
      have hlen : s.queue.toList.length = vmiPendingMax :=
        hlength.trans (hr.inOrder.length_of_full hfull)
      have hcons := hr.inOrder.eq_cons_of_oldestUsed hi
      have hnodup := hr.inOrder.nodup
      rw [hcons] at hnodup
      refine ⟨_, _, KeyedQueue.enter_of_full hlook hlen, ?_, ?_⟩
      · rw [KeyedQueue.toList_push, KeyedQueue.toList_dropOldest, hr.queue, hcons,
          List.filter_cons_of_neg (by simp), filter_ne_of_notMem (List.nodup_cons.mp hnodup).1]
        rfl
      · rw [hr.queue, hcons]
        rfl

/-- The table follows the queue through an entry. -/
theorem entry {h : Hooks} (hret : h.vmiRetAddr ≠ 0) (hr : Represents c order s)
    (hseq : c.vmiPendingSeq < c.vmiPendingSeq + 1) (cpuIndex : Int) (env : CPUX86State)
    (tv : Timeval) :
    ∃ order', Represents (vmiHandleEntry h cpuIndex env tv c) order'
      (s.handle (.entry cpuIndex env tv)) := by
  obtain ⟨i, evicted, hslot, heq⟩ := vmiHandleEntry_cases hret cpuIndex env tv c
  obtain ⟨q, out, henter, hqueue, hout⟩ := hr.enter cpuIndex env tv hslot
  have hord := (hr.inOrder.freeKey env.key).store hseq i cpuIndex env tv
  rw [heq, QueueSpec.handle, henter]
  refine ⟨_, hord, ?_, ?_⟩
  · rw [map_held_store]
    exact hqueue
  · rw [QueueSpec.after, hout, ← hr.log, List.append_assoc]

/-- The table follows the queue through a return. -/
theorem ret (hr : Represents c order s) (cpuIndex : Int) (env : CPUX86State) (tv : Timeval) :
    ∃ order', Represents (vmiHandleReturn env tv c) order' (s.handle (.ret cpuIndex env tv)) := by
  rcases vmiHandleReturn_cases env tv c with ⟨i, hi, heq⟩ | ⟨hnone, heq⟩
  · rw [heq, QueueSpec.handle, KeyedQueue.answer_of_some _ (hr.lookup_of_heldAt hi)]
    refine ⟨_, hr.inOrder.release i, ?_, ?_⟩
    · have hsame : (order.filter fun j => j ≠ i)
          = order.filter fun j => (c.vmiPending j).key ≠ env.key := by
        refine List.filter_congr fun j hj => decide_eq_decide.mpr (not_congr ?_)
        constructor
        · rintro rfl
          exact hi.2
        · intro hk
          exact hr.keysDistinct env.key j i ⟨(hr.inOrder.mem j).mp hj, hk⟩ hi
      have hheld : ∀ j ∈ order.filter fun j => j ≠ i,
          (((c.writeEvent env.key ((c.vmiPending i).line
            (.value (env.regs rEax).toInt64 tv))).release i).vmiPending j).held
              = (freeKey env.key c.vmiPending j).held := by
        intro j hj
        have hji : j ≠ i := by simpa using (List.mem_filter.mp hj).2
        rw [freeKey_held]
        exact congrArg VmiPending.held (Function.update_of_ne hji _ _)
      rw [List.map_congr_left hheld, hsame, ← hr.remove_queue]
      rfl
    · rw [QueueSpec.after, ← hr.log, ← hi.2]
      rfl
  · rw [heq, QueueSpec.handle, KeyedQueue.answer_of_none _ (hr.lookup_of_not_heldAt hnone)]
    refine ⟨order, hr.inOrder, hr.queue, ?_⟩
    rw [QueueSpec.after, List.map_nil, List.append_nil, hr.log]

/-- The table follows the queue through a flush. -/
theorem flush (hr : Represents c order s) :
    Represents (vmiFlushPending .shutdown c) [] (s.handle .flush) := by
  obtain ⟨l, hl, hlog, -, hfree⟩ := vmiFlushPending_spec .shutdown c
  obtain rfl := hr.inOrder.eq_of_flushOrder hl
  refine ⟨⟨fun i => by simp [hfree i], .nil, by simp⟩, rfl, ?_⟩
  rw [hlog, QueueSpec.handle, QueueSpec.after, KeyedQueue.flush, hr.queue, ← hr.log,
    List.map_map, List.map_map]
  rfl

end Represents

/-! ### Whole traces -/

lemma QueueSpec.handleAll_concat (s : QueueSpec) (es : List HookEvent) (e : HookEvent) :
    s.handleAll (es ++ [e]) = (s.handleAll es).handle e := List.foldl_concat ..

/-- `vmi_pending_seq` counts the entries, modulo its width. -/
lemma vmiPendingSeq_handleAll {h : Hooks} (hret : h.vmiRetAddr ≠ 0) (es : List HookEvent) :
    ((Capture.init []).handleAll h es).vmiPendingSeq
      = UInt64.ofNat (es.countP HookEvent.isEntry) := by
  induction es using List.reverseRecOn with
  | nil => rfl
  | append_singleton es e ih =>
    rw [Capture.handleAll_concat, List.countP_append, UInt64.ofNat_add, ← ih]
    cases e with
    | entry cpuIndex env tv =>
      obtain ⟨i, evicted, -, heq⟩ :=
        vmiHandleEntry_cases hret cpuIndex env tv ((Capture.init []).handleAll h es)
      rw [Capture.handle, heq]
      rfl
    | ret _ env tv =>
      rcases vmiHandleReturn_cases env tv ((Capture.init []).handleAll h es) with
        ⟨i, _, heq⟩ | ⟨_, heq⟩
      · rw [Capture.handle, heq]
        exact (UInt64.add_zero _).symm
      · rw [Capture.handle, heq]
        exact (UInt64.add_zero _).symm
    | flush =>
      obtain ⟨l, -, -, hseq, -⟩ :=
        vmiFlushPending_spec .shutdown ((Capture.init []).handleAll h es)
      rw [Capture.handle, hseq]
      exact (UInt64.add_zero _).symm

lemma lt_succ_of_countP {n : ℕ} (hn : n + 1 < 2 ^ 64) :
    UInt64.ofNat n < UInt64.ofNat n + 1 := by
  have hsucc : UInt64.ofNat n + 1 = UInt64.ofNat (n + 1) := (UInt64.ofNat_add n 1).symm
  rw [hsucc, UInt64.lt_iff_toNat_lt, UInt64.toNat_ofNat_of_lt' (Nat.lt_of_succ_lt hn),
    UInt64.toNat_ofNat_of_lt' hn]
  exact Nat.lt_succ_self n

/-- Run rule: the table follows the queue through any trace with fewer than 2^64 entries. -/
theorem represents_handleAll {h : Hooks} (hret : h.vmiRetAddr ≠ 0) (es : List HookEvent)
    (hcount : es.countP HookEvent.isEntry < 2 ^ 64) :
    ∃ order, Represents ((Capture.init []).handleAll h es) order
      ((QueueSpec.init []).handleAll es) := by
  induction es using List.reverseRecOn with
  | nil => exact ⟨[], Represents.init []⟩
  | append_singleton es e ih =>
    rw [List.countP_append] at hcount
    obtain ⟨order, hr⟩ := ih (by omega)
    rw [Capture.handleAll_concat, QueueSpec.handleAll_concat]
    cases e with
    | entry cpuIndex env tv =>
      refine hr.entry hret ?_ cpuIndex env tv
      rw [vmiPendingSeq_handleAll hret]
      exact lt_succ_of_countP hcount
    | ret cpuIndex env tv => exact hr.ret cpuIndex env tv
    | flush => exact ⟨[], hr.flush⟩

/-- The entry `w` reports was the oldest of 64 when an entry of another key came in. -/
def EvictedAsOldest (es : List HookEvent) (w : Written) : Prop :=
  ∃ pre cpuIndex env tv post p, es = pre ++ .entry cpuIndex env tv :: post ∧
    ((QueueSpec.init []).handleAll pre).queue.toList.length = vmiPendingMax ∧
    ((QueueSpec.init []).handleAll pre).queue.toList.head? = some p ∧
    env.key ∉ ((QueueSpec.init []).handleAll pre).queue.toList.map Held.key ∧
    w = p.written (.unfinished .evicted)

lemma EvictedAsOldest.concat {es : List HookEvent} {w : Written} (h : EvictedAsOldest es w)
    (e : HookEvent) : EvictedAsOldest (es ++ [e]) w := by
  obtain ⟨pre, cpuIndex, env, tv, post, p, hsplit, hrest⟩ := h
  exact ⟨pre, cpuIndex, env, tv, post ++ [e], p, by simp [hsplit], hrest⟩

/-- The queue operation that writes a line as `evicted` is an entry into a full queue. -/
lemma QueueSpec.evicted_mem_handle (es : List HookEvent) (e : HookEvent) {w : Written}
    (hw : w ∈ ((QueueSpec.init []).handleAll (es ++ [e])).log)
    (hold : w ∉ ((QueueSpec.init []).handleAll es).log)
    (hkind : w.line.kind = .unfinished .evicted) : EvictedAsOldest (es ++ [e]) w := by
  rw [QueueSpec.handleAll_concat] at hw
  cases e with
  | entry cpuIndex env tv =>
    obtain ⟨⟨p, departure⟩, hmem, rfl⟩ :=
      List.mem_map.mp ((List.mem_append.mp hw).resolve_left hold)
    cases departure with
    | evicted =>
      obtain ⟨hlen, hhead, hkey⟩ := KeyedQueue.evicted_mem_enter hmem
      exact ⟨es, cpuIndex, env, tv, [], p, rfl, hlen, hhead, hkey, rfl⟩
    | superseded => simp [departureLine, Held.written] at hkind
    | answered r => simp [departureLine, Held.written] at hkind
    | flushed => simp [departureLine, Held.written] at hkind
  | ret cpuIndex env tv =>
    obtain ⟨⟨p, departure⟩, hmem, rfl⟩ :=
      List.mem_map.mp ((List.mem_append.mp hw).resolve_left hold)
    obtain rfl := KeyedQueue.answered_of_mem_answer hmem
    simp [departureLine, Held.written] at hkind
  | flush =>
    obtain ⟨⟨p, departure⟩, hmem, rfl⟩ :=
      List.mem_map.mp ((List.mem_append.mp hw).resolve_left hold)
    obtain ⟨_, -, heq⟩ := List.mem_map.mp hmem
    obtain ⟨rfl, rfl⟩ := Prod.mk.inj heq
    simp [departureLine, Held.written] at hkind

lemma QueueSpec.evicted_mem_handleAll (es : List HookEvent) {w : Written}
    (hw : w ∈ ((QueueSpec.init []).handleAll es).log)
    (hkind : w.line.kind = .unfinished .evicted) : EvictedAsOldest es w := by
  induction es using List.reverseRecOn with
  | nil => simp [QueueSpec.handleAll, QueueSpec.init] at hw
  | append_singleton es e ih =>
    by_cases hold : w ∈ ((QueueSpec.init []).handleAll es).log
    · exact (ih hold).concat e
    · exact QueueSpec.evicted_mem_handle es e hw hold hkind

/-- **Refinement.** With fewer than 2^64 entries the slot array writes the log of the bounded
queue, line by line; in particular it evicts an entry only as the oldest of 64. -/
theorem handleAll_refines (h : Hooks) (hret : h.vmiRetAddr ≠ 0) (es : List HookEvent)
    (hcount : es.countP HookEvent.isEntry < 2 ^ 64) :
    ((Capture.init []).handleAll h es).log = ((QueueSpec.init []).handleAll es).log ∧
      ∀ w ∈ ((Capture.init []).handleAll h es).log, w.line.kind = .unfinished .evicted →
        EvictedAsOldest es w := by
  obtain ⟨order, hr⟩ := represents_handleAll hret es hcount
  refine ⟨hr.log, ?_⟩
  intro w hw hkind
  rw [hr.log] at hw
  exact QueueSpec.evicted_mem_handleAll es hw hkind

/-- `handleAll_refines` on two contexts whose syscalls overlap. -/
theorem nginx_handleAll_refines :
    nginxHooks.vmiRetAddr ≠ 0 ∧
      ((Capture.init []).handleAll nginxHooks
          [.entry 0 ⟨fun _ => 1, 0x101000⟩ ⟨10, 0⟩, .entry 0 ⟨fun _ => 2, 0x101000⟩ ⟨10, 5⟩,
            .ret 0 ⟨fun _ => 1, 0x1010da⟩ ⟨10, 9⟩, .flush]).log
        = ((QueueSpec.init []).handleAll
          [.entry 0 ⟨fun _ => 1, 0x101000⟩ ⟨10, 0⟩, .entry 0 ⟨fun _ => 2, 0x101000⟩ ⟨10, 5⟩,
            .ret 0 ⟨fun _ => 1, 0x1010da⟩ ⟨10, 9⟩, .flush]).log :=
  ⟨by decide, (handleAll_refines nginxHooks (by decide) _ (by decide)).1⟩

end SyscallMonitor
