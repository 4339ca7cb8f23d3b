import SyscallMonitor.Capture.Keys

/-!
# Pairing does not depend on the interleaving

For one context, return capture is a machine with a single slot, `OneSlot`. As long as fewer than
64 other keys are outstanding at every entry, the lines written for a key are those of the
one-slot machine fed with the events of that key alone.
-/

namespace SyscallMonitor

/-- The events that the one-slot machine of a key sees: its own, and the flush of everything. -/
def HookEvent.concerns (k : PairKey) : HookEvent → Bool
  | .entry _ env _ => env.key = k
  | .ret _ env _ => env.key = k
  | .flush => true

/-- The pending entry of one context, and the lines written for it. -/
structure OneSlot where
  pending : Option Held
  log : List Written

namespace OneSlot

def init : OneSlot := ⟨none, []⟩

/-- Write the pending entry, if there is one. -/
def write (s : OneSlot) (kind : VmiRetKind) : List Written :=
  s.log ++ (s.pending.map fun p => p.written kind).toList

def handle (s : OneSlot) : HookEvent → OneSlot
  | .entry cpuIndex env tv =>
    ⟨some (.ofEntry cpuIndex env tv), s.write (.unfinished .superseded)⟩
  | .ret _ env tv => ⟨none, s.write (.value (env.regs rEax).toInt64 tv)⟩
  | .flush => ⟨none, s.write (.unfinished .shutdown)⟩

lemma write_some {s : OneSlot} {p : Held} (hs : s.pending = some p) (kind : VmiRetKind) :
    s.write kind = s.log ++ [p.written kind] := by
  simp [write, hs]

lemma write_none {s : OneSlot} (hs : s.pending = none) (kind : VmiRetKind) :
    s.write kind = s.log := by
  simp [write, hs]

end OneSlot

/-- The one-slot machine of key `k` after its own events among `es`. -/
def oneSlot (k : PairKey) (es : List HookEvent) : OneSlot :=
  (es.filter (HookEvent.concerns k)).foldl OneSlot.handle .init

lemma oneSlot_concat_of_concerns {k : PairKey} {e : HookEvent} (he : e.concerns k = true)
    (es : List HookEvent) : oneSlot k (es ++ [e]) = (oneSlot k es).handle e := by
  rw [oneSlot, List.filter_append, List.filter_cons_of_pos he, List.filter_nil,
    List.foldl_append]
  rfl

lemma oneSlot_concat_of_not_concerns {k : PairKey} {e : HookEvent} (he : e.concerns k = false)
    (es : List HookEvent) : oneSlot k (es ++ [e]) = oneSlot k es := by
  rw [oneSlot, List.filter_append, List.filter_cons_of_neg (by simp [he]), List.filter_nil,
    List.append_nil]
  rfl

/-! ### Outstanding keys -/

/-- The keys that have entered and not come back. -/
def outstanding (es : List HookEvent) : Finset PairKey :=
  es.foldl
    (fun s e => match e with
      | .entry _ env _ => insert env.key s
      | .ret _ env _ => s.erase env.key
      | .flush => ∅)
    ∅

/-- At every entry fewer than 64 other keys are outstanding. -/
def FewOutstanding (es : List HookEvent) : Prop :=
  ∀ pre cpuIndex env tv post, es = pre ++ .entry cpuIndex env tv :: post →
    ((outstanding pre).erase env.key).card < vmiPendingMax

lemma FewOutstanding.of_concat {es : List HookEvent} {e : HookEvent}
    (h : FewOutstanding (es ++ [e])) : FewOutstanding es := by
  intro pre cpuIndex env tv post hsplit
  apply h pre cpuIndex env tv (post ++ [e])
  rw [hsplit, List.append_assoc, List.cons_append]

lemma outstanding_entry (es : List HookEvent) (cpuIndex : Int) (env : CPUX86State)
    (tv : Timeval) :
    outstanding (es ++ [.entry cpuIndex env tv]) = insert env.key (outstanding es) :=
  List.foldl_concat ..

lemma outstanding_ret (es : List HookEvent) (cpuIndex : Int) (env : CPUX86State)
    (tv : Timeval) :
    outstanding (es ++ [.ret cpuIndex env tv]) = (outstanding es).erase env.key :=
  List.foldl_concat ..

lemma outstanding_flush (es : List HookEvent) : outstanding (es ++ [.flush]) = ∅ :=
  List.foldl_concat ..

lemma card_outstanding_le (es : List HookEvent) : (outstanding es).card ≤ es.length := by
  induction es using List.reverseRecOn with
  | nil => exact Nat.zero_le 0
  | append_singleton es e ih =>
    rw [List.length_append, List.length_singleton]
    cases e with
    | entry cpuIndex env tv =>
      rw [outstanding_entry]
      exact (Finset.card_insert_le _ _).trans (Nat.succ_le_succ ih)
    | ret cpuIndex env tv =>
      rw [outstanding_ret]
      exact Finset.card_erase_le.trans (ih.trans (Nat.le_succ _))
    | flush =>
      rw [outstanding_flush]
      exact Nat.zero_le _

/-- A trace of at most 64 events never has 64 other keys outstanding at an entry. -/
lemma fewOutstanding_of_length {es : List HookEvent} (hlen : es.length ≤ vmiPendingMax) :
    FewOutstanding es := by
  rintro pre cpuIndex env tv post rfl
  have hcard : ((outstanding pre).erase env.key).card ≤ pre.length :=
    Finset.card_erase_le.trans (card_outstanding_le pre)
  rw [List.length_append, List.length_cons] at hlen
  exact Nat.lt_of_le_of_lt hcard (by omega)

/-! ### The table holds one slot for each key -/

/-- For every key, the table and the log agree with the one-slot machine of that key. -/
structure Paired (es : List HookEvent) (c : Capture) : Prop where
  distinct : KeysDistinct c.vmiPending
  outstanding : ∀ k, k ∈ outstanding es ↔ ∃ i, HeldAt c.vmiPending k i
  pending : ∀ k p, (oneSlot k es).pending = some p ↔
    ∃ i, HeldAt c.vmiPending k i ∧ (c.vmiPending i).held = p
  log : ∀ k, (c.log.filter fun w => w.key = k) = (oneSlot k es).log

namespace Paired

variable {es : List HookEvent} {c : Capture}

lemma init : Paired [] (.init []) := by
  refine ⟨keysDistinct_init [], ?_, ?_, fun k => rfl⟩
  · intro k
    simp [SyscallMonitor.outstanding, HeldAt, Capture.init]
  · intro k p
    simp [oneSlot, OneSlot.init, HeldAt, Capture.init]

lemma pending_of_heldAt (hp : Paired es c) {k : PairKey} {i : Slot}
    (hi : HeldAt c.vmiPending k i) : (oneSlot k es).pending = some (c.vmiPending i).held :=
  (hp.pending k _).mpr ⟨i, hi, rfl⟩

lemma pending_of_not_heldAt (hp : Paired es c) {k : PairKey}
    (hnone : ∀ i, ¬ HeldAt c.vmiPending k i) : (oneSlot k es).pending = none := by
  cases h : (oneSlot k es).pending with
  | none => rfl
  | some p =>
    obtain ⟨i, hi, _⟩ := (hp.pending k p).mp h
    exact absurd hi (hnone i)

/-- With fewer than 64 other keys outstanding there is a free slot. -/
lemma entrySlot_free (hp : Paired es c) {key : PairKey}
    (hfew : ((SyscallMonitor.outstanding es).erase key).card < vmiPendingMax) {i : Slot}
    {evicted : List Written} (hslot : EntrySlot (freeKey key c.vmiPending) i evicted) :
    (freeKey key c.vmiPending i).used = false ∧ evicted = [] := by
  cases hslot with
  | free hi => exact ⟨hi, rfl⟩
  | evict hfull _ =>
    -- 64 slots hold 64 distinct outstanding keys other than `key`
    have hmaps : ∀ j ∈ (Finset.univ : Finset Slot), (c.vmiPending j).key
        ∈ (SyscallMonitor.outstanding es).erase key := by
      intro j _
      obtain ⟨hused, hne⟩ := freeKey_used.mp (hfull j)
      exact Finset.mem_erase.mpr ⟨hne, (hp.outstanding _).mpr ⟨j, hused, rfl⟩⟩
    have hinj : Set.InjOn (fun j => (c.vmiPending j).key) (Finset.univ : Finset Slot) := by
      intro j _ k _ hjk
      obtain ⟨hj, -⟩ := freeKey_used.mp (hfull j)
      obtain ⟨hk, -⟩ := freeKey_used.mp (hfull k)
      exact hp.distinct _ j k ⟨hj, rfl⟩ ⟨hk, hjk.symm⟩
    have hcard := Finset.card_le_card_of_injOn _ hmaps hinj
    rw [Finset.card_univ, Fintype.card_fin] at hcard
    omega

/-- What the pass writes for its key is what the one-slot machine writes. -/
lemma supersededLines_eq (hp : Paired es c) (key : PairKey) :
    (oneSlot key es).write (.unfinished .superseded)
      = (oneSlot key es).log ++ supersededLines key c.vmiPending slots := by
  by_cases hheld : ∃ i, HeldAt c.vmiPending key i
  · obtain ⟨i, hi⟩ := hheld
    rw [OneSlot.write_some (hp.pending_of_heldAt hi), hp.distinct.supersededLines_of_heldAt hi]
  · have hnone := not_exists.mp hheld
    rw [OneSlot.write_none (hp.pending_of_not_heldAt hnone),
      supersededLines_of_not_heldAt hnone, List.append_nil]

lemma key_of_mem_supersededLines {key : PairKey} {t : Slot → VmiPending} {l : List Slot}
    {w : Written} (hw : w ∈ supersededLines key t l) : w.key = key := by
  obtain ⟨i, -, rfl⟩ := List.mem_map.mp hw
  rfl

theorem entry {h : Hooks} (hret : h.vmiRetAddr ≠ 0) (hp : Paired es c) (cpuIndex : Int)
    (env : CPUX86State) (tv : Timeval)
    (hfew : ((SyscallMonitor.outstanding es).erase env.key).card < vmiPendingMax) :
    Paired (es ++ [.entry cpuIndex env tv]) (vmiHandleEntry h cpuIndex env tv c) := by
  have hdistinct := hp.distinct.handle hret (.entry cpuIndex env tv)
  obtain ⟨i, evicted, hslot, heq⟩ := vmiHandleEntry_cases hret cpuIndex env tv c
  obtain ⟨hfree, rfl⟩ := hp.entrySlot_free hfew hslot
  rw [Capture.handle] at hdistinct
  rw [heq, List.append_nil] at hdistinct ⊢
  have hother : ∀ k j, HeldAt c.vmiPending k j → k ≠ env.key → j ≠ i := by
    rintro k j hj hk rfl
    have hused := freeKey_used.mpr ⟨hj.1, hj.2.symm ▸ hk⟩
    rw [hfree] at hused
    cases hused
  have hnew : (Function.update (freeKey env.key c.vmiPending) i
      (.ofEntry c.vmiPendingSeq cpuIndex env tv) i).held = .ofEntry cpuIndex env tv := by
    rw [Function.update_self, VmiPending.held_ofEntry]
  have hold : ∀ j, j ≠ i → (Function.update (freeKey env.key c.vmiPending) i
      (.ofEntry c.vmiPendingSeq cpuIndex env tv) j).held = (c.vmiPending j).held := by
    intro j hji
    rw [Function.update_of_ne hji, freeKey_held]
  refine ⟨hdistinct, ?_, ?_, ?_⟩
  · intro k
    rw [outstanding_entry, Finset.mem_insert, hp.outstanding k]
    constructor
    · intro hk
      by_cases hke : k = env.key
      · exact ⟨i, heldAt_update_ofEntry.mpr (Or.inl ⟨rfl, hke⟩)⟩
      · obtain ⟨j, hj⟩ := hk.resolve_left hke
        exact ⟨j, heldAt_update_ofEntry.mpr (Or.inr ⟨hother k j hj hke, hke, hj⟩)⟩
    · rintro ⟨j, hj⟩
      rcases heldAt_update_ofEntry.mp hj with ⟨-, hke⟩ | ⟨-, -, hj⟩
      · exact Or.inl hke
      · exact Or.inr ⟨j, hj⟩
  · intro k p
    by_cases hke : k = env.key
    · rw [oneSlot_concat_of_concerns (by simp [HookEvent.concerns, hke])]
      constructor
      · intro hsome
        obtain rfl := Option.some.inj hsome
        exact ⟨i, heldAt_update_ofEntry.mpr (Or.inl ⟨rfl, hke⟩), hnew⟩
      · rintro ⟨j, hj, rfl⟩
        rcases heldAt_update_ofEntry.mp hj with ⟨rfl, -⟩ | ⟨-, hne, -⟩
        · exact congrArg some hnew.symm
        · exact absurd hke hne
    · rw [oneSlot_concat_of_not_concerns (by simp [HookEvent.concerns, Ne.symm hke]),
        hp.pending k p]
      constructor
      · rintro ⟨j, hj, rfl⟩
        exact ⟨j, heldAt_update_ofEntry.mpr (Or.inr ⟨hother k j hj hke, hke, hj⟩),
          hold j (hother k j hj hke)⟩
      · rintro ⟨j, hj, rfl⟩
        rcases heldAt_update_ofEntry.mp hj with ⟨-, hke'⟩ | ⟨hji, -, hj⟩
        · exact absurd hke' hke
        · exact ⟨j, hj, (hold j hji).symm⟩
  · intro k
    rw [List.filter_append, hp.log k]
    by_cases hke : k = env.key
    · subst hke
      rw [oneSlot_concat_of_concerns (by simp [HookEvent.concerns]), OneSlot.handle,
        hp.supersededLines_eq, List.filter_eq_self.mpr]
      intro w hw
      simpa using key_of_mem_supersededLines hw
    · rw [oneSlot_concat_of_not_concerns (by simp [HookEvent.concerns, Ne.symm hke]),
        List.filter_eq_nil_iff.mpr, List.append_nil]
      intro w hw
      rw [key_of_mem_supersededLines hw]
      simpa using Ne.symm hke

theorem ret (hp : Paired es c) (cpuIndex : Int) (env : CPUX86State) (tv : Timeval) :
    Paired (es ++ [.ret cpuIndex env tv]) (vmiHandleReturn env tv c) := by
  have hown : HookEvent.concerns env.key (.ret cpuIndex env tv) = true := by
    simp [HookEvent.concerns]
  have hforeign : ∀ k, k ≠ env.key → HookEvent.concerns k (.ret cpuIndex env tv) = false := by
    intro k hke
    simp [HookEvent.concerns, Ne.symm hke]
  rcases vmiHandleReturn_cases env tv c with ⟨i, hi, heq⟩ | ⟨hnone, heq⟩
  · rw [heq]
    have hheld : ∀ k j, HeldAt ((c.writeEvent env.key ((c.vmiPending i).line
        (.value (env.regs rEax).toInt64 tv))).release i).vmiPending k j ↔
          k ≠ env.key ∧ HeldAt c.vmiPending k j :=
      fun k j => KeysDistinct.heldAt_release_iff (c := c.writeEvent _ _) hp.distinct hi
    refine ⟨?_, ?_, ?_, ?_⟩
    · intro k j j' hj hj'
      exact hp.distinct k j j' ((hheld k j).mp hj).2 ((hheld k j').mp hj').2
    · intro k
      rw [outstanding_ret, Finset.mem_erase, hp.outstanding k]
      simp only [hheld, exists_and_left]
    · intro k p
      by_cases hke : k = env.key
      · subst hke
        rw [oneSlot_concat_of_concerns hown]
        simp [OneSlot.handle, hheld]
      · rw [oneSlot_concat_of_not_concerns (hforeign k hke), hp.pending k p]
        refine exists_congr fun j => ?_
        constructor
        · rintro ⟨hj, rfl⟩
          have hj' := (hheld k j).mpr ⟨hke, hj⟩
          exact ⟨hj', congrArg VmiPending.held (vmiPending_release hj')⟩
        · rintro ⟨hj, rfl⟩
          have hj' := ((hheld k j).mp hj).2
          exact ⟨hj', (congrArg VmiPending.held (vmiPending_release hj)).symm⟩
    · intro k
      have hlog : ((c.writeEvent env.key ((c.vmiPending i).line
          (.value (env.regs rEax).toInt64 tv))).release i).log = c.log ++
            [(c.vmiPending i).held.written (.value (env.regs rEax).toInt64 tv)] := by
        rw [VmiPending.written_held, hi.2]
        rfl
      rw [hlog, List.filter_append, hp.log k]
      by_cases hke : k = env.key
      · subst hke
        rw [oneSlot_concat_of_concerns hown, OneSlot.handle,
          OneSlot.write_some (hp.pending_of_heldAt hi), List.filter_cons_of_pos]
        · rfl
        · exact decide_eq_true hi.2
      · rw [oneSlot_concat_of_not_concerns (hforeign k hke), List.filter_cons_of_neg,
          List.filter_nil, List.append_nil]
        simpa [hi.2] using Ne.symm hke
  · rw [heq]
    refine ⟨hp.distinct, ?_, ?_, ?_⟩
    · intro k
      rw [outstanding_ret, Finset.mem_erase, hp.outstanding k, and_iff_right_iff_imp]
      rintro ⟨j, hj⟩ rfl
      exact hnone j hj
    · intro k p
      by_cases hke : k = env.key
      · subst hke
        rw [oneSlot_concat_of_concerns hown]
        simp [OneSlot.handle, hnone]
      · rw [oneSlot_concat_of_not_concerns (hforeign k hke), hp.pending k p]
    · intro k
      rw [hp.log k]
      by_cases hke : k = env.key
      · subst hke
        rw [oneSlot_concat_of_concerns hown, OneSlot.handle,
          OneSlot.write_none (hp.pending_of_not_heldAt hnone)]
      · rw [oneSlot_concat_of_not_concerns (hforeign k hke)]

theorem flush (hp : Paired es c) :
    Paired (es ++ [.flush]) (vmiFlushPending .shutdown c) := by
  have hnone := not_heldAt_vmiFlushPending .shutdown c
  obtain ⟨l, hl, hlog, -, -⟩ := vmiFlushPending_spec .shutdown c
  refine ⟨?_, ?_, ?_, ?_⟩
  · intro k i _ hi
    exact absurd hi (hnone k i)
  · intro k
    rw [outstanding_flush]
    simp [hnone k]
  · intro k p
    rw [oneSlot_concat_of_concerns rfl]
    simp [OneSlot.handle, hnone k]
  · intro k
    rw [oneSlot_concat_of_concerns rfl, OneSlot.handle, hlog, List.filter_append, hp.log k,
      List.filter_map]
    have hfilter : ∀ i ∈ l, ((c.vmiPending i).key = k ↔ HeldAt c.vmiPending k i) :=
      fun i hi => ⟨fun hk => ⟨(hl.mem i).mp hi, hk⟩, And.right⟩
    by_cases hheld : ∃ i, HeldAt c.vmiPending k i
    · obtain ⟨i, hi⟩ := hheld
      have hone : (l.filter fun j => (c.vmiPending j).key = k) = [i] := by
        refine List.perm_singleton.mp ((List.perm_ext_iff_of_nodup
          (hl.nodup.filter _) (List.nodup_singleton i)).mpr ?_)
        intro j
        rw [List.mem_filter, decide_eq_true_eq, List.mem_singleton]
        constructor
        · rintro ⟨hj, hk⟩
          exact hp.distinct k j i ((hfilter j hj).mp hk) hi
        · rintro rfl
          exact ⟨(hl.mem j).mpr hi.1, hi.2⟩
      rw [OneSlot.write_some (hp.pending_of_heldAt hi)]
      exact congrArg (fun l => (oneSlot k es).log ++ List.map _ l) hone
    · have hnone := not_exists.mp hheld
      have hnil : (l.filter fun j => (c.vmiPending j).key = k) = [] := by
        refine List.filter_eq_nil_iff.mpr fun j hj => ?_
        simpa using fun hk => hnone j ((hfilter j hj).mp hk)
      rw [OneSlot.write_none (hp.pending_of_not_heldAt hnone)]
      exact (congrArg (fun l => (oneSlot k es).log ++ List.map _ l) hnil).trans
        (List.append_nil _)

end Paired

/-- Run rule: the table holds one slot for each key after every trace with few keys outstanding. -/
theorem paired_handleAll {h : Hooks} (hret : h.vmiRetAddr ≠ 0) (es : List HookEvent)
    (hfew : FewOutstanding es) : Paired es ((Capture.init []).handleAll h es) := by
  induction es using List.reverseRecOn with
  | nil => exact Paired.init
  | append_singleton es e ih =>
    have hp := ih hfew.of_concat
    rw [Capture.handleAll_concat]
    cases e with
    | entry cpuIndex env tv => exact hp.entry hret cpuIndex env tv (hfew es cpuIndex env tv [] rfl)
    | ret cpuIndex env tv => exact hp.ret cpuIndex env tv
    | flush => exact hp.flush

/-! ### What a line combines -/

/-- The pending entry of the one-slot machine is the last event of its key. -/
lemma oneSlot_pending {k : PairKey} {es : List HookEvent} {p : Held}
    (h : (oneSlot k es).pending = some p) :
    ∃ pre cpuIndex env tv mid, es = pre ++ .entry cpuIndex env tv :: mid ∧ env.key = k ∧
      p = .ofEntry cpuIndex env tv ∧ ∀ e ∈ mid, HookEvent.concerns k e = false := by
  induction es using List.reverseRecOn with
  | nil => cases h
  | append_singleton es e ih =>
    cases hown : e.concerns k with
    | false =>
      rw [oneSlot_concat_of_not_concerns hown] at h
      obtain ⟨pre, cpuIndex, env, tv, mid, hsplit, hkey, hval, hmid⟩ := ih h
      refine ⟨pre, cpuIndex, env, tv, mid ++ [e], by simp [hsplit], hkey, hval, ?_⟩
      intro e' he'
      rcases List.mem_append.mp he' with he' | he'
      · exact hmid e' he'
      · rwa [List.mem_singleton.mp he']
    | true =>
      rw [oneSlot_concat_of_concerns hown] at h
      cases e with
      | entry cpuIndex env tv =>
        refine ⟨es, cpuIndex, env, tv, [], rfl, by simpa [HookEvent.concerns] using hown, ?_,
          by simp⟩
        exact (Option.some.inj h).symm
      | ret _ _ _ => cases h
      | flush => cases h

/-- The line `w` reports an entry together with the return of the same context that followed it, no
other event of that context coming between the two. -/
def ReportsOneCall (es : List HookEvent) (w : Written) : Prop :=
  ∃ pre cpuIndex env tv mid retCpu retEnv retTv post,
    es = pre ++ .entry cpuIndex env tv :: mid ++ .ret retCpu retEnv retTv :: post ∧
      retEnv.key = env.key ∧ (∀ e ∈ mid, HookEvent.concerns env.key e = false) ∧
      w = (Held.ofEntry cpuIndex env tv).written (.value (retEnv.regs rEax).toInt64 retTv)

lemma ReportsOneCall.concat {es : List HookEvent} {w : Written} (h : ReportsOneCall es w)
    (e : HookEvent) : ReportsOneCall (es ++ [e]) w := by
  obtain ⟨pre, cpuIndex, env, tv, mid, retCpu, retEnv, retTv, post, hsplit, hrest⟩ := h
  exact ⟨pre, cpuIndex, env, tv, mid, retCpu, retEnv, retTv, post ++ [e], by simp [hsplit], hrest⟩

/-- A line of the one-slot machine with a value reports one call, any other line is a superseded or
flushed entry. -/
lemma oneSlot_log {k : PairKey} {es : List HookEvent} {w : Written} (hw : w ∈ (oneSlot k es).log) :
    ReportsOneCall es w ∨ w.line.kind = .unfinished .superseded ∨
      w.line.kind = .unfinished .shutdown := by
  induction es using List.reverseRecOn with
  | nil => cases hw
  | append_singleton es e ih =>
    cases hown : e.concerns k with
    | false =>
      rw [oneSlot_concat_of_not_concerns hown] at hw
      exact (ih hw).imp_left fun h => h.concat e
    | true =>
      rw [oneSlot_concat_of_concerns hown] at hw
      have hwrite : ∀ kind, w ∈ (oneSlot k es).write kind → w ∈ (oneSlot k es).log ∨
          ∃ p, (oneSlot k es).pending = some p ∧ w = p.written kind := by
        intro kind hmem
        refine (List.mem_append.mp hmem).imp_right fun hmem => ?_
        obtain ⟨p, hp, rfl⟩ := Option.map_eq_some_iff.mp (Option.mem_toList.mp hmem)
        exact ⟨p, hp, rfl⟩
      cases e with
      | entry cpuIndex env tv =>
        rcases hwrite _ hw with hw | ⟨p, _, rfl⟩
        · exact (ih hw).imp_left fun h => h.concat _
        · exact Or.inr (Or.inl rfl)
      | flush =>
        rcases hwrite _ hw with hw | ⟨p, _, rfl⟩
        · exact (ih hw).imp_left fun h => h.concat _
        · exact Or.inr (Or.inr rfl)
      | ret retCpu retEnv retTv =>
        rcases hwrite _ hw with hw | ⟨p, hp, rfl⟩
        · exact (ih hw).imp_left fun h => h.concat _
        · obtain ⟨pre, cpuIndex, env, tv, mid, hsplit, hkey, rfl, hmid⟩ := oneSlot_pending hp
          have hret : retEnv.key = k := by simpa [HookEvent.concerns] using hown
          refine Or.inl ⟨pre, cpuIndex, env, tv, mid, retCpu, retEnv, retTv, [], ?_, ?_, ?_, rfl⟩
          · rw [hsplit]
          · rw [hret, hkey]
          · rwa [hkey]

/-- **Pairing.** If fewer than 64 other keys are outstanding at every entry, the lines written for a
key are those of the one-slot machine on its own events, in whatever order the events of the
contexts interleave; so a value line reports one call of one context, and nothing is evicted. -/
theorem handleAll_pairs (h : Hooks) (hret : h.vmiRetAddr ≠ 0) (es : List HookEvent)
    (hfew : FewOutstanding es) :
    (∀ k, (((Capture.init []).handleAll h es).log.filter fun w => w.key = k)
        = (oneSlot k es).log) ∧
      (∀ w ∈ ((Capture.init []).handleAll h es).log, ∀ ret retTv,
        w.line.kind = .value ret retTv → ReportsOneCall es w) ∧
      ∀ w ∈ ((Capture.init []).handleAll h es).log, w.line.kind ≠ .unfinished .evicted := by
  have hp := paired_handleAll hret es hfew
  have hline : ∀ w ∈ ((Capture.init []).handleAll h es).log, ReportsOneCall es w ∨
      w.line.kind = .unfinished .superseded ∨ w.line.kind = .unfinished .shutdown := by
    intro w hw
    have hmem : w ∈ (oneSlot w.key es).log := by
      rw [← hp.log w.key]
      exact List.mem_filter.mpr ⟨hw, decide_eq_true rfl⟩
    exact oneSlot_log hmem
  refine ⟨hp.log, ?_, ?_⟩
  · intro w hw ret retTv hkind
    rcases hline w hw with h | h | h
    · exact h
    · rw [hkind] at h
      cases h
    · rw [hkind] at h
      cases h
  · intro w hw hkind
    rcases hline w hw with ⟨pre, cpuIndex, env, tv, mid, retCpu, retEnv, retTv, post, h⟩ | h | h
    · rw [h.2.2.2] at hkind
      cases hkind
    · rw [hkind] at h
      cases h
    · rw [hkind] at h
      cases h

/-- `handleAll_pairs` on two contexts whose syscalls overlap and return in order of entry. -/
theorem nginx_handleAll_pairs :
    nginxHooks.vmiRetAddr ≠ 0 ∧
      FewOutstanding [.entry 0 ⟨fun _ => 1, 0x101000⟩ ⟨10, 0⟩,
        .entry 0 ⟨fun _ => 2, 0x101000⟩ ⟨10, 5⟩, .ret 0 ⟨fun _ => 1, 0x1010da⟩ ⟨10, 9⟩,
        .ret 0 ⟨fun _ => 2, 0x1010da⟩ ⟨10, 11⟩, .flush] ∧
      ∀ k, (((Capture.init []).handleAll nginxHooks [.entry 0 ⟨fun _ => 1, 0x101000⟩ ⟨10, 0⟩,
        .entry 0 ⟨fun _ => 2, 0x101000⟩ ⟨10, 5⟩, .ret 0 ⟨fun _ => 1, 0x1010da⟩ ⟨10, 9⟩,
        .ret 0 ⟨fun _ => 2, 0x1010da⟩ ⟨10, 11⟩, .flush]).log.filter fun w => w.key = k)
        = (oneSlot k [.entry 0 ⟨fun _ => 1, 0x101000⟩ ⟨10, 0⟩,
          .entry 0 ⟨fun _ => 2, 0x101000⟩ ⟨10, 5⟩, .ret 0 ⟨fun _ => 1, 0x1010da⟩ ⟨10, 9⟩,
          .ret 0 ⟨fun _ => 2, 0x1010da⟩ ⟨10, 11⟩, .flush]).log :=
  have hfew := fewOutstanding_of_length (by decide)
  ⟨by decide, hfew, (handleAll_pairs nginxHooks (by decide) _ hfew).1⟩

end SyscallMonitor
