import SyscallMonitor.Capture.Steps

/-!
# One entry for each key

Whatever the order of the events, no two slots hold an entry of the same key. So the pass of
`vmi_handle_entry` supersedes at most one entry, and the slot at which `vmi_handle_return` stops is
the only one it could have stopped at.
-/

namespace SyscallMonitor

/-- What a slot says about the entry it holds, its place in the table aside. -/
structure Held where
  key : PairKey
  cpuIndex : Int
  num : UInt64
  argv : Fin 6 → UInt64
  tv : Timeval
  deriving DecidableEq

/-- The line written for a held entry. -/
def Held.written (p : Held) (kind : VmiRetKind) : Written :=
  ⟨p.key, ⟨p.cpuIndex, p.num, p.argv, p.tv, kind⟩⟩

/-- What an entry hook has to hold. -/
def Held.ofEntry (cpuIndex : Int) (env : CPUX86State) (tv : Timeval) : Held :=
  ⟨env.key, cpuIndex, env.regs rEax, vmiReadArgs env, tv⟩

def VmiPending.held (p : VmiPending) : Held := ⟨p.key, p.cpuIndex, p.num, p.argv, p.tv⟩

@[simp] lemma VmiPending.held_key (p : VmiPending) : p.held.key = p.key := rfl

@[simp] lemma VmiPending.written_held (p : VmiPending) (kind : VmiRetKind) :
    p.held.written kind = ⟨p.key, p.line kind⟩ := rfl

@[simp] lemma VmiPending.held_ofEntry (seq : UInt64) (cpuIndex : Int) (env : CPUX86State)
    (tv : Timeval) :
    (VmiPending.ofEntry seq cpuIndex env tv).held = .ofEntry cpuIndex env tv := rfl

@[simp] lemma freeKey_held (key : PairKey) (t : Slot → VmiPending) (i : Slot) :
    (freeKey key t i).held = (t i).held := by
  rw [freeKey]
  split_ifs <;> rfl

/-! ### The entries of a key after one event -/

lemma heldAt_freeKey {t : Slot → VmiPending} {key k : PairKey} {i : Slot} :
    HeldAt (freeKey key t) k i ↔ k ≠ key ∧ HeldAt t k i := by
  constructor
  · rintro ⟨hused, hk⟩
    rw [freeKey_key] at hk
    obtain ⟨hused, hne⟩ := freeKey_used.mp hused
    exact ⟨hk ▸ hne, hused, hk⟩
  · rintro ⟨hne, hused, hk⟩
    exact ⟨freeKey_used.mpr ⟨hused, hk.symm ▸ hne⟩, by rw [freeKey_key, hk]⟩

/-- After an entry is stored in slot `i`, its key is held there and nowhere else, and the other
slots hold what they held before. -/
lemma heldAt_update_ofEntry {t : Slot → VmiPending} {seq : UInt64} {cpuIndex : Int}
    {env : CPUX86State} {tv : Timeval} {i j : Slot} {k : PairKey} :
    HeldAt (Function.update (freeKey env.key t) i (.ofEntry seq cpuIndex env tv)) k j ↔
      (j = i ∧ k = env.key) ∨ (j ≠ i ∧ k ≠ env.key ∧ HeldAt t k j) := by
  by_cases hji : j = i
  · subst hji
    have hnew : HeldAt (Function.update (freeKey env.key t) j (.ofEntry seq cpuIndex env tv)) k j
        ↔ env.key = k := by
      rw [HeldAt, Function.update_self]
      exact ⟨And.right, fun h => ⟨rfl, h⟩⟩
    rw [hnew]
    constructor
    · intro h
      exact Or.inl ⟨rfl, h.symm⟩
    · rintro (⟨-, h⟩ | ⟨hne, -⟩)
      · exact h.symm
      · exact absurd rfl hne
  · rw [heldAt_congr (Function.update_of_ne hji _ _), heldAt_freeKey]
    simp [hji]

lemma heldAt_release {c : Capture} {i j : Slot} {k : PairKey} :
    HeldAt (c.release i).vmiPending k j ↔ j ≠ i ∧ HeldAt c.vmiPending k j := by
  by_cases hji : j = i
  · subst hji
    simp [HeldAt, Capture.release]
  · simp [HeldAt, Capture.release, hji]

/-- A slot that is held after a release has been left alone. -/
lemma vmiPending_release {c : Capture} {i j : Slot} {k : PairKey}
    (hj : HeldAt (c.release i).vmiPending k j) : (c.release i).vmiPending j = c.vmiPending j :=
  Function.update_of_ne (heldAt_release.mp hj).1 _ _

lemma not_heldAt_vmiFlushPending (why : UnfinishedWhy) (c : Capture) (k : PairKey) (i : Slot) :
    ¬ HeldAt (vmiFlushPending why c).vmiPending k i := by
  obtain ⟨-, -, -, -, hfree⟩ := vmiFlushPending_spec why c
  rintro ⟨hused, -⟩
  rw [hfree i] at hused
  cases hused

/-! ### Distinct keys -/

/-- No key is held twice. -/
def KeysDistinct (t : Slot → VmiPending) : Prop :=
  ∀ k i j, HeldAt t k i → HeldAt t k j → i = j

/-- The slot that is released is the only one of its key. -/
lemma KeysDistinct.heldAt_release_iff {c : Capture} (hc : KeysDistinct c.vmiPending) {i j : Slot}
    {key k : PairKey} (hi : HeldAt c.vmiPending key i) :
    HeldAt (c.release i).vmiPending k j ↔ k ≠ key ∧ HeldAt c.vmiPending k j := by
  rw [heldAt_release]
  refine and_congr_left fun hj => not_congr ?_
  constructor
  · rintro rfl
    exact hj.2.symm.trans hi.2
  · rintro rfl
    exact hc _ j i hj hi

lemma keysDistinct_init (log : List Written) : KeysDistinct (Capture.init log).vmiPending := by
  rintro k i j ⟨hused, -⟩ _
  cases hused

/-- Every event keeps the keys distinct. -/
theorem KeysDistinct.handle {h : Hooks} (hret : h.vmiRetAddr ≠ 0) {c : Capture}
    (hc : KeysDistinct c.vmiPending) (e : HookEvent) : KeysDistinct (c.handle h e).vmiPending := by
  intro k i j hi hj
  cases e with
  | entry cpuIndex env tv =>
    obtain ⟨s, evicted, -, heq⟩ := vmiHandleEntry_cases hret cpuIndex env tv c
    rw [Capture.handle, heq] at hi hj
    rcases heldAt_update_ofEntry.mp hi with ⟨rfl, hk⟩ | ⟨-, hk, hi⟩ <;>
      rcases heldAt_update_ofEntry.mp hj with ⟨rfl, hk'⟩ | ⟨-, hk', hj⟩
    · rfl
    · exact absurd hk hk'
    · exact absurd hk' hk
    · exact hc k i j hi hj
  | ret _ env tv =>
    rcases vmiHandleReturn_cases env tv c with ⟨s, _, heq⟩ | ⟨_, heq⟩
    · rw [Capture.handle, heq] at hi hj
      exact hc k i j (heldAt_release.mp hi).2 (heldAt_release.mp hj).2
    · rw [Capture.handle, heq] at hi hj
      exact hc k i j hi hj
  | flush => exact absurd hi (not_heldAt_vmiFlushPending .shutdown c k i)

lemma KeysDistinct.handleAll {h : Hooks} (hret : h.vmiRetAddr ≠ 0) {c : Capture}
    (hc : KeysDistinct c.vmiPending) (es : List HookEvent) :
    KeysDistinct (c.handleAll h es).vmiPending := by
  induction es generalizing c with
  | nil => exact hc
  | cons e es ih => exact ih (hc.handle hret e)

/-- The pass of `vmi_handle_entry` supersedes the one entry of its key. -/
lemma KeysDistinct.supersededLines_of_heldAt {t : Slot → VmiPending} (ht : KeysDistinct t)
    {key : PairKey} {i : Slot} (hi : HeldAt t key i) :
    supersededLines key t slots = [(t i).held.written (.unfinished .superseded)] := by
  have hone : (slots.filter fun j => HeldAt t key j) = [i] := by
    refine List.perm_singleton.mp ((List.perm_ext_iff_of_nodup
      (nodup_slots.filter _) (List.nodup_singleton i)).mpr ?_)
    intro j
    rw [List.mem_filter, decide_eq_true_eq, List.mem_singleton]
    constructor
    · rintro ⟨-, hj⟩
      exact ht key j i hj hi
    · rintro rfl
      exact ⟨mem_slots j, hi⟩
  rw [supersededLines, hone, List.map_singleton, VmiPending.written_held, hi.2]

lemma supersededLines_of_not_heldAt {t : Slot → VmiPending} {key : PairKey}
    (hnone : ∀ i, ¬ HeldAt t key i) : supersededLines key t slots = [] := by
  rw [supersededLines, List.filter_eq_nil_iff.mpr (by simpa using hnone), List.map_nil]

end SyscallMonitor
