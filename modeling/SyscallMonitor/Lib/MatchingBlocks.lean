import SyscallMonitor.Lib.SequenceMatcher
import Mathlib.Algebra.Order.BigOperators.Group.List
import Mathlib.Algebra.Order.Field.Rat
import Mathlib.Data.List.Sort

/-!
# Matching blocks

`get_matching_blocks` keeps the parts that are still to be compared on a stack, sorts what it has
found, and joins blocks that touch. `Blocks` is the plain recursion; the loop finds the same blocks
(`found_eq_blocks`), and after sorting and joining they stand apart and in order (`Apart`).
-/

namespace SyscallMonitor.Lib

universe u

variable {α : Type u}

/-- The order in which `matching_blocks.sort()` puts the blocks, that of tuples. -/
def Match.Le (x y : Match) : Prop :=
  x.a < y.a ∨ x.a = y.a ∧ (x.b < y.b ∨ x.b = y.b ∧ x.size ≤ y.size)

instance : DecidableRel Match.Le := fun _ _ => inferInstanceAs (Decidable (_ ∨ _ ∧ (_ ∨ _ ∧ _)))

lemma Match.Le.total (x y : Match) : x.Le y ∨ y.Le x := by
  simp only [Match.Le]
  omega

lemma Match.Le.trans {x y z : Match} (h : x.Le y) (h' : y.Le z) : x.Le z := by
  simp only [Match.Le] at *
  omega

lemma Match.Le.antisymm {x y : Match} (h : x.Le y) (h' : y.Le x) : x = y := by
  simp only [Match.Le] at h h'
  obtain ⟨xa, xb, xs⟩ := x
  obtain ⟨ya, yb, ys⟩ := y
  simp only [Match.mk.injEq]
  simp only at h h'
  omega

instance : Std.Total Match.Le := ⟨Match.Le.total⟩

instance : IsTrans Match Match.Le := ⟨fun _ _ _ => Match.Le.trans⟩

namespace SequenceMatcher

/-! ### Blocks in order -/

/-- One block ends before the other begins, in both sequences. -/
structure Before (x y : Match) : Prop where
  a : x.a + x.size ≤ y.a
  b : x.b + x.size ≤ y.b

/-- One block ends before the other begins, and they do not touch. -/
structure Apart (x y : Match) : Prop extends Before x y where
  gap : x.a + x.size < y.a ∨ x.b + x.size < y.b

/-- The slices of `x` lie in those of `y`, at the same place. -/
def Covers (y x : Match) : Prop := ∃ d, x.a = y.a + d ∧ x.b = y.b + d ∧ d + x.size ≤ y.size

lemma Covers.refl (x : Match) : Covers x x := ⟨0, rfl, rfl, by omega⟩

lemma Covers.trans {x y z : Match} (h : Covers z y) (h' : Covers y x) : Covers z x := by
  obtain ⟨d, h₁, h₂, h₃⟩ := h
  obtain ⟨d', h₄, h₅, h₆⟩ := h'
  exact ⟨d + d', by omega, by omega, by omega⟩

lemma common_append {m : SequenceMatcher α} {i j k l : ℕ} (h : m.Common i j k)
    (h' : m.Common (i + k) (j + k) l) : m.Common i j (k + l) := by
  intro d hd
  by_cases hk : d < k
  · exact h d hk
  · have hshift (n : ℕ) : n + d = n + k + (d - k) := by omega
    rw [hshift, hshift]
    exact h' (d - k) (by omega)

variable {m : SequenceMatcher α}

/-- A common block lies within the two sequences. -/
lemma Common.within {i j k : ℕ} (h : m.Common i j k) (hk : 0 < k) :
    i + k ≤ m.a.length ∧ j + k ≤ m.b.length := by
  obtain ⟨x, hxa, hxb, -⟩ := h (k - 1) (by omega)
  have ha := (List.getElem?_eq_some_iff.mp hxa).1
  have hb := (List.getElem?_eq_some_iff.mp hxb).1
  omega

/-- `sum(triple[-1] for triple in self.get_matching_blocks())` -/
def matchCount (blocks : List Match) : ℕ := (blocks.map Match.size).sum

/-- Blocks that come one after the other have room in a sequence. -/
lemma add_matchCount_le (p : Match → ℕ) {l : List Match} {lo n : ℕ}
    (hl : l.Pairwise fun x y => p x + x.size ≤ p y) (hlo : lo ≤ n)
    (hin : ∀ x ∈ l, lo ≤ p x ∧ p x + x.size ≤ n) : lo + matchCount l ≤ n := by
  induction l generalizing lo with
  | nil => simpa [matchCount] using hlo
  | cons x l ih =>
    obtain ⟨hx, hl⟩ := List.pairwise_cons.mp hl
    obtain ⟨⟨h₁, h₂⟩, hin⟩ := List.forall_mem_cons.mp hin
    have hrest := ih hl h₂ fun y hy => ⟨hx y hy, (hin y hy).2⟩
    rw [matchCount, List.map_cons, List.sum_cons, ← matchCount]
    omega

lemma eq_of_common {k : ℕ} (h : m.Common 0 0 k) (ha : m.a.length = k) (hb : m.b.length = k) :
    m.a = m.b := by
  apply List.ext_getElem?
  intro i
  by_cases hi : i < k
  · obtain ⟨x, hxa, hxb, -⟩ := h i hi
    rw [Nat.zero_add] at hxa hxb
    rw [hxa, hxb]
  · rw [List.getElem?_eq_none (by omega), List.getElem?_eq_none (by omega)]

/-- Blocks that stand apart and leave nothing out make up two equal sequences. -/
lemma eq_of_matchCount {l : List Match}
    (hl : ∀ x ∈ l, 0 < x.size ∧ m.Common x.a x.b x.size) (hpair : l.Pairwise Apart)
    (ha : m.a.length ≤ matchCount l) (hb : m.b.length ≤ matchCount l) : m.a = m.b := by
  have hwithin : ∀ x ∈ l, x.a + x.size ≤ m.a.length ∧ x.b + x.size ≤ m.b.length :=
    fun x hx => Common.within (hl x hx).2 (hl x hx).1
  match l with
  | [] =>
    simp only [matchCount, List.map_nil, List.sum_nil, Nat.le_zero, List.length_eq_zero_iff]
      at ha hb
    rw [ha, hb]
  | [x] =>
    simp only [matchCount, List.map_cons, List.map_nil, List.sum_cons, List.sum_nil] at ha hb
    have := hwithin x List.mem_cons_self
    have hcommon := (hl x List.mem_cons_self).2
    obtain ⟨hxa, hxb⟩ : x.a = 0 ∧ x.b = 0 := by omega
    rw [hxa, hxb] at hcommon
    exact eq_of_common hcommon (by omega) (by omega)
  | x :: y :: l =>
    -- there is something between the first two blocks
    obtain ⟨hx, hpair⟩ := List.pairwise_cons.mp hpair
    obtain ⟨hy, -⟩ := List.pairwise_cons.mp hpair
    obtain ⟨⟨h₁, h₂⟩, hgap⟩ := hx y List.mem_cons_self
    have hyend := hwithin y (by simp)
    have hresta : y.a + matchCount (y :: l) ≤ m.a.length := by
      refine add_matchCount_le Match.a (hpair.imp fun h => h.a) (by omega) ?_
      refine List.forall_mem_cons.mpr ⟨⟨Nat.le_refl _, hyend.1⟩, fun z hz => ⟨?_, ?_⟩⟩
      · exact (Nat.le_add_right _ _).trans (hy z hz).a
      · exact (hwithin z (by simp [hz])).1
    have hrestb : y.b + matchCount (y :: l) ≤ m.b.length := by
      refine add_matchCount_le Match.b (hpair.imp fun h => h.b) (by omega) ?_
      refine List.forall_mem_cons.mpr ⟨⟨Nat.le_refl _, hyend.2⟩, fun z hz => ⟨?_, ?_⟩⟩
      · exact (Nat.le_add_right _ _).trans (hy z hz).b
      · exact (hwithin z (by simp [hz])).2
    rw [matchCount, List.map_cons, List.sum_cons, ← matchCount] at ha hb
    omega

/-! ### Joining blocks that touch -/

/-- `if k1: non_adjacent.append((i1, j1, k1))` -/
def joined (st : Match × List Match) : List Match :=
  if st.1.size ≠ 0 then st.2 ++ [st.1] else st.2

/-- The body of the loop that joins adjacent blocks: the block `(i1, j1, k1)`, and `non_adjacent`.
-/
def joinStep (st : Match × List Match) (x : Match) : Match × List Match :=
  if st.1.a + st.1.size = x.a ∧ st.1.b + st.1.size = x.b then
    ({ st.1 with size := st.1.size + x.size }, st.2)
  else (x, joined st)

/-- `non_adjacent` after the loop. -/
def join (found : List Match) : List Match := joined (found.foldl joinStep (⟨0, 0, 0⟩, []))

/-- The state of the loop that joins, with the blocks `l` still to come. -/
structure JoinState (m : SequenceMatcher α) (st : Match × List Match) (l : List Match) : Prop where
  common : m.Common st.1.a st.1.b st.1.size
  done : ∀ x ∈ st.2, 0 < x.size ∧ m.Common x.a x.b x.size
  apart : st.2.Pairwise Apart
  last : ∀ x ∈ st.2, Apart x st.1
  next : ∀ x ∈ l, Before st.1 x

lemma JoinState.joined {st : Match × List Match} {l : List Match} (hst : m.JoinState st l) :
    (∀ x ∈ joined st, 0 < x.size ∧ m.Common x.a x.b x.size) ∧ (joined st).Pairwise Apart := by
  rw [SequenceMatcher.joined]
  split_ifs with hsize
  · refine ⟨?_, List.pairwise_append.mpr ⟨hst.apart, List.pairwise_singleton .., ?_⟩⟩
    · intro x hx
      rcases List.mem_append.mp hx with hx | hx
      · exact hst.done x hx
      · rw [List.mem_singleton.mp hx]
        exact ⟨Nat.pos_of_ne_zero hsize, hst.common⟩
    · intro x hx y hy
      rw [List.mem_singleton.mp hy]
      exact hst.last x hx
  · exact ⟨hst.done, hst.apart⟩

lemma mem_joined {st : Match × List Match} {x : Match} (hx : x ∈ joined st) :
    x ∈ st.2 ∨ x = st.1 := by
  rw [joined] at hx
  split_ifs at hx
  · rcases List.mem_append.mp hx with hx | hx
    · exact Or.inl hx
    · exact Or.inr (List.mem_singleton.mp hx)
  · exact Or.inl hx

lemma subset_joined (st : Match × List Match) : st.2 ⊆ joined st := by
  rw [joined]
  split_ifs
  · exact List.subset_append_left _ _
  · exact List.Subset.refl _

/-- A block that touches is joined, another one is begun. -/
lemma JoinState.step {st : Match × List Match} {x : Match} {l : List Match}
    (hst : m.JoinState st (x :: l)) (hx : m.Common x.a x.b x.size)
    (hl : ∀ y ∈ l, Before x y) : m.JoinState (joinStep st x) l := by
  obtain ⟨ha, hb⟩ := hst.next x List.mem_cons_self
  rw [joinStep]
  split_ifs with htouch
  · refine ⟨?_, hst.done, hst.apart, fun y hy => ?_, fun y hy => ?_⟩
    · apply common_append hst.common
      rw [htouch.1, htouch.2]
      exact hx
    · obtain ⟨⟨h₁, h₂⟩, h₃⟩ := hst.last y hy
      exact ⟨⟨h₁, h₂⟩, h₃⟩
    · obtain ⟨h₁, h₂⟩ := hl y hy
      exact ⟨by simp only; omega, by simp only; omega⟩
  · refine ⟨hx, hst.joined.1, hst.joined.2, fun y hy => ?_, hl⟩
    show Apart y x
    rcases mem_joined hy with hy | rfl
    · obtain ⟨⟨h₁, h₂⟩, h₃⟩ := hst.last y hy
      exact ⟨⟨by omega, by omega⟩, by omega⟩
    · exact ⟨⟨ha, hb⟩, by omega⟩

/-- What joining keeps, and what it achieves. -/
lemma JoinState.foldl {l : List Match} {st : Match × List Match} (hst : m.JoinState st l)
    (hl : ∀ x ∈ l, 0 < x.size ∧ m.Common x.a x.b x.size) (hpair : l.Pairwise Before) :
    let out := SequenceMatcher.joined (l.foldl joinStep st)
    (∀ x ∈ out, 0 < x.size ∧ m.Common x.a x.b x.size) ∧ out.Pairwise Apart ∧ st.2 ⊆ out ∧
      (st.1.size ≠ 0 → ∃ y ∈ out, Covers y st.1) ∧ ∀ x ∈ l, ∃ y ∈ out, Covers y x := by
  induction l generalizing st with
  | nil =>
    refine ⟨hst.joined.1, hst.joined.2, subset_joined st, fun hsize => ?_, by simp⟩
    exact ⟨st.1, by simp [SequenceMatcher.joined, hsize], .refl _⟩
  | cons x l ih =>
    obtain ⟨hx, hl⟩ := List.forall_mem_cons.mp hl
    obtain ⟨hxl, hpair⟩ := List.pairwise_cons.mp hpair
    obtain ⟨hout, hapart, hsub, hcur, hcov⟩ := ih (hst.step hx.2 hxl) hl hpair
    have hsize : (joinStep st x).1.size ≠ 0 := by
      rw [joinStep]
      split_ifs
      · simp only
        omega
      · exact Nat.ne_of_gt hx.1
    obtain ⟨y, hy, hcovy⟩ := hcur hsize
    rw [List.foldl_cons]
    refine ⟨hout, hapart, ?_, fun hpos => ?_, List.forall_mem_cons.mpr ⟨⟨y, hy, ?_⟩, hcov⟩⟩
    · apply List.Subset.trans ?_ hsub
      rw [joinStep]
      split_ifs
      · exact List.Subset.refl _
      · exact subset_joined st
    · by_cases htouch : st.1.a + st.1.size = x.a ∧ st.1.b + st.1.size = x.b
      · refine ⟨y, hy, hcovy.trans ⟨0, ?_⟩⟩
        simp [joinStep, htouch]
      · refine ⟨st.1, hsub ?_, .refl _⟩
        simp [joinStep, htouch, SequenceMatcher.joined, hpos]
    · apply hcovy.trans
      rw [joinStep]
      split_ifs with htouch
      · exact ⟨st.1.size, htouch.1.symm, htouch.2.symm, Nat.le_refl _⟩
      · exact .refl x

/-! ### The queue -/

/-- The condition under which a part is put on the stack. -/
def Region.Nonempty (r : m.Region) : Prop := r.alo < r.ahi ∧ r.blo < r.bhi

instance (r : m.Region) : Decidable r.Nonempty :=
  inferInstanceAs (Decidable (_ ∧ _))

/-- `queue.append`, if the part is not empty; the end of the queue is the head of the list. -/
def push (r : m.Region) (queue : List m.Region) : List m.Region :=
  if r.Nonempty then r :: queue else queue

/-- The rounds that a queue takes at most. -/
def rounds (queue : List m.Region) : ℕ := (queue.map fun r => 2 * (r.ahi - r.alo) + 1).sum

@[simp] lemma rounds_cons (r : m.Region) (queue : List m.Region) :
    rounds (r :: queue) = 2 * (r.ahi - r.alo) + 1 + rounds queue := by simp [rounds]

lemma rounds_push (r : m.Region) (queue : List m.Region) :
    rounds (m.push r queue) ≤ rounds (r :: queue) := by
  rw [push]
  split_ifs
  · exact Nat.le_refl _
  · rw [rounds_cons]
    omega

/-! ### `get_matching_blocks` -/

variable [DecidableEq α] (m)

lemma findLongestMatch_within (r : m.Region) :
    Within r (m.findLongestMatch r).a (m.findLongestMatch r).b (m.findLongestMatch r).size := by
  obtain ⟨i, j, k, n, l, -, heq, hin, -⟩ := m.findLongestMatch_spec r
  rwa [heq]

lemma findLongestMatch_common (r : m.Region) :
    m.Common (m.findLongestMatch r).a (m.findLongestMatch r).b (m.findLongestMatch r).size := by
  obtain ⟨i, j, k, n, l, -, heq, -, hrun, -⟩ := m.findLongestMatch_spec r
  rwa [heq]

/-- `(alo, i, blo, j)` -/
def leftPart (r : m.Region) : m.Region where
  alo := r.alo
  ahi := (m.findLongestMatch r).a
  blo := r.blo
  bhi := (m.findLongestMatch r).b
  alo_le := (m.findLongestMatch_within r).alo
  ahi_le := (Nat.le_of_add_right_le (m.findLongestMatch_within r).ahi).trans r.ahi_le
  blo_le := (m.findLongestMatch_within r).blo
  bhi_le := (Nat.le_of_add_right_le (m.findLongestMatch_within r).bhi).trans r.bhi_le

/-- `(i+k, ahi, j+k, bhi)` -/
def rightPart (r : m.Region) : m.Region where
  alo := (m.findLongestMatch r).a + (m.findLongestMatch r).size
  ahi := r.ahi
  blo := (m.findLongestMatch r).b + (m.findLongestMatch r).size
  bhi := r.bhi
  alo_le := (m.findLongestMatch_within r).ahi
  ahi_le := r.ahi_le
  blo_le := (m.findLongestMatch_within r).bhi
  bhi_le := r.bhi_le

/-- The loop `while queue`, for a number of rounds: the blocks it finds. -/
def loop : ℕ → List m.Region → List Match → List Match
  | 0, _, found => found
  | _ + 1, [], found => found
  | n + 1, r :: queue, found =>
    let x := m.findLongestMatch r
    if x.size ≠ 0 then
      loop n (m.push (m.rightPart r) (m.push (m.leftPart r) queue)) (found ++ [x])
    else loop n queue found

/-- The blocks that are found, sorted. Every round takes an element out of the queue and either an
element of `a` or nothing, so the rounds suffice (`loop_perm`). -/
def found : List Match :=
  (m.loop (2 * m.a.length + 1) [m.whole] []).insertionSort Match.Le

/-- `get_matching_blocks` -/
def getMatchingBlocks : List Match := join m.found ++ [⟨m.a.length, m.b.length, 0⟩]

/-! ### The loop finds what the recursion finds -/

/-- The blocks of a region, from left to right. -/
inductive Blocks : m.Region → List Match → Prop where
  | empty {r : m.Region} (hzero : (m.findLongestMatch r).size = 0) : Blocks r []
  | split {r : m.Region} {l l' : List Match} (hpos : (m.findLongestMatch r).size ≠ 0)
      (hleft : Blocks (m.leftPart r) l) (hright : Blocks (m.rightPart r) l') :
      Blocks r (l ++ m.findLongestMatch r :: l')

variable {m}

/-- There is nothing to find in an empty region. -/
lemma size_eq_zero_of_empty {r : m.Region} (hr : ¬ r.Nonempty) :
    (m.findLongestMatch r).size = 0 := by
  obtain ⟨h₁, h₂, h₃, h₄⟩ := m.findLongestMatch_within r
  rw [Region.Nonempty] at hr
  omega

lemma Blocks.eq_nil {r : m.Region} {l : List Match} (hl : m.Blocks r l)
    (hzero : (m.findLongestMatch r).size = 0) : l = [] := by
  cases hl with
  | empty => rfl
  | split hpos => exact absurd hzero hpos

lemma exists_blocks (r : m.Region) : ∃ l, m.Blocks r l := by
  induction hn : r.ahi - r.alo using Nat.strongRecOn generalizing r with
  | ind n ih =>
    by_cases hzero : (m.findLongestMatch r).size = 0
    · exact ⟨[], .empty hzero⟩
    · obtain ⟨h₁, h₂, -, -⟩ := m.findLongestMatch_within r
      have hleft : (m.leftPart r).ahi - (m.leftPart r).alo < n := by
        simp only [leftPart]
        omega
      have hright : (m.rightPart r).ahi - (m.rightPart r).alo < n := by
        simp only [rightPart]
        omega
      obtain ⟨l, hl⟩ := ih _ hleft (m.leftPart r) rfl
      obtain ⟨l', hl'⟩ := ih _ hright (m.rightPart r) rfl
      exact ⟨_, .split hzero hl hl'⟩

/-- The blocks of the regions in a queue. -/
inductive QueueBlocks (m : SequenceMatcher α) : List m.Region → List Match → Prop where
  | nil : QueueBlocks m [] []
  | cons {r : m.Region} {queue : List m.Region} {l l' : List Match} (hr : m.Blocks r l)
      (hq : QueueBlocks m queue l') : QueueBlocks m (r :: queue) (l ++ l')

lemma QueueBlocks.push {r : m.Region} {queue : List m.Region} {l l' : List Match}
    (hr : m.Blocks r l) (hq : m.QueueBlocks queue l') :
    m.QueueBlocks (m.push r queue) (l ++ l') := by
  rw [SequenceMatcher.push]
  split_ifs with hne
  · exact .cons hr hq
  · rw [hr.eq_nil (size_eq_zero_of_empty hne)]
    exact hq

/-- The loop finds the blocks of all regions in the queue. -/
theorem loop_perm {n : ℕ} {queue : List m.Region} {l : List Match} (hq : m.QueueBlocks queue l)
    (hn : rounds queue ≤ n) (acc : List Match) : (m.loop n queue acc).Perm (acc ++ l) := by
  induction n generalizing queue l acc with
  | zero =>
    cases hq with
    | nil => simp [loop]
    | cons hr hq =>
      rw [rounds_cons] at hn
      omega
  | succ n ih =>
    cases hq with
    | nil => simp [loop]
    | @cons r queue l l' hr hq =>
      rw [rounds_cons] at hn
      rw [loop]
      cases hr with
      | empty hzero =>
        simp only [hzero, ne_eq, not_true_eq_false, ↓reduceIte]
        exact ih hq (by omega) acc
      | @split _ left right hpos hleft hright =>
        simp only [hpos, ne_eq, not_false_eq_true, ↓reduceIte]
        obtain ⟨h₁, h₂, -, -⟩ := m.findLongestMatch_within r
        have hrounds : rounds (m.push (m.rightPart r) (m.push (m.leftPart r) queue)) ≤ n := by
          have hright := rounds_push (m.rightPart r) (m.push (m.leftPart r) queue)
          have hleft := rounds_push (m.leftPart r) queue
          rw [rounds_cons] at hright hleft
          simp only [leftPart, rightPart] at hright hleft ⊢
          omega
        refine (ih (.push hright (.push hleft hq)) hrounds _).trans ?_
        rw [List.append_assoc]
        apply List.Perm.append_left
        calc [m.findLongestMatch r] ++ (right ++ (left ++ l'))
            = m.findLongestMatch r :: (right ++ left) ++ l' := by simp
          _ |>.Perm (m.findLongestMatch r :: (left ++ right) ++ l') :=
              (List.perm_append_comm.cons _).append_right _
          _ |>.Perm (left ++ m.findLongestMatch r :: right ++ l') :=
              (List.perm_middle.symm).append_right _

/-! ### The order of the blocks -/

lemma Within.leftPart {r : m.Region} {i j k : ℕ} (h : Within (m.leftPart r) i j k) :
    Within r i j k := by
  obtain ⟨h₁, h₂, h₃, h₄⟩ := h
  obtain ⟨h₅, h₆, h₇, h₈⟩ := m.findLongestMatch_within r
  simp only [SequenceMatcher.leftPart] at h₁ h₂ h₃ h₄
  exact ⟨h₁, by omega, h₃, by omega⟩

lemma Within.rightPart {r : m.Region} {i j k : ℕ} (h : Within (m.rightPart r) i j k) :
    Within r i j k := by
  obtain ⟨h₁, h₂, h₃, h₄⟩ := h
  obtain ⟨h₅, h₆, h₇, h₈⟩ := m.findLongestMatch_within r
  simp only [SequenceMatcher.rightPart] at h₁ h₂ h₃ h₄
  exact ⟨by omega, h₂, by omega, h₄⟩

lemma Blocks.within {r : m.Region} {l : List Match} (hl : m.Blocks r l) :
    ∀ x ∈ l, Within r x.a x.b x.size := by
  induction hl with
  | empty => simp
  | split hpos _ _ ihl ihr =>
    intro x hx
    rcases List.mem_append.mp hx with hx | hx
    · exact (ihl x hx).leftPart
    · rcases List.mem_cons.mp hx with rfl | hx
      · exact m.findLongestMatch_within _
      · exact (ihr x hx).rightPart

lemma Blocks.common {r : m.Region} {l : List Match} (hl : m.Blocks r l) :
    ∀ x ∈ l, 0 < x.size ∧ m.Common x.a x.b x.size := by
  induction hl with
  | empty => simp
  | split hpos _ _ ihl ihr =>
    intro x hx
    rcases List.mem_append.mp hx with hx | hx
    · exact ihl x hx
    · rcases List.mem_cons.mp hx with rfl | hx
      · exact ⟨Nat.pos_of_ne_zero hpos, m.findLongestMatch_common _⟩
      · exact ihr x hx

/-- The blocks of a region come one after the other. -/
lemma Blocks.pairwise {r : m.Region} {l : List Match} (hl : m.Blocks r l) : l.Pairwise Before := by
  induction hl with
  | empty => exact .nil
  | @split r l l' hpos hleft hright ihl ihr =>
    have hbefore : ∀ x ∈ l, Before x (m.findLongestMatch r) := by
      intro x hx
      obtain ⟨-, h₁, -, h₂⟩ := hleft.within x hx
      exact ⟨h₁, h₂⟩
    have hafter : ∀ y ∈ l', Before (m.findLongestMatch r) y := by
      intro y hy
      obtain ⟨h₁, -, h₂, -⟩ := hright.within y hy
      exact ⟨h₁, h₂⟩
    refine List.pairwise_append.mpr ⟨ihl, List.pairwise_cons.mpr ⟨hafter, ihr⟩, ?_⟩
    intro x hx y hy
    rcases List.mem_cons.mp hy with rfl | hy
    · exact hbefore x hx
    · obtain ⟨h₁, h₂⟩ := hbefore x hx
      obtain ⟨h₃, h₄⟩ := hafter y hy
      exact ⟨by omega, by omega⟩

/-- Sorting what the loop has found gives the blocks from left to right. -/
theorem found_eq_blocks {l : List Match} (hl : m.Blocks m.whole l) : m.found = l := by
  have hrounds : rounds [m.whole] ≤ 2 * m.a.length + 1 := by simp [rounds, whole]
  have hperm := loop_perm (.cons hl .nil) hrounds []
  rw [List.append_nil, List.nil_append] at hperm
  have hsorted : l.Pairwise Match.Le := by
    apply hl.pairwise.imp_of_mem
    intro x y hx _ hxy
    have hpos := (hl.common x hx).1
    exact Or.inl (by have := hxy.a; omega)
  rw [found]
  exact List.Perm.eq_of_pairwise (fun _ _ _ _ => Match.Le.antisymm)
    (List.pairwise_insertionSort _ _) hsorted ((List.perm_insertionSort _ _).trans hperm)

/-! ### What `get_matching_blocks` answers -/

variable (m) in
/-- **Matching blocks.** The blocks before the sentinel are common to the two sequences, they come
one after the other without touching, and one of them contains the block that `find_longest_match`
answers for the whole sequences. -/
theorem getMatchingBlocks_spec :
    ∃ l, m.getMatchingBlocks = l ++ [⟨m.a.length, m.b.length, 0⟩] ∧
      (∀ x ∈ l, 0 < x.size ∧ m.Common x.a x.b x.size) ∧ l.Pairwise Apart ∧
      ((m.findLongestMatch m.whole).size ≠ 0 →
        ∃ y ∈ l, Covers y (m.findLongestMatch m.whole)) := by
  obtain ⟨l, hl⟩ := exists_blocks m.whole
  have hstart : m.JoinState (⟨0, 0, 0⟩, []) l := by
    refine ⟨fun d hd => absurd hd (Nat.not_lt_zero d), by simp, .nil, by simp, fun x _ => ?_⟩
    exact ⟨Nat.zero_le _, Nat.zero_le _⟩
  obtain ⟨hout, hapart, -, -, hcov⟩ := hstart.foldl hl.common hl.pairwise
  refine ⟨_, rfl, ?_⟩
  rw [join, found_eq_blocks hl]
  refine ⟨hout, hapart, fun hpos => hcov _ ?_⟩
  cases hl with
  | empty hzero => exact absurd hzero hpos
  | split _ _ _ => simp

/-! ### `ratio` -/

variable (m) in
/-- `ratio` -/
def ratio : ℚ :=
  let length := m.a.length + m.b.length
  if length ≠ 0 then 2 * matchCount m.getMatchingBlocks / length else 1

variable (m) in
/-- The similarity ratio is `1` for equal sequences, and only for them. -/
theorem ratio_eq_one_iff : m.ratio = 1 ↔ m.a = m.b := by
  obtain ⟨l, hblocks, hl, hpair, hlongest⟩ := m.getMatchingBlocks_spec
  have hcount : matchCount m.getMatchingBlocks = matchCount l := by
    simp [hblocks, matchCount]
  have hwithin : ∀ x ∈ l, x.a + x.size ≤ m.a.length ∧ x.b + x.size ≤ m.b.length :=
    fun x hx => Common.within (hl x hx).2 (hl x hx).1
  have hlea : 0 + matchCount l ≤ m.a.length := add_matchCount_le Match.a (hpair.imp fun h => h.a)
    (Nat.zero_le _) fun x hx => ⟨Nat.zero_le _, (hwithin x hx).1⟩
  have hleb : 0 + matchCount l ≤ m.b.length := add_matchCount_le Match.b (hpair.imp fun h => h.b)
    (Nat.zero_le _) fun x hx => ⟨Nat.zero_le _, (hwithin x hx).2⟩
  have hratio : m.ratio = 1 ↔ 2 * matchCount l = m.a.length + m.b.length := by
    rw [ratio, hcount]
    by_cases hzero : m.a.length + m.b.length = 0
    · simp only [hzero, ne_eq, not_true_eq_false, ↓reduceIte, true_iff]
      omega
    · simp only [ne_eq, hzero, not_false_eq_true, ↓reduceIte]
      have hne : ((m.a.length + m.b.length : ℕ) : ℚ) ≠ 0 := Nat.cast_ne_zero.mpr hzero
      rw [div_eq_one_iff_eq hne]
      exact_mod_cast Iff.rfl
  rw [hratio]
  constructor
  · intro hfull
    exact eq_of_matchCount hl hpair (by omega) (by omega)
  · intro hab
    have hlen : m.a.length = m.b.length := congrArg List.length hab
    rw [findLongestMatch_of_eq hab] at hlongest
    by_cases hzero : m.a.length = 0
    · omega
    · obtain ⟨y, hy, d, -, -, hsize⟩ := hlongest hzero
      have hmem : y.size ≤ matchCount l := List.single_le_sum (by simp) _ (List.mem_map_of_mem hy)
      simp only at hsize
      omega

/-! ### The longest block -/

/-- `max(blocks, key=lambda b: b.size, default=None)` -/
def maxBySize : List Match → Option Match
  | [] => none
  | x :: blocks => some (blocks.foldl keepLarger x)

/-- What `max` answers is the first of the largest blocks. -/
lemma maxBySize_eq_some {l : List Match} {x : Match} (h : maxBySize l = some x) :
    x ∈ l ∧ (∀ y ∈ l, y.size ≤ x.size) ∧
      ∃ front back, l = front ++ x :: back ∧ ∀ y ∈ front, y.size < x.size := by
  cases l with
  | nil => cases h
  | cons y l =>
    obtain ⟨hall, hfirst⟩ := foldl_keepLarger l y
    obtain rfl : l.foldl keepLarger y = x := Option.some.inj h
    rcases hfirst with heq | ⟨hlt, front, back, heq, hfront⟩
    · rw [heq] at hall ⊢
      exact ⟨List.mem_cons_self, List.forall_mem_cons.mpr ⟨Nat.le_refl _, hall⟩, [], l, rfl,
        by simp⟩
    · refine ⟨?_, List.forall_mem_cons.mpr ⟨hlt.le, hall⟩, y :: front, back, ?_,
        List.forall_mem_cons.mpr ⟨hlt, hfront⟩⟩
      · apply List.mem_cons_of_mem
        have hmem : l.foldl keepLarger y ∈ front ++ l.foldl keepLarger y :: back := by simp
        rwa [← heq] at hmem
      · rw [List.cons_append, ← heq]

variable (m) in
/-- **Longest block.** The first of the largest matching blocks is the one that `find_longest_match`
answers for the whole sequences. -/
theorem maxBySize_getMatchingBlocks (hjunk : m.autojunk = false) :
    maxBySize (m.getMatchingBlocks.filter fun x => 0 < x.size) =
      if (m.findLongestMatch m.whole).size = 0 then none
      else some (m.findLongestMatch m.whole) := by
  obtain ⟨l, hblocks, hl, hpair, hlongest⟩ := m.getMatchingBlocks_spec
  have hmax := m.findLongestMatch_isLongest m.whole hjunk
  have hfilter : m.getMatchingBlocks.filter (fun x => 0 < x.size) = l := by
    rw [hblocks, List.filter_append, List.filter_eq_self.mpr fun x hx => by simpa using (hl x hx).1]
    simp
  have hin : ∀ x ∈ l, Within m.whole x.a x.b x.size := by
    intro x hx
    obtain ⟨ha, hb⟩ := Common.within (hl x hx).2 (hl x hx).1
    exact ⟨Nat.zero_le _, ha, Nat.zero_le _, hb⟩
  have hle : ∀ x ∈ l, x.size ≤ (m.findLongestMatch m.whole).size :=
    fun x hx => hmax.size _ _ _ (hin x hx) (hl x hx).2
  rw [hfilter]
  split_ifs with hzero
  · cases l with
    | nil => rfl
    | cons x l =>
      have := hle x List.mem_cons_self
      have := (hl x List.mem_cons_self).1
      omega
  · -- the block that contains the longest one is no larger
    obtain ⟨y, hy, d, ha, hb, hsize⟩ := hlongest hzero
    have hyle := hle y hy
    obtain rfl : d = 0 := by omega
    have hmem : m.findLongestMatch m.whole ∈ l := by
      have heq : m.findLongestMatch m.whole = y := by
        cases hx : m.findLongestMatch m.whole
        cases y
        simp only [hx, Match.mk.injEq] at ha hb hsize hyle ⊢
        omega
      rwa [heq]
    cases hx : maxBySize l with
    | none =>
      cases l with
      | nil => cases hmem
      | cons _ _ => cases hx
    | some x =>
      obtain ⟨hxl, hall, front, back, rfl, hfront⟩ := maxBySize_eq_some hx
      have hsame : x.size = (m.findLongestMatch m.whole).size :=
        Nat.le_antisymm (hle x hxl) (hall _ hmem)
      rcases List.mem_append.mp hmem with hmem | hmem
      · have := hfront _ hmem
        omega
      · rcases List.mem_cons.mp hmem with heq | hmem
        · rw [heq]
        · -- a block that ends before the longest one begins would have been found instead
          have hbefore := (List.pairwise_cons.mp (List.pairwise_append.mp hpair).2.1).1 _ hmem
          have hrun : m.Common x.a x.b (m.findLongestMatch m.whole).size := hsame ▸ (hl x hxl).2
          have hfirst := hmax.first x.a x.b (Nat.pos_of_ne_zero hzero) (hsame ▸ hin x hxl) hrun
          have := hbefore.a
          have := (hl x hxl).1
          omega

end SequenceMatcher

end SyscallMonitor.Lib
