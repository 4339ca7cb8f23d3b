import Mathlib.Data.List.Range
import Mathlib.Logic.Function.Basic
import Mathlib.Tactic.Common

/-!
# The longest matching block

`difflib.SequenceMatcher` without a junk function: the table of indices with its `autojunk`
heuristic, and `find_longest_match`. `findLongestMatch_isLongest` says that the block found is the
longest one without popular elements, and of several the first in the one sequence and then in the
other.
-/

namespace SyscallMonitor.Lib

universe u

variable {α : Type u}

/-- `Match(a, b, size)`: the slices `a[m.a:m.a+m.size]` and `b[m.b:m.b+m.size]` agree. -/
structure Match where
  a : ℕ
  b : ℕ
  size : ℕ
  deriving DecidableEq

/-- The two sequences, and whether popular elements are passed over. -/
structure SequenceMatcher (α : Type u) where
  a : List α
  b : List α
  autojunk : Bool

namespace SequenceMatcher

/-- The slices `a[alo:ahi]` and `b[blo:bhi]`, which are to be compared. -/
structure Region (m : SequenceMatcher α) where
  alo : ℕ
  ahi : ℕ
  blo : ℕ
  bhi : ℕ
  alo_le : alo ≤ ahi
  ahi_le : ahi ≤ m.a.length
  blo_le : blo ≤ bhi
  bhi_le : bhi ≤ m.b.length

/-! ### `find_longest_match` -/

section

variable [DecidableEq α] (m : SequenceMatcher α) (r : m.Region)

/-- The indices in `b` of an element, in increasing order. -/
def indices (x : α) : List ℕ := (List.range m.b.length).filter fun j => m.b[j]? = some x

/-- The elements that `__chain_b` takes out of `b2j`. -/
def isPopular (x : α) : Bool :=
  m.autojunk && decide (m.b.length ≥ 200) && decide ((m.indices x).length > m.b.length / 100 + 1)

/-- `b2j.get(x, nothing)` -/
def b2j (x : α) : List ℕ := if m.isPopular x then [] else m.indices x

/-- `j2lenget(j - 1, 0)` -/
def before (j2len : ℕ → ℕ) : ℕ → ℕ
  | 0 => 0
  | j + 1 => j2len j

/-- The variables of the outer loop; a key that `j2len` does not have counts as `0`. -/
structure Scan where
  best : Match
  j2len : ℕ → ℕ

/-- The inner loop, over the indices `js`; `st.j2len` is `newj2len`. -/
def scanIndices (i : ℕ) (j2len : ℕ → ℕ) : List ℕ → Scan → Scan
  | [], st => st
  | j :: js, st =>
    if j < r.blo then scanIndices i j2len js st
    else if j ≥ r.bhi then st
    else
      let k := before j2len j + 1
      scanIndices i j2len js
        { best := if k > st.best.size then ⟨i + 1 - k, j + 1 - k, k⟩ else st.best
          j2len := Function.update st.j2len j k }

/-- The body of the outer loop. -/
def scanRow (st : Scan) (i : ℕ) : Scan :=
  m.scanIndices r i st.j2len ((m.a[i]?).elim [] m.b2j) ⟨st.best, fun _ => 0⟩

/-- The outer loop. -/
def scanRows : Scan :=
  (List.range' r.alo (r.ahi - r.alo)).foldl (m.scanRow r) ⟨⟨r.alo, r.blo, 0⟩, fun _ => 0⟩

/-- The loop that extends a block to the left; it goes down in `besti`. -/
def extendLeft : ℕ → ℕ → ℕ → Match
  | 0, j, k => ⟨0, j, k⟩
  | i + 1, j, k =>
    if i + 1 > r.alo ∧ j > r.blo ∧ m.b[j - 1]? = m.a[i]? then extendLeft i (j - 1) (k + 1)
    else ⟨i + 1, j, k⟩

/-- The loop that extends a block to the right, with the number of rounds that there is room for. -/
def extendRight : ℕ → Match → Match
  | 0, x => x
  | n + 1, x =>
    if x.a + x.size < r.ahi ∧ x.b + x.size < r.bhi ∧ m.b[x.b + x.size]? = m.a[x.a + x.size]? then
      extendRight n { x with size := x.size + 1 }
    else x

/-- `find_longest_match`. Without junk, the two loops that take in junk at either end do nothing. -/
def findLongestMatch : Match :=
  let best := (m.scanRows r).best
  let best := m.extendLeft r best.a best.b best.size
  m.extendRight r (r.ahi - (best.a + best.size)) best

end

/-! ### Runs -/

/-- `a[i:i+k]` and `b[j:j+k]` have the same elements, which all satisfy `P`. -/
def Run (m : SequenceMatcher α) (P : α → Prop) (i j k : ℕ) : Prop :=
  ∀ d < k, ∃ x, m.a[i + d]? = some x ∧ m.b[j + d]? = some x ∧ P x

/-- The slices of a block lie in a region. -/
structure Within {m : SequenceMatcher α} (r : m.Region) (i j k : ℕ) : Prop where
  alo : r.alo ≤ i
  ahi : i + k ≤ r.ahi
  blo : r.blo ≤ j
  bhi : j + k ≤ r.bhi

/-- A longest run in a region, and of several the first one. -/
structure IsLongest {m : SequenceMatcher α} (P : α → Prop) (r : m.Region) (x : Match) : Prop where
  within : Within r x.a x.b x.size
  run : m.Run P x.a x.b x.size
  size : ∀ i j k, Within r i j k → m.Run P i j k → k ≤ x.size
  empty : x.size = 0 → x.a = r.alo ∧ x.b = r.blo
  first : ∀ i j, 0 < x.size → Within r i j x.size → m.Run P i j x.size →
    x.a < i ∨ x.a = i ∧ x.b ≤ j

lemma run_succ_iff {m : SequenceMatcher α} {P : α → Prop} {i j k : ℕ} :
    m.Run P i j (k + 1) ↔
      m.Run P i j k ∧ ∃ x, m.a[i + k]? = some x ∧ m.b[j + k]? = some x ∧ P x := by
  constructor
  · intro hrun
    exact ⟨fun d hd => hrun d (Nat.lt_succ_of_lt hd), hrun k (Nat.lt_succ_self k)⟩
  · rintro ⟨hrun, hlast⟩ d hd
    rcases Nat.lt_succ_iff_lt_or_eq.mp hd with hd | rfl
    · exact hrun d hd
    · exact hlast

/-- `a[i:i+k]` and `b[j:j+k]` are equal. -/
abbrev Common (m : SequenceMatcher α) (i j k : ℕ) : Prop := m.Run (fun _ => True) i j k

lemma common_cons {m : SequenceMatcher α} {i j k : ℕ} (hi : i < m.a.length)
    (heq : m.b[j]? = m.a[i]?) (hrun : m.Common (i + 1) (j + 1) k) : m.Common i j (k + 1) := by
  intro d hd
  cases d with
  | zero =>
    have hx := List.getElem?_eq_getElem hi
    exact ⟨_, hx, heq.trans hx, trivial⟩
  | succ d =>
    have hshift (n : ℕ) : n + (d + 1) = n + 1 + d := by omega
    rw [hshift, hshift]
    exact hrun d (by omega)

lemma common_concat {m : SequenceMatcher α} {i j k : ℕ} (hi : i + k < m.a.length)
    (heq : m.b[j + k]? = m.a[i + k]?) (hrun : m.Common i j k) : m.Common i j (k + 1) := by
  have hx := List.getElem?_eq_getElem hi
  exact run_succ_iff.mpr ⟨hrun, _, hx, heq.trans hx, trivial⟩

/-! ### Keeping the larger block -/

/-- What the comparison `k > bestsize` does. -/
def keepLarger (best c : Match) : Match := if c.size > best.size then c else best

/-- The first of the largest blocks is kept. -/
lemma foldl_keepLarger (l : List Match) (best : Match) :
    (∀ c ∈ l, c.size ≤ (l.foldl keepLarger best).size) ∧
      (l.foldl keepLarger best = best ∨ best.size < (l.foldl keepLarger best).size ∧
        ∃ front back, l = front ++ l.foldl keepLarger best :: back ∧
          ∀ c ∈ front, c.size < (l.foldl keepLarger best).size) := by
  induction l generalizing best with
  | nil => simp
  | cons c l ih =>
    obtain ⟨hall, hfirst⟩ := ih (keepLarger best c)
    have hkeep : best.size ≤ (keepLarger best c).size ∧ c.size ≤ (keepLarger best c).size := by
      rw [keepLarger]
      split_ifs <;> omega
    rw [List.foldl_cons]
    rcases hfirst with heq | ⟨hlt, front, back, heq, hfront⟩
    · rw [heq] at hall ⊢
      refine ⟨List.forall_mem_cons.mpr ⟨hkeep.2, hall⟩, ?_⟩
      rw [keepLarger]
      split_ifs with hc
      · exact Or.inr ⟨hc, [], l, rfl, by simp⟩
      · exact Or.inl rfl
    · have hc : c.size < (l.foldl keepLarger (keepLarger best c)).size := hkeep.2.trans_lt hlt
      refine ⟨List.forall_mem_cons.mpr ⟨hc.le, hall⟩, Or.inr ⟨hkeep.1.trans_lt hlt, ?_⟩⟩
      refine ⟨c :: front, back, ?_, List.forall_mem_cons.mpr ⟨hc, hfront⟩⟩
      rw [List.cons_append, ← heq]

/-! ### What the rows compute -/

section

variable [DecidableEq α] (m : SequenceMatcher α) (r : m.Region)

/-- `a[i]` and `b[j]` are the same element, which is in `b2j`. -/
def hit (i j : ℕ) : Bool :=
  (m.a[i]?).elim false fun x => decide (m.b[j]? = some x) && !m.isPopular x

lemma hit_eq (i j : ℕ) :
    m.hit i j = (m.a[i]?).elim false fun x => decide (m.b[j]? = some x) && !m.isPopular x := rfl

lemma hit_iff {m : SequenceMatcher α} {i j : ℕ} :
    m.hit i j = true ↔ ∃ x, m.a[i]? = some x ∧ m.b[j]? = some x ∧ m.isPopular x = false := by
  rw [hit]
  cases m.a[i]? <;> simp

/-- The length of the longest run in the region that ends before `a[i]` and before `b[j]`. -/
def runLen : ℕ → ℕ → ℕ
  | 0, _ => 0
  | _ + 1, 0 => 0
  | i + 1, j + 1 =>
    if r.alo ≤ i ∧ r.blo ≤ j ∧ j < r.bhi ∧ m.hit i j = true then runLen i j + 1 else 0

@[simp] lemma runLen_zero_right (i : ℕ) : m.runLen r i 0 = 0 := by cases i <;> rfl

lemma runLen_le (i j : ℕ) : m.runLen r i j ≤ i ∧ m.runLen r i j ≤ j := by
  induction i generalizing j with
  | zero => simp [runLen]
  | succ i ih =>
    cases j with
    | zero => simp
    | succ j =>
      have := ih j
      rw [runLen]
      split_ifs <;> omega

lemma runLen_of_le {i : ℕ} (hi : i ≤ r.alo) (j : ℕ) : m.runLen r i j = 0 := by
  cases i with
  | zero => rfl
  | succ i =>
    cases j with
    | zero => rfl
    | succ j =>
      rw [runLen, if_neg]
      omega

/-- `runLen` counts the runs that end at a given place. -/
lemma lt_runLen_iff (i j k : ℕ) :
    k < m.runLen r (i + k + 1) (j + k + 1) ↔
      r.alo ≤ i ∧ r.blo ≤ j ∧ j + k < r.bhi ∧
        m.Run (fun x => m.isPopular x = false) i j (k + 1) := by
  induction k with
  | zero =>
    rw [runLen]
    simp only [Nat.add_zero, run_succ_iff, ← hit_iff]
    split_ifs with h
    · simp [h, Run]
    · simp only [Nat.lt_irrefl, false_iff]
      rintro ⟨h₁, h₂, h₃, -, h₄⟩
      exact h ⟨h₁, h₂, h₃, h₄⟩
  | succ k ih =>
    rw [runLen, run_succ_iff, ← hit_iff]
    split_ifs with h
    · have hk : i + (k + 1) = i + k + 1 ∧ j + (k + 1) = j + k + 1 := ⟨rfl, rfl⟩
      rw [Nat.add_lt_add_iff_right, hk.1, hk.2, ih]
      constructor
      · rintro ⟨h₁, h₂, -, hrun⟩
        exact ⟨h₁, h₂, h.2.2.1, hrun, h.2.2.2⟩
      · rintro ⟨h₁, h₂, h₃, hrun, -⟩
        exact ⟨h₁, h₂, by omega, hrun⟩
    · simp only [Nat.not_lt_zero, false_iff]
      rintro ⟨h₁, h₂, h₃, -, h₄⟩
      exact h ⟨by omega, by omega, h₃, h₄⟩

/-- The columns that the inner loop visits. -/
def cols (i : ℕ) : List ℕ :=
  ((m.a[i]?).elim [] m.b2j).filter fun j => decide (r.blo ≤ j) && decide (j < r.bhi)

lemma mem_cols {i j : ℕ} :
    j ∈ m.cols r i ↔ r.blo ≤ j ∧ j < r.bhi ∧ m.hit i j = true := by
  have hb (x : α) : m.b[j]? = some x → j < m.b.length := fun h => (List.getElem?_eq_some_iff.mp h).1
  rw [cols, hit]
  cases m.a[i]? with
  | none => simp
  | some x =>
    have := hb x
    simp only [Option.elim_some, b2j, indices, List.mem_filter]
    split_ifs with hpop
    · simp [hpop]
    · simp [hpop]
      tauto

lemma pairwise_b2j (x : α) : (m.b2j x).Pairwise (· < ·) := by
  rw [b2j]
  split_ifs
  · exact .nil
  · exact List.pairwise_lt_range.filter _

/-- The indices that a row looks at are hits, and increasing. -/
lemma hits_of_row (i : ℕ) :
    ((m.a[i]?).elim [] m.b2j).Pairwise (· < ·) ∧
      ∀ j ∈ (m.a[i]?).elim [] m.b2j, m.hit i j = true := by
  rw [funext (m.hit_eq i)]
  cases m.a[i]? with
  | none => simp
  | some x =>
    refine ⟨m.pairwise_b2j x, ?_⟩
    simp only [Option.elim_some, b2j, indices]
    split_ifs with hpop <;> simp [hpop]

lemma pairwise_cols (i : ℕ) : (m.cols r i).Pairwise (· < ·) := (m.hits_of_row i).1.filter _

/-- The block that ends with `a[i]` and `b[j]`. -/
def cell (i j : ℕ) : Match :=
  ⟨i + 1 - m.runLen r (i + 1) (j + 1), j + 1 - m.runLen r (i + 1) (j + 1),
    m.runLen r (i + 1) (j + 1)⟩

/-- `j2len` holds the runs that end with the row before `i`. -/
def Scan.At (i : ℕ) (st : Scan) : Prop := ∀ j, before st.j2len j = m.runLen r i j

variable {m r}

/-- What the inner loop does with `best` and `newj2len`. -/
lemma scanIndices_eq {i : ℕ} {j2len : ℕ → ℕ} (hrow : ∀ j, before j2len j = m.runLen r i j)
    (hi : r.alo ≤ i) {js : List ℕ} (hjs : js.Pairwise (· < ·))
    (hhit : ∀ j ∈ js, m.hit i j = true) (st : Scan) :
    let cs := js.filter fun j => decide (r.blo ≤ j) && decide (j < r.bhi)
    m.scanIndices r i j2len js st =
      { best := (cs.map (m.cell r i)).foldl keepLarger st.best
        j2len := fun j => if j ∈ cs then m.runLen r (i + 1) (j + 1) else st.j2len j } := by
  induction js generalizing st with
  | nil => simp [scanIndices]
  | cons j js ih =>
    obtain ⟨hlt, hjs⟩ := List.pairwise_cons.mp hjs
    obtain ⟨hj, hhit⟩ := List.forall_mem_cons.mp hhit
    have hrest := ih hjs hhit
    rw [scanIndices]
    split_ifs with hlo hhi
    · have hout : ¬ r.blo ≤ j := by omega
      simpa [hout] using hrest st
    · -- the indices that follow are too large as well
      have hempty : (j :: js).filter (fun j => decide (r.blo ≤ j) && decide (j < r.bhi)) = [] := by
        rw [List.filter_eq_nil_iff]
        intro j' hj'
        rcases List.mem_cons.mp hj' with rfl | hj'
        · simp; omega
        · have := hlt j' hj'
          simp; omega
      simp [hempty]
    · have hin : r.blo ≤ j ∧ j < r.bhi := by omega
      have hlen : m.runLen r (i + 1) (j + 1) = before j2len j + 1 := by
        rw [runLen, if_pos ⟨hi, hin.1, hin.2, hj⟩, hrow]
      have hcons : (j :: js).filter (fun j => decide (r.blo ≤ j) && decide (j < r.bhi))
          = j :: js.filter (fun j => decide (r.blo ≤ j) && decide (j < r.bhi)) := by
        simp [hin]
      simp only [hrest, hcons, ← hlen, List.map_cons, List.foldl_cons]
      congr 1
      funext j'
      by_cases hj' : j' = j
      · simp [hj']
      · simp [hj']

/-- What one row does. -/
lemma scanRow_eq {i : ℕ} (hi : r.alo ≤ i) {st : Scan} (hst : st.At m r i) :
    (m.scanRow r st i).best = ((m.cols r i).map (m.cell r i)).foldl keepLarger st.best ∧
      (m.scanRow r st i).At m r (i + 1) := by
  obtain ⟨hjs, hhit⟩ := m.hits_of_row i
  rw [scanRow, scanIndices_eq hst hi hjs hhit]
  refine ⟨rfl, ?_⟩
  intro j
  cases j with
  | zero => simp [before]
  | succ j =>
    have hcol : j ∈ m.cols r i ↔ r.blo ≤ j ∧ j < r.bhi ∧ m.hit i j = true := m.mem_cols r
    rw [cols] at hcol
    simp only [before, hcol]
    split_ifs with hj
    · rfl
    · rw [runLen, if_neg fun h => hj h.2]

variable (m r) in
/-- The blocks that the rows from `i` on compare, in their order. -/
def cells (i n : ℕ) : List Match :=
  (List.range' i n).flatMap fun i => (m.cols r i).map (m.cell r i)

lemma cells_succ (i n : ℕ) :
    m.cells r i (n + 1) = (m.cols r i).map (m.cell r i) ++ m.cells r (i + 1) n := by
  rw [cells, List.range'_succ, List.flatMap_cons, cells]

lemma foldl_scanRow {i n : ℕ} (hi : r.alo ≤ i) {st : Scan} (hst : st.At m r i) :
    ((List.range' i n).foldl (m.scanRow r) st).best = (m.cells r i n).foldl keepLarger st.best := by
  induction n generalizing i st with
  | zero => rfl
  | succ n ih =>
    obtain ⟨hbest, hrow⟩ := scanRow_eq hi hst
    rw [List.range'_succ, List.foldl_cons, ih (Nat.le_succ_of_le hi) hrow, hbest, cells_succ,
      List.foldl_append]

lemma scanRows_best :
    (m.scanRows r).best = (m.cells r r.alo (r.ahi - r.alo)).foldl keepLarger ⟨r.alo, r.blo, 0⟩ := by
  apply foldl_scanRow (Nat.le_refl _)
  intro j
  rw [runLen_of_le _ _ (Nat.le_refl _)]
  cases j <;> rfl

lemma mem_cells {c : Match} :
    c ∈ m.cells r r.alo (r.ahi - r.alo) ↔
      ∃ i j, (r.alo ≤ i ∧ i < r.ahi) ∧ j ∈ m.cols r i ∧ m.cell r i j = c := by
  have hrange (i : ℕ) : i ∈ List.range' r.alo (r.ahi - r.alo) ↔ r.alo ≤ i ∧ i < r.ahi := by
    have := r.alo_le
    rw [List.mem_range'_1]
    omega
  simp only [cells, List.mem_flatMap, List.mem_map, hrange]
  exact ⟨fun ⟨i, hi, j, hj, hc⟩ => ⟨i, j, hi, hj, hc⟩, fun ⟨i, j, hi, hj, hc⟩ => ⟨i, hi, j, hj, hc⟩⟩

lemma cell_end (i j : ℕ) :
    (m.cell r i j).a + (m.cell r i j).size = i + 1 ∧
      (m.cell r i j).b + (m.cell r i j).size = j + 1 := by
  have := m.runLen_le r (i + 1) (j + 1)
  simp only [cell]
  omega

/-- The blocks are compared in the order of where they end. -/
lemma pairwise_cells (i n : ℕ) :
    (m.cells r i n).Pairwise fun c c' =>
      c.a + c.size < c'.a + c'.size ∨
        c.a + c.size = c'.a + c'.size ∧ c.b + c.size < c'.b + c'.size := by
  rw [cells, List.pairwise_flatMap]
  constructor
  · intro i' _
    rw [List.pairwise_map]
    apply (m.pairwise_cols r i').imp
    intro j j' hj
    have := cell_end (m := m) (r := r) i' j
    have := cell_end (m := m) (r := r) i' j'
    omega
  · refine List.Pairwise.imp ?_ (List.pairwise_lt_range' (s := i) (n := n))
    intro i₁ i₂ hi c hc c' hc'
    obtain ⟨j, -, rfl⟩ := List.mem_map.mp hc
    obtain ⟨j', -, rfl⟩ := List.mem_map.mp hc'
    have := cell_end (m := m) (r := r) i₁ j
    have := cell_end (m := m) (r := r) i₂ j'
    omega

/-- A cell that is compared holds a run. -/
lemma run_of_mem_cells {c : Match} (hc : c ∈ m.cells r r.alo (r.ahi - r.alo)) :
    Within r c.a c.b c.size ∧ m.Run (fun x => m.isPopular x = false) c.a c.b c.size ∧
      0 < c.size := by
  obtain ⟨i, j, ⟨hlo, hhi⟩, hj, rfl⟩ := mem_cells.mp hc
  obtain ⟨hjlo, hjhi, hhit⟩ := (m.mem_cols r).mp hj
  obtain ⟨ha, hb⟩ := cell_end (m := m) (r := r) i j
  have hpos : 0 < (m.cell r i j).size := by
    show 0 < m.runLen r (i + 1) (j + 1)
    rw [runLen, if_pos ⟨hlo, hjlo, hjhi, hhit⟩]
    exact Nat.succ_pos _
  obtain ⟨k, hk⟩ := Nat.exists_eq_succ_of_ne_zero (Nat.ne_of_gt hpos)
  have hlt : k < m.runLen r ((m.cell r i j).a + k + 1) ((m.cell r i j).b + k + 1) := by
    have hi : (m.cell r i j).a + k + 1 = i + 1 := by omega
    have hj : (m.cell r i j).b + k + 1 = j + 1 := by omega
    rw [hi, hj]
    exact Nat.lt_of_succ_le (Nat.le_of_eq hk.symm)
  obtain ⟨h₁, h₂, h₃, hrun⟩ := (m.lt_runLen_iff r _ _ k).mp hlt
  exact ⟨⟨h₁, by omega, h₂, by omega⟩, hk ▸ hrun, hpos⟩

/-- A run ends in a cell that is compared, and is no longer than what the cell holds. -/
lemma exists_cell {i j k : ℕ} (hin : Within r i j (k + 1))
    (hrun : m.Run (fun x => m.isPopular x = false) i j (k + 1)) :
    ∃ c ∈ m.cells r r.alo (r.ahi - r.alo), c.a + c.size = i + k + 1 ∧ c.b + c.size = j + k + 1 ∧
      k < c.size := by
  obtain ⟨h₁, h₂, h₃, h₄⟩ := hin
  have hlt := (m.lt_runLen_iff r i j k).mpr ⟨h₁, h₃, by omega, hrun⟩
  obtain ⟨-, x, hx⟩ := run_succ_iff.mp hrun
  refine ⟨m.cell r (i + k) (j + k), ?_, (cell_end _ _).1, (cell_end _ _).2, hlt⟩
  apply mem_cells.mpr
  refine ⟨i + k, j + k, by omega, ?_, rfl⟩
  exact (m.mem_cols r).mpr ⟨by omega, by omega, hit_iff.mpr ⟨x, hx⟩⟩

variable (m r) in
/-- **Longest match.** What the rows find is a longest run without popular elements, and of several
the one that begins first. -/
theorem scanRows_isLongest :
    IsLongest (fun x => m.isPopular x = false) r (m.scanRows r).best := by
  obtain ⟨hall, hfirst⟩ := foldl_keepLarger (m.cells r r.alo (r.ahi - r.alo)) ⟨r.alo, r.blo, 0⟩
  rw [← scanRows_best] at hall hfirst
  have hsize : ∀ i j k, Within r i j k → m.Run (fun x => m.isPopular x = false) i j k →
      k ≤ (m.scanRows r).best.size := by
    intro i j k hin hrun
    cases k with
    | zero => exact Nat.zero_le _
    | succ k =>
      obtain ⟨c, hc, -, -, hk⟩ := exists_cell hin hrun
      exact Nat.le_trans hk (hall c hc)
  rcases hfirst with heq | ⟨-, front, back, heq, hfront⟩
  · rw [heq] at hsize ⊢
    have := r.alo_le
    have := r.blo_le
    refine ⟨⟨by simp, by simpa, by simp, by simpa⟩, fun d hd => ?_, hsize, fun _ => ⟨rfl, rfl⟩,
      fun i j hpos => ?_⟩
    · exact absurd hd (Nat.not_lt_zero d)
    · exact absurd hpos (Nat.lt_irrefl 0)
  · have hmem : (m.scanRows r).best ∈ m.cells r r.alo (r.ahi - r.alo) := by
      rw [heq]
      simp
    obtain ⟨hin, hrun, hpos⟩ := run_of_mem_cells hmem
    refine ⟨hin, hrun, hsize, fun hzero => absurd hzero (Nat.ne_of_gt hpos), ?_⟩
    intro i j _ hin' hrun'
    obtain ⟨k, hk⟩ := Nat.exists_eq_succ_of_ne_zero (Nat.ne_of_gt hpos)
    rw [hk] at hin' hrun'
    obtain ⟨c, hc, ha, hb, hlt⟩ := exists_cell hin' hrun'
    have hle := hall c hc
    -- the cell is as large as the one found, so it is that one or comes after it
    have hpair := pairwise_cells (m := m) (r := r) r.alo (r.ahi - r.alo)
    rw [heq, List.pairwise_append] at hpair
    rw [heq, List.mem_append, List.mem_cons] at hc
    rcases hc with hc | rfl | hc
    · have := hfront c hc
      omega
    · omega
    · have := (List.pairwise_cons.mp hpair.2.1).1 c hc
      omega

/-! ### The extension at both ends -/

/-- The block is extended to the left as far as possible. -/
lemma extendLeft_spec {i j k : ℕ} (hin : Within r i j k) (hrun : m.Common i j k) :
    ∃ n, n ≤ i ∧ n ≤ j ∧ m.extendLeft r i j k = ⟨i - n, j - n, k + n⟩ ∧
      Within r (i - n) (j - n) (k + n) ∧ m.Common (i - n) (j - n) (k + n) ∧
      ¬ (i - n > r.alo ∧ j - n > r.blo ∧ m.b[j - n - 1]? = m.a[i - n - 1]?) := by
  induction i generalizing j k with
  | zero => exact ⟨0, by simp [extendLeft, hin, hrun]⟩
  | succ i ih =>
    rw [extendLeft]
    split_ifs with h
    · obtain ⟨h₁, h₂, heq⟩ := h
      obtain ⟨j, rfl⟩ : ∃ j', j = j' + 1 := ⟨j - 1, by omega⟩
      have hlen := r.ahi_le
      obtain ⟨h₃, h₄, h₅, h₆⟩ := hin
      have hin' : Within r i j (k + 1) := ⟨by omega, by omega, by omega, by omega⟩
      obtain ⟨n, hi, hj, hx, hin'', hrun', hstop⟩ :=
        ih hin' (common_cons (by omega) (by simpa using heq) hrun)
      have h₇ : i + 1 - (n + 1) = i - n := by omega
      have h₈ : j + 1 - (n + 1) = j - n := by omega
      have h₉ : k + (n + 1) = k + 1 + n := by omega
      rw [Nat.add_sub_cancel]
      refine ⟨n + 1, by omega, by omega, ?_⟩
      rw [h₇, h₈, h₉]
      exact ⟨hx, hin'', hrun', hstop⟩
    · exact ⟨0, by omega, by omega, rfl, hin, hrun, by simpa using h⟩

/-- The block is extended to the right as far as possible. -/
lemma extendRight_spec {n i j k : ℕ} (hin : Within r i j k) (hrun : m.Common i j k)
    (hn : r.ahi ≤ i + k + n) :
    ∃ l, m.extendRight r n ⟨i, j, k⟩ = ⟨i, j, k + l⟩ ∧ Within r i j (k + l) ∧
      m.Common i j (k + l) ∧
      ¬ (i + (k + l) < r.ahi ∧ j + (k + l) < r.bhi ∧ m.b[j + (k + l)]? = m.a[i + (k + l)]?) := by
  induction n generalizing k with
  | zero =>
    refine ⟨0, rfl, hin, hrun, ?_⟩
    rintro ⟨h, -⟩
    omega
  | succ n ih =>
    simp only [extendRight]
    split_ifs with h
    · obtain ⟨h₁, h₂, heq⟩ := h
      have hlen := r.ahi_le
      obtain ⟨h₃, h₄, h₅, h₆⟩ := hin
      have hin' : Within r i j (k + 1) := ⟨h₃, by omega, h₅, by omega⟩
      have hrun' : m.Common i j (k + 1) := common_concat (by omega) heq hrun
      obtain ⟨l, hx, hrest⟩ := ih hin' hrun' (by omega)
      have hl : k + (l + 1) = k + 1 + l := by omega
      refine ⟨l + 1, ?_⟩
      rw [hl]
      exact ⟨hx, hrest⟩
    · exact ⟨0, rfl, hin, hrun, h⟩

variable (m r) in
/-- `find_longest_match` answers a common block of the region: the longest one without popular
elements, extended at both ends as far as possible. -/
theorem findLongestMatch_spec :
    ∃ i j k n l, IsLongest (fun x => m.isPopular x = false) r ⟨i + n, j + n, k⟩ ∧
      m.findLongestMatch r = ⟨i, j, k + n + l⟩ ∧ Within r i j (k + n + l) ∧
      m.Common i j (k + n + l) ∧
      ¬ (i > r.alo ∧ j > r.blo ∧ m.b[j - 1]? = m.a[i - 1]?) ∧
      ¬ (i + (k + n + l) < r.ahi ∧ j + (k + n + l) < r.bhi ∧
        m.b[j + (k + n + l)]? = m.a[i + (k + n + l)]?) := by
  have hcore := m.scanRows_isLongest r
  cases hbest : (m.scanRows r).best with
  | mk i j k =>
  rw [hbest] at hcore
  have hcommon : m.Common i j k := by
    intro d hd
    obtain ⟨x, hxa, hxb, -⟩ := hcore.run d hd
    exact ⟨x, hxa, hxb, trivial⟩
  have hwithin : Within r i j k := hcore.within
  obtain ⟨n, hi, hj, hleft, hin, hrun, hstop⟩ := extendLeft_spec hwithin hcommon
  obtain ⟨l, hright, hin', hrun', hstop'⟩ :=
    extendRight_spec (n := r.ahi - (i - n + (k + n))) hin hrun (by omega)
  refine ⟨i - n, j - n, k, n, l, ?_, ?_, hin', hrun', hstop, hstop'⟩
  · rwa [Nat.sub_add_cancel hi, Nat.sub_add_cancel hj]
  · rw [findLongestMatch, hbest, hleft]
    exact hright

variable (m r) in
/-- Where no element is passed over, `find_longest_match` answers a longest run, and of several the
one that begins first. -/
theorem findLongestMatch_isLongest (hjunk : m.autojunk = false) :
    IsLongest (fun _ => True) r (m.findLongestMatch r) := by
  have hpop : (fun x => m.isPopular x = false) = fun _ => True := by
    funext x
    simp [isPopular, hjunk]
  obtain ⟨i, j, k, n, l, hcore, heq, hin, hrun, -⟩ := m.findLongestMatch_spec r
  rw [hpop] at hcore
  -- a block that could be extended would not be the longest
  have hle : k + n + l ≤ k := hcore.size _ _ _ hin hrun
  obtain ⟨rfl, rfl⟩ : n = 0 ∧ l = 0 := by omega
  exact heq ▸ hcore

variable (m) in
/-- The region with which `get_matching_blocks` begins. -/
def whole : m.Region :=
  ⟨0, m.a.length, 0, m.b.length, Nat.zero_le _, Nat.le_refl _, Nat.zero_le _, Nat.le_refl _⟩

/-- Of two equal sequences everything is found, also where elements are passed over. -/
theorem findLongestMatch_of_eq (hab : m.a = m.b) :
    m.findLongestMatch m.whole = ⟨0, 0, m.a.length⟩ := by
  obtain ⟨i, j, k, n, l, hcore, heq, hin, -, hleft, hright⟩ := m.findLongestMatch_spec m.whole
  obtain ⟨-, hahi, -, hbhi⟩ := hin
  simp only [whole] at hleft hright hahi hbhi
  have hlen : m.a.length = m.b.length := congrArg List.length hab
  have hij : i = j := by
    by_cases hk : k = 0
    · obtain ⟨hi, hj⟩ : i + n = 0 ∧ j + n = 0 := hcore.empty hk
      omega
    · -- what is found off the diagonal is on the diagonal as well
      have hdiag (s : ℕ) (hs : s = i + n ∨ s = j + n) :
          m.Run (fun x => m.isPopular x = false) s s k := by
        intro d hd
        obtain ⟨x, hxa, hxb, hx⟩ := hcore.run d hd
        rcases hs with rfl | rfl
        · exact ⟨x, hxa, hab ▸ hxa, hx⟩
        · exact ⟨x, hab ▸ hxb, hxb, hx⟩
      have hfirst (s : ℕ) (hs : s = i + n ∨ s = j + n) : i + n < s ∨ i + n = s ∧ j + n ≤ s := by
        have ha : i + n + k ≤ m.a.length := hcore.within.ahi
        have hb : j + n + k ≤ m.b.length := hcore.within.bhi
        refine hcore.first s s (Nat.pos_of_ne_zero hk) ⟨Nat.zero_le _, ?_, Nat.zero_le _, ?_⟩
          (hdiag s hs)
        · show s + k ≤ m.a.length
          omega
        · show s + k ≤ m.b.length
          omega
      have := hfirst (i + n) (Or.inl rfl)
      have := hfirst (j + n) (Or.inr rfl)
      omega
  subst hij
  have hi : i = 0 := by
    by_contra hi
    exact hleft ⟨by omega, by omega, by rw [hab]⟩
  subst hi
  have hfull : k + n + l = m.a.length := by
    by_contra hfull
    exact hright ⟨by omega, by omega, by rw [hab]⟩
  rw [heq, hfull]

end

end SequenceMatcher

end SyscallMonitor.Lib
