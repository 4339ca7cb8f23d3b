import SyscallMonitor.Lib.Digits
import SyscallMonitor.Lib.MatchingBlocks

/-!
# Unified diffs

`get_opcodes`, `get_grouped_opcodes` and `unified_diff` of `difflib`. A diff is empty exactly when
the sequences are equal, although it is made with the `autojunk` heuristic.
-/

namespace SyscallMonitor.Lib

universe u

variable {α : Type u}

/-- The tags of `get_opcodes`. -/
inductive Tag where
  | replace
  | delete
  | insert
  | equal
  deriving DecidableEq

/-- `(tag, i1, i2, j1, j2)` -/
structure Opcode where
  tag : Tag
  i1 : ℕ
  i2 : ℕ
  j1 : ℕ
  j2 : ℕ
  deriving DecidableEq

namespace Opcode

/-- What `get_opcodes` says of the gap between `(i, j)` and the next block. -/
def gap (i j : ℕ) (x : Match) : List Opcode :=
  if i < x.a ∧ j < x.b then [⟨.replace, i, x.a, j, x.b⟩]
  else if i < x.a then [⟨.delete, i, x.a, j, x.b⟩]
  else if j < x.b then [⟨.insert, i, x.a, j, x.b⟩]
  else []

/-- What `get_opcodes` says of a block; the sentinel has size `0`. -/
def same (x : Match) : List Opcode :=
  if x.size ≠ 0 then [⟨.equal, x.a, x.a + x.size, x.b, x.b + x.size⟩] else []

/-- The loop of `get_opcodes`. -/
def ofBlocks (i j : ℕ) : List Match → List Opcode
  | [] => []
  | x :: blocks => gap i j x ++ same x ++ ofBlocks (x.a + x.size) (x.b + x.size) blocks

/-- `codes[0]`, with at most `n` elements of context. -/
def trimStart (n : ℕ) (c : Opcode) : Opcode :=
  if c.tag = .equal then { c with i1 := max c.i1 (c.i2 - n), j1 := max c.j1 (c.j2 - n) } else c

/-- `codes[-1]`, with at most `n` elements of context. -/
def trimEnd (n : ℕ) (c : Opcode) : Opcode :=
  if c.tag = .equal then { c with i2 := min c.i2 (c.i1 + n), j2 := min c.j2 (c.j1 + n) } else c

/-- The assignment to `codes[-1]`. -/
def trimLast (n : ℕ) : List Opcode → List Opcode
  | [] => []
  | [c] => [c.trimEnd n]
  | c :: codes => c :: trimLast n codes

@[simp] lemma length_trimLast (n : ℕ) (codes : List Opcode) :
    (trimLast n codes).length = codes.length := by
  induction codes with
  | nil => rfl
  | cons c codes ih =>
    cases codes with
    | nil => rfl
    | cons d codes => simp [trimLast, ih]

/-- The body of the loop of `get_grouped_opcodes`: what has been yielded, and `group`. -/
def groupStep (n : ℕ) (st : List (List Opcode) × List Opcode) (c : Opcode) :
    List (List Opcode) × List Opcode :=
  if c.tag = .equal ∧ c.i2 - c.i1 > n + n then
    (st.1 ++ [st.2 ++ [c.trimEnd n]], [c.trimStart n])
  else (st.1, st.2 ++ [c])

/-- `get_grouped_opcodes(n)` -/
def grouped (n : ℕ) (codes : List Opcode) : List (List Opcode) :=
  let codes := if codes = [] then [⟨.equal, 0, 1, 0, 1⟩] else codes
  let codes := codes.modifyHead (trimStart n)
  let codes := trimLast n codes
  let (yielded, group) := codes.foldl (groupStep n) ([], [])
  if group ≠ [] ∧ ¬ (group.length = 1 ∧ ∃ c ∈ group.head?, c.tag = .equal) then yielded ++ [group]
  else yielded

end Opcode

/-- `_format_range_unified` -/
def formatRangeUnified (start stop : ℕ) : List Char :=
  if stop - start = 1 then decimal (start + 1)
  else if stop - start = 0 then decimal start ++ ",".toList ++ decimal (stop - start)
  else decimal (start + 1) ++ ",".toList ++ decimal (stop - start)

/-- The lines of an opcode in a hunk. -/
def opcodeLines (a b : List (List Char)) (c : Opcode) : List (List Char) :=
  if c.tag = .equal then ((a.take c.i2).drop c.i1).map fun line => ' ' :: line
  else
    (if c.tag = .replace ∨ c.tag = .delete then
      ((a.take c.i2).drop c.i1).map fun line => '-' :: line else []) ++
    (if c.tag = .replace ∨ c.tag = .insert then
      ((b.take c.j2).drop c.j1).map fun line => '+' :: line else [])

/-- The lines of a hunk. -/
def hunkLines (a b : List (List Char)) (group : List Opcode) : List (List Char) :=
  match group.head?, group.getLast? with
  | some first, some last =>
    ("@@ -".toList ++ formatRangeUnified first.i1 last.i2 ++ " +".toList ++
      formatRangeUnified first.j1 last.j2 ++ " @@".toList) :: group.flatMap (opcodeLines a b)
  | _, _ => []

/-- `unified_diff(a, b, fromfile, tofile, lineterm="")` -/
def unifiedDiff (a b : List (List Char)) (fromfile tofile : List Char) : List (List Char) :=
  match Opcode.grouped 3 (Opcode.ofBlocks 0 0 (SequenceMatcher.mk a b true).getMatchingBlocks) with
  | [] => []
  | groups =>
    ("--- ".toList ++ fromfile) :: ("+++ ".toList ++ tofile) :: groups.flatMap (hunkLines a b)

/-! ### When a diff is empty -/

namespace Opcode

/-- Whatever is yielded stays yielded. -/
lemma foldl_groupStep_ne_nil {n : ℕ} (codes : List Opcode) {st : List (List Opcode) × List Opcode}
    (hst : st.1 ≠ []) : (codes.foldl (groupStep n) st).1 ≠ [] := by
  induction codes generalizing st with
  | nil => exact hst
  | cons c codes ih =>
    apply ih
    rw [groupStep]
    split_ifs
    · simp
    · exact hst

/-- As long as nothing is yielded, the group takes in all opcodes. -/
lemma foldl_groupStep_of_nil {n : ℕ} {codes group : List Opcode}
    (hnil : (codes.foldl (groupStep n) ([], group)).1 = []) :
    codes.foldl (groupStep n) ([], group) = ([], group ++ codes) := by
  induction codes generalizing group with
  | nil => simp
  | cons c codes ih =>
    rw [List.foldl_cons, groupStep] at hnil ⊢
    split_ifs at hnil ⊢ with hc
    · exact absurd hnil (foldl_groupStep_ne_nil codes (by simp))
    · rw [ih hnil, List.append_assoc, List.singleton_append]

/-- The opcodes that are grouped. -/
def trimmed (n : ℕ) (codes : List Opcode) : List Opcode :=
  trimLast n ((if codes = [] then [⟨.equal, 0, 1, 0, 1⟩] else codes).modifyHead (trimStart n))

lemma grouped_eq (n : ℕ) (codes : List Opcode) :
    grouped n codes =
      let st := (trimmed n codes).foldl (groupStep n) ([], [])
      if st.2 ≠ [] ∧ ¬ (st.2.length = 1 ∧ ∃ c ∈ st.2.head?, c.tag = .equal) then st.1 ++ [st.2]
      else st.1 := rfl

/-- Nothing is yielded only if there is a single opcode, for elements that are equal. -/
lemma trimmed_of_grouped_eq_nil {n : ℕ} {codes : List Opcode} (hnil : grouped n codes = []) :
    ∀ c ∈ trimmed n codes, trimmed n codes = [c] ∧ c.tag = .equal := by
  rw [grouped_eq] at hnil
  dsimp only at hnil
  split_ifs at hnil with hlast
  · simp at hnil
  · rw [foldl_groupStep_of_nil hnil, List.nil_append, not_and_not_right] at hlast
    dsimp only at hlast
    intro c hc
    obtain ⟨hone, d, hd, heq⟩ := hlast (List.ne_nil_of_mem hc)
    obtain ⟨e, he⟩ := List.length_eq_one_iff.mp hone
    rw [he] at hc hd ⊢
    obtain rfl := List.mem_singleton.mp hc
    obtain rfl := Option.some.inj hd
    exact ⟨rfl, heq⟩

lemma trimStart_tag (n : ℕ) (c : Opcode) : (c.trimStart n).tag = c.tag := by
  rw [trimStart]
  split_ifs <;> rfl

lemma trimEnd_tag (n : ℕ) (c : Opcode) : (c.trimEnd n).tag = c.tag := by
  rw [trimEnd]
  split_ifs <;> rfl

/-- Without a hunk, all opcodes are for elements that are equal. -/
lemma equal_of_grouped_eq_nil {n : ℕ} {codes : List Opcode} (hnil : grouped n codes = []) :
    ∀ c ∈ codes, c.tag = .equal := by
  have htrim := trimmed_of_grouped_eq_nil hnil
  match codes with
  | [] => simp
  | [c] =>
    obtain ⟨-, htag⟩ := htrim ((c.trimStart n).trimEnd n) (by simp [trimmed, trimLast])
    rw [trimEnd_tag, trimStart_tag] at htag
    simpa using htag
  | c :: d :: codes =>
    have hlen : 2 ≤ (trimmed n (c :: d :: codes)).length := by simp [trimmed]
    obtain ⟨e, he⟩ := List.exists_mem_of_length_pos (Nat.lt_of_lt_of_le Nat.zero_lt_two hlen)
    rw [(htrim e he).1, List.length_singleton] at hlen
    omega

/-- A single opcode for equal elements makes no hunk. -/
lemma grouped_equal (n : ℕ) (i1 i2 j1 j2 : ℕ) : grouped n [⟨.equal, i1, i2, j1, j2⟩] = [] := by
  have hshort : ¬ min i2 (max i1 (i2 - n) + n) - max i1 (i2 - n) > n + n := by omega
  simp [grouped, trimStart, trimLast, trimEnd, groupStep, hshort]

lemma gap_eq_nil_of_equal {i j : ℕ} {x : Match} (h : ∀ c ∈ gap i j x, c.tag = .equal) :
    x.a ≤ i ∧ x.b ≤ j := by
  rw [gap] at h
  split_ifs at h <;> simp at h
  omega

end Opcode

namespace SequenceMatcher

variable {m : SequenceMatcher α}

/-- Where all opcodes are for equal elements, the sequences are equal. -/
lemma eq_of_ofBlocks {l : List Match} (hl : ∀ x ∈ l, 0 < x.size ∧ m.Common x.a x.b x.size)
    (hpair : l.Pairwise Apart)
    (hequal : ∀ c ∈ Opcode.ofBlocks 0 0 (l ++ [⟨m.a.length, m.b.length, 0⟩]), c.tag = .equal) :
    m.a = m.b := by
  match l with
  | [] =>
    simp only [List.nil_append, Opcode.ofBlocks, List.forall_mem_append] at hequal
    obtain ⟨ha, hb⟩ := Opcode.gap_eq_nil_of_equal hequal.1.1
    simp only [Nat.le_zero, List.length_eq_zero_iff] at ha hb
    rw [ha, hb]
  | [x] =>
    simp only [List.cons_append, List.nil_append, Opcode.ofBlocks, List.forall_mem_append] at hequal
    obtain ⟨hxa, hxb⟩ := Opcode.gap_eq_nil_of_equal hequal.1.1
    obtain ⟨ha, hb⟩ := Opcode.gap_eq_nil_of_equal hequal.2.1.1
    obtain ⟨hpos, hcommon⟩ := hl x List.mem_cons_self
    have hwithin := Common.within hcommon hpos
    obtain ⟨hxa, hxb⟩ : x.a = 0 ∧ x.b = 0 := by omega
    simp only at ha hb
    rw [hxa, hxb] at hcommon
    exact eq_of_common hcommon (by omega) (by omega)
  | x :: y :: l =>
    simp only [List.cons_append, Opcode.ofBlocks, List.forall_mem_append] at hequal
    obtain ⟨ha, hb⟩ := Opcode.gap_eq_nil_of_equal hequal.2.1.1
    have hgap := ((List.pairwise_cons.mp hpair).1 y List.mem_cons_self).gap
    omega

/-- The blocks of two equal sequences that are not empty. -/
lemma getMatchingBlocks_of_eq [DecidableEq α] (hab : m.a = m.b) (hne : m.a ≠ []) :
    m.getMatchingBlocks
      = [⟨0, 0, m.a.length⟩, ⟨m.a.length, m.b.length, 0⟩] := by
  obtain ⟨l, hblocks, hl, hpair, hlongest⟩ := m.getMatchingBlocks_spec
  rw [findLongestMatch_of_eq hab] at hlongest
  obtain ⟨y, hy, d, hya, hyb, hsize⟩ := hlongest (by simpa using hne)
  have hwithin : ∀ x ∈ l, 0 < x.size ∧ x.a + x.size ≤ m.a.length :=
    fun x hx => ⟨(hl x hx).1, (Common.within (hl x hx).2 (hl x hx).1).1⟩
  have hyin := hwithin y hy
  simp only at hya hyb hsize
  obtain rfl : y = ⟨0, 0, m.a.length⟩ := by
    obtain ⟨a, b, size⟩ := y
    simp only [Match.mk.injEq] at hya hyb hsize hyin ⊢
    omega
  -- there is no room for another block
  obtain ⟨front, back, rfl⟩ := List.append_of_mem hy
  rw [List.pairwise_append, List.pairwise_cons] at hpair
  obtain ⟨-, ⟨hback, -⟩, hfront⟩ := hpair
  have hfront : front = [] := by
    apply List.eq_nil_iff_forall_not_mem.mpr
    intro x hx
    have hxa := (hfront x hx _ List.mem_cons_self).a
    have hpos := (hwithin x (by simp [hx])).1
    simp only at hxa
    omega
  have hback : back = [] := by
    apply List.eq_nil_iff_forall_not_mem.mpr
    intro x hx
    have hxa := (hback x hx).a
    have hxin := hwithin x (by simp [hx])
    simp only at hxa
    omega
  rw [hblocks, hfront, hback]
  rfl

end SequenceMatcher

/-- **Empty diffs.** `unified_diff` has nothing to say exactly when the sequences are equal. -/
theorem unifiedDiff_eq_nil_iff (a b : List (List Char)) (fromfile tofile : List Char) :
    unifiedDiff a b fromfile tofile = [] ↔ a = b := by
  have hnil : unifiedDiff a b fromfile tofile = [] ↔
      Opcode.grouped 3
        (Opcode.ofBlocks 0 0 (SequenceMatcher.mk a b true).getMatchingBlocks) = [] := by
    rw [unifiedDiff]
    split <;> simp_all
  rw [hnil]
  constructor
  · intro hgrouped
    obtain ⟨l, hblocks, hl, hpair, -⟩ := (SequenceMatcher.mk a b true).getMatchingBlocks_spec
    rw [hblocks] at hgrouped
    exact SequenceMatcher.eq_of_ofBlocks hl hpair (Opcode.equal_of_grouped_eq_nil hgrouped)
  · rintro rfl
    by_cases hne : a = []
    · rw [hne]
      decide
    · rw [SequenceMatcher.getMatchingBlocks_of_eq rfl hne]
      simp [Opcode.ofBlocks, Opcode.gap, Opcode.same, hne, Opcode.grouped_equal]

end SyscallMonitor.Lib
