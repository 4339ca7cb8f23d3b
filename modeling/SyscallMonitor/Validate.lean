import SyscallMonitor.Lib.UnifiedDiff
import SyscallMonitor.Log.Event
import SyscallMonitor.Strace

/-!
# Cross-checking a capture

`validate_strace.py`: the names in the log of the monitor are compared with those in the console log
of the guest. `parseVmiJsonl_logText` reads back what the monitor has written;
`compare_longest_spec` and `compare_verdict` say what the printed figures mean.
-/

namespace SyscallMonitor

open Lib Json SequenceMatcher

/-! ### `parse_vmi_jsonl` -/

/-- What `json.loads(line)["syscall"]` can raise. -/
inductive VmiJsonlError where
  | jsonDecodeError
  | typeError
  | keyError
  deriving DecidableEq

/-- `json.loads(line)["syscall"]` -/
def vmiSyscallName (line : List Char) : Except VmiJsonlError Json :=
  match parse line with
  | none => .error .jsonDecodeError
  | some (.obj members) =>
    match get? members "syscall".toList with
    | none => .error .keyError
    | some name => .ok name
  | some _ => .error .typeError

/-- The loop of `parse_vmi_jsonl`. -/
def vmiNames : List (List Char) → Except VmiJsonlError (List Json)
  | [] => .ok []
  | line :: lines =>
    if strip line = [] then vmiNames lines
    else do
      let name ← vmiSyscallName (strip line)
      let names ← vmiNames lines
      return name :: names

/-- `parse_vmi_jsonl` on what the file holds once it is decoded. -/
def parseVmiJsonl (text : List Char) : Except VmiJsonlError (List Json) := vmiNames (fileLines text)

/-- What the monitor writes: the file is opened for appending, and every line is flushed. -/
def logText (h : Hooks) (strerrornameNp : ℤ → Option (List Char)) (lines : List LogLine) :
    List Char :=
  lines.flatMap (vmiWriteEvent h strerrornameNp)

lemma unbroken_render (j : Json) : Unbroken (render j) := by
  refine ⟨newline_not_mem_render j, fun hmem => ?_⟩
  exact absurd (printable_render j _ hmem) (by decide)

/-- The newline at the end of a line is stripped. -/
lemma strip_concat_newline (s : List Char) (c d : Char) (hc : isspace c = false)
    (hd : isspace d = false) : strip (c :: s ++ [d] ++ ['\n']) = c :: s ++ [d] := by
  rw [strip, List.cons_append, List.cons_append, List.dropWhile_cons_of_neg (by simp [hc]),
    ← List.cons_append, ← List.cons_append, List.rdropWhile_concat_pos _ _ _ (by decide),
    List.rdropWhile_concat_neg _ _ _ (by simp [hd])]

/-- The text of an object begins and ends with a brace. -/
lemma render_obj (ms : List (List Char × Json)) :
    ∃ s, render (.obj ms) = '\x7b' :: s ++ ['\x7d'] := by
  rcases ms with _ | ⟨⟨k, v⟩, ms⟩
  · exact ⟨[], rfl⟩
  · exact ⟨quote k ++ ": ".toList ++ render v ++ renderMembers ms, by simp [render]⟩

lemma fileLines_append_newline {body : List Char} (hbody : Unbroken body) (s : List Char) :
    fileLines (body ++ '\n' :: s) = (body ++ ['\n']) :: fileLines s := by
  rw [fileLines_eq_readline _ (by simp), readline_append hbody]
  simp [readline]

/-- A log of objects that have a name is read as their names. -/
lemma parseVmiJsonl_objects {ι : Type*} {members : ι → List (List Char × Json)} {name : ι → Json}
    {l : List ι} (hname : ∀ x ∈ l, get? (members x) "syscall".toList = some (name x)) :
    parseVmiJsonl (l.flatMap fun x => render (.obj (members x)) ++ ['\n']) = .ok (l.map name) := by
  induction l with
  | nil => rfl
  | cons x l ih =>
    obtain ⟨hx, hl⟩ := List.forall_mem_cons.mp hname
    obtain ⟨s, hs⟩ := render_obj (members x)
    have hstrip : strip (render (.obj (members x)) ++ ['\n']) = render (.obj (members x)) := by
      rw [hs]
      exact strip_concat_newline s _ _ rfl rfl
    have hread : vmiSyscallName (render (.obj (members x))) = .ok (name x) := by
      simp only [vmiSyscallName, parse_render_self, hx]
    have hrest := ih hl
    rw [parseVmiJsonl] at hrest ⊢
    rw [List.flatMap_cons, List.append_assoc, List.singleton_append,
      fileLines_append_newline (unbroken_render _), vmiNames, hstrip, if_neg (by simp [hs]), hread,
      hrest]
    rfl

/-- **Reading back the log.** What `parse_vmi_jsonl` reads from a log of the monitor are the names
of its lines, in order. -/
theorem parseVmiJsonl_logText (h : Hooks) {strerrornameNp : ℤ → Option (List Char)}
    (hnames : PlainNames strerrornameNp) {lines : List LogLine} (hl : ∀ l ∈ lines, l.tv.Valid) :
    parseVmiJsonl (logText h strerrornameNp lines)
      = .ok (lines.map fun l => .str (syscallName l.num)) := by
  have htext : logText h strerrornameNp lines
      = lines.flatMap fun l => render (.obj (l.members h strerrornameNp)) ++ ['\n'] :=
    List.flatMap_congr fun l hmem => vmiWriteEvent_eq h hnames (hl l hmem)
  rw [htext]
  refine parseVmiJsonl_objects fun l _ => ?_
  rw [get?_members h strerrornameNp l (by decide)]
  rfl

/-! ### The comparison -/

/-- `l[i:i + k]` -/
def slice {α : Type*} (l : List α) (i k : ℕ) : List α := (l.drop i).take k

/-- What `main` prints of `longest`: the run itself, and which part of the capture it is. -/
structure LongestRun where
  block : Match
  names : List (List Char)
  coverage : ℚ

/-- What `main` prints. -/
structure Report where
  ratio : ℚ
  longest : Option LongestRun
  diffLines : List (List Char)
  onlyInStrace : Finset (List Char)
  onlyInVmi : Finset (List Char)

/-- The part of `main` that compares `strace_seq` with `vmi_seq`. -/
def compare (straceSeq vmiSeq : List (List Char)) : Report :=
  let sm : SequenceMatcher (List Char) := ⟨straceSeq, vmiSeq, false⟩
  let matchingBlocks := sm.getMatchingBlocks.filter fun b => 0 < b.size
  { ratio := sm.ratio
    longest := (maxBySize matchingBlocks).map fun longest =>
      { block := longest
        names := slice straceSeq longest.a longest.size
        coverage := if vmiSeq ≠ [] then longest.size / vmiSeq.length else 0 }
    diffLines := unifiedDiff straceSeq vmiSeq "strace".toList "vmi".toList
    onlyInStrace := straceSeq.toFinset \ vmiSeq.toFinset
    onlyInVmi := vmiSeq.toFinset \ straceSeq.toFinset }

/-! ### What the figures mean -/

section

variable {α : Type*} {a b : List α}

lemma slice_eq_of_common {i j k : ℕ} (h : (SequenceMatcher.mk a b false).Common i j k) :
    slice a i k = slice b j k := by
  apply List.ext_getElem?
  intro d
  rw [slice, slice, List.getElem?_take, List.getElem?_take]
  split_ifs with hd
  · obtain ⟨x, hxa, hxb, -⟩ := h d hd
    rw [List.getElem?_drop, List.getElem?_drop, hxa, hxb]
  · rfl

lemma length_slice {l : List α} {i k : ℕ} (h : i + k ≤ l.length) : (slice l i k).length = k := by
  rw [slice, List.length_take, List.length_drop]
  omega

/-- A part of a sequence, element by element. -/
lemma getElem?_of_append {l s t : List α} {d : ℕ} (hd : d < l.length) :
    (s ++ l ++ t)[s.length + d]? = some l[d] := by
  rw [List.append_assoc, List.getElem?_append_right (by omega), Nat.add_sub_cancel_left,
    List.getElem?_append_left hd, List.getElem?_eq_getElem hd]

/-- A slice of the one sequence that stands in the other is a common block. -/
lemma common_of_slice_infix {i k : ℕ} (hi : i + k ≤ a.length) (h : slice a i k <:+: b) :
    ∃ j, (SequenceMatcher.mk a b false).Common i j k ∧ j + k ≤ b.length := by
  have hlen := length_slice hi
  obtain ⟨s, t, rfl⟩ := h
  refine ⟨s.length, fun d hd => ?_, by simp [hlen]⟩
  have hd' : d < (slice a i k).length := by omega
  refine ⟨(slice a i k)[d], ?_, getElem?_of_append hd', trivial⟩
  rw [← List.getElem?_eq_getElem hd', slice, List.getElem?_take, if_pos hd, List.getElem?_drop]

lemma slice_infix (l : List α) (i k : ℕ) : slice l i k <:+: l :=
  (List.take_prefix _ _).isInfix.trans (List.drop_suffix _ _).isInfix

end

section

variable (straceSeq vmiSeq : List (List Char))

/-- The matcher of `main`. -/
abbrev matcher : SequenceMatcher (List Char) := ⟨straceSeq, vmiSeq, false⟩

lemma compare_diffLines : (compare straceSeq vmiSeq).diffLines
    = unifiedDiff straceSeq vmiSeq "strace".toList "vmi".toList := by
  simp only [compare]

lemma compare_ratio : (compare straceSeq vmiSeq).ratio = (matcher straceSeq vmiSeq).ratio := by
  simp only [compare]

lemma compare_longest :
    (compare straceSeq vmiSeq).longest =
      (if ((matcher straceSeq vmiSeq).findLongestMatch (whole _)).size = 0 then none
        else some ((matcher straceSeq vmiSeq).findLongestMatch (whole _))).map fun x =>
          ⟨x, slice straceSeq x.a x.size, if vmiSeq ≠ [] then x.size / vmiSeq.length else 0⟩ := by
  simp only [compare, (matcher straceSeq vmiSeq).maxBySize_getMatchingBlocks rfl]

variable {straceSeq vmiSeq}

lemma compare_longest_eq_none_iff :
    (compare straceSeq vmiSeq).longest = none ↔
      ((matcher straceSeq vmiSeq).findLongestMatch (whole _)).size = 0 := by
  rw [compare_longest, Option.map_eq_none_iff]
  split_ifs with hzero <;> simp [hzero]

/-- The run that is printed. -/
lemma of_mem_compare_longest {run : LongestRun} (hrun : run ∈ (compare straceSeq vmiSeq).longest) :
    run.block = (matcher straceSeq vmiSeq).findLongestMatch (whole _) ∧ run.block.size ≠ 0 ∧
      run.names = slice straceSeq run.block.a run.block.size ∧
      run.coverage = if vmiSeq ≠ [] then (run.block.size : ℚ) / vmiSeq.length else 0 := by
  rw [compare_longest] at hrun
  obtain ⟨x, hx, rfl⟩ := Option.map_eq_some_iff.mp hrun
  obtain ⟨hzero, hx⟩ := Option.ite_none_left_eq_some.mp hx
  obtain rfl := Option.some.inj hx
  exact ⟨rfl, hzero, rfl, rfl⟩

/-- A slice of the ground truth that stands in the capture is no longer than the block that is
found. -/
lemma length_le_of_slice {i k : ℕ} (hi : i + k ≤ straceSeq.length)
    (h : slice straceSeq i k <:+: vmiSeq) :
    k ≤ ((matcher straceSeq vmiSeq).findLongestMatch (whole _)).size := by
  obtain ⟨j, hcommon, hj⟩ := common_of_slice_infix hi h
  exact ((matcher straceSeq vmiSeq).findLongestMatch_isLongest (whole _) rfl).size i j k
    ⟨Nat.zero_le _, hi, Nat.zero_le _, hj⟩ hcommon

/-- What stands in a sequence is a slice of it. -/
lemma exists_slice_of_infix {l a : List (List Char)} (h : l <:+: a) :
    ∃ i, i + l.length ≤ a.length ∧ slice a i l.length = l := by
  obtain ⟨s, t, rfl⟩ := h
  exact ⟨s.length, by simp, by simp [slice]⟩

/-- A run that the two sequences have in common is no longer than the block that is found. -/
lemma length_le_of_infix {l : List (List Char)} (hs : l <:+: straceSeq) (hv : l <:+: vmiSeq) :
    l.length ≤ ((matcher straceSeq vmiSeq).findLongestMatch (whole _)).size := by
  obtain ⟨i, hi, heq⟩ := exists_slice_of_infix hs
  exact length_le_of_slice hi (by rwa [heq])

variable (straceSeq vmiSeq)

/-- **The longest run.** It is printed unless the sequences have no name in common. It stands in
both sequences where `main` says, no common run is longer, and none of its length begins earlier in
the ground truth. -/
theorem compare_longest_spec :
    ((compare straceSeq vmiSeq).longest = none ↔ ∀ name ∈ straceSeq, name ∉ vmiSeq) ∧
      ∀ run ∈ (compare straceSeq vmiSeq).longest,
        run.names = slice straceSeq run.block.a run.block.size ∧
        run.names = slice vmiSeq run.block.b run.block.size ∧
        run.names.length = run.block.size ∧
        (∀ l, l <:+: straceSeq → l <:+: vmiSeq → l.length ≤ run.block.size) ∧
        ∀ i, i + run.block.size ≤ straceSeq.length → slice straceSeq i run.block.size <:+: vmiSeq →
          run.block.a ≤ i := by
  have hmax := (matcher straceSeq vmiSeq).findLongestMatch_isLongest (whole _) rfl
  constructor
  · rw [compare_longest_eq_none_iff]
    constructor
    · intro hzero name hs hv
      have hone (l : List (List Char)) (hl : name ∈ l) : [name] <:+: l := by
        obtain ⟨front, back, rfl⟩ := List.append_of_mem hl
        exact ⟨front, back, by simp⟩
      have := length_le_of_infix (hone _ hs) (hone _ hv)
      rw [hzero, List.length_singleton] at this
      omega
    · intro hdisjoint
      by_contra hzero
      obtain ⟨name, hs, hv, -⟩ := hmax.run 0 (Nat.pos_of_ne_zero hzero)
      exact hdisjoint name (List.mem_of_getElem? hs) (List.mem_of_getElem? hv)
  · intro run hrun
    obtain ⟨hblock, hpos, hrunNames, -⟩ := of_mem_compare_longest hrun
    have hlen := length_slice hmax.within.ahi
    have hslices := slice_eq_of_common hmax.run
    have hwithin : ∀ l, l <:+: straceSeq → l <:+: vmiSeq →
        l.length ≤ ((matcher straceSeq vmiSeq).findLongestMatch (whole _)).size :=
      fun l => length_le_of_infix
    rw [← hblock] at hmax hlen hslices hwithin
    refine ⟨hrunNames, hrunNames.trans hslices, ?_, hwithin, fun i hi hslice => ?_⟩
    · rw [hrunNames]
      exact hlen
    obtain ⟨j, hcommon, hj⟩ := common_of_slice_infix hi hslice
    rcases hmax.first i j (Nat.pos_of_ne_zero hpos) ⟨Nat.zero_le _, hi, Nat.zero_le _, hj⟩ hcommon
      with hlt | ⟨heq, -⟩
    · exact Nat.le_of_lt hlt
    · exact Nat.le_of_eq heq

variable {straceSeq vmiSeq}

/-- A part of the capture is all of it exactly when it is as long. -/
lemma coverage_eq_one_iff :
    (∃ run ∈ (compare straceSeq vmiSeq).longest, run.coverage = 1) ↔
      vmiSeq ≠ [] ∧ vmiSeq <:+: straceSeq := by
  have hmax := (matcher straceSeq vmiSeq).findLongestMatch_isLongest (whole _) rfl
  have hb := hmax.within.bhi
  constructor
  · rintro ⟨run, hrun, hone⟩
    obtain ⟨hblock, -, hnames, hcoverage⟩ := of_mem_compare_longest hrun
    have hslices := slice_eq_of_common hmax.run
    rw [← hblock] at hslices hb
    simp only [whole] at hb
    rw [hcoverage] at hone
    split_ifs at hone with hne
    · have hsize : run.block.size = vmiSeq.length := by
        rw [div_eq_one_iff_eq (by simpa using hne)] at hone
        exact_mod_cast hone
      obtain ⟨hzero, hfull⟩ : run.block.b = 0 ∧ run.block.size = vmiSeq.length := by omega
      rw [hzero, hfull] at hslices
      have hvmi : slice vmiSeq 0 vmiSeq.length = vmiSeq := by simp [slice]
      rw [hvmi] at hslices
      exact ⟨hne, hslices ▸ slice_infix straceSeq _ _⟩
    · simp at hone
  · rintro ⟨hne, hpart⟩
    have hle := length_le_of_infix hpart (List.infix_refl vmiSeq)
    have hpos : 0 < vmiSeq.length := List.length_pos_iff.mpr hne
    cases hrun : (compare straceSeq vmiSeq).longest with
    | none =>
      rw [compare_longest_eq_none_iff] at hrun
      omega
    | some run =>
      obtain ⟨hblock, -, -, hcoverage⟩ := of_mem_compare_longest hrun
      rw [← hblock] at hle hb
      simp only [whole] at hb
      have hsize : run.block.size = vmiSeq.length := by omega
      refine ⟨run, rfl, ?_⟩
      rw [hcoverage, if_pos hne, hsize]
      exact div_self (by simpa using hne)

lemma onlyInVmi_eq_empty (hpart : vmiSeq <:+: straceSeq) :
    (compare straceSeq vmiSeq).onlyInVmi = ∅ := by
  apply Finset.sdiff_eq_empty_iff_subset.mpr
  intro name hname
  simpa using hpart.subset (List.mem_toFinset.mp hname)

variable (straceSeq vmiSeq)

/-- **The verdict.** All events of a capture are reported to be part of one contiguous match exactly
when the capture stands in the ground truth as it is; then no name is seen only in the capture. The
ratio is 1 exactly when the diff is empty, and that is to say that the sequences are equal. -/
theorem compare_verdict :
    ((∃ run ∈ (compare straceSeq vmiSeq).longest, run.coverage = 1) ↔
      vmiSeq ≠ [] ∧ vmiSeq <:+: straceSeq) ∧
    (vmiSeq <:+: straceSeq → (compare straceSeq vmiSeq).onlyInVmi = ∅) ∧
    ((compare straceSeq vmiSeq).ratio = 1 ↔ (compare straceSeq vmiSeq).diffLines = []) ∧
    ((compare straceSeq vmiSeq).diffLines = [] ↔ straceSeq = vmiSeq) := by
  have hdiff : (compare straceSeq vmiSeq).diffLines = [] ↔ straceSeq = vmiSeq := by
    rw [compare_diffLines, unifiedDiff_eq_nil_iff]
  have hratio : (compare straceSeq vmiSeq).ratio = 1 ↔ straceSeq = vmiSeq := by
    rw [compare_ratio, ratio_eq_one_iff]
  exact ⟨coverage_eq_one_iff, onlyInVmi_eq_empty, hratio.trans hdiff.symm, hdiff⟩

end

end SyscallMonitor
