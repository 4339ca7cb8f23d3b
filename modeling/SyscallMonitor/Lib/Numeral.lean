import SyscallMonitor.Lib.Digits
import SyscallMonitor.Lib.Text
import Mathlib.Data.Int.ModEq

/-!
# Numerals across languages

How C's `strtoull` and Python's `int` read a number in a given base, and that both read back what
`hex` writes.
-/

namespace SyscallMonitor.Lib

/-! ### Digits in a base -/

/-- The value of a digit; letters of either case count on from ten. -/
def digitVal (c : Char) : Option ℕ :=
  if 48 ≤ c.toNat ∧ c.toNat ≤ 57 then some (c.toNat - 48)
  else if 97 ≤ c.toNat ∧ c.toNat ≤ 122 then some (c.toNat - 87)
  else if 65 ≤ c.toNat ∧ c.toNat ≤ 90 then some (c.toNat - 55)
  else none

def isDigitIn (base : ℕ) (c : Char) : Bool := (digitVal c).any fun d => d < base

/-- The number that digits denote. -/
def valueIn (base : ℕ) (s : List Char) : ℕ :=
  s.foldl (fun n c => base * n + (digitVal c).getD 0) 0

lemma digitVal_digitChar {d : ℕ} (hd : d < 16) : digitVal d.digitChar = some d := by
  interval_cases d <;> rfl

lemma isDigitIn_digitChar {base d : ℕ} (hd : d < base) (hbase : base ≤ 16) :
    isDigitIn base d.digitChar = true := by
  simp [isDigitIn, digitVal_digitChar (hd.trans_le hbase), hd]

@[simp] theorem valueIn_toDigits {base : ℕ} (hone : 1 < base) (hbase : base ≤ 16) (n : ℕ) :
    valueIn base (Nat.toDigits base n) = n := by
  induction n using Nat.strong_induction_on with
  | _ n ih =>
    rw [Nat.toDigits_eq_if hone]
    split_ifs with hlt
    · rw [valueIn, List.foldl_cons, List.foldl_nil, digitVal_digitChar (hlt.trans_le hbase)]
      simp
    · have hrest := ih (n / base) (Nat.div_lt_self (by omega) hone)
      have hmod : n % base < base := Nat.mod_lt n (by omega)
      rw [valueIn] at hrest
      rw [valueIn, List.foldl_concat, hrest, digitVal_digitChar (hmod.trans_le hbase)]
      exact Nat.div_add_mod n base

/-- Zeros in front do not count. -/
lemma valueIn_leftpad (base w : ℕ) (s : List Char) :
    valueIn base (s.leftpad w '0') = valueIn base s := by
  rw [List.leftpad, valueIn, List.foldl_append]
  congr 1
  generalize w - s.length = k
  induction k with
  | zero => rfl
  | succ k ih =>
    have hzero : digitVal '0' = some 0 := rfl
    simpa [List.replicate_succ, hzero] using ih

lemma isDigitIn_of_mem_hexadecimal {n : ℕ} {c : Char} (hc : c ∈ hexadecimal n) :
    isDigitIn 16 c = true := by
  obtain ⟨d, hd, rfl⟩ := mem_hexadecimal hc
  exact isDigitIn_digitChar hd (Nat.le_refl 16)

@[simp] lemma valueIn_hexadecimal (n : ℕ) : valueIn 16 (hexadecimal n) = n :=
  valueIn_toDigits (by decide) (Nat.le_refl 16) n

/-- A sign in front of a number. -/
def takeSign : List Char → Bool × List Char
  | '-' :: s => (true, s)
  | '+' :: s => (false, s)
  | s => (false, s)

lemma takeSign_of_ne {c : Char} (hminus : c ≠ '-') (hplus : c ≠ '+') (s : List Char) :
    takeSign (c :: s) = (false, c :: s) := by
  rw [takeSign]
  · rintro _ heq
    exact hminus (List.cons.inj heq).1
  · rintro _ heq
    exact hplus (List.cons.inj heq).1

/-! ### C -/

/-- `isspace` in the C locale. -/
def cIsspace (c : Char) : Bool := c = ' ' || (9 ≤ c.toNat && c.toNat ≤ 13)

/-- The base that is announced by the prefix, and the digits. A `0x` that no digit follows is a `0`
and a tail. -/
def cBase : List Char → ℕ × List Char
  | '0' :: x :: d :: s =>
    if (x = 'x' ∨ x = 'X') ∧ isDigitIn 16 d then (16, d :: s) else (8, '0' :: x :: d :: s)
  | '0' :: s => (8, '0' :: s)
  | s => (10, s)

/-- `strtoull(s, NULL, 0)`. -/
def strtoull (s : List Char) : UInt64 :=
  let (negative, s) := takeSign (s.dropWhile cIsspace)
  let (base, s) := cBase s
  let n := valueIn base (s.takeWhile (isDigitIn base))
  if n < 2 ^ 64 then
    if negative then - UInt64.ofNat n else UInt64.ofNat n
  else UInt64.ofNat (2 ^ 64 - 1)

/-- `hex(a)` -/
def hex (a : ℤ) : List Char :=
  if a < 0 then '-' :: '0' :: 'x' :: hexadecimal a.natAbs else '0' :: 'x' :: hexadecimal a.natAbs

/-- What `strtoull` makes of a number: the number modulo `2 ^ 64`, or the greatest one if it is out
of range. -/
def word (a : ℤ) : UInt64 :=
  if a.natAbs < 2 ^ 64 then
    if a < 0 then - UInt64.ofNat a.natAbs else UInt64.ofNat a.natAbs
  else UInt64.ofNat (2 ^ 64 - 1)

lemma cBase_hexadecimal (n : ℕ) : cBase ('0' :: 'x' :: hexadecimal n) = (16, hexadecimal n) := by
  cases hdigits : hexadecimal n with
  | nil => exact absurd hdigits Nat.toDigits_ne_nil
  | cons d s =>
    have hd : isDigitIn 16 d = true := isDigitIn_of_mem_hexadecimal (n := n) (by simp [hdigits])
    simp [cBase, hd]

lemma takeWhile_hexadecimal (n : ℕ) : (hexadecimal n).takeWhile (isDigitIn 16) = hexadecimal n :=
  List.takeWhile_eq_self_iff.mpr fun _ hc => isDigitIn_of_mem_hexadecimal hc

/-- **What C reads of Python's number.** -/
theorem strtoull_hex (a : ℤ) : strtoull (hex a) = word a := by
  have hdrop (c : Char) (hc : cIsspace c = false) (s : List Char) :
      (c :: s).dropWhile cIsspace = c :: s := List.dropWhile_cons_of_neg (by simp [hc])
  rw [hex, word]
  split_ifs with hneg hlt hlt
  · rw [strtoull, hdrop '-' rfl]
    simp only [takeSign, cBase_hexadecimal, takeWhile_hexadecimal, valueIn_hexadecimal, hlt,
      ↓reduceIte]
  · rw [strtoull, hdrop '-' rfl]
    simp only [takeSign, cBase_hexadecimal, takeWhile_hexadecimal, valueIn_hexadecimal, hlt,
      ↓reduceIte]
  · rw [strtoull, hdrop '0' rfl, takeSign_of_ne (by decide) (by decide)]
    simp only [cBase_hexadecimal, takeWhile_hexadecimal, valueIn_hexadecimal, hlt, ↓reduceIte,
      Bool.false_eq_true]
  · rw [strtoull, hdrop '0' rfl, takeSign_of_ne (by decide) (by decide)]
    simp only [cBase_hexadecimal, takeWhile_hexadecimal, valueIn_hexadecimal, hlt, ↓reduceIte]

/-- In range, the number itself arrives. -/
lemma word_toNat (x : UInt64) : word x.toNat = x := by
  have hlt := x.toNat_lt
  rw [word, if_pos (by simpa using hlt), if_neg (by omega), Int.natAbs_natCast, UInt64.ofNat_toNat]

/-! ### Python -/

/-- Digits, with single underscores between them, and the underscores taken out. -/
def ungroup (base : ℕ) : List Char → Option (List Char)
  | [] => some []
  | '_' :: d :: s => if isDigitIn base d then (ungroup base s).map (d :: ·) else none
  | d :: s => if isDigitIn base d then (ungroup base s).map (d :: ·) else none

/-- The prefix that base 16 allows, and an underscore behind it. -/
def dropHexPrefix : List Char → List Char
  | '0' :: x :: s =>
    if x = 'x' ∨ x = 'X' then
      match s with
      | '_' :: s => s
      | s => s
    else '0' :: x :: s
  | s => s

/-- The number that digits denote, with single underscores between them; there has to be one. -/
def pyDigits (base : ℕ) : List Char → Option ℕ
  | [] => none
  | d :: s => if isDigitIn base d then (ungroup base (d :: s)).map (valueIn base) else none

def withSign (negative : Bool) (n : ℕ) : ℤ := if negative then -n else n

/-- `int(s)`, for ASCII digits; `none` if it raises `ValueError`. -/
def pyInt (s : List Char) : Option ℤ :=
  let (negative, s) := takeSign (strip s)
  (pyDigits 10 s).map (withSign negative)

/-- `int(s, 16)`, for ASCII digits; `none` if it raises `ValueError`. -/
def pyInt16 (s : List Char) : Option ℤ :=
  let (negative, s) := takeSign (strip s)
  (pyDigits 16 (dropHexPrefix s)).map (withSign negative)

lemma ungroup_of_digits {base : ℕ} {s : List Char}
    (hs : ∀ c ∈ s, isDigitIn base c = true) : ungroup base s = some s := by
  induction s with
  | nil => rfl
  | cons d s ih =>
    obtain ⟨hd, hs⟩ := List.forall_mem_cons.mp hs
    have hne : d ≠ '_' := by
      rintro rfl
      simp [isDigitIn, digitVal] at hd
    rw [ungroup, if_pos hd, ih hs]
    · rfl
    · rintro _ _ rfl
      exact absurd rfl hne

lemma pyDigits_of_digits {base : ℕ} {s : List Char} (hs : ∀ c ∈ s, isDigitIn base c = true)
    (hne : s ≠ []) : pyDigits base s = some (valueIn base s) := by
  obtain ⟨d, t, rfl⟩ := List.exists_cons_of_ne_nil hne
  rw [pyDigits, if_pos (hs d List.mem_cons_self), ungroup_of_digits hs, Option.map_some]

/-- A sign is no digit. -/
lemma takeSign_of_digits {base : ℕ} {s : List Char} (hs : ∀ c ∈ s, isDigitIn base c = true) :
    takeSign s = (false, s) := by
  cases s with
  | nil => rfl
  | cons d t =>
    have hd := hs d List.mem_cons_self
    apply takeSign_of_ne
    · rintro rfl
      simp [isDigitIn, digitVal] at hd
    · rintro rfl
      simp [isDigitIn, digitVal] at hd

lemma isspace_of_isDigitIn {base : ℕ} {c : Char} (hc : isDigitIn base c = true) :
    isspace c = false := by
  by_contra hspace
  rw [Bool.not_eq_false] at hspace
  have hval : digitVal c = none := by
    simp only [isspace, Bool.or_eq_true, Bool.and_eq_true, decide_eq_true_eq] at hspace
    rw [digitVal, if_neg (by omega), if_neg (by omega), if_neg (by omega)]
  simp [isDigitIn, hval] at hc

/-- White space around a word is stripped. -/
lemma strip_append {front back s : List Char} (hfront : ∀ c ∈ front, isspace c = true)
    (hback : ∀ c ∈ back, isspace c = true) (hs : ∀ c ∈ s, isspace c = false) (hne : s ≠ []) :
    strip (front ++ s ++ back) = s := by
  have hhead : ∀ c ∈ (s ++ back).head?, isspace c = false := by
    intro c hc
    obtain ⟨d, t, rfl⟩ := List.exists_cons_of_ne_nil hne
    obtain rfl := Option.some.inj hc
    exact hs _ List.mem_cons_self
  rw [strip, List.append_assoc, dropWhile_append_of_head hfront hhead, List.rdropWhile,
    List.reverse_append, dropWhile_append_of_head (by simpa using hback), List.reverse_reverse]
  intro c hc
  rw [List.head?_reverse] at hc
  exact hs c (List.mem_of_getLast? hc)

lemma strip_eq_nil_iff {s : List Char} : strip s = [] ↔ ∀ c ∈ s, isspace c = true := by
  constructor
  · intro hstrip
    rw [strip, List.rdropWhile_eq_nil_iff] at hstrip
    apply List.dropWhile_eq_nil_iff.mp
    by_contra hne
    obtain ⟨c, t, hrest⟩ := List.exists_cons_of_ne_nil hne
    have hhead := List.head?_dropWhile_not isspace s
    rw [hrest] at hhead hstrip
    simp [hstrip c List.mem_cons_self] at hhead
  · intro hs
    rw [strip, List.dropWhile_eq_nil_iff.mpr hs]
    rfl

lemma pyInt_of_digits {front back s : List Char} (hfront : ∀ c ∈ front, isspace c = true)
    (hback : ∀ c ∈ back, isspace c = true) (hs : ∀ c ∈ s, isDigitIn 10 c = true) (hne : s ≠ []) :
    pyInt (front ++ s ++ back) = some (valueIn 10 s : ℤ) := by
  rw [pyInt, strip_append hfront hback (fun c hc => isspace_of_isDigitIn (hs c hc)) hne,
    takeSign_of_digits hs]
  simp [pyDigits_of_digits hs hne, withSign]

lemma isDigitIn_of_mem_decimal {n : ℕ} {c : Char} (hc : c ∈ decimal n) : isDigitIn 10 c = true := by
  have hdigit := isDigit_of_mem_decimal hc
  simp only [Char.isDigit, Bool.and_eq_true, decide_eq_true_eq, ge_iff_le, UInt32.le_iff_toNat_le]
    at hdigit
  have hlow : 48 ≤ c.toNat := hdigit.1
  have hhigh : c.toNat ≤ 57 := hdigit.2
  simp only [isDigitIn, digitVal, hlow, hhigh, and_self, ↓reduceIte, Option.any_some,
    decide_eq_true_eq]
  omega

/-- A number reads back what `str` writes. -/
@[simp] theorem pyInt_signed (i : ℤ) : pyInt (signed i) = some i := by
  have hdigits : ∀ c ∈ decimal i.natAbs, isDigitIn 10 c = true :=
    fun c hc => isDigitIn_of_mem_decimal hc
  have hvalue : valueIn 10 (decimal i.natAbs) = i.natAbs :=
    valueIn_toDigits (by decide) (by decide) _
  have hnone : ∀ c ∈ ([] : List Char), isspace c = true := by simp
  rw [signed]
  split_ifs with hneg
  · have hstrip : strip ('-' :: decimal i.natAbs) = '-' :: decimal i.natAbs := by
      have hkept := strip_append hnone hnone (s := '-' :: decimal i.natAbs) ?_ (by simp)
      · simpa using hkept
      · intro c hc
        rcases List.mem_cons.mp hc with rfl | hc
        · rfl
        · exact isspace_of_isDigitIn (hdigits c hc)
    simp only [pyInt, hstrip, takeSign, pyDigits_of_digits hdigits (decimal_ne_nil _), hvalue,
      Option.map_some, withSign, ↓reduceIte, Option.some.injEq]
    omega
  · have hread := pyInt_of_digits hnone hnone hdigits (decimal_ne_nil _)
    rw [List.nil_append, List.append_nil, hvalue] at hread
    rw [hread, Option.some.injEq]
    omega

lemma pyInt16_of_digits {front back s : List Char} (hfront : ∀ c ∈ front, isspace c = true)
    (hback : ∀ c ∈ back, isspace c = true) (hs : ∀ c ∈ s, isDigitIn 16 c = true) (hne : s ≠ []) :
    pyInt16 (front ++ s ++ back) = some (valueIn 16 s : ℤ) := by
  rw [pyInt16, strip_append hfront hback (fun c hc => isspace_of_isDigitIn (hs c hc)) hne,
    takeSign_of_digits hs]
  have hdrop : dropHexPrefix s = s := by
    cases s with
    | nil => rfl
    | cons d t =>
      cases t with
      | nil => simp [dropHexPrefix]
      | cons x u =>
        have hx := hs x (by simp)
        have hnot : ¬ (x = 'x' ∨ x = 'X') := by
          rintro (rfl | rfl) <;> cases hx
        by_cases hzero : d = '0'
        · subst hzero
          simp only [dropHexPrefix, hnot, ↓reduceIte]
        · rw [dropHexPrefix]
          rintro _ _ heq
          exact hzero (List.cons.inj heq).1
  simp [hdrop, pyDigits_of_digits hs hne, withSign]

end SyscallMonitor.Lib
