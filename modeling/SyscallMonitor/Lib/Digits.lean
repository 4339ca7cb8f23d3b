import Mathlib.Data.List.Basic
import Mathlib.Data.Int.Basic
import Mathlib.Tactic.IntervalCases

/-!
# Numbers as digits

What `printf` writes for decimal and hexadecimal conversions, and how to read it back.
-/

namespace SyscallMonitor.Lib

/-- `%lu`. -/
def decimal (n : ℕ) : List Char := Nat.toDigits 10 n

/-- `%ld`. -/
def signed (i : ℤ) : List Char := if i < 0 then '-' :: decimal i.natAbs else decimal i.natAbs

/-- `%0*lu`: padded with zeros to the width `w`. -/
def padded (w n : ℕ) : List Char := (decimal n).leftpad w '0'

/-- `%0*ld`. The sign takes one place of the width. -/
def signedPadded (w : ℕ) (i : ℤ) : List Char :=
  if i < 0 then '-' :: padded (w - 1) i.natAbs else padded w i.natAbs

/-- `%lx`. -/
def hexadecimal (n : ℕ) : List Char := Nat.toDigits 16 n

/-- The number that decimal digits denote. -/
def ofDecimal (s : List Char) : ℕ := Nat.ofDigitChars 10 s 0

lemma isDigit_of_mem_decimal {n : ℕ} {c : Char} (hc : c ∈ decimal n) : c.isDigit = true :=
  Nat.isDigit_of_mem_toDigits (by decide) (by decide) hc

lemma decimal_ne_nil (n : ℕ) : decimal n ≠ [] := Nat.toDigits_ne_nil

@[simp] lemma ofDecimal_decimal (n : ℕ) : ofDecimal (decimal n) = n := Nat.ofDigitChars_ten_toDigits

lemma ofDecimal_append (s t : List Char) :
    ofDecimal (s ++ t) = 10 ^ t.length * ofDecimal s + ofDecimal t := by
  rw [ofDecimal, Nat.ofDigitChars_append, Nat.ofDigitChars_eq_ofDigitChars_zero]
  rfl

lemma isDigit_of_mem_padded {w n : ℕ} {c : Char} (hc : c ∈ padded w n) : c.isDigit = true := by
  rw [padded, List.leftpad, List.mem_append] at hc
  rcases hc with hc | hc
  · rw [List.eq_of_mem_replicate hc]
    rfl
  · exact isDigit_of_mem_decimal hc

@[simp] lemma ofDecimal_padded (w n : ℕ) : ofDecimal (padded w n) = n := by
  rw [padded, List.leftpad, ofDecimal_append, ofDecimal_decimal, ofDecimal,
    Nat.ofDigitChars_replicate_zero, Nat.mul_zero, Nat.mul_zero, Nat.zero_add]

lemma length_padded {w n : ℕ} (hw : 0 < w) (hn : n < 10 ^ w) : (padded w n).length = w := by
  rw [padded, List.length_leftpad]
  exact Nat.max_eq_left ((Nat.length_toDigits_le_iff (by decide) hw).mpr hn)

/-- A number of at least one digit begins with `0` only if it is zero. -/
lemma decimal_eq_zero_cons {n : ℕ} {s : List Char} (h : decimal n = '0' :: s) : n = 0 ∧ s = [] := by
  induction n using Nat.strong_induction_on generalizing s with
  | _ n ih =>
    rw [decimal, Nat.toDigits_eq_if (by decide)] at h
    split_ifs at h with hlt
    · obtain ⟨hc, rfl⟩ := List.cons.inj h
      refine ⟨?_, rfl⟩
      interval_cases n <;> first | rfl | cases hc
    · cases hfirst : Nat.toDigits 10 (n / 10) with
      | nil => exact absurd hfirst Nat.toDigits_ne_nil
      | cons c t =>
        rw [hfirst, List.cons_append] at h
        obtain ⟨rfl, -⟩ := List.cons.inj h
        obtain ⟨hzero, -⟩ := ih (n / 10) (by omega) hfirst
        omega

/-! ### Hexadecimal digits -/

/-- The value of a hexadecimal digit in lower case. -/
def hexDigitValue (c : Char) : ℕ :=
  if c.isDigit then c.toNat - '0'.toNat else c.toNat - 'a'.toNat + 10

/-- The number that hexadecimal digits denote. -/
def ofHexadecimal (s : List Char) : ℕ := s.foldl (fun n c => 16 * n + hexDigitValue c) 0

lemma hexDigitValue_digitChar {n : ℕ} (hn : n < 16) : hexDigitValue n.digitChar = n := by
  interval_cases n <;> rfl

@[simp] theorem ofHexadecimal_hexadecimal (n : ℕ) : ofHexadecimal (hexadecimal n) = n := by
  induction n using Nat.strong_induction_on with
  | _ n ih =>
    rw [hexadecimal, Nat.toDigits_eq_if (by decide)]
    split_ifs with hlt
    · rw [ofHexadecimal, List.foldl_cons, List.foldl_nil, hexDigitValue_digitChar hlt]
      omega
    · have hrest := ih (n / 16) (by omega)
      rw [hexadecimal, ofHexadecimal] at hrest
      rw [ofHexadecimal, List.foldl_concat, hrest,
        hexDigitValue_digitChar (Nat.mod_lt n (by decide))]
      omega

/-- Every digit is one of the sixteen. -/
lemma mem_hexadecimal {n : ℕ} {c : Char} (hc : c ∈ hexadecimal n) : ∃ d < 16, c = d.digitChar := by
  induction n using Nat.strong_induction_on with
  | _ n ih =>
    rw [hexadecimal, Nat.toDigits_eq_if (by decide)] at hc
    split_ifs at hc with hlt
    · exact ⟨n, hlt, List.mem_singleton.mp hc⟩
    · rcases List.mem_append.mp hc with hc | hc
      · exact ih (n / 16) (by omega) hc
      · exact ⟨n % 16, Nat.mod_lt n (by decide), List.mem_singleton.mp hc⟩

/-! ### Reading a run of digits -/

/-- The characters that satisfy `p` end where `r` begins. -/
lemma takeWhile_append_of_head {α : Type*} {p : α → Bool} {l r : List α} (hl : ∀ a ∈ l, p a = true)
    (hr : ∀ a ∈ r.head?, p a = false) : (l ++ r).takeWhile p = l := by
  rw [List.takeWhile_append_of_pos hl]
  cases r with
  | nil => rw [List.takeWhile_nil, List.append_nil]
  | cons a r => rw [List.takeWhile_cons_of_neg (by simp [hr a rfl]), List.append_nil]

lemma dropWhile_append_of_head {α : Type*} {p : α → Bool} {l r : List α} (hl : ∀ a ∈ l, p a = true)
    (hr : ∀ a ∈ r.head?, p a = false) : (l ++ r).dropWhile p = r := by
  rw [List.dropWhile_append_of_pos hl]
  cases r with
  | nil => rfl
  | cons a r => exact List.dropWhile_cons_of_neg (by simp [hr a rfl])

end SyscallMonitor.Lib
