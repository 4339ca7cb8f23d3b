import Mathlib.Data.List.DropRight
import Mathlib.Tactic.Common

/-!
# Characters as Python's `str` sees them
-/

namespace SyscallMonitor.Lib

/-- `c.isspace()`; `\s` in a pattern for `str` is the same. -/
def isspace (c : Char) : Bool :=
  (9 ≤ c.toNat && c.toNat ≤ 13) || (0x1c ≤ c.toNat && c.toNat ≤ 0x20) || c.toNat = 0x85
    || c.toNat = 0xa0 || c.toNat = 0x1680 || (0x2000 ≤ c.toNat && c.toNat ≤ 0x200a)
    || c.toNat = 0x2028 || c.toNat = 0x2029 || c.toNat = 0x202f || c.toNat = 0x205f
    || c.toNat = 0x3000

/-- `s.strip()` -/
def strip (s : List Char) : List Char := (s.dropWhile isspace).rdropWhile isspace

/-- Printable characters that ASCII has. -/
def printableAscii (c : Char) : Bool := 0x20 ≤ c.toNat && c.toNat < 0x7f

/-- `str.isprintable`, which is read from Python's copy of the Unicode character database: in every
version the ASCII characters are as ever, and the only white space among what is printable is the
space. -/
structure UnicodeData where
  isprintable : Char → Bool
  ascii : ∀ c : Char, c.toNat < 0x80 → isprintable c = printableAscii c
  space : ∀ c, isprintable c → isspace c → c = ' '

/-- The database as far as Latin-1 goes, with the replacement character. -/
def latin1 : UnicodeData where
  isprintable c :=
    printableAscii c || (0xa1 ≤ c.toNat && c.toNat ≤ 0xff && c.toNat != 0xad) || c.toNat = 0xfffd
  ascii c hc := by
    have h₁ : ¬ 0xa1 ≤ c.toNat := by omega
    have h₂ : c.toNat ≠ 0xfffd := by omega
    simp [h₁, h₂]
  space c hp hs := by
    have hn : c.toNat = ' '.toNat := by
      simp only [printableAscii, isspace, Bool.or_eq_true, Bool.and_eq_true, decide_eq_true_eq,
        bne_iff_ne] at hp hs
      have hsp : ' '.toNat = 0x20 := rfl
      omega
    exact Char.toNat_inj.mp hn

lemma toNat_lt_of_printableAscii {c : Char} (hc : printableAscii c) : c.toNat < 0x80 := by
  simp only [printableAscii, Bool.and_eq_true, decide_eq_true_eq] at hc
  omega

lemma UnicodeData.isprintable_of_ascii (u : UnicodeData) {c : Char} (hc : printableAscii c) :
    u.isprintable c :=
  (u.ascii c (toNat_lt_of_printableAscii hc)).trans hc

/-! ### Lines -/

/-- Where `str.splitlines` breaks a text. -/
def isLineBoundary (c : Char) : Bool :=
  (10 ≤ c.toNat && c.toNat ≤ 13) || (0x1c ≤ c.toNat && c.toNat ≤ 0x1e) || c.toNat = 0x85
    || c.toNat = 0x2028 || c.toNat = 0x2029

/-- `s.splitlines()` -/
def splitlines : List Char → List (List Char)
  | [] => []
  | '\r' :: '\n' :: s => [] :: splitlines s
  | c :: s =>
    if isLineBoundary c then [] :: splitlines s
    else
      match splitlines s with
      | [] => [[c]]
      | l :: ls => (c :: l) :: ls

lemma splitlines_cons {c : Char} (hc : isLineBoundary c = false) (s : List Char) :
    splitlines (c :: s) =
      match splitlines s with
      | [] => [[c]]
      | l :: ls => (c :: l) :: ls := by
  rw [splitlines]
  · rw [if_neg (by simp [hc])]
  · rintro _ rfl
    cases hc

lemma splitlines_newline (s : List Char) : splitlines ('\n' :: s) = [] :: splitlines s := by
  rw [splitlines]
  · rfl
  · rintro _ heq
    cases heq

lemma splitlines_append {l : List Char} (hl : ∀ c ∈ l, isLineBoundary c = false) (s : List Char) :
    splitlines (l ++ '\n' :: s) = l :: splitlines s := by
  induction l with
  | nil => exact splitlines_newline s
  | cons c l ih =>
    obtain ⟨hc, hl⟩ := List.forall_mem_cons.mp hl
    rw [List.cons_append, splitlines_cons hc, ih hl]

/-- Lines that are written one after the other are split again. -/
theorem splitlines_lines {ls : List (List Char)}
    (hls : ∀ l ∈ ls, ∀ c ∈ l, isLineBoundary c = false) :
    splitlines (ls.flatMap fun l => l ++ ['\n']) = ls := by
  induction ls with
  | nil => rfl
  | cons l ls ih =>
    obtain ⟨hl, hls⟩ := List.forall_mem_cons.mp hls
    rw [List.flatMap_cons, List.append_assoc, List.singleton_append, splitlines_append hl, ih hls]

/-- Line boundaries are white space. -/
lemma isLineBoundary_of_not_isspace {c : Char} (hc : isspace c = false) :
    isLineBoundary c = false := by
  by_contra hboundary
  rw [Bool.not_eq_false] at hboundary
  simp only [isLineBoundary, Bool.or_eq_true, Bool.and_eq_true, decide_eq_true_eq] at hboundary
  simp only [isspace, Bool.or_eq_false_iff, Bool.and_eq_false_iff, decide_eq_false_iff_not] at hc
  omega

end SyscallMonitor.Lib
