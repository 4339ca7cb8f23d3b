import Mathlib.Tactic.Common

/-!
# UTF-8 with replacement

`bytes.decode(errors="replace")`: a byte that begins no character, and the longest beginning of a
character that is not continued, are replaced by one U+FFFD each.
-/

namespace SyscallMonitor.Lib.Utf8

/-- Between two characters, or inside one: the bits read so far, the range of the next byte, and the
ranges of those that follow. -/
inductive State where
  | start
  | inside (code lo hi : ℕ) (rest : List (ℕ × ℕ))

/-- U+FFFD -/
def replacement : Char := '\ufffd'

def tail : ℕ × ℕ := (0x80, 0xbf)

/-- A byte between two characters. -/
def first (b : ℕ) : List Char × State :=
  if b < 0x80 then ([Char.ofNat b], .start)
  else if b < 0xc2 then ([replacement], .start)
  else if b < 0xe0 then ([], .inside (b - 0xc0) 0x80 0xbf [])
  else if b = 0xe0 then ([], .inside (b - 0xe0) 0xa0 0xbf [tail])
  else if b = 0xed then ([], .inside (b - 0xe0) 0x80 0x9f [tail])
  else if b < 0xf0 then ([], .inside (b - 0xe0) 0x80 0xbf [tail])
  else if b = 0xf0 then ([], .inside (b - 0xf0) 0x90 0xbf [tail, tail])
  else if b < 0xf4 then ([], .inside (b - 0xf0) 0x80 0xbf [tail, tail])
  else if b = 0xf4 then ([], .inside (b - 0xf0) 0x80 0x8f [tail, tail])
  else ([replacement], .start)

/-- The next byte: the characters that it completes or breaks off. -/
def feed : State → ℕ → List Char × State
  | .start, b => first b
  | .inside code lo hi rest, b =>
    if lo ≤ b ∧ b ≤ hi then
      match rest with
      | []                 => ([Char.ofNat (code * 64 + (b - 0x80))], .start)
      | (lo', hi') :: rest => ([], .inside (code * 64 + (b - 0x80)) lo' hi' rest)
    else (replacement :: (first b).1, (first b).2)

def decodeFrom : State → List UInt8 → List Char
  | .start, []     => []
  | .inside .., [] => [replacement]
  | st, b :: s     => (feed st b.toNat).1 ++ decodeFrom (feed st b.toNat).2 s

/-- `s.decode(errors="replace")` -/
def decode (s : List UInt8) : List Char := decodeFrom .start s

/-- `t.encode()` -/
def encode (t : List Char) : List UInt8 := t.flatMap String.utf8EncodeChar

lemma decodeFrom_cons (st : State) (b : UInt8) (s : List UInt8) :
    decodeFrom st (b :: s) = (feed st b.toNat).1 ++ decodeFrom (feed st b.toNat).2 s := by
  cases st <;> rfl

/-- A byte that continues the character. -/
lemma decodeFrom_inside {code lo hi : ℕ} {rest : List (ℕ × ℕ)} {b : ℕ} (s : List UInt8)
    (hlo : lo ≤ b % 0x40 + 0x80) (hhi : b % 0x40 + 0x80 ≤ hi) :
    decodeFrom (.inside code lo hi rest) (UInt8.ofNat (b % 0x40 + 0x80) :: s)
      = match rest with
        | []                 => Char.ofNat (code * 64 + b % 0x40) :: decodeFrom .start s
        | (lo', hi') :: rest => decodeFrom (.inside (code * 64 + b % 0x40) lo' hi' rest) s := by
  have hb : (UInt8.ofNat (b % 0x40 + 0x80)).toNat = b % 0x40 + 0x80 := by
    rw [UInt8.toNat_ofNat']
    omega
  rw [decodeFrom_cons, hb]
  cases rest with
  | nil =>
    rw [feed, if_pos ⟨hlo, hhi⟩, Nat.add_sub_cancel]
    rfl
  | cons r rest =>
    rw [feed, if_pos ⟨hlo, hhi⟩, Nat.add_sub_cancel]
    rfl

/-- The first of two bytes. -/
lemma decodeFrom_two {k : ℕ} (s : List UInt8) (h₂ : 2 ≤ k) (hk : k < 0x20) :
    decodeFrom .start (UInt8.ofNat (k + 0xc0) :: s)
      = decodeFrom (.inside k 0x80 0xbf []) s := by
  have hb : (UInt8.ofNat (k + 0xc0)).toNat = k + 0xc0 := by
    rw [UInt8.toNat_ofNat']
    omega
  rw [decodeFrom_cons, hb, feed, first, if_neg (by omega), if_neg (by omega), if_pos (by omega),
    Nat.add_sub_cancel]
  rfl

/-- The first of three bytes; `j` is in the second. -/
lemma decodeFrom_three {k j : ℕ} (s : List UInt8) (hk : k < 0x10) (hj : j < 0x40)
    (hlong : k = 0 → 0x20 ≤ j) (hsurrogate : k = 13 → j < 0x20) :
    ∃ lo hi, lo ≤ j + 0x80 ∧ j + 0x80 ≤ hi ∧ decodeFrom .start (UInt8.ofNat (k + 0xe0) :: s)
      = decodeFrom (.inside k lo hi [tail]) s := by
  have hb : (UInt8.ofNat (k + 0xe0)).toNat = k + 0xe0 := by
    rw [UInt8.toNat_ofNat']
    omega
  rw [decodeFrom_cons, hb, feed, first, if_neg (by omega), if_neg (by omega), if_neg (by omega),
    Nat.add_sub_cancel]
  split_ifs
  · exact ⟨0xa0, 0xbf, by omega, by omega, rfl⟩
  · exact ⟨0x80, 0x9f, by omega, by omega, rfl⟩
  · exact ⟨0x80, 0xbf, by omega, by omega, rfl⟩
  all_goals omega

/-- The first of four bytes; `j` is in the second. -/
lemma decodeFrom_four {k j : ℕ} (s : List UInt8) (hk : k < 5) (hj : j < 0x40)
    (hlong : k = 0 → 0x10 ≤ j) (hlarge : k = 4 → j < 0x10) :
    ∃ lo hi, lo ≤ j + 0x80 ∧ j + 0x80 ≤ hi ∧ decodeFrom .start (UInt8.ofNat (k + 0xf0) :: s)
      = decodeFrom (.inside k lo hi [tail, tail]) s := by
  have hb : (UInt8.ofNat (k + 0xf0)).toNat = k + 0xf0 := by
    rw [UInt8.toNat_ofNat']
    omega
  rw [decodeFrom_cons, hb, feed, first, if_neg (by omega), if_neg (by omega), if_neg (by omega),
    if_neg (by omega), if_neg (by omega), if_neg (by omega), Nat.add_sub_cancel]
  split_ifs
  · exact ⟨0x90, 0xbf, by omega, by omega, rfl⟩
  · exact ⟨0x80, 0xbf, by omega, by omega, rfl⟩
  · exact ⟨0x80, 0x8f, by omega, by omega, rfl⟩
  all_goals omega

/-- The bytes of a character. -/
lemma decodeFrom_utf8EncodeChar (c : Char) (s : List UInt8) :
    decodeFrom .start (String.utf8EncodeChar c ++ s) = c :: decodeFrom .start s := by
  have hvalid : c.toNat < 0xd800 ∨ 0xdfff < c.toNat ∧ c.toNat < 0x110000 := c.valid
  have hdef : c.val.toNat = c.toNat := rfl
  have hchar : ∀ n, n = c.toNat → Char.ofNat n = c := by
    rintro n rfl
    exact Char.ofNat_toNat c
  rw [String.utf8EncodeChar]
  simp only [hdef]
  split_ifs with h₁ h₂ h₃
  · have hb : (UInt8.ofNat c.toNat).toNat = c.toNat := by
      rw [UInt8.toNat_ofNat']
      omega
    rw [List.singleton_append, decodeFrom_cons, hb, feed, first, if_pos (by omega), hchar _ rfl]
    rfl
  · rw [List.cons_append, decodeFrom_two _ (by omega) (by omega), List.singleton_append,
      decodeFrom_inside s (by omega) (by omega)]
    exact congrArg (· :: _) (hchar _ (by omega))
  · obtain ⟨lo, hi, hlo, hhi, hfirst⟩ := decodeFrom_three (k := c.toNat / 4096 % 0x10)
      (j := c.toNat / 64 % 0x40) (UInt8.ofNat (c.toNat / 64 % 0x40 + 0x80) ::
        UInt8.ofNat (c.toNat % 0x40 + 0x80) :: s) (by omega) (by omega) (by omega) (by omega)
    refine hfirst.trans ?_
    rw [decodeFrom_inside _ hlo hhi]
    simp only [tail]
    rw [decodeFrom_inside s (by omega) (by omega)]
    exact congrArg (· :: _) (hchar _ (by omega))
  · obtain ⟨lo, hi, hlo, hhi, hfirst⟩ := decodeFrom_four (k := c.toNat / 262144 % 0x08)
      (j := c.toNat / 4096 % 0x40) (UInt8.ofNat (c.toNat / 4096 % 0x40 + 0x80) ::
        UInt8.ofNat (c.toNat / 64 % 0x40 + 0x80) :: UInt8.ofNat (c.toNat % 0x40 + 0x80) :: s)
      (by omega) (by omega) (by omega) (by omega)
    refine hfirst.trans ?_
    rw [decodeFrom_inside _ hlo hhi]
    simp only [tail]
    rw [decodeFrom_inside _ (by omega) (by omega)]
    dsimp only
    rw [decodeFrom_inside s (by omega) (by omega)]
    exact congrArg (· :: _) (hchar _ (by omega))

/-- **Round trip.** Text is decoded from its UTF-8 as it is. -/
theorem decode_encode (t : List Char) : decode (encode t) = t := by
  induction t with
  | nil => rfl
  | cons c t ih =>
    rw [encode, List.flatMap_cons, decode, decodeFrom_utf8EncodeChar]
    exact congrArg (c :: ·) ih

/-- A character has one byte below 0x80, or only bytes from there on. -/
lemma utf8EncodeChar_cases (c : Char) :
    (∃ b : UInt8, b.toNat < 0x80 ∧ String.utf8EncodeChar c = [b])
      ∨ ∀ b ∈ String.utf8EncodeChar c, 0x80 ≤ b.toNat := by
  rw [String.utf8EncodeChar]
  split_ifs with h₁ h₂ h₃
  · left
    refine ⟨_, ?_, rfl⟩
    rw [UInt8.toNat_ofNat']
    omega
  all_goals
    right
    simp only [List.forall_mem_cons, UInt8.toNat_ofNat', List.not_mem_nil, false_implies,
      implies_true, and_true]
    omega

/-- Bytes below 0x80 at the beginning of encoded text are characters of the text. -/
lemma exists_prefix_of_prefix_encode {w : List UInt8} {t : List Char} (hw : ∀ b ∈ w, b.toNat < 0x80)
    (h : w <+: encode t) : ∃ u, u <+: t ∧ encode u = w := by
  induction w generalizing t with
  | nil => exact ⟨[], List.nil_prefix, rfl⟩
  | cons b w ih =>
    rw [List.forall_mem_cons] at hw
    cases t with
    | nil => cases List.prefix_nil.mp h
    | cons c t =>
      rw [encode, List.flatMap_cons] at h
      obtain ⟨b', hb', hc⟩ | hc := utf8EncodeChar_cases c
      · rw [hc, List.singleton_append, List.cons_prefix_cons] at h
        obtain ⟨rfl, h⟩ := h
        obtain ⟨u, hu, rfl⟩ := ih hw.2 h
        refine ⟨c :: u, List.cons_prefix_cons.mpr ⟨rfl, hu⟩, ?_⟩
        rw [encode, List.flatMap_cons, hc]
        rfl
      · cases hbytes : String.utf8EncodeChar c with
        | nil => exact absurd hbytes String.utf8EncodeChar_ne_nil
        | cons d ds =>
          rw [hbytes, List.cons_append, List.cons_prefix_cons] at h
          have hd := hc d (hbytes ▸ List.mem_cons_self)
          rw [← h.1] at hd
          omega

end SyscallMonitor.Lib.Utf8
