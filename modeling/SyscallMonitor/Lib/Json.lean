import SyscallMonitor.Lib.Digits

/-!
# JSON

Values, their text, and a parser for the whole grammar. A number is kept as it is written, with its
decimals, so that nothing is lost to rounding. The parser descends with fuel; `parse_render` says
that it reads back what `render` writes.
-/

namespace SyscallMonitor.Lib

/-- A number as it is written: `mantissa * 10 ^ (exponent - decimals)`. -/
structure JsonNumber where
  mantissa : ℤ
  decimals : ℕ
  exponent : Option ℤ
  deriving DecidableEq

/-- A JSON value. Members of an object are kept in order. -/
inductive Json where
  | null
  | bool (b : Bool)
  | num (n : JsonNumber)
  | str (s : List Char)
  | arr (xs : List Json)
  | obj (members : List (List Char × Json))

/-- An integer. -/
def JsonNumber.ofInt (i : ℤ) : JsonNumber := ⟨i, 0, none⟩

namespace Json

/-- The value of a key; of several, the last one counts. -/
def get? (members : List (List Char × Json)) (key : List Char) : Option Json :=
  (members.reverse.find? fun m => m.1 = key).map Prod.snd

/-! ### Text -/

/-- A character inside quotes. -/
def escaped (c : Char) : List Char :=
  if c = '\x22' ∨ c = '\x5c' then ['\x5c', c]
  else if c.toNat < 0x20 then
    ['\x5c', 'u', '0', '0', (c.toNat / 16).digitChar, (c.toNat % 16).digitChar]
  else [c]

/-- A string in quotes. -/
def quote (s : List Char) : List Char := '\x22' :: s.flatMap escaped ++ ['\x22']

/-- The text of a number after its sign. -/
def renderUnsigned (m d : ℕ) (e : Option ℤ) : List Char :=
  decimal (m / 10 ^ d) ++ (if d = 0 then [] else '.' :: padded d (m % 10 ^ d)) ++
    e.elim [] fun e => 'e' :: signed e

/-- The text of a number. -/
def renderNumber (n : JsonNumber) : List Char :=
  (if n.mantissa < 0 then ['-'] else []) ++
    renderUnsigned n.mantissa.natAbs n.decimals n.exponent

mutual

/-- The text of a value, with a blank after each comma and colon. -/
def render : Json → List Char
  | .null => "null".toList
  | .bool true => "true".toList
  | .bool false => "false".toList
  | .num n => renderNumber n
  | .str s => quote s
  | .arr [] => "[]".toList
  | .arr (x :: xs) => '[' :: render x ++ renderTail xs ++ [']']
  | .obj [] => "\x7b\x7d".toList
  | .obj ((k, v) :: ms) =>
    '\x7b' :: quote k ++ ": ".toList ++ render v ++ renderMembers ms ++ ['\x7d']

/-- The elements after the first. -/
def renderTail : List Json → List Char
  | [] => []
  | x :: xs => ", ".toList ++ render x ++ renderTail xs

/-- The members after the first. -/
def renderMembers : List (List Char × Json) → List Char
  | [] => []
  | (k, v) :: ms => ", ".toList ++ quote k ++ ": ".toList ++ render v ++ renderMembers ms

end

/-! ### Numbers -/

/-- `0`, or digits that do not begin with `0`. -/
def integerPart : List Char → Option (List Char × List Char)
  | [] => none
  | c :: s =>
    if c = '0' then some (['0'], s)
    else if c.isDigit then some (c :: s.takeWhile Char.isDigit, s.dropWhile Char.isDigit)
    else none

/-- The digits after the point, if there are any. -/
def fractionPart : List Char → List Char × List Char
  | [] => ([], [])
  | c :: s =>
    if c = '.' ∧ s.takeWhile Char.isDigit ≠ [] then
      (s.takeWhile Char.isDigit, s.dropWhile Char.isDigit)
    else ([], c :: s)

/-- Digits with an optional sign. -/
def signedDigits (s : List Char) : Option (ℤ × List Char) :=
  let digits (t : List Char) : Option (ℕ × List Char) :=
    if t.takeWhile Char.isDigit = [] then none
    else some (ofDecimal (t.takeWhile Char.isDigit), t.dropWhile Char.isDigit)
  match s with
  | [] => none
  | c :: t =>
    if c = '-' then (digits t).map fun r => (-(r.1 : ℤ), r.2)
    else if c = '+' then (digits t).map fun r => ((r.1 : ℤ), r.2)
    else (digits s).map fun r => ((r.1 : ℤ), r.2)

/-- The exponent, if there is one. -/
def exponentPart : List Char → Option ℤ × List Char
  | [] => (none, [])
  | c :: s =>
    if c = 'e' ∨ c = 'E' then
      match signedDigits s with
      | some (e, t) => (some e, t)
      | none => (none, c :: s)
    else (none, c :: s)

/-- A number without its sign. -/
def unsignedNumber (s : List Char) : Option (JsonNumber × List Char) :=
  (integerPart s).map fun (ds, s) =>
    let (fs, s) := fractionPart s
    let (e, s) := exponentPart s
    (⟨ofDecimal (ds ++ fs), fs.length, e⟩, s)

/-- A number. -/
def number : List Char → Option (JsonNumber × List Char)
  | [] => none
  | c :: s =>
    if c = '-' then
      (unsignedNumber s).map fun (n, s) => ({ n with mantissa := -n.mantissa }, s)
    else unsignedNumber (c :: s)

/-! ### Strings -/

/-- The value of a hexadecimal digit in either case. -/
def hexDigit? (c : Char) : Option ℕ :=
  if c.isDigit then some (c.toNat - '0'.toNat)
  else if 'a' ≤ c ∧ c ≤ 'f' then some (c.toNat - 'a'.toNat + 10)
  else if 'A' ≤ c ∧ c ≤ 'F' then some (c.toNat - 'A'.toNat + 10)
  else none

/-- Four hexadecimal digits. -/
def codeUnit : List Char → Option (ℕ × List Char)
  | a :: b :: c :: d :: s => do
    let a ← hexDigit? a
    let b ← hexDigit? b
    let c ← hexDigit? c
    let d ← hexDigit? d
    some (((a * 16 + b) * 16 + c) * 16 + d, s)
  | _ => none

/-- What follows `\u`: a code unit, or two for a character beyond the basic plane. A surrogate by
itself is no character and is refused. -/
def unicodeEscape (s : List Char) : Option (Char × List Char) :=
  match codeUnit s with
  | none => none
  | some (n, s) =>
    if 0xd800 ≤ n ∧ n < 0xdc00 then
      match s with
      | '\x5c' :: 'u' :: s =>
        match codeUnit s with
        | none => none
        | some (m, s) =>
          if 0xdc00 ≤ m ∧ m < 0xe000 then
            some (Char.ofNat (0x10000 + (n - 0xd800) * 0x400 + (m - 0xdc00)), s)
          else none
      | _ => none
    else if 0xdc00 ≤ n ∧ n < 0xe000 then none
    else some (Char.ofNat n, s)

/-- What follows a backslash. -/
def escape : List Char → Option (Char × List Char)
  | [] => none
  | c :: s =>
    if c = 'u' then unicodeEscape s
    else if c = '\x22' ∨ c = '\x5c' ∨ c = '/' then some (c, s)
    else if c = 'b' then some ('\x08', s)
    else if c = 'f' then some ('\x0c', s)
    else if c = 'n' then some ('\n', s)
    else if c = 'r' then some ('\r', s)
    else if c = 't' then some ('\t', s)
    else none

/-- A string after its opening quote. -/
def stringBody : ℕ → List Char → Option (List Char × List Char)
  | 0, _ => none
  | _ + 1, [] => none
  | fuel + 1, c :: s =>
    if c = '\x22' then some ([], s)
    else if c = '\x5c' then
      (escape s).bind fun (d, s) => (stringBody fuel s).map fun (t, s) => (d :: t, s)
    else if c.toNat < 0x20 then none
    else (stringBody fuel s).map fun (t, s) => (c :: t, s)

/-! ### Values -/

/-- White space between tokens. -/
def isSpace (c : Char) : Bool := c = ' ' || c = '\t' || c = '\n' || c = '\r'

def skipSpace (s : List Char) : List Char := s.dropWhile isSpace

/-- The rest of a keyword. -/
def keyword (w : List Char) (j : Json) (s : List Char) : Option (Json × List Char) :=
  if w.isPrefixOf s then some (j, s.drop w.length) else none

mutual

/-- One value. -/
def value : ℕ → List Char → Option (Json × List Char)
  | 0, _ => none
  | fuel + 1, s =>
    match skipSpace s with
    | [] => none
    | c :: s =>
      if c = '\x22' then (stringBody (s.length + 1) s).map fun (t, s) => (.str t, s)
      else if c = '[' then
        match skipSpace s with
        | [] => none
        | d :: t =>
          if d = ']' then some (.arr [], t)
          else (value fuel s).bind fun (x, s) =>
            (elements fuel s).map fun (xs, s) => (.arr (x :: xs), s)
      else if c = '\x7b' then
        match skipSpace s with
        | [] => none
        | d :: t =>
          if d = '\x7d' then some (.obj [], t)
          else (member fuel s).bind fun (m, s) =>
            (members fuel s).map fun (ms, s) => (.obj (m :: ms), s)
      else if c = 'n' then keyword "ull".toList .null s
      else if c = 't' then keyword "rue".toList (.bool true) s
      else if c = 'f' then keyword "alse".toList (.bool false) s
      else (number (c :: s)).map fun (n, s) => (.num n, s)

/-- The elements of an array after the first, up to the closing bracket. -/
def elements : ℕ → List Char → Option (List Json × List Char)
  | 0, _ => none
  | fuel + 1, s =>
    match skipSpace s with
    | [] => none
    | c :: s =>
      if c = ']' then some ([], s)
      else if c = ',' then
        (value fuel s).bind fun (x, s) => (elements fuel s).map fun (xs, s) => (x :: xs, s)
      else none

/-- One member of an object. -/
def member : ℕ → List Char → Option ((List Char × Json) × List Char)
  | 0, _ => none
  | fuel + 1, s =>
    match skipSpace s with
    | [] => none
    | c :: s =>
      if c = '\x22' then
        (stringBody (s.length + 1) s).bind fun (k, s) =>
          match skipSpace s with
          | [] => none
          | d :: s =>
            if d = ':' then (value fuel s).map fun (v, s) => ((k, v), s) else none
      else none

/-- The members of an object after the first, up to the closing brace. -/
def members : ℕ → List Char → Option (List (List Char × Json) × List Char)
  | 0, _ => none
  | fuel + 1, s =>
    match skipSpace s with
    | [] => none
    | c :: s =>
      if c = '\x7d' then some ([], s)
      else if c = ',' then
        (member fuel s).bind fun (m, s) => (members fuel s).map fun (ms, s) => (m :: ms, s)
      else none

end

/-- The value that a text denotes. -/
def parse (s : List Char) : Option Json :=
  match value s.length s with
  | some (j, s) => if skipSpace s = [] then some j else none
  | none => none

/-! ### Reading back a number -/

/-- The text goes on in a way that ends a number. -/
def Delimited (r : List Char) : Prop :=
  ∀ c ∈ r.head?, c.isDigit = false ∧ c ≠ '.' ∧ c ≠ 'e' ∧ c ≠ 'E'

/-- The text does not go on with a digit. -/
def NoDigit (r : List Char) : Prop := ∀ c ∈ r.head?, c.isDigit = false

lemma Delimited.noDigit {r : List Char} (hr : Delimited r) : NoDigit r := fun c hc => (hr c hc).1

lemma noDigit_cons {c : Char} (r : List Char) (hc : c.isDigit = false) : NoDigit (c :: r) := by
  simpa [NoDigit] using hc

lemma delimited_cons {c : Char} (r : List Char)
    (hc : c.isDigit = false ∧ c ≠ '.' ∧ c ≠ 'e' ∧ c ≠ 'E') : Delimited (c :: r) := by
  simpa [Delimited] using hc

lemma integerPart_decimal (n : ℕ) {r : List Char} (hr : NoDigit r) :
    integerPart (decimal n ++ r) = some (decimal n, r) := by
  cases hn : decimal n with
  | nil => exact absurd hn (decimal_ne_nil n)
  | cons c s =>
    have hdigit : ∀ a ∈ c :: s, a.isDigit = true := fun a ha => isDigit_of_mem_decimal (hn ▸ ha)
    rw [List.cons_append, integerPart]
    by_cases hc : c = '0'
    · subst hc
      obtain ⟨-, rfl⟩ := decimal_eq_zero_cons hn
      simp
    · have hs : ∀ a ∈ s, a.isDigit = true := fun a ha => hdigit a (List.mem_cons_of_mem c ha)
      simp [hc, hdigit c List.mem_cons_self, takeWhile_append_of_head hs hr,
        dropWhile_append_of_head hs hr]

lemma fractionPart_padded {d q : ℕ} (hd : 0 < d) (hq : q < 10 ^ d) {r : List Char}
    (hr : NoDigit r) : fractionPart ('.' :: padded d q ++ r) = (padded d q, r) := by
  have hdigit : ∀ a ∈ padded d q, a.isDigit = true := fun a ha => isDigit_of_mem_padded ha
  have hne : padded d q ≠ [] := by
    rw [← List.length_pos_iff, length_padded hd hq]
    exact hd
  rw [List.cons_append, fractionPart]
  simp [takeWhile_append_of_head hdigit hr, dropWhile_append_of_head hdigit hr, hne]

lemma fractionPart_of_ne {r : List Char} (hr : ∀ c ∈ r.head?, c ≠ '.') :
    fractionPart r = ([], r) := by
  cases r with
  | nil => rfl
  | cons c r => simp [fractionPart, hr c rfl]

lemma ne_of_isDigit {c d : Char} (hc : c.isDigit = true) (hd : d.isDigit = false) : c ≠ d := by
  rintro rfl
  rw [hc] at hd
  cases hd

/-- A signed number begins with its sign or with a digit. -/
lemma signedDigits_signed (e : ℤ) {r : List Char} (hr : NoDigit r) :
    signedDigits (signed e ++ r) = some (e, r) := by
  have hdigit : ∀ a ∈ decimal e.natAbs, a.isDigit = true := fun a ha => isDigit_of_mem_decimal ha
  have hdigits := takeWhile_append_of_head hdigit hr
  have hrest := dropWhile_append_of_head hdigit hr
  rw [signed]
  split_ifs with hneg
  · simp [signedDigits, hdigits, hrest, decimal_ne_nil, abs_of_neg hneg]
  · have habs : |e| = e := abs_of_nonneg (not_lt.mp hneg)
    cases hn : decimal e.natAbs with
    | nil => exact absurd hn (decimal_ne_nil _)
    | cons c s =>
      have hc : c.isDigit = true := hdigit c (hn ▸ List.mem_cons_self)
      rw [hn] at hdigits hrest
      rw [List.cons_append] at hdigits hrest ⊢
      have hvalue : ofDecimal (c :: s) = e.natAbs := by rw [← hn, ofDecimal_decimal]
      simp [signedDigits, ne_of_isDigit hc (d := '-') rfl, ne_of_isDigit hc (d := '+') rfl, hdigits,
        hrest, hvalue, habs]

lemma exponentPart_signed (e : ℤ) {r : List Char} (hr : NoDigit r) :
    exponentPart ('e' :: signed e ++ r) = (some e, r) := by
  simp [exponentPart, signedDigits_signed e hr]

lemma exponentPart_of_ne {r : List Char} (hr : ∀ c ∈ r.head?, c ≠ 'e' ∧ c ≠ 'E') :
    exponentPart r = (none, r) := by
  cases r with
  | nil => rfl
  | cons c r => simp [exponentPart, hr c rfl]

/-- The exponent of a number, written out, and what follows it. -/
lemma exponentPart_render (e : Option ℤ) {r : List Char} (hr : Delimited r) :
    exponentPart ((e.elim [] fun e => 'e' :: signed e) ++ r) = (e, r) ∧
      NoDigit ((e.elim [] fun e => 'e' :: signed e) ++ r) ∧
      ∀ c ∈ ((e.elim [] fun e => 'e' :: signed e) ++ r).head?, c ≠ '.' := by
  cases e with
  | none =>
    exact ⟨exponentPart_of_ne fun c hc => (hr c hc).2.2, hr.noDigit, fun c hc => (hr c hc).2.1⟩
  | some e =>
    refine ⟨exponentPart_signed e hr.noDigit, noDigit_cons _ rfl, ?_⟩
    simp

lemma unsignedNumber_renderUnsigned (m d : ℕ) (e : Option ℤ) {r : List Char} (hr : Delimited r) :
    unsignedNumber (renderUnsigned m d e ++ r) = some (⟨m, d, e⟩, r) := by
  obtain ⟨hexp, hdigit, hpoint⟩ := exponentPart_render e hr
  rw [unsignedNumber, renderUnsigned, List.append_assoc, List.append_assoc]
  split_ifs with hd
  · rw [List.nil_append, integerPart_decimal _ hdigit]
    simp [fractionPart_of_ne hpoint, hexp, hd]
  · have hpos : 0 < d := Nat.pos_of_ne_zero hd
    have hlt : m % 10 ^ d < 10 ^ d := Nat.mod_lt _ (by positivity)
    have hfraction := fractionPart_padded hpos hlt hdigit
    rw [List.cons_append] at hfraction ⊢
    rw [integerPart_decimal _ (noDigit_cons _ rfl)]
    simp only [Option.map_some, hfraction, hexp, length_padded hpos hlt, ofDecimal_append,
      ofDecimal_decimal, ofDecimal_padded, Nat.div_add_mod]

/-- A number without a sign begins with a digit. -/
lemma renderUnsigned_cons (m d : ℕ) (e : Option ℤ) :
    ∃ c s, renderUnsigned m d e = c :: s ∧ c.isDigit = true := by
  cases hd : decimal (m / 10 ^ d) with
  | nil => exact absurd hd (decimal_ne_nil _)
  | cons c s =>
    have hc : c.isDigit = true := isDigit_of_mem_decimal (hd ▸ List.mem_cons_self)
    rw [renderUnsigned, hd, List.cons_append, List.cons_append]
    exact ⟨c, _, rfl, hc⟩

/-- A number is read back. -/
theorem number_renderNumber (n : JsonNumber) {r : List Char} (hr : Delimited r) :
    number (renderNumber n ++ r) = some (n, r) := by
  have hunsigned := unsignedNumber_renderUnsigned n.mantissa.natAbs n.decimals n.exponent hr
  rw [renderNumber]
  split_ifs with hneg
  · have habs : -(n.mantissa.natAbs : ℤ) = n.mantissa := by omega
    rw [List.append_assoc, List.singleton_append, number, if_pos rfl, hunsigned, Option.map_some]
    simp only [habs]
  · have habs : (n.mantissa.natAbs : ℤ) = n.mantissa := by omega
    obtain ⟨c, s, hs, hc⟩ := renderUnsigned_cons n.mantissa.natAbs n.decimals n.exponent
    rw [hs, List.cons_append] at hunsigned
    rw [List.nil_append, hs, List.cons_append, number, if_neg (ne_of_isDigit hc rfl), hunsigned,
      habs]

/-! ### Reading back a string -/

lemma hexDigit?_digitChar {n : ℕ} (hn : n < 16) : hexDigit? n.digitChar = some n := by
  interval_cases n <;> rfl

/-- A control character is read back from its code. -/
lemma escape_control {c : Char} (hc : c.toNat < 0x20) (s : List Char) :
    escape ('u' :: '0' :: '0' :: (c.toNat / 16).digitChar :: (c.toNat % 16).digitChar :: s)
      = some (c, s) := by
  have hzero : hexDigit? '0' = some 0 := rfl
  have hhigh := hexDigit?_digitChar (show c.toNat / 16 < 16 by omega)
  have hlow := hexDigit?_digitChar (Nat.mod_lt c.toNat (show 0 < 16 by decide))
  have hcode : (((0 * 16 + 0) * 16 + c.toNat / 16) * 16 + c.toNat % 16) = c.toNat := by omega
  have hbasic : ¬ (0xd800 ≤ c.toNat ∧ c.toNat < 0xdc00) := by omega
  have hbasic' : ¬ (0xdc00 ≤ c.toNat ∧ c.toNat < 0xe000) := by omega
  rw [escape, if_pos rfl, unicodeEscape, codeUnit, hzero, hhigh, hlow]
  simp only [Option.bind_eq_bind, Option.bind_some, hcode, hbasic, hbasic', ↓reduceIte,
    Char.ofNat_toNat]

/-- One character of a string is read back. -/
lemma stringBody_escaped (fuel : ℕ) (c : Char) (s : List Char) :
    stringBody (fuel + 1) (escaped c ++ s)
      = (stringBody fuel s).map fun (t, s) => (c :: t, s) := by
  rw [escaped]
  split_ifs with hquote hcontrol
  · have hescape : escape (c :: s) = some (c, s) := by
      have hu : c ≠ 'u' := by
        rintro rfl
        revert hquote
        decide
      rw [escape, if_neg hu, if_pos]
      rcases hquote with rfl | rfl <;> decide
    simp [stringBody, hescape]
  · simp [stringBody, escape_control hcontrol]
  · simp only [not_or] at hquote
    simp [stringBody, hquote.1, hquote.2, hcontrol]

lemma stringBody_quote {s : List Char} {fuel : ℕ} (hfuel : s.length < fuel) (r : List Char) :
    stringBody fuel (s.flatMap escaped ++ '\x22' :: r) = some (s, r) := by
  induction s generalizing fuel with
  | nil =>
    cases fuel with
    | zero => exact absurd hfuel (Nat.not_lt_zero _)
    | succ fuel => simp [stringBody]
  | cons c s ih =>
    cases fuel with
    | zero => exact absurd hfuel (Nat.not_lt_zero _)
    | succ fuel =>
      rw [List.length_cons, Nat.add_lt_add_iff_right] at hfuel
      rw [List.flatMap_cons, List.append_assoc, stringBody_escaped, ih hfuel, Option.map_some]

lemma length_le_flatMap_escaped (s : List Char) : s.length ≤ (s.flatMap escaped).length := by
  induction s with
  | nil => rfl
  | cons c s ih =>
    have hc : 1 ≤ (escaped c).length := by
      rw [escaped]
      split_ifs <;> simp
    rw [List.length_cons, List.flatMap_cons, List.length_append]
    omega

/-- A string is read back after its opening quote. -/
lemma stringBody_of_quote (s r : List Char) :
    stringBody ((s.flatMap escaped ++ '\x22' :: r).length + 1) (s.flatMap escaped ++ '\x22' :: r)
      = some (s, r) := by
  have := length_le_flatMap_escaped s
  apply stringBody_quote
  rw [List.length_append]
  omega

/-! ### Reading back a value -/

@[simp] lemma skipSpace_space (s : List Char) : skipSpace (' ' :: s) = skipSpace s := rfl

lemma value_space (fuel : ℕ) (s : List Char) : value fuel (' ' :: s) = value fuel s := by
  cases fuel with
  | zero => rfl
  | succ fuel => rw [value, value, skipSpace_space]

lemma member_space (fuel : ℕ) (s : List Char) : member fuel (' ' :: s) = member fuel s := by
  cases fuel with
  | zero => rfl
  | succ fuel => rw [member, member, skipSpace_space]

/-- No space, and none of the brackets that close an empty array or object. -/
def IsStart (c : Char) : Prop := isSpace c = false ∧ c ≠ ']' ∧ c ≠ '\x7d'

instance : DecidablePred IsStart := fun _ => inferInstanceAs (Decidable (_ ∧ _ ∧ _))

lemma isStart_of_isDigit {c : Char} (hc : c.isDigit = true) : IsStart c := by
  refine ⟨?_, ne_of_isDigit hc rfl, ne_of_isDigit hc rfl⟩
  simp [isSpace, ne_of_isDigit hc (d := ' ') rfl, ne_of_isDigit hc (d := '\t') rfl,
    ne_of_isDigit hc (d := '\n') rfl, ne_of_isDigit hc (d := '\r') rfl]

/-- A number begins with its sign or a digit. -/
lemma renderNumber_cons (n : JsonNumber) :
    ∃ c s, renderNumber n = c :: s ∧ (c = '-' ∨ c.isDigit = true) := by
  rw [renderNumber]
  split_ifs
  · exact ⟨'-', _, rfl, Or.inl rfl⟩
  · obtain ⟨c, s, hs, hc⟩ := renderUnsigned_cons n.mantissa.natAbs n.decimals n.exponent
    exact ⟨c, s, hs, Or.inr hc⟩

/-- The text of a value begins with a character of the value. -/
lemma render_cons (j : Json) : ∃ c s, render j = c :: s ∧ IsStart c := by
  cases j with
  | null => exact ⟨_, _, rfl, by decide⟩
  | bool b => cases b <;> exact ⟨_, _, rfl, by decide⟩
  | num n =>
    obtain ⟨c, s, hs, hc⟩ := renderNumber_cons n
    refine ⟨c, s, hs, ?_⟩
    rcases hc with rfl | hc
    · decide
    · exact isStart_of_isDigit hc
  | str s => exact ⟨'\x22', _, rfl, by decide⟩
  | arr xs => cases xs <;> exact ⟨'[', _, rfl, by decide⟩
  | obj ms => cases ms <;> exact ⟨'\x7b', _, rfl, by decide⟩

/-- No character begins a value of two kinds. -/
lemma value_num (fuel : ℕ) (n : JsonNumber) {r : List Char} (hr : Delimited r) :
    value (fuel + 1) (renderNumber n ++ r) = some (.num n, r) := by
  have hnumber := number_renderNumber n hr
  obtain ⟨c, s, hs, hc⟩ := renderNumber_cons n
  have hskip : skipSpace (c :: (s ++ r)) = c :: (s ++ r) := by
    have hstart : IsStart c := by
      rcases hc with rfl | hc
      · decide
      · exact isStart_of_isDigit hc
    simp [skipSpace, hstart.1]
  have hne : ∀ d : Char, d ≠ '-' → d.isDigit = false → c ≠ d := by
    intro d hd hdigit
    rcases hc with rfl | hc
    · exact hd.symm
    · exact ne_of_isDigit hc hdigit
  rw [hs, List.cons_append] at hnumber ⊢
  rw [value, hskip]
  simp only [hne '\x22' (by decide) rfl, hne '[' (by decide) rfl, hne '\x7b' (by decide) rfl,
    hne 'n' (by decide) rfl, hne 't' (by decide) rfl, hne 'f' (by decide) rfl, ↓reduceIte, hnumber,
    Option.map_some]

lemma skipSpace_render (j : Json) (r : List Char) :
    skipSpace (render j ++ r) = render j ++ r := by
  obtain ⟨c, s, hs, hstart, -⟩ := render_cons j
  simp [hs, skipSpace, hstart]

lemma length_render_pos (j : Json) : 0 < (render j).length := by
  obtain ⟨c, s, hs, -⟩ := render_cons j
  simp [hs]

/-- A member is read back if its value is. -/
lemma member_of_value {fuel : ℕ} {v : Json} {r : List Char}
    (hv : value fuel (render v ++ r) = some (v, r)) (k : List Char) :
    member (fuel + 1) (quote k ++ ": ".toList ++ render v ++ r) = some ((k, v), r) := by
  have hbody := stringBody_of_quote k (": ".toList ++ render v ++ r)
  have htext : quote k ++ ": ".toList ++ render v ++ r
      = '\x22' :: (k.flatMap escaped ++ '\x22' :: (": ".toList ++ render v ++ r)) := by
    simp [quote]
  have hskip (s : List Char) : skipSpace ('\x22' :: s) = '\x22' :: s := rfl
  have hcolon : skipSpace (": ".toList ++ render v ++ r) = ':' :: ' ' :: (render v ++ r) := rfl
  rw [htext, member, hskip]
  simp only [↓reduceIte, hbody, Option.bind_some, hcolon, value_space, hv, Option.map_some]

lemma delimited_renderTail (xs : List Json) (r : List Char) :
    Delimited (renderTail xs ++ ']' :: r) := by
  cases xs <;> exact delimited_cons _ (by decide)

lemma delimited_renderMembers (ms : List (List Char × Json)) (r : List Char) :
    Delimited (renderMembers ms ++ '\x7d' :: r) := by
  rcases ms with _ | ⟨⟨k, v⟩, ms⟩ <;> exact delimited_cons _ (by decide)

mutual

/-- A value is read back. -/
theorem value_render (j : Json) {fuel : ℕ} {r : List Char} (hfuel : (render j).length ≤ fuel)
    (hr : Delimited r) : value fuel (render j ++ r) = some (j, r) := by
  obtain ⟨fuel, rfl⟩ : ∃ f, fuel = f + 1 :=
    Nat.exists_eq_succ_of_ne_zero (Nat.ne_of_gt (Nat.lt_of_lt_of_le (length_render_pos j) hfuel))
  match j with
  | .null => rfl
  | .bool true => rfl
  | .bool false => rfl
  | .num n => exact value_num fuel n hr
  | .str s =>
    have hbody := stringBody_of_quote s r
    have hskip (t : List Char) : skipSpace ('\x22' :: t) = '\x22' :: t := rfl
    have htext : render (.str s) ++ r = '\x22' :: (s.flatMap escaped ++ '\x22' :: r) := by
      simp [render, quote]
    rw [htext, value, hskip]
    simp only [↓reduceIte, hbody, Option.map_some]
  | .arr [] => rfl
  | .arr (x :: xs) =>
    have hlen : (render x).length ≤ fuel ∧ (renderTail xs).length < fuel := by
      simp only [render, List.length_append, List.length_cons, List.length_nil] at hfuel
      omega
    have hx := value_render x hlen.1 (delimited_renderTail xs r)
    have hxs := elements_renderTail xs (r := r) hlen.2
    obtain ⟨c, s, hs, -, hbracket, -⟩ := render_cons x
    have hopen (t : List Char) : skipSpace ('[' :: t) = '[' :: t := rfl
    have hskip := skipSpace_render x (renderTail xs ++ ']' :: r)
    have htext : render (.arr (x :: xs)) ++ r
        = '[' :: (render x ++ (renderTail xs ++ ']' :: r)) := by
      simp [render]
    rw [hs, List.cons_append] at hx hskip htext
    rw [htext, value, hopen]
    simp [hskip, hbracket, hx, hxs]
  | .obj [] => rfl
  | .obj ((k, v) :: ms) =>
    have hlen : (render v).length + 1 ≤ fuel ∧ (renderMembers ms).length < fuel := by
      simp only [render, quote, List.length_append, List.length_cons, List.length_nil] at hfuel
      omega
    obtain ⟨fuel, rfl⟩ : ∃ f, fuel = f + 1 := Nat.exists_eq_succ_of_ne_zero (by omega)
    have hv := value_render v (Nat.le_of_succ_le_succ hlen.1) (delimited_renderMembers ms r)
    have hms := members_renderMembers ms (r := r) hlen.2
    have hmember := member_of_value hv k
    have hopen (t : List Char) : skipSpace ('\x7b' :: t) = '\x7b' :: t := rfl
    have hskip (t : List Char) : skipSpace ('\x22' :: t) = '\x22' :: t := rfl
    have htext : render (.obj ((k, v) :: ms)) ++ r
        = '\x7b' :: (quote k ++ ": ".toList ++ render v ++ (renderMembers ms ++ '\x7d' :: r)) := by
      simp [render]
    obtain ⟨t, ht⟩ : ∃ t, quote k ++ ": ".toList ++ render v ++ (renderMembers ms ++ '\x7d' :: r)
        = '\x22' :: t := ⟨_, rfl⟩
    rw [ht] at htext hmember
    rw [htext, value, hopen]
    simp [hskip, hmember, hms]

/-- The elements of an array are read back. -/
theorem elements_renderTail (xs : List Json) {fuel : ℕ} {r : List Char}
    (hfuel : (renderTail xs).length < fuel) :
    elements fuel (renderTail xs ++ ']' :: r) = some (xs, r) := by
  obtain ⟨fuel, rfl⟩ : ∃ f, fuel = f + 1 :=
    Nat.exists_eq_succ_of_ne_zero (Nat.ne_of_gt (Nat.lt_of_le_of_lt (Nat.zero_le _) hfuel))
  match xs with
  | [] => rfl
  | x :: xs =>
    have hlen : (render x).length ≤ fuel ∧ (renderTail xs).length < fuel := by
      have hcomma : ", ".toList.length = 2 := rfl
      simp only [renderTail, List.length_append, hcomma] at hfuel
      omega
    have hx := value_render x hlen.1 (delimited_renderTail xs r)
    have hxs := elements_renderTail xs (r := r) hlen.2
    have hskip (t : List Char) : skipSpace (',' :: t) = ',' :: t := rfl
    have htext : renderTail (x :: xs) ++ ']' :: r
        = ',' :: ' ' :: (render x ++ (renderTail xs ++ ']' :: r)) := by
      simp [renderTail]
    rw [htext, elements, hskip]
    simp [value_space, hx, hxs]

/-- The members of an object are read back. -/
theorem members_renderMembers (ms : List (List Char × Json)) {fuel : ℕ} {r : List Char}
    (hfuel : (renderMembers ms).length < fuel) :
    members fuel (renderMembers ms ++ '\x7d' :: r) = some (ms, r) := by
  obtain ⟨fuel, rfl⟩ : ∃ f, fuel = f + 1 :=
    Nat.exists_eq_succ_of_ne_zero (Nat.ne_of_gt (Nat.lt_of_le_of_lt (Nat.zero_le _) hfuel))
  match ms with
  | [] => rfl
  | (k, v) :: ms =>
    have hlen : (render v).length + 1 ≤ fuel ∧ (renderMembers ms).length < fuel := by
      simp only [renderMembers, quote, List.length_append, List.length_cons] at hfuel
      omega
    obtain ⟨fuel, rfl⟩ : ∃ f, fuel = f + 1 := Nat.exists_eq_succ_of_ne_zero (by omega)
    have hv := value_render v (Nat.le_of_succ_le_succ hlen.1) (delimited_renderMembers ms r)
    have hms := members_renderMembers ms (r := r) hlen.2
    have hskip (t : List Char) : skipSpace (',' :: t) = ',' :: t := rfl
    have htext : renderMembers ((k, v) :: ms) ++ '\x7d' :: r
        = ',' :: ' ' :: (quote k ++ ": ".toList ++ render v
          ++ (renderMembers ms ++ '\x7d' :: r)) := by
      simp [renderMembers]
    rw [htext, members, hskip]
    simp only [Char.reduceEq, ↓reduceIte, member_space, member_of_value hv k, Option.bind_some, hms,
      Option.map_some]

end

/-- **Round trip.** Whatever is written is read back, also with white space after it. -/
theorem parse_render (j : Json) {r : List Char} (hr : skipSpace r = []) (hd : Delimited r) :
    parse (render j ++ r) = some j := by
  have hfuel : (render j).length ≤ (render j ++ r).length := by
    rw [List.length_append]
    omega
  rw [parse, value_render j hfuel hd]
  simp only [hr, ↓reduceIte]

lemma parse_render_self (j : Json) : parse (render j) = some j := by
  have h := parse_render j (r := []) rfl (by simp [Delimited])
  rwa [List.append_nil] at h

/-- A value on a line of its own is read back. -/
theorem parse_render_newline (j : Json) : parse (render j ++ "\n".toList) = some j :=
  parse_render j rfl (delimited_cons _ (by decide))

/-! ### Text that needs no escapes -/

/-- The text stands in quotes as it is. -/
def Plain (s : List Char) : Prop := ∀ c ∈ s, c ≠ '\x22' ∧ c ≠ '\x5c' ∧ 0x20 ≤ c.toNat

instance (s : List Char) : Decidable (Plain s) := List.decidableBAll _ s

lemma plain_append {s t : List Char} : Plain (s ++ t) ↔ Plain s ∧ Plain t := List.forall_mem_append

lemma plain_of_isDigit {s : List Char} (hs : ∀ c ∈ s, c.isDigit = true) : Plain s := by
  intro c hc
  refine ⟨ne_of_isDigit (hs c hc) rfl, ne_of_isDigit (hs c hc) rfl, ?_⟩
  have hdigit := hs c hc
  rw [Char.isDigit, Bool.and_eq_true, decide_eq_true_eq, decide_eq_true_eq] at hdigit
  have hle : 48 ≤ c.toNat := hdigit.1
  omega

lemma plain_decimal (n : ℕ) : Plain (decimal n) :=
  plain_of_isDigit fun _ hc => isDigit_of_mem_decimal hc

lemma plain_hexadecimal (n : ℕ) : Plain (hexadecimal n) := by
  intro c hc
  obtain ⟨d, hd, rfl⟩ := mem_hexadecimal hc
  interval_cases d <;> decide

lemma quote_of_plain {s : List Char} (hs : Plain s) : quote s = '\x22' :: s ++ ['\x22'] := by
  have hflat : s.flatMap escaped = s := by
    induction s with
    | nil => rfl
    | cons c s ih =>
      obtain ⟨hquote, hback, hcontrol⟩ := hs c List.mem_cons_self
      have hescaped : escaped c = [c] := by
        simp [escaped, hquote, hback, Nat.not_lt.mpr hcontrol]
      rw [List.flatMap_cons, hescaped, ih fun c hc => hs c (List.mem_cons_of_mem _ hc)]
      rfl
  rw [quote, hflat]

/-! ### The text is one line -/

/-- No control character. -/
def Printable (s : List Char) : Prop := ∀ c ∈ s, 0x20 ≤ c.toNat

instance (s : List Char) : Decidable (Printable s) := List.decidableBAll _ s

@[simp] lemma printable_append {s t : List Char} :
    Printable (s ++ t) ↔ Printable s ∧ Printable t := List.forall_mem_append

@[simp] lemma printable_cons {c : Char} {s : List Char} :
    Printable (c :: s) ↔ 0x20 ≤ c.toNat ∧ Printable s := List.forall_mem_cons

@[simp] lemma printable_nil : Printable [] := by simp [Printable]

lemma Plain.printable {s : List Char} (hs : Plain s) : Printable s := fun c hc => (hs c hc).2.2

lemma printable_signed (i : ℤ) : Printable (signed i) := by
  have hdigits := (plain_decimal i.natAbs).printable
  rw [signed]
  split_ifs
  · exact printable_cons.mpr ⟨by decide, hdigits⟩
  · exact hdigits

lemma printable_renderNumber (n : JsonNumber) : Printable (renderNumber n) := by
  have hpadded (w m : ℕ) : Printable (padded w m) :=
    (plain_of_isDigit fun _ hc => isDigit_of_mem_padded hc).printable
  rw [renderNumber, renderUnsigned]
  simp only [printable_append]
  refine ⟨?_, ⟨(plain_decimal _).printable, ?_⟩, ?_⟩
  · split_ifs <;> decide
  · split_ifs
    · decide
    · exact printable_cons.mpr ⟨by decide, hpadded _ _⟩
  · cases n.exponent with
    | none => exact printable_nil
    | some e => exact printable_cons.mpr ⟨by decide, printable_signed e⟩

lemma printable_quote (s : List Char) : Printable (quote s) := by
  have hescaped (c : Char) : Printable (escaped c) := by
    rw [escaped]
    split_ifs with hquote hcontrol
    · rcases hquote with rfl | rfl <;> decide
    · have hdigit (d : ℕ) (hd : d < 16) : 0x20 ≤ d.digitChar.toNat := by
        interval_cases d <;> decide
      simp [hdigit (c.toNat / 16) (by omega), hdigit (c.toNat % 16) (Nat.mod_lt _ (by decide))]
    · simpa using hcontrol
  have hflat : Printable (s.flatMap escaped) := by
    intro c hc
    obtain ⟨d, -, hd⟩ := List.mem_flatMap.mp hc
    exact hescaped d c hd
  simp [quote, hflat]

mutual

/-- Whatever a value holds, its text has no control character. -/
theorem printable_render (j : Json) : Printable (render j) := by
  match j with
  | .null => decide
  | .bool true => decide
  | .bool false => decide
  | .num n => exact printable_renderNumber n
  | .str s => exact printable_quote s
  | .arr [] => decide
  | .arr (x :: xs) => simp [render, printable_render x, printable_renderTail xs]
  | .obj [] => decide
  | .obj ((k, v) :: ms) =>
    simp [render, printable_quote, printable_render v, printable_renderMembers ms]

theorem printable_renderTail (xs : List Json) : Printable (renderTail xs) := by
  match xs with
  | [] => exact printable_nil
  | x :: xs => simp [renderTail, printable_render x, printable_renderTail xs]

theorem printable_renderMembers (ms : List (List Char × Json)) : Printable (renderMembers ms) := by
  match ms with
  | [] => exact printable_nil
  | (k, v) :: ms =>
    simp [renderMembers, printable_quote, printable_render v, printable_renderMembers ms]

end

lemma newline_not_mem_render (j : Json) : '\n' ∉ render j := by
  intro hmem
  exact absurd (printable_render j _ hmem) (by decide)

end Json

end SyscallMonitor.Lib
