import SyscallMonitor.Lib.Regex
import SyscallMonitor.Lib.Text
import SyscallMonitor.Log.Tail

/-!
# The ground truth of the in-guest strace

`parse_strace_log` of `validate_strace.py` on a console log with noise in it. A line yields the
first identifier that is directly followed by a `(`, if `)` and `=` come behind it. Noise that
`str.isprintable` strips changes nothing; a printable character that is not ASCII stays, and can
break the name, come between it and its `(`, or between `)` and `=`.
-/

namespace SyscallMonitor

open Lib

/-! ### `parse_strace_log` -/

/-- `[a-zA-Z_]` -/
def identStart (c : Char) : Bool :=
  ('a' ≤ c && c ≤ 'z') || ('A' ≤ c && c ≤ 'Z') || c = '_'

/-- `[a-zA-Z0-9_]` -/
def identPart (c : Char) : Bool := identStart c || ('0' ≤ c && c ≤ '9')

/-- `STRACE_LINE_RE`: `([a-zA-Z_][a-zA-Z0-9_]*)\(.*\)\s*=` -/
def straceLineRe : List (Regex.Atom Char) :=
  [.one identStart, .many identPart, .one (· = '('), .many (· ≠ '\n'), .one (· = ')'),
    .many isspace, .one (· = '=')]

/-- `for line in f`, where `f` is in text mode: the lines that `readline` reads until it reads
nothing. -/
def fileLines : List Char → List (List Char)
  | [] => []
  | '\r' :: '\n' :: s => ['\n'] :: fileLines s
  | c :: s =>
    if c = '\n' ∨ c = '\r' then ['\n'] :: fileLines s
    else
      match fileLines s with
      | [] => [[c]]
      | l :: ls => (c :: l) :: ls

/-- `m.group(1)` where `m` is a match of `STRACE_LINE_RE`. -/
def group1 (m : List (List Char) × List Char) : List Char := (m.1.take 2).flatten

/-- The body of the loop. -/
def parseStraceLine (u : UnicodeData) (line : List Char) : Option (List Char) :=
  let clean := line.filter u.isprintable
  (Regex.search straceLineRe clean).map group1

/-- `parse_strace_log` on what the file holds once it is decoded. -/
def parseStraceLog (u : UnicodeData) (text : List Char) : List (List Char) :=
  (fileLines text).filterMap (parseStraceLine u)

/-- The file is iterated over by reading line after line. -/
theorem fileLines_eq_readline (s : List Char) (hs : s ≠ []) :
    fileLines s = (readline s).1 :: fileLines (s.drop (readline s).2) := by
  induction s using fileLines.induct with
  | case1 => exact absurd rfl hs
  | case2 s _ => simp [fileLines, readline]
  | case3 c s hcrlf hc _ =>
    have hfile : fileLines (c :: s) = ['\n'] :: fileLines s := by
      rw [fileLines.eq_3 c s hcrlf, if_pos hc]
    obtain rfl | rfl := hc
    · simp [hfile, readline]
    · have hhead : s.head? ≠ some '\n' := by
        intro h
        obtain ⟨s', rfl⟩ := List.head?_eq_some_iff.mp h
        exact hcrlf s' rfl rfl
      simp [hfile, readline, hhead]
  | case4 c s hcrlf hc hnil ih =>
    have hs' : s = [] := by
      by_contra hne
      simp [ih hne] at hnil
    rw [not_or] at hc
    simp [hs', fileLines, readline, hc.1, hc.2]
  | case5 c s hcrlf hc l ls hls ih =>
    have hs' : s ≠ [] := by
      rintro rfl
      cases hls
    rw [fileLines.eq_3 c s hcrlf, if_neg hc, ih hs']
    rw [not_or] at hc
    simp [readline, hc.1, hc.2]

/-- Text that has no line end in it. -/
def Unbroken (s : List Char) : Prop := '\n' ∉ s ∧ '\r' ∉ s

instance (s : List Char) : Decidable (Unbroken s) :=
  inferInstanceAs (Decidable ('\n' ∉ s ∧ '\r' ∉ s))

lemma readline_append {body : List Char} (hbody : Unbroken body) (s : List Char) :
    readline (body ++ s) = (body ++ (readline s).1, body.length + (readline s).2) := by
  induction body with
  | nil => simp
  | cons c body ih =>
    simp only [Unbroken, List.mem_cons, not_or] at hbody
    obtain ⟨⟨hn, hbn⟩, hr, hbr⟩ := hbody
    rw [List.cons_append, readline, if_neg (Ne.symm hn), if_neg (Ne.symm hr), ih ⟨hbn, hbr⟩]
    simp [Nat.add_right_comm]

variable (u : UnicodeData)

lemma isprintable_newline : u.isprintable '\n' = false := u.ascii '\n' (by decide)

lemma parseStraceLine_newline (body : List Char) :
    parseStraceLine u (body ++ ['\n']) = parseStraceLine u body := by
  simp [parseStraceLine, isprintable_newline]

lemma parseStraceLog_eq_readline (s : List Char) (hs : s ≠ []) :
    parseStraceLog u s
      = (parseStraceLine u (readline s).1).toList ++ parseStraceLog u (s.drop (readline s).2) := by
  rw [parseStraceLog, fileLines_eq_readline s hs, List.filterMap_cons]
  cases parseStraceLine u (readline s).1 <;> rfl

/-- An empty line yields nothing. -/
lemma parseStraceLog_newline (s : List Char) :
    parseStraceLog u ('\n' :: s) = parseStraceLog u s := by
  have hempty : parseStraceLine u ['\n'] = none := parseStraceLine_newline u []
  rw [parseStraceLog_eq_readline u _ (List.cons_ne_nil _ _)]
  simp [readline, hempty]

/-- The three line ends of text mode. -/
inductive Eol where
  | lf
  | cr
  | crlf

def Eol.text : Eol → List Char
  | .lf   => ['\n']
  | .cr   => ['\r']
  | .crlf => ['\r', '\n']

lemma parseStraceLog_append {body : List Char} (hbody : Unbroken body) (eol : Eol)
    (s : List Char) :
    parseStraceLog u (body ++ eol.text ++ s)
      = (parseStraceLine u body).toList ++ parseStraceLog u s := by
  have hne : body ++ eol.text ++ s ≠ [] := by cases eol <;> simp [Eol.text]
  rw [parseStraceLog_eq_readline u _ hne, List.append_assoc, readline_append hbody]
  cases eol with
  | lf => simp [Eol.text, readline, parseStraceLine_newline]
  | crlf => simp [Eol.text, readline, parseStraceLine_newline]
  | cr =>
    -- a `"\n"` that comes next belongs to this line end
    by_cases hs : s.head? = some '\n'
    · obtain ⟨s', rfl⟩ := List.head?_eq_some_iff.mp hs
      simp [Eol.text, readline, parseStraceLine_newline, parseStraceLog_newline]
    · simp [Eol.text, readline, parseStraceLine_newline, hs]

/-- The last line, which has no line end. -/
lemma parseStraceLog_last {body : List Char} (hbody : Unbroken body) :
    parseStraceLog u body = (parseStraceLine u body).toList := by
  by_cases hne : body = []
  · rw [hne]
    rfl
  · have hread := readline_append hbody []
    rw [List.append_nil] at hread
    rw [parseStraceLog_eq_readline u body hne, hread]
    simp [readline, parseStraceLog, fileLines]

/-! ### What a line yields -/

/-- A C identifier. -/
def IsIdentifier : List Char → Prop
  | [] => False
  | c :: s => identStart c ∧ ∀ d ∈ s, identPart d

instance : ∀ n, Decidable (IsIdentifier n)
  | [] => isFalse id
  | c :: s =>
    have := List.decidableBAll (fun d => identPart d = true) s
    inferInstanceAs (Decidable (identStart c ∧ ∀ d ∈ s, identPart d))

/-- A `)` with only white space between it and a `=`. -/
def Closes (s : List Char) : Prop :=
  ∃ args gap ret, s = args ++ ')' :: (gap ++ '=' :: ret) ∧ ∀ c ∈ gap, isspace c

/-- The first identifier in a text that is directly followed by `(`, and what is behind that. -/
inductive FirstCall : List Char → List Char → List Char → Prop
  | here {s name after : List Char} (hname : IsIdentifier name) (hs : s = name ++ '(' :: after) :
    FirstCall s name after
  | later {c : Char} {s name after : List Char}
    (hc : ∀ n a, IsIdentifier n → c :: s ≠ n ++ '(' :: a) (h : FirstCall s name after) :
    FirstCall (c :: s) name after

lemma IsIdentifier.identPart {n : List Char} (hn : IsIdentifier n) : ∀ c ∈ n, identPart c := by
  cases n with
  | nil => exact hn.elim
  | cons d s =>
    rw [List.forall_mem_cons]
    refine ⟨?_, hn.2⟩
    rw [SyscallMonitor.identPart, hn.1, Bool.true_or]

lemma IsIdentifier.notMem {n : List Char} (hn : IsIdentifier n) : '(' ∉ n :=
  fun hmem => absurd (hn.identPart _ hmem) (by decide)

/-- What is behind an earlier `b` ends with what is behind a later one. -/
lemma suffix_of_cons_suffix_append {b : Char} {n a a' : List Char} (hn : b ∉ n)
    (h : b :: a' <:+ n ++ b :: a) : a' <:+ a := by
  induction n with
  | nil =>
    obtain heq | h := List.suffix_cons_iff.mp h
    · rw [(List.cons.inj heq).2]
    · exact (List.suffix_cons b a').trans h
  | cons c n ih =>
    rw [List.mem_cons, not_or] at hn
    obtain heq | h := List.suffix_cons_iff.mp h
    · exact absurd (List.cons.inj heq).1 hn.1
    · exact ih hn.2 h

lemma append_cons_inj {b : Char} {n n' a a' : List Char} (hn : b ∉ n) (hn' : b ∉ n')
    (h : n ++ b :: a = n' ++ b :: a') : n = n' ∧ a = a' := by
  have hcut : ∀ s : List Char, b ∉ s → ∀ c ∈ s, (c != b) = true := by
    intro s hs c hc
    rw [bne_iff_ne]
    rintro rfl
    exact hs hc
  have hb : (b != b) = false := by simp
  obtain ⟨hname, -, hafter⟩ := Regex.append_cons_inj (hcut n hn) (hcut n' hn') hb hb h
  exact ⟨hname, hafter⟩

lemma Closes.of_suffix {a a' : List Char} (h : Closes a') (hsuf : a' <:+ a) : Closes a := by
  obtain ⟨args, gap, ret, rfl, hgap⟩ := h
  obtain ⟨front, rfl⟩ := hsuf
  exact ⟨front ++ args, gap, ret, (List.append_assoc ..).symm, hgap⟩

lemma FirstCall.suffix {s name after : List Char} (h : FirstCall s name after) :
    '(' :: after <:+ s := by
  induction h with
  | here _ hs => exact ⟨_, hs.symm⟩
  | later _ _ ih => exact ih.trans (List.suffix_cons _ _)

lemma matchAt_eq_some {s : List Char} {m : List (List Char) × List Char}
    (h : Regex.matchAt straceLineRe s = some m) :
    ∃ after, IsIdentifier (group1 m) ∧ s = group1 m ++ '(' :: after ∧ Closes after := by
  obtain ⟨groups, rest⟩ := m
  obtain ⟨rfl, hfits⟩ := Regex.matchAt_eq_some h
  simp only [straceLineRe, Regex.fits_one_cons, Regex.fits_many_cons, List.forall₂_nil_left_iff,
    decide_eq_true_eq] at hfits
  obtain ⟨c, _, rfl, hc, run, _, rfl, hrun, _, _, rfl, rfl, args, _, rfl, -, _, _, rfl, rfl,
    gap, _, rfl, hgap, _, _, rfl, rfl, rfl⟩ := hfits
  refine ⟨args ++ ')' :: (gap ++ '=' :: rest), ?_, ?_, args, gap, rest, rfl, hgap⟩
  · have hgroup : group1 ([[c], run, ['('], args, [')'], gap, ['=']], rest) = c :: run := by
      simp [group1]
    rw [hgroup]
    exact ⟨hc, hrun⟩
  · simp [group1]

lemma isSome_matchAt {name after : List Char} (hname : IsIdentifier name) (hafter : Closes after)
    (hline : '\n' ∉ after) : (Regex.matchAt straceLineRe (name ++ '(' :: after)).isSome := by
  obtain ⟨args, gap, ret, rfl, hgap⟩ := hafter
  cases name with
  | nil => exact hname.elim
  | cons c run =>
    have hargs : ∀ d ∈ args, d ≠ '\n' := by
      rintro d hd rfl
      exact hline (List.mem_append_left _ hd)
    have hfits : List.Forall₂ Regex.Atom.Fits straceLineRe
        [[c], run, ['('], args, [')'], gap, ['=']] := by
      simpa [straceLineRe, Regex.Atom.Fits] using ⟨hname.1, hname.2, hargs, hgap⟩
    simpa using Regex.isSome_matchAt hfits ret

/-- Where nothing matches, no call at the beginning is closed. -/
lemma not_closes_of_matchAt_eq_none {s name after : List Char} (hs : '\n' ∉ s)
    (hm : Regex.matchAt straceLineRe s = none) (hname : IsIdentifier name)
    (heq : s = name ++ '(' :: after) : ¬ Closes after := by
  intro hafter
  have hline : '\n' ∉ after := by
    intro hmem
    exact hs (by simp [heq, hmem])
  have hsome := isSome_matchAt hname hafter hline
  rw [← heq, hm] at hsome
  cases hsome

/-- **A line.** What it yields is the first identifier that is directly followed by `(`, if a `)`
with nothing but white space between it and a `=` comes behind. -/
theorem search_straceLineRe {s n : List Char} (hs : '\n' ∉ s) :
    (Regex.search straceLineRe s).map group1 = some n
      ↔ ∃ after, FirstCall s n after ∧ Closes after := by
  induction s with
  | nil =>
    constructor
    · intro h
      cases h
    · rintro ⟨after, hcall, -⟩
      have hnil := List.suffix_nil.mp hcall.suffix
      cases hnil
  | cons c s ih =>
    have hrest : '\n' ∉ s := fun hmem => hs (List.mem_cons_of_mem c hmem)
    rw [Regex.search]
    cases hm : Regex.matchAt straceLineRe (c :: s) with
    | some m =>
      obtain ⟨after, hname, heq, hafter⟩ := matchAt_eq_some hm
      rw [Option.some_or, Option.map_some, Option.some.injEq]
      constructor
      · rintro rfl
        exact ⟨after, .here hname heq, hafter⟩
      · rintro ⟨after', hcall, -⟩
        cases hcall with
        | here hname' heq' =>
          exact (append_cons_inj hname.notMem hname'.notMem (heq.symm.trans heq')).1
        | later hc _ => exact absurd heq (hc _ _ hname)
    | none =>
      rw [Option.none_or, ih hrest]
      constructor
      · rintro ⟨after, hcall, hafter⟩
        refine ⟨after, .later (fun name after' hname heq => ?_) hcall, hafter⟩
        -- what does not close an earlier call closes no later one
        apply not_closes_of_matchAt_eq_none hs hm hname heq
        apply hafter.of_suffix
        apply suffix_of_cons_suffix_append hname.notMem
        rw [← heq]
        exact hcall.suffix.trans (List.suffix_cons c s)
      · rintro ⟨after, hcall, hafter⟩
        cases hcall with
        | here hname heq =>
          exact absurd hafter (not_closes_of_matchAt_eq_none hs hm hname heq)
        | later _ h => exact ⟨after, h, hafter⟩

/-! ### Noise -/

/-- What is inserted into the lines: characters that are not printable ASCII, and no line ends. -/
def IsNoise (c : Char) : Prop := printableAscii c = false ∧ c ≠ '\n' ∧ c ≠ '\r'

instance (c : Char) : Decidable (IsNoise c) :=
  inferInstanceAs (Decidable (printableAscii c = false ∧ c ≠ '\n' ∧ c ≠ '\r'))

/-- The text on the right is the one on the left with noise inserted anywhere. -/
inductive Noisy : List Char → List Char → Prop
  | nil : Noisy [] []
  | keep (c : Char) {s t : List Char} (h : Noisy s t) : Noisy (c :: s) (c :: t)
  | insert {c : Char} (hc : IsNoise c) {s t : List Char} (h : Noisy s t) : Noisy s (c :: t)

/-- What of a text is printable ASCII. -/
def asciiText (s : List Char) : List Char := s.filter printableAscii

/-- An identifier directly followed by `(`. -/
def HasCall (s : List Char) : Prop :=
  ∃ before name after, IsIdentifier name ∧ s = before ++ (name ++ '(' :: after)

/-- `name(args) = ret` -/
structure StraceLine where
  blanks : List Char
  name : List Char
  args : List Char
  ret : List Char
  blank : ∀ c ∈ blanks, c = ' ' ∨ c = '\t'
  identifier : IsIdentifier name
  printable : ∀ c ∈ args, printableAscii c
  unbroken : Unbroken ret

def StraceLine.text (l : StraceLine) : List Char :=
  l.blanks ++ (l.name ++ '(' :: (l.args ++ ')' :: ' ' :: '=' :: ' ' :: l.ret))

/-- A line of the console log. In a line that is not from strace no identifier is directly followed
by `(`; what is not printable ASCII is noise and does not keep them apart. -/
inductive ConsoleLine where
  | strace (l : StraceLine)
  | other (text : List Char) (unbroken : Unbroken text) (quiet : ¬ HasCall (asciiText text))

namespace ConsoleLine

def text : ConsoleLine → List Char
  | .strace l     => l.text
  | .other text .. => text

def name? : ConsoleLine → Option (List Char)
  | .strace l => some l.name
  | .other .. => none

end ConsoleLine

/-- A line with noise in it. -/
structure LoggedLine where
  line : ConsoleLine
  noisy : List Char
  inserted : Noisy line.text noisy

/-- A console log, clean and with noise in its lines. The last line, which may be empty, has no line
end. -/
structure ConsoleLog where
  lines : List (LoggedLine × Eol)
  last : LoggedLine

namespace ConsoleLog

def all (log : ConsoleLog) : List LoggedLine := log.lines.map Prod.fst ++ [log.last]

def clean (log : ConsoleLog) : List Char :=
  (log.lines.flatMap fun l => l.1.line.text ++ l.2.text) ++ log.last.line.text

def noisy (log : ConsoleLog) : List Char :=
  (log.lines.flatMap fun l => l.1.noisy ++ l.2.text) ++ log.last.noisy

/-- The names of the strace lines. -/
def names (log : ConsoleLog) : List (List Char) := log.all.filterMap (·.line.name?)

end ConsoleLog

/-! ### What noise does to a line -/

/-- The name of the line is whole, and so is its `(`. -/
def NameIntact (s name after : List Char) : Prop :=
  ∃ before, s = before ++ (name ++ '(' :: after) ∧ ∀ c ∈ before, identPart c = false

/-- No identifier is left in front of the `(` of the line, and the first one behind it that is
directly followed by `(` happens to be the name again. -/
def NameAgain (s name after : List Char) : Prop :=
  ∃ before rest, s = before ++ '(' :: rest ∧ '(' ∉ before
    ∧ (∀ front n, IsIdentifier n → before ≠ front ++ n) ∧ FirstCall rest name after

/-- What `str.isprintable` leaves of the line still has the name in front of its `(`, and behind
that a `)` with only white space between it and a `=`. -/
def Legible (u : UnicodeData) (name noisy : List Char) : Prop :=
  ∃ after, (NameIntact (noisy.filter u.isprintable) name after
    ∨ NameAgain (noisy.filter u.isprintable) name after) ∧ Closes after

lemma Noisy.asciiText_eq {s t : List Char} (h : Noisy s t) : asciiText t = asciiText s := by
  induction h with
  | nil => rfl
  | keep c _ ih => simp_all [asciiText, List.filter_cons]
  | insert hc _ ih => simp_all [asciiText, hc.1]

lemma Noisy.unbroken {s t : List Char} (h : Noisy s t) (hs : Unbroken s) : Unbroken t := by
  induction h with
  | nil => exact hs
  | keep c _ ih =>
    simp only [Unbroken, List.mem_cons, not_or] at hs ih ⊢
    have hrest := ih ⟨hs.1.2, hs.2.2⟩
    exact ⟨⟨hs.1.1, hrest.1⟩, hs.2.1, hrest.2⟩
  | insert hc _ ih =>
    simp only [Unbroken, List.mem_cons, not_or] at ih ⊢
    have hrest := ih hs
    exact ⟨⟨hc.2.1.symm, hrest.1⟩, hc.2.2.symm, hrest.2⟩

lemma Noisy.refl (s : List Char) : Noisy s s := by
  induction s with
  | nil => exact .nil
  | cons c s ih => exact .keep c ih

lemma asciiText_filter (s : List Char) : asciiText (s.filter u.isprintable) = asciiText s := by
  rw [asciiText, List.filter_filter]
  apply List.filter_congr
  intro c _
  cases hc : printableAscii c with
  | true => rw [u.isprintable_of_ascii hc, Bool.true_and]
  | false => rw [Bool.false_and]

lemma printableAscii_of_identPart {c : Char} (hc : identPart c) : printableAscii c := by
  simp only [identPart, identStart, Bool.or_eq_true, Bool.and_eq_true, decide_eq_true_eq,
    Char.le_def, UInt32.le_iff_toNat_le] at hc
  simp only [printableAscii, Bool.and_eq_true, decide_eq_true_eq]
  have hdef : c.toNat = c.val.toNat := rfl
  obtain ((⟨h₁, h₂⟩ | ⟨h₁, h₂⟩) | rfl) | ⟨h₁, h₂⟩ := hc
  · have ha : 'a'.val.toNat = 97 ∧ 'z'.val.toNat = 122 := by decide
    omega
  · have ha : 'A'.val.toNat = 65 ∧ 'Z'.val.toNat = 90 := by decide
    omega
  · decide
  · have ha : '0'.val.toNat = 48 ∧ '9'.val.toNat = 57 := by decide
    omega

lemma IsIdentifier.asciiText_eq {n : List Char} (hn : IsIdentifier n) : asciiText n = n :=
  List.filter_eq_self.mpr fun c hc => printableAscii_of_identPart (hn.identPart c hc)

lemma asciiText_call {name : List Char} (hname : IsIdentifier name) (before after : List Char) :
    asciiText (before ++ (name ++ '(' :: after))
      = asciiText before ++ (name ++ '(' :: asciiText after) := by
  have hopen : printableAscii '(' := by decide
  have hself := hname.asciiText_eq
  simp only [asciiText] at hself
  simp [asciiText, hself, hopen]

lemma HasCall.asciiText {s : List Char} (h : HasCall s) : HasCall (asciiText s) := by
  obtain ⟨before, name, after, hname, rfl⟩ := h
  exact ⟨_, name, _, hname, asciiText_call hname before after⟩

lemma HasCall.of_search {s : List Char} {m : List (List Char) × List Char}
    (h : Regex.search straceLineRe s = some m) : HasCall s := by
  obtain ⟨t, ⟨before, rfl⟩, hm⟩ := Regex.search_eq_some h
  obtain ⟨after, hname, rfl, -⟩ := matchAt_eq_some hm
  exact ⟨before, _, after, hname, rfl⟩

/-- A line that is not from strace yields nothing, whatever noise is in it. -/
lemma parseStraceLine_other {text noisy : List Char} (hquiet : ¬ HasCall (asciiText text))
    (hnoisy : Noisy text noisy) : parseStraceLine u noisy = none := by
  rw [parseStraceLine, Option.map_eq_none_iff, Option.eq_none_iff_forall_ne_some]
  intro m hm
  apply hquiet
  rw [← hnoisy.asciiText_eq, ← asciiText_filter u]
  exact (HasCall.of_search hm).asciiText

/-! ### The lines of strace -/

lemma Unbroken.append {s t : List Char} (hs : Unbroken s) (ht : Unbroken t) :
    Unbroken (s ++ t) := by
  simp only [Unbroken, List.mem_append, not_or] at hs ht ⊢
  exact ⟨⟨hs.1, ht.1⟩, hs.2, ht.2⟩

lemma unbroken_of_printable {s : List Char} (hs : ∀ c ∈ s, printableAscii c) : Unbroken s :=
  ⟨fun h => absurd (hs _ h) (by decide), fun h => absurd (hs _ h) (by decide)⟩

lemma StraceLine.unbroken_text (l : StraceLine) : Unbroken l.text := by
  have hblanks : Unbroken l.blanks := by
    constructor <;> intro h <;> simpa using l.blank _ h
  have hname : Unbroken l.name :=
    unbroken_of_printable fun c hc => printableAscii_of_identPart (l.identifier.identPart c hc)
  have hargs : Unbroken l.args := unbroken_of_printable l.printable
  have hopen : Unbroken ['('] := by decide
  have hclose : Unbroken [')', ' ', '=', ' '] := by decide
  have h := hblanks.append (hname.append (hopen.append (hargs.append (hclose.append l.unbroken))))
  simpa [text] using h

/-- In printable ASCII the line begins with spaces, the name and `(`. -/
lemma StraceLine.asciiText_text (l : StraceLine) :
    ∃ spaces tail, asciiText l.text = spaces ++ (l.name ++ '(' :: tail)
      ∧ ∀ c ∈ spaces, c = ' ' := by
  refine ⟨asciiText l.blanks, _, asciiText_call l.identifier _ _, ?_⟩
  intro c hc
  obtain ⟨hmem, hascii⟩ := List.mem_filter.mp hc
  obtain rfl | rfl := l.blank c hmem
  · rfl
  · exact absurd hascii (by decide)

/-- Behind a `(` that follows no identifier the search goes on. -/
lemma firstCall_append {before rest name after : List Char} (hopen : '(' ∉ before)
    (hbefore : ∀ front n, IsIdentifier n → before ≠ front ++ n) :
    FirstCall (before ++ '(' :: rest) name after ↔ FirstCall rest name after := by
  induction before with
  | nil =>
    constructor
    · intro h
      cases h with
      | here hname hs =>
        have hnil := append_cons_inj (n := []) (by simp) hname.notMem hs
        rw [← hnil.1] at hname
        exact hname.elim
      | later _ h => exact h
    · intro h
      refine .later (fun n a hn heq => ?_) h
      have hnil := append_cons_inj (n := []) (by simp) hn.notMem heq
      rw [← hnil.1] at hn
      exact hn
  | cons c before ih =>
    have hcall : ∀ n a, IsIdentifier n → c :: before ++ '(' :: rest ≠ n ++ '(' :: a := by
      intro n a hn heq
      exact hbefore [] n hn (append_cons_inj hopen hn.notMem heq).1
    rw [List.mem_cons, not_or] at hopen
    have ih := ih hopen.2 fun front n hn heq => hbefore (c :: front) n hn (congrArg (c :: ·) heq)
    rw [← ih]
    constructor
    · intro h
      cases h with
      | here hname hs => exact absurd hs (hcall _ _ hname)
      | later _ h => exact h
    · exact .later hcall

lemma NameIntact.firstCall {s name after : List Char} (hname : IsIdentifier name)
    (h : NameIntact s name after) : FirstCall s name after := by
  obtain ⟨before, rfl, hbefore⟩ := h
  induction before with
  | nil => exact .here hname rfl
  | cons c before ih =>
    rw [List.forall_mem_cons] at hbefore
    refine .later (fun n a hn heq => ?_) (ih hbefore.2)
    cases n with
    | nil => exact hn
    | cons d n =>
      have hd := hn.identPart d List.mem_cons_self
      rw [← (List.cons.inj heq).1, hbefore.1] at hd
      cases hd

/-- An identifier in front of the first `(` is what is called first. -/
lemma FirstCall.eq_of_identifier {s front n rest name after : List Char} (hn : IsIdentifier n)
    (hfront : '(' ∉ front) (h : FirstCall s name after) (hs : s = front ++ n ++ '(' :: rest) :
    after = rest ∧ ∃ before, front ++ n = before ++ name := by
  induction h generalizing front with
  | here hname hs' =>
    have hopen : '(' ∉ front ++ n := by simp [hfront, hn.notMem]
    obtain ⟨hname', rfl⟩ := append_cons_inj hopen hname.notMem (hs.symm.trans hs')
    exact ⟨rfl, [], hname'⟩
  | later hc _ ih =>
    cases front with
    | nil => exact absurd hs (hc n rest hn)
    | cons d front =>
      rw [List.mem_cons, not_or] at hfront
      obtain ⟨hafter, before, hbefore⟩ := ih hfront.2 (List.cons.inj hs).2
      exact ⟨hafter, d :: before, congrArg (d :: ·) hbefore⟩

/-- In a line from strace, noise or not, the first identifier that is directly followed by `(` is
in front of its own `(`, and then it is the name, or behind it. -/
lemma firstCall_iff {s spaces name tail after : List Char} (hname : IsIdentifier name)
    (hs : asciiText s = spaces ++ (name ++ '(' :: tail)) (hspaces : ∀ c ∈ spaces, c = ' ') :
    FirstCall s name after ↔ NameIntact s name after ∨ NameAgain s name after := by
  constructor
  · intro h
    have hmem : '(' ∈ s := by
      apply List.mem_of_mem_filter (p := printableAscii)
      change '(' ∈ asciiText s
      simp [hs]
    obtain ⟨before, rest, rfl, hopen⟩ := List.eq_append_cons_of_mem hmem
    by_cases hend : ∀ front n, IsIdentifier n → before ≠ front ++ n
    · exact .inr ⟨before, rest, rfl, hopen, hend, (firstCall_append hopen hend).mp h⟩
    · push Not at hend
      obtain ⟨front, n, hn, rfl⟩ := hend
      left
      obtain ⟨rfl, before, hbefore⟩ :=
        h.eq_of_identifier hn (fun hmem => hopen (List.mem_append_left n hmem)) rfl
      rw [hbefore, List.append_assoc] at hs ⊢
      rw [hbefore, List.mem_append, not_or] at hopen
      refine ⟨before, rfl, ?_⟩
      -- the printable ASCII in front of the name is what it was without noise
      have hascii : asciiText before = spaces := by
        rw [asciiText_call hname, ← List.append_assoc, ← List.append_assoc] at hs
        have hleft : '(' ∉ asciiText before ++ name := by
          simpa [asciiText, hname.notMem] using fun hmem => absurd hmem hopen.1
        have hright : '(' ∉ spaces ++ name := by
          simpa [hname.notMem] using fun hmem => absurd (hspaces _ hmem) (by decide)
        exact List.append_cancel_right (append_cons_inj hleft hright hs).1
      intro c hc
      rw [Bool.eq_false_iff]
      intro hpart
      have hspace : c ∈ spaces :=
        hascii ▸ List.mem_filter.mpr ⟨hc, printableAscii_of_identPart hpart⟩
      rw [hspaces c hspace] at hpart
      exact absurd hpart (by decide)
  · rintro (h | ⟨before, rest, rfl, hopen, hbefore, h⟩)
    · exact h.firstCall hname
    · exact (firstCall_append hopen hbefore).mpr h

/-- A line from strace yields its name exactly if it is legible. -/
theorem parseStraceLine_strace (l : StraceLine) {noisy : List Char} (h : Noisy l.text noisy) :
    parseStraceLine u noisy = some l.name ↔ Legible u l.name noisy := by
  obtain ⟨spaces, tail, hs, hspaces⟩ := l.asciiText_text
  rw [← h.asciiText_eq, ← asciiText_filter u] at hs
  have hline : '\n' ∉ noisy.filter u.isprintable := by simp [isprintable_newline]
  rw [parseStraceLine, search_straceLineRe hline, Legible]
  simp only [firstCall_iff l.identifier hs hspaces]

/-- Without noise it is legible. -/
lemma StraceLine.legible (l : StraceLine) : Legible u l.name l.text := by
  have hfilter : ∀ s : List Char, (∀ c ∈ s, printableAscii c) → s.filter u.isprintable = s :=
    fun s hs => List.filter_eq_self.mpr fun c hc => u.isprintable_of_ascii (hs c hc)
  have hname := hfilter l.name fun c hc => printableAscii_of_identPart (l.identifier.identPart c hc)
  have hargs := hfilter l.args l.printable
  have hopen := hfilter ['('] (by simp [printableAscii])
  have hclose := hfilter [')', ' ', '=', ' '] (by simp [printableAscii])
  have htext : l.text.filter u.isprintable = l.blanks.filter u.isprintable
      ++ (l.name ++ '(' :: (l.args ++ ')' ::
        ([' '] ++ '=' :: ' ' :: l.ret.filter u.isprintable))) := by
    have hsplit : l.text
        = l.blanks ++ (l.name ++ (['('] ++ (l.args ++ ([')', ' ', '=', ' '] ++ l.ret)))) := by
      simp [text]
    simp only [hsplit, List.filter_append, hname, hargs, hopen, hclose]
    simp
  refine ⟨_, .inl ⟨_, htext, ?_⟩, _, [' '], _, rfl, by simp [isspace]⟩
  intro c hc
  obtain rfl | rfl := l.blank c (List.mem_of_mem_filter hc)
  · decide
  · decide

/-! ### The log -/

section ConsoleLog

variable {α β : Type*}

/-- Of two functions one of which yields no less than the other, the lists are the same only if the
functions agree on every element. -/
lemma filterMap_eq_filterMap_iff {f g : α → Option β} (hfg : ∀ a, g a = none → f a = none)
    (l : List α) : l.filterMap f = l.filterMap g ↔ ∀ a ∈ l, f a = g a := by
  have hle : ∀ l : List α, (l.filterMap f).length ≤ (l.filterMap g).length := by
    intro l
    induction l with
    | nil => simp
    | cons a l ih =>
      cases hg : g a with
      | none => simpa [hfg a hg, hg] using ih
      | some b => cases hf : f a <;> simp [hf, hg] <;> omega
  induction l with
  | nil => simp
  | cons a l ih =>
    rw [List.forall_mem_cons]
    cases hg : g a with
    | none => simpa [hfg a hg, hg] using ih
    | some b =>
      cases hf : f a with
      | none =>
        refine ⟨fun h => ?_, fun h => absurd h.1 (by simp)⟩
        have hlen := congrArg List.length h
        have hlt := hle l
        simp [hf, hg] at hlen
        omega
      | some b' => simpa [hf, hg] using fun _ => ih

/-- The log is parsed line by line, whichever text the lines have. -/
lemma parseStraceLog_lines {text : LoggedLine → List Char} (htext : ∀ l, Unbroken (text l))
    (lines : List (LoggedLine × Eol)) (last : LoggedLine) :
    parseStraceLog u ((lines.flatMap fun l => text l.1 ++ l.2.text) ++ text last)
      = (lines.map Prod.fst ++ [last]).filterMap fun l => parseStraceLine u (text l) := by
  induction lines with
  | nil =>
    rw [List.flatMap_nil, List.nil_append, parseStraceLog_last u (htext last)]
    cases h : parseStraceLine u (text last) <;> simp [h]
  | cons l lines ih =>
    rw [List.flatMap_cons, List.append_assoc, parseStraceLog_append u (htext l.1), ih]
    cases h : parseStraceLine u (text l.1) <;> simp [h]

lemma ConsoleLine.unbroken_text (line : ConsoleLine) : Unbroken line.text := by
  cases line with
  | strace l => exact l.unbroken_text
  | other text unbroken quiet => exact unbroken

/-- What a line yields, if it yields the right thing. -/
lemma parseStraceLine_eq_name?_iff {line : ConsoleLine} {noisy : List Char}
    (h : Noisy line.text noisy) :
    parseStraceLine u noisy = line.name?
      ↔ ∀ l, line = .strace l → Legible u l.name noisy := by
  cases line with
  | strace l => simpa [ConsoleLine.name?] using parseStraceLine_strace u l h
  | other text unbroken quiet =>
    simpa [ConsoleLine.name?] using parseStraceLine_other u quiet h

lemma parseStraceLine_eq_none_of_name? {line : ConsoleLine} {noisy : List Char}
    (h : Noisy line.text noisy) (hname : line.name? = none) : parseStraceLine u noisy = none := by
  cases line with
  | strace l => cases hname
  | other text unbroken quiet => exact parseStraceLine_other u quiet h

/-- Without noise, the names of the strace lines are what the log yields. -/
theorem parseStraceLog_clean (log : ConsoleLog) : parseStraceLog u log.clean = log.names := by
  rw [ConsoleLog.clean, parseStraceLog_lines u fun l => l.line.unbroken_text]
  apply List.filterMap_congr
  intro l _
  rw [parseStraceLine_eq_name?_iff u (Noisy.refl _)]
  rintro s hs
  rw [hs]
  exact s.legible u

/-- Noise that `str.isprintable` strips, such as control characters, changes nothing. -/
theorem parseStraceLog_of_filter_eq (log : ConsoleLog)
    (h : ∀ l ∈ log.all, l.noisy.filter u.isprintable = l.line.text.filter u.isprintable) :
    parseStraceLog u log.noisy = log.names := by
  rw [← parseStraceLog_clean u log, ConsoleLog.noisy, ConsoleLog.clean,
    parseStraceLog_lines u fun l => l.inserted.unbroken l.line.unbroken_text,
    parseStraceLog_lines u fun l => l.line.unbroken_text]
  apply List.filterMap_congr
  intro l hl
  rw [parseStraceLine, parseStraceLine, h l hl]

/-- **Noise.** The log yields the names of its strace lines, as it does without noise, exactly if
every one of them is legible. -/
theorem parseStraceLog_noisy_iff (log : ConsoleLog) :
    parseStraceLog u log.noisy = log.names ∧ parseStraceLog u log.clean = log.names
      ↔ ∀ l ∈ log.all, ∀ s, l.line = .strace s → Legible u s.name l.noisy := by
  rw [and_iff_left (parseStraceLog_clean u log), ConsoleLog.noisy,
    parseStraceLog_lines u fun l => l.inserted.unbroken l.line.unbroken_text, ConsoleLog.names,
    ← ConsoleLog.all, filterMap_eq_filterMap_iff]
  · simp only [parseStraceLine_eq_name?_iff u (LoggedLine.inserted _)]
  · exact fun l => parseStraceLine_eq_none_of_name? u l.inserted

/-- `  write(fd:4, ...) = 82` -/
def writeLine : StraceLine where
  blanks := [' ', ' ']
  name := ['w', 'r', 'i', 't', 'e']
  args := "fd:4, ...".toList
  ret := "82".toList
  blank := by simp
  identifier := by decide
  printable := List.all_eq_true.mp (by decide)
  unbroken := by decide

/-- A byte that is no UTF-8 in the middle of the name; `errors="replace"` decodes it as the
replacement character, which is printable. -/
def straceLog : ConsoleLog where
  lines := [(
    { line := .strace writeLine
      noisy := [' ', ' ', 'w', 'r', '\ufffd', 'i', 't', 'e']
        ++ '(' :: (writeLine.args ++ ')' :: ' ' :: '=' :: ' ' :: writeLine.ret)
      inserted := .keep _ (.keep _ (.keep _ (.keep _ (.insert (by decide) (.refl _))))) }, .lf)]
  last := ⟨.other [] (by decide) (by simp [HasCall, asciiText]), [], .nil⟩

theorem parseStraceLog_ne :
    parseStraceLog latin1 straceLog.noisy = [['i', 't', 'e']]
      ∧ ¬ (parseStraceLog latin1 straceLog.noisy = straceLog.names
        ∧ parseStraceLog latin1 straceLog.clean = straceLog.names) := by
  decide

end ConsoleLog

end SyscallMonitor
