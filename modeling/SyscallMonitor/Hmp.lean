import SyscallMonitor.Lib.Regex
import SyscallMonitor.Lib.Text
import SyscallMonitor.Lib.Utf8

/-!
# QEMU's human monitor

`_recv_until_prompt` and `hmp_command` of `attach_gdbstub.py` on the monitor socket. What is read is
a function of the stream, not of the pieces it arrives in, as long as the prompt is nowhere but at
its end; and what of the stream is an escape sequence of the readline echo does not reach over the
end of the echoed line, nor into the prompt.
-/

namespace SyscallMonitor

open Lib Utf8

/-! ### The socket -/

/-- The pieces of the stream that `recv` will hand out, whether the peer has closed the connection
behind them, and what has been sent. -/
structure Sock where
  incoming : List (List UInt8)
  closed : Bool
  sent : List UInt8

inductive HmpError where
  /-- `socket.timeout`: nothing comes within the time that `settimeout` allows. -/
  | timedOut
  /-- `HMP monitor socket closed unexpectedly` -/
  | closedUnexpectedly

namespace Sock

def sendall (sock : Sock) (data : List UInt8) : Sock := { sock with sent := sock.sent ++ data }

/-- `sock.recv(n)`. What does not fit stays for the next call. -/
def recv (n : ℕ) (sock : Sock) : Except HmpError (List UInt8 × Sock) :=
  match sock.incoming with
  | [] => if sock.closed then .ok ([], sock) else .error .timedOut
  | chunk :: rest =>
    .ok (chunk.take n,
      { sock with incoming := if chunk.length ≤ n then rest else chunk.drop n :: rest })

/-- The bytes that are still to come. -/
def available (sock : Sock) : ℕ := sock.incoming.flatten.length

lemma available_recv {n : ℕ} {sock sock' : Sock} {chunk : List UInt8}
    (h : sock.recv n = .ok (chunk, sock')) : sock'.available + chunk.length = sock.available := by
  rw [recv] at h
  split at h
  · split at h <;> cases h
    rfl
  · cases h
    simp only [available, List.length_take]
    split_ifs with hn
    · simp [*, Nat.add_comm]
    · simp [*]
      omega

end Sock

/-- `b"(qemu) "` -/
def prompt : List UInt8 := [0x28, 0x71, 0x65, 0x6d, 0x75, 0x29, 0x20]

/-- `b"\r\n"` -/
def crlf : List UInt8 := [0x0d, 0x0a]

/-- The loop of `_recv_until_prompt`. -/
def recvLoop (buf : List UInt8) (sock : Sock) : Except HmpError (List UInt8 × Sock) :=
  if prompt <:+ buf then .ok (buf, sock)
  else
    match _h : sock.recv 4096 with
    | .error e             => .error e
    | .ok ([], _)          => .error .closedUnexpectedly
    | .ok (b :: chunk, sock') => recvLoop (buf ++ b :: chunk) sock'
termination_by sock.available
decreasing_by
  have hrecv := Sock.available_recv _h
  rw [List.length_cons] at hrecv
  omega

/-- `_recv_until_prompt` -/
def recvUntilPrompt (sock : Sock) : Except HmpError (List UInt8 × Sock) := recvLoop [] sock

/-! ### `hmp_command` -/

/-- `[0-9;]` -/
def isParameter (b : UInt8) : Bool := (0x30 ≤ b && b ≤ 0x39) || b = 0x3b

/-- `[A-Za-z]` -/
def isFinal (b : UInt8) : Bool := (0x41 ≤ b && b ≤ 0x5a) || (0x61 ≤ b && b ≤ 0x7a)

/-- `ANSI_ESCAPE_RE`: `\x1b\[[0-9;]*[A-Za-z]` -/
def ansiEscapeRe : List (Regex.Atom UInt8) :=
  [.one (· = 0x1b), .one (· = 0x5b), .many isParameter, .one isFinal]

/-- `s.partition(sep)` -/
def partition (sep : List UInt8) : List UInt8 → List UInt8 × List UInt8 × List UInt8
  | [] => ([], [], [])
  | b :: s =>
    if sep <+: b :: s then ([], sep, (b :: s).drop sep.length)
    else (b :: (partition sep s).1, (partition sep s).2)

/-- `hmp_command` -/
def hmpCommand (sock : Sock) (cmdline : List Char) : Except HmpError (List Char × Sock) := do
  let (raw, sock) ← recvUntilPrompt (sock.sendall (encode cmdline ++ [0x0a]))
  let cleaned := Regex.eraseAll ansiEscapeRe raw
  let (_, _, rest) := partition crlf cleaned
  let reply := if prompt <:+ rest then rest.take (rest.length - prompt.length) else rest
  return (strip (decode reply), sock)

/-! ### The pieces of the stream -/

lemma recvLoop_of_recv {buf chunk : List UInt8} {sock sock' : Sock} (hbuf : ¬ prompt <:+ buf)
    (hchunk : chunk ≠ []) (h : sock.recv 4096 = .ok (chunk, sock')) :
    recvLoop buf sock = recvLoop (buf ++ chunk) sock' := by
  rw [recvLoop, if_neg hbuf]
  cases chunk with
  | nil => exact absurd rfl hchunk
  | cons b chunk =>
    split
    all_goals simp_all

lemma recvLoop_of_suffix {buf : List UInt8} (sock : Sock) (hbuf : prompt <:+ buf) :
    recvLoop buf sock = .ok (buf, sock) := by
  rw [recvLoop, if_pos hbuf]

/-- The loop returns when it has the last piece, not earlier and not later. -/
lemma recvLoop_chunks {buf stream : List UInt8} {chunks later : List (List UInt8)} {sock : Sock}
    (hchunks : ∀ c ∈ chunks, c ≠ [] ∧ c.length ≤ 4096) (hin : sock.incoming = chunks ++ later)
    (hstream : buf ++ chunks.flatten = stream) (hend : prompt <:+ stream)
    (honly : ∀ x y, stream = x ++ prompt ++ y → y = []) :
    recvLoop buf sock = .ok (stream, { sock with incoming := later }) := by
  induction chunks generalizing buf sock with
  | nil =>
    rw [List.flatten_nil, List.append_nil] at hstream
    rw [hstream, recvLoop_of_suffix sock hend, ← List.nil_append later, ← hin]
  | cons chunk chunks ih =>
    rw [List.forall_mem_cons] at hchunks
    obtain ⟨⟨hne, hlen⟩, hchunks⟩ := hchunks
    have hbuf : ¬ prompt <:+ buf := by
      rintro ⟨x, rfl⟩
      have hrest := honly x (chunk ++ chunks.flatten) hstream.symm
      exact hne (List.append_eq_nil_iff.mp hrest).1
    have hrecv : sock.recv 4096 = .ok (chunk, { sock with incoming := chunks ++ later }) := by
      simp [Sock.recv, hin, hlen, List.take_of_length_le hlen]
    rw [recvLoop_of_recv hbuf hne hrecv, ih hchunks rfl]
    rw [← hstream, List.flatten_cons, List.append_assoc]

/-! ### Escape sequences -/

/-- `ESC [`, digits and semicolons, and a letter. -/
def IsEscape (e : List UInt8) : Prop :=
  ∃ params letter, e = 0x1b :: 0x5b :: (params ++ [letter])
    ∧ (∀ b ∈ params, isParameter b) ∧ isFinal letter

lemma matches_ansiEscapeRe : Regex.Matches ansiEscapeRe = IsEscape := by
  funext e
  apply propext
  constructor
  · rintro ⟨groups, hfits, rfl⟩
    simp only [ansiEscapeRe, Regex.fits_one_cons, Regex.fits_many_cons,
      List.forall₂_nil_left_iff, decide_eq_true_eq] at hfits
    obtain ⟨_, _, rfl, rfl, _, _, rfl, rfl, params, _, rfl, hparams, letter, _, rfl, hletter,
      rfl⟩ := hfits
    exact ⟨params, letter, by simp, hparams, hletter⟩
  · rintro ⟨params, letter, rfl, hparams, hletter⟩
    refine ⟨[[0x1b], [0x5b], params, [letter]], ?_, by simp⟩
    simpa [ansiEscapeRe, Regex.Atom.Fits] using ⟨hparams, hletter⟩

lemma isParameter_of_isFinal {b : UInt8} (hb : isFinal b) : isParameter b = false := by
  simp only [isFinal, isParameter, Bool.or_eq_true, Bool.and_eq_true, decide_eq_true_eq,
    Bool.or_eq_false_iff, Bool.and_eq_false_iff, decide_eq_false_iff_not, UInt8.le_iff_toNat_le,
    ← UInt8.toNat_inj, UInt8.reduceToNat] at hb ⊢
  omega

lemma IsEscape.ne_nil {e : List UInt8} (he : IsEscape e) : e ≠ [] := by
  obtain ⟨params, letter, rfl, -⟩ := he
  exact List.cons_ne_nil _ _

lemma prefixFree_isEscape : Regex.PrefixFree IsEscape where
  ne_nil _ := IsEscape.ne_nil
  eq := by
    rintro e e' s ⟨params, letter, rfl, hparams, hletter⟩
      ⟨params', letter', rfl, hparams', hletter'⟩ ⟨rest, rfl⟩ ⟨rest', hrest⟩
    simp only [List.cons_append, List.append_assoc, List.nil_append, List.cons.injEq, true_and]
      at hrest
    obtain ⟨rfl, rfl, -⟩ := Regex.append_cons_inj hparams' hparams
      (isParameter_of_isFinal hletter') (isParameter_of_isFinal hletter) hrest
    rfl

/-- The bytes of an escape sequence. -/
lemma IsEscape.mem {e : List UInt8} (he : IsEscape e) {b : UInt8} (hb : b ∈ e) :
    b = 0x1b ∨ b = 0x5b ∨ isParameter b ∨ isFinal b := by
  obtain ⟨params, letter, rfl, hparams, hletter⟩ := he
  simp only [List.mem_cons, List.mem_append, List.not_mem_nil, or_false] at hb
  obtain rfl | rfl | hb | rfl := hb
  · exact .inl rfl
  · exact .inr (.inl rfl)
  · exact .inr (.inr (.inl (hparams b hb)))
  · exact .inr (.inr (.inr hletter))

/-- What is behind the first CRLF, which may follow a CR. -/
lemma partition_crlf {s : List UInt8} (hs : ¬ crlf <:+: s) (rest : List UInt8) :
    partition crlf (s ++ crlf ++ rest) = (s, crlf, rest) := by
  induction s with
  | nil => simp [partition, crlf]
  | cons b s ih =>
    have hhead : ¬ crlf <+: b :: (s ++ crlf ++ rest) := by
      intro h
      cases s with
      | nil => simp [crlf] at h
      | cons d s =>
        simp only [crlf, List.cons_append, List.cons_prefix_cons, List.nil_prefix, and_true] at h
        obtain ⟨rfl, rfl⟩ := h
        exact hs ⟨[], s, rfl⟩
    have htail : ¬ crlf <:+: s := fun h => hs (List.infix_cons h)
    rw [List.cons_append, List.cons_append, partition, if_neg hhead, ih htail]

/-- The bytes that no escape sequence contains. -/
lemma IsEscape.notMem {e : List UInt8} (he : IsEscape e) {b : UInt8}
    (hb : b ≠ 0x1b ∧ b ≠ 0x5b ∧ isParameter b = false ∧ isFinal b = false) : b ∉ e := by
  intro hmem
  obtain h | h | h | h := he.mem hmem
  · exact hb.1 h
  · exact hb.2.1 h
  · exact absurd h (by simp [hb.2.2.1])
  · exact absurd h (by simp [hb.2.2.2])

/-- Bytes other than ESC, which begins every escape sequence, stay. -/
lemma erased_append {x s t : List UInt8} (hx : ∀ b ∈ x, b ≠ 0x1b)
    (h : Regex.Erased IsEscape s t) : Regex.Erased IsEscape (x ++ s) (x ++ t) := by
  apply Regex.Erased.append_of_forall_mem (fun _ => IsEscape.ne_nil) _ h
  rintro b hb e ⟨params, letter, rfl, -⟩ hhead
  exact hx b hb (Option.some.inj hhead).symm

/-- The stream without escape sequences: none reaches over the end of the echoed line or into the
prompt. -/
lemma erased_stream {echo body plainEcho plain : List UInt8}
    (hecho : Regex.Erased IsEscape echo plainEcho) (hbody : Regex.Erased IsEscape body plain) :
    Regex.Erased IsEscape (echo ++ crlf ++ body ++ prompt)
      (plainEcho ++ crlf ++ plain ++ prompt) := by
  have hcons : ∀ {b : UInt8}, (b ≠ 0x1b ∧ b ≠ 0x5b ∧ isParameter b = false ∧ isFinal b = false) →
      ∀ {s t s' t' : List UInt8}, Regex.Erased IsEscape s t → Regex.Erased IsEscape s' t' →
        Regex.Erased IsEscape (s ++ b :: s') (t ++ b :: t') :=
    fun hb _ _ _ _ => Regex.Erased.append_cons (fun _ => IsEscape.ne_nil) fun e he => he.notMem hb
  have hprompt : Regex.Erased IsEscape prompt.tail prompt.tail :=
    erased_append (x := prompt.tail) (by simp [prompt]) .nil
  have hbodyPrompt := hcons (b := 0x28) (by decide) hbody hprompt
  have hline := erased_append (x := [0x0a]) (by simp) hbodyPrompt
  simpa [crlf, prompt] using hcons (b := 0x0d) (by decide) hecho hline

/-- `ANSI_ESCAPE_RE.sub` takes out the escape sequences and nothing else. -/
lemma erased_iff {s t : List UInt8} :
    Regex.Erased IsEscape s t ↔ Regex.eraseAll ansiEscapeRe s = t := by
  rw [← Regex.erased_iff_eraseAll_eq, matches_ansiEscapeRe]
  rw [matches_ansiEscapeRe]
  exact prefixFree_isEscape

/-! ### The reply -/

/-- What `hmp_command` makes of the stream. -/
lemma reply_of_stream {echo body plainEcho plain : List UInt8}
    (hecho : Regex.Erased IsEscape echo plainEcho) (hcrlf : ¬ crlf <:+: plainEcho)
    (hbody : Regex.Erased IsEscape body plain) :
    (partition crlf (Regex.eraseAll ansiEscapeRe (echo ++ crlf ++ body ++ prompt))).2.2
      = plain ++ prompt := by
  rw [erased_iff.mp (erased_stream hecho hbody), List.append_assoc _ plain, partition_crlf hcrlf]

/-- What `recv` will hand out is first one reply and then `later`: the reply is an echo, CRLF, a
body and the prompt, which is nowhere but at its end, and without its escape sequences the echo has
no CRLF in it. -/
structure ReplyPieces (sock : Sock) (chunks later : List (List UInt8)) (echo body : List UInt8) :
    Prop where
  incoming : sock.incoming = chunks ++ later
  bounded : ∀ c ∈ chunks, c ≠ [] ∧ c.length ≤ 4096
  stream : chunks.flatten = echo ++ crlf ++ body ++ prompt
  only : ∀ x y, chunks.flatten = x ++ prompt ++ y → y = []
  oneLine : ∀ plainEcho, Regex.Erased IsEscape echo plainEcho → ¬ crlf <:+: plainEcho

section ReplyPieces

variable {sock : Sock} {chunks later : List (List UInt8)} {echo body : List UInt8}

lemma ReplyPieces.recvUntilPrompt_eq (h : ReplyPieces sock chunks later echo body) :
    recvUntilPrompt sock = .ok (chunks.flatten, { sock with incoming := later }) := by
  have hend : prompt <:+ chunks.flatten := by
    rw [h.stream]
    exact List.suffix_append _ _
  exact recvLoop_chunks h.bounded h.incoming (List.nil_append _) hend h.only

lemma ReplyPieces.sendall (h : ReplyPieces sock chunks later echo body) (data : List UInt8) :
    ReplyPieces (sock.sendall data) chunks later echo body :=
  ⟨h.incoming, h.bounded, h.stream, h.only, h.oneLine⟩

/-- What the socket is after the reply to a command. -/
def Sock.replied (sock : Sock) (later : List (List UInt8)) (cmdline : List Char) : Sock :=
  { sock with incoming := later, sent := sock.sent ++ (encode cmdline ++ [0x0a]) }

lemma ReplyPieces.hmpCommand_eq (h : ReplyPieces sock chunks later echo body) {plain : List UInt8}
    (hbody : Regex.Erased IsEscape body plain) (cmdline : List Char) :
    hmpCommand sock cmdline = .ok (strip (decode plain), sock.replied later cmdline) := by
  obtain ⟨plainEcho, hecho⟩ := Regex.exists_erased (fun _ => IsEscape.ne_nil) echo
  have hreply := reply_of_stream hecho (h.oneLine plainEcho hecho) hbody
  rw [hmpCommand, (h.sendall _).recvUntilPrompt_eq, h.stream]
  simp only [bind, Except.bind, pure, Except.pure, hreply, List.suffix_append, if_true,
    List.length_append, Nat.add_sub_cancel, List.take_left]
  rfl

/-- **HMP.** However a reply is cut into pieces, all of it and nothing else is read, and what is
returned is the body without its escape sequences, decoded and stripped. -/
theorem hmpCommand_pieces (h : ReplyPieces sock chunks later echo body) (cmdline : List Char) :
    recvUntilPrompt sock = .ok (chunks.flatten, { sock with incoming := later })
      ∧ ∃ plain, Regex.Erased IsEscape body plain
        ∧ hmpCommand sock cmdline = .ok (strip (decode plain), sock.replied later cmdline) := by
  obtain ⟨plain, hbody⟩ := Regex.exists_erased (fun _ => IsEscape.ne_nil) body
  exact ⟨h.recvUntilPrompt_eq, plain, hbody, h.hmpCommand_eq hbody cmdline⟩

/-- A prompt that is found at no other place than the end. -/
lemma eq_nil_of_forall_drop {s : List UInt8}
    (hs : ∀ n < s.length, prompt <+: s.drop n → n + prompt.length = s.length) (x y : List UInt8)
    (h : s = x ++ prompt ++ y) : y = [] := by
  have hlen := congrArg List.length h
  rw [List.length_append, List.length_append] at hlen
  have hpos : 0 < prompt.length := by decide
  have hx := hs x.length (by omega) (by simp [h])
  exact List.eq_nil_of_length_eq_zero (by omega)

/-- The echo `i`, the body `VM` and the prompt, cut inside an escape sequence, inside CRLF and
inside the prompt. -/
def statusChunks : List (List UInt8) :=
  [[0x69, 0x1b], [0x5b, 0x4b, 0x0d], [0x0a, 0x56, 0x1b, 0x5b, 0x31, 0x6d, 0x4d, 0x0d, 0x0a, 0x28],
    [0x71, 0x65, 0x6d, 0x75, 0x29, 0x20]]

lemma replyPieces_statusChunks :
    ReplyPieces ⟨statusChunks, false, []⟩ statusChunks [] [0x69, 0x1b, 0x5b, 0x4b]
      [0x56, 0x1b, 0x5b, 0x31, 0x6d, 0x4d, 0x0d, 0x0a] where
  incoming := rfl
  bounded := by decide
  stream := rfl
  only := eq_nil_of_forall_drop (by decide)
  oneLine := by
    intro plainEcho hecho
    rw [← erased_iff.mp hecho]
    decide

theorem status_hmpCommand_pieces :
    recvUntilPrompt ⟨statusChunks, false, []⟩ = .ok (statusChunks.flatten, ⟨[], false, []⟩)
      ∧ ∃ plain, Regex.Erased IsEscape [0x56, 0x1b, 0x5b, 0x31, 0x6d, 0x4d, 0x0d, 0x0a] plain
        ∧ hmpCommand ⟨statusChunks, false, []⟩ ['i']
          = .ok (strip (decode plain), ⟨[], false, [0x69, 0x0a]⟩) :=
  hmpCommand_pieces replyPieces_statusChunks ['i']

/-! ### Replies that are text -/

lemma IsEscape.toNat_lt {e : List UInt8} (he : IsEscape e) : ∀ b ∈ e, b.toNat < 0x80 := by
  intro b hb
  obtain rfl | rfl | h | h := he.mem hb
  · decide
  · decide
  all_goals
    simp only [isParameter, isFinal, Bool.or_eq_true, Bool.and_eq_true, decide_eq_true_eq,
      UInt8.le_iff_toNat_le, ← UInt8.toNat_inj, UInt8.reduceToNat] at h
    omega

/-- No byte of a character beyond ASCII begins an escape sequence, and what is one in the bytes of
text is one in the text. -/
lemma erased_encode {t plain : List Char}
    (h : Regex.Erased (fun e => IsEscape (encode e)) t plain) :
    Regex.Erased IsEscape (encode t) (encode plain) := by
  induction h with
  | nil => exact .nil
  | @drop e s t he _ ih =>
    have hsplit : encode (e ++ s) = encode e ++ encode s := List.flatMap_append
    rw [hsplit]
    exact .drop he ih
  | @keep c s t hc _ ih =>
    have hquiet : ∀ e, IsEscape e → ¬ e <+: encode (c :: s) := by
      intro e he hpre
      obtain ⟨u, hu, rfl⟩ := exists_prefix_of_prefix_encode he.toNat_lt hpre
      exact hc u he hu
    rw [encode, List.flatMap_cons] at hquiet ⊢
    rw [encode, List.flatMap_cons]
    obtain ⟨b, -, hb⟩ | hb := utf8EncodeChar_cases c
    · rw [hb] at hquiet ⊢
      exact .keep hquiet ih
    · apply erased_append _ ih
      rintro b hmem rfl
      exact absurd (hb _ hmem) (by decide)

/-- Escape sequences may as well be taken out of the decoded body. -/
theorem hmpCommand_text {t : List Char} (h : ReplyPieces sock chunks later echo (encode t))
    (cmdline : List Char) :
    ∃ plain, Regex.Erased (fun e => IsEscape (encode e)) t plain
      ∧ hmpCommand sock cmdline = .ok (strip plain, sock.replied later cmdline) := by
  have hne : ∀ e, IsEscape (encode e) → e ≠ [] := by
    rintro e he rfl
    exact he.ne_nil rfl
  obtain ⟨plain, hplain⟩ := Regex.exists_erased hne t
  refine ⟨plain, hplain, ?_⟩
  rw [h.hmpCommand_eq (erased_encode hplain) cmdline, decode_encode]

end ReplyPieces

end SyscallMonitor
