import SyscallMonitor.Lib.Lines
import SyscallMonitor.Log.Format
import Mathlib.Data.List.Forall2

/-!
# The live view of a growing log

`tail_lines` and `run_interactive` of `run_capture_inline.py`. The log grows by chunks while it is
read: a poll that finds a partial line goes back to its start. The invariant is that what has been
yielded is the text in front of the position in the file, cut into lines.
-/

namespace SyscallMonitor

open Lib Json

/-! ### `tail_lines` -/

/-- `f.readline()` on what follows the position in the file, with the number of characters read.
The file is in text mode, where `"\r"` and `"\r\n"` are line ends too and read as `"\n"`; at the end
of the file the decoder does not wait for what may follow a `"\r"`. -/
def readline : List Char → List Char × ℕ
  | [] => ([], 0)
  | c :: s =>
    if c = '\n' then (['\n'], 1)
    else if c = '\r' then (['\n'], if s.head? = some '\n' then 2 else 1)
    else (c :: (readline s).1, (readline s).2 + 1)

/-- Where `tail_lines` is: in its first loop, in the second one with the position in the file, or
done. -/
inductive TailPhase where
  | waiting
  | reading (pos : ℕ)
  | returned
  deriving DecidableEq

/-- The log file, `none` before it is created, `time.monotonic()`, and the generator with the lines
it has yielded. -/
structure Tail where
  file : Option (List Char)
  now : ℕ
  phase : TailPhase
  yielded : List (List Char)

namespace Tail

/-- What is in the file. -/
def content (t : Tail) : List Char := t.file.getD []

/-- `deadline is not None and time.monotonic() >= deadline` -/
def Expired (deadline : Option ℕ) (t : Tail) : Prop := ∃ d ∈ deadline, t.now ≥ d

instance (deadline : Option ℕ) (t : Tail) : Decidable (t.Expired deadline) :=
  inferInstanceAs (Decidable (∃ d ∈ deadline, t.now ≥ d))

/-- One round of the second loop. -/
def readRound (deadline : Option ℕ) (pos : ℕ) (t : Tail) : Tail :=
  if t.Expired deadline then { t with phase := .returned }
  else
    let (line, n) := readline (t.content.drop pos)
    if line = [] ∨ line.getLast? ≠ some '\n' then { t with phase := .reading pos } -- f.seek(pos)
    else { t with phase := .reading (pos + n), yielded := t.yielded ++ [line] }

/-- From one `time.sleep` or `yield` to the next. -/
def poll (deadline : Option ℕ) (t : Tail) : Tail :=
  match t.phase with
  | .waiting =>
    if t.file.isNone then
      if t.Expired deadline then { t with phase := .returned } else t
    else t.readRound deadline 0
  | .reading pos => t.readRound deadline pos
  | .returned => t

/-- Before `tail_lines` is called. -/
def init : Tail := ⟨none, 0, .waiting, []⟩

end Tail

/-- QEMU appends to the log, time passes, or the generator is resumed. -/
inductive TailEvent where
  | append (chunk : List Char)
  | elapse (dt : ℕ)
  | poll

def Tail.step (deadline : Option ℕ) (t : Tail) : TailEvent → Tail
  | .append chunk => { t with file := some (t.content ++ chunk) }
  | .elapse dt    => { t with now := t.now + dt }
  | .poll         => t.poll deadline

/-- `tail_lines` after a sequence of events. -/
def tailLines (deadline : Option ℕ) (es : List TailEvent) : Tail :=
  es.foldl (Tail.step deadline) .init

lemma tailLines_concat (deadline : Option ℕ) (es : List TailEvent) (e : TailEvent) :
    tailLines deadline (es ++ [e]) = (tailLines deadline es).step deadline e :=
  List.foldl_concat ..

/-! ### `run_interactive` -/

/-- What `run_interactive` prints after its banner. -/
inductive Shown where
  /-- `[VMI] first connection accepted -- nginx is ready, showing syscalls from here on` -/
  | ready
  | event (text : List Char)

/-- `ready_seen`, `n_events`, and what has been printed. -/
structure Interactive where
  readySeen : Bool
  nEvents : ℕ
  shown : List Shown

/-- `evt.get("syscall") == "accept4"` -/
def isAccept4 : Json → Except PyError Bool
  | .obj evt => .ok ((get? evt "syscall".toList).bind str? = some "accept4".toList)
  | _ => .error .attributeError

namespace Interactive

/-- `print(format_event(evt), flush=True)` -/
def print (py : Python) (evt : Json) (st : Interactive) : Except PyError Interactive :=
  (formatEvent py evt).map fun text => { st with shown := st.shown ++ [.event text] }

/-- The loop body once the line has been parsed. -/
def onEvent (py : Python) (st : Interactive) (evt : Json) : Except PyError Interactive :=
  let st := { st with nEvents := st.nEvents + 1 }
  if st.readySeen then st.print py evt
  else
    match isAccept4 evt with
    | .error e => .error e
    | .ok true => { st with readySeen := true, shown := st.shown ++ [Shown.ready] }.print py evt
    | .ok false => .ok st

/-- The loop body; `loads` is `json.loads`, `none` where it raises `JSONDecodeError`. -/
def onLine (py : Python) (loads : List Char → Option Json) (st : Interactive) (line : List Char) :
    Except PyError Interactive :=
  match loads line with
  | none => .ok st
  | some evt => st.onEvent py evt

end Interactive

/-- `run_interactive` after the given lines; its result is `nEvents`. -/
def runInteractive (py : Python) (loads : List Char → Option Json) (showAfterReady : Bool)
    (lines : List (List Char)) : Except PyError Interactive :=
  lines.foldlM (Interactive.onLine py loads) ⟨!showAfterReady, 0, []⟩

/-! ### Reading a line -/

lemma readline_of_nextLine_eq_some {s l rest : List Char} (h : nextLine '\n' s = some (l, rest))
    (hcr : '\r' ∉ s) : readline s = (l, l.length) := by
  induction s generalizing l with
  | nil => simp [nextLine] at h
  | cons c s ih =>
    rw [List.mem_cons, not_or] at hcr
    obtain ⟨hc, hcr⟩ := hcr
    rw [nextLine] at h
    rw [readline, if_neg (Ne.symm hc)]
    split_ifs at h ⊢ with hnl
    · obtain ⟨rfl, rfl⟩ := Prod.mk.inj (Option.some.inj h)
      rw [hnl]
      rfl
    · obtain ⟨⟨l', rest'⟩, hl', heq⟩ := Option.map_eq_some_iff.mp h
      obtain ⟨rfl, rfl⟩ := Prod.mk.inj heq
      rw [ih hl' hcr]
      rfl

lemma readline_of_nextLine_eq_none {s : List Char} (h : nextLine '\n' s = none)
    (hcr : '\r' ∉ s) : (readline s).1 = s := by
  induction s with
  | nil => rfl
  | cons c s ih =>
    rw [List.mem_cons, not_or] at hcr
    obtain ⟨hc, hcr⟩ := hcr
    rw [nextLine] at h
    rw [readline, if_neg (Ne.symm hc)]
    split_ifs at h ⊢ with hnl
    rw [ih (Option.map_eq_none_iff.mp h) hcr]

namespace Tail

variable {deadline : Option ℕ} {t : Tail}

/-- A round that finds no complete line goes back. -/
lemma readRound_of_none (hnow : ¬ t.Expired deadline) {pos : ℕ}
    (hline : nextLine '\n' (t.content.drop pos) = none) (hcr : '\r' ∉ t.content) :
    t.readRound deadline pos = { t with phase := .reading pos } := by
  have hread := readline_of_nextLine_eq_none hline fun hmem => hcr (List.mem_of_mem_drop hmem)
  have hcut : (readline (t.content.drop pos)).1.getLast? ≠ some '\n' := by
    rw [hread]
    intro hlast
    exact nextLine_eq_none hline (List.mem_of_mem_getLast? hlast)
  rw [readRound, if_neg hnow]
  simp [hcut]

/-- A round that finds a complete line yields it. -/
lemma readRound_of_some (hnow : ¬ t.Expired deadline) {pos : ℕ} {l rest : List Char}
    (hline : nextLine '\n' (t.content.drop pos) = some (l, rest)) (hcr : '\r' ∉ t.content) :
    t.readRound deadline pos
      = { t with phase := .reading (pos + l.length), yielded := t.yielded ++ [l] } := by
  have hread := readline_of_nextLine_eq_some hline fun hmem => hcr (List.mem_of_mem_drop hmem)
  obtain ⟨-, body, rfl, -⟩ := nextLine_eq_some hline
  rw [readRound, if_neg hnow, hread]
  simp

/-! ### The invariant -/

/-- The reader does not write. -/
lemma poll_file (deadline : Option ℕ) (t : Tail) : (t.poll deadline).file = t.file := by
  have hround : ∀ pos, (t.readRound deadline pos).file = t.file := by
    intro pos
    rw [Tail.readRound]
    split_ifs
    · rfl
    · dsimp only
      split_ifs <;> rfl
  rw [Tail.poll]
  cases t.phase with
  | waiting =>
    dsimp only
    split_ifs
    · rfl
    · rfl
    · exact hround 0
  | reading pos => exact hround pos
  | returned => rfl

/-- What has been yielded is cut off the file, and the generator is at the end of it. -/
structure Following (deadline : Option ℕ) (t : Tail) : Prop where
  lines : ∀ l ∈ t.yielded, IsLine '\n' l
  consumed : t.yielded.flatten <+: t.content
  phase : match t.phase with
    | .waiting => t.yielded = []
    | .reading pos => pos = t.yielded.flatten.length
    | .returned => t.Expired deadline

/-- The lines of the file are those yielded and those behind the position. -/
lemma Following.completeLines_content (ht : t.Following deadline) :
    completeLines '\n' t.content
      = t.yielded ++ completeLines '\n' (t.content.drop t.yielded.flatten.length) := by
  obtain ⟨rest, hrest⟩ := ht.consumed
  rw [← hrest, List.drop_left, completeLines_flatten_append ht.lines]

lemma following_init (deadline : Option ℕ) : init.Following deadline :=
  ⟨by simp [init], List.nil_prefix, rfl⟩

lemma Following.append (ht : t.Following deadline) (chunk : List Char) :
    (t.step deadline (.append chunk)).Following deadline :=
  ⟨ht.lines, ht.consumed.trans (List.prefix_append ..), ht.phase⟩

lemma Following.elapse (ht : t.Following deadline) (dt : ℕ) :
    (t.step deadline (.elapse dt)).Following deadline := by
  refine ⟨ht.lines, ht.consumed, ?_⟩
  have hphase := ht.phase
  cases hp : t.phase with
  | waiting => simpa only [step, hp] using hphase
  | reading pos => simpa only [step, hp] using hphase
  | returned =>
    simp only [hp] at hphase
    obtain ⟨d, hd, hge⟩ := hphase
    simp only [step, hp]
    exact ⟨d, hd, Nat.le_trans hge (Nat.le_add_right ..)⟩

/-- The next line, if there is one, is what a round yields before the deadline. -/
lemma Following.readRound (ht : t.Following deadline) (hcr : '\r' ∉ t.content) :
    (t.readRound deadline t.yielded.flatten.length).Following deadline ∧
      (t.readRound deadline t.yielded.flatten.length).yielded
        = t.yielded ++ if t.Expired deadline then []
          else (completeLines '\n' t.content)[t.yielded.length]?.toList := by
  by_cases hnow : t.Expired deadline
  · have hround : t.readRound deadline t.yielded.flatten.length = { t with phase := .returned } :=
      if_pos hnow
    rw [hround, if_pos hnow, List.append_nil]
    exact ⟨⟨ht.lines, ht.consumed, hnow⟩, rfl⟩
  · rw [if_neg hnow, ht.completeLines_content]
    cases hline : nextLine '\n' (t.content.drop t.yielded.flatten.length) with
    | none =>
      rw [readRound_of_none hnow hline hcr, completeLines_of_none hline]
      exact ⟨⟨ht.lines, ht.consumed, rfl⟩, by simp⟩
    | some r =>
      obtain ⟨l, rest⟩ := r
      obtain ⟨hdrop, hl⟩ := nextLine_eq_some hline
      rw [readRound_of_some hnow hline hcr, completeLines_of_some hline]
      refine ⟨⟨?_, ?_, ?_⟩, by simp⟩
      · intro l' hl'
        rcases List.mem_append.mp hl' with hl' | hl'
        · exact ht.lines l' hl'
        · exact List.mem_singleton.mp hl' ▸ hl
      · obtain ⟨rest', hrest'⟩ := ht.consumed
        rw [← hrest', List.drop_left] at hdrop
        refine ⟨rest, ?_⟩
        show (t.yielded ++ [l]).flatten ++ rest = t.content
        rw [← hrest', hdrop, List.flatten_append, List.append_assoc]
        simp
      · simp

/-- One poll yields the next line of the file, if there is one and the deadline has not passed. -/
theorem Following.poll (ht : t.Following deadline) (hcr : '\r' ∉ t.content) :
    (t.poll deadline).Following deadline ∧
      (t.poll deadline).yielded
        = t.yielded ++ if t.Expired deadline then []
          else (completeLines '\n' t.content)[t.yielded.length]?.toList := by
  have hphase := ht.phase
  have hround := ht.readRound hcr
  rw [Tail.poll]
  cases hp : t.phase with
  | waiting =>
    simp only [hp] at hphase
    rw [hphase] at hround
    cases hfile : t.file with
    | none =>
      have hempty : t.content = [] := by rw [content, hfile, Option.getD_none]
      simp only [Option.isNone_none, ↓reduceIte, hempty, completeLines_nil, List.getElem?_nil,
        Option.toList_none, ite_self, List.append_nil]
      split_ifs with hnow
      · exact ⟨⟨ht.lines, by simp [hphase], hnow⟩, rfl⟩
      · exact ⟨ht, rfl⟩
    | some content =>
      simp only [Option.isNone_some, Bool.false_eq_true, ↓reduceIte]
      rw [hphase]
      exact hround
  | reading pos =>
    simp only [hp] at hphase
    rw [hphase]
    exact hround
  | returned =>
    simp only [hp] at hphase
    simp only [if_pos hphase, List.append_nil]
    exact ⟨ht, trivial⟩

end Tail

/-! ### Whole runs -/

lemma not_mem_content_tailLines (deadline : Option ℕ) {es : List TailEvent} {c : Char}
    (hc : ∀ chunk, .append chunk ∈ es → c ∉ chunk) : c ∉ (tailLines deadline es).content := by
  induction es using List.reverseRecOn with
  | nil => simp [tailLines, Tail.init, Tail.content]
  | append_singleton es e ih =>
    have hold := ih fun chunk hmem => hc chunk (List.mem_append_left _ hmem)
    rw [tailLines_concat]
    cases e with
    | append chunk =>
      have hnew := hc chunk (by simp)
      simp only [Tail.step, Tail.content, Option.getD_some, List.mem_append, not_or]
      exact ⟨hold, hnew⟩
    | elapse dt => exact hold
    | poll =>
      rw [Tail.step, Tail.content, Tail.poll_file]
      exact hold

/-- Run rule: the generator follows the file through any sequence of events. -/
theorem following_tailLines (deadline : Option ℕ) {es : List TailEvent}
    (hcr : ∀ chunk, .append chunk ∈ es → '\r' ∉ chunk) :
    (tailLines deadline es).Following deadline := by
  induction es using List.reverseRecOn with
  | nil => exact Tail.following_init deadline
  | append_singleton es e ih =>
    have hcr' : ∀ chunk, .append chunk ∈ es → '\r' ∉ chunk :=
      fun chunk hmem => hcr chunk (List.mem_append_left _ hmem)
    rw [tailLines_concat]
    cases e with
    | append chunk => exact (ih hcr').append chunk
    | elapse dt => exact (ih hcr').elapse dt
    | poll => exact ((ih hcr').poll (not_mem_content_tailLines deadline hcr')).1

/-! ### The events that are shown -/

/-- An `accept4` event. -/
def startsReady (evt : Json) : Bool := (isAccept4 evt).toOption = some true

/-- All events, or those from the first `accept4` on. -/
def shownEvents (showAfterReady : Bool) (evts : List Json) : List Json :=
  if showAfterReady then evts.dropWhile fun evt => !startsReady evt else evts

/-- `text` is what is printed for `evt`. -/
def Prints (py : Python) (evt : Json) (text : List Char) : Prop := formatEvent py evt = .ok text

/-- Only objects are printed. -/
lemma Prints.isObj {py : Python} {evt : Json} {text : List Char} (h : Prints py evt text) :
    ∃ ms, evt = .obj ms := by
  cases evt with
  | obj ms => exact ⟨ms, rfl⟩
  | _ => exact nomatch (show Except.error PyError.attributeError = Except.ok text from h)

namespace Interactive

variable {py : Python} {st : Interactive}

/-- `run_interactive` counts and shows the events among the lines. -/
lemma foldlM_onLine (py : Python) (loads : List Char → Option Json) (lines : List (List Char))
    (st : Interactive) :
    lines.foldlM (onLine py loads) st = (lines.filterMap loads).foldlM (onEvent py) st := by
  induction lines generalizing st with
  | nil => rfl
  | cons line lines ih =>
    rw [List.foldlM_cons, onLine]
    cases hline : loads line with
    | none =>
      rw [List.filterMap_cons_none hline, ← ih]
      rfl
    | some evt =>
      rw [List.filterMap_cons_some hline, List.foldlM_cons]
      exact congrArg _ (funext fun st' => ih st')

lemma onEvent_of_ready (hready : st.readySeen = true) {evt : Json} {text : List Char}
    (htext : Prints py evt text) :
    st.onEvent py evt = .ok ⟨true, st.nEvents + 1, st.shown ++ [.event text]⟩ := by
  rw [Prints] at htext
  simp [onEvent, hready, print, htext, Except.map]

lemma onEvent_of_starts (hready : st.readySeen = false) {evt : Json} {text : List Char}
    (htext : Prints py evt text) (hstart : startsReady evt = true) :
    st.onEvent py evt = .ok ⟨true, st.nEvents + 1, st.shown ++ [.ready, .event text]⟩ := by
  have haccept : isAccept4 evt = .ok true := by
    cases hcall : isAccept4 evt <;> simp_all [startsReady, Except.toOption]
  rw [Prints] at htext
  simp [onEvent, hready, haccept, print, htext, Except.map]

lemma onEvent_of_not_starts (hready : st.readySeen = false) {evt : Json} {text : List Char}
    (htext : Prints py evt text) (hstart : startsReady evt = false) :
    st.onEvent py evt = .ok ⟨false, st.nEvents + 1, st.shown⟩ := by
  obtain ⟨ms, rfl⟩ := htext.isObj
  obtain ⟨b, hb⟩ : ∃ b, isAccept4 (.obj ms) = .ok b := ⟨_, rfl⟩
  obtain rfl : b = false := by
    rw [startsReady, hb] at hstart
    simpa [Except.toOption] using hstart
  simp only [onEvent, hready, hb, Bool.false_eq_true, ↓reduceIte]

/-- Once a connection has been accepted, every event is shown. -/
theorem foldlM_onEvent_of_ready (st : Interactive) (hready : st.readySeen = true) {evts : List Json}
    (hprints : ∀ evt ∈ evts, ∃ text, Prints py evt text) :
    ∃ texts, List.Forall₂ (Prints py) evts texts ∧ evts.foldlM (onEvent py) st
      = .ok ⟨true, st.nEvents + evts.length, st.shown ++ texts.map .event⟩ := by
  induction evts generalizing st with
  | nil => exact ⟨[], .nil, by simp [← hready, pure, Except.pure]⟩
  | cons evt evts ih =>
    obtain ⟨text, htext⟩ := hprints evt List.mem_cons_self
    have hrest : ∀ evt ∈ evts, ∃ text, Prints py evt text :=
      fun evt' hmem => hprints evt' (List.mem_cons_of_mem evt hmem)
    obtain ⟨texts, htexts, hrun⟩ :=
      ih ⟨true, st.nEvents + 1, st.shown ++ [.event text]⟩ rfl hrest
    refine ⟨text :: texts, .cons htext htexts, ?_⟩
    rw [List.foldlM_cons, onEvent_of_ready hready htext]
    refine hrun.trans ?_
    simp [Nat.add_assoc, Nat.add_comm 1]

/-- Before that, the events are only counted. -/
theorem foldlM_onEvent_of_not_ready (st : Interactive) (hready : st.readySeen = false)
    {evts : List Json} (hprints : ∀ evt ∈ evts, ∃ text, Prints py evt text) :
    ∃ st' texts, List.Forall₂ (Prints py) (shownEvents true evts) texts ∧
      evts.foldlM (onEvent py) st = .ok st' ∧ st'.nEvents = st.nEvents + evts.length ∧
      st'.shown = st.shown ++ (if shownEvents true evts = [] then [] else [.ready])
        ++ texts.map .event := by
  induction evts generalizing st with
  | nil => exact ⟨st, [], .nil, rfl, rfl, by simp [shownEvents]⟩
  | cons evt evts ih =>
    obtain ⟨text, htext⟩ := hprints evt List.mem_cons_self
    have hrest : ∀ evt ∈ evts, ∃ text, Prints py evt text :=
      fun evt' hmem => hprints evt' (List.mem_cons_of_mem evt hmem)
    cases hstart : startsReady evt with
    | true =>
      have hshown : shownEvents true (evt :: evts) = evt :: evts := by
        simp [shownEvents, hstart]
      obtain ⟨texts, htexts, hrun⟩ := foldlM_onEvent_of_ready
        ⟨true, st.nEvents + 1, st.shown ++ [.ready, .event text]⟩ rfl hrest
      rw [hshown, List.foldlM_cons, onEvent_of_starts hready htext hstart]
      refine ⟨_, text :: texts, .cons htext htexts, hrun, ?_, ?_⟩
      · simp [Nat.add_assoc, Nat.add_comm 1]
      · simp
    | false =>
      have hshown : shownEvents true (evt :: evts) = shownEvents true evts := by
        simp [shownEvents, hstart]
      obtain ⟨st', texts, htexts, hrun, hcount, hprinted⟩ :=
        ih ⟨false, st.nEvents + 1, st.shown⟩ rfl hrest
      rw [hshown, List.foldlM_cons, onEvent_of_not_starts hready htext hstart]
      refine ⟨st', texts, htexts, hrun, ?_, hprinted⟩
      rw [hcount, List.length_cons]
      simp [Nat.add_assoc, Nat.add_comm 1]

end Interactive

/-- `run_interactive` counts the lines that are JSON, and prints all events or those from the first
`accept4` on. -/
theorem runInteractive_spec (py : Python) (loads : List Char → Option Json) (showAfterReady : Bool)
    {lines : List (List Char)}
    (hprints : ∀ evt ∈ lines.filterMap loads, ∃ text, Prints py evt text) :
    ∃ st texts, runInteractive py loads showAfterReady lines = .ok st ∧
      st.nEvents = (lines.filterMap loads).length ∧
      List.Forall₂ (Prints py) (shownEvents showAfterReady (lines.filterMap loads)) texts ∧
      st.shown = (if showAfterReady = true ∧ shownEvents true (lines.filterMap loads) ≠ [] then
        [.ready] else []) ++ texts.map .event := by
  rw [runInteractive, Interactive.foldlM_onLine]
  cases showAfterReady with
  | false =>
    obtain ⟨texts, htexts, hrun⟩ := Interactive.foldlM_onEvent_of_ready
      ⟨!false, 0, []⟩ rfl hprints
    exact ⟨_, texts, hrun, Nat.zero_add _, htexts, by simp⟩
  | true =>
    obtain ⟨st, texts, htexts, hrun, hcount, hshown⟩ :=
      Interactive.foldlM_onEvent_of_not_ready ⟨!true, 0, []⟩ rfl hprints
    refine ⟨st, texts, hrun, hcount.trans (Nat.zero_add _), htexts, hshown.trans ?_⟩
    by_cases hnone : shownEvents true (lines.filterMap loads) = [] <;> simp [hnone]

/-- **The live view loses, duplicates and tears nothing.** For a log without carriage returns, in
whatever chunks it is appended and whenever it is polled: the lines yielded so far are the first
lines of the file, and one more poll yields exactly the next one, unless there is none or the
deadline has passed. `run_interactive` counts those of them that are JSON, and if `format_event`
accepts these, prints all of them, or those from the first `accept4` on. -/
theorem tailLines_follows (deadline : Option ℕ) (es : List TailEvent)
    (hcr : ∀ chunk, .append chunk ∈ es → '\r' ∉ chunk) :
    (∃ n ≤ (completeLines '\n' (tailLines deadline es).content).length,
      (tailLines deadline es).yielded
        = (completeLines '\n' (tailLines deadline es).content).take n) ∧
    (¬ (tailLines deadline es).Expired deadline → ∀ line,
      (completeLines '\n' (tailLines deadline es).content)[
          (tailLines deadline es).yielded.length]? = some line →
        (tailLines deadline (es ++ [.poll])).yielded
          = (tailLines deadline es).yielded ++ [line]) ∧
    ∀ (py : Python) (loads : List Char → Option Json) (showAfterReady : Bool),
      (∀ evt ∈ (tailLines deadline es).yielded.filterMap loads, ∃ text, Prints py evt text) →
      ∃ st texts,
        runInteractive py loads showAfterReady (tailLines deadline es).yielded = .ok st ∧
        st.nEvents = ((tailLines deadline es).yielded.filterMap loads).length ∧
        List.Forall₂ (Prints py)
          (shownEvents showAfterReady ((tailLines deadline es).yielded.filterMap loads)) texts ∧
        st.shown = (if showAfterReady = true ∧
            shownEvents true ((tailLines deadline es).yielded.filterMap loads) ≠ [] then
          [.ready] else []) ++ texts.map .event := by
  have hfollows := following_tailLines deadline hcr
  have hpoll := hfollows.poll (not_mem_content_tailLines deadline hcr)
  refine ⟨⟨(tailLines deadline es).yielded.length, ?_, ?_⟩, ?_, ?_⟩
  · rw [hfollows.completeLines_content, List.length_append]
    exact Nat.le_add_right ..
  · rw [hfollows.completeLines_content, List.take_left]
  · intro hnow line hline
    rw [tailLines_concat, Tail.step, hpoll.2, if_neg hnow, hline, Option.toList_some]
  · intro py loads showAfterReady hprints
    exact runInteractive_spec py loads showAfterReady hprints

/-- A line that arrives in two pieces, with a poll in between. -/
theorem torn_tailLines_follows :
    (∀ chunk, .append chunk ∈
        [.append "\x7b\"cpu\"".toList, .poll, .append ":0\x7d\n\x7b".toList, TailEvent.elapse 1] →
      '\r' ∉ chunk) ∧
    (tailLines (some 5) ([.append "\x7b\"cpu\"".toList, .poll, .append ":0\x7d\n\x7b".toList,
      .elapse 1] ++ [.poll])).yielded = ["\x7b\"cpu\":0\x7d\n".toList] := by
  have hcr : ∀ chunk, .append chunk ∈
        [.append "\x7b\"cpu\"".toList, .poll, .append ":0\x7d\n\x7b".toList, TailEvent.elapse 1] →
      '\r' ∉ chunk := by
    intro chunk hmem
    simp only [List.mem_cons, TailEvent.append.injEq, reduceCtorEq, List.not_mem_nil, false_or,
      or_false] at hmem
    rcases hmem with rfl | rfl <;> decide
  exact ⟨hcr, (tailLines_follows (some 5) _ hcr).2.1 (by decide) _ (by decide)⟩

/-- A `"\r\n"` that arrives in two pieces is two line ends, so that two lines are yielded where the
file has one; and a line that is JSON but not an object is no event. -/
theorem tailLines_carriage_return :
    (¬ ∀ es, ∃ n, (tailLines none es).yielded
      = (completeLines '\n' (tailLines none es).content).take n) ∧
    ¬ ∀ (py : Python) (loads : List Char → Option Json) (es : List TailEvent),
      ∃ st, runInteractive py loads false (tailLines none es).yielded = .ok st ∧
        st.nEvents = ((tailLines none es).yielded.filterMap loads).length := by
  constructor
  · intro hall
    obtain ⟨n, hn⟩ := hall [.append "a\r".toList, .poll, .append "\n".toList, .poll]
    have hyielded : (tailLines none [.append "a\r".toList, .poll, .append "\n".toList,
        .poll]).yielded.length = 2 := by decide
    have hlines : (completeLines '\n' (tailLines none [.append "a\r".toList, .poll,
        .append "\n".toList, .poll]).content).length = 1 := by decide
    have hle := List.length_take_le' n (completeLines '\n' (tailLines none
      [.append "a\r".toList, .poll, .append "\n".toList, .poll]).content)
    rw [← hn, hyielded, hlines] at hle
    exact absurd hle (by decide)
  · intro hall
    obtain ⟨st, hst, -⟩ := hall somePython (fun _ => some (.num (.ofInt 5)))
      [.append "5\n".toList, .poll]
    have hyielded : (tailLines none [.append "5\n".toList, .poll]).yielded
        = ["5\n".toList] := by decide
    rw [hyielded] at hst
    exact nomatch (show Except.error PyError.attributeError = Except.ok st from hst)

end SyscallMonitor
