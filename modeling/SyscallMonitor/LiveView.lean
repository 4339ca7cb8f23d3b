import SyscallMonitor.Log.Tail
import SyscallMonitor.Validate

/-!
# The log of the monitor, as it is watched

`run_interactive` reads the log while the monitor writes it. Every line of the monitor is an event
that can be shown, so that nothing is skipped: at any time the events counted are the first lines of
the log, and a reader that goes on polling catches up.
-/

namespace SyscallMonitor

open Lib Json

/-! ### The text that has been written -/

/-- Lines cut off a text are lines of any longer one. -/
lemma completeLines_of_isPrefix {α : Type*} [DecidableEq α] {nl : α} {s t : List α} (h : s <+: t) :
    completeLines nl s <+: completeLines nl t := by
  obtain ⟨u, rfl⟩ := h
  induction hn : s.length using Nat.strongRecOn generalizing s with
  | ind n ih =>
    cases hline : nextLine nl s with
    | none =>
      rw [completeLines_of_none hline]
      exact List.nil_prefix
    | some r =>
      obtain ⟨l, rest⟩ := r
      obtain ⟨rfl, hl⟩ := nextLine_eq_some hline
      have hlen : rest.length < n := by
        obtain ⟨body, rfl, -⟩ := hl.terminated
        simp only [List.length_append, List.length_singleton] at hn
        omega
      rw [completeLines_of_some hline, List.append_assoc, completeLines_of_some (hl.nextLine _),
        List.prefix_cons_inj]
      exact ih _ hlen rfl

/-- What an event appends to the log. -/
def TailEvent.chunk : TailEvent → List Char
  | .append chunk => chunk
  | .elapse _ => []
  | .poll => []

/-- What has been appended to the log. -/
def written (es : List TailEvent) : List Char := es.flatMap TailEvent.chunk

lemma content_tailLines (deadline : Option ℕ) (es : List TailEvent) :
    (tailLines deadline es).content = written es := by
  induction es using List.reverseRecOn with
  | nil => rfl
  | append_singleton es e ih =>
    rw [tailLines_concat, written, List.flatMap_append, ← written, ← ih]
    cases e with
    | append chunk => simp [Tail.step, Tail.content, TailEvent.chunk]
    | elapse dt => simp [Tail.step, Tail.content, TailEvent.chunk]
    | poll => simp [Tail.step, Tail.content, Tail.poll_file, TailEvent.chunk]

lemma mem_written {es : List TailEvent} {chunk : List Char} (h : .append chunk ∈ es) {c : Char}
    (hc : c ∈ chunk) : c ∈ written es :=
  List.mem_flatMap.mpr ⟨.append chunk, h, hc⟩

section

variable (h : Hooks) {strerrornameNp : ℤ → Option (List Char)} (hnames : PlainNames strerrornameNp)
  {lines : List LogLine} (hl : ∀ l ∈ lines, l.tv.Valid)

include hnames hl

lemma isLine_vmiWriteEvent : ∀ line ∈ lines.map (vmiWriteEvent h strerrornameNp),
    IsLine '\n' line := by
  intro line hline
  obtain ⟨l, hmem, rfl⟩ := List.mem_map.mp hline
  exact ⟨_, vmiWriteEvent_eq h hnames (hl l hmem), newline_not_mem_render _⟩

/-- The lines of the log are those of the monitor. -/
lemma completeLines_logText : completeLines '\n' (logText h strerrornameNp lines)
    = lines.map (vmiWriteEvent h strerrornameNp) := by
  have hflat := completeLines_flatten_append (isLine_vmiWriteEvent h hnames hl) []
  rwa [List.append_nil, completeLines_nil, List.append_nil, ← List.flatMap_def] at hflat

lemma carriage_return_notMem_logText : '\r' ∉ logText h strerrornameNp lines := by
  intro hmem
  obtain ⟨l, hline, hc⟩ := List.mem_flatMap.mp hmem
  rw [vmiWriteEvent_eq h hnames (hl l hline)] at hc
  rcases List.mem_append.mp hc with hc | hc
  · exact (unbroken_render _).2 hc
  · exact absurd (List.mem_singleton.mp hc) (by decide)

/-- What is read is parsed as what was written. -/
lemma filterMap_parse : (lines.map (vmiWriteEvent h strerrornameNp)).filterMap parse
    = lines.map fun l => .obj (l.members h strerrornameNp) := by
  induction lines with
  | nil => rfl
  | cons l lines ih =>
    obtain ⟨hvalid, hl⟩ := List.forall_mem_cons.mp hl
    rw [List.map_cons, List.filterMap_cons_some (parse_vmiWriteEvent h hnames hvalid), ih hl,
      List.map_cons]

/-- What has been yielded are the first lines of the monitor. -/
lemma yielded_tailLines (deadline : Option ℕ) {es : List TailEvent}
    (hwritten : written es <+: logText h strerrornameNp lines) :
    (tailLines deadline es).yielded
        = (lines.take (tailLines deadline es).yielded.length).map (vmiWriteEvent h strerrornameNp) ∧
      (tailLines deadline es).yielded.length ≤ lines.length := by
  have hcr : ∀ chunk, .append chunk ∈ es → '\r' ∉ chunk := fun chunk hchunk hmem =>
    carriage_return_notMem_logText h hnames hl (hwritten.subset (mem_written hchunk hmem))
  have hfollows := following_tailLines deadline hcr
  have hpre : (tailLines deadline es).yielded <+: lines.map (vmiWriteEvent h strerrornameNp) := by
    rw [← completeLines_logText h hnames hl]
    refine List.IsPrefix.trans ?_ (completeLines_of_isPrefix hwritten)
    rw [← content_tailLines deadline, hfollows.completeLines_content]
    exact List.prefix_append _ _
  refine ⟨?_, ?_⟩
  · rw [List.map_take]
    exact List.prefix_iff_eq_take.mp hpre
  · simpa using hpre.length_le

/-- Without a deadline, a poll that finds a line left yields one. -/
lemma length_yielded_polls {es : List TailEvent}
    (hwritten : written es = logText h strerrornameNp lines) (k : ℕ) :
    min lines.length k ≤ (tailLines none (es ++ .replicate k .poll)).yielded.length := by
  have hcr : ∀ k, ∀ chunk, .append chunk ∈ es ++ List.replicate k .poll → '\r' ∉ chunk := by
    intro k chunk hchunk hmem
    have hold : .append chunk ∈ es := by simpa using hchunk
    have htext : '\r' ∈ logText h strerrornameNp lines := hwritten ▸ mem_written hold hmem
    exact carriage_return_notMem_logText h hnames hl htext
  have hpolls : ∀ k, written (es ++ List.replicate k .poll) = logText h strerrornameNp lines := by
    intro k
    rw [← hwritten]
    simp [written, TailEvent.chunk]
  induction k with
  | zero => simp
  | succ k ih =>
    have hfollows := following_tailLines none (hcr k)
    have hpoll := (hfollows.poll (not_mem_content_tailLines none (hcr k))).2
    have hnow : ¬ (tailLines none (es ++ List.replicate k .poll)).Expired none := by
      rintro ⟨d, hd, -⟩
      cases hd
    rw [if_neg hnow, content_tailLines, hpolls, completeLines_logText h hnames hl] at hpoll
    rw [List.replicate_succ', ← List.append_assoc, tailLines_concat, Tail.step, hpoll,
      List.length_append]
    by_cases hlt : (tailLines none (es ++ List.replicate k .poll)).yielded.length < lines.length
    · rw [List.getElem?_eq_getElem (by simpa using hlt), Option.toList_some, List.length_singleton]
      omega
    · omega

end

/-! ### What is shown -/

/-- All lines, or those from the first `accept4` on. -/
def shownLines (showAfterReady : Bool) (lines : List LogLine) : List LogLine :=
  if showAfterReady then lines.dropWhile fun l => syscallName l.num ≠ "accept4".toList else lines

lemma startsReady_members (h : Hooks) (strerrornameNp : ℤ → Option (List Char)) (l : LogLine) :
    startsReady (.obj (l.members h strerrornameNp))
      = decide (syscallName l.num = "accept4".toList) := by
  have hget : get? (l.members h strerrornameNp) "syscall".toList
      = some (.str (syscallName l.num)) := by
    rw [get?_members h strerrornameNp l (by decide)]
    rfl
  rw [startsReady, isAccept4, hget]
  generalize syscallName l.num = name
  generalize "accept4".toList = accept4
  simp [str?, Except.toOption]

lemma shownEvents_members (h : Hooks) (strerrornameNp : ℤ → Option (List Char))
    (showAfterReady : Bool) (lines : List LogLine) :
    shownEvents showAfterReady (lines.map fun l => .obj (l.members h strerrornameNp))
      = (shownLines showAfterReady lines).map fun l => .obj (l.members h strerrornameNp) := by
  cases showAfterReady with
  | false => rfl
  | true =>
    simp only [shownEvents, shownLines, ↓reduceIte, List.dropWhile_map, Function.comp_def,
      startsReady_members, decide_not]

/-- **The live view of the monitor.** In whatever pieces the monitor's lines reach the file and
whenever it is polled, the events counted are the first lines, none skipped, and exactly these are
shown, each in the form of `format_event`, or those from the first `accept4` on. Without a deadline,
as many polls as there are lines catch up with the log. -/
theorem runInteractive_logText (h : Hooks) (strerrornameNp : ℤ → Option (List Char))
    (hnames : PlainNames strerrornameNp) (py : Python) (hclock : py.ClockRuns)
    (lines : List LogLine) (hl : ∀ l ∈ lines, l.Normalised) (deadline : Option ℕ)
    (es : List TailEvent) (hwritten : written es <+: logText h strerrornameNp lines)
    (showAfterReady : Bool) :
    ∃ n ≤ lines.length, ∃ st texts,
      runInteractive py parse showAfterReady (tailLines deadline es).yielded = .ok st ∧
      st.nEvents = n ∧
      List.Forall₂ (fun l text => formatEvent py (.obj (l.members h strerrornameNp)) = .ok text)
        (shownLines showAfterReady (lines.take n)) texts ∧
      st.shown = (if showAfterReady = true ∧ shownLines true (lines.take n) ≠ [] then
        [.ready] else []) ++ texts.map .event ∧
      ∀ es' k, deadline = none → es = es' ++ .replicate k .poll →
        written es' = logText h strerrornameNp lines → lines.length ≤ k → n = lines.length := by
  have hvalid : ∀ l ∈ lines, l.tv.Valid := fun l hmem => (hl l hmem).1.toValid
  obtain ⟨hyielded, hle⟩ := yielded_tailLines h hnames hvalid deadline hwritten
  generalize hn : (tailLines deadline es).yielded.length = n at hyielded hle
  have htake : ∀ l ∈ lines.take n, l.Normalised := fun l hmem => hl l (List.mem_of_mem_take hmem)
  have hparse := filterMap_parse h hnames fun l hmem => (htake l hmem).1.toValid
  rw [← hyielded] at hparse
  have hprints : ∀ evt ∈ (tailLines deadline es).yielded.filterMap parse,
      ∃ text, Prints py evt text := by
    rw [hparse]
    intro evt hevt
    obtain ⟨l, hmem, rfl⟩ := List.mem_map.mp hevt
    exact formatEvent_of_reports hclock (htake l hmem).1
      (reports_members h strerrornameNp (htake l hmem))
  obtain ⟨st, texts, hrun, hcount, htexts, hshown⟩ :=
    runInteractive_spec py parse showAfterReady hprints
  rw [hparse, List.length_map, List.length_take, Nat.min_eq_left hle] at hcount
  rw [hparse, shownEvents_members, List.forall₂_map_left_iff] at htexts
  simp only [hparse, shownEvents_members, ne_eq, List.map_eq_nil_iff] at hshown
  refine ⟨n, hle, st, texts, hrun, hcount, htexts, hshown, ?_⟩
  rintro es' k rfl rfl htext hk
  have hpolls := length_yielded_polls h hnames hvalid htext k
  rw [hn] at hpolls
  omega

/-- `runInteractive_logText` on a line that is read when half of it has been written. -/
theorem openat_runInteractive_logText :
    ∃ n ≤ 1, ∃ st, runInteractive somePython parse false
        (tailLines none [.append ((logText nginxHooks (fun _ => none) [openatLine]).take 20), .poll,
          .append ((logText nginxHooks (fun _ => none) [openatLine]).drop 20), .poll]).yielded
          = .ok st ∧ st.nEvents = n := by
  have hline : ∀ l ∈ [openatLine], l.Normalised := by
    intro l hl
    obtain rfl := List.mem_singleton.mp hl
    refine ⟨⟨⟨by decide, by decide, by decide⟩, by decide⟩, ?_⟩
    rintro ret retTv hkind
    cases hkind
    exact ⟨⟨by decide, by decide, by decide⟩, by decide⟩
  have hpieces (text : List Char) :
      written [.append (text.take 20), .poll, .append (text.drop 20), .poll] <+: text := by
    simp [written, TailEvent.chunk]
  obtain ⟨n, hn, st, -, hrun, hcount, -⟩ := runInteractive_logText nginxHooks (fun _ => none)
    plainNames_none somePython (fun _ _ _ => ⟨_, rfl⟩) [openatLine] hline none _ (hpieces _) false
  exact ⟨n, hn, st, hrun, hcount⟩

end SyscallMonitor
