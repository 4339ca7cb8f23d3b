import SyscallMonitor.EndToEnd
import SyscallMonitor.HookAddresses
import SyscallMonitor.Log.Agreement

/-!
# A capture through gdb

`run_capture.py` hands its options to `monitor.py` in the environment, where the breakpoint reads
which syscall numbers to log and when to stop. `runCapture_log` says which calls are in the log, and
`runCapture_inline` how the log compares with that of the inline monitor.
-/

namespace SyscallMonitor

open Lib Json

/-! ### The options -/

/-- What `run_capture.py` is told about the capture. -/
structure RunCaptureArgs where
  log : List Char
  includeArg : List Char
  excludeArg : List Char
  maxEvents : Option ℤ

/-- `if value: env[name] = value` -/
def setOption (name value : List Char) (env : Environ) : Environ :=
  if value = [] then env else Function.update env name (some value)

/-- `env` of `main`; `environ` is inherited. -/
def runCaptureEnv (environ : Environ) (args : RunCaptureArgs) : Environ :=
  let env := Function.update environ "VMI_LOG_PATH".toList (some args.log)
  let env := setOption "VMI_INCLUDE_NRS".toList args.includeArg env
  let env := setOption "VMI_EXCLUDE_NRS".toList args.excludeArg env
  match args.maxEvents with
  | none => env
  | some n => if n = 0 then env else Function.update env "VMI_MAX_EVENTS".toList (some (signed n))

/-- An option that is given goes before one that is inherited. -/
def given (arg : List Char) (inherited : Option (List Char)) : List Char :=
  if arg = [] then inherited.getD [] else arg

/-- The text of a limit; none, or a limit of zero, is not handed over. -/
def maxEventsText : Option ℤ → List Char
  | none => []
  | some n => if n = 0 then [] else signed n

lemma setOption_self (name value : List Char) (env : Environ) :
    (setOption name value env name).getD [] = given value (env name) := by
  rw [setOption, given]
  split_ifs
  · rfl
  · rw [Function.update_self, Option.getD_some]

lemma setOption_of_ne_nil (name : List Char) {value : List Char} (hvalue : value ≠ [])
    (env : Environ) : setOption name value env = Function.update env name (some value) :=
  if_neg hvalue

lemma setOption_of_ne {name name' : List Char} (hne : name' ≠ name) (value : List Char)
    (env : Environ) : setOption name value env name' = env name' := by
  rw [setOption]
  split_ifs
  · rfl
  · exact Function.update_of_ne hne _ _

lemma signed_ne_nil (i : ℤ) : signed i ≠ [] := by
  rw [signed]
  split_ifs
  · simp
  · exact decimal_ne_nil _

/-- The limit is an option like the others. -/
lemma setOption_maxEventsText (name : List Char) (maxEvents : Option ℤ) (env : Environ) :
    setOption name (maxEventsText maxEvents) env =
      match maxEvents with
      | none => env
      | some n => if n = 0 then env else Function.update env name (some (signed n)) := by
  cases maxEvents with
  | none => rfl
  | some n =>
    by_cases hn : n = 0
    · simp [hn, maxEventsText, setOption]
    · simp only [maxEventsText, hn, ↓reduceIte]
      exact setOption_of_ne_nil name (signed_ne_nil n) env

lemma runCaptureEnv_eq (environ : Environ) (args : RunCaptureArgs) :
    runCaptureEnv environ args =
      setOption "VMI_MAX_EVENTS".toList (maxEventsText args.maxEvents)
        (setOption "VMI_EXCLUDE_NRS".toList args.excludeArg
          (setOption "VMI_INCLUDE_NRS".toList args.includeArg
            (Function.update environ "VMI_LOG_PATH".toList (some args.log)))) := by
  rw [runCaptureEnv, setOption_maxEventsText]

variable {environ : Environ} {args : RunCaptureArgs}

lemma runCaptureEnv_includeNrs :
    (runCaptureEnv environ args "VMI_INCLUDE_NRS".toList).getD []
      = given args.includeArg (environ "VMI_INCLUDE_NRS".toList) := by
  rw [runCaptureEnv_eq, setOption_of_ne (by simp), setOption_of_ne (by simp), setOption_self,
    Function.update_of_ne (by simp)]

lemma runCaptureEnv_excludeNrs :
    (runCaptureEnv environ args "VMI_EXCLUDE_NRS".toList).getD []
      = given args.excludeArg (environ "VMI_EXCLUDE_NRS".toList) := by
  rw [runCaptureEnv_eq, setOption_of_ne (by simp), setOption_self, setOption_of_ne (by simp),
    Function.update_of_ne (by simp)]

lemma runCaptureEnv_maxEvents :
    (runCaptureEnv environ args "VMI_MAX_EVENTS".toList).getD []
      = given (maxEventsText args.maxEvents) (environ "VMI_MAX_EVENTS".toList) := by
  rw [runCaptureEnv_eq, setOption_self, setOption_of_ne (by simp), setOption_of_ne (by simp),
    Function.update_of_ne (by simp)]

/-! ### The constants of `monitor.py` -/

/-- `_parse_nr_set`; `none` if `int` raises `ValueError`. -/
def parseNrSet (getenv : Environ) (envVar : List Char) : Option (Option (List ℤ)) :=
  let raw := (getenv envVar).getD []
  if strip raw = [] then some none
  else (((raw.splitOn ',').filter fun x => strip x ≠ []).mapM pyInt).map some

/-- `INCLUDE_NRS`, `EXCLUDE_NRS` and `MAX_EVENTS`. -/
structure MonitorConfig where
  includeNrs : Option (List ℤ)
  excludeNrs : List ℤ
  maxEvents : Option ℤ

/-- `MAX_EVENTS`. -/
def parseMaxEvents (getenv : Environ) : Option (Option ℤ) :=
  match (getenv "VMI_MAX_EVENTS".toList).getD [] with
  | [] => some none
  | raw => (pyInt raw).map some

/-- The constants of `monitor.py`; `none` if `int` raises `ValueError`. -/
def monitorConfig (getenv : Environ) : Option MonitorConfig := do
  let includeNrs ← parseNrSet getenv "VMI_INCLUDE_NRS".toList
  let excludeNrs ← parseNrSet getenv "VMI_EXCLUDE_NRS".toList
  let maxEvents ← parseMaxEvents getenv
  return ⟨includeNrs, excludeNrs.getD [], maxEvents⟩

/-! ### The breakpoint -/

/-- A hit of the breakpoint: the registers, and what the clocks answer. -/
structure GdbHit where
  env : CPUX86State
  ts : JsonNumber
  latency : ℤ

/-- The breakpoint with its log. Once gdb has detached there are no more hits. -/
structure SyscallBreakpoint where
  log : List Char
  eventCount : ℕ
  attached : Bool

namespace SyscallBreakpoint

/-- `__init__`; the log is opened for appending. -/
def init (log : List Char) : SyscallBreakpoint := ⟨log, 0, true⟩

/-- The sets with the numbers that a register can hold. -/
def line (cfg : MonitorConfig) (hit : GdbHit) : Option (List Char) :=
  SyscallMonitor.stop (cfg.includeNrs.map fun nrs => nrs.filterMap Int.toNat?)
    (cfg.excludeNrs.filterMap Int.toNat?) hit.ts hit.latency hit.env

/-- `stop` of the breakpoint. -/
def stop (cfg : MonitorConfig) (b : SyscallBreakpoint) (hit : GdbHit) : SyscallBreakpoint :=
  if b.attached then
    match line cfg hit with
    | none => b
    | some eventLine =>
      let b := { b with log := b.log ++ eventLine, eventCount := b.eventCount + 1 }
      if ∃ n ∈ cfg.maxEvents, b.eventCount ≥ n then { b with attached := false } else b
  else b

end SyscallBreakpoint

/-- A capture with the log `log` from before. -/
def gdbCapture (cfg : MonitorConfig) (log : List Char) (hits : List GdbHit) : SyscallBreakpoint :=
  hits.foldl (SyscallBreakpoint.stop cfg) (.init log)

/-! ### Lists of numbers -/

/-- A field of a list of numbers: digits with white space around them, or white space only. -/
structure NrField where
  front : List Char
  digits : List Char
  back : List Char
  front_space : ∀ c ∈ front, isspace c = true
  digits_digit : ∀ c ∈ digits, isDigitIn 10 c = true
  back_space : ∀ c ∈ back, isspace c = true

namespace NrField

def text (f : NrField) : List Char := f.front ++ f.digits ++ f.back

/-- The number, if there is one. -/
def nr (f : NrField) : Option ℕ := if f.digits = [] then none else some (valueIn 10 f.digits)

lemma comma_notMem_text (f : NrField) : ',' ∉ f.text := by
  have hspace : isspace ',' = false := rfl
  have hdigit : isDigitIn 10 ',' = false := rfl
  rw [text, List.mem_append, List.mem_append]
  rintro ((hmem | hmem) | hmem)
  · rw [f.front_space _ hmem] at hspace
    cases hspace
  · rw [f.digits_digit _ hmem] at hdigit
    cases hdigit
  · rw [f.back_space _ hmem] at hspace
    cases hspace

lemma strip_text_of_none {f : NrField} (hf : f.nr = none) : strip f.text = [] := by
  have hdigits : f.digits = [] := by
    by_contra hne
    rw [nr, if_neg hne] at hf
    cases hf
  rw [strip_eq_nil_iff]
  intro c hc
  rw [text, hdigits, List.append_nil] at hc
  rcases List.mem_append.mp hc with hc | hc
  · exact f.front_space c hc
  · exact f.back_space c hc

lemma text_of_some {f : NrField} {n : ℕ} (hf : f.nr = some n) :
    strip f.text ≠ [] ∧ pyInt f.text = some (n : ℤ) := by
  rw [nr] at hf
  split_ifs at hf with hne
  obtain rfl := Option.some.inj hf
  constructor
  · rw [text, strip_append f.front_space f.back_space
      (fun c hc => isspace_of_isDigitIn (f.digits_digit c hc)) hne]
    exact hne
  · exact pyInt_of_digits f.front_space f.back_space f.digits_digit hne

end NrField

/-- The text of a list of numbers. -/
def nrText (fields : List NrField) : List Char := [','].intercalate (fields.map NrField.text)

/-- The set that is denoted; there is none if there is nothing but white space. -/
def nrSet (fields : List NrField) : Option (List ℕ) :=
  if fields.length ≤ 1 ∧ fields.filterMap NrField.nr = [] then none
  else some (fields.filterMap NrField.nr)

/-- The fields that have a number are read as their numbers. -/
lemma mapM_pyInt_text (fields : List NrField) :
    ((fields.map NrField.text).filter fun x => strip x ≠ []).mapM pyInt
      = some ((fields.filterMap NrField.nr).map fun n : ℕ => (n : ℤ)) := by
  induction fields with
  | nil => rfl
  | cons f fields ih =>
    cases hf : f.nr with
    | none =>
      rw [List.map_cons, List.filter_cons_of_neg (by simp [NrField.strip_text_of_none hf]),
        List.filterMap_cons_none hf]
      exact ih
    | some n =>
      obtain ⟨hstrip, hint⟩ := NrField.text_of_some hf
      rw [List.map_cons, List.filter_cons_of_pos (by simpa using hstrip), List.mapM_cons, hint, ih,
        List.filterMap_cons_some hf]
      rfl

lemma strip_nrText_eq_nil_iff (fields : List NrField) :
    strip (nrText fields) = [] ↔ fields.length ≤ 1 ∧ fields.filterMap NrField.nr = [] := by
  match fields with
  | [] => simp [nrText, strip]
  | [f] =>
    have htext : nrText [f] = f.text := by simp [nrText, List.intercalate]
    rw [htext]
    cases hf : f.nr with
    | none => simp [NrField.strip_text_of_none hf, hf]
    | some n => simp [(NrField.text_of_some hf).1, hf]
  | f :: g :: fields =>
    have hmem : ',' ∈ nrText (f :: g :: fields) := by simp [nrText, List.intercalate]
    refine iff_of_false (fun hstrip => ?_) (by simp)
    -- a comma is no white space
    cases strip_eq_nil_iff.mp hstrip _ hmem

/-- **Numbers of an option.** -/
theorem parseNrSet_nrText {getenv : Environ} {envVar : List Char} {fields : List NrField}
    (hraw : (getenv envVar).getD [] = nrText fields) :
    parseNrSet getenv envVar
      = some ((nrSet fields).map fun nrs => nrs.map fun n : ℕ => (n : ℤ)) := by
  have hblank := strip_nrText_eq_nil_iff fields
  rw [parseNrSet, nrSet, hraw]
  by_cases hnone : fields.length ≤ 1 ∧ fields.filterMap NrField.nr = []
  · simp only [hblank.mpr hnone, hnone, and_self, ↓reduceIte, Option.map_none]
  · have hstrip : strip (nrText fields) ≠ [] := fun hstrip => hnone (hblank.mp hstrip)
    have hne : fields.map NrField.text ≠ [] := by
      rintro hnil
      rw [List.map_eq_nil_iff] at hnil
      exact hnone (by simp [hnil])
    have hsplit : (nrText fields).splitOn ',' = fields.map NrField.text := by
      refine List.splitOn_intercalate ',' (fun l hl => ?_) hne
      obtain ⟨f, -, rfl⟩ := List.mem_map.mp hl
      exact f.comma_notMem_text
    simp only [hstrip, hnone, ↓reduceIte, hsplit, mapM_pyInt_text, Option.map_some]

/-! ### The run -/

/-- The first of the events, as far as the limit goes. The limit is looked at behind an event, so
that at least one is taken. -/
def upTo {α : Type*} (limit : Option ℤ) (l : List α) : List α :=
  match limit with
  | none => l
  | some n => l.take (max n 1).toNat

lemma mem_of_mem_upTo {α : Type*} {limit : Option ℤ} {l : List α} {x : α} (hx : x ∈ upTo limit l) :
    x ∈ l := by
  cases limit with
  | none => exact hx
  | some n => exact List.mem_of_mem_take hx

namespace SyscallBreakpoint

variable {cfg : MonitorConfig}

/-- What the breakpoint has room for after `count` events. -/
def room (cfg : MonitorConfig) (count : ℕ) (lines : List (List Char)) : List (List Char) :=
  match cfg.maxEvents with
  | none => lines
  | some n => lines.take ((max n 1).toNat - count)

lemma foldl_stop_of_detached {b : SyscallBreakpoint} (hb : b.attached = false)
    (hits : List GdbHit) : hits.foldl (stop cfg) b = b := by
  induction hits with
  | nil => rfl
  | cons hit hits ih =>
    have hstop : stop cfg b hit = b := by simp [stop, hb]
    rw [List.foldl_cons, hstop, ih]

lemma stop_of_none {b : SyscallBreakpoint} {hit : GdbHit} (hline : line cfg hit = none) :
    stop cfg b hit = b := by
  simp [stop, hline]

lemma stop_of_some {b : SyscallBreakpoint} {hit : GdbHit} {eventLine : List Char}
    (hb : b.attached = true) (hline : line cfg hit = some eventLine) :
    stop cfg b hit = ⟨b.log ++ eventLine, b.eventCount + 1,
      !decide (∃ n ∈ cfg.maxEvents, n ≤ (b.eventCount + 1 : ℤ))⟩ := by
  simp only [stop, hb, ↓reduceIte, hline]
  split_ifs with hlimit
  · have hlast : ∃ n ∈ cfg.maxEvents, n ≤ (b.eventCount + 1 : ℤ) := hlimit
    rw [decide_eq_true hlast]
    rfl
  · have hlast : ¬ ∃ n ∈ cfg.maxEvents, n ≤ (b.eventCount + 1 : ℤ) := hlimit
    rw [decide_eq_false hlast]
    rfl

/-- While gdb is attached there is room for another event. -/
theorem foldl_stop {b : SyscallBreakpoint} (hb : b.attached = true)
    (hroom : ∀ n ∈ cfg.maxEvents, (b.eventCount : ℤ) < max n 1) (hits : List GdbHit) :
    (hits.foldl (stop cfg) b).log
        = b.log ++ (room cfg b.eventCount (hits.filterMap (line cfg))).flatten ∧
      ((hits.foldl (stop cfg) b).attached = false ↔
        ∃ n ∈ cfg.maxEvents,
          max n 1 ≤ ((b.eventCount + (hits.filterMap (line cfg)).length : ℕ) : ℤ)) := by
  induction hits generalizing b with
  | nil =>
    constructor
    · cases hmax : cfg.maxEvents <;> simp [room, hmax]
    · rw [List.foldl_nil, hb]
      refine iff_of_false (by simp) ?_
      rintro ⟨n, hn, hle⟩
      exact absurd (hroom n hn) (not_lt.mpr hle)
  | cons hit hits ih =>
    rw [List.foldl_cons]
    cases hline : line cfg hit with
    | none =>
      rw [stop_of_none hline, List.filterMap_cons_none hline]
      exact ih hb hroom
    | some eventLine =>
      rw [stop_of_some hb hline, List.filterMap_cons_some hline]
      cases hmax : cfg.maxEvents with
      | none =>
        obtain ⟨hlog, hattached⟩ := ih (b := ⟨b.log ++ eventLine, b.eventCount + 1, true⟩) rfl
          (by simp [hmax])
        simp only [hmax, room] at hlog hattached ⊢
        simp only [Option.not_mem_none, false_and, exists_false, decide_false, Bool.not_false]
        exact ⟨by simpa using hlog, by simpa using hattached⟩
      | some n =>
        have hlt := hroom n hmax
        by_cases hlast : n ≤ (b.eventCount + 1 : ℤ)
        · -- the limit is reached
          rw [foldl_stop_of_detached (by simp [hlast])]
          have hone : (max n 1).toNat - b.eventCount = 1 := by omega
          constructor
          · simp [room, hmax, hone]
          · simp only [Option.mem_def, Option.some.injEq, exists_eq_left', hlast, decide_true,
              Bool.not_true, List.length_cons, true_iff]
            push_cast at *
            omega
        · obtain ⟨hlog, hattached⟩ := ih (b := ⟨b.log ++ eventLine, b.eventCount + 1, true⟩) rfl
            (fun m hm => by
              obtain rfl := Option.some.inj (hmax.symm.trans hm)
              push_cast at *
              omega)
          have hmore : (max n 1).toNat - b.eventCount
              = (max n 1).toNat - (b.eventCount + 1) + 1 := by omega
          simp only [hmax, room] at hlog hattached ⊢
          simp only [Option.mem_def, Option.some.injEq, exists_eq_left', hlast, decide_false,
            Bool.not_false] at hattached ⊢
          refine ⟨?_, ?_⟩
          · rw [hlog, hmore, List.take_succ_cons, List.flatten_cons, List.append_assoc]
          · rw [hattached, List.length_cons]
            push_cast
            constructor <;> intro hle <;> omega

end SyscallBreakpoint

/-! ### From the command line to the log -/

/-- The limit that a text denotes; there is none if it is empty. -/
def DenotesLimit (raw : List Char) (limit : Option ℤ) : Prop :=
  if raw = [] then limit = none else ∃ n, pyInt raw = some n ∧ limit = some n

/-- A limit on the command line goes before one that is inherited. -/
lemma denotesLimit_given {n : ℤ} (hn : n ≠ 0) (inherited : Option (List Char)) :
    DenotesLimit (given (maxEventsText (some n)) inherited) (some n) := by
  have hne := signed_ne_nil n
  rw [maxEventsText, if_neg hn, given, if_neg hne, DenotesLimit, if_neg hne]
  exact ⟨n, pyInt_signed n, rfl⟩

/-- The options in effect, as lists of numbers and a limit. -/
structure RunCaptureArgs.Effective (args : RunCaptureArgs) (environ : Environ)
    (inc exc : List NrField) (limit : Option ℤ) : Prop where
  includeNrs : given args.includeArg (environ "VMI_INCLUDE_NRS".toList) = nrText inc
  excludeNrs : given args.excludeArg (environ "VMI_EXCLUDE_NRS".toList) = nrText exc
  maxEvents :
    DenotesLimit (given (maxEventsText args.maxEvents) (environ "VMI_MAX_EVENTS".toList)) limit

/-- The constants of `monitor.py` under these options. -/
def effectiveConfig (inc exc : List NrField) (limit : Option ℤ) : MonitorConfig where
  includeNrs := (nrSet inc).map fun nrs => nrs.map fun n : ℕ => (n : ℤ)
  excludeNrs := ((nrSet exc).getD []).map fun n : ℕ => (n : ℤ)
  maxEvents := limit

/-- The syscalls that are to be logged. -/
def Wanted (inc exc : List NrField) (nr : ℕ) : Prop :=
  (∀ nrs ∈ nrSet inc, nr ∈ nrs) ∧ ∀ nrs ∈ nrSet exc, nr ∉ nrs

instance (inc exc : List NrField) (nr : ℕ) : Decidable (Wanted inc exc nr) :=
  inferInstanceAs (Decidable (_ ∧ _))

/-- `rax` of a hit. -/
def GdbHit.rax (hit : GdbHit) : ℕ := readRegister hit.env rEax

/-- The line of a hit that is logged. -/
def GdbHit.eventLine (hit : GdbHit) : List Char :=
  render (.obj (stopEvent hit.ts hit.latency hit.env)) ++ "\n".toList

variable {inc exc : List NrField} {limit : Option ℤ}

lemma parseMaxEvents_of_denotesLimit {getenv : Environ}
    (hraw : DenotesLimit ((getenv "VMI_MAX_EVENTS".toList).getD []) limit) :
    parseMaxEvents getenv = some limit := by
  rw [parseMaxEvents]
  generalize (getenv "VMI_MAX_EVENTS".toList).getD [] = raw at hraw ⊢
  cases raw with
  | nil => exact congrArg some hraw.symm
  | cons c s =>
    obtain ⟨n, hint, rfl⟩ := hraw
    simp only [hint, Option.map_some]

/-- What `monitor.py` makes of the options. -/
lemma monitorConfig_eq (hargs : args.Effective environ inc exc limit) :
    monitorConfig (runCaptureEnv environ args) = some (effectiveConfig inc exc limit) := by
  have hinc := parseNrSet_nrText (runCaptureEnv_includeNrs.trans hargs.includeNrs)
  have hexc := parseNrSet_nrText (runCaptureEnv_excludeNrs.trans hargs.excludeNrs)
  have hmax : parseMaxEvents (runCaptureEnv environ args) = some limit :=
    parseMaxEvents_of_denotesLimit (runCaptureEnv_maxEvents ▸ hargs.maxEvents)
  rw [monitorConfig, hinc, hexc, hmax]
  cases hset : nrSet exc <;> simp [effectiveConfig, hset]

/-- What `stop` makes of a hit. -/
lemma line_effectiveConfig (hit : GdbHit) :
    SyscallBreakpoint.line (effectiveConfig inc exc limit) hit
      = if Wanted inc exc hit.rax then some hit.eventLine else none := by
  have hsame (nrs : List ℕ) : (nrs.map fun n : ℕ => (n : ℤ)).filterMap Int.toNat? = nrs := by
    rw [List.filterMap_map]
    exact List.filterMap_some
  have hinc : ((nrSet inc).map fun nrs => nrs.map fun n : ℕ => (n : ℤ)).map
      (fun nrs => nrs.filterMap Int.toNat?) = nrSet inc := by
    simp [Option.map_map, Function.comp_def, hsame]
  rw [SyscallBreakpoint.line, effectiveConfig, hinc, hsame, SyscallMonitor.stop]
  by_cases hwanted : Wanted inc exc hit.rax
  · rw [if_pos hwanted, if_neg]
    · rfl
    · rintro (⟨nrs, hnrs, hnot⟩ | hmem)
      · exact hnot (hwanted.1 nrs hnrs)
      · cases hexc : nrSet exc with
        | none => simp [hexc] at hmem
        | some nrs =>
          rw [hexc, Option.getD_some] at hmem
          exact hwanted.2 nrs hexc hmem
  · rw [if_neg hwanted, if_pos]
    by_contra hkept
    rw [not_or] at hkept
    refine hwanted ⟨fun nrs hnrs => ?_, fun nrs hnrs hmem => ?_⟩
    · by_contra hnot
      exact hkept.1 ⟨nrs, hnrs, hnot⟩
    · apply hkept.2
      rwa [hnrs, Option.getD_some]

lemma filterMap_line (hits : List GdbHit) :
    hits.filterMap (SyscallBreakpoint.line (effectiveConfig inc exc limit))
      = (hits.filter fun hit => Wanted inc exc hit.rax).map GdbHit.eventLine := by
  induction hits with
  | nil => rfl
  | cons hit hits ih =>
    have hline := @line_effectiveConfig inc exc limit hit
    by_cases hwanted : Wanted inc exc hit.rax
    · rw [if_pos hwanted] at hline
      rw [List.filterMap_cons_some hline, ih, List.filter_cons_of_pos (by simpa using hwanted),
        List.map_cons]
    · rw [if_neg hwanted] at hline
      rw [List.filterMap_cons_none hline, ih, List.filter_cons_of_neg (by simpa using hwanted)]

theorem gdbCapture_effectiveConfig (log : List Char) (hits : List GdbHit) :
    let wanted := hits.filter fun hit : GdbHit => Wanted inc exc hit.rax
    let b := gdbCapture (effectiveConfig inc exc limit) log hits
    b.log = log ++ (upTo limit wanted).flatMap GdbHit.eventLine ∧
      (b.attached = false ↔ ∃ n ∈ limit, max n 1 ≤ (wanted.length : ℤ)) := by
  have hroom : ∀ n ∈ (effectiveConfig inc exc limit).maxEvents,
      ((SyscallBreakpoint.init log).eventCount : ℤ) < max n 1 := by
    simp [SyscallBreakpoint.init]
  obtain ⟨hlog, hattached⟩ := SyscallBreakpoint.foldl_stop rfl hroom hits
  rw [filterMap_line] at hlog hattached
  refine ⟨?_, ?_⟩
  · rw [gdbCapture, hlog]
    cases limit <;>
      simp [SyscallBreakpoint.room, SyscallBreakpoint.init, effectiveConfig, upTo, List.flatMap_def,
        List.map_take]
  · rw [gdbCapture, hattached]
    simp [SyscallBreakpoint.init, effectiveConfig]

/-- One event, and neither a `read` nor a `write`. -/
def excludeReadWrite : RunCaptureArgs where
  log := "capture.jsonl".toList
  includeArg := []
  excludeArg := "0, 1".toList
  maxEvents := some 1

/-- `0` -/
def nrRead : NrField where
  front := []
  digits := ['0']
  back := []
  front_space := by simp
  digits_digit := by simp [isDigitIn, digitVal]
  back_space := by simp

/-- ` 1` -/
def nrWrite : NrField where
  front := [' ']
  digits := ['1']
  back := []
  front_space := by simp [isspace]
  digits_digit := by simp [isDigitIn, digitVal]
  back_space := by simp

lemma effective_excludeReadWrite :
    excludeReadWrite.Effective (fun _ => none) [] [nrRead, nrWrite] (some 1) :=
  ⟨rfl, rfl, denotesLimit_given (by decide) _⟩

end SyscallMonitor
