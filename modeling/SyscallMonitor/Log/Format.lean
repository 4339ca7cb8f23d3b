import SyscallMonitor.Log.Event

/-!
# The live view of a line

`format_event` and `format_ret` of `run_capture_inline.py`, which print a parsed line, and that they
accept whatever `vmi_write_event` has written.
-/

namespace SyscallMonitor

open Lib Json

/-! ### `format_event` -/

/-- What Python raises on a missing key, on a value of the wrong type, on an attribute that a value
does not have, and on a time out of range. -/
inductive PyError where
  | keyError (key : List Char)
  | typeError
  | attributeError
  | valueError
  deriving DecidableEq

/-- A number as `json.loads` makes it. -/
inductive PyNumber where
  | int (i : ℤ)
  | float (n : JsonNumber)
  deriving DecidableEq

/-- The unary minus. -/
def PyNumber.neg : PyNumber → PyNumber
  | .int i => .int (-i)
  | .float n => .float { n with mantissa := -n.mantissa }

/-- The number that a value is; a truth value is one too. -/
def toPyNumber : Json → Option PyNumber
  | .bool b => some (.int (if b then 1 else 0))
  | .num n => some (if n.decimals = 0 ∧ n.exponent = none then .int n.mantissa else .float n)
  | _ => none

/-- What the two functions call. -/
structure Python where
  /-- `datetime.fromtimestamp(ts).strftime("%H:%M:%S") + f".{int((ts % 1) * 1000):03d}"` -/
  clock : PyNumber → Except PyError (List Char)
  /-- `n in errno.errorcode` -/
  inErrorcode : PyNumber → Bool
  /-- `os.strerror(n)` -/
  strerror : ℤ → List Char
  /-- `str(value)` -/
  str : Json → List Char
  /-- `n >= 0x10000`, for a `float` -/
  floatGe : JsonNumber → Bool

/-- `os.strerror(-ret) if -ret in errno.errorcode else "unknown error"`. -/
def errorMessage (py : Python) (ret : PyNumber) : Except PyError (List Char) :=
  if py.inErrorcode ret.neg then
    match ret with
    | .int i => .ok (py.strerror (-i))
    | .float _ => .error .typeError
  else .ok "unknown error".toList

/-- `hex(ret) if ret >= 0x10000 else str(ret)`. -/
def plainResult (py : Python) (ret : Json) : PyNumber → Except PyError (List Char)
  | .int i => .ok (if i ≥ 0x10000 then "0x".toList ++ hexadecimal i.natAbs else py.str ret)
  | .float n => if py.floatGe n then .error .typeError else .ok (py.str ret)

/-- `res` of `format_ret`. -/
def formatResult (py : Python) (ret : Json) (err : Option Json) : Except PyError (List Char) :=
  match toPyNumber ret with
  | none => .error .typeError
  | some n =>
    match err with
    | some err =>
      (errorMessage py n).map fun msg =>
        py.str ret ++ " ".toList ++ py.str err ++ " (".toList ++ msg ++ ")".toList
    | none => plainResult py ret n

/-- `format_ret`. -/
def formatRet (py : Python) (evt : List (List Char × Json)) : Except PyError (List Char) :=
  match get? evt "unfinished".toList with
  | some why => .ok (" = ? <unfinished: ".toList ++ py.str why ++ ">".toList)
  | none =>
    match get? evt "ret".toList with
    | none => .ok []
    | some ret =>
      match formatResult py ret (get? evt "err".toList) with
      | .error e => .error e
      | .ok res =>
        match get? evt "dur_us".toList with
        | none => .error (.keyError "dur_us".toList)
        | some dur => .ok (" = ".toList ++ res ++ "  <".toList ++ py.str dur ++ "us>".toList)

/-- The text of a string, and of nothing else. -/
def str? : Json → Option (List Char)
  | .str s => some s
  | _ => none

/-- `", ".join(args)`; a string is joined character by character, an object key by key. -/
def joinArgs : Json → Except PyError (List Char)
  | .arr xs =>
    match xs.mapM str? with
    | some args => .ok (", ".toList.intercalate args)
    | none => .error .typeError
  | .str s => .ok (", ".toList.intercalate (s.map fun c => [c]))
  | .obj ms => .ok (", ".toList.intercalate (ms.map Prod.fst).eraseDups)
  | _ => .error .typeError

/-- `evt.get("ts", 0.0)` as a time. -/
def formatTime (py : Python) (evt : List (List Char × Json)) : Except PyError (List Char) :=
  match toPyNumber ((get? evt "ts".toList).getD (.num ⟨0, 1, none⟩)) with
  | none => .error .typeError
  | some ts => py.clock ts

/-- `evt.get("syscall", f"syscall_{evt.get('num')}")` -/
def formatName (py : Python) (evt : List (List Char × Json)) : List Char :=
  match get? evt "syscall".toList with
  | some name => py.str name
  | none => "syscall_".toList ++ py.str ((get? evt "num".toList).getD .null)

/-- `format_event`. -/
def formatEvent (py : Python) : Json → Except PyError (List Char)
  | .obj evt => do
    let t ← formatTime py evt
    let args ← joinArgs ((get? evt "args".toList).getD (.arr []))
    let ret ← formatRet py evt
    .ok ("[".toList ++ t ++ "] ".toList ++ formatName py evt ++ "(".toList ++ args ++ ")".toList
      ++ ret)
  | _ => .error .attributeError

/-! ### Every line is accepted -/

/-- `fromtimestamp` and `strftime` accept the times of the lines. -/
def Python.ClockRuns (py : Python) : Prop :=
  ∀ n : ℤ, 0 ≤ n → n < 2 ^ 37 * 10 ^ 6 → ∃ t, py.clock (.float ⟨n, 6, none⟩) = .ok t

variable {py : Python} {l : LogLine} {ms : List (List Char × Json)}

/-- An integer is a result, with or without an error. -/
lemma formatResult_ofInt (py : Python) (i : ℤ) (err : Option Json) :
    ∃ res, formatResult py (.num (.ofInt i)) err = .ok res := by
  have hnumber : toPyNumber (.num (.ofInt i)) = some (.int i) := rfl
  rw [formatResult, hnumber]
  cases err with
  | none => exact ⟨_, rfl⟩
  | some err =>
    simp only [errorMessage]
    split_ifs <;> exact ⟨_, rfl⟩

lemma formatRet_of_reports (py : Python) (hms : ReportsKind l ms) :
    ∃ text, formatRet py ms = .ok text := by
  rw [formatRet]
  rw [ReportsKind] at hms
  cases hkind : l.kind with
  | none =>
    simp only [hkind] at hms
    obtain ⟨hret, -, -, hunf⟩ := hms
    exact ⟨[], by rw [hunf, hret]⟩
  | value ret retTv =>
    simp only [hkind] at hms
    obtain ⟨hret, -, hdur, hunf⟩ := hms
    obtain ⟨res, hres⟩ := formatResult_ofInt py ret.toInt (get? ms "err".toList)
    rw [hunf, hret, hdur]
    simp only [hres]
    exact ⟨_, rfl⟩
  | unfinished why =>
    simp only [hkind] at hms
    obtain ⟨-, -, -, hunf⟩ := hms
    rw [hunf]
    exact ⟨_, rfl⟩

lemma joinArgs_strings (args : List (List Char)) :
    joinArgs (.arr (args.map .str)) = .ok (", ".toList.intercalate args) := by
  have hargs : (args.map Json.str).mapM str? = some args := by
    induction args with
    | nil => rfl
    | cons a args ih => simp [ih, str?]
  rw [joinArgs, hargs]

/-- `format_event` raises nothing on an object that reports an event. -/
theorem formatEvent_of_reports (hclock : py.ClockRuns) (htv : l.tv.Normalised)
    (hms : Reports l ms) : ∃ text, formatEvent py (.obj ms) = .ok text := by
  obtain ⟨n, hts, hsec, husec⟩ := hms.ts
  obtain ⟨args, hargs, -, -⟩ := hms.args
  obtain ⟨ret, hret⟩ := formatRet_of_reports py hms.kind
  obtain ⟨⟨hsec_nonneg, husec_nonneg, husec_lt⟩, hsec_lt⟩ := htv
  obtain ⟨t, ht⟩ := hclock n (by omega) (by omega)
  have htime : formatTime py ms = .ok t := by
    rw [formatTime, hts]
    exact ht
  rw [formatEvent, htime, hargs, hret, Option.getD_some, joinArgs_strings]
  exact ⟨_, rfl⟩

/-! ### Different events have different lines -/

/-- The lines do not differ in a field that is written. -/
structure LogLine.SameFields (l l' : LogLine) : Prop where
  tv : l'.tv = l.tv
  cpuIndex : l'.cpuIndex = l.cpuIndex
  num : l'.num = l.num
  argv : ∀ i : Fin 6, i.val < syscallArgc l.num → l'.argv i = l.argv i
  kind : l'.kind = l.kind

variable {l' : LogLine}

lemma ofInt_injective : Function.Injective JsonNumber.ofInt :=
  fun _ _ h => congrArg JsonNumber.mantissa h

/-- The first arguments are told by their numbers. -/
lemma argv_eq_of_map_eq {argc : ℕ} {argv argv' : Fin 6 → UInt64}
    (heq : ((List.finRange 6).take argc).map (fun i => (argv' i).toNat)
      = ((List.finRange 6).take argc).map fun i => (argv i).toNat) (i : Fin 6)
    (hi : i.val < argc) : argv' i = argv i := by
  have hmem : i ∈ (List.finRange 6).take argc := by
    rw [List.mem_take_iff_getElem]
    refine ⟨i.val, ?_, ?_⟩
    · simp [hi]
    · simp
  exact UInt64.toNat_inj.mp (List.map_inj_left.mp heq i hmem)

/-- A normalised time is told by its difference from another time. -/
lemma Timeval.Normalised.eq_of_sub_eq {tv r r' : Timeval} (hr : r.Normalised) (hr' : r'.Normalised)
    (heq : (r'.tvSec - tv.tvSec) * 1000000 + (r'.tvUsec - tv.tvUsec)
      = (r.tvSec - tv.tvSec) * 1000000 + (r.tvUsec - tv.tvUsec)) : r' = r := by
  obtain ⟨sec, usec⟩ := r
  obtain ⟨sec', usec'⟩ := r'
  obtain ⟨⟨h1, h2, h3⟩, h4⟩ := hr
  obtain ⟨⟨h5, h6, h7⟩, h8⟩ := hr'
  simp only at *
  congr 1 <;> omega

lemma UnfinishedWhy.text_injective : Function.Injective UnfinishedWhy.text := by
  intro w w' heq
  cases w <;> cases w' <;> first | rfl | exact absurd heq (by decide)

/-- The member `ret`. -/
def VmiRetKind.retMember : VmiRetKind → Option Json
  | .none => Option.none
  | .value ret _ => some (.num (.ofInt ret.toInt))
  | .unfinished _ => some .null

lemma ReportsKind.ret (hms : ReportsKind l ms) : get? ms "ret".toList = l.kind.retMember := by
  rw [ReportsKind] at hms
  cases hkind : l.kind with
  | none =>
    simp only [hkind] at hms
    exact hms.1
  | value ret retTv =>
    simp only [hkind] at hms
    exact hms.1
  | unfinished why =>
    simp only [hkind] at hms
    exact hms.1

/-- How the syscall ended is told by `ret`, `dur_us` and `unfinished`. -/
lemma ReportsKind.kind_eq (hl : l.Normalised) (hl' : l'.Normalised) (htv : l'.tv = l.tv)
    (hms : ReportsKind l ms) (hms' : ReportsKind l' ms) : l'.kind = l.kind := by
  obtain ⟨cpu, num, argv, tv, kind⟩ := l
  obtain ⟨cpu', num', argv', tv', kind'⟩ := l'
  obtain rfl : tv' = tv := htv
  have hret : kind'.retMember = kind.retMember := hms'.ret.symm.trans hms.ret
  cases kind with
  | none =>
    cases kind' with
    | none => rfl
    | value ret' retTv' => cases hret
    | unfinished why' => cases hret
  | value ret retTv =>
    cases kind' with
    | none => cases hret
    | unfinished why' => cases hret
    | value ret' retTv' =>
      have hvalue := ofInt_injective (Json.num.inj (Option.some.inj hret))
      obtain ⟨-, -, hdur, -⟩ := hms
      obtain ⟨-, -, hdur', -⟩ := hms'
      have htime := ofInt_injective (Json.num.inj (Option.some.inj (hdur'.symm.trans hdur)))
      have hretTv := (hl.2 ret retTv rfl).eq_of_sub_eq (hl'.2 ret' retTv' rfl) htime
      rw [Int64.toInt_inj.mp hvalue, hretTv]
  | unfinished why =>
    cases kind' with
    | none => cases hret
    | value ret' retTv' => cases hret
    | unfinished why' =>
      obtain ⟨-, -, -, hwhy⟩ := hms
      obtain ⟨-, -, -, hwhy'⟩ := hms'
      have htext := Json.str.inj (Option.some.inj (hwhy'.symm.trans hwhy))
      rw [UnfinishedWhy.text_injective htext]

/-- An object reports one event only. -/
theorem Reports.sameFields (hl : l.Normalised) (hl' : l'.Normalised) (hms : Reports l ms)
    (hms' : Reports l' ms) : l.SameFields l' := by
  have htv : l'.tv = l.tv := by
    obtain ⟨n, hts, hsec, husec⟩ := hms.ts
    obtain ⟨n', hts', hsec', husec'⟩ := hms'.ts
    rw [hts] at hts'
    have hn := congrArg JsonNumber.mantissa (Json.num.inj (Option.some.inj hts'))
    simp only at hn
    subst hn
    exact congrArg₂ Timeval.mk (hsec'.symm.trans hsec) (husec'.symm.trans husec)
  have hcpu := ofInt_injective (Json.num.inj (Option.some.inj (hms'.cpu.symm.trans hms.cpu)))
  have hnr := ofInt_injective (Json.num.inj (Option.some.inj (hms'.num.symm.trans hms.num)))
  have hnum : l'.num = l.num := UInt64.toNat_inj.mp (Int.ofNat.inj hnr)
  obtain ⟨args, hargs, -, hvalues⟩ := hms.args
  obtain ⟨args', hargs', -, hvalues'⟩ := hms'.args
  rw [hargs] at hargs'
  have hstrings : Function.Injective Json.str := fun _ _ h => Json.str.inj h
  have hsame : args' = args := by
    apply List.map_injective_iff.mpr hstrings
    exact (Json.arr.inj (Option.some.inj hargs')).symm
  rw [hsame, hvalues, hnum] at hvalues'
  exact ⟨htv, hcpu, hnum, argv_eq_of_map_eq hvalues'.symm, hms.kind.kind_eq hl hl' htv hms'.kind⟩

/-- **Log format.** Every event is written as one line, a JSON object that gives the event back and
that the live view accepts; events that differ in a field that is written have different lines. -/
theorem vmiWriteEvent_roundTrip (h : Hooks) (strerrornameNp : ℤ → Option (List Char))
    (hnames : PlainNames strerrornameNp) (py : Python) (hclock : py.ClockRuns) :
    (∀ l : LogLine, l.Normalised →
      (∃ line, vmiWriteEvent h strerrornameNp l = line ++ ['\n'] ∧ '\n' ∉ line) ∧
      ∃ ms, parse (vmiWriteEvent h strerrornameNp l) = some (.obj ms) ∧ Reports l ms ∧
        ∃ text, formatEvent py (.obj ms) = .ok text) ∧
    ∀ l l' : LogLine, l.Normalised → l'.Normalised →
      vmiWriteEvent h strerrornameNp l' = vmiWriteEvent h strerrornameNp l → l.SameFields l' := by
  constructor
  · intro l hl
    have hreports := reports_members h strerrornameNp hl
    exact ⟨⟨_, vmiWriteEvent_eq h hnames hl.1.toValid, newline_not_mem_render _⟩,
      l.members h strerrornameNp, parse_vmiWriteEvent h hnames hl.1.toValid, hreports,
      formatEvent_of_reports hclock hl.1 hreports⟩
  · intro l l' hl hl' heq
    have hparse := parse_vmiWriteEvent h hnames hl.1.toValid
    rw [← heq, parse_vmiWriteEvent h hnames hl'.1.toValid] at hparse
    have hmembers := Json.obj.inj (Option.some.inj hparse)
    have hreports' := reports_members h strerrornameNp hl'
    rw [hmembers] at hreports'
    exact (reports_members h strerrornameNp hl).sameFields hl hl' hreports'

/-- Two names of `strerrorname_np`. -/
def someNames (e : ℤ) : Option (List Char) :=
  if e = 2 then some "ENOENT".toList else if e = 11 then some "EAGAIN".toList else none

/-- Python on a machine whose clock reads midnight at every time, and that knows the same two
errors. -/
def somePython : Python where
  clock _ := .ok "00:00:00.000".toList
  inErrorcode n := n = .int 2 ∨ n = .int 11
  strerror n := if n = 2 then "No such file or directory".toList else "Try again".toList
  str _ := []
  floatGe _ := false

/-- `openat` of the documented log, which ended with `ENOENT`. -/
def openatLine : LogLine where
  cpuIndex := 0
  num := 257
  argv := ![0xffffff9c, 0x1000181de0, 0x80000, 0, 0, 0]
  tv := ⟨1791770511, 400000⟩
  kind := .value (-2) ⟨1791770511, 400058⟩

/-- The line of the documentation. -/
theorem openat_vmiWriteEvent_roundTrip :
    openatLine.Normalised ∧
      ∃ ms, parse (vmiWriteEvent nginxHooks someNames openatLine) = some (.obj ms) ∧
        Reports openatLine ms ∧ ∃ text, formatEvent somePython (.obj ms) = .ok text := by
  have hnames : PlainNames someNames := by
    intro e name hname
    rw [someNames, Option.mem_def] at hname
    split_ifs at hname
    · obtain rfl := Option.some.inj hname
      decide
    · obtain rfl := Option.some.inj hname
      decide
  have hclock : somePython.ClockRuns := fun _ _ _ => ⟨_, rfl⟩
  have hline : openatLine.Normalised := by
    refine ⟨⟨⟨by decide, by decide, by decide⟩, by decide⟩, ?_⟩
    rintro ret retTv hkind
    cases hkind
    exact ⟨⟨by decide, by decide, by decide⟩, by decide⟩
  have hround := vmiWriteEvent_roundTrip nginxHooks someNames hnames somePython hclock
  exact ⟨hline, (hround.1 openatLine hline).2⟩

end SyscallMonitor
