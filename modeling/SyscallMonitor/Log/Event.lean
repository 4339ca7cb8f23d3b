import SyscallMonitor.Basic
import SyscallMonitor.Log.Table
import SyscallMonitor.Lib.Json

/-!
# Log lines

`vmi_write_event` as the text it writes. `LogLine.members` is the object that the text denotes, and
`parse_vmiWriteEvent` says so.
-/

namespace SyscallMonitor

open Lib Json

/-! ### `vmi_write_event` -/

/-- `(int)num`: the low 32 bits, with a sign. -/
def cInt (num : UInt64) : ℤ := (num.toNat : ℤ).bmod (2 ^ 32)

/-- What `snprintf` leaves in a buffer of `n` bytes; the last one is for the terminator. -/
def snprintf (n : ℕ) (s : List Char) : List Char := s.take (n - 1)

/-- `name` and `argc`, by what `vmi_syscall_lookup` has found. -/
def vmiEventNameOf (num : UInt64) : Option VmiSyscallInfo → List Char × ℕ
  | some info => (info.name.toList, info.argc)
  | none => (snprintf 32 ("syscall_".toList ++ decimal num.toNat), 6)

/-- `name` and `argc`. -/
def vmiEventName (num : UInt64) : List Char × ℕ := vmiEventNameOf num (vmiSyscallLookup (cInt num))

/-- `"0x%" PRIx64`. -/
def hexText (a : UInt64) : List Char := "0x".toList ++ hexadecimal a.toNat

/-- The loop over the arguments, up to `argc` and up to 6. -/
def vmiWriteArgs (argc : ℕ) (argv : Fin 6 → UInt64) : List Char :=
  ((List.finRange 6).take argc).flatMap fun i =>
    (if i ≠ 0 then ", ".toList else []) ++ "\"".toList ++ hexText (argv i) ++ "\"".toList

/-- The field `err`; `strerrornameNp` is `strerrorname_np`, `none` where it returns `NULL`. -/
def vmiWriteErr (strerrornameNp : ℤ → Option (List Char)) (ret : ℤ) : List Char :=
  if ret < 0 ∧ ret ≥ -4095 then
    match strerrornameNp (-ret) with
    | some ename => ", \"err\": \"".toList ++ ename ++ "\"".toList
    | none => ", \"err\": \"E".toList ++ signed (-ret) ++ "\"".toList
  else []

/-- `dur_us`, in 64 bits. -/
def durUs (tv retTv : Timeval) : Int64 :=
  Int64.ofInt (retTv.tvSec - tv.tvSec) * 1000000 + Int64.ofInt (retTv.tvUsec - tv.tvUsec)

/-- `unfinished_why`. -/
def UnfinishedWhy.text : UnfinishedWhy → List Char
  | .superseded => "superseded".toList
  | .evicted => "evicted".toList
  | .shutdown => "shutdown".toList

/-- The fields that depend on `kind`. -/
def vmiWriteKind (strerrornameNp : ℤ → Option (List Char)) (tv : Timeval) :
    VmiRetKind → List Char
  | .none => []
  | .value ret retTv =>
    ", \"ret\": ".toList ++ signed ret.toInt ++ vmiWriteErr strerrornameNp ret.toInt ++
      ", \"dur_us\": ".toList ++ signed (durUs tv retTv).toInt
  | .unfinished why => ", \"ret\": null, \"unfinished\": \"".toList ++ why.text ++ "\"".toList

lemma vmiWriteKind_value (strerrornameNp : ℤ → Option (List Char)) (tv : Timeval) (ret : Int64)
    (retTv : Timeval) :
    vmiWriteKind strerrornameNp tv (.value ret retTv)
      = ", \"ret\": ".toList ++ signed ret.toInt ++ vmiWriteErr strerrornameNp ret.toInt ++
        ", \"dur_us\": ".toList ++ signed (durUs tv retTv).toInt :=
  rfl

lemma vmiWriteKind_unfinished (strerrornameNp : ℤ → Option (List Char)) (tv : Timeval)
    (why : UnfinishedWhy) :
    vmiWriteKind strerrornameNp tv (.unfinished why)
      = ", \"ret\": null, \"unfinished\": \"".toList ++ why.text ++ "\"".toList :=
  rfl

/-- `vmi_write_event`: what it appends to the log. -/
def vmiWriteEvent (h : Hooks) (strerrornameNp : ℤ → Option (List Char)) (l : LogLine) :
    List Char :=
  "\x7b\"ts\": ".toList ++ signed l.tv.tvSec ++ ".".toList ++ signedPadded 6 l.tv.tvUsec ++
    ", \"cpu\": ".toList ++ signed l.cpuIndex ++ ", \"rip\": \"".toList ++ hexText h.vmiAddr ++
    "\", \"num\": ".toList ++ decimal l.num.toNat ++ ", \"syscall\": \"".toList ++
    (vmiEventName l.num).1 ++ "\", \"args\": [".toList ++
    vmiWriteArgs (vmiEventName l.num).2 l.argv ++ "]".toList ++
    vmiWriteKind strerrornameNp l.tv l.kind ++ "\x7d\n".toList

/-! ### The object -/

/-- The name of a syscall number: that of the table, or `syscall_` and the number. -/
def syscallName (num : UInt64) : List Char :=
  ((vmiSyscallLookup (cInt num)).map fun info => info.name.toList).getD
    ("syscall_".toList ++ decimal num.toNat)

/-- The number of arguments of a syscall number: that of the table, or 6. -/
def syscallArgc (num : UInt64) : ℕ := ((vmiSyscallLookup (cInt num)).map VmiSyscallInfo.argc).getD 6

/-- The text of `err`. -/
def errText (strerrornameNp : ℤ → Option (List Char)) (ret : ℤ) : List Char :=
  (strerrornameNp (-ret)).getD ('E' :: signed (-ret))

/-- The arguments that are written. -/
def eventArgs (argc : ℕ) (argv : Fin 6 → UInt64) : List (List Char) :=
  ((List.finRange 6).take argc).map fun i => hexText (argv i)

/-- The members that depend on `kind`. -/
def kindMembers (strerrornameNp : ℤ → Option (List Char)) (tv : Timeval) :
    VmiRetKind → List (List Char × Json)
  | .none => []
  | .value ret retTv =>
    ("ret".toList, .num (.ofInt ret.toInt)) ::
      (if ret.toInt < 0 ∧ ret.toInt ≥ -4095 then
          [("err".toList, .str (errText strerrornameNp ret.toInt))]
        else []) ++
      [("dur_us".toList, .num (.ofInt (durUs tv retTv).toInt))]
  | .unfinished why => [("ret".toList, .null), ("unfinished".toList, .str why.text)]

lemma kindMembers_value (strerrornameNp : ℤ → Option (List Char)) (tv : Timeval) (ret : Int64)
    (retTv : Timeval) :
    kindMembers strerrornameNp tv (.value ret retTv)
      = ("ret".toList, .num (.ofInt ret.toInt)) ::
        ((if ret.toInt < 0 ∧ ret.toInt ≥ -4095 then
            [("err".toList, .str (errText strerrornameNp ret.toInt))]
          else []) ++
        [("dur_us".toList, .num (.ofInt (durUs tv retTv).toInt))]) :=
  rfl

lemma kindMembers_unfinished (strerrornameNp : ℤ → Option (List Char)) (tv : Timeval)
    (why : UnfinishedWhy) :
    kindMembers strerrornameNp tv (.unfinished why)
      = [("ret".toList, .null), ("unfinished".toList, .str why.text)] :=
  rfl

/-- The members that every line has. -/
def LogLine.commonMembers (h : Hooks) (l : LogLine) : List (List Char × Json) :=
  [("ts".toList, .num ⟨l.tv.tvSec * 10 ^ 6 + l.tv.tvUsec, 6, none⟩),
    ("cpu".toList, .num (.ofInt l.cpuIndex)),
    ("rip".toList, .str (hexText h.vmiAddr)),
    ("num".toList, .num (.ofInt l.num.toNat)),
    ("syscall".toList, .str (syscallName l.num)),
    ("args".toList, .arr ((eventArgs (syscallArgc l.num) l.argv).map .str))]

/-- The members of a line. -/
def LogLine.members (h : Hooks) (strerrornameNp : ℤ → Option (List Char)) (l : LogLine) :
    List (List Char × Json) :=
  l.commonMembers h ++ kindMembers strerrornameNp l.tv l.kind

/-! ### The text denotes the object -/

/-- What `gettimeofday` answers. -/
structure Timeval.Valid (tv : Timeval) : Prop where
  sec_nonneg : 0 ≤ tv.tvSec
  usec_nonneg : 0 ≤ tv.tvUsec
  usec_lt : tv.tvUsec < 10 ^ 6

/-- A time before the year 6325. -/
structure Timeval.Normalised (tv : Timeval) : Prop extends tv.Valid where
  sec_lt : tv.tvSec < 2 ^ 37

/-- The times of a line are normalised. -/
def LogLine.Normalised (l : LogLine) : Prop :=
  l.tv.Normalised ∧ ∀ ret retTv, l.kind = .value ret retTv → retTv.Normalised

/-- The names that `strerrorname_np` returns stand in quotes as they are. -/
def PlainNames (strerrornameNp : ℤ → Option (List Char)) : Prop :=
  ∀ e, ∀ name ∈ strerrornameNp e, Plain name

lemma plainNames_none : PlainNames fun _ => none := by
  rintro e name ⟨⟩

set_option maxRecDepth 4000 in
/-- The names of the table stand in quotes as they are, and no syscall has more than six
arguments. -/
lemma vmiSyscallTable_wellFormed :
    ∀ e ∈ vmiSyscallTable, Plain e.name.toList ∧ e.argc ≤ 6 := by
  decide +kernel

lemma mem_of_vmiSyscallLookup {nr : ℤ} {e : VmiSyscallInfo} (he : vmiSyscallLookup nr = some e) :
    e ∈ vmiSyscallTable ∧ e.nr = nr :=
  (search_eq_some_iff increasing_vmiSyscallTable).mp he

/-- The buffer for a number without a name is large enough. -/
lemma vmiEventName_eq (num : UInt64) : vmiEventName num = (syscallName num, syscallArgc num) := by
  rw [vmiEventName, syscallName, syscallArgc]
  cases vmiSyscallLookup (cInt num) with
  | some info => rfl
  | none =>
    have hdigits : (decimal num.toNat).length ≤ 20 := by
      apply (Nat.length_toDigits_le_iff (by decide) (by decide)).mpr
      exact Nat.lt_of_lt_of_le num.toNat_lt (by decide)
    have hprefix : "syscall_".toList.length = 8 := rfl
    have hlen : ("syscall_".toList ++ decimal num.toNat).length ≤ 31 := by
      rw [List.length_append, hprefix]
      omega
    rw [vmiEventNameOf, snprintf, List.take_of_length_le hlen]
    rfl

lemma plain_syscallName (num : UInt64) : Plain (syscallName num) := by
  rw [syscallName]
  cases hinfo : vmiSyscallLookup (cInt num) with
  | some info =>
    obtain ⟨hmem, -⟩ := mem_of_vmiSyscallLookup hinfo
    exact (vmiSyscallTable_wellFormed info hmem).1
  | none => exact plain_append.mpr ⟨by decide, plain_decimal _⟩

lemma syscallArgc_le (num : UInt64) : syscallArgc num ≤ 6 := by
  rw [syscallArgc]
  cases hinfo : vmiSyscallLookup (cInt num) with
  | some info =>
    obtain ⟨hmem, -⟩ := mem_of_vmiSyscallLookup hinfo
    exact (vmiSyscallTable_wellFormed info hmem).2
  | none => exact Nat.le_refl 6

lemma plain_hexText (a : UInt64) : Plain (hexText a) :=
  plain_append.mpr ⟨by decide, plain_hexadecimal _⟩

/-- The difference of two times fits into 64 bits. -/
lemma durUs_toInt {tv retTv : Timeval} (htv : tv.Normalised) (hret : retTv.Normalised) :
    (durUs tv retTv).toInt
      = (retTv.tvSec - tv.tvSec) * 1000000 + (retTv.tvUsec - tv.tvUsec) := by
  obtain ⟨⟨h1, h2, h3⟩, h4⟩ := htv
  obtain ⟨⟨h5, h6, h7⟩, h8⟩ := hret
  have hsec : (Int64.ofInt (retTv.tvSec - tv.tvSec)).toInt = retTv.tvSec - tv.tvSec := by
    apply Int64.toInt_ofInt_of_le <;> omega
  have husec : (Int64.ofInt (retTv.tvUsec - tv.tvUsec)).toInt = retTv.tvUsec - tv.tvUsec := by
    apply Int64.toInt_ofInt_of_le <;> omega
  have hmillion : (1000000 : Int64).toInt = 1000000 := rfl
  have hproduct : ((retTv.tvSec - tv.tvSec) * 1000000).bmod (2 ^ 64)
      = (retTv.tvSec - tv.tvSec) * 1000000 := by
    apply Int.bmod_eq_of_le <;> omega
  rw [durUs, Int64.toInt_add, Int64.toInt_mul, hsec, husec, hmillion, hproduct]
  apply Int.bmod_eq_of_le <;> omega

lemma render_ofInt (i : ℤ) : render (.num (.ofInt i)) = signed i := by
  rw [render, renderNumber, renderUnsigned, signed]
  split_ifs <;> simp_all [JsonNumber.ofInt]

/-- A time is written as seconds, a point and six digits. -/
lemma render_ts {tv : Timeval} (htv : tv.Valid) :
    render (.num ⟨tv.tvSec * 10 ^ 6 + tv.tvUsec, 6, none⟩)
      = signed tv.tvSec ++ ".".toList ++ signedPadded 6 tv.tvUsec := by
  obtain ⟨h1, h2, h3⟩ := htv
  have hsum : 0 ≤ tv.tvSec * 10 ^ 6 + tv.tvUsec := by omega
  have hsec : (tv.tvSec * 10 ^ 6 + tv.tvUsec).natAbs / 10 ^ 6 = tv.tvSec.natAbs := by omega
  have husec : (tv.tvSec * 10 ^ 6 + tv.tvUsec).natAbs % 10 ^ 6 = tv.tvUsec.natAbs := by omega
  simp only [render, renderNumber, renderUnsigned, Int.not_lt.mpr hsum, hsec, husec, signed,
    Int.not_lt.mpr h1, signedPadded, Int.not_lt.mpr h2, ↓reduceIte, Option.elim_none]
  simp

lemma render_plain {s : List Char} (hs : Plain s) :
    render (.str s) = "\"".toList ++ s ++ "\"".toList := quote_of_plain hs

lemma renderMembers_append (ms ms' : List (List Char × Json)) :
    renderMembers (ms ++ ms') = renderMembers ms ++ renderMembers ms' := by
  induction ms with
  | nil => rfl
  | cons m ms ih => simp [renderMembers, ih]

/-- Before every argument but the first there is a comma. -/
lemma renderTail_args (argv : Fin 6 → UInt64) {l : List (Fin 6)} (hl : ∀ i ∈ l, i ≠ 0) :
    renderTail (l.map fun i => .str (hexText (argv i)))
      = l.flatMap fun i =>
        (if i ≠ 0 then ", ".toList else []) ++ "\"".toList ++ hexText (argv i) ++ "\"".toList := by
  induction l with
  | nil => rfl
  | cons i l ih =>
    obtain ⟨hi, htail⟩ := List.forall_mem_cons.mp hl
    rw [List.map_cons, renderTail, List.flatMap_cons, render_plain (plain_hexText _), ih htail,
      if_pos hi]
    simp only [List.append_assoc]

lemma render_args (argc : ℕ) (argv : Fin 6 → UInt64) :
    render (.arr ((eventArgs argc argv).map .str))
      = "[".toList ++ vmiWriteArgs argc argv ++ "]".toList := by
  cases argc with
  | zero => rfl
  | succ n =>
    have htail : ∀ i ∈ ((List.finRange 5).map Fin.succ).take n, i ≠ 0 := by
      intro i hi
      obtain ⟨j, -, rfl⟩ := List.mem_map.mp (List.mem_of_mem_take hi)
      exact Fin.succ_ne_zero j
    rw [eventArgs, vmiWriteArgs, List.finRange_succ, List.take_succ_cons, List.map_map,
      List.map_cons, render, List.flatMap_cons, ← renderTail_args argv htail]
    simp [Function.comp_def, render_plain (plain_hexText _)]

/-- A member whose key needs no escapes. -/
lemma renderMembers_cons {k : List Char} (hk : Plain k) (v : Json) (ms : List (List Char × Json)) :
    renderMembers ((k, v) :: ms)
      = ", \"".toList ++ k ++ "\": ".toList ++ render v ++ renderMembers ms := by
  rw [renderMembers, quote_of_plain hk]
  simp

lemma plain_errText {strerrornameNp : ℤ → Option (List Char)} (hnames : PlainNames strerrornameNp)
    (ret : ℤ) (hret : ret < 0) : Plain (errText strerrornameNp ret) := by
  rw [errText]
  cases hname : strerrornameNp (-ret) with
  | some name => exact hnames _ name hname
  | none =>
    have hpos : ¬ -ret < 0 := by omega
    rw [Option.getD_none, signed, if_neg hpos]
    exact List.forall_mem_cons.mpr ⟨by decide, plain_decimal _⟩

/-- The field `err` as a member. -/
lemma renderMembers_err {strerrornameNp : ℤ → Option (List Char)}
    (hnames : PlainNames strerrornameNp) (ret : ℤ) :
    renderMembers (if ret < 0 ∧ ret ≥ -4095 then
        [("err".toList, .str (errText strerrornameNp ret))] else [])
      = vmiWriteErr strerrornameNp ret := by
  rw [vmiWriteErr]
  split_ifs with herr
  · rw [renderMembers_cons (by decide), render_plain (plain_errText hnames ret herr.1), errText]
    cases strerrornameNp (-ret) <;> simp [renderMembers]
  · rw [renderMembers]

lemma renderMembers_kind {strerrornameNp : ℤ → Option (List Char)}
    (hnames : PlainNames strerrornameNp) (tv : Timeval) (kind : VmiRetKind) :
    renderMembers (kindMembers strerrornameNp tv kind) = vmiWriteKind strerrornameNp tv kind := by
  cases kind with
  | none => exact renderMembers.eq_1
  | value ret retTv =>
    rw [kindMembers_value, vmiWriteKind_value, renderMembers_cons (by decide),
      renderMembers_append, renderMembers_err hnames, renderMembers_cons (by decide), render_ofInt,
      render_ofInt]
    simp [renderMembers]
  | unfinished why =>
    have hwhy : Plain why.text := by cases why <;> decide
    rw [kindMembers_unfinished, vmiWriteKind_unfinished, renderMembers_cons (by decide),
      renderMembers_cons (by decide), render_plain hwhy]
    simp [render, renderMembers]

/-- The text of a line is that of its object, and a newline. -/
theorem vmiWriteEvent_eq (h : Hooks) {strerrornameNp : ℤ → Option (List Char)}
    (hnames : PlainNames strerrornameNp) {l : LogLine} (hl : l.tv.Valid) :
    vmiWriteEvent h strerrornameNp l
      = render (.obj (l.members h strerrornameNp)) ++ ['\n'] := by
  have hnum : render (.num (.ofInt l.num.toNat)) = decimal l.num.toNat := by
    rw [render_ofInt, signed, if_neg (Int.not_lt.mpr (Int.natCast_nonneg _)), Int.natAbs_natCast]
  have hts : "\x7b\"ts\": ".toList
      = '\x7b' :: ('\x22' :: "ts".toList ++ ['\x22'] ++ ": ".toList) := rfl
  have hcpu : ", \"cpu\": ".toList = ", \"".toList ++ "cpu".toList ++ "\": ".toList := rfl
  have hrip : ", \"rip\": \"".toList
      = ", \"".toList ++ "rip".toList ++ "\": ".toList ++ "\"".toList := rfl
  have hnr : "\", \"num\": ".toList
      = "\"".toList ++ ", \"".toList ++ "num".toList ++ "\": ".toList := rfl
  have hname : ", \"syscall\": \"".toList
      = ", \"".toList ++ "syscall".toList ++ "\": ".toList ++ "\"".toList := rfl
  have hargs : "\", \"args\": [".toList
      = "\"".toList ++ ", \"".toList ++ "args".toList ++ "\": ".toList ++ "[".toList := rfl
  have hend : "\x7d\n".toList = ['\x7d'] ++ ['\n'] := rfl
  delta vmiWriteEvent
  rw [LogLine.members, LogLine.commonMembers, vmiEventName_eq, List.cons_append, render,
    renderMembers_append, renderMembers_kind hnames, renderMembers_cons (by decide),
    renderMembers_cons (by decide), renderMembers_cons (by decide), renderMembers_cons (by decide),
    renderMembers_cons (by decide), renderMembers, render_ts hl, render_ofInt, hnum, render_args,
    render_plain (plain_hexText _), render_plain (plain_syscallName _),
    quote_of_plain (show Plain "ts".toList by decide), hts, hcpu, hrip, hnr, hname, hargs, hend]
  simp only [List.append_assoc, List.cons_append, List.nil_append, List.append_nil]

/-- A parser gives back the object. -/
theorem parse_vmiWriteEvent (h : Hooks) {strerrornameNp : ℤ → Option (List Char)}
    (hnames : PlainNames strerrornameNp) {l : LogLine} (hl : l.tv.Valid) :
    parse (vmiWriteEvent h strerrornameNp l) = some (.obj (l.members h strerrornameNp)) := by
  rw [vmiWriteEvent_eq h hnames hl]
  exact parse_render_newline _

/-! ### What the object reports -/

/-- The number that an argument denotes. -/
def argValue (s : List Char) : ℕ := ofHexadecimal (s.drop 2)

lemma argValue_hexText (a : UInt64) : argValue (hexText a) = a.toNat :=
  ofHexadecimal_hexadecimal a.toNat

/-- The members that tell how the syscall ended. -/
def ReportsKind (l : LogLine) (ms : List (List Char × Json)) : Prop :=
  match l.kind with
  | .none => get? ms "ret".toList = none ∧ get? ms "err".toList = none ∧
      get? ms "dur_us".toList = none ∧ get? ms "unfinished".toList = none
  | .value ret retTv =>
      get? ms "ret".toList = some (.num (.ofInt ret.toInt)) ∧
      ((get? ms "err".toList).isSome = true ↔ -4095 ≤ ret.toInt ∧ ret.toInt ≤ -1) ∧
      get? ms "dur_us".toList = some (.num (.ofInt
        ((retTv.tvSec - l.tv.tvSec) * 1000000 + (retTv.tvUsec - l.tv.tvUsec)))) ∧
      get? ms "unfinished".toList = none
  | .unfinished why => get? ms "ret".toList = some .null ∧ get? ms "err".toList = none ∧
      get? ms "dur_us".toList = none ∧ get? ms "unfinished".toList = some (.str why.text)

/-- The object tells the entry time, the vCPU, the syscall with its arguments, and how it ended. -/
structure Reports (l : LogLine) (ms : List (List Char × Json)) : Prop where
  ts : ∃ n, get? ms "ts".toList = some (.num ⟨n, 6, none⟩) ∧
    n / 10 ^ 6 = l.tv.tvSec ∧ n % 10 ^ 6 = l.tv.tvUsec
  cpu : get? ms "cpu".toList = some (.num (.ofInt l.cpuIndex))
  num : get? ms "num".toList = some (.num (.ofInt l.num.toNat))
  syscall : get? ms "syscall".toList = some (.str (syscallName l.num))
  args : ∃ args : List (List Char), get? ms "args".toList = some (.arr (args.map .str)) ∧
    args.length = syscallArgc l.num ∧
    args.map argValue = ((List.finRange 6).take (syscallArgc l.num)).map fun i => (l.argv i).toNat
  kind : ReportsKind l ms

lemma get?_append (ms ms' : List (List Char × Json)) (k : List Char) :
    get? (ms ++ ms') k = (get? ms' k).or (get? ms k) := by
  simp [get?, List.find?_append, Option.map_or]

lemma get?_eq_none {ms : List (List Char × Json)} {k : List Char} (hk : ∀ m ∈ ms, m.1 ≠ k) :
    get? ms k = none := by
  rw [get?, Option.map_eq_none_iff, List.find?_eq_none]
  intro m hm
  simpa using hk m (List.mem_reverse.mp hm)

/-- The keys that the common members do not have. -/
def kindKeys : List (List Char) :=
  ["ret".toList, "err".toList, "dur_us".toList, "unfinished".toList]

lemma key_mem_kindKeys {strerrornameNp : ℤ → Option (List Char)} {tv : Timeval} {kind : VmiRetKind}
    {m : List Char × Json} (hm : m ∈ kindMembers strerrornameNp tv kind) : m.1 ∈ kindKeys := by
  cases kind with
  | none => cases hm
  | value ret retTv =>
    rw [kindMembers_value, List.mem_cons, List.mem_append, List.mem_singleton] at hm
    rcases hm with rfl | hm | rfl
    · simp [kindKeys]
    · split_ifs at hm
      · simp [kindKeys, List.mem_singleton.mp hm]
      · cases hm
    · simp [kindKeys]
  | unfinished why =>
    rw [kindMembers_unfinished, List.mem_cons, List.mem_singleton] at hm
    rcases hm with rfl | rfl <;> simp [kindKeys]

/-- The common members are those of the line. -/
lemma get?_members (h : Hooks) (strerrornameNp : ℤ → Option (List Char)) (l : LogLine)
    {k : List Char} (hk : k ∉ kindKeys) :
    get? (l.members h strerrornameNp) k = get? (l.commonMembers h) k := by
  have hkind : get? (kindMembers strerrornameNp l.tv l.kind) k = none := by
    apply get?_eq_none
    rintro m hm rfl
    exact hk (key_mem_kindKeys hm)
  rw [LogLine.members, get?_append, hkind, Option.none_or]

lemma length_eventArgs {argc : ℕ} (hargc : argc ≤ 6) (argv : Fin 6 → UInt64) :
    (eventArgs argc argv).length = argc := by
  rw [eventArgs, List.length_map, List.length_take, List.length_finRange, Nat.min_eq_left hargc]

lemma reportsKind_members (h : Hooks) (strerrornameNp : ℤ → Option (List Char)) {l : LogLine}
    (hl : l.Normalised) : ReportsKind l (l.members h strerrornameNp) := by
  obtain ⟨cpuIndex, num, argv, tv, kind⟩ := l
  obtain ⟨htv, hretTv⟩ := hl
  cases kind with
  | none => exact ⟨rfl, rfl, rfl, rfl⟩
  | unfinished why => exact ⟨rfl, rfl, rfl, rfl⟩
  | value ret retTv =>
    simp only [ReportsKind, LogLine.members, kindMembers_value]
    rw [← durUs_toInt htv (hretTv ret retTv rfl)]
    split_ifs with herr
    · exact ⟨rfl, ⟨fun _ => by omega, fun _ => rfl⟩, rfl, rfl⟩
    · refine ⟨rfl, ⟨fun hsome => ?_, fun hrange => absurd (by omega) herr⟩, rfl, rfl⟩
      cases hsome

/-- The members of a line report the event. -/
theorem reports_members (h : Hooks) (strerrornameNp : ℤ → Option (List Char)) {l : LogLine}
    (hl : l.Normalised) : Reports l (l.members h strerrornameNp) := by
  obtain ⟨⟨hsec, husec, hlt⟩, -⟩ := hl.1
  refine ⟨⟨l.tv.tvSec * 10 ^ 6 + l.tv.tvUsec, ?_, by omega, by omega⟩, ?_, ?_, ?_,
    ⟨eventArgs (syscallArgc l.num) l.argv, ?_, length_eventArgs (syscallArgc_le l.num) l.argv, ?_⟩,
    reportsKind_members h strerrornameNp hl⟩
  · rw [get?_members h strerrornameNp l (by decide)]
    rfl
  · rw [get?_members h strerrornameNp l (by decide)]
    rfl
  · rw [get?_members h strerrornameNp l (by decide)]
    rfl
  · rw [get?_members h strerrornameNp l (by decide)]
    rfl
  · rw [get?_members h strerrornameNp l (by decide)]
    rfl
  · simp [eventArgs, Function.comp_def, argValue_hexText]

end SyscallMonitor
