import SyscallMonitor.Log.Event
import SyscallMonitor.Capture.Pending

/-!
# The two capture paths

`SyscallBreakpoint.stop` of `monitor.py`, which captures through gdb, against the line that the
inline monitor writes for the same registers. Both look up the syscall number, but C narrows it to
an `int` first.
-/

namespace SyscallMonitor

open Lib Json

/-! ### `stop` -/

/-- `arg_regs`. -/
def argRegs : List (Fin 16) := [rEdi, rEsi, rEdx, rR10, rR8, rR9]

/-- `int(frame.read_register(r))`. -/
def readRegister (env : CPUX86State) (r : Fin 16) : ℕ := (env.regs r).toNat

/-- `hex(a)`, of a number that is not negative. -/
def pyHex (a : ℕ) : List Char := "0x".toList ++ hexadecimal a

/-- `SYSCALL_TABLE.get(rax, (f"syscall_{rax}", 6))`. -/
def stopName (rax : ℕ) : List Char × ℕ :=
  ((syscallTableGet rax).map fun row => (row.1.toList, row.2)).getD
    ("syscall_".toList ++ decimal rax, 6)

/-- The `event` of `stop`; `ts` and `latency` are what its clocks answer. -/
def stopEvent (ts : JsonNumber) (latency : ℤ) (env : CPUX86State) : List (List Char × Json) :=
  let rax := readRegister env rEax
  let args := (argRegs.take (stopName rax).2).map (readRegister env)
  [("ts".toList, .num ts),
    ("num".toList, .num (.ofInt rax)),
    ("syscall".toList, .str (stopName rax).1),
    ("args".toList, .arr (args.map fun a => .str (pyHex a))),
    ("handler_latency_ns".toList, .num (.ofInt latency))]

/-- `stop`: what it appends to its log, if anything. `includeNrs` and `excludeNrs` are the sets of
`VMI_INCLUDE_NRS` and `VMI_EXCLUDE_NRS`. -/
def stop (includeNrs : Option (List ℕ)) (excludeNrs : List ℕ) (ts : JsonNumber) (latency : ℤ)
    (env : CPUX86State) : Option (List Char) :=
  let rax := readRegister env rEax
  if (∃ nrs ∈ includeNrs, rax ∉ nrs) ∨ rax ∈ excludeNrs then none
  else some (render (.obj (stopEvent ts latency env)) ++ "\n".toList)

/-! ### Names and numbers -/

/-- Every number of the table is small, and no name is one of those that are made up for numbers
outside the table. -/
lemma vmiSyscallTable_small :
    ∀ e ∈ vmiSyscallTable, 0 ≤ e.nr ∧ e.nr < 2 ^ 31 ∧ ¬ "syscall_".toList <+: e.name.toList := by
  decide +kernel

lemma vmiSyscallLookup_eq_none_of_not_small {nr : ℤ} (hnr : ¬ (0 ≤ nr ∧ nr < 2 ^ 31)) :
    vmiSyscallLookup nr = none := by
  cases he : vmiSyscallLookup nr with
  | none => rfl
  | some e =>
    obtain ⟨hmem, rfl⟩ := mem_of_vmiSyscallLookup he
    obtain ⟨hnonneg, hlt, -⟩ := vmiSyscallTable_small e hmem
    exact absurd ⟨hnonneg, hlt⟩ hnr

/-- Below `2 ^ 32` the narrowing does not matter: either it changes nothing, or the number is in no
table either way. -/
lemma vmiSyscallLookup_cInt {num : UInt64} (hnum : num.toNat < 2 ^ 32) :
    vmiSyscallLookup (cInt num) = vmiSyscallLookup num.toNat := by
  by_cases hsmall : num.toNat < 2 ^ 31
  · have hcInt : cInt num = num.toNat := by
      unfold cInt
      apply Int.bmod_eq_of_le <;> omega
    rw [hcInt]
  · have hneg : ¬ (0 ≤ cInt num ∧ cInt num < 2 ^ 31) := by
      have hcInt : cInt num = num.toNat - 2 ^ 32 := by
        unfold cInt
        rw [Int.bmod_def]
        omega
      omega
    rw [vmiSyscallLookup_eq_none_of_not_small hneg,
      vmiSyscallLookup_eq_none_of_not_small (by omega)]

lemma stopName_eq (rax : ℕ) :
    stopName rax = ((vmiSyscallLookup rax).map fun e => (e.name.toList, e.argc)).getD
      ("syscall_".toList ++ decimal rax, 6) := by
  rw [stopName, ← vmiSyscallLookup_map, Option.map_map]
  rfl

/-- The names agree unless the narrowing finds an entry for a number that is too large. -/
lemma stopName_eq_of_agree {num : UInt64}
    (hnum : num.toNat < 2 ^ 32 ∨ vmiSyscallLookup (cInt num) = none) :
    stopName num.toNat = (syscallName num, syscallArgc num) := by
  have hlookup : vmiSyscallLookup num.toNat = vmiSyscallLookup (cInt num) := by
    by_cases hlt : num.toNat < 2 ^ 32
    · exact (vmiSyscallLookup_cInt hlt).symm
    · rw [hnum.resolve_left hlt]
      exact vmiSyscallLookup_eq_none_of_not_small (by omega)
  rw [stopName_eq, hlookup, syscallName, syscallArgc]
  cases vmiSyscallLookup (cInt num) <;> rfl

lemma stopName_ne {num : UInt64} (hlarge : ¬ num.toNat < 2 ^ 32)
    (hfound : vmiSyscallLookup (cInt num) ≠ none) : (stopName num.toNat).1 ≠ syscallName num := by
  have hnone : vmiSyscallLookup num.toNat = none :=
    vmiSyscallLookup_eq_none_of_not_small (by omega)
  obtain ⟨e, he⟩ := Option.ne_none_iff_exists'.mp hfound
  obtain ⟨-, -, hname⟩ := vmiSyscallTable_small e (mem_of_vmiSyscallLookup he).1
  rw [stopName_eq, hnone, syscallName, he]
  intro heq
  apply hname
  rw [show e.name.toList = "syscall_".toList ++ decimal num.toNat from heq.symm]
  exact List.prefix_append _ _

/-! ### The events -/

/-- The arguments of the two paths are the same six registers. -/
lemma map_pyHex_readRegister (env : CPUX86State) (argc : ℕ) :
    ((argRegs.take argc).map (readRegister env)).map (fun a => Json.str (pyHex a))
      = (eventArgs argc (vmiReadArgs env)).map .str := by
  have hregs : argRegs.map (readRegister env)
      = (List.finRange 6).map fun i => (vmiReadArgs env i).toNat := rfl
  rw [List.map_take, hregs, eventArgs, ← List.map_take, List.map_map, List.map_map]
  rfl

/-- The members that the two paths share. -/
def SameCapture (ms ms' : List (List Char × Json)) : Prop :=
  ∀ k ∈ ["num".toList, "syscall".toList, "args".toList], get? ms k = get? ms' k

/-- The event that entry-only mode logs for the registers. -/
def entryLine (cpuIndex : ℤ) (env : CPUX86State) (tv : Timeval) : LogLine :=
  ⟨cpuIndex, env.regs rEax, vmiReadArgs env, tv, .none⟩

lemma sameCapture_iff (h : Hooks) (strerrornameNp : ℤ → Option (List Char)) (cpuIndex : ℤ)
    (env : CPUX86State) (tv : Timeval) (ts : JsonNumber) (latency : ℤ) :
    SameCapture ((entryLine cpuIndex env tv).members h strerrornameNp) (stopEvent ts latency env) ↔
      (env.regs rEax).toNat < 2 ^ 32 ∨ vmiSyscallLookup (cInt (env.regs rEax)) = none := by
  have hname : get? (stopEvent ts latency env) "syscall".toList
      = some (.str (stopName (env.regs rEax).toNat).1) := rfl
  have hargs : get? (stopEvent ts latency env) "args".toList
      = some (.arr (((argRegs.take (stopName (env.regs rEax).toNat).2).map (readRegister env)).map
        fun a => .str (pyHex a))) := rfl
  constructor
  · intro hsame
    by_contra hnum
    rw [not_or] at hnum
    have hnames := hsame "syscall".toList (by simp)
    rw [hname] at hnames
    exact stopName_ne hnum.1 hnum.2 (Json.str.inj (Option.some.inj hnames)).symm
  · intro hnum k hk
    rw [stopName_eq_of_agree hnum] at hname hargs
    simp only [List.mem_cons, List.not_mem_nil, or_false] at hk
    rcases hk with rfl | rfl | rfl
    · rfl
    · rw [hname]
      rfl
    · rw [hargs, map_pyHex_readRegister]
      rfl

/-- **Two captures.** For the same registers, the inline monitor in entry-only mode and `stop` log
the same number, name and arguments if and only if the number is below `2 ^ 32` or the narrowing to
`int` finds no name for it. -/
theorem captures_agree_iff (h : Hooks) (hret : h.vmiRetAddr = 0)
    (strerrornameNp : ℤ → Option (List Char)) (hnames : PlainNames strerrornameNp) (cpuIndex : ℤ)
    (env : CPUX86State) (tv : Timeval) (htv : tv.Valid) (c : Capture) (ts : JsonNumber)
    (latency : ℤ) :
    ∃ line gdbLine ms gdbMs,
      (vmiHandleEntry h cpuIndex env tv c).log = c.log ++ [⟨env.key, line⟩] ∧
      parse (vmiWriteEvent h strerrornameNp line) = some (.obj ms) ∧
      stop none [] ts latency env = some gdbLine ∧ parse gdbLine = some (.obj gdbMs) ∧
      (SameCapture ms gdbMs ↔
        (env.regs rEax).toNat < 2 ^ 32 ∨ vmiSyscallLookup (cInt (env.regs rEax)) = none) := by
  refine ⟨entryLine cpuIndex env tv, render (.obj (stopEvent ts latency env)) ++ "\n".toList,
    (entryLine cpuIndex env tv).members h strerrornameNp, stopEvent ts latency env, ?_,
    parse_vmiWriteEvent h hnames htv, ?_, parse_render_newline _,
    sameCapture_iff h strerrornameNp cpuIndex env tv ts latency⟩
  · rw [vmiHandleEntry, if_pos hret]
    rfl
  · simp [stop]

/-- Entry-only mode on the documented build. -/
def nginxEntryOnly : Hooks := { nginxHooks with vmiRetAddr := 0, ret_ne_addr := by decide }

/-- Registers at the entry hook, all zero but for the syscall number. -/
def callOf (rax : UInt64) : CPUX86State := ⟨fun r => if r = rEax then rax else 0, 0x101000⟩

/-- A call of `openat` is captured alike. -/
theorem openat_captures_agree_iff :
    ∃ ms gdbLine gdbMs, parse (vmiWriteEvent nginxEntryOnly (fun _ => none)
        (entryLine 0 (callOf 257) ⟨0, 0⟩)) = some (.obj ms) ∧
      stop none [] (.ofInt 0) 0 (callOf 257) = some gdbLine ∧ parse gdbLine = some (.obj gdbMs) ∧
      SameCapture ms gdbMs := by
  obtain ⟨line, gdbLine, ms, gdbMs, hlog, hparse, hstop, hgdb, hiff⟩ :=
    captures_agree_iff nginxEntryOnly rfl (fun _ => none) plainNames_none 0 (callOf 257)
      ⟨0, 0⟩ ⟨by decide, by decide, by decide⟩ (.init []) (.ofInt 0) 0
  have hline : line = entryLine 0 (callOf 257) ⟨0, 0⟩ := by
    have hwritten := List.append_cancel_left hlog
    exact (congrArg Written.line (List.cons.inj hwritten).1).symm
  rw [hline] at hparse
  exact ⟨ms, gdbLine, gdbMs, hparse, hstop, hgdb, hiff.mpr (Or.inl (by decide))⟩

/-- The number `2 ^ 32` is `read` for the inline monitor, and `syscall_4294967296` for `stop`. -/
theorem captures_disagree :
    ¬ ∃ ms gdbLine gdbMs, parse (vmiWriteEvent nginxEntryOnly (fun _ => none)
        (entryLine 0 (callOf 4294967296) ⟨0, 0⟩)) = some (.obj ms) ∧
      stop none [] (.ofInt 0) 0 (callOf 4294967296) = some gdbLine ∧
      parse gdbLine = some (.obj gdbMs) ∧ SameCapture ms gdbMs := by
  rintro ⟨ms, gdbLine, gdbMs, hparse, hstop, hgdb, hsame⟩
  rw [parse_vmiWriteEvent nginxEntryOnly plainNames_none
    ⟨by decide, by decide, by decide⟩] at hparse
  obtain rfl := Json.obj.inj (Option.some.inj hparse)
  obtain rfl := Option.some.inj hstop
  rw [parse_render_newline] at hgdb
  obtain rfl := Json.obj.inj (Option.some.inj hgdb)
  have hzero : cInt ((callOf 4294967296).regs rEax) = 0 := by decide +kernel
  have hread : vmiSyscallLookup (cInt ((callOf 4294967296).regs rEax)) = some ⟨0, "read", 3⟩ := by
    rw [hzero]
    exact (search_eq_some_iff increasing_vmiSyscallTable).mpr ⟨List.mem_cons_self, rfl⟩
  rcases (sameCapture_iff nginxEntryOnly (fun _ => none) 0 _ ⟨0, 0⟩ (.ofInt 0) 0).mp hsame with
    hlt | hnone
  · exact absurd hlt (by decide)
  · rw [hread] at hnone
    cases hnone

end SyscallMonitor
