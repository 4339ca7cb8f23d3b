import SyscallMonitor.Basic
import SyscallMonitor.Lib.Numeral

/-!
# From the build to the hooks

`run_capture_inline.py` finds the two hook addresses in the output of `nm` and `objdump` and hands
them to QEMU in its environment, where `vmi_monitor_init` reads them. Whatever the environment held
before, the hooks of the monitor are the addresses in the build.
-/

namespace SyscallMonitor

open Lib

/-! ### `resolve_syscall_addr` and `resolve_syscall_ret_addr` -/

/-- What the look-up of an address can raise. -/
inductive ResolveError where
  | runtimeError
  | valueError
  | indexError
  deriving DecidableEq

/-- `line.split()[0]` -/
def firstField (line : List Char) : Except ResolveError (List Char) :=
  match (line.dropWhile isspace).takeWhile fun c => !isspace c with
  | [] => .error .indexError
  | field => .ok field

/-- `int(field, 16)` -/
def int16 (field : List Char) : Except ResolveError ℤ :=
  match pyInt16 field with
  | none => .error .valueError
  | some a => .ok a

/-- `resolve_syscall_addr`; `stdout` is the output of `nm`. -/
def resolveSyscallAddr (stdout : List Char) : Except ResolveError ℤ :=
  match (splitlines stdout).find? fun line => " T _ukplat_syscall".toList <:+ line with
  | none => .error .runtimeError
  | some line => firstField line >>= int16

/-- `resolve_syscall_ret_addr`; `stdout` is the output of `objdump`. -/
def resolveSyscallRetAddr (stdout : List Char) : Except ResolveError ℤ :=
  match (splitlines stdout).find? fun line => "jmp".toList <:+: line ∧ "*%rcx".toList <:+: line with
  | none => .error .runtimeError
  | some line => int16 (line.takeWhile fun c => c ≠ ':')

/-- `--addr`, `--ret-addr` and `--no-ret`; the first two as the integers they denote. -/
structure HookArgs where
  addr : Option ℤ
  retAddr : Option ℤ
  noRet : Bool

/-- `addr` and `ret_addr` of `main`; `objdump` answers for each start address. -/
def hookAddresses (args : HookArgs) (nm : List Char) (objdump : ℤ → List Char) :
    Except ResolveError (ℤ × Option ℤ) := do
  let addr ←
    match args.addr with
    | some addr => .ok addr
    | none => resolveSyscallAddr nm
  if args.noRet then return (addr, none)
  else
    let retAddr ←
      match args.retAddr with
      | some retAddr => .ok retAddr
      | none => resolveSyscallRetAddr (objdump addr)
    return (addr, some retAddr)

/-! ### The environment -/

/-- The environment of a process. -/
abbrev Environ := List Char → Option (List Char)

/-- `env` of `start_instance`; `environ` is inherited. -/
def startInstanceEnv (environ : Environ) (addr : ℤ) (retAddr : Option ℤ) (logPath : List Char) :
    Environ :=
  let env := Function.update environ "VMI_MONITOR_ADDR".toList (some (hex addr))
  let env := Function.update env "VMI_MONITOR_LOG".toList (some logPath)
  let env := Function.update env "VMI_MONITOR_RET_ADDR".toList none
  match retAddr with
  | none => env
  | some retAddr => Function.update env "VMI_MONITOR_RET_ADDR".toList (some (hex retAddr))

/-- `vmi_monitor_init` as far as the hooks go, in the environment `getenv`; `fopen` says which files
can be opened. -/
def vmiMonitorInitFrom (getenv : Environ) (fopen : List Char → Bool) : Option Hooks :=
  let logPath := (getenv "VMI_MONITOR_LOG".toList).getD "vmi_monitor.jsonl".toList
  vmiMonitorInit ((getenv "VMI_MONITOR_ADDR".toList).map strtoull)
    ((getenv "VMI_MONITOR_RET_ADDR".toList).map strtoull) (fopen logPath)

/-- Only the two addresses and the log matter. -/
lemma vmiMonitorInitFrom_startInstance (environ : Environ) (addr : ℤ) (retAddr : Option ℤ)
    (logPath : List Char) (fopen : List Char → Bool) :
    vmiMonitorInitFrom (startInstanceEnv environ addr retAddr logPath) fopen
      = vmiMonitorInit (some (word addr)) (retAddr.map word) (fopen logPath) := by
  have haddr : startInstanceEnv environ addr retAddr logPath "VMI_MONITOR_ADDR".toList
      = some (hex addr) := by
    cases retAddr <;> simp [startInstanceEnv]
  have hlog : startInstanceEnv environ addr retAddr logPath "VMI_MONITOR_LOG".toList
      = some logPath := by
    cases retAddr <;> simp [startInstanceEnv]
  have hret : startInstanceEnv environ addr retAddr logPath "VMI_MONITOR_RET_ADDR".toList
      = retAddr.map hex := by
    cases retAddr <;> simp [startInstanceEnv]
  rw [vmiMonitorInitFrom, haddr, hlog, hret, Option.map_map, Option.map_some, strtoull_hex,
    Option.getD_some]
  congr 2
  exact funext strtoull_hex

/-- A monitor is disabled without an address or a log. -/
lemma vmiMonitorInit_eq_none_iff (addr : UInt64) (ret : Option UInt64) (logOpens : Bool) :
    vmiMonitorInit (some addr) ret logOpens = none ↔ addr = 0 ∨ logOpens = false := by
  rw [vmiMonitorInit]
  by_cases haddr : addr = 0
  · simp [haddr]
  · cases logOpens with
    | false => simp [haddr]
    | true =>
      simp only [haddr, ↓reduceDIte, ↓reduceIte]
      split_ifs <;> simp

/-- The hooks of an enabled monitor. -/
lemma vmiMonitorInit_isHook {addr : UInt64} (haddr : addr ≠ 0) (ret : Option UInt64) :
    ∃ h, vmiMonitorInit (some addr) ret true = some h ∧ h.vmiAddr = addr ∧
      ∀ pc, h.IsHook pc ↔ pc = addr ∨ pc ≠ 0 ∧ ret = some pc := by
  rw [vmiMonitorInit]
  simp only [haddr, ↓reduceDIte, ↓reduceIte]
  split_ifs with hunusable
  · refine ⟨_, rfl, rfl, fun pc => ?_⟩
    simp only [Hooks.IsHook, ne_eq, not_true_eq_false, false_and, or_false]
    constructor
    · exact Or.inl
    · rintro (hpc | ⟨hne, rfl⟩)
      · exact hpc
      · exact hunusable.resolve_left hne
  · rw [not_or] at hunusable
    refine ⟨_, rfl, rfl, fun pc => ?_⟩
    simp only [Hooks.IsHook]
    cases ret with
    | none => exact absurd rfl hunusable.1
    | some r =>
      simp only [Option.getD_some] at hunusable
      simp only [Option.getD_some, Option.some.injEq]
      constructor
      · rintro (hpc | ⟨hne, rfl⟩)
        · exact Or.inl hpc
        · exact Or.inr ⟨hne, rfl⟩
      · rintro (hpc | ⟨hne, rfl⟩)
        · exact Or.inl hpc
        · exact Or.inr ⟨hne, rfl⟩

/-- **Hand-over.** Whatever the environment held before, and whatever integers are handed over: the
monitor stays disabled exactly when the first one is read as zero or the log cannot be opened.
Otherwise its hooks are that address and the second one, unless there is none or it is read as zero.
In range an address is read as it is. -/
theorem hooks_startInstance (environ : Environ) (addr : ℤ) (retAddr : Option ℤ)
    (logPath : List Char) (fopen : List Char → Bool) :
    (vmiMonitorInitFrom (startInstanceEnv environ addr retAddr logPath) fopen = none ↔
      word addr = 0 ∨ fopen logPath = false) ∧
    (∀ h ∈ vmiMonitorInitFrom (startInstanceEnv environ addr retAddr logPath) fopen, ∀ pc,
      h.IsHook pc ↔ pc = word addr ∨ pc ≠ 0 ∧ ∃ r ∈ retAddr, word r = pc) ∧
    ∀ x : UInt64, word x.toNat = x := by
  have hdisabled := vmiMonitorInit_eq_none_iff (word addr) (retAddr.map word) (fopen logPath)
  rw [vmiMonitorInitFrom_startInstance]
  refine ⟨hdisabled, ?_, word_toNat⟩
  intro h hh pc
  have henabled : ¬ (word addr = 0 ∨ fopen logPath = false) := by
    intro hoff
    rw [hdisabled.mpr hoff] at hh
    cases hh
  rw [not_or, Bool.not_eq_false] at henabled
  obtain ⟨h', hsome, -, hhook⟩ := vmiMonitorInit_isHook henabled.1 (retAddr.map word)
  rw [henabled.2, hsome] at hh
  obtain rfl := Option.some.inj hh
  rw [hhook, Option.map_eq_some_iff]
  rfl

/-! ### The output of `nm` -/

section

variable {α : Type*}

/-- What stands behind the last `sep`. -/
lemma append_cons_inj_of_notMem {sep : α} {s t n m : List α} (hn : sep ∉ n) (hm : sep ∉ m)
    (heq : s ++ sep :: n = t ++ sep :: m) : s = t ∧ n = m := by
  induction s generalizing t with
  | nil =>
    cases t with
    | nil => exact ⟨rfl, (List.cons.inj heq).2⟩
    | cons x t =>
      obtain ⟨rfl, rfl⟩ := List.cons.inj heq
      exact absurd (by simp) hn
  | cons x s ih =>
    cases t with
    | nil =>
      obtain ⟨rfl, rfl⟩ := List.cons.inj heq
      exact absurd (by simp) hm
    | cons y t =>
      obtain ⟨rfl, hrest⟩ := List.cons.inj heq
      obtain ⟨rfl, rfl⟩ := ih hrest
      exact ⟨rfl, rfl⟩

/-- What begins with a character that the front does not have stands in the rest. -/
lemma infix_append_iff {c : α} {p front rest : List α} (hfront : c ∉ front) :
    c :: p <:+: front ++ rest ↔ c :: p <:+: rest := by
  constructor
  · induction front with
    | nil => exact id
    | cons x front ih =>
      rw [List.mem_cons, not_or] at hfront
      intro hfactor
      rw [List.cons_append, List.infix_cons_iff] at hfactor
      rcases hfactor with hhead | hfactor
      · exact absurd (List.cons_prefix_cons.mp hhead).1 hfront.1
      · exact ih hfront.2 hfactor
  · intro hfactor
    exact hfactor.trans (List.suffix_append _ _).isInfix

end

/-- A symbol of the build as `nm` lists it. Those of type `T` are defined. -/
structure NmSymbol where
  value : Option UInt64
  type : Char
  name : List Char
  value_of_type : type = 'T' → value.isSome = true
  type_space : isspace type = false
  name_space : ∀ c ∈ name, isspace c = false

namespace NmSymbol

/-- The first column. -/
def column (s : NmSymbol) : List Char :=
  match s.value with
  | none => List.replicate 16 ' '
  | some v => (hexadecimal v.toNat).leftpad 16 '0'

/-- The line of a symbol. -/
def line (s : NmSymbol) : List Char := s.column ++ ' ' :: s.type :: ' ' :: s.name

/-- The symbol of the entry hook. -/
def IsEntry (s : NmSymbol) : Prop := s.type = 'T' ∧ s.name = "_ukplat_syscall".toList

instance (s : NmSymbol) : Decidable s.IsEntry := inferInstanceAs (Decidable (_ ∧ _))

lemma isLineBoundary_of_mem_line {s : NmSymbol} : ∀ c ∈ s.line, isLineBoundary c = false := by
  have hcolumn : ∀ c ∈ s.column, isLineBoundary c = false := by
    intro c hc
    rw [column] at hc
    split at hc
    · rw [List.eq_of_mem_replicate hc]
      rfl
    · rw [List.leftpad] at hc
      rcases List.mem_append.mp hc with hc | hc
      · rw [List.eq_of_mem_replicate hc]
        rfl
      · exact isLineBoundary_of_not_isspace (isspace_of_isDigitIn (isDigitIn_of_mem_hexadecimal hc))
  intro c hc
  rw [line, List.mem_append, List.mem_cons, List.mem_cons, List.mem_cons] at hc
  rcases hc with hc | rfl | rfl | rfl | hc
  · exact hcolumn c hc
  · rfl
  · exact isLineBoundary_of_not_isspace s.type_space
  · rfl
  · exact isLineBoundary_of_not_isspace (s.name_space c hc)

/-- The line ends as that of a global function of that name exactly for such a symbol. -/
lemma suffix_line_iff (s : NmSymbol) : " T _ukplat_syscall".toList <:+ s.line ↔ s.IsEntry := by
  have htext : " T _ukplat_syscall".toList = ' ' :: 'T' :: ' ' :: "_ukplat_syscall".toList := rfl
  constructor
  · rintro ⟨u, hu⟩
    have hname : ' ' ∉ s.name := fun hmem => absurd (s.name_space _ hmem) (by decide)
    have hline : (u ++ [' ', 'T']) ++ ' ' :: "_ukplat_syscall".toList
        = (s.column ++ [' ', s.type]) ++ ' ' :: s.name := by
      rw [htext, line] at hu
      simpa using hu
    obtain ⟨hfront, hsame⟩ := append_cons_inj_of_notMem (by decide) hname hline
    refine ⟨?_, hsame.symm⟩
    have hlast := congrArg List.getLast? hfront
    simpa using hlast.symm
  · rintro ⟨htype, hname⟩
    refine ⟨s.column, ?_⟩
    rw [htext, line, htype, hname]

/-- The address of a symbol that has one is read back. -/
lemma firstField_line {s : NmSymbol} {v : UInt64} (hv : s.value = some v) :
    (firstField s.line >>= int16) = .ok (v.toNat : ℤ) := by
  have hcolumn : s.column = (hexadecimal v.toNat).leftpad 16 '0' := by rw [column, hv]
  have hdigits : ∀ c ∈ s.column, isDigitIn 16 c = true := by
    rw [hcolumn, List.leftpad]
    intro c hc
    rcases List.mem_append.mp hc with hc | hc
    · rw [List.eq_of_mem_replicate hc]
      rfl
    · exact isDigitIn_of_mem_hexadecimal hc
  have hne : s.column ≠ [] := by
    rw [hcolumn, List.leftpad]
    intro hnil
    exact Nat.toDigits_ne_nil (List.append_eq_nil_iff.mp hnil).2
  have hfield : firstField s.line = .ok s.column := by
    obtain ⟨d, t, hd⟩ := List.exists_cons_of_ne_nil hne
    have hhead : isspace d = false := isspace_of_isDigitIn (hdigits d (by simp [hd]))
    have hdrop : s.line.dropWhile isspace = s.line := by
      rw [line, hd, List.cons_append]
      exact List.dropWhile_cons_of_neg (by simp [hhead])
    have htake : s.line.takeWhile (fun c => !isspace c) = s.column := by
      rw [line]
      refine takeWhile_append_of_head (fun c hc => ?_) (by simp [isspace])
      rw [isspace_of_isDigitIn (hdigits c hc)]
      rfl
    rw [firstField, hdrop, htake, hd]
  have hnone : ∀ c ∈ ([] : List Char), isspace c = true := by simp
  have hvalue := pyInt16_of_digits hnone hnone hdigits hne
  rw [List.nil_append, List.append_nil] at hvalue
  rw [hfield]
  show int16 s.column = _
  rw [int16, hvalue, hcolumn, valueIn_leftpad, valueIn_hexadecimal]

end NmSymbol

/-- The output of `nm`. -/
def nmText (syms : List NmSymbol) : List Char :=
  (syms.map NmSymbol.line).flatMap fun l => l ++ ['\n']

/-- The address that is found is that of the first global function `_ukplat_syscall`. -/
theorem resolveSyscallAddr_nmText (syms : List NmSymbol) :
    resolveSyscallAddr (nmText syms) =
      match syms.find? fun s => s.IsEntry with
      | none => .error .runtimeError
      | some s => .ok ((s.value.getD 0).toNat : ℤ) := by
  have hlines : splitlines (nmText syms) = syms.map NmSymbol.line := by
    refine splitlines_lines fun l hl => ?_
    obtain ⟨s, -, rfl⟩ := List.mem_map.mp hl
    exact NmSymbol.isLineBoundary_of_mem_line
  rw [resolveSyscallAddr, hlines, List.find?_map]
  have hpred : ((fun line => decide (" T _ukplat_syscall".toList <:+ line)) ∘ NmSymbol.line)
      = fun s => decide s.IsEntry := by
    funext s
    exact decide_eq_decide.mpr s.suffix_line_iff
  rw [hpred]
  cases hfind : syms.find? fun s => s.IsEntry with
  | none => rfl
  | some s =>
    have hentry : s.IsEntry := by simpa using List.find?_some hfind
    obtain ⟨v, hv⟩ := Option.isSome_iff_exists.mp (s.value_of_type hentry.1)
    show (firstField s.line >>= int16) = .ok ((s.value.getD 0).toNat : ℤ)
    rw [NmSymbol.firstField_line hv, hv]
    rfl

/-! ### The output of `objdump` -/

/-- A line of a disassembly: an instruction with its address, or something else, which has no
operand `*%rcx`. -/
inductive ObjdumpLine where
  | insn (indent : ℕ) (addr : UInt64) (text : List Char)
    (boundary : ∀ c ∈ text, isLineBoundary c = false)
  | other (text : List Char) (boundary : ∀ c ∈ text, isLineBoundary c = false)
    (operand : ¬ "*%rcx".toList <:+: text)

namespace ObjdumpLine

/-- What stands before the colon of an instruction. -/
def column (indent : ℕ) (addr : UInt64) : List Char :=
  List.replicate indent ' ' ++ hexadecimal addr.toNat

def line : ObjdumpLine → List Char
  | .insn indent addr text _ => column indent addr ++ ':' :: text
  | .other text _ _ => text

/-- The address of a `jmp *%rcx`. -/
def jmpRcx : ObjdumpLine → Option UInt64
  | .insn _ addr text _ =>
    if "jmp".toList <:+: text ∧ "*%rcx".toList <:+: text then some addr else none
  | .other _ _ _ => none

lemma mem_column {indent : ℕ} {addr : UInt64} {c : Char} (hc : c ∈ column indent addr) :
    c = ' ' ∨ isDigitIn 16 c = true := by
  rcases List.mem_append.mp hc with hc | hc
  · exact Or.inl (List.eq_of_mem_replicate hc)
  · exact Or.inr (isDigitIn_of_mem_hexadecimal hc)

lemma notMem_column {c : Char} (hspace : c ≠ ' ') (hdigit : isDigitIn 16 c = false) (indent : ℕ)
    (addr : UInt64) : c ∉ column indent addr := by
  intro hmem
  rcases mem_column hmem with rfl | hc
  · exact hspace rfl
  · rw [hdigit] at hc
    cases hc

lemma isLineBoundary_of_mem_line {l : ObjdumpLine} : ∀ c ∈ l.line, isLineBoundary c = false := by
  cases l with
  | insn indent addr text boundary =>
    intro c hc
    rcases List.mem_append.mp hc with hc | hc
    · rcases mem_column hc with rfl | hdigit
      · rfl
      · exact isLineBoundary_of_not_isspace (isspace_of_isDigitIn hdigit)
    · rcases List.mem_cons.mp hc with rfl | hc
      · rfl
      · exact boundary c hc
  | other text boundary operand => exact boundary

/-- The address column takes no part in the search. -/
lemma infix_line_iff {c : Char} (p : List Char) (hspace : c ≠ ' ') (hcolon : c ≠ ':')
    (hdigit : isDigitIn 16 c = false) (indent : ℕ) (addr : UInt64) (text : List Char) :
    c :: p <:+: column indent addr ++ ':' :: text ↔ c :: p <:+: text := by
  have hfront : c ∉ column indent addr ++ [':'] := by
    rw [List.mem_append, List.mem_singleton, not_or]
    exact ⟨notMem_column hspace hdigit indent addr, hcolon⟩
  have hsplit : column indent addr ++ ':' :: text = column indent addr ++ [':'] ++ text := by simp
  rw [hsplit, infix_append_iff hfront]

/-- The line is taken exactly if it is a `jmp *%rcx`. -/
lemma infix_line_iff_jmpRcx (l : ObjdumpLine) :
    ("jmp".toList <:+: l.line ∧ "*%rcx".toList <:+: l.line) ↔ l.jmpRcx.isSome = true := by
  cases l with
  | insn indent addr text boundary =>
    have hjmp : "jmp".toList <:+: column indent addr ++ ':' :: text ↔ "jmp".toList <:+: text :=
      infix_line_iff ['m', 'p'] (by decide) (by decide) rfl indent addr text
    have hrcx : "*%rcx".toList <:+: column indent addr ++ ':' :: text ↔ "*%rcx".toList <:+: text :=
      infix_line_iff ['%', 'r', 'c', 'x'] (by decide) (by decide) rfl indent addr text
    rw [line, hjmp, hrcx, jmpRcx]
    split_ifs with h
    · exact iff_of_true h rfl
    · exact iff_of_false h (by simp)
  | other text boundary operand =>
    simp only [jmpRcx, Option.isSome_none, Bool.false_eq_true, iff_false]
    exact fun h => operand h.2

/-- Its address is read back. -/
lemma int16_line {l : ObjdumpLine} {addr : UInt64} (haddr : l.jmpRcx = some addr) :
    int16 (l.line.takeWhile fun c => c ≠ ':') = .ok (addr.toNat : ℤ) := by
  cases l with
  | other text boundary operand => cases haddr
  | insn indent addr' text boundary =>
    rw [jmpRcx] at haddr
    split_ifs at haddr
    obtain rfl := Option.some.inj haddr
    have htake : (line (.insn indent addr' text boundary)).takeWhile (fun c => c ≠ ':')
        = column indent addr' := by
      refine takeWhile_append_of_head (fun c hc => ?_) (by simp)
      rw [decide_eq_true_eq]
      rintro rfl
      exact notMem_column (by decide) rfl indent addr' hc
    have hspaces : ∀ c ∈ List.replicate indent ' ', isspace c = true := by
      intro c hc
      rw [List.eq_of_mem_replicate hc]
      rfl
    have hnone : ∀ c ∈ ([] : List Char), isspace c = true := by simp
    have hvalue := pyInt16_of_digits hspaces hnone
      (fun c hc => isDigitIn_of_mem_hexadecimal (n := addr'.toNat) hc) Nat.toDigits_ne_nil
    rw [List.append_nil, valueIn_hexadecimal] at hvalue
    rw [htake, int16, column, hvalue]

end ObjdumpLine

/-- The output of `objdump`. -/
def objdumpText (lines : List ObjdumpLine) : List Char :=
  (lines.map ObjdumpLine.line).flatMap fun l => l ++ ['\n']

/-- The address that is found is that of the first `jmp *%rcx`. -/
theorem resolveSyscallRetAddr_objdumpText (lines : List ObjdumpLine) :
    resolveSyscallRetAddr (objdumpText lines) =
      match lines.findSome? ObjdumpLine.jmpRcx with
      | none => .error .runtimeError
      | some addr => .ok (addr.toNat : ℤ) := by
  have hlines : splitlines (objdumpText lines) = lines.map ObjdumpLine.line := by
    refine splitlines_lines fun l hl => ?_
    obtain ⟨s, -, rfl⟩ := List.mem_map.mp hl
    exact ObjdumpLine.isLineBoundary_of_mem_line
  rw [resolveSyscallRetAddr, hlines]
  clear hlines
  induction lines with
  | nil => rfl
  | cons l lines ih =>
    rw [List.map_cons, List.findSome?_cons, List.find?_cons]
    cases hjmp : l.jmpRcx with
    | none =>
      have hnot : ¬ ("jmp".toList <:+: l.line ∧ "*%rcx".toList <:+: l.line) := by
        rw [l.infix_line_iff_jmpRcx, hjmp]
        simp
      rw [decide_eq_false hnot]
      exact ih
    | some addr =>
      have htaken : "jmp".toList <:+: l.line ∧ "*%rcx".toList <:+: l.line := by
        rw [l.infix_line_iff_jmpRcx, hjmp]
        rfl
      rw [decide_eq_true htaken]
      exact ObjdumpLine.int16_line hjmp

/-! ### From the build to the hooks -/

/-- `main` up to the hooks of the monitor that it starts; `none` if that stays disabled. -/
def launch (environ : Environ) (args : HookArgs) (nm : List Char) (objdump : ℤ → List Char)
    (logPath : List Char) (fopen : List Char → Bool) : Except ResolveError (Option Hooks) := do
  let (addr, retAddr) ← hookAddresses args nm objdump
  return vmiMonitorInitFrom (startInstanceEnv environ addr retAddr logPath) fopen

section

variable {environ : Environ} {syms : List NmSymbol} {listing : ℤ → List ObjdumpLine}
  {logPath : List Char} {fopen : List Char → Bool} {s : NmSymbol} {v : UInt64}

/-- With `--no-ret` only the symbol counts. -/
lemma launch_noRet (hfind : (syms.find? fun s => s.IsEntry) = some s) (hvalue : s.value = some v) :
    launch environ ⟨none, none, true⟩ (nmText syms) (fun addr => objdumpText (listing addr))
        logPath fopen
      = .ok (vmiMonitorInit (some v) none (fopen logPath)) := by
  have haddr : resolveSyscallAddr (nmText syms) = .ok (v.toNat : ℤ) := by
    rw [resolveSyscallAddr_nmText, hfind]
    simp [hvalue]
  simp only [launch, hookAddresses, haddr]
  show Except.ok (vmiMonitorInitFrom _ fopen) = _
  rw [vmiMonitorInitFrom_startInstance, word_toNat, Option.map_none]

/-- Without it the disassembly behind the symbol is searched. -/
lemma launch_ret (hfind : (syms.find? fun s => s.IsEntry) = some s) (hvalue : s.value = some v) :
    launch environ ⟨none, none, false⟩ (nmText syms) (fun addr => objdumpText (listing addr))
        logPath fopen =
      match (listing v.toNat).findSome? ObjdumpLine.jmpRcx with
      | none => .error .runtimeError
      | some r => .ok (vmiMonitorInit (some v) (some r) (fopen logPath)) := by
  have haddr : resolveSyscallAddr (nmText syms) = .ok (v.toNat : ℤ) := by
    rw [resolveSyscallAddr_nmText, hfind]
    simp [hvalue]
  simp only [launch, hookAddresses, haddr]
  show (resolveSyscallRetAddr (objdumpText (listing v.toNat)) >>= _) >>= _ = _
  rw [resolveSyscallRetAddr_objdumpText]
  cases (listing v.toNat).findSome? ObjdumpLine.jmpRcx with
  | none => rfl
  | some r =>
    show Except.ok (vmiMonitorInitFrom _ fopen) = _
    rw [vmiMonitorInitFrom_startInstance, word_toNat, Option.map_some, word_toNat]

end

/-- **Hooks of the build.** Whatever the inherited environment holds, with no address on the command
line: without a global `_ukplat_syscall` in the symbol table, or without a `jmp *%rcx` behind the
first one unless `--no-ret` is given, nothing is started. Otherwise, if the symbol's address is not
zero and the log can be opened, the monitor hooks that address and, unless `--no-ret` is given, that
of the first `jmp *%rcx`, and nothing else. -/
theorem hooks_of_build (environ : Environ) (syms : List NmSymbol) (listing : ℤ → List ObjdumpLine)
    (noRet : Bool) (logPath : List Char) (fopen : List Char → Bool) :
    let started := launch environ ⟨none, none, noRet⟩ (nmText syms)
      (fun addr => objdumpText (listing addr)) logPath fopen
    ((∀ s ∈ syms, ¬ s.IsEntry) → started = .error .runtimeError) ∧
    ∀ s v, (syms.find? fun s => s.IsEntry) = some s → s.value = some v →
      (noRet = false → (listing v.toNat).findSome? ObjdumpLine.jmpRcx = none →
        started = .error .runtimeError) ∧
      (noRet = true ∨ ((listing v.toNat).findSome? ObjdumpLine.jmpRcx).isSome = true →
        v = 0 ∨ fopen logPath = false → started = .ok none) ∧
      (noRet = true → v ≠ 0 → fopen logPath = true →
        ∃ h, started = .ok (some h) ∧ h.vmiAddr = v ∧ ∀ pc, h.IsHook pc ↔ pc = v) ∧
      ∀ r, noRet = false → (listing v.toNat).findSome? ObjdumpLine.jmpRcx = some r → v ≠ 0 →
        fopen logPath = true → ∃ h, started = .ok (some h) ∧ h.vmiAddr = v ∧
          ∀ pc, h.IsHook pc ↔ pc = v ∨ pc ≠ 0 ∧ pc = r := by
  intro started
  constructor
  · intro hnone
    have hfind : (syms.find? fun s => s.IsEntry) = none := by
      rw [List.find?_eq_none]
      simpa using hnone
    simp only [started, launch, hookAddresses, resolveSyscallAddr_nmText, hfind]
    rfl
  · intro s v hfind hvalue
    refine ⟨?_, ?_, ?_, ?_⟩
    · rintro rfl hjmp
      simp only [started, launch_ret hfind hvalue, hjmp]
    · intro hret hoff
      have hdisabled (ret : Option UInt64) : vmiMonitorInit (some v) ret (fopen logPath) = none :=
        (vmiMonitorInit_eq_none_iff v ret _).mpr hoff
      cases noRet with
      | true => simp only [started, launch_noRet hfind hvalue, hdisabled]
      | false =>
        obtain ⟨r, hjmp⟩ := Option.isSome_iff_exists.mp (hret.resolve_left (by simp))
        simp only [started, launch_ret hfind hvalue, hjmp, hdisabled]
    · rintro rfl hv hopen
      obtain ⟨h, hinit, hfirst, hhook⟩ := vmiMonitorInit_isHook hv none
      refine ⟨h, ?_, hfirst, fun pc => by simp [hhook]⟩
      simp only [started, launch_noRet hfind hvalue, hopen, hinit]
    · rintro r rfl hjmp hv hopen
      obtain ⟨h, hinit, hfirst, hhook⟩ := vmiMonitorInit_isHook hv (some r)
      refine ⟨h, ?_, hfirst, fun pc => by rw [hhook, Option.some.injEq, eq_comm (a := r)]⟩
      simp only [started, launch_ret hfind hvalue, hjmp, hopen, hinit]

/-- The entry of a build. -/
def ukplatSyscall : NmSymbol where
  value := some 0x10b0f0
  type := 'T'
  name := "_ukplat_syscall".toList
  value_of_type := fun _ => rfl
  type_space := rfl
  name_space := by
    have hall : ("_ukplat_syscall".toList.all fun c => !isspace c) = true := rfl
    simpa only [List.all_eq_true, Bool.not_eq_true'] using hall

/-- Its end. -/
def ukplatSyscallEnd : List ObjdumpLine :=
  [.insn 2 0x10b1a0 "\tff e1\tjmp    *%rcx".toList <| by
    have hall : ("\tff e1\tjmp    *%rcx".toList.all fun c => !isLineBoundary c) = true := rfl
    simpa only [List.all_eq_true, Bool.not_eq_true'] using hall]

theorem nginx_hooks_of_build :
    ∃ h, launch (fun _ => none) ⟨none, none, false⟩ (nmText [ukplatSyscall])
        (fun _ => objdumpText ukplatSyscallEnd) [] (fun _ => true) = .ok (some h) ∧
      h.vmiAddr = 0x10b0f0 ∧ ∀ pc, h.IsHook pc ↔ pc = 0x10b0f0 ∨ pc ≠ 0 ∧ pc = 0x10b1a0 :=
  ((hooks_of_build (fun _ => none) [ukplatSyscall] (fun _ => ukplatSyscallEnd) false []
    (fun _ => true)).2 ukplatSyscall 0x10b0f0 rfl rfl).2.2.2 0x10b1a0 rfl (by decide)
      (by decide) rfl

end SyscallMonitor
