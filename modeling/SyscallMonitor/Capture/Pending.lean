import SyscallMonitor.Basic
import Mathlib.Data.List.FinRange
import Mathlib.Data.Fintype.Card

/-!
# The pending table

`vmi_pending[]`, the functions that fill and empty it, and the log they append to. Everything here
follows `vmi-syscall-monitor.c` statement by statement; the loops over the table are folds over
the slots in index order.
-/

namespace SyscallMonitor

/-- The pairing key of a syscall: the application's `%rsp` and `%rcx`. -/
structure PairKey where
  rsp : UInt64
  rcx : UInt64
  deriving DecidableEq

/-- One element of `vmi_pending[]`. -/
structure VmiPending where
  used : Bool
  seq : UInt64
  rsp : UInt64
  rcx : UInt64
  cpuIndex : Int
  num : UInt64
  argv : Fin 6 → UInt64
  tv : Timeval

/-- The key a held entry waits under. -/
def VmiPending.key (p : VmiPending) : PairKey := ⟨p.rsp, p.rcx⟩

/-- The line that `vmi_write_event` writes for a held entry. -/
def VmiPending.line (p : VmiPending) (kind : VmiRetKind) : LogLine :=
  ⟨p.cpuIndex, p.num, p.argv, p.tv, kind⟩

/-- `VMI_PENDING_MAX`. -/
def vmiPendingMax : ℕ := 64

/-- An index into `vmi_pending[]`. -/
abbrev Slot := Fin vmiPendingMax

/-- The slots in the order in which the loops of the source visit them. -/
def slots : List Slot := List.finRange vmiPendingMax

@[simp] lemma mem_slots (i : Slot) : i ∈ slots := List.mem_finRange i

lemma nodup_slots : slots.Nodup := List.nodup_finRange vmiPendingMax

/-- A line of the log. The file holds only `line`; `key` is the context the line was written for
and is recorded for the statements about pairing. -/
structure Written where
  key : PairKey
  line : LogLine
  deriving DecidableEq

/-- The static variables of return capture, and the log written so far, oldest line first. -/
structure Capture where
  vmiPending : Slot → VmiPending
  vmiPendingSeq : UInt64
  log : List Written

/-- The pairing key in the registers at either hook. -/
def CPUX86State.key (env : CPUX86State) : PairKey := ⟨env.regs rEsp, env.regs rEcx⟩

namespace Capture

/-- Static storage at start-up: every slot zero, the log as given. -/
def init (log : List Written) : Capture where
  vmiPending _ := ⟨false, 0, 0, 0, 0, 0, fun _ => 0, ⟨0, 0⟩⟩
  vmiPendingSeq := 0
  log := log

/-- `vmi_write_event`, called for the context `key`. -/
def writeEvent (c : Capture) (key : PairKey) (line : LogLine) : Capture :=
  { c with log := c.log ++ [⟨key, line⟩] }

/-- `p->used = false`. -/
def release (c : Capture) (i : Slot) : Capture :=
  { c with
    vmiPending := Function.update c.vmiPending i { c.vmiPending i with used := false } }

end Capture

/-- `vmi_write_unfinished`. -/
def vmiWriteUnfinished (c : Capture) (i : Slot) (why : UnfinishedWhy) : Capture :=
  (c.writeEvent (c.vmiPending i).key ((c.vmiPending i).line (.unfinished why))).release i

/-- One pass of the search for the used slot with the smallest `seq`. -/
def keepOldest (t : Slot → VmiPending) (oldest : Option Slot) (i : Slot) : Option Slot :=
  if (t i).used then
    match oldest with
    | none => some i
    | some o => if (t i).seq < (t o).seq then some i else some o
  else oldest

/-- The used slot with the smallest `seq`, the first in index order if there are several. -/
def oldestUsed (t : Slot → VmiPending) : Option Slot :=
  slots.foldl (keepOldest t) none

/-! ### `vmi_handle_entry` -/

/-- The locals of the loop in `vmi_handle_entry`. -/
structure EntryScan where
  capture : Capture
  slot : Option Slot
  oldest : Option Slot

/-- The first `if` of the loop body: an entry of the same context that never came back. -/
def supersede (key : PairKey) (c : Capture) (i : Slot) : Capture :=
  if (c.vmiPending i).used ∧ (c.vmiPending i).key = key then
    vmiWriteUnfinished c i .superseded
  else c

/-- The loop body of `vmi_handle_entry`. -/
def entryScanBody (key : PairKey) (st : EntryScan) (i : Slot) : EntryScan :=
  let c := supersede key st.capture i
  if (c.vmiPending i).used then
    { st with capture := c, oldest := keepOldest c.vmiPending st.oldest i }
  else
    { st with capture := c, slot := st.slot.or (some i) }

/-- The loop of `vmi_handle_entry`. -/
def entryScan (key : PairKey) (c : Capture) : EntryScan :=
  slots.foldl (entryScanBody key) ⟨c, none, none⟩

/-- What `vmi_handle_entry` stores in its slot. -/
def VmiPending.ofEntry (seq : UInt64) (cpuIndex : Int) (env : CPUX86State) (tv : Timeval) :
    VmiPending where
  used := true
  seq := seq
  rsp := env.regs rEsp
  rcx := env.regs rEcx
  cpuIndex := cpuIndex
  num := env.regs rEax
  argv := vmiReadArgs env
  tv := tv

/-- The assignments to `*slot` that end `vmi_handle_entry`. -/
def Capture.hold (c : Capture) (i : Slot) (cpuIndex : Int) (env : CPUX86State) (tv : Timeval) :
    Capture :=
  { c with
    vmiPending :=
      Function.update c.vmiPending i (.ofEntry c.vmiPendingSeq cpuIndex env tv)
    vmiPendingSeq := c.vmiPendingSeq + 1 }

/-- `vmi_handle_entry`; `tv` is what `gettimeofday` answers. -/
def vmiHandleEntry (h : Hooks) (cpuIndex : Int) (env : CPUX86State) (tv : Timeval) (c : Capture) :
    Capture :=
  if h.vmiRetAddr = 0 then
    c.writeEvent env.key ⟨cpuIndex, env.regs rEax, vmiReadArgs env, tv, .none⟩
  else
    let scan := entryScan env.key c
    match scan.slot, scan.oldest with
    | some slot, _ => scan.capture.hold slot cpuIndex env tv
    | none, some oldest =>
      (vmiWriteUnfinished scan.capture oldest .evicted).hold oldest cpuIndex env tv
    | none, none => scan.capture -- a NULL dereference in C; `entryScan_slot_or_oldest` excludes it

/-! ### `vmi_handle_return` -/

/-- The first slot, in index order, that holds an entry under `key`. -/
def findPending (c : Capture) (key : PairKey) : Option Slot :=
  slots.find? fun i => (c.vmiPending i).used && decide ((c.vmiPending i).key = key)

/-- `vmi_handle_return`; `retTv` is what `gettimeofday` answers. -/
def vmiHandleReturn (env : CPUX86State) (retTv : Timeval) (c : Capture) : Capture :=
  match findPending c env.key with
  | some i =>
    (c.writeEvent (c.vmiPending i).key
      ((c.vmiPending i).line (.value (env.regs rEax).toInt64 retTv))).release i
  | none => c

/-! ### `vmi_flush_pending` -/

/-- The slots that hold an entry. -/
def Capture.usedSlots (c : Capture) : Finset Slot :=
  Finset.univ.filter fun i => (c.vmiPending i).used

@[simp] lemma Capture.mem_usedSlots {c : Capture} {i : Slot} :
    i ∈ c.usedSlots ↔ (c.vmiPending i).used = true := by
  simp [Capture.usedSlots]

lemma Capture.usedSlots_release (c : Capture) (i : Slot) :
    (c.release i).usedSlots = c.usedSlots.erase i := by
  ext j
  by_cases hji : j = i
  · subst hji
    simp [Capture.release]
  · simp [Capture.release, hji]

/-- The candidate is a used slot throughout the search. -/
lemma keepOldest_used {t : Slot → VmiPending} {o : Option Slot} (ho : ∀ j ∈ o, (t j).used = true)
    (i : Slot) : ∀ j ∈ keepOldest t o i, (t j).used = true := by
  intro j hj
  simp only [keepOldest] at hj
  split_ifs at hj with hi
  · cases o with
    | none =>
      cases hj
      exact hi
    | some k =>
      simp only at hj
      split_ifs at hj <;> cases hj
      · exact hi
      · exact ho _ rfl
  · exact ho j hj

lemma foldl_keepOldest_used {t : Slot → VmiPending} (l : List Slot) {o : Option Slot}
    (ho : ∀ j ∈ o, (t j).used = true) : ∀ j ∈ l.foldl (keepOldest t) o, (t j).used = true := by
  induction l generalizing o with
  | nil => exact ho
  | cons i l ih => exact ih (keepOldest_used ho i)

lemma oldestUsed_used {t : Slot → VmiPending} {i : Slot} (h : oldestUsed t = some i) :
    (t i).used = true :=
  foldl_keepOldest_used slots (o := none) (by simp) i h

/-- `vmi_flush_pending`. Each round of the `for (;;)` frees one slot, so the loop ends. -/
def vmiFlushPending (why : UnfinishedWhy) (c : Capture) : Capture :=
  match _h : oldestUsed c.vmiPending with
  | none => c
  | some oldest => vmiFlushPending why (vmiWriteUnfinished c oldest why)
termination_by c.usedSlots.card
decreasing_by
  have hused : oldest ∈ c.usedSlots := Capture.mem_usedSlots.mpr (oldestUsed_used _h)
  show ((c.writeEvent _ _).release oldest).usedSlots.card < c.usedSlots.card
  rw [Capture.usedSlots_release]
  exact Finset.card_erase_lt_of_mem hused

/-! ### Sequences of hook events -/

/-- What reaches the pending table: a trap at the entry hook, a trap at the return hook, or a
shutdown of the machine. -/
inductive HookEvent where
  | entry (cpuIndex : Int) (env : CPUX86State) (tv : Timeval)
  | ret (cpuIndex : Int) (env : CPUX86State) (tv : Timeval)
  | flush

/-- The entry events of a trace. -/
def HookEvent.isEntry : HookEvent → Bool
  | .entry .. => true
  | .ret .. => false
  | .flush => false

/-- The effect of one event. `vmi_handle_return` uses its vCPU only in a diagnostic, and
`vmi_flush_pending` is only ever called with `shutdown`. -/
def Capture.handle (h : Hooks) (c : Capture) : HookEvent → Capture
  | .entry cpuIndex env tv => vmiHandleEntry h cpuIndex env tv c
  | .ret _ env tv => vmiHandleReturn env tv c
  | .flush => vmiFlushPending .shutdown c

/-- The effect of a sequence of events. -/
def Capture.handleAll (h : Hooks) (c : Capture) (es : List HookEvent) : Capture :=
  es.foldl (Capture.handle h) c

@[simp] lemma Capture.handleAll_nil (h : Hooks) (c : Capture) : c.handleAll h [] = c := rfl

@[simp] lemma Capture.handleAll_append (h : Hooks) (c : Capture) (es fs : List HookEvent) :
    c.handleAll h (es ++ fs) = (c.handleAll h es).handleAll h fs :=
  List.foldl_append

lemma Capture.handleAll_concat (h : Hooks) (c : Capture) (es : List HookEvent) (e : HookEvent) :
    c.handleAll h (es ++ [e]) = (c.handleAll h es).handle h e := by
  rw [Capture.handleAll_append]
  rfl

end SyscallMonitor
