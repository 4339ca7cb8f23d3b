import SyscallMonitor.Hmp
import SyscallMonitor.Lib.Json

/-!
# Attaching the gdbstub

`attach_gdbstub.py`: the instance is looked up in what `kraft` lists, a free port is probed, and the
monitor on the socket of the instance is told to start a gdbstub on that port, for this host only.
-/

namespace SyscallMonitor

open Lib Utf8 Json

/-- What `main` can raise. -/
inductive AttachError where
  | jsonDecodeError
  | attributeError
  | typeError
  | noInstance
  | noMachineId
  | noFreePort
  | monSockNotFound
  | hmp (e : HmpError)
  | reportedFailure
  | emptyReply

/-! ### The instance -/

/-- `bool(j)` -/
def truthy : Json → Bool
  | .null => false
  | .bool b => b
  | .num n => n.mantissa ≠ 0
  | .str s => !s.isEmpty
  | .arr xs => !xs.isEmpty
  | .obj ms => !ms.isEmpty

/-- `inst.get("name") == name` -/
def isNamed (name : List Char) (inst : List (List Char × Json)) : Bool :=
  match get? inst "name".toList with
  | some (.str s) => s = name
  | _ => false

/-- The loop of `find_instance_runtime_dir`. -/
def findInstance (name : List Char) : List Json → Except AttachError (List Char)
  | [] => .error .noInstance
  | .obj inst :: insts =>
    if isNamed name inst then
      match get? inst "machine_id".toList with
      | none => .error .noMachineId
      | some id =>
        if truthy id then
          match id with
          | .str id => .ok id
          | _ => .error .typeError
        else .error .noMachineId
    else findInstance name insts
  | _ :: _ => .error .attributeError

/-- `find_instance_runtime_dir`: the name of the directory; `stdout` is what `kraft ps` prints. -/
def findInstanceRuntimeDir (stdout name : List Char) : Except AttachError (List Char) :=
  match parse stdout with
  | none => .error .jsonDecodeError
  | some instances =>
    if truthy instances then
      match instances with
      | .arr insts => findInstance name insts
      | .str _ => .error .attributeError
      | .obj _ => .error .attributeError
      | _ => .error .typeError
    else findInstance name []

/-! ### The port -/

/-- `find_free_port`; `bindable` says where `bind` succeeds. -/
def findFreePort (start : ℕ) (bindable : ℕ → Bool) : Except AttachError ℕ :=
  match (List.range' start 100).find? bindable with
  | none => .error .noFreePort
  | some port => .ok port

/-- `args.port if args.port is not None else find_free_port()` -/
def choosePort (port : Option ℤ) (bindable : ℕ → Bool) : Except AttachError ℤ :=
  match port with
  | some port => .ok port
  | none => (findFreePort 1234 bindable).map (↑)

/-! ### The gdbstub -/

/-- `reply.lower()`. Of the characters that are not ASCII none becomes a letter of the words that
are looked for. -/
def lower (s : List Char) : List Char := s.map Char.toLower

/-- The reply is taken for a failure. -/
def ReportsFailure (reply : List Char) : Prop :=
  "could not open gdbserver".toList <:+: lower reply ∨ "error".toList <:+: lower reply

instance (reply : List Char) : Decidable (ReportsFailure reply) :=
  inferInstanceAs (Decidable (_ ∨ _))

/-- The command that `attach_gdbserver` sends. -/
def gdbserverCommand (port : ℤ) : List Char := "gdbserver tcp:127.0.0.1:".toList ++ signed port

/-- An error on the socket. -/
def ofHmp {α : Type} : Except HmpError α → Except AttachError α
  | .error e => .error (.hmp e)
  | .ok a => .ok a

/-- `attach_gdbserver`: the reply, and the socket at the end; `monSock` is the socket, if its path
exists. -/
def attachGdbserver (monSock : Option Sock) (port : ℤ) : Except AttachError (List Char × Sock) :=
  match monSock with
  | none => .error .monSockNotFound
  | some sock => do
    let (_, sock) ← ofHmp (recvUntilPrompt sock)
    let (reply, sock) ← ofHmp (hmpCommand sock (gdbserverCommand port))
    if ReportsFailure reply then .error .reportedFailure
    else if reply = [] then .error .emptyReply
    else .ok (reply, sock)

/-- `main`: what is printed, and the socket at the end. `kraftPs` is what `kraft ps` prints, and
`monSock` knows the sockets by their directories. -/
def attachMain (kraftPs name : List Char) (port : Option ℤ) (bindable : ℕ → Bool)
    (monSock : List Char → Option Sock) : Except AttachError (List Char × ℤ × Sock) := do
  let runtimeDir ← findInstanceRuntimeDir kraftPs name
  let port ← choosePort port bindable
  let (hmpText, sock) ← attachGdbserver (monSock runtimeDir) port
  return (strip hmpText, port, sock)

/-! ### Each stage -/

/-- The first instance of the name counts. -/
lemma findInstance_objects {name id : List Char} {insts : List (List (List Char × Json))}
    {inst : List (List Char × Json)} (hinst : insts.find? (isNamed name) = some inst)
    (hid : get? inst "machine_id".toList = some (.str id)) (hne : id ≠ []) :
    findInstance name (insts.map .obj) = .ok id := by
  induction insts with
  | nil => cases hinst
  | cons ms insts ih =>
    rw [List.map_cons, findInstance]
    rw [List.find?_cons] at hinst
    cases hname : isNamed name ms with
    | true =>
      rw [hname] at hinst
      obtain rfl := Option.some.inj hinst
      have htruthy : truthy (.str id) = true := by simp [truthy, hne]
      simp only [hid, htruthy, ↓reduceIte]
    | false =>
      rw [hname] at hinst
      simpa using ih hinst

/-- The port that is found is the first free one. -/
lemma findFreePort_eq_ok_iff {start p : ℕ} {bindable : ℕ → Bool} :
    findFreePort start bindable = .ok p ↔
      (start ≤ p ∧ p < start + 100) ∧ bindable p = true ∧
        ∀ q, start ≤ q → q < p → bindable q = false := by
  rw [findFreePort]
  cases hfind : (List.range' start 100).find? bindable with
  | none =>
    refine iff_of_false (by simp) ?_
    rintro ⟨hp, hfree, -⟩
    have hbusy := List.find?_eq_none.mp hfind p (List.mem_range'_1.mpr hp)
    exact hbusy hfree
  | some port =>
    obtain ⟨hfree, hport, hfirst⟩ := List.find?_range'_eq_some.mp hfind
    rw [Except.ok.injEq]
    constructor
    · rintro rfl
      exact ⟨List.mem_range'_1.mp hport, hfree, fun q hq hlt => by simpa using hfirst q hq hlt⟩
    · rintro ⟨hp, hfree', hfirst'⟩
      have hsame : (List.range' start 100).find? bindable = some p :=
        List.find?_range'_eq_some.mpr
          ⟨hfree', List.mem_range'_1.mpr hp, fun q hq hlt => by simpa using hfirst' q hq hlt⟩
      exact Option.some.inj (hfind.symm.trans hsame)

lemma choosePort_eq_ok_iff {port : Option ℤ} {p : ℤ} {bindable : ℕ → Bool} :
    choosePort port bindable = .ok p ↔
      port = some p ∨ port = none ∧ ∃ n : ℕ, p = n ∧ (1234 ≤ n ∧ n < 1234 + 100) ∧
        bindable n = true ∧ ∀ q, 1234 ≤ q → q < n → bindable q = false := by
  cases port with
  | some port => simp [choosePort]
  | none =>
    simp only [choosePort, reduceCtorEq, true_and, false_or, ← findFreePort_eq_ok_iff]
    cases findFreePort 1234 bindable with
    | error e => simp [Except.map]
    | ok n => simp [Except.map, eq_comm]

/-- What a monitor says first: anything up to the first prompt. -/
structure BannerPieces (chunks : List (List UInt8)) : Prop where
  bounded : ∀ c ∈ chunks, c ≠ [] ∧ c.length ≤ 4096
  ends : prompt <:+ chunks.flatten
  only : ∀ x y, chunks.flatten = x ++ prompt ++ y → y = []

lemma strip_strip (s : List Char) : strip (strip s) = strip s := by
  have hhead : (strip s).dropWhile isspace = strip s := by
    have hpre : strip s <+: s.dropWhile isspace := List.rdropWhile_prefix _ _
    have hfirst := List.head?_dropWhile_not isspace s
    cases hs : strip s with
    | nil => rfl
    | cons c u =>
      obtain ⟨v, hv⟩ := hs ▸ hpre
      rw [← hv, List.cons_append] at hfirst
      exact List.dropWhile_cons_of_neg (by simpa using hfirst)
  rw [strip, hhead, strip, List.rdropWhile_idempotent]

section

variable {sock : Sock} {banner chunks later : List (List UInt8)} {echo body plain : List UInt8}

/-- The banner is read and nothing behind it, however the two are cut. -/
lemma attachGdbserver_eq (hbanner : BannerPieces banner)
    (hin : sock.incoming = banner ++ (chunks ++ later))
    (hreply : ReplyPieces { sock with incoming := chunks ++ later } chunks later echo body)
    (hplain : Regex.Erased IsEscape body plain) (port : ℤ) :
    attachGdbserver (some sock) port =
      if ReportsFailure (strip (decode plain)) then .error .reportedFailure
      else if strip (decode plain) = [] then .error .emptyReply
      else .ok (strip (decode plain), sock.replied later (gdbserverCommand port)) := by
  have hread : recvUntilPrompt sock
      = .ok (banner.flatten, { sock with incoming := chunks ++ later }) :=
    recvLoop_chunks hbanner.bounded hin (List.nil_append _) hbanner.ends hbanner.only
  have hcommand := hreply.hmpCommand_eq hplain (gdbserverCommand port)
  rw [attachGdbserver, hread]
  simp only [ofHmp, bind, Except.bind, hcommand]
  rfl

/-- **Attaching.** Of what `kraft` lists the first instance of the name is taken; its monitor says
anything up to a prompt and answers the command. However both are cut into pieces, `main` succeeds
exactly if the answer without its escape sequences is not empty and is not taken for a failure. Then
the gdbstub has been started on this host at the given port, or at the first free one. -/
theorem attachMain_eq_ok_iff {kraftPs name id : List Char} {insts : List (List (List Char × Json))}
    {inst : List (List Char × Json)} {monSock : List Char → Option Sock}
    (hlisting : parse kraftPs = some (.arr (insts.map .obj)))
    (hinst : insts.find? (isNamed name) = some inst)
    (hid : get? inst "machine_id".toList = some (.str id)) (hne : id ≠ [])
    (hsock : monSock id = some sock) (hbanner : BannerPieces banner)
    (hin : sock.incoming = banner ++ (chunks ++ later))
    (hreply : ReplyPieces { sock with incoming := chunks ++ later } chunks later echo body)
    (hplain : Regex.Erased IsEscape body plain) (port : Option ℤ)
    (bindable : ℕ → Bool) (r : List Char) (p : ℤ) (s : Sock) :
    attachMain kraftPs name port bindable monSock = .ok (r, p, s) ↔
      r = strip (decode plain) ∧ r ≠ [] ∧ ¬ ReportsFailure r ∧
      (port = some p ∨ port = none ∧ ∃ n : ℕ, p = n ∧ (1234 ≤ n ∧ n < 1234 + 100) ∧
        bindable n = true ∧ ∀ q, 1234 ≤ q → q < n → bindable q = false) ∧
      s = ⟨later, sock.closed,
        sock.sent ++ (encode ("gdbserver tcp:127.0.0.1:".toList ++ signed p) ++ [0x0a])⟩ := by
  have hdir : findInstanceRuntimeDir kraftPs name = .ok id := by
    have hsome : truthy (.arr (insts.map .obj)) = true := by
      cases insts with
      | nil => cases hinst
      | cons ms insts => rfl
    rw [findInstanceRuntimeDir, hlisting]
    simp only [hsome, ↓reduceIte, findInstance_objects hinst hid hne]
  rw [← choosePort_eq_ok_iff, attachMain, hdir]
  cases hport : choosePort port bindable with
  | error e => simp [bind, Except.bind]
  | ok q =>
    simp only [bind, Except.bind, hsock, attachGdbserver_eq hbanner hin hreply hplain]
    by_cases hfailure : ReportsFailure (strip (decode plain))
    · rw [if_pos hfailure]
      refine iff_of_false (by simp) ?_
      rintro ⟨rfl, -, hnot, -⟩
      exact hnot hfailure
    · by_cases hempty : strip (decode plain) = []
      · rw [if_neg hfailure, if_pos hempty]
        refine iff_of_false (by simp) ?_
        rintro ⟨rfl, hnot, -⟩
        exact hnot hempty
      · rw [if_neg hfailure, if_neg hempty]
        simp only [strip_strip, pure, Except.pure, Except.ok.injEq, Prod.mk.injEq]
        constructor
        · rintro ⟨rfl, rfl, rfl⟩
          exact ⟨rfl, hempty, hfailure, rfl, rfl⟩
        · rintro ⟨rfl, -, -, rfl, rfl⟩
          exact ⟨rfl, rfl, rfl⟩

end

/-- An instance as `kraft` lists it. -/
def vmitest : List (List Char × Json) :=
  [("machine_id".toList, .str ['a', '1']), ("name".toList, .str "vmitest".toList)]

/-- A banner, cut inside the prompt. -/
def bannerChunks : List (List UInt8) :=
  [[0x51, 0x0d, 0x0a, 0x28], [0x71, 0x65, 0x6d, 0x75, 0x29, 0x20]]

/-- The echo `g`, the body `W` and the prompt. -/
def gdbserverChunks : List (List UInt8) :=
  [[0x67, 0x0d], [0x0a, 0x57, 0x1b],
    [0x5b, 0x4b, 0x0d, 0x0a, 0x28, 0x71, 0x65, 0x6d, 0x75, 0x29, 0x20]]

theorem vmitest_attachMain_eq_ok_iff :
    attachMain (render (.arr [.obj vmitest])) "vmitest".toList none (fun p => 1235 ≤ p)
        (fun _ => some ⟨bannerChunks ++ (gdbserverChunks ++ []), false, []⟩)
      = .ok (['W'], 1235, ⟨[], false,
          encode ("gdbserver tcp:127.0.0.1:".toList ++ signed 1235) ++ [0x0a]⟩) := by
  have hbanner : BannerPieces bannerChunks :=
    ⟨by decide, ⟨[0x51, 0x0d, 0x0a], rfl⟩, eq_nil_of_forall_drop (by decide)⟩
  have hreply : ReplyPieces ⟨gdbserverChunks ++ [], false, []⟩ gdbserverChunks [] [0x67]
      [0x57, 0x1b, 0x5b, 0x4b, 0x0d, 0x0a] :=
    ⟨rfl, by decide, rfl, eq_nil_of_forall_drop (by decide), fun plainEcho hecho => by
      rw [← erased_iff.mp hecho]
      decide⟩
  have hplain : Regex.Erased IsEscape [0x57, 0x1b, 0x5b, 0x4b, 0x0d, 0x0a] [0x57, 0x0d, 0x0a] :=
    erased_iff.mpr (by decide)
  have hlisting : parse (render (.arr [.obj vmitest])) = some (.arr ([vmitest].map .obj)) :=
    parse_render_self _
  have hinst : [vmitest].find? (isNamed "vmitest".toList) = some vmitest := rfl
  have hid : get? vmitest "machine_id".toList = some (.str ['a', '1']) := rfl
  refine (attachMain_eq_ok_iff hlisting hinst hid (by simp) rfl hbanner rfl hreply hplain none
    _ _ _ _).mpr
    ⟨by decide, by simp, by decide,
      Or.inr ⟨rfl, 1235, rfl, by decide, rfl, fun q hq hlt => ?_⟩, rfl⟩
  simpa using hlt

end SyscallMonitor
