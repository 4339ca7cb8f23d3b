import SyscallMonitor.Lib.BinarySearch
import Mathlib.Order.Defs.LinearOrder
import Mathlib.Algebra.Order.Group.Int
import Mathlib.Data.List.Chain

/-!
# The syscall table

The table of `vmi-syscall-table.h`, its lookup by binary search, and the dictionary of
`syscall_table.py` that it was generated from.
-/

namespace SyscallMonitor

open Lib

/-- `VmiSyscallInfo`. -/
structure VmiSyscallInfo where
  nr : Int
  name : String
  argc : ℕ
  deriving DecidableEq

/-- `vmi_syscall_table`. -/
def vmiSyscallTable : List VmiSyscallInfo :=
  [
    ⟨0, "read", 3⟩, ⟨1, "write", 3⟩, ⟨2, "open", 3⟩, ⟨3, "close", 1⟩, ⟨4, "stat", 2⟩,
    ⟨5, "fstat", 2⟩, ⟨6, "lstat", 2⟩, ⟨7, "poll", 3⟩, ⟨8, "lseek", 3⟩, ⟨9, "mmap", 6⟩,
    ⟨10, "mprotect", 3⟩, ⟨11, "munmap", 2⟩, ⟨12, "brk", 1⟩, ⟨13, "rt_sigaction", 4⟩,
    ⟨14, "rt_sigprocmask", 4⟩, ⟨16, "ioctl", 3⟩, ⟨17, "pread64", 4⟩, ⟨18, "pwrite64", 4⟩,
    ⟨19, "readv", 3⟩, ⟨20, "writev", 3⟩, ⟨21, "access", 2⟩, ⟨22, "pipe", 1⟩, ⟨23, "select", 5⟩,
    ⟨24, "sched_yield", 0⟩, ⟨26, "msync", 3⟩, ⟨28, "madvise", 3⟩, ⟨32, "dup", 1⟩,
    ⟨33, "dup2", 2⟩, ⟨34, "pause", 0⟩, ⟨35, "nanosleep", 2⟩, ⟨37, "alarm", 1⟩,
    ⟨38, "setitimer", 3⟩, ⟨39, "getpid", 0⟩, ⟨40, "sendfile", 4⟩, ⟨41, "socket", 3⟩,
    ⟨42, "connect", 3⟩, ⟨43, "accept", 3⟩, ⟨44, "sendto", 6⟩, ⟨45, "recvfrom", 6⟩,
    ⟨46, "sendmsg", 3⟩, ⟨47, "recvmsg", 3⟩, ⟨48, "shutdown", 2⟩, ⟨49, "bind", 3⟩,
    ⟨50, "listen", 2⟩, ⟨51, "getsockname", 3⟩, ⟨52, "getpeername", 3⟩, ⟨53, "socketpair", 4⟩,
    ⟨54, "setsockopt", 5⟩, ⟨55, "getsockopt", 5⟩, ⟨56, "clone", 5⟩, ⟨60, "exit", 1⟩,
    ⟨61, "wait4", 4⟩, ⟨62, "kill", 2⟩, ⟨63, "uname", 1⟩, ⟨72, "fcntl", 3⟩, ⟨73, "flock", 2⟩,
    ⟨74, "fsync", 1⟩, ⟨75, "fdatasync", 1⟩, ⟨76, "truncate", 2⟩, ⟨77, "ftruncate", 2⟩,
    ⟨78, "getdents", 3⟩, ⟨79, "getcwd", 2⟩, ⟨80, "chdir", 1⟩, ⟨81, "fchdir", 1⟩,
    ⟨82, "rename", 2⟩, ⟨83, "mkdir", 2⟩, ⟨84, "rmdir", 1⟩, ⟨85, "creat", 2⟩, ⟨86, "link", 2⟩,
    ⟨87, "unlink", 1⟩, ⟨88, "symlink", 2⟩, ⟨89, "readlink", 3⟩, ⟨90, "chmod", 2⟩,
    ⟨91, "fchmod", 2⟩, ⟨92, "chown", 3⟩, ⟨93, "fchown", 3⟩, ⟨94, "lchown", 3⟩, ⟨95, "umask", 1⟩,
    ⟨96, "gettimeofday", 2⟩, ⟨97, "getrlimit", 2⟩, ⟨98, "getrusage", 2⟩, ⟨99, "sysinfo", 1⟩,
    ⟨100, "times", 1⟩, ⟨102, "getuid", 0⟩, ⟨104, "getgid", 0⟩, ⟨105, "setuid", 1⟩,
    ⟨106, "setgid", 1⟩, ⟨107, "geteuid", 0⟩, ⟨108, "getegid", 0⟩, ⟨109, "setpgid", 2⟩,
    ⟨110, "getppid", 0⟩, ⟨111, "getpgrp", 0⟩, ⟨112, "setsid", 0⟩, ⟨113, "setreuid", 2⟩,
    ⟨114, "setregid", 2⟩, ⟨115, "getgroups", 2⟩, ⟨116, "setgroups", 2⟩, ⟨117, "setresuid", 3⟩,
    ⟨118, "getresuid", 3⟩, ⟨119, "setresgid", 3⟩, ⟨120, "getresgid", 3⟩, ⟨121, "getpgid", 1⟩,
    ⟨122, "setfsuid", 1⟩, ⟨123, "setfsgid", 1⟩, ⟨124, "getsid", 1⟩, ⟨125, "capget", 2⟩,
    ⟨126, "capset", 2⟩, ⟨127, "rt_sigpending", 2⟩, ⟨128, "rt_sigtimedwait", 4⟩,
    ⟨129, "rt_sigqueueinfo", 3⟩, ⟨130, "rt_sigsuspend", 2⟩, ⟨131, "sigaltstack", 2⟩,
    ⟨132, "utime", 2⟩, ⟨133, "mknod", 3⟩, ⟨137, "statfs", 2⟩, ⟨138, "fstatfs", 2⟩,
    ⟨140, "getpriority", 2⟩, ⟨141, "setpriority", 3⟩, ⟨149, "mlock", 2⟩, ⟨157, "prctl", 5⟩,
    ⟨158, "arch_prctl", 3⟩, ⟨160, "setrlimit", 2⟩, ⟨161, "chroot", 1⟩, ⟨162, "sync", 0⟩,
    ⟨164, "settimeofday", 2⟩, ⟨165, "mount", 5⟩, ⟨166, "umount2", 2⟩, ⟨170, "sethostname", 2⟩,
    ⟨186, "gettid", 0⟩, ⟨200, "tkill", 2⟩, ⟨201, "time", 1⟩, ⟨202, "futex", 6⟩,
    ⟨203, "sched_setaffinity", 3⟩, ⟨204, "sched_getaffinity", 3⟩, ⟨213, "epoll_create", 1⟩,
    ⟨217, "getdents64", 3⟩, ⟨218, "set_tid_address", 1⟩, ⟨221, "fadvise64", 4⟩,
    ⟨222, "timer_create", 3⟩, ⟨223, "timer_settime", 4⟩, ⟨224, "timer_gettime", 2⟩,
    ⟨225, "timer_getoverrun", 1⟩, ⟨226, "timer_delete", 1⟩, ⟨227, "clock_settime", 2⟩,
    ⟨228, "clock_gettime", 2⟩, ⟨229, "clock_getres", 2⟩, ⟨230, "clock_nanosleep", 4⟩,
    ⟨231, "exit_group", 1⟩, ⟨232, "epoll_wait", 4⟩, ⟨233, "epoll_ctl", 4⟩, ⟨234, "tgkill", 3⟩,
    ⟨235, "utimes", 2⟩, ⟨247, "waitid", 5⟩, ⟨257, "openat", 4⟩, ⟨258, "mkdirat", 3⟩,
    ⟨261, "futimesat", 3⟩, ⟨262, "newfstatat", 4⟩, ⟨263, "unlinkat", 3⟩, ⟨264, "renameat", 4⟩,
    ⟨267, "readlinkat", 4⟩, ⟨269, "faccessat", 4⟩, ⟨270, "pselect6", 6⟩, ⟨271, "ppoll", 5⟩,
    ⟨280, "utimensat", 4⟩, ⟨281, "epoll_pwait", 6⟩, ⟨283, "timerfd_create", 2⟩,
    ⟨284, "eventfd", 1⟩, ⟨285, "fallocate", 4⟩, ⟨286, "timerfd_settime", 4⟩,
    ⟨287, "timerfd_gettime", 2⟩, ⟨288, "accept4", 4⟩, ⟨290, "eventfd2", 2⟩,
    ⟨291, "epoll_create1", 1⟩, ⟨292, "dup3", 3⟩, ⟨293, "pipe2", 2⟩, ⟨295, "preadv", 4⟩,
    ⟨296, "pwritev", 4⟩, ⟨297, "rt_tgsigqueueinfo", 4⟩, ⟨302, "prlimit64", 4⟩,
    ⟨309, "getcpu", 3⟩, ⟨318, "getrandom", 3⟩, ⟨324, "membarrier", 3⟩, ⟨327, "preadv2", 5⟩,
    ⟨328, "pwritev2", 5⟩, ⟨441, "epoll_pwait2", 6⟩]

/-- The loop of `vmi_syscall_lookup` over a table. -/
def vmiSyscallLookupIn (table : List VmiSyscallInfo) (nr : Int) : Option VmiSyscallInfo :=
  search VmiSyscallInfo.nr table nr 0 table.length (Nat.le_refl _)

/-- `vmi_syscall_lookup`; `none` is `NULL`. -/
def vmiSyscallLookup (nr : Int) : Option VmiSyscallInfo := vmiSyscallLookupIn vmiSyscallTable nr

/-- `SYSCALL_TABLE` of `syscall_table.py`. -/
def syscallTable : List (Int × String × ℕ) :=
  [
    (0, "read", 3), (1, "write", 3), (2, "open", 3), (3, "close", 1), (4, "stat", 2),
    (5, "fstat", 2), (6, "lstat", 2), (7, "poll", 3), (8, "lseek", 3), (9, "mmap", 6),
    (10, "mprotect", 3), (11, "munmap", 2), (12, "brk", 1), (13, "rt_sigaction", 4),
    (14, "rt_sigprocmask", 4), (16, "ioctl", 3), (17, "pread64", 4), (18, "pwrite64", 4),
    (19, "readv", 3), (20, "writev", 3), (21, "access", 2), (22, "pipe", 1), (23, "select", 5),
    (24, "sched_yield", 0), (26, "msync", 3), (28, "madvise", 3), (32, "dup", 1),
    (33, "dup2", 2), (34, "pause", 0), (35, "nanosleep", 2), (37, "alarm", 1),
    (38, "setitimer", 3), (39, "getpid", 0), (40, "sendfile", 4), (41, "socket", 3),
    (42, "connect", 3), (43, "accept", 3), (44, "sendto", 6), (45, "recvfrom", 6),
    (46, "sendmsg", 3), (47, "recvmsg", 3), (48, "shutdown", 2), (49, "bind", 3),
    (50, "listen", 2), (51, "getsockname", 3), (52, "getpeername", 3), (53, "socketpair", 4),
    (54, "setsockopt", 5), (55, "getsockopt", 5), (56, "clone", 5), (60, "exit", 1),
    (61, "wait4", 4), (62, "kill", 2), (63, "uname", 1), (72, "fcntl", 3), (73, "flock", 2),
    (74, "fsync", 1), (75, "fdatasync", 1), (76, "truncate", 2), (77, "ftruncate", 2),
    (78, "getdents", 3), (79, "getcwd", 2), (80, "chdir", 1), (81, "fchdir", 1),
    (82, "rename", 2), (83, "mkdir", 2), (84, "rmdir", 1), (85, "creat", 2), (86, "link", 2),
    (87, "unlink", 1), (88, "symlink", 2), (89, "readlink", 3), (90, "chmod", 2),
    (91, "fchmod", 2), (92, "chown", 3), (93, "fchown", 3), (94, "lchown", 3), (95, "umask", 1),
    (96, "gettimeofday", 2), (97, "getrlimit", 2), (98, "getrusage", 2), (99, "sysinfo", 1),
    (100, "times", 1), (102, "getuid", 0), (104, "getgid", 0), (105, "setuid", 1),
    (106, "setgid", 1), (107, "geteuid", 0), (108, "getegid", 0), (109, "setpgid", 2),
    (110, "getppid", 0), (111, "getpgrp", 0), (112, "setsid", 0), (113, "setreuid", 2),
    (114, "setregid", 2), (115, "getgroups", 2), (116, "setgroups", 2), (117, "setresuid", 3),
    (118, "getresuid", 3), (119, "setresgid", 3), (120, "getresgid", 3), (121, "getpgid", 1),
    (122, "setfsuid", 1), (123, "setfsgid", 1), (124, "getsid", 1), (125, "capget", 2),
    (126, "capset", 2), (127, "rt_sigpending", 2), (128, "rt_sigtimedwait", 4),
    (129, "rt_sigqueueinfo", 3), (130, "rt_sigsuspend", 2), (131, "sigaltstack", 2),
    (132, "utime", 2), (133, "mknod", 3), (137, "statfs", 2), (138, "fstatfs", 2),
    (140, "getpriority", 2), (141, "setpriority", 3), (149, "mlock", 2), (157, "prctl", 5),
    (158, "arch_prctl", 3), (160, "setrlimit", 2), (161, "chroot", 1), (162, "sync", 0),
    (164, "settimeofday", 2), (165, "mount", 5), (166, "umount2", 2), (170, "sethostname", 2),
    (186, "gettid", 0), (200, "tkill", 2), (201, "time", 1), (202, "futex", 6),
    (203, "sched_setaffinity", 3), (204, "sched_getaffinity", 3), (213, "epoll_create", 1),
    (217, "getdents64", 3), (218, "set_tid_address", 1), (221, "fadvise64", 4),
    (222, "timer_create", 3), (223, "timer_settime", 4), (224, "timer_gettime", 2),
    (225, "timer_getoverrun", 1), (226, "timer_delete", 1), (227, "clock_settime", 2),
    (228, "clock_gettime", 2), (229, "clock_getres", 2), (230, "clock_nanosleep", 4),
    (231, "exit_group", 1), (232, "epoll_wait", 4), (233, "epoll_ctl", 4), (234, "tgkill", 3),
    (235, "utimes", 2), (247, "waitid", 5), (257, "openat", 4), (258, "mkdirat", 3),
    (261, "futimesat", 3), (262, "newfstatat", 4), (263, "unlinkat", 3), (264, "renameat", 4),
    (267, "readlinkat", 4), (269, "faccessat", 4), (270, "pselect6", 6), (271, "ppoll", 5),
    (280, "utimensat", 4), (281, "epoll_pwait", 6), (283, "timerfd_create", 2),
    (284, "eventfd", 1), (285, "fallocate", 4), (286, "timerfd_settime", 4),
    (287, "timerfd_gettime", 2), (288, "accept4", 4), (290, "eventfd2", 2),
    (291, "epoll_create1", 1), (292, "dup3", 3), (293, "pipe2", 2), (295, "preadv", 4),
    (296, "pwritev", 4), (297, "rt_tgsigqueueinfo", 4), (302, "prlimit64", 4),
    (309, "getcpu", 3), (318, "getrandom", 3), (324, "membarrier", 3), (327, "preadv2", 5),
    (328, "pwritev2", 5), (441, "epoll_pwait2", 6)]

/-- `SYSCALL_TABLE.get(nr)`. -/
def syscallTableGet (nr : Int) : Option (String × ℕ) := syscallTable.lookup nr

/-! ### The two tables -/

set_option maxRecDepth 4000 in
lemma increasing_vmiSyscallTable : Increasing VmiSyscallInfo.nr vmiSyscallTable := by
  apply List.isChain_iff_pairwise.mp
  decide

set_option maxRecDepth 4000 in
/-- The dictionary has the rows of the table. -/
lemma syscallTable_eq : syscallTable = vmiSyscallTable.map fun e => (e.nr, e.name, e.argc) := rfl

/-- A dictionary that is made from the rows of a table of distinct numbers is looked up in the
table. -/
lemma lookup_map_eq (table : List VmiSyscallInfo) (nr : Int) :
    (table.map fun e => (e.nr, e.name, e.argc)).lookup nr
      = (table.find? fun e => e.nr = nr).map fun e => (e.name, e.argc) := by
  induction table with
  | nil => rfl
  | cons e table ih =>
    rw [List.map_cons, List.find?_cons, List.lookup_cons, ih]
    by_cases he : e.nr = nr
    · subst he
      simp
    · have hne : (nr == e.nr) = false := by simpa using fun hk : nr = e.nr => he hk.symm
      simp [he, hne]

/-- The binary search finds what a search row by row finds. -/
theorem vmiSyscallLookup_eq_find (nr : Int) :
    vmiSyscallLookup nr = vmiSyscallTable.find? fun e => e.nr = nr := by
  have hinc := increasing_vmiSyscallTable
  cases hfind : vmiSyscallTable.find? fun e => e.nr = nr with
  | none =>
    refine (search_eq_none_iff hinc).mpr fun e he => ?_
    simpa using List.find?_eq_none.mp hfind e he
  | some e =>
    refine (search_eq_some_iff hinc).mpr ⟨List.mem_of_find?_eq_some hfind, ?_⟩
    simpa using List.find?_some hfind

/-- Both tables name the same syscalls. -/
theorem vmiSyscallLookup_map (nr : Int) :
    (vmiSyscallLookup nr).map (fun e => (e.name, e.argc)) = syscallTableGet nr := by
  rw [syscallTableGet, syscallTable_eq, lookup_map_eq, vmiSyscallLookup_eq_find]

/-- **Lookup.** In every table of increasing numbers the binary search finds the entry of a number,
or `NULL` if there is none; the shipped table is one, and the lookup in it is that of the
dictionary. -/
theorem vmiSyscallLookup_finds (table : List VmiSyscallInfo)
    (hinc : Increasing VmiSyscallInfo.nr table) (nr : Int) :
    (∀ e, vmiSyscallLookupIn table nr = some e ↔ e ∈ table ∧ e.nr = nr) ∧
      (vmiSyscallLookupIn table nr = none ↔ ¬ ∃ e ∈ table, e.nr = nr) ∧
      Increasing VmiSyscallInfo.nr vmiSyscallTable ∧
      (vmiSyscallLookup nr).map (fun e => (e.name, e.argc)) = syscallTableGet nr ∧
      (vmiSyscallLookup nr = none ↔ nr ∉ syscallTable.map Prod.fst) := by
  refine ⟨fun e => search_eq_some_iff hinc, ?_, increasing_vmiSyscallTable,
    vmiSyscallLookup_map nr, ?_⟩
  · apply (search_eq_none_iff hinc).trans
    push Not
    rfl
  · apply (search_eq_none_iff increasing_vmiSyscallTable).trans
    rw [syscallTable_eq, List.map_map, List.mem_map]
    push Not
    rfl

/-- `vmiSyscallLookup_finds` on the shipped table: `accept4` has number 288. -/
theorem shipped_vmiSyscallLookup_finds :
    vmiSyscallLookupIn vmiSyscallTable 288 = some ⟨288, "accept4", 4⟩ :=
  ((vmiSyscallLookup_finds vmiSyscallTable increasing_vmiSyscallTable 288).1 _).mpr (by decide)

end SyscallMonitor
