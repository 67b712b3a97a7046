import Koola.Alloc.Exit
import Koola.Inline.HookRewrite

/-!
# `sh_inst`, on the memory

A hook writes a jump over the first instructions of a function, and an unhook takes it back. `none`
is a call that does not return: `abort` in `sh_trampo_alloc`, or a lock that is never released. A
return code `0` is `none` in `some`.

* `InstState`: the memory, the two managers and the lock; `HookEnv`, `UnhookEnv`: what the system
  answers.
* `shEnterAlloc`, `shEnterFree`, `shExitAlloc`, `shExitFree`, `shUtilWriteInst`.
* `shInstHookWithExit`, `shInstHookWithoutExit`, `shInstHook`, `shInstUnhook`.
-/

namespace Koola.Inline

open A64

/-- The memory, `sh_enter_trampo_mgr`, `sh_exit_trampo_mgr`, and whether `sh_exit_lock` is held for
good. -/
structure InstState where
  mem : Mem
  enters : ShTrampoMgr
  exits : ShTrampoMgr
  exitLocked : Bool

/-- After `sh_enter_init` and `sh_exit_init`. -/
def InstState.init (m : Mem) : InstState :=
  ⟨m, shTrampoInitMgr 256 10, shTrampoInitMgr 16 2, false⟩

/-- The answers in one try to patch the target; `crash`: the instructions there cannot be read. -/
structure PatchEnv where
  mprotect : Bool
  crash : Bool
  write : WriteInst

/-- The answers to `sh_exit_free`. -/
structure ExitFreeEnv where
  now : ℤ
  gap : ExitEnv

/-- **The environment of one hook.** -/
structure HookEnv where
  enter : AllocEnv
  exit : AllocEnv
  gap : ExitEnv
  withExit : PatchEnv
  exitFree : ExitFreeEnv
  withoutExit : PatchEnv
  enterFree : ℤ

structure UnhookEnv where
  crash : Bool
  write : WriteInst
  exitFree : ExitFreeEnv
  enterFree : ℤ

/-- The error codes of `sh_inst_unhook`. -/
inductive UnhookErrno
  | unhookCmpCrash
  | unhookTrampoMismatch
  | mprot
  | writeCrash
  | exit (r : ExitFreeErrno)
  deriving DecidableEq

variable (pageSize : ℕ) (infos : ElfinfoGlobals)

/-! ## Memory for the trampolines -/

/-- `sh_enter_alloc`: the address is `0` when there is none. -/
def shEnterAlloc (env : AllocEnv) (s : InstState) : Option (Addr × InstState) :=
  match shTrampoAlloc s.enters pageSize 0 0 0 env s.mem with
  | (mgr, m, .mem a) => some (a, { s with mem := m, enters := mgr })
  | (mgr, m, .null) => some (0, { s with mem := m, enters := mgr })
  | (_, _, .abort) => none

def shEnterFree (enter : Addr) (now : ℤ) (s : InstState) : InstState :=
  { s with enters := shTrampoFree s.enters pageSize enter now }

/-- `sh_exit_alloc`: outside of the library, or else in a gap of it. -/
def shExitAlloc (pc : Addr) (dlinfo : XdlInfo) (exit : List (BitVec 32))
    (rangeLow rangeHigh : Addr) (env : AllocEnv) (gap : ExitEnv) (s : InstState) :
    Option (Option (Addr × ShExitType) × InstState) :=
  match shTrampoAlloc s.exits pageSize pc rangeLow rangeHigh env s.mem with
  | (mgr, m, .mem a) =>
    some (some (a, .outLibrary), { s with mem := m.writeWords a exit, exits := mgr })
  | (mgr, m, .null) =>
    if s.exitLocked then none
    else
      match shExitAllocInLibrary (BitVec.ofNat 64 pageSize) infos pc dlinfo exit rangeLow rangeHigh
          gap m with
      | (m, .found a) => some (some (a, .inLibrary), { s with mem := m, exits := mgr })
      | (m, .none) => some (none, { s with mem := m, exits := mgr })
      | (m, .locked) => some (none, { s with mem := m, exits := mgr, exitLocked := true })
  | (_, _, .abort) => none

def shExitFree (exitAddr : Addr) (type : ShExitType) (exit : List (BitVec 32)) (env : ExitFreeEnv)
    (s : InstState) : Option (InstState × Option ExitFreeErrno) :=
  match type with
  | .outLibrary =>
    some ({ s with exits := shTrampoFree s.exits pageSize exitAddr env.now }, none)
  | .inLibrary =>
    if s.exitLocked then none
    else
      match shExitFreeInLibrary exitAddr exit env.gap s.mem with
      | (m, r) => some ({ s with mem := m }, r)

/-! ## Hooks -/

/-- `sh_util_write_inst`, of whole words. -/
def shUtilWriteInst (target : Addr) (inst : List (BitVec 32)) (w : WriteInst) (m : Mem) :
    Option Errno × Mem :=
  match w with
  | .mprotFails => (some .mprot, m)
  | .crash false => (some .writeCrash, m)
  | .crash true => (some .writeCrash, m.writeWords target inst)
  | .ok => (none, m.writeWords target inst)

/-- `sh_util_mprotect` and `sh_inst_hook_rewrite`, under `SH_SIG_TRY`. -/
def hookRewrite (self : ShInst) (target : Addr) (orig orig2 : Option Addr) (env : PatchEnv)
    (m : Mem) : ShInst × Mem × Option Errno :=
  if !env.mprotect then (self, m, some .mprot)
  else if env.crash then (self, m, some .hookRewriteCrash)
  else shInstHookRewrite self target orig orig2 m

/-- The end of both tries: rewrite, and write the jump `trampo`. -/
def hookPatch (self : ShInst) (target : Addr) (orig orig2 : Option Addr)
    (trampo : List (BitVec 32)) (env : PatchEnv) (m : Mem) : ShInst × Mem × Option Errno :=
  match hookRewrite self target orig orig2 env m with
  | (self, m, some r) => (self, m, some r)
  | (self, m, none) =>
    let self := { self with trampo := trampo }
    match shUtilWriteInst target trampo env.write m with
    | (r, m) => (self, m, r)

/-- `SH_INST_A64_B_RANGE_LOW` and `SH_INST_A64_B_RANGE_HIGH`. -/
def shInstA64BRangeLow : Addr := 134217728
def shInstA64BRangeHigh : Addr := 134217724

/-- `sh_inst_hook_with_exit`. -/
def shInstHookWithExit (self : ShInst) (target : Addr) (dlinfo : XdlInfo) (newAddr : Addr)
    (orig orig2 : Option Addr) (env : HookEnv) (s : InstState) :
    Option (ShInst × InstState × Option Errno) :=
  let self := { self with backupLen := 4 }
  if dlinfo.dliSsize < 4 then some (self, s, some .hookSymsz)
  else
    let self := { self with exit := shA64AbsoluteJumpWithBr newAddr }
    match shExitAlloc pageSize infos target dlinfo self.exit shInstA64BRangeLow shInstA64BRangeHigh
        env.exit env.gap s with
    | none => none
    | some (none, s) =>
      some ({ self with exitAddr := 0, exitType := .inLibrary }, s, some .exitAlloc)
    | some (some (exitAddr, type), s) =>
      let self := { self with exitAddr := exitAddr, exitType := type }
      match hookPatch self target orig orig2 (shA64RelativeJump exitAddr target) env.withExit
          s.mem with
      | (self, m, none) => some (self, { s with mem := m }, none)
      | (self, m, some r) =>
        match shExitFree pageSize exitAddr type self.exit env.exitFree { s with mem := m } with
        | none => none
        | some (s, _) => some ({ self with exitAddr := 0 }, s, some r)

/-- `sh_inst_hook_without_exit`. -/
def shInstHookWithoutExit (self : ShInst) (target : Addr) (dlinfo : XdlInfo) (newAddr : Addr)
    (orig orig2 : Option Addr) (env : HookEnv) (s : InstState) :
    ShInst × InstState × Option Errno :=
  let self := { self with backupLen := 16 }
  if dlinfo.dliSsize < 16 then (self, s, some .hookSymsz)
  else
    match hookPatch self target orig orig2 (shA64AbsoluteJumpWithBr newAddr) env.withoutExit
        s.mem with
    | (self, m, r) => (self, { s with mem := m }, r)

/-- `sh_inst_hook`. -/
def shInstHook (self : ShInst) (target : Addr) (dlinfo : XdlInfo) (newAddr : Addr)
    (orig orig2 : Option Addr) (env : HookEnv) (s : InstState) :
    Option (ShInst × InstState × Option Errno) :=
  match shEnterAlloc pageSize env.enter s with
  | none => none
  | some (enterAddr, s) =>
    let self := { self with enterAddr := enterAddr }
    if enterAddr = 0 then some (self, s, some .hookEnter)
    else
      match shInstHookWithExit pageSize infos self target dlinfo newAddr orig orig2 env s with
      | none => none
      | some (self, s, none) => some (self, s, none)
      | some (self, s, some _) =>
        match shInstHookWithoutExit self target dlinfo newAddr orig orig2 env s with
        | (self, s, none) => some (self, s, none)
        | (self, s, some r) =>
          let m := storeOrig orig2 0 (storeOrig orig 0 s.mem)
          some (self, shEnterFree pageSize self.enterAddr env.enterFree { s with mem := m }, some r)

/-- `sh_inst_unhook`. -/
def shInstUnhook (self : ShInst) (target : Addr) (env : UnhookEnv) (s : InstState) :
    Option (InstState × Option UnhookErrno) :=
  if env.crash then some (s, some .unhookCmpCrash)
  else if s.mem.readWords target (self.backupLen / 4) ≠ self.trampo then
    some (s, some .unhookTrampoMismatch)
  else
    match shUtilWriteInst target self.backup env.write s.mem with
    | (some .mprot, m) => some ({ s with mem := m }, some .mprot)
    | (some _, m) => some ({ s with mem := m }, some .writeCrash)
    | (none, m) =>
      let s := { s with mem := m }
      let freed := if self.exitAddr ≠ 0 then
          shExitFree pageSize self.exitAddr self.exitType self.exit env.exitFree s
        else some (s, none)
      match freed with
      | none => none
      | some (s, some r) => some (s, some (.exit r))
      | some (s, none) => some (shEnterFree pageSize self.enterAddr env.enterFree s, none)

end Koola.Inline
