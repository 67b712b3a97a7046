import Koola.Lib.Logged
import Koola.Maps.CreateInfo
import Mathlib.Logic.Function.Basic

/-!
# ShadowHook in UNIQUE mode

What `shadowhook_hook_func_addr` does to the switches, to the patched code and to the original
pointers, write by write. A return code `0` is `none`.

* `Native`: the state; `Native.leadsTo`: the detour that the code at an address leads to.
* `Attempt`: what the environment answers at each failure point of one hook; `Request`: one hook
  call.
* From the inside out: `shInstHookRewrite`, `shUtilWriteInst`, `shExitAlloc`, `shExitFree`,
  `shInstHookWithExit`, `shInstHookWithoutExit`, `shInstHookRetry`, `shInstHook`,
  `shSwitchHookUnique`, `shTaskHook`, `shadowhookHookFuncAddr`.
-/

namespace Koola

open Logged

/-- The three detours `my_X`. -/
inductive Detour
  | localPlayerTickWorld
  | actorTick
  | playerAttack
  deriving DecidableEq, Repr

/-- The error codes that a hook by address can end with; `exitAlloc` is the `-1` of
`sh_exit_alloc`, the `init` ones are those of `shadowhook_init`. -/
inductive Errno
  | uninit
  | initErrno
  | initSigsegv
  | initSigbus
  | initEnter
  | initLinker
  | invalidArg
  | oom
  | mprot
  | writeCrash
  | monitorDlopen
  | linkerArchMismatch
  | hookDup
  | hookDladdrCrash
  | hookDlinfo
  | hookSymsz
  | hookEnter
  | hookRewriteCrash
  | hookRewriteFailed
  | elfArchMismatch
  | exitAlloc
  deriving DecidableEq, Repr

/-- What patched code jumps to: the detour, or an exit near the target. -/
inductive Branch
  | detour (d : Detour)
  | exit (e : UInt64)
  deriving DecidableEq, Repr

/-- The state that hooks act on: `minecraftInfo`, `shadowhook_init_errno`, the target addresses
in `sh_switches`, the jump that the code at an address was patched with, the detour that the exit
at an address jumps to, and the variables `origX`. A library starts at a page, so that patches at
different addresses do not overlap. -/
@[ext] structure Native where
  minecraftInfo : ModuleInfo
  initErrno : Option Errno
  switches : List UInt64
  code : UInt64 → Option Branch
  exits : UInt64 → Option Detour
  orig : Detour → UInt64

namespace Native

/-- Where a jump ends: an exit that was cleared leads nowhere. -/
def follow (s : Native) : Branch → Option Detour
  | .detour d => some d
  | .exit e => s.exits e

/-- The detour that the code at an address leads to. -/
def leadsTo (s : Native) (a : UInt64) : Option Detour := (s.code a).bind s.follow

/-- The state with `origX` set. -/
def setOrig (s : Native) (d : Detour) (v : UInt64) : Native :=
  { s with orig := Function.update s.orig d v }

/-- The state with the code at `target` patched. -/
def setCode (s : Native) (target : UInt64) (b : Branch) : Native :=
  { s with code := Function.update s.code target (some b) }

/-- The state with a jump to `my_X` at `e`, or with no jump there. -/
def setExit (s : Native) (e : UInt64) (d : Option Detour) : Native :=
  { s with exits := Function.update s.exits e d }

/-- No other switch has its exit at `e`. -/
def vacant (s : Native) (target e : UInt64) : Bool :=
  s.switches.all fun a => a = target || s.code a ≠ some (.exit e)

/-- The state with a switch added. -/
def addSwitch (s : Native) (target : UInt64) : Native :=
  { s with switches := target :: s.switches }

/-- The state with a switch removed. -/
def removeSwitch (s : Native) (target : UInt64) : Native :=
  { s with switches := s.switches.erase target }

end Native

/-! ## The environment -/

/-- How rewriting the instructions at the target ends: `failed` when an instruction cannot be
moved, `crash` when reading or writing them faults. -/
inductive Rewrite
  | ok
  | failed
  | crash
  deriving DecidableEq, Repr

/-- How `sh_util_write_inst` ends. A fault is caught; `stored` says whether it hit after the
store, in the flush of the instruction cache. -/
inductive WriteInst
  | ok
  | mprotFails
  | crash (stored : Bool)
  deriving DecidableEq, Repr

inductive ShExitType
  | outLibrary
  | inLibrary
  deriving DecidableEq, Repr

/-- The failure points of one try to patch the target. -/
structure Try where
  mprotect : Bool
  rewrite : Rewrite
  write : WriteInst
  deriving DecidableEq, Repr

/-- Those of the try with an exit: the exit that is offered, if any; a fault after the jump is
copied there; and whether an exit in the library is cleared when it is given back. -/
structure ExitTry extends Try where
  exit : Option (UInt64 × ShExitType)
  exitCrash : Bool
  exitCleared : Bool
  deriving DecidableEq, Repr

/-- The answer of `xdl_addr4`: `symSize` is `none` when no symbol is named. -/
structure DlAddr where
  crashed : Bool
  found : Bool
  archOk : Bool
  symSize : Option ℕ
  deriving DecidableEq, Repr

/-- **The environment of one hook.** `monitor` is the result of hooking the linker's own `dlopen`
first, `none` also where that is not needed; `enter` is the address of the enter trampoline, `0`
when there is none. -/
structure Attempt where
  taskAlloc : Bool
  dlAddr : DlAddr
  monitor : Option Errno
  switchAlloc : Bool
  enter : UInt64
  withExit : ExitTry
  withoutExit : Try
  deriving DecidableEq, Repr

/-- A hook call: the state it is made in, the target address, the detour, the environment. -/
structure Request where
  before : Native
  target : UInt64
  detour : Detour
  attempt : Attempt

/-- Hook programs; each hook call raises its request as an event. -/
abbrev Hook (α : Type) := Prog Native Request α

/-! ## The functions -/

/-- `sh_inst_hook_rewrite`: on success the enter trampoline is ready and `*orig_addr` is set. -/
def shInstHookRewrite (d : Detour) (enter : UInt64) : Rewrite → Hook (Option Errno)
  | .crash => pure (some .hookRewriteCrash)
  | .failed => pure (some .hookRewriteFailed)
  | .ok => do
    write (·.setOrig d enter)
    return none

/-- `sh_util_write_inst` of a jump. -/
def shUtilWriteInst (target : UInt64) (b : Branch) : WriteInst → Hook (Option Errno)
  | .mprotFails => pure (some .mprot)
  | .crash false => pure (some .writeCrash)
  | .crash true => do
    write (·.setCode target b)
    return some .writeCrash
  | .ok => do
    write (·.setCode target b)
    return none

/-- The common part of the two tries: make the target writable, rewrite, patch. -/
def shInstHookPatch (target : UInt64) (d : Detour) (b : Branch) (enter : UInt64) (t : Try) :
    Hook (Option Errno) :=
  if t.mprotect then do
    match ← shInstHookRewrite d enter t.rewrite with
    | some r => return some r
    | none => shUtilWriteInst target b t.write
  else pure (some .mprot)

/-- `sh_exit_alloc` of an exit that is offered: it is cleared, and the jump to the detour copied
there. An exit of another hook is not handed out. -/
def shExitAlloc (target : UInt64) (d : Detour) (t : ExitTry) :
    Hook (Option (UInt64 × ShExitType)) :=
  match t.exit with
  | none => pure none
  | some (e, type) => do
    let s ← get
    if s.vacant target e then
      write (·.setExit e none)
      write (·.setExit e (some d))
      return if t.exitCrash then none else some (e, type)
    else return none

/-- `sh_exit_free`: an exit in the library is cleared, where that goes well; one outside is given
back with its jump. -/
def shExitFree (e : UInt64) (type : ShExitType) (exitCleared : Bool) : Hook Unit :=
  if type = .inLibrary ∧ exitCleared then write (·.setExit e none) else pure ()

/-- `sh_inst_hook_with_exit`: four bytes, a relative jump to an exit near the target. -/
def shInstHookWithExit (target : UInt64) (d : Detour) (enter : UInt64) (ssize : ℕ) (t : ExitTry) :
    Hook (Option Errno) :=
  if ssize < 4 then pure (some .hookSymsz)
  else do
    match ← shExitAlloc target d t with
    | none => return some .exitAlloc
    | some (e, type) =>
      match ← shInstHookPatch target d (.exit e) enter t.toTry with
      | none => return none
      | some r =>
        shExitFree e type t.exitCleared
        return some r

/-- `sh_inst_hook_without_exit`: sixteen bytes, an absolute jump. -/
def shInstHookWithoutExit (target : UInt64) (d : Detour) (enter : UInt64) (ssize : ℕ) (t : Try) :
    Hook (Option Errno) :=
  if ssize < 16 then pure (some .hookSymsz)
  else shInstHookPatch target d (.detour d) enter t

/-- `sh_inst_hook` after its first try: when the second fails too, `*orig_addr = 0`. -/
def shInstHookRetry (target : UInt64) (d : Detour) (ssize : ℕ) (o : Attempt) :
    Hook (Option Errno) := do
  match ← shInstHookWithoutExit target d o.enter ssize o.withoutExit with
  | none => return none
  | some r =>
    write (·.setOrig d 0)
    return some r

/-- `sh_inst_hook`. -/
def shInstHook (target : UInt64) (d : Detour) (ssize : ℕ) (o : Attempt) : Hook (Option Errno) :=
  if o.enter = 0 then pure (some .hookEnter)
  else do
    match ← shInstHookWithExit target d o.enter ssize o.withExit with
    | none => return none
    | some _ => shInstHookRetry target d ssize o

/-- `sh_switch_hook_unique`. The tree refuses a second switch under the lock as the search before
it does; with no other thread in between, the one test stands for both. -/
def shSwitchHookUnique (target : UInt64) (d : Detour) (ssize : ℕ) (o : Attempt) :
    Hook (Option Errno) := do
  let s ← get
  if target ∈ s.switches then return some .hookDup
  else if o.switchAlloc then
    write (·.addSwitch target)
    match ← shInstHook target d ssize o with
    | none => return none
    | some r =>
      write (·.removeSwitch target)
      return some r
  else return some .oom

/-- `sh_linker_get_dlinfo_by_addr` with `ignore_symbol_check`: the size of the symbol. -/
def shLinkerGetDlinfoByAddr (a : DlAddr) : Except Errno ℕ :=
  if a.crashed then .error .hookDladdrCrash
  else if !a.found then .error .hookDlinfo
  else if !a.archOk then .error .elfArchMismatch
  else match a.symSize with
    | none => .ok 1024
    | some 0 => .error .hookSymsz
    | some n => .ok n

/-- `sh_task_hook` of a task made from an address. -/
def shTaskHook (target : UInt64) (d : Detour) (o : Attempt) : Hook (Option Errno) :=
  match shLinkerGetDlinfoByAddr o.dlAddr with
  | .error r => pure (some r)
  | .ok ssize =>
    match o.monitor with
    | some r => pure (some r)
    | none => shSwitchHookUnique target d ssize o

/-- `shadowhook_hook_func_addr(target, my_X, &origX)`: `none` is a stub, an error a null pointer. -/
def shadowhookHookFuncAddr (target : UInt64) (d : Detour) (o : Attempt) : Hook (Option Errno) := do
  let s ← get
  emit ⟨s, target, d, o⟩
  if target = 0 then return some .invalidArg
  else match s.initErrno with
    | some r => return some r
    | none => if o.taskAlloc then shTaskHook target d o else return some .oom

end Koola
