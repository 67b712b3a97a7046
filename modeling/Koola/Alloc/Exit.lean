import Koola.Alloc.Trampo

/-!
# Exits in the gaps of a library

`sh_exit` keeps the jump to a detour in the memory between the segments of the library. A piece of
that memory is free if it is zero; a mark at the start of a gap says that the gap was filled with
zeros.

* `Phdr`, `XdlInfo`, `ShExitElfinfo`: the program headers; `shExitIsElfLoadedByKernel`.
* `ShExitGap`, `shExitGetGaps`.
* `ExitEnv`: the answers of the system; `shExitFillZero`, `shExitTryAllocInLibrary`,
  `shExitAllocInLibrary`, `shExitFreeInLibrary`.
-/

namespace Koola

open A64

/-- `SH_UTIL_ALIGN_START`, of addresses. -/
def alignStart (x align : Addr) : Addr := x &&& ~~~(align - 1)

/-- `SH_UTIL_ALIGN_END`, of addresses. -/
def alignEnd (x align : Addr) : Addr := (x + align - 1) &&& ~~~(align - 1)

section Page

variable (pageSize : Addr) (x : Addr)

def shUtilPageStart : Addr := x &&& ~~~(pageSize - 1)

def shUtilPageEnd : Addr := shUtilPageStart pageSize (x + pageSize - 1)

end Page

/-! ## Program headers -/

/-- `ElfW(Phdr)`; `load` is `PT_LOAD == p_type`, the others are flags. -/
structure Phdr where
  load : Bool
  x : Bool
  r : Bool
  vaddr : Addr
  memsz : Addr
  filesz : Addr
  deriving DecidableEq

/-- `xdl_info_t`. -/
structure XdlInfo where
  dliFbase : Addr
  dliSsize : ℕ
  phdrs : List Phdr

/-- `sh_exit_elfinfo_t`; there is no information where `phdrs` is `none`. -/
structure ShExitElfinfo where
  loadBias : Addr
  phdrs : Option (List Phdr)

def shExitIsInElfRange (pc : Addr) (info : ShExitElfinfo) : Bool :=
  if pc < info.loadBias then false
  else
    let vaddr := pc - info.loadBias
    (info.phdrs.getD []).any fun phdr =>
      phdr.load && phdr.vaddr ≤ vaddr && vaddr < phdr.vaddr + phdr.memsz

/-- `sh_exit_app_process_info`, `sh_exit_linker_info` and `sh_exit_vdso_info`. -/
structure ElfinfoGlobals where
  appProcess : ShExitElfinfo
  linker : ShExitElfinfo
  vdso : ShExitElfinfo

def shExitIsElfLoadedByKernel (infos : ElfinfoGlobals) (pc : Addr) : Bool :=
  infos.appProcess.phdrs.isNone || shExitIsInElfRange pc infos.appProcess ||
    infos.linker.phdrs.isNone || shExitIsInElfRange pc infos.linker ||
    (infos.vdso.phdrs.isSome && shExitIsInElfRange pc infos.vdso)

/-! ## Gaps -/

structure ShExitGap where
  start : Addr
  endAddr : Addr
  needFillZero : Bool
  readable : Bool
  deriving DecidableEq

def nextPageStart (pageSize dliFbase curPageEnd : Addr) : Option Phdr → Addr
  | none => curPageEnd
  | some next => shUtilPageStart pageSize (dliFbase + next.vaddr)

/-- The gap behind the segment `cur`, where the next one is `next`. -/
def segmentGap (pageSize dliFbase : Addr) (cur : Phdr) (next : Option Phdr) : ShExitGap :=
  let curEnd := dliFbase + cur.vaddr + cur.memsz
  let curPageEnd := shUtilPageEnd pageSize curEnd
  let curFileEnd := dliFbase + cur.vaddr + cur.filesz
  let curFilePageEnd := shUtilPageEnd pageSize curFileEnd
  let nextPageStart := nextPageStart pageSize dliFbase curPageEnd next
  if cur.x then ⟨alignEnd curEnd 0x10, nextPageStart, true, cur.r && curPageEnd = nextPageStart⟩
  else if curPageEnd > curFilePageEnd then
    ⟨alignEnd curEnd 0x10, nextPageStart, false, cur.r && curPageEnd = nextPageStart⟩
  else if nextPageStart > curPageEnd then ⟨curPageEnd, nextPageStart, true, false⟩
  else ⟨0, 0, false, false⟩

/-- There is room in the gap, with the mark. -/
def ShExitGap.usable (gap : ShExitGap) : Bool :=
  (gap.needFillZero && gap.endAddr > gap.start + 0x10) ||
    (!gap.needFillZero && gap.endAddr > gap.start)

/-- The next segment that is loaded; the gaps of what the kernel has loaded end with the page. -/
def nextPhdr (elfLoadedByKernel : Bool) (rest : List Phdr) : Option Phdr :=
  if elfLoadedByKernel then none else rest.find? (·.load)

/-- `sh_exit_get_gaps`, with room for `gapsCap` gaps. -/
def shExitGetGaps (pageSize dliFbase : Addr) (elfLoadedByKernel : Bool) :
    List Phdr → ℕ → List ShExitGap
  | [], _ => []
  | _ :: _, 0 => []
  | cur :: rest, gapsCap + 1 =>
    if !cur.load then shExitGetGaps pageSize dliFbase elfLoadedByKernel rest (gapsCap + 1)
    else
      let gap := segmentGap pageSize dliFbase cur (nextPhdr elfLoadedByKernel rest)
      if gap.usable then gap :: shExitGetGaps pageSize dliFbase elfLoadedByKernel rest gapsCap
      else shExitGetGaps pageSize dliFbase elfLoadedByKernel rest (gapsCap + 1)

/-! ## Memory in a gap -/

/-- The answers in one call: a read at the address faults; `mprotect` of the memory there goes
well. -/
structure ExitEnv where
  crash : Addr → Bool
  mprotect : Addr → Bool

/-- How a step in a gap ends early: a fault, or the `return -1` in `SH_SIG_TRY`. -/
inductive Stopped
  | crash
  | mprot
  deriving DecidableEq

/-- `SH_EXIT_CLEAR_FLAG`. -/
def clearFlagWord : BitVec 64 := 0xD4200000D4200000

/-- `sh_exit_is_zero`, on the words that are left; `none` is a fault. -/
def shExitIsZero (env : ExitEnv) (m : Mem) (bufEnd : Addr) : ℕ → Addr → Option Bool
  | 0, _ => some true
  | n + 1, i =>
    if i < bufEnd then
      if env.crash i then none
      else if m.read64 i ≠ 0 then some false
      else shExitIsZero env m bufEnd n (i + 8)
    else some true

def shExitFillZero (env : ExitEnv) (gap : ShExitGap) (m : Mem) : Mem × Option Stopped :=
  let size := (gap.endAddr - gap.start).toNat
  if !gap.readable && !env.mprotect gap.start then (m, some .mprot)
  else if env.crash gap.start then (m, some .crash)
  else if m.read64 gap.start ≠ clearFlagWord then
    if gap.readable && !env.mprotect gap.start then (m, some .mprot)
    else ((memClear m gap.start size).write gap.start clearFlagWord, none)
  else (m, none)

/-- How the search in one gap ends. -/
inductive TryAlloc
  | found (exitAddr : Addr)
  | none
  | crash
  deriving DecidableEq

/-- The loop of `sh_exit_try_alloc_in_library` over the places that are left. -/
def scanGap (env : ExitEnv) (m : Mem) (exitLen : ℕ) : ℕ → Addr → TryAlloc
  | 0, _ => .none
  | n + 1, cur =>
    match shExitIsZero env m (cur + BitVec.ofNat 64 exitLen) (exitLen / 8) cur with
    | none => .crash
    | some false => scanGap env m exitLen n (cur + BitVec.ofNat 64 exitLen)
    | some true => if env.mprotect cur then .found cur else .none

/-- The places of `sh_exit_try_alloc_in_library`, from the first to the last. -/
def gapRange (pc : Addr) (exitLen : ℕ) (rangeLow rangeHigh : Addr) (gap : ShExitGap) :
    Addr × Addr :=
  let len := BitVec.ofNat 64 exitLen
  let start := if pc ≥ rangeLow then
      if gap.start > pc - rangeLow then gap.start else pc - rangeLow
    else gap.start
  let endAddr := if rangeHigh ≤ 0xFFFFFFFFFFFFFFFF - pc then
      if gap.endAddr - len < pc + rangeHigh then gap.endAddr - len else pc + rangeHigh
    else gap.endAddr
  (alignEnd start len, alignStart endAddr len)

def shExitTryAllocInLibrary (env : ExitEnv) (m : Mem) (pc : Addr) (exitLen : ℕ)
    (rangeLow rangeHigh : Addr) (gap : ShExitGap) : TryAlloc :=
  let (start, endAddr) := gapRange pc exitLen rangeLow rangeHigh gap
  if endAddr < start then .none
  else scanGap env m exitLen ((endAddr - start).toNat / exitLen + 1) start

/-- How `sh_exit_alloc_in_library` ends. After `locked` the lock is never released. -/
inductive InLibrary
  | found (exitAddr : Addr)
  | none
  | locked
  deriving DecidableEq

/-- The loop of `sh_exit_alloc_in_library` over the gaps that are left. -/
def allocInGaps (env : ExitEnv) (pc : Addr) (exit : List (BitVec 32)) (rangeLow rangeHigh : Addr) :
    List ShExitGap → Mem → Mem × InLibrary
  | [], m => (m, .none)
  | gap :: gaps, m =>
    match if gap.needFillZero then shExitFillZero env gap m else (m, none) with
    | (m, some .crash) => (m, .none)
    | (m, some .mprot) => (m, .locked)
    | (m, none) =>
      match shExitTryAllocInLibrary env m pc (4 * exit.length) rangeLow rangeHigh gap with
      | .crash => (m, .none)
      | .found a => (m.writeWords a exit, .found a)
      | .none => allocInGaps env pc exit rangeLow rangeHigh gaps m

/-- `SH_EXIT_GAPS_CAP`. -/
def shExitGapsCap : ℕ := 16

def shExitAllocInLibrary (pageSize : Addr) (infos : ElfinfoGlobals) (pc : Addr) (dlinfo : XdlInfo)
    (exit : List (BitVec 32)) (rangeLow rangeHigh : Addr) (env : ExitEnv) (m : Mem) :
    Mem × InLibrary :=
  let elfLoadedByKernel := shExitIsElfLoadedByKernel infos pc
  allocInGaps env pc exit rangeLow rangeHigh
    (shExitGetGaps pageSize dlinfo.dliFbase elfLoadedByKernel dlinfo.phdrs shExitGapsCap) m

/-- The error codes of `sh_exit_free_in_library`. -/
inductive ExitFreeErrno
  | unhookExitMismatch
  | unhookExitCrash
  | mprot
  deriving DecidableEq

def shExitFreeInLibrary (exitAddr : Addr) (exit : List (BitVec 32)) (env : ExitEnv) (m : Mem) :
    Mem × Option ExitFreeErrno :=
  if env.crash exitAddr then (m, some .unhookExitCrash)
  else if m.readWords exitAddr exit.length ≠ exit then (m, some .unhookExitMismatch)
  else if !env.mprotect exitAddr then (m, some .mprot)
  else (memClear m exitAddr (4 * exit.length), none)

end Koola
