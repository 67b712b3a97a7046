import Koola.Lib.A64

/-!
# `sh_trampo`

Pages of small pieces of executable memory, for the trampolines. The lock is left out: calls come
one after the other.

* `ShTrampoPage`, `ShTrampoMgr`, `shTrampoInitMgr`.
* `AllocEnv`: the clock and the answers of the system; `shTrampoAlloc`, `shTrampoFree`.
-/

namespace Koola

open A64

/-- `memset(a, 0, n)`. -/
def memClear (m : Mem) (a : Addr) (n : ℕ) : Mem := fun b => if (b - a).toNat < n then 0 else m b

/-- `SH_UTIL_ALIGN_END`. -/
def shUtilAlignEnd (x align : ℕ) : ℕ := (x + align - 1) / align * align

structure ShTrampoPage where
  ptr : Addr
  flags : List (BitVec 32)
  timestamps : List ℤ

namespace ShTrampoPage

variable (page : ShTrampoPage) (i : ℕ)

/-- `page->flags[flags_idx] & mask`. -/
def flag : Bool := page.flags.getD (i / 32) 0 &&& (1#32 <<< (i % 32)) ≠ 0

def setFlag : ShTrampoPage :=
  { page with flags := page.flags.modify (i / 32) (· ||| (1#32 <<< (i % 32))) }

def clearFlag : ShTrampoPage :=
  { page with flags := page.flags.modify (i / 32) (· &&& ~~~(1#32 <<< (i % 32))) }

def timestamp : ℤ := page.timestamps.getD i 0

def setTimestamp (now : ℤ) : ShTrampoPage :=
  { page with timestamps := page.timestamps.set i now }

end ShTrampoPage

structure ShTrampoMgr where
  pages : List ShTrampoPage
  trampoSize : ℕ
  delaySec : ℤ

def shTrampoInitMgr (trampoSize : ℕ) (delaySec : ℤ) : ShTrampoMgr :=
  ⟨[], shUtilAlignEnd trampoSize 4, delaySec⟩

/-- The time of a call, and what `mmap` and `calloc` answer. -/
structure AllocEnv where
  now : ℤ
  mmap : Option Addr
  callocPage : Bool
  callocFlags : Bool
  callocTimestamps : Bool

/-- `abort` is the end of the process. -/
inductive AllocResult
  | mem (a : Addr)
  | null
  | abort
  deriving DecidableEq

namespace ShTrampoMgr

variable (mgr : ShTrampoMgr) (trampoPageSize : ℕ) (page : ShTrampoPage) (now : ℤ)
  (hint low high : Addr) (i : ℕ)

def count : ℕ := trampoPageSize / mgr.trampoSize

/-- The memory number `i` of a page. -/
def slot : Addr := page.ptr + BitVec.ofNat 64 (mgr.trampoSize * i)

/-- `check hit range`: `a` is not where it must not be. -/
def hitRange (a : Addr) : Bool := !(hint > 0 && (a < hint - low || hint + high < a))

/-- `check timestamp`. -/
def rested : Bool :=
  !(mgr.delaySec > 0 && (now ≤ page.timestamp i || now - page.timestamp i ≤ mgr.delaySec))

/-- The memory number `i` is unused and may be taken. -/
def canTake : Bool :=
  !page.flag i && mgr.rested page now i && hitRange hint low high (mgr.slot page i)

/-- `SLIST_FOREACH`: the pages after an unused memory was taken, and its address. -/
def findUnused : List ShTrampoPage → Option (List ShTrampoPage × Addr)
  | [] => none
  | page :: rest =>
    let pageTrampoStart := page.ptr
    let pageTrampoEnd :=
      page.ptr + BitVec.ofNat 64 trampoPageSize - BitVec.ofNat 64 mgr.trampoSize
    if hint > 0 ∧ (pageTrampoEnd < hint - low ∨ hint + high < pageTrampoStart) then
      (findUnused rest).map fun (rest, mem) => (page :: rest, mem)
    else
      match (List.range (mgr.count trampoPageSize)).find? (mgr.canTake page now hint low high) with
      | some i => some (page.setFlag i :: rest, mgr.slot page i)
      | none => (findUnused rest).map fun (rest, mem) => (page :: rest, mem)

/-- A new page at `ptr`, with nothing taken. -/
def newPage (ptr : Addr) : ShTrampoPage where
  ptr := ptr
  flags := List.replicate (shUtilAlignEnd (mgr.count trampoPageSize) 32 / 8 / 4) 0
  timestamps := if mgr.delaySec > 0 then List.replicate (mgr.count trampoPageSize) 0 else []

end ShTrampoMgr

/-- `range_low`, not below zero. -/
def clampLow (hint rangeLow : Addr) : Addr := if rangeLow > hint then hint else rangeLow

/-- `range_high`, not above the last address. -/
def clampHigh (hint rangeHigh : Addr) : Addr :=
  if rangeHigh > 0xFFFFFFFFFFFFFFFF - hint then 0xFFFFFFFFFFFFFFFF - hint else rangeHigh

open ShTrampoMgr in
def shTrampoAlloc (mgr : ShTrampoMgr) (trampoPageSize : ℕ) (hint rangeLow rangeHigh : Addr)
    (env : AllocEnv) (m : Mem) : ShTrampoMgr × Mem × AllocResult :=
  let low := clampLow hint rangeLow
  let high := clampHigh hint rangeHigh
  match mgr.findUnused trampoPageSize env.now hint low high mgr.pages with
  | some (pages, mem) =>
    ({ mgr with pages := pages }, memClear m mem mgr.trampoSize, .mem mem)
  | none =>
    match env.mmap with
    | none => (mgr, m, .null)
    | some ptr =>
      let last := ptr + BitVec.ofNat 64 trampoPageSize - BitVec.ofNat 64 mgr.trampoSize
      if hint > 0 ∧ (hint - low ≥ last ∨ hint + high < ptr) then (mgr, m, .null)
      else if !env.callocPage then (mgr, m, .null)
      else
        let m := memClear m ptr trampoPageSize
        if !env.callocFlags || (mgr.delaySec > 0 && !env.callocTimestamps) then (mgr, m, .null)
        else
          let page := mgr.newPage trampoPageSize ptr
          match (List.range (mgr.count trampoPageSize)).find?
              fun i => hitRange hint low high (mgr.slot page i) with
          | some i =>
            ({ mgr with pages := page.setFlag i :: mgr.pages }, m, .mem (mgr.slot page i))
          | none => ({ mgr with pages := page :: mgr.pages }, m, .abort)

/-- `sh_trampo_free`, on the page that has the address. -/
def freeIn (mgr : ShTrampoMgr) (trampoPageSize : ℕ) (mem : Addr) (now : ℤ) :
    List ShTrampoPage → List ShTrampoPage
  | [] => []
  | page :: rest =>
    if page.ptr ≤ mem ∧ mem < page.ptr + BitVec.ofNat 64 trampoPageSize then
      let i := (mem - page.ptr).toNat / mgr.trampoSize
      let page := if mgr.delaySec > 0 then page.setTimestamp i now else page
      page.clearFlag i :: rest
    else page :: freeIn mgr trampoPageSize mem now rest

def shTrampoFree (mgr : ShTrampoMgr) (trampoPageSize : ℕ) (mem : Addr) (now : ℤ) : ShTrampoMgr :=
  { mgr with pages := freeIn mgr trampoPageSize mem now mgr.pages }

end Koola
