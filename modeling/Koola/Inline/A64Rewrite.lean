import Koola.Lib.A64

/-!
# `sh_a64`: moving instructions

`sh_a64_rewrite` turns one instruction at `pc` into a few that do the same elsewhere, and the other
functions make the jumps of a hook. What goes to `buf` is a list of words here, and a rewrite that
fails (size `0`) is `none`.

* `ShA64Type`, `shA64GetType`, `shA64GetRewriteInstLen`.
* `ShA64RewriteInfo`, `shA64FixAddr`: jumps back into the overwritten instructions.
* `shA64RewriteB`, `shA64RewriteAdr`, `shA64RewriteLdr`, `shA64RewriteCb`, `shA64RewriteTb`,
  `shA64Rewrite`.
* `shA64AbsoluteJumpWithBr`, `shA64AbsoluteJumpWithRet`, `shA64RelativeJump`.
-/

namespace Koola

open A64

/-! ## The macros of `sh_util.h` -/

def shUtilGetBits32 (n : BitVec 32) (high low : ℕ) : BitVec 32 :=
  (n <<< (31 - high)) >>> (31 - high + low)

def shUtilGetBit64 (n : BitVec 64) (idx : ℕ) : BitVec 64 := (n <<< (63 - idx)) >>> 63

def shUtilSignExtend64 (n : BitVec 64) (len : ℕ) : BitVec 64 :=
  if shUtilGetBit64 n (len - 1) > 0 then n ||| (0xFFFFFFFFFFFFFFFF#64 <<< len) else n

/-! ## Types of instructions -/

inductive ShA64Type
  | ignored
  | b
  | bCond
  | bl
  | adr
  | adrp
  | ldrLit32
  | ldrLit64
  | ldrswLit
  | prfmLit
  | ldrSimdLit32
  | ldrSimdLit64
  | ldrSimdLit128
  | cbz
  | cbnz
  | tbz
  | tbnz
  deriving DecidableEq

def shA64GetType (inst : BitVec 32) : ShA64Type :=
  if inst &&& 0xFC000000 = 0x14000000 then .b
  else if inst &&& 0xFF000010 = 0x54000000 then .bCond
  else if inst &&& 0xFC000000 = 0x94000000 then .bl
  else if inst &&& 0x9F000000 = 0x10000000 then .adr
  else if inst &&& 0x9F000000 = 0x90000000 then .adrp
  else if inst &&& 0xFF000000 = 0x18000000 then .ldrLit32
  else if inst &&& 0xFF000000 = 0x58000000 then .ldrLit64
  else if inst &&& 0xFF000000 = 0x98000000 then .ldrswLit
  else if inst &&& 0xFF000000 = 0xD8000000 then .prfmLit
  else if inst &&& 0xFF000000 = 0x1C000000 then .ldrSimdLit32
  else if inst &&& 0xFF000000 = 0x5C000000 then .ldrSimdLit64
  else if inst &&& 0xFF000000 = 0x9C000000 then .ldrSimdLit128
  else if inst &&& 0x7F000000 = 0x34000000 then .cbz
  else if inst &&& 0x7F000000 = 0x35000000 then .cbnz
  else if inst &&& 0x7F000000 = 0x36000000 then .tbz
  else if inst &&& 0x7F000000 = 0x37000000 then .tbnz
  else .ignored

/-- The table `map` of `sh_a64_get_rewrite_inst_len`. -/
def ShA64Type.rewriteLen : ShA64Type → ℕ
  | .ignored => 4
  | .b => 20
  | .bCond => 28
  | .bl => 20
  | .adr => 16
  | .adrp => 16
  | .ldrLit32 => 20
  | .ldrLit64 => 20
  | .ldrswLit => 20
  | .prfmLit => 28
  | .ldrSimdLit32 => 28
  | .ldrSimdLit64 => 28
  | .ldrSimdLit128 => 28
  | .cbz => 24
  | .cbnz => 24
  | .tbz => 24
  | .tbnz => 24

def shA64GetRewriteInstLen (inst : BitVec 32) : ℕ := (shA64GetType inst).rewriteLen

/-! ## Addresses in the overwritten instructions -/

/-- `sh_a64_rewrite_info_t`: the overwritten instructions, where they are moved to, and the sizes
of the moved ones. -/
structure ShA64RewriteInfo where
  startAddr : Addr
  endAddr : Addr
  buf : Addr
  instLens : List ℕ

variable (rinfo : ShA64RewriteInfo)

def shA64IsAddrNeedFix (addr : Addr) : Bool := rinfo.startAddr ≤ addr && addr < rinfo.endAddr

/-- The loop of `sh_a64_fix_addr`: the offset of the instruction that is moved from `addr`. -/
def fixOffset (addr : Addr) : List ℕ → Addr → ℕ → ℕ
  | [], _, offset => offset
  | len :: lens, cursor, offset =>
    if cursor ≥ addr then offset else fixOffset addr lens (cursor + 4) (offset + len)

def shA64FixAddr (addr : Addr) : Addr :=
  if rinfo.startAddr ≤ addr ∧ addr < rinfo.endAddr then
    rinfo.buf + BitVec.ofNat 64 (fixOffset addr rinfo.instLens rinfo.startAddr 0)
  else addr

/-! ## Rewriting -/

/-- The two words of an address in `buf`. -/
def addrWords (addr : Addr) : List (BitVec 32) :=
  [(addr &&& 0xFFFFFFFF).setWidth 32, (addr >>> 32).setWidth 32]

variable (inst : BitVec 32) (pc : Addr) (type : ShA64Type)

def shA64RewriteB : Option (List (BitVec 32)) :=
  let imm64 :=
    if type = .bCond then
      shUtilSignExtend64 ((shUtilGetBits32 inst 23 5).setWidth 64 <<< 2) 21
    else shUtilSignExtend64 ((shUtilGetBits32 inst 25 0).setWidth 64 <<< 2) 28
  let addr := shA64FixAddr rinfo (pc + imm64)
  some
    ((if type = .bCond then
        [(inst &&& 0xFF00001F) ||| 0x40, -- B.<cond> #8
          0x14000006] -- B #24
      else []) ++
    [0x58000051, -- LDR X17, #8
      0x14000003] -- B #12
    ++ addrWords addr ++
    [if type = .bl then 0xD63F0220 -- BLR X17
      else 0xD61F0220]) -- BR X17

def shA64RewriteAdr : Option (List (BitVec 32)) :=
  let xd := shUtilGetBits32 inst 4 0
  let immlo := (shUtilGetBits32 inst 30 29).setWidth 64
  let immhi := (shUtilGetBits32 inst 23 5).setWidth 64
  let addr :=
    if type = .adr then pc + shUtilSignExtend64 ((immhi <<< 2) ||| immlo) 21
    else (pc &&& 0xFFFFFFFFFFFFF000#64) + shUtilSignExtend64 ((immhi <<< 14) ||| (immlo <<< 12)) 33
  if shA64IsAddrNeedFix rinfo addr then none
  else
    some
      ([0x58000040 ||| xd, -- LDR Xd, #8
        0x14000003] -- B #12
      ++ addrWords addr)

def shA64RewriteLdr : Option (List (BitVec 32)) :=
  let rt := shUtilGetBits32 inst 4 0
  let offset := shUtilSignExtend64 ((shUtilGetBits32 inst 23 5).setWidth 64 <<< 2) 21
  let addr := pc + offset
  if shA64IsAddrNeedFix rinfo addr ∧ type ≠ .prfmLit then none
  else
    let addr := if shA64IsAddrNeedFix rinfo addr then shA64FixAddr rinfo addr else addr
    if type = .ldrLit32 ∨ type = .ldrLit64 ∨ type = .ldrswLit then
      some
        ([0x58000060 ||| rt, -- LDR Xt, #12
          if type = .ldrLit32 then 0xB9400000#32 ||| rt ||| (rt <<< 5) -- LDR Wt, [Xt]
          else if type = .ldrLit64 then 0xF9400000#32 ||| rt ||| (rt <<< 5) -- LDR Xt, [Xt]
          else 0xB9800000#32 ||| rt ||| (rt <<< 5), -- LDRSW Xt, [Xt]
          0x14000003] -- B #12
        ++ addrWords addr)
    else
      some
        ([0xA93F47F0, -- STP X16, X17, [SP, -0x10]
          0x58000091, -- LDR X17, #16
          if type = .prfmLit then 0xF9800220 ||| rt -- PRFM Rt, [X17]
          else if type = .ldrSimdLit32 then 0xBD400220 ||| rt -- LDR St, [X17]
          else if type = .ldrSimdLit64 then 0xFD400220 ||| rt -- LDR Dt, [X17]
          else 0x3DC00220 ||| rt, -- LDR Qt, [X17]
          0xF85F83F1, -- LDR X17, [SP, -0x8]
          0x14000003] -- B #12
        ++ addrWords addr)

def shA64RewriteCb : Option (List (BitVec 32)) :=
  let offset := shUtilSignExtend64 ((shUtilGetBits32 inst 23 5).setWidth 64 <<< 2) 21
  let addr := shA64FixAddr rinfo (pc + offset)
  some
    ([(inst &&& 0xFF00001F) ||| 0x40, -- CB(N)Z Rt, #8
      0x14000005, -- B #20
      0x58000051, -- LDR X17, #8
      0xD61F0220] -- BR X17
    ++ addrWords addr)

def shA64RewriteTb : Option (List (BitVec 32)) :=
  let offset := shUtilSignExtend64 ((shUtilGetBits32 inst 18 5).setWidth 64 <<< 2) 16
  let addr := shA64FixAddr rinfo (pc + offset)
  some
    ([(inst &&& 0xFFF8001F) ||| 0x40, -- TB(N)Z Rt, #<imm>, #8
      0x14000005, -- B #20
      0x58000051, -- LDR X17, #8
      0xD61F0220] -- BR X17
    ++ addrWords addr)

def shA64Rewrite : Option (List (BitVec 32)) :=
  let type := shA64GetType inst
  match type with
  | .b | .bCond | .bl => shA64RewriteB rinfo inst pc type
  | .adr | .adrp => shA64RewriteAdr rinfo inst pc type
  | .ldrLit32 | .ldrLit64 | .ldrswLit | .prfmLit | .ldrSimdLit32 | .ldrSimdLit64
  | .ldrSimdLit128 => shA64RewriteLdr rinfo inst pc type
  | .cbz | .cbnz => shA64RewriteCb rinfo inst pc
  | .tbz | .tbnz => shA64RewriteTb rinfo inst pc
  | .ignored => some [inst]

/-! ## Jumps -/

def shA64AbsoluteJumpWithBr (addr : Addr) : List (BitVec 32) :=
  [0x58000051, -- LDR X17, #8
    0xD61F0220] -- BR X17
  ++ addrWords addr

/-- With `RET` instead of `BR`, which is not a jump that branch target identification looks at. -/
def shA64AbsoluteJumpWithRet (addr : Addr) : List (BitVec 32) :=
  [0x58000051, -- LDR X17, #8
    0xD65F0220] -- RET X17
  ++ addrWords addr

def shA64RelativeJump (addr pc : Addr) : List (BitVec 32) :=
  [0x14000000#32 ||| (((addr - pc) &&& 0x0FFFFFFF) >>> 2).setWidth 32] -- B <label>

end Koola
