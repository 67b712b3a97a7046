import Mathlib.Data.BitVec
import Mathlib.Logic.Function.Iterate

/-!
# A part of AArch64

The instructions that know where they stand, and the few others that code is moved with: jumps
through a register, loads, a store of a pair. What every other instruction does is a parameter.

* `Mem`, `Mem.read32`, `Mem.write`: bytes, little-endian words.
* `Cpu`, `Flow`, `Instr`, `decode`, `exec`: the registers, where control goes, the instructions.
* `Machine`, `step`, `run`; `Holds`: code in the memory.
* `Others.Movable`: an instruction outside this part does the same everywhere.
  **`exec_other_place`**: so does one of this part that is not relative to the program counter.
* `Agree`: two states that differ in a few registers and in some memory only.
-/

namespace A64

/-! ## Memory -/

abbrev Addr := BitVec 64
abbrev Mem := Addr → BitVec 8

theorem add_ofNat (a : Addr) (n i : ℕ) :
    a + BitVec.ofNat 64 n + BitVec.ofNat 64 i = a + BitVec.ofNat 64 (n + i) := by
  rw [BitVec.ofNat_add, add_assoc]

theorem toNat_add_ofNat {a : Addr} {n : ℕ} (h : a.toNat + n < 2 ^ 64) :
    (a + BitVec.ofNat 64 n).toNat = a.toNat + n := by
  have hn : n < 2 ^ 64 := by omega
  rw [BitVec.toNat_add, BitVec.toNat_ofNat, Nat.mod_eq_of_lt hn, Nat.mod_eq_of_lt h]

namespace Mem

variable (m : Mem) (a : Addr)

def read32 : BitVec 32 := m (a + 3) ++ m (a + 2) ++ m (a + 1) ++ m a

def read64 : BitVec 64 := m.read32 (a + 4) ++ m.read32 a

def read128 : BitVec 128 := m.read64 (a + 8) ++ m.read64 a

/-- The bytes of `v` from `a` on. -/
def write {w : ℕ} (v : BitVec w) : Mem := fun b =>
  if 8 * (b - a).toNat < w then v.extractLsb' (8 * (b - a).toNat) 8 else m b

variable {m a} {w : ℕ} {v : BitVec w} {b : Addr}

theorem write_apart (h : w ≤ 8 * (b - a).toNat) : m.write a v b = m b :=
  if_neg (Nat.not_lt.mpr h)

theorem write_at (n : ℕ) (hn : 8 * n < w) (hw : w ≤ 2 ^ 64) :
    m.write a v (a + BitVec.ofNat 64 n) = v.extractLsb' (8 * n) 8 := by
  have hoff : (a + BitVec.ofNat 64 n - a).toNat = n := by
    rw [add_sub_cancel_left, BitVec.toNat_ofNat, Nat.mod_eq_of_lt (by omega)]
  rw [write, hoff, if_pos hn]

/-- The low bytes of a word, put together again. -/
theorem bytes32 (v : BitVec 32) :
    v.extractLsb' 24 8 ++ v.extractLsb' 16 8 ++ v.extractLsb' 8 8 ++ v.extractLsb' 0 8 = v := by
  rw [BitVec.extractLsb'_append_extractLsb'_eq_extractLsb' (show 24 = 16 + 8 from rfl),
    BitVec.extractLsb'_append_extractLsb'_eq_extractLsb' (show 16 = 8 + 8 from rfl),
    BitVec.extractLsb'_append_extractLsb'_eq_extractLsb' (show 8 = 0 + 8 from rfl)]
  exact BitVec.extractLsb'_eq_self

theorem bytes64 (v : BitVec 64) : v.extractLsb' 32 32 ++ v.extractLsb' 0 32 = v :=
  BitVec.extractLsb'_append_extractLsb'

theorem read32_of_bytes {v : BitVec 32}
    (h : ∀ i < 4, m (a + BitVec.ofNat 64 i) = v.extractLsb' (8 * i) 8) : m.read32 a = v := by
  have h0 := h 0 (by decide)
  rw [show a + BitVec.ofNat 64 0 = a from add_zero a] at h0
  have h1 : m (a + 1) = v.extractLsb' 8 8 := h 1 (by decide)
  have h2 : m (a + 2) = v.extractLsb' 16 8 := h 2 (by decide)
  have h3 : m (a + 3) = v.extractLsb' 24 8 := h 3 (by decide)
  unfold read32
  rw [h0, h1, h2, h3]
  exact bytes32 v

theorem read32_write32 (v : BitVec 32) : (m.write a v).read32 a = v :=
  read32_of_bytes fun i hi => write_at i (by omega) (by decide)

theorem read64_write64 (v : BitVec 64) : (m.write a v).read64 a = v := by
  have hlo : (m.write a v).read32 a = v.extractLsb' 0 32 := by
    refine read32_of_bytes fun i hi => ?_
    rw [write_at i (by omega) (by decide)]
    ext k hk
    simp
    omega
  have hhi : (m.write a v).read32 (a + 4) = v.extractLsb' 32 32 := by
    refine read32_of_bytes fun i hi => ?_
    rw [show a + 4 = a + BitVec.ofNat 64 4 from rfl, add_ofNat,
      write_at (4 + i) (by omega) (by decide)]
    ext k hk
    have hbit : 8 * (4 + i) + k = 32 + (8 * i + k) := by omega
    simp [hbit]
    omega
  unfold read64
  rw [hlo, hhi]
  exact bytes64 v

theorem read32_congr {m' : Mem} (h : ∀ i < 4, m' (a + BitVec.ofNat 64 i) = m (a + BitVec.ofNat 64 i)) :
    m'.read32 a = m.read32 a := by
  have h0 := h 0 (by decide)
  rw [show a + BitVec.ofNat 64 0 = a from add_zero a] at h0
  have h1 : m' (a + 1) = m (a + 1) := h 1 (by decide)
  have h2 : m' (a + 2) = m (a + 2) := h 2 (by decide)
  have h3 : m' (a + 3) = m (a + 3) := h 3 (by decide)
  unfold read32
  rw [h0, h1, h2, h3]

theorem read64_congr {m' : Mem}
    (h : ∀ i < 8, m' (a + BitVec.ofNat 64 i) = m (a + BitVec.ofNat 64 i)) :
    m'.read64 a = m.read64 a := by
  have hlo : m'.read32 a = m.read32 a := read32_congr fun i hi => h i (by omega)
  have hhi : m'.read32 (a + 4) = m.read32 (a + 4) := by
    refine read32_congr fun i hi => ?_
    rw [show a + 4 = a + BitVec.ofNat 64 4 from rfl, add_ofNat]
    exact h (4 + i) (by omega)
  unfold read64
  rw [hlo, hhi]

end Mem

/-! ## Registers -/

/-- The general registers, `x31` being the stack pointer, the vector registers, the flags and the
memory. -/
structure Cpu where
  x : BitVec 5 → BitVec 64
  v : BitVec 5 → BitVec 128
  nzcv : BitVec 4
  mem : Mem

namespace Cpu

variable (c : Cpu) (r : BitVec 5)

/-- The register `r` as a value; number 31 reads as zero. -/
def reg : BitVec 64 := if r = 31 then 0 else c.x r

/-- A write to the register `r`; a write to number 31 is lost. -/
def setReg (v : BitVec 64) : Cpu := if r = 31 then c else { c with x := Function.update c.x r v }

def setVec (v : BitVec 128) : Cpu := { c with v := Function.update c.v r v }

def setMem (m : Mem) : Cpu := { c with mem := m }

variable {c r} {v v' : BitVec 64}

@[simp]
theorem setReg_mem : (c.setReg r v).mem = c.mem := by
  rw [setReg]
  split <;> rfl

theorem setReg_31 : c.setReg 31 v = c := if_pos rfl

theorem setReg_x (h : r ≠ 31) : (c.setReg r v).x r = v := by
  rw [setReg, if_neg h]
  exact Function.update_self r v c.x

theorem setReg_other {s : BitVec 5} (h : s ≠ r) : (c.setReg r v).x s = c.x s := by
  rw [setReg]
  split
  · rfl
  · exact Function.update_of_ne h v c.x

theorem setReg_reg (h : r ≠ 31) : (c.setReg r v).reg r = v := by
  rw [reg, if_neg h, setReg_x h]

theorem setReg_setReg : (c.setReg r v).setReg r v' = c.setReg r v' := by
  by_cases h : r = 31
  · rw [setReg, if_pos h, setReg, if_pos h, setReg, if_pos h]
  · simp only [setReg, if_neg h, Function.update_idem]

end Cpu

/-! ## Instructions -/

/-- What is loaded from an address. `sw` is a signed word, `prfm` a hint that loads nothing, and
`s`, `d` and `q` go to the vector registers. -/
inductive Access
  | w | x | sw | prfm | s | d | q
  deriving DecidableEq

/-- The number of bytes that are read. -/
def Access.bytes : Access → ℕ
  | .w | .sw | .s => 4
  | .x | .d => 8
  | .prfm => 0
  | .q => 16

/-- What is loaded goes to a general register. -/
def Access.general : Access → Bool
  | .w | .x | .sw => true
  | .prfm | .s | .d | .q => false

inductive Instr
  | b (off : BitVec 64)
  | bl (off : BitVec 64)
  | bCond (cond : BitVec 4) (off : BitVec 64)
  /-- `CBZ`, and `CBNZ` if `nz`; on the whole register if `sf`. -/
  | cb (nz sf : Bool) (rt : BitVec 5) (off : BitVec 64)
  | tb (nz : Bool) (bit : BitVec 6) (rt : BitVec 5) (off : BitVec 64)
  | adr (rd : BitVec 5) (off : BitVec 64)
  | adrp (rd : BitVec 5) (off : BitVec 64)
  | ldrLit (k : Access) (rt : BitVec 5) (off : BitVec 64)
  | br (rn : BitVec 5)
  | blr (rn : BitVec 5)
  | ret (rn : BitVec 5)
  | ldr (k : Access) (rt rn : BitVec 5) (off : BitVec 64)
  | ldur (rt rn : BitVec 5) (off : BitVec 64)
  | stp (rt rt2 rn : BitVec 5) (off : BitVec 64)
  | other (inst : BitVec 32)
  deriving DecidableEq

/-- The instructions that know where they stand. -/
def Instr.relative : Instr → Bool
  | .b _ | .bl _ | .bCond _ _ | .cb _ _ _ _ | .tb _ _ _ _ | .adr _ _ | .adrp _ _
  | .ldrLit _ _ _ => true
  | _ => false

section Fields

variable (inst : BitVec 32)

def rt : BitVec 5 := inst.extractLsb' 0 5
def rn : BitVec 5 := inst.extractLsb' 5 5
def rt2 : BitVec 5 := inst.extractLsb' 10 5
def imm26 : BitVec 64 := (inst.extractLsb' 0 26 ++ 0#2).signExtend 64
def imm19 : BitVec 64 := (inst.extractLsb' 5 19 ++ 0#2).signExtend 64
def imm14 : BitVec 64 := (inst.extractLsb' 5 14 ++ 0#2).signExtend 64
def immAdr : BitVec 64 := (inst.extractLsb' 5 19 ++ inst.extractLsb' 29 2).signExtend 64
def immAdrp : BitVec 64 :=
  (inst.extractLsb' 5 19 ++ inst.extractLsb' 29 2 ++ 0#12).signExtend 64
def imm12 (scale : ℕ) : BitVec 64 := (inst.extractLsb' 10 12).setWidth 64 <<< scale
def imm9 : BitVec 64 := (inst.extractLsb' 12 9).signExtend 64
def imm7 : BitVec 64 := (inst.extractLsb' 15 7 ++ 0#3).signExtend 64

/-- The kind of a load from a literal, from the bits `opc` and `V`. -/
def literal : Option Access :=
  match (inst.extractLsb' 30 2).toNat, inst.getLsbD 26 with
  | 0, false => some .w
  | 1, false => some .x
  | 2, false => some .sw
  | 3, false => some .prfm
  | 0, true => some .s
  | 1, true => some .d
  | 2, true => some .q
  | _, _ => none

/-- The kind of a load from a register and an unsigned offset, and the scale of the offset. -/
def indexed : Option (Access × ℕ) :=
  match (inst.extractLsb' 22 10).toNat with
  | 0x2E5 => some (.w, 2)
  | 0x3E5 => some (.x, 3)
  | 0x2E6 => some (.sw, 2)
  | 0x3E6 => some (.prfm, 3)
  | 0x2F5 => some (.s, 2)
  | 0x3F5 => some (.d, 3)
  | 0x0F7 => some (.q, 4)
  | _ => none

end Fields

def decode (inst : BitVec 32) : Instr :=
  if inst &&& 0xFC000000 = 0x14000000 then .b (imm26 inst)
  else if inst &&& 0xFC000000 = 0x94000000 then .bl (imm26 inst)
  else if inst &&& 0xFF000010 = 0x54000000 then .bCond (inst.extractLsb' 0 4) (imm19 inst)
  else if inst &&& 0x7E000000 = 0x34000000 then
    .cb (inst.getLsbD 24) (inst.getLsbD 31) (rt inst) (imm19 inst)
  else if inst &&& 0x7E000000 = 0x36000000 then
    .tb (inst.getLsbD 24) (inst.extractLsb' 31 1 ++ inst.extractLsb' 19 5) (rt inst) (imm14 inst)
  else if inst &&& 0x9F000000 = 0x10000000 then .adr (rt inst) (immAdr inst)
  else if inst &&& 0x9F000000 = 0x90000000 then .adrp (rt inst) (immAdrp inst)
  else if inst &&& 0x3B000000 = 0x18000000 then
    match literal inst with
    | some k => .ldrLit k (rt inst) (imm19 inst)
    | none => .other inst
  else if inst &&& 0xFFFFFC1F = 0xD61F0000 then .br (rn inst)
  else if inst &&& 0xFFFFFC1F = 0xD63F0000 then .blr (rn inst)
  else if inst &&& 0xFFFFFC1F = 0xD65F0000 then .ret (rn inst)
  else if inst &&& 0xFFE00C00 = 0xF8400000 then .ldur (rt inst) (rn inst) (imm9 inst)
  else if inst &&& 0xFFC00000 = 0xA9000000 then .stp (rt inst) (rt2 inst) (rn inst) (imm7 inst)
  else
    match indexed inst with
    | some (k, scale) => .ldr k (rt inst) (rn inst) (imm12 inst scale)
    | none => .other inst

section Decode

variable {w m v m' v' : BitVec 32}

theorem masks_agree (h : w &&& m = v) (h' : w &&& m' = v') : v &&& m' = v' &&& m := by
  rw [← h, ← h', BitVec.and_assoc, BitVec.and_assoc, BitVec.and_comm m m']

/-- Two tests that no word passes. -/
theorem masks_conflict (hne : v &&& m' ≠ v' &&& m) (h : w &&& m = v) : ¬ w &&& m' = v' :=
  fun h' => hne (masks_agree h h')

/-- What a mask fixes, a part of the mask fixes. -/
theorem mask_sub (h : w &&& m = v) (hm : m &&& m' = m') : w &&& m' = v &&& m' := by
  rw [← h, BitVec.and_assoc, hm]

theorem field_of_mask {s n : ℕ} (h : w &&& m = v) (hm : m.extractLsb' s n = BitVec.allOnes n) :
    w.extractLsb' s n = v.extractLsb' s n := by
  rw [← h, BitVec.extractLsb'_and, hm, BitVec.and_allOnes]

theorem bit_of_mask {i : ℕ} (h : w &&& m = v) (hm : m.getLsbD i = true) :
    w.getLsbD i = v.getLsbD i := by
  rw [← h, BitVec.getLsbD_and, hm, Bool.and_true]

theorem literal_of_mask (h : w &&& 0xFF000000 = v) : literal w = literal v := by
  rw [literal, literal, field_of_mask h (by decide), bit_of_mask h (by decide)]

theorem decode_b (h : w &&& 0xFC000000 = 0x14000000) : decode w = .b (imm26 w) := if_pos h

theorem decode_bl (h : w &&& 0xFC000000 = 0x94000000) : decode w = .bl (imm26 w) := by
  rw [decode, if_neg (masks_conflict (by decide) h), if_pos h]

theorem decode_bCond (h : w &&& 0xFF000010 = 0x54000000) :
    decode w = .bCond (w.extractLsb' 0 4) (imm19 w) := by
  rw [decode, if_neg (masks_conflict (by decide) h), if_neg (masks_conflict (by decide) h),
    if_pos h]

theorem decode_cb (h : w &&& 0x7E000000 = 0x34000000) :
    decode w = .cb (w.getLsbD 24) (w.getLsbD 31) (rt w) (imm19 w) := by
  rw [decode, if_neg (masks_conflict (by decide) h), if_neg (masks_conflict (by decide) h),
    if_neg (masks_conflict (by decide) h), if_pos h]

theorem decode_tb (h : w &&& 0x7E000000 = 0x36000000) :
    decode w = .tb (w.getLsbD 24) (w.extractLsb' 31 1 ++ w.extractLsb' 19 5) (rt w) (imm14 w) := by
  rw [decode, if_neg (masks_conflict (by decide) h), if_neg (masks_conflict (by decide) h),
    if_neg (masks_conflict (by decide) h), if_neg (masks_conflict (by decide) h), if_pos h]

theorem decode_adr (h : w &&& 0x9F000000 = 0x10000000) : decode w = .adr (rt w) (immAdr w) := by
  rw [decode, if_neg (masks_conflict (by decide) h), if_neg (masks_conflict (by decide) h),
    if_neg (masks_conflict (by decide) h), if_neg (masks_conflict (by decide) h),
    if_neg (masks_conflict (by decide) h), if_pos h]

theorem decode_adrp (h : w &&& 0x9F000000 = 0x90000000) :
    decode w = .adrp (rt w) (immAdrp w) := by
  rw [decode, if_neg (masks_conflict (by decide) h), if_neg (masks_conflict (by decide) h),
    if_neg (masks_conflict (by decide) h), if_neg (masks_conflict (by decide) h),
    if_neg (masks_conflict (by decide) h), if_neg (masks_conflict (by decide) h), if_pos h]

theorem decode_ldrLit {k : Access} (h : w &&& 0x3B000000 = 0x18000000)
    (hk : literal w = some k) : decode w = .ldrLit k (rt w) (imm19 w) := by
  rw [decode, if_neg (masks_conflict (by decide) h), if_neg (masks_conflict (by decide) h),
    if_neg (masks_conflict (by decide) h), if_neg (masks_conflict (by decide) h),
    if_neg (masks_conflict (by decide) h), if_neg (masks_conflict (by decide) h),
    if_neg (masks_conflict (by decide) h), if_pos h, hk]

/-- The words of the instructions that know where they stand. -/
theorem relative_decode (h : (decode w).relative = true) :
    w &&& 0xFC000000 = 0x14000000 ∨ w &&& 0xFC000000 = 0x94000000 ∨
      w &&& 0xFF000010 = 0x54000000 ∨ w &&& 0x7E000000 = 0x34000000 ∨
      w &&& 0x7E000000 = 0x36000000 ∨ w &&& 0x9F000000 = 0x10000000 ∨
      w &&& 0x9F000000 = 0x90000000 ∨ (w &&& 0x3B000000 = 0x18000000 ∧ literal w ≠ none) := by
  by_contra hno
  simp only [not_or, not_and, not_not] at hno
  obtain ⟨h1, h2, h3, h4, h5, h6, h7, h8⟩ := hno
  rw [decode, if_neg h1, if_neg h2, if_neg h3, if_neg h4, if_neg h5, if_neg h6, if_neg h7] at h
  by_cases hlit : w &&& 0x3B000000 = 0x18000000
  · rw [if_pos hlit, h8 hlit] at h
    cases h
  · rw [if_neg hlit] at h
    iterate 5
      split at h
      · cases h
    split at h
    · cases h
    · cases h

end Decode

/-! ## Execution -/

/-- Whether a condition holds of the flags `NZCV`. -/
def condHolds (cond nzcv : BitVec 4) : Bool :=
  let n := nzcv.getLsbD 3
  let z := nzcv.getLsbD 2
  let c := nzcv.getLsbD 1
  let v := nzcv.getLsbD 0
  let holds : Bool :=
    match (cond.extractLsb' 1 3).toNat with
    | 0 => z
    | 1 => c
    | 2 => n
    | 3 => v
    | 4 => c && !z
    | 5 => n == v
    | 6 => n == v && !z
    | _ => true
  if cond.getLsbD 0 && cond != 15 then !holds else holds

/-- Where control goes after an instruction. A call leaves the address of the next instruction in
`x30`. -/
inductive Flow
  | next
  | jump (a : Addr)
  | call (a : Addr)

def Cpu.load (c : Cpu) (k : Access) (rt : BitVec 5) (a : Addr) : Cpu :=
  match k with
  | .w => c.setReg rt ((c.mem.read32 a).setWidth 64)
  | .x => c.setReg rt (c.mem.read64 a)
  | .sw => c.setReg rt ((c.mem.read32 a).signExtend 64)
  | .prfm => c
  | .s => c.setVec rt ((c.mem.read32 a).setWidth 128)
  | .d => c.setVec rt ((c.mem.read64 a).setWidth 128)
  | .q => c.setVec rt (c.mem.read128 a)

section Load

variable {c : Cpu} {k : Access} {r : BitVec 5} {a : Addr} {v : BitVec 64}

@[simp]
theorem Cpu.load_mem : (c.load k r a).mem = c.mem := by
  cases k with
  | w | x | sw => exact setReg_mem
  | prfm | s | d | q => rfl

/-- A general register that held the address before. -/
theorem Cpu.load_general (hk : k.general = true) :
    (c.setReg r a).load k r ((c.setReg r a).x r) = c.load k r a := by
  by_cases hr : r = 31
  · subst hr
    cases k with
    | w | x | sw => simp only [load, setReg_31]
    | prfm | s | d | q => cases hk
  · rw [setReg_x hr]
    cases k with
    | w | x | sw => simp only [load, setReg_setReg, setReg_mem]
    | prfm | s | d | q => cases hk

theorem Cpu.load_x (hk : k.general = false) : (c.load k r a).x = c.x := by
  cases k with
  | w | x | sw => cases hk
  | prfm | s | d | q => rfl

theorem Cpu.load_setReg (hk : k.general = false) (s : BitVec 5) :
    (c.setReg s v).load k r a = (c.load k r a).setReg s v := by
  by_cases hs : s = 31
  · simp only [setReg, if_pos hs]
  · cases k with
    | w | x | sw => cases hk
    | prfm | s | d | q => simp only [load, setReg, if_neg hs, setVec]

end Load

/-- The instructions that this part of the architecture does not describe. -/
abbrev Others := BitVec 32 → Addr → Cpu → Cpu × Flow

/-- If this part of the architecture does not describe the instruction, it does the same wherever
it stands. -/
def Others.Movable (other : Others) (i : Instr) : Prop :=
  ∀ inst, i = .other inst → ∀ pc pc' c, other inst pc c = other inst pc' c

/-- An instruction that stands at `pc`. -/
def exec (other : Others) (i : Instr) (pc : Addr) (c : Cpu) : Cpu × Flow :=
  match i with
  | .b off => (c, .jump (pc + off))
  | .bl off => (c, .call (pc + off))
  | .bCond cond off => (c, if condHolds cond c.nzcv then .jump (pc + off) else .next)
  | .cb nz sf rt off =>
    let value := if sf then c.reg rt else c.reg rt &&& 0xFFFFFFFF
    (c, if (value == 0) != nz then .jump (pc + off) else .next)
  | .tb nz bit rt off =>
    (c, if (c.reg rt).getLsbD bit.toNat == nz then .jump (pc + off) else .next)
  | .adr rd off => (c.setReg rd (pc + off), .next)
  | .adrp rd off => (c.setReg rd ((pc &&& 0xFFFFFFFFFFFFF000#64) + off), .next)
  | .ldrLit k rt off => (c.load k rt (pc + off), .next)
  | .br rn | .ret rn => (c, .jump (c.reg rn))
  | .blr rn => (c, .call (c.reg rn))
  | .ldr k rt rn off => (c.load k rt (c.x rn + off), .next)
  | .ldur rt rn off => (c.load .x rt (c.x rn + off), .next)
  | .stp rt rt2 rn off =>
    (c.setMem ((c.mem.write (c.x rn + off) (c.reg rt)).write (c.x rn + off + 8) (c.reg rt2)), .next)
  | .other inst => other inst pc c

structure Machine where
  cpu : Cpu
  pc : Addr

/-- The machine after an instruction at `pc`. -/
def Flow.land (f : Flow) (c : Cpu) (pc : Addr) : Machine :=
  match f with
  | .next => ⟨c, pc + 4⟩
  | .jump a => ⟨c, a⟩
  | .call a => ⟨c.setReg 30 (pc + 4), a⟩

def Flow.map (g : Addr → Addr) : Flow → Flow
  | .next => .next
  | .jump a => .jump (g a)
  | .call a => .call (g a)

def step (other : Others) (M : Machine) : Machine :=
  let r := exec other (decode (M.cpu.mem.read32 M.pc)) M.pc M.cpu
  r.2.land r.1 M.pc

def run (other : Others) (n : ℕ) : Machine → Machine := (step other)^[n]

section Run

variable {other : Others} {M M' : Machine} {c : Cpu} {f : Flow} {inst : BitVec 32} {i : Instr}
  {pc a : Addr} {m n : ℕ}

theorem run_zero : run other 0 M = M := rfl

theorem run_succ : run other (n + 1) M = run other n (step other M) := rfl

theorem run_add : run other (m + n) M = run other n (run other m M) := by
  rw [add_comm]
  exact Function.iterate_add_apply (step other) n m M

theorem step_of_read (hread : c.mem.read32 pc = inst) (hdecode : decode inst = i) :
    step other ⟨c, pc⟩ = (exec other i pc c).2.land (exec other i pc c).1 pc := by
  simp only [step, hread, hdecode]

/-- **The other instructions do the same everywhere.** -/
theorem exec_other_place (h : i.relative = false) (hmov : other.Movable i) (pc pc' : Addr) :
    exec other i pc c = exec other i pc' c := by
  cases i with
  | b | bl | bCond | cb | tb | adr | adrp | ldrLit => cases h
  | br | blr | ret | ldr | ldur | stp => rfl
  | other inst => exact hmov inst rfl pc pc' c

theorem aligned_signExtend {n : ℕ} (x : BitVec n) : ((x ++ 0#2).signExtend 64).toNat % 4 = 0 := by
  have hlow : ((x ++ 0#2).signExtend 64).setWidth 2 = 0#2 := by
    apply BitVec.eq_of_getLsbD_eq
    intro i hi
    have hwidth : i < n + 2 := by omega
    have h64 : i < 64 := by omega
    rw [BitVec.getLsbD_setWidth, BitVec.getLsbD_signExtend, BitVec.getLsbD_append, if_pos hwidth,
      if_pos hi]
    simp
  rw [← BitVec.toNat_setWidth 2, hlow]
  rfl

theorem aligned_of_jump {f : Flow} {off : BitVec 64} (hoff : off.toNat % 4 = 0)
    (hf : f = .jump (pc + off) ∨ f = .call (pc + off) ∨ f = .next) (h : f = .jump a ∨ f = .call a) :
    (a - pc).toNat % 4 = 0 := by
  rcases hf with rfl | rfl | rfl <;> rcases h with h | h <;> cases h
  all_goals rwa [add_sub_cancel_left]

theorem flow_cond {f : Flow} {t : Bool} (hf : f = if t then .jump a else .next) :
    f = .jump a ∨ f = .call a ∨ f = .next := by
  cases t with
  | true => exact .inl hf
  | false => exact .inr (.inr hf)

/-- Branches go to words. -/
theorem branch_aligned (hrel : (decode inst).relative = true)
    (hflow : (exec other (decode inst) pc c).2 = .jump a ∨
      (exec other (decode inst) pc c).2 = .call a) : (a - pc).toNat % 4 = 0 := by
  rcases relative_decode hrel with h | h | h | h | h | h | h | ⟨h, hlit⟩
  · rw [decode_b h] at hflow
    exact aligned_of_jump (aligned_signExtend _) (.inl rfl) hflow
  · rw [decode_bl h] at hflow
    exact aligned_of_jump (aligned_signExtend _) (.inr (.inl rfl)) hflow
  · rw [decode_bCond h] at hflow
    exact aligned_of_jump (aligned_signExtend _) (flow_cond rfl) hflow
  · rw [decode_cb h] at hflow
    exact aligned_of_jump (aligned_signExtend _) (flow_cond rfl) hflow
  · rw [decode_tb h] at hflow
    exact aligned_of_jump (aligned_signExtend _) (flow_cond rfl) hflow
  · rw [decode_adr h] at hflow
    rcases hflow with hflow | hflow <;> cases hflow
  · rw [decode_adrp h] at hflow
    rcases hflow with hflow | hflow <;> cases hflow
  · obtain ⟨k, hk⟩ := Option.ne_none_iff_exists'.mp hlit
    rw [decode_ldrLit h hk] at hflow
    rcases hflow with hflow | hflow <;> cases hflow

end Run

/-! ## Code in memory -/

/-- The code in memory from `a` on. -/
def Holds (m : Mem) : Addr → List (BitVec 32) → Prop
  | _, [] => True
  | a, inst :: rest => m.read32 a = inst ∧ Holds m (a + 4) rest

/-- The address of the word number `n` from `a` on. -/
def place (a : Addr) (n : ℕ) : Addr := a + BitVec.ofNat 64 (4 * n)

section Holds

variable {m m' : Mem} {a : Addr} {ws ws' : List (BitVec 32)} {w : BitVec 32}

theorem place_zero : place a 0 = a := add_zero a

theorem place_add (n k : ℕ) : place (place a n) k = place a (n + k) := by
  rw [place, place, place, add_ofNat, mul_add]

theorem place_succ (n : ℕ) : place a n + 4 = place a (n + 1) := place_add n 1

theorem holds_append : Holds m a (ws ++ ws') ↔ Holds m a ws ∧ Holds m (place a ws.length) ws' := by
  induction ws generalizing a with
  | nil => simp [Holds, place_zero]
  | cons w ws ih =>
    have hplace : place (a + 4) ws.length = place a (ws.length + 1) := by
      rw [show a + 4 = place a 1 from rfl, place_add, add_comm]
    simp only [List.cons_append, Holds, List.length_cons, ih, hplace, and_assoc]

theorem Holds.read {n : ℕ} (h : Holds m a ws) (hn : ws[n]? = some w) :
    m.read32 (place a n) = w := by
  induction ws generalizing a n with
  | nil => cases hn
  | cons w' ws ih =>
    cases n with
    | zero =>
      rw [place_zero]
      cases hn
      exact h.1
    | succ n =>
      have hread := ih h.2 hn
      rwa [show a + 4 = place a 1 from rfl, place_add, add_comm 1] at hread

theorem Holds.setReg {c : Cpu} {r : BitVec 5} {v : BitVec 64} (h : Holds c.mem a ws) :
    Holds (c.setReg r v).mem a ws := by
  rwa [Cpu.setReg_mem]

theorem Holds.load {c : Cpu} {k : Access} {r : BitVec 5} {b : Addr} (h : Holds c.mem a ws) :
    Holds (c.load k r b).mem a ws := by
  rwa [Cpu.load_mem]

/-- The bytes of `n` words from `a` on. -/
def bytesAt (a : Addr) (n : ℕ) : Set Addr := {b | ∃ i < 4 * n, b = a + BitVec.ofNat 64 i}

theorem mem_bytesAt_of_lt {n k : ℕ} {b : Addr} (h : b ∈ bytesAt a n) (hle : n ≤ k) :
    b ∈ bytesAt a k := by
  obtain ⟨i, hi, rfl⟩ := h
  exact ⟨i, by omega, rfl⟩

theorem mem_bytesAt_of_place {n k : ℕ} {b : Addr} (h : b ∈ bytesAt (place a k) n) :
    b ∈ bytesAt a (k + n) := by
  obtain ⟨i, hi, rfl⟩ := h
  exact ⟨4 * k + i, by omega, add_ofNat a (4 * k) i⟩

theorem not_mem_bytesAt {b : Addr} {n : ℕ} (h : b ∉ bytesAt a n) : 4 * n ≤ (b - a).toNat := by
  by_contra hlt
  refine h ⟨(b - a).toNat, by omega, ?_⟩
  rw [BitVec.ofNat_toNat, BitVec.setWidth_eq, add_sub_cancel]

/-- A pair of registers that is stored. -/
theorem write_pair_apart {b : Addr} {v v' : BitVec 64} (h : b ∉ bytesAt a 4) :
    ((m.write a v).write (a + 8) v') b = m b := by
  have hlo : 16 ≤ (b - a).toNat := not_mem_bytesAt h
  have hhi : 8 ≤ (b - (a + 8)).toNat := by
    refine not_mem_bytesAt (n := 2) ?_
    rintro ⟨i, hi, rfl⟩
    exact h ⟨8 + i, by omega, add_ofNat a 8 i⟩
  rw [Mem.write_apart (by omega), Mem.write_apart (by omega)]

theorem Holds.congr (h : Holds m a ws) (heq : ∀ b ∈ bytesAt a ws.length, m' b = m b) :
    Holds m' a ws := by
  induction ws generalizing a with
  | nil => trivial
  | cons w ws ih =>
    refine ⟨?_, ih h.2 ?_⟩
    · rw [← h.1]
      exact Mem.read32_congr fun i hi => heq _ ⟨i, by rw [List.length_cons]; omega, rfl⟩
    · rintro b ⟨i, hi, rfl⟩
      refine heq _ ⟨4 + i, by rw [List.length_cons]; omega, ?_⟩
      exact add_ofNat a 4 i

end Holds

/-! ## States that differ in a few places -/

/-- **The two states differ in the registers `R` and in the memory `D` only.** -/
structure Agree (R : Set (BitVec 5)) (D : Set Addr) (c c' : Cpu) : Prop where
  x : ∀ r, r ∉ R → c'.x r = c.x r
  v : c'.v = c.v
  nzcv : c'.nzcv = c.nzcv
  mem : ∀ a, a ∉ D → c'.mem a = c.mem a

namespace Agree

variable {R R' : Set (BitVec 5)} {D D' : Set Addr} {c c' c₁ c₂ : Cpu} {r : BitVec 5}

theorem refl (c : Cpu) : Agree R D c c := ⟨fun _ _ => rfl, rfl, rfl, fun _ _ => rfl⟩

theorem trans (h₁ : Agree R D c c₁) (h₂ : Agree R D c₁ c₂) : Agree R D c c₂ where
  x r hr := (h₂.x r hr).trans (h₁.x r hr)
  v := h₂.v.trans h₁.v
  nzcv := h₂.nzcv.trans h₁.nzcv
  mem a ha := (h₂.mem a ha).trans (h₁.mem a ha)

theorem mono (h : Agree R D c c') (hR : R ⊆ R') (hD : D ⊆ D') : Agree R' D' c c' where
  x r hr := h.x r fun hin => hr (hR hin)
  v := h.v
  nzcv := h.nzcv
  mem a ha := h.mem a fun hin => ha (hD hin)

theorem setReg (c : Cpu) (hr : r ∈ R) (v : BitVec 64) : Agree R D c (c.setReg r v) := by
  rw [Cpu.setReg]
  split
  · exact refl c
  · refine ⟨fun r' hr' => ?_, rfl, rfl, fun _ _ => rfl⟩
    have hne : r' ≠ r := by
      rintro rfl
      exact hr' hr
    exact Function.update_of_ne hne v c.x

theorem symm (h : Agree R D c c') : Agree R D c' c where
  x r hr := (h.x r hr).symm
  v := h.v.symm
  nzcv := h.nzcv.symm
  mem a ha := (h.mem a ha).symm

/-- A register that may differ. -/
theorem setReg_both (h : Agree R D c c') (hr : r ∈ R) (v v' : BitVec 64) :
    Agree R D (c.setReg r v) (c'.setReg r v') :=
  ((setReg c hr v).symm.trans h).trans (setReg c' hr v')

/-- A register that gets its value back. -/
theorem restore (h : Agree R D c c') {v : BitVec 64} (hv : v = c.x r) :
    Agree R D c (c'.setReg r v) := by
  rw [Cpu.setReg]
  split
  · exact h
  · refine ⟨fun r' hr' => ?_, h.v, h.nzcv, h.mem⟩
    by_cases heq : r' = r
    · subst heq
      exact (Function.update_self r' v c'.x).trans hv
    · exact (Function.update_of_ne heq v c'.x).trans (h.x r' hr')

theorem setMem {m : Mem} (h : ∀ a, a ∉ D → m a = c.mem a) : Agree R D c (c.setMem m) :=
  ⟨fun _ _ => rfl, rfl, rfl, h⟩

/-- A load to a vector register, from bytes that are the same. -/
theorem load (h : Agree R D c c') {k : Access} (hk : k.general = false) {a : Addr}
    (hbytes : ∀ i < k.bytes, a + BitVec.ofNat 64 i ∉ D) :
    Agree R D (c.load k r a) (c'.load k r a) := by
  cases k with
  | w | x | sw => cases hk
  | prfm => exact h
  | s =>
    have hread : c'.mem.read32 a = c.mem.read32 a :=
      Mem.read32_congr fun i hi => h.mem _ (hbytes i hi)
    exact ⟨h.x, by simp only [Cpu.load, Cpu.setVec, h.v, hread], h.nzcv, h.mem⟩
  | d =>
    have hread : c'.mem.read64 a = c.mem.read64 a :=
      Mem.read64_congr fun i hi => h.mem _ (hbytes i hi)
    exact ⟨h.x, by simp only [Cpu.load, Cpu.setVec, h.v, hread], h.nzcv, h.mem⟩
  | q =>
    have hlo : c'.mem.read64 a = c.mem.read64 a :=
      Mem.read64_congr fun i hi => h.mem _ (hbytes i (Nat.lt_of_lt_of_le hi (by decide)))
    have hhi : c'.mem.read64 (a + 8) = c.mem.read64 (a + 8) := by
      refine Mem.read64_congr fun i hi => h.mem _ ?_
      rw [show a + 8 = a + BitVec.ofNat 64 8 from rfl, add_ofNat]
      exact hbytes (8 + i) (Nat.add_lt_add_left hi 8)
    have hread : c'.mem.read128 a = c.mem.read128 a := by rw [Mem.read128, hlo, hhi, Mem.read128]
    exact ⟨h.x, by simp only [Cpu.load, Cpu.setVec, h.v, hread], h.nzcv, h.mem⟩

end Agree

/-! ## Words in memory -/

namespace Mem

def writeWords (m : Mem) (a : Addr) : List (BitVec 32) → Mem
  | [] => m
  | w :: ws => writeWords (m.write a w) (a + 4) ws

def readWords (m : Mem) (a : Addr) : ℕ → List (BitVec 32)
  | 0 => []
  | n + 1 => m.read32 a :: readWords m (a + 4) n

variable {m m' : Mem} {a b : Addr} {ws ws' : List (BitVec 32)} {n : ℕ}

@[simp]
theorem length_readWords : (m.readWords a n).length = n := by
  induction n generalizing a with
  | zero => rfl
  | succ n ih => rw [readWords, List.length_cons, ih]

theorem readWords_congr (h : ∀ b ∈ bytesAt a n, m' b = m b) :
    m'.readWords a n = m.readWords a n := by
  induction n generalizing a with
  | zero => rfl
  | succ n ih =>
    rw [readWords, readWords, ih, read32_congr fun i hi => h _ ⟨i, by omega, rfl⟩]
    rintro b ⟨i, hi, rfl⟩
    exact h _ ⟨4 + i, by omega, add_ofNat a 4 i⟩

theorem holds_iff_readWords : Holds m a ws ↔ m.readWords a ws.length = ws := by
  induction ws generalizing a with
  | nil => exact ⟨fun _ => rfl, fun _ => trivial⟩
  | cons w ws ih => rw [Holds, ih, List.length_cons, readWords, List.cons.injEq]

theorem writeWords_append :
    m.writeWords a (ws ++ ws') = (m.writeWords a ws).writeWords (place a ws.length) ws' := by
  induction ws generalizing m a with
  | nil => rw [List.nil_append, List.length_nil, place_zero, writeWords]
  | cons w ws ih =>
    rw [List.cons_append, writeWords, ih, writeWords, List.length_cons,
      show a + 4 = place a 1 from rfl, place_add, add_comm 1]

theorem writeWords_apart (h : b ∉ bytesAt a ws.length) : m.writeWords a ws b = m b := by
  induction ws generalizing m a with
  | nil => rfl
  | cons w ws ih =>
    have hw : b ∉ bytesAt a 1 := fun ⟨i, hi, hb⟩ => h ⟨i, by rw [List.length_cons]; omega, hb⟩
    have hws : b ∉ bytesAt (a + 4) ws.length := by
      rintro ⟨i, hi, rfl⟩
      exact h ⟨4 + i, by rw [List.length_cons]; omega, add_ofNat a 4 i⟩
    rw [writeWords, ih hws, write_apart]
    have hle := not_mem_bytesAt hw
    omega

theorem holds_writeWords (h : 4 * ws.length ≤ 2 ^ 64) : Holds (m.writeWords a ws) a ws := by
  induction ws generalizing m a with
  | nil => trivial
  | cons w ws ih =>
    rw [List.length_cons] at h
    refine ⟨?_, ih (by omega)⟩
    rw [writeWords]
    refine (read32_congr fun i hi => writeWords_apart ?_).trans (read32_write32 w)
    rintro ⟨j, hj, heq⟩
    rw [show a + 4 = a + BitVec.ofNat 64 4 from rfl, add_ofNat] at heq
    have hnat := congrArg BitVec.toNat (add_left_cancel heq)
    rw [BitVec.toNat_ofNat, BitVec.toNat_ofNat, Nat.mod_eq_of_lt (by omega),
      Nat.mod_eq_of_lt (by omega)] at hnat
    omega

/-- A byte of a word. -/
theorem byte_read32 {i : ℕ} (hi : i < 4) :
    (m.read32 a).extractLsb' (8 * i) 8 = m (a + BitVec.ofNat 64 i) := by
  have h0 : a + BitVec.ofNat 64 0 = a := add_zero a
  have hi' : i = 0 ∨ i = 1 ∨ i = 2 ∨ i = 3 := by omega
  apply BitVec.eq_of_getLsbD_eq
  intro k hk
  rw [read32, BitVec.getLsbD_extractLsb', BitVec.getLsbD_append, BitVec.getLsbD_append,
    BitVec.getLsbD_append]
  rcases hi' with rfl | rfl | rfl | rfl
  · simp [hk, h0]
  · have h1 : ¬ 8 + k < 8 := by omega
    simp [hk, h1]
  · have h2 : ¬ 16 + k < 8 := by omega
    have h2' : ¬ 16 + k - 8 < 8 := by omega
    have hk' : 16 + k - 8 - 8 = k := by omega
    simp [hk, h2, h2', hk']
  · have h3 : ¬ 24 + k < 8 := by omega
    have h3' : ¬ 24 + k - 8 < 8 := by omega
    have h3'' : ¬ 24 + k - 8 - 8 < 8 := by omega
    have hk' : 24 + k - 8 - 8 - 8 = k := by omega
    simp [hk, h3, h3', h3'', hk']

theorem byte_of_read32 (h : m'.read32 a = m.read32 a) {i : ℕ} (hi : i < 4) :
    m' (a + BitVec.ofNat 64 i) = m (a + BitVec.ofNat 64 i) := by
  have hbyte := byte_read32 (m := m') (a := a) hi
  rw [h, byte_read32 hi] at hbyte
  exact hbyte.symm

theorem bytes_of_readWords (h : m'.readWords a n = m.readWords a n) :
    ∀ b ∈ bytesAt a n, m' b = m b := by
  induction n generalizing a with
  | zero =>
    rintro b ⟨i, hi, -⟩
    omega
  | succ n ih =>
    rw [readWords, readWords, List.cons.injEq] at h
    rintro b ⟨i, hi, rfl⟩
    by_cases hlt : i < 4
    · exact byte_of_read32 h.1 hlt
    · refine ih h.2 _ ⟨i - 4, by omega, ?_⟩
      rw [show a + 4 = a + BitVec.ofNat 64 4 from rfl, add_ofNat, Nat.add_sub_cancel' (by omega)]

end Mem

end A64
