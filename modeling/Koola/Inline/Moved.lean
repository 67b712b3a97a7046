import Koola.Inline.A64Rewrite

/-!
# The types of instructions and their fields

`sh_a64_get_type` and the macros read the words of instructions as the architecture does.
-/

namespace Koola

open A64

/-! ## The macros -/

theorem shUtilGetBits32_eq (n : BitVec 32) (high low : ℕ) (h : low ≤ high) (hhigh : high < 32) :
    shUtilGetBits32 n high low = (n.extractLsb' low (high - low + 1)).setWidth 32 := by
  apply BitVec.eq_of_getLsbD_eq
  intro i hi
  simp only [shUtilGetBits32, BitVec.getLsbD_ushiftRight, BitVec.getLsbD_shiftLeft,
    BitVec.getLsbD_setWidth, BitVec.getLsbD_extractLsb', hi, decide_true, Bool.true_and]
  by_cases hlt : i < high - low + 1
  · have hbit : 31 - high + low + i - (31 - high) = low + i := by omega
    simp [hlt, hbit]
    omega
  · simp [hlt]
    omega

theorem shUtilGetBit64_eq (n : BitVec 64) {idx : ℕ} (h : idx < 64) :
    shUtilGetBit64 n idx = if n.getLsbD idx then 1 else 0 := by
  apply BitVec.eq_of_getLsbD_eq
  intro i hi
  have hidx : 63 - (63 - idx) = idx := by omega
  cases i with
  | zero => split_ifs <;> simp_all [shUtilGetBit64]
  | succ i =>
    have hout : ¬ 63 + (i + 1) < 64 := by omega
    split_ifs <;> simp [shUtilGetBit64, hout]

/-- The macro `SH_UTIL_SIGN_EXTEND_64` of a value that has `len` bits. -/
theorem shUtilSignExtend64_eq {len : ℕ} (x : BitVec len) (h0 : 0 < len) (h : len ≤ 64) :
    shUtilSignExtend64 (x.setWidth 64) len = x.signExtend 64 := by
  have hmsb : (x.setWidth 64).getLsbD (len - 1) = x.msb := by
    rw [BitVec.getLsbD_setWidth, BitVec.msb_eq_getLsbD_last]
    simp
    omega
  unfold shUtilSignExtend64
  rw [shUtilGetBit64_eq _ (by omega), hmsb]
  apply BitVec.eq_of_getLsbD_eq
  intro i hi
  rw [BitVec.getLsbD_signExtend]
  have hshift : (0xFFFFFFFFFFFFFFFF#64 <<< len).getLsbD i = decide (len ≤ i) := by
    rw [show 0xFFFFFFFFFFFFFFFF#64 = BitVec.allOnes 64 from rfl, BitVec.getLsbD_shiftLeft,
      BitVec.getLsbD_allOnes]
    by_cases hlt : i < len
    · simp [hi, hlt]
    · have hlow : i - len < 64 := by omega
      simp [hi, hlt, hlow, Nat.not_lt.mp hlt]
  cases hx : x.msb with
  | false =>
    have hbit : ¬ i < len → x.getLsbD i = false := fun hlt => BitVec.getLsbD_of_ge x i (by omega)
    by_cases hlt : i < len <;> simp [hi, hlt, hbit]
  | true =>
    rw [if_pos (by decide), BitVec.getLsbD_or, hshift, BitVec.getLsbD_setWidth]
    by_cases hlt : i < len
    · simp [hi, hlt]
    · simp [hi, hlt, Nat.not_lt.mp hlt]

theorem shiftLeft_or_eq_append {n k : ℕ} (x : BitVec n) (y : BitVec k) (h : n + k ≤ 64) :
    x.setWidth 64 <<< k ||| y.setWidth 64 = (x ++ y).setWidth 64 := by
  apply BitVec.eq_of_getLsbD_eq
  intro i hi
  rw [BitVec.getLsbD_or, BitVec.getLsbD_shiftLeft, BitVec.getLsbD_setWidth,
    BitVec.getLsbD_setWidth, BitVec.getLsbD_setWidth, BitVec.getLsbD_append]
  by_cases hlt : i < k
  · simp [hi, hlt]
  · have hlow : i - k < 64 := by omega
    have hbit : y.getLsbD i = false := BitVec.getLsbD_of_ge y i (by omega)
    simp [hi, hlt, hlow, hbit]

theorem shiftLeft_eq_append {n k : ℕ} (x : BitVec n) (h : n + k ≤ 64) :
    x.setWidth 64 <<< k = (x ++ 0#k).setWidth 64 := by
  have hor := shiftLeft_or_eq_append x 0#k h
  rwa [BitVec.setWidth_zero, BitVec.or_zero] at hor

/-! ## The fields -/

section Fields

variable (inst : BitVec 32)

theorem getBits_setWidth {n high low : ℕ} (h : low ≤ high) (hhigh : high < 32)
    (hn : high - low + 1 = n) :
    (shUtilGetBits32 inst high low).setWidth 64 = (inst.extractLsb' low n).setWidth 64 := by
  subst hn
  rw [shUtilGetBits32_eq inst high low h hhigh, BitVec.setWidth_setWidth (by omega)]

theorem imm19_eq :
    shUtilSignExtend64 ((shUtilGetBits32 inst 23 5).setWidth 64 <<< 2) 21 = imm19 inst := by
  rw [getBits_setWidth inst (by decide) (by decide) rfl, shiftLeft_eq_append _ (by decide)]
  exact shUtilSignExtend64_eq _ (by decide) (by decide)

theorem imm26_eq :
    shUtilSignExtend64 ((shUtilGetBits32 inst 25 0).setWidth 64 <<< 2) 28 = imm26 inst := by
  rw [getBits_setWidth inst (by decide) (by decide) rfl, shiftLeft_eq_append _ (by decide)]
  exact shUtilSignExtend64_eq _ (by decide) (by decide)

theorem imm14_eq :
    shUtilSignExtend64 ((shUtilGetBits32 inst 18 5).setWidth 64 <<< 2) 16 = imm14 inst := by
  rw [getBits_setWidth inst (by decide) (by decide) rfl, shiftLeft_eq_append _ (by decide)]
  exact shUtilSignExtend64_eq _ (by decide) (by decide)

theorem immAdr_eq :
    shUtilSignExtend64 ((shUtilGetBits32 inst 23 5).setWidth 64 <<< 2 |||
      (shUtilGetBits32 inst 30 29).setWidth 64) 21 = immAdr inst := by
  rw [getBits_setWidth inst (by decide) (by decide) rfl,
    getBits_setWidth inst (by decide) (by decide) rfl, shiftLeft_or_eq_append _ _ (by decide)]
  exact shUtilSignExtend64_eq _ (by decide) (by decide)

theorem immAdrp_eq :
    shUtilSignExtend64 ((shUtilGetBits32 inst 23 5).setWidth 64 <<< 14 |||
      (shUtilGetBits32 inst 30 29).setWidth 64 <<< 12) 33 = immAdrp inst := by
  rw [getBits_setWidth inst (by decide) (by decide) rfl,
    getBits_setWidth inst (by decide) (by decide) rfl, show 14 = 2 + 12 from rfl,
    BitVec.shiftLeft_add, ← BitVec.shiftLeft_or_distrib, shiftLeft_or_eq_append _ _ (by decide),
    shiftLeft_eq_append _ (by decide)]
  exact shUtilSignExtend64_eq _ (by decide) (by decide)

theorem rt_eq : shUtilGetBits32 inst 4 0 = (rt inst).setWidth 32 :=
  shUtilGetBits32_eq inst 4 0 (by decide) (by decide)

end Fields

/-! ## The types -/

/-- The words that have a type. -/
def ShA64Type.Fits (inst : BitVec 32) : ShA64Type → Prop
  | .ignored => (decode inst).relative = false
  | .b => inst &&& 0xFC000000 = 0x14000000
  | .bCond => inst &&& 0xFF000010 = 0x54000000
  | .bl => inst &&& 0xFC000000 = 0x94000000
  | .adr => inst &&& 0x9F000000 = 0x10000000
  | .adrp => inst &&& 0x9F000000 = 0x90000000
  | .ldrLit32 => inst &&& 0xFF000000 = 0x18000000
  | .ldrLit64 => inst &&& 0xFF000000 = 0x58000000
  | .ldrswLit => inst &&& 0xFF000000 = 0x98000000
  | .prfmLit => inst &&& 0xFF000000 = 0xD8000000
  | .ldrSimdLit32 => inst &&& 0xFF000000 = 0x1C000000
  | .ldrSimdLit64 => inst &&& 0xFF000000 = 0x5C000000
  | .ldrSimdLit128 => inst &&& 0xFF000000 = 0x9C000000
  | .cbz => inst &&& 0x7F000000 = 0x34000000
  | .cbnz => inst &&& 0x7F000000 = 0x35000000
  | .tbz => inst &&& 0x7F000000 = 0x36000000
  | .tbnz => inst &&& 0x7F000000 = 0x37000000

/-- One more bit of a mask. -/
theorem mask_add_bit {inst m v : BitVec 32} (i : ℕ) (h : inst &&& m = v) :
    inst &&& (m ||| BitVec.twoPow 32 i) = v ∨
      inst &&& (m ||| BitVec.twoPow 32 i) = v ||| BitVec.twoPow 32 i := by
  rw [BitVec.and_or_distrib_left, h, BitVec.and_twoPow]
  split
  · exact .inr rfl
  · exact .inl BitVec.or_zero

/-- A word that passes none of the tests of `sh_a64_get_type` is not relative to the program
counter. -/
theorem relative_eq_false {inst : BitVec 32}
    (hb : ¬ inst &&& 0xFC000000 = 0x14000000) (hbCond : ¬ inst &&& 0xFF000010 = 0x54000000)
    (hbl : ¬ inst &&& 0xFC000000 = 0x94000000) (hadr : ¬ inst &&& 0x9F000000 = 0x10000000)
    (hadrp : ¬ inst &&& 0x9F000000 = 0x90000000)
    (h32 : ¬ inst &&& 0xFF000000 = 0x18000000) (h64 : ¬ inst &&& 0xFF000000 = 0x58000000)
    (hsw : ¬ inst &&& 0xFF000000 = 0x98000000) (hprfm : ¬ inst &&& 0xFF000000 = 0xD8000000)
    (hs : ¬ inst &&& 0xFF000000 = 0x1C000000) (hd : ¬ inst &&& 0xFF000000 = 0x5C000000)
    (hq : ¬ inst &&& 0xFF000000 = 0x9C000000) (hcbz : ¬ inst &&& 0x7F000000 = 0x34000000)
    (hcbnz : ¬ inst &&& 0x7F000000 = 0x35000000) (htbz : ¬ inst &&& 0x7F000000 = 0x36000000)
    (htbnz : ¬ inst &&& 0x7F000000 = 0x37000000) :
    (decode inst).relative = false := by
  by_contra hrel
  rcases relative_decode (Bool.not_eq_false _ ▸ hrel) with h | h | h | h | h | h | h | ⟨h, hlit⟩
  · exact hb h
  · exact hbl h
  · exact hbCond h
  · rcases mask_add_bit 24 h with h | h
    · exact hcbz h
    · exact hcbnz h
  · rcases mask_add_bit 24 h with h | h
    · exact htbz h
    · exact htbnz h
  · exact hadr h
  · exact hadrp h
  · rcases mask_add_bit 26 h with h | h <;> rcases mask_add_bit 30 h with h | h <;>
      rcases mask_add_bit 31 h with h | h
    · exact h32 h
    · exact hsw h
    · exact h64 h
    · exact hprfm h
    · exact hs h
    · exact hq h
    · exact hd h
    · exact hlit ((literal_of_mask h).trans (by decide))

theorem ShA64Type.Fits.ite {inst : BitVec 32} {c : Prop} [Decidable c] {t e : ShA64Type}
    (ht : c → t.Fits inst) (he : ¬ c → e.Fits inst) : (if c then t else e).Fits inst := by
  split
  · exact ht ‹_›
  · exact he ‹_›

theorem fits_type (inst : BitVec 32) : (shA64GetType inst).Fits inst :=
  .ite id fun hb => .ite id fun hbCond => .ite id fun hbl => .ite id fun hadr =>
  .ite id fun hadrp => .ite id fun h32 => .ite id fun h64 => .ite id fun hsw =>
  .ite id fun hprfm => .ite id fun hs => .ite id fun hd => .ite id fun hq =>
  .ite id fun hcbz => .ite id fun hcbnz => .ite id fun htbz => .ite id fun htbnz =>
  relative_eq_false hb hbCond hbl hadr hadrp h32 h64 hsw hprfm hs hd hq hcbz hcbnz htbz htbnz

end Koola
