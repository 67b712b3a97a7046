import Koola.Inline.Places

/-!
# The jumps of a hook

* `decode_relativeJump`: `sh_a64_relative_jump` is a branch to the exit, if that is in reach.
* `run_absoluteJump`, `run_relativeJump`: the detour is reached, and only `x17` is lost.
-/

namespace Koola.Inline

open A64

variable {target x newAddr : Addr} {d : BitVec 64} {other : Others} {c : Cpu}

section Relative

/-- The distance of a branch as the instruction keeps it. -/
theorem signExtend_distance (hlow : d.toNat % 4 = 0)
    (hrange : d.toNat < 2 ^ 27 ∨ 2 ^ 64 - 2 ^ 27 ≤ d.toNat) :
    (d.extractLsb' 2 26 ++ 0#2).signExtend 64 = d := by
  have hbits : d.extractLsb' 2 26 ++ 0#2 = d.setWidth 28 := by
    have h0 : d.getLsbD 0 = false := by
      rw [← BitVec.testBit_toNat, Nat.testBit_zero, decide_eq_false_iff_not]
      omega
    have h1 : d.getLsbD 1 = false := by
      rw [← BitVec.testBit_toNat, Nat.testBit_succ, Nat.testBit_zero, decide_eq_false_iff_not]
      omega
    apply BitVec.eq_of_getLsbD_eq
    intro i hi
    rw [BitVec.getLsbD_append, BitVec.getLsbD_setWidth, BitVec.getLsbD_extractLsb']
    by_cases hlt : i < 2
    · have hi' : i = 0 ∨ i = 1 := by omega
      rw [if_pos hlt, BitVec.getLsbD_zero]
      rcases hi' with rfl | rfl
      · rw [h0, Bool.and_false]
      · rw [h1, Bool.and_false]
    · have hi' : i - 2 < 26 := by omega
      have hsub : 2 + (i - 2) = i := by omega
      simp [hlt, hi, hi', hsub]
  rw [hbits]
  apply BitVec.eq_of_toInt_eq
  rw [BitVec.toInt_signExtend_of_le (by decide), BitVec.toInt_setWidth,
    BitVec.toInt_eq_toNat_bmod d]
  have hd := d.isLt
  rw [Int.bmod_def, Int.bmod_def]
  omega

theorem distance_bounds (hx : InReach target x) (ht : 4 ∣ target.toNat) :
    (x - target).toNat % 4 = 0 ∧
      ((x - target).toNat < 2 ^ 27 ∨ 2 ^ 64 - 2 ^ 27 ≤ (x - target).toNat) := by
  obtain ⟨hdvd, hlow, hhigh⟩ := hx
  have hxlt := x.isLt
  have htlt := target.isLt
  rw [BitVec.toNat_sub]
  omega

theorem getLsbD_relativeJump {i : ℕ} :
    ((d &&& 0x0FFFFFFF#64) >>> 2).getLsbD i = (decide (i < 26) && d.getLsbD (2 + i)) := by
  have hmask : (0x0FFFFFFF#64) = (BitVec.allOnes 28).setWidth 64 := by decide
  rw [BitVec.getLsbD_ushiftRight, BitVec.getLsbD_and, hmask, BitVec.getLsbD_setWidth,
    BitVec.getLsbD_allOnes]
  by_cases hlt : i < 26
  · have h28 : 2 + i < 28 := by omega
    have h64 : 2 + i < 64 := by omega
    simp [hlt, h28, h64]
  · have h28 : ¬ 2 + i < 28 := by omega
    simp [hlt, h28]

/-- **The branch goes to the exit.** -/
theorem decode_relativeJump (hx : InReach target x) (ht : 4 ∣ target.toNat) :
    ∃ w, shA64RelativeJump x target = [w] ∧ decode w = .b (x - target) := by
  refine ⟨_, rfl, ?_⟩
  obtain ⟨hlow, hrange⟩ := distance_bounds hx ht
  generalize x - target = d at hlow hrange
  have hop : ((0x14000000#32 ||| ((d &&& 0x0FFFFFFF#64) >>> 2).setWidth 32) &&& 0xFC000000#32) =
      0x14000000#32 := by
    apply BitVec.eq_of_getLsbD_eq
    intro i hi
    rw [BitVec.getLsbD_and, BitVec.getLsbD_or, BitVec.getLsbD_setWidth, getLsbD_relativeJump]
    by_cases hlt : i < 26
    · have hmask : ∀ i < 26, (0xFC000000#32).getLsbD i = false := by decide
      have hcode : ∀ i < 26, (0x14000000#32).getLsbD i = false := by decide
      rw [hmask i hlt, Bool.and_false]
      exact (hcode i hlt).symm
    · have hmask : ∀ i < 32, ¬ i < 26 → (0xFC000000#32).getLsbD i = true := by decide
      rw [hmask i hi hlt, decide_eq_false hlt, Bool.false_and, Bool.and_false, Bool.or_false,
        Bool.and_true]
  have himm : imm26 (0x14000000#32 ||| ((d &&& 0x0FFFFFFF#64) >>> 2).setWidth 32) = d := by
    have hfield : (0x14000000#32 ||| ((d &&& 0x0FFFFFFF#64) >>> 2).setWidth 32).extractLsb' 0 26 =
        d.extractLsb' 2 26 := by
      apply BitVec.eq_of_getLsbD_eq
      intro i hi
      have hcode : ∀ i < 26, (0x14000000#32).getLsbD i = false := by decide
      have hi' : i < 32 := by omega
      rw [BitVec.getLsbD_extractLsb', BitVec.getLsbD_extractLsb', zero_add, BitVec.getLsbD_or,
        BitVec.getLsbD_setWidth, getLsbD_relativeJump, hcode i hi]
      simp [hi, hi']
    rw [imm26, hfield]
    exact signExtend_distance hlow hrange
  exact (decode_b hop).trans (congrArg Instr.b himm)

end Relative

/-! ## Runs -/

/-- **The absolute jump**, at the target or at the exit. -/
theorem run_absoluteJump (hcode : Holds c.mem x (shA64AbsoluteJumpWithBr newAddr)) :
    A64.run other 2 ⟨c, x⟩ = ⟨c.setReg 17 newAddr, newAddr⟩ := by
  have hrun : A64.run other 2 ⟨c, place x 0⟩ = ⟨c.setReg 17 newAddr, newAddr⟩ :=
    run_ldr_br hcode rfl rfl rfl rfl
  rwa [place_zero] at hrun

/-- **The jump over an exit.** -/
theorem run_relativeJump (hx : InReach target x) (ht : 4 ∣ target.toNat)
    (hcode : Holds c.mem target (shA64RelativeJump x target))
    (hexit : Holds c.mem x (shA64AbsoluteJumpWithBr newAddr)) :
    A64.run other 3 ⟨c, target⟩ = ⟨c.setReg 17 newAddr, newAddr⟩ := by
  obtain ⟨w, hw, hdecode⟩ := decode_relativeJump hx ht
  rw [hw] at hcode
  have hstep : step other ⟨c, place target 0⟩ = _ := step_at hcode rfl hdecode
  rw [place_zero] at hstep
  have hland : step other ⟨c, target⟩ = ⟨c, x⟩ := by
    rw [hstep]
    change (⟨c, target + (x - target)⟩ : Machine) = ⟨c, x⟩
    rw [add_sub_cancel]
  rw [run_succ, hland, run_absoluteJump hexit]

end Koola.Inline
