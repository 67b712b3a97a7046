import Koola.Alloc.Exit
import Koola.Alloc.TrampoMem

/-!
# The gaps of a library, and the exits in them

* `toNat_alignStart`, `toNat_alignEnd`: rounding to a power of two.
* `ShExitGap.Good`, `ShExitGap.bytes`; `ShExitGap.Marked`: the zeros of the gap are not filled in
  again.
* `Free`, `GapPlace`, `tryAlloc_found`: the place that is found in one gap.
* `InGaps`, `allocInGaps_inGaps`: what a call does to the memory.
-/

namespace Koola

open A64

/-! ## Rounding -/

section Align

variable {x : Addr} {k : ℕ}

theorem and_not_mask :
    x &&& ~~~(BitVec.ofNat 64 (2 ^ k) - 1) = (x >>> k) <<< k := by
  have hmask : BitVec.ofNat 64 (2 ^ k) - 1 = BitVec.ofNat 64 (2 ^ k - 1) := by
    have hpos : 0 < 2 ^ k := Nat.two_pow_pos k
    rw [sub_eq_iff_eq_add, show (1 : Addr) = BitVec.ofNat 64 1 from rfl, ← BitVec.ofNat_add,
      Nat.sub_add_cancel hpos]
  apply BitVec.eq_of_getLsbD_eq
  intro i hi
  rw [hmask, BitVec.getLsbD_and, BitVec.getLsbD_not, BitVec.getLsbD_ofNat,
    Nat.testBit_two_pow_sub_one, BitVec.getLsbD_shiftLeft, BitVec.getLsbD_ushiftRight]
  by_cases hlt : i < k
  · simp [hi, hlt]
  · simp [hi, hlt, Nat.add_sub_cancel' (Nat.not_lt.mp hlt)]

theorem toNat_and_not_mask :
    (x &&& ~~~(BitVec.ofNat 64 (2 ^ k) - 1)).toNat = x.toNat / 2 ^ k * 2 ^ k := by
  have hx := x.isLt
  have hle : x.toNat / 2 ^ k * 2 ^ k ≤ x.toNat := Nat.div_mul_le_self _ _
  rw [and_not_mask, BitVec.toNat_shiftLeft, BitVec.toNat_ushiftRight, Nat.shiftRight_eq_div_pow,
    Nat.shiftLeft_eq, Nat.mod_eq_of_lt (by omega)]

theorem toNat_alignStart :
    (alignStart x (BitVec.ofNat 64 (2 ^ k))).toNat = x.toNat / 2 ^ k * 2 ^ k :=
  toNat_and_not_mask

theorem toNat_add_sub_one {n : ℕ} (hn : 0 < n) (h : x.toNat + n ≤ 2 ^ 64) (hn' : n < 2 ^ 64) :
    (x + BitVec.ofNat 64 n - 1).toNat = x.toNat + (n - 1) := by
  have hsub : x + BitVec.ofNat 64 n - 1 = x + BitVec.ofNat 64 (n - 1) := by
    rw [sub_eq_iff_eq_add, show (1 : Addr) = BitVec.ofNat 64 1 from rfl, add_assoc,
      ← BitVec.ofNat_add, Nat.sub_add_cancel hn]
  rw [hsub, toNat_add_ofNat (by omega)]

theorem toNat_alignEnd (hk : k < 64) (h : x.toNat + 2 ^ k ≤ 2 ^ 64) :
    (alignEnd x (BitVec.ofNat 64 (2 ^ k))).toNat = (x.toNat + (2 ^ k - 1)) / 2 ^ k * 2 ^ k := by
  have hpow : 2 ^ k < 2 ^ 64 := Nat.pow_lt_pow_right (by decide) hk
  rw [alignEnd, toNat_and_not_mask, toNat_add_sub_one (Nat.two_pow_pos k) h hpow]

end Align

/-! ## Gaps -/

namespace ShExitGap

/-- A gap that is not empty, and that starts and ends with a whole piece of memory. -/
structure Good (gap : ShExitGap) : Prop where
  start_dvd : 16 ∣ gap.start.toNat
  end_dvd : 16 ∣ gap.endAddr.toNat
  lt : gap.start.toNat < gap.endAddr.toNat

def bytes (gap : ShExitGap) : Set Addr := {b | gap.start ≤ b ∧ b < gap.endAddr}

/-- The gap is not filled with zeros again. -/
def Marked (gap : ShExitGap) (m : Mem) : Prop :=
  gap.needFillZero = true → m.read64 gap.start = clearFlagWord

end ShExitGap

open ShExitGap

variable {gap gap' : ShExitGap} {env : ExitEnv} {m m' : Mem} {a b pc rangeLow rangeHigh : Addr}
  {exit : List (BitVec 32)} {n : ℕ}

theorem mem_bytes_iff :
    b ∈ gap.bytes ↔ gap.start.toNat ≤ b.toNat ∧ b.toNat < gap.endAddr.toNat := by
  rw [bytes, Set.mem_ofPred_eq, BitVec.le_def, BitVec.lt_def]

/-- The 16 bytes at `a` are zero. -/
def Free (m : Mem) (a : Addr) : Prop := m.read64 a = 0 ∧ m.read64 (a + 8) = 0

theorem add_eight_mem {i : ℕ} (hi : i < 8) : a + 8 + BitVec.ofNat 64 i ∈ bytesAt a 4 :=
  ⟨8 + i, by omega, add_ofNat a 8 i⟩

theorem free_congr (h : ∀ b ∈ bytesAt a 4, m' b = m b) : Free m' a ↔ Free m a := by
  have hlo : m'.read64 a = m.read64 a := Mem.read64_congr fun i hi => h _ ⟨i, by omega, rfl⟩
  have hhi : m'.read64 (a + 8) = m.read64 (a + 8) :=
    Mem.read64_congr fun i hi => h _ (add_eight_mem hi)
  rw [Free, Free, hlo, hhi]

/-! ## One gap -/

section Gap

theorem isZero_free (ha : a.toNat + 16 < 2 ^ 64)
    (h : shExitIsZero env m (a + BitVec.ofNat 64 16) 2 a = some true) : Free m a := by
  have hend : (a + BitVec.ofNat 64 16).toNat = a.toNat + 16 := toNat_add_ofNat ha
  have h8 : (a + 8).toNat = a.toNat + 8 := toNat_add_ofNat (n := 8) (by omega)
  have hlt : a < a + BitVec.ofNat 64 16 := by
    rw [BitVec.lt_def, hend]
    omega
  have hlt8 : a + 8 < a + BitVec.ofNat 64 16 := by
    rw [BitVec.lt_def, hend, h8]
    omega
  simp only [shExitIsZero, if_pos hlt, if_pos hlt8] at h
  split at h
  · cases h
  split at h
  · cases h
  rename_i hlo
  split at h
  · cases h
  split at h
  · cases h
  rename_i hhi
  exact ⟨not_not.mp hlo, not_not.mp hhi⟩

theorem scanGap_found {cur : Addr} (h : scanGap env m 16 n cur = .found a) :
    ∃ i < n, a = cur + BitVec.ofNat 64 (16 * i) ∧
      shExitIsZero env m (a + BitVec.ofNat 64 16) 2 a = some true := by
  induction n generalizing cur with
  | zero => cases h
  | succ n ih =>
    rw [scanGap] at h
    split at h
    · cases h
    · obtain ⟨i, hi, rfl, hzero⟩ := ih h
      refine ⟨i + 1, by omega, ?_, hzero⟩
      rw [add_ofNat, mul_add, mul_one, add_comm 16]
    · rename_i hzero
      split at h
      · cases h
        exact ⟨0, by omega, (add_zero a).symm, hzero⟩
      · cases h

/-- The lower end of the places that are tried, before it is rounded. -/
theorem lowerEnd_bounds (hgood : gap.Good) (hhigh : pc.toNat + rangeHigh.toNat < 2 ^ 64)
    (hhigh' : 16 ≤ rangeHigh.toNat) {start : Addr} (h : start = if pc ≥ rangeLow then
      if gap.start > pc - rangeLow then gap.start else pc - rangeLow else gap.start) :
    gap.start.toNat ≤ start.toNat ∧ pc.toNat - rangeLow.toNat ≤ start.toNat ∧
      start.toNat + 16 ≤ 2 ^ 64 := by
  obtain ⟨hstart, hend, hlt⟩ := hgood
  have hgap := gap.endAddr.isLt
  subst h
  split
  · rename_i hge
    rw [ge_iff_le, BitVec.le_def] at hge
    have hdiff := BitVec.toNat_sub_of_le (BitVec.le_def.mpr hge)
    split
    · rename_i hgt
      rw [gt_iff_lt, BitVec.lt_def] at hgt
      omega
    · rename_i hgt
      rw [gt_iff_lt, BitVec.lt_def] at hgt
      omega
  · rename_i hge
    rw [ge_iff_le, BitVec.le_def] at hge
    omega

/-- The upper end. -/
theorem upperEnd_bounds (hgood : gap.Good) (hhigh : pc.toNat + rangeHigh.toNat < 2 ^ 64)
    {endAddr : Addr} (h : endAddr = if gap.endAddr - BitVec.ofNat 64 16 < pc + rangeHigh then
      gap.endAddr - BitVec.ofNat 64 16 else pc + rangeHigh) :
    endAddr.toNat + 16 ≤ gap.endAddr.toNat ∧ endAddr.toNat ≤ pc.toNat + rangeHigh.toNat := by
  obtain ⟨hstart, hend, hlt⟩ := hgood
  have hlen : (BitVec.ofNat 64 16).toNat = 16 := rfl
  have hsub : (gap.endAddr - BitVec.ofNat 64 16).toNat = gap.endAddr.toNat - 16 := by
    rw [BitVec.toNat_sub_of_le (by rw [BitVec.le_def, hlen]; omega), hlen]
  have hadd : (pc + rangeHigh).toNat = pc.toNat + rangeHigh.toNat := by
    rw [BitVec.toNat_add, Nat.mod_eq_of_lt hhigh]
  subst h
  split
  · rename_i hlt'
    rw [BitVec.lt_def] at hlt'
    omega
  · rename_i hlt'
    rw [BitVec.lt_def] at hlt'
    omega

/-- **The places that are tried** are in the gap and in the range. -/
theorem gapRange_bounds (hgood : gap.Good) (hhigh : pc.toNat + rangeHigh.toNat < 2 ^ 64)
    (hhigh' : 16 ≤ rangeHigh.toNat) {start endAddr : Addr}
    (h : gapRange pc 16 rangeLow rangeHigh gap = (start, endAddr)) :
    16 ∣ start.toNat ∧ gap.start.toNat ≤ start.toNat ∧ pc.toNat - rangeLow.toNat ≤ start.toNat ∧
      endAddr.toNat + 16 ≤ gap.endAddr.toNat ∧ endAddr.toNat ≤ pc.toNat + rangeHigh.toNat := by
  have hpc := pc.isLt
  have hmax : (0xFFFFFFFFFFFFFFFF - pc).toNat = 2 ^ 64 - 1 - pc.toNat :=
    BitVec.toNat_sub_of_le (BitVec.le_def.mpr (Nat.le_pred_of_lt hpc))
  have hle : rangeHigh ≤ 0xFFFFFFFFFFFFFFFF - pc := by
    rw [BitVec.le_def, hmax]
    omega
  simp only [gapRange, if_pos hle, Prod.mk.injEq] at h
  obtain ⟨rfl, rfl⟩ := h
  obtain ⟨hs, hs', hs''⟩ := lowerEnd_bounds hgood hhigh hhigh' rfl
  obtain ⟨he, he'⟩ := upperEnd_bounds hgood hhigh rfl
  have halign : ∀ e : Addr, (alignStart e (BitVec.ofNat 64 16)).toNat = e.toNat / 16 * 16 :=
    fun e => toNat_alignStart (k := 4)
  have halign' : ∀ s : Addr, s.toNat + 16 ≤ 2 ^ 64 →
      (alignEnd s (BitVec.ofNat 64 16)).toNat = (s.toNat + 15) / 16 * 16 :=
    fun s hs => toNat_alignEnd (k := 4) (by decide) hs
  rw [halign' _ hs'', halign]
  omega

/-- **The place that is found** in one gap. -/
structure GapPlace (gap : ShExitGap) (m : Mem) (pc rangeLow rangeHigh a : Addr) : Prop where
  dvd : 16 ∣ a.toNat
  start : gap.start.toNat ≤ a.toNat
  endAddr : a.toNat + 16 ≤ gap.endAddr.toNat
  low : pc.toNat - rangeLow.toNat ≤ a.toNat
  high : a.toNat ≤ pc.toNat + rangeHigh.toNat
  free : Free m a

theorem tryAlloc_found (hgood : gap.Good) (hhigh : pc.toNat + rangeHigh.toNat < 2 ^ 64)
    (hhigh' : 16 ≤ rangeHigh.toNat)
    (h : shExitTryAllocInLibrary env m pc 16 rangeLow rangeHigh gap = .found a) :
    GapPlace gap m pc rangeLow rangeHigh a := by
  have hgap := gap.endAddr.isLt
  rw [shExitTryAllocInLibrary] at h
  cases hr : gapRange pc 16 rangeLow rangeHigh gap with
  | mk start endAddr =>
    obtain ⟨hdvd, hs, hs', he, he'⟩ := gapRange_bounds hgood hhigh hhigh' hr
    simp only [hr] at h
    split at h
    · cases h
    · rename_i hle
      rw [BitVec.lt_def, Nat.not_lt] at hle
      obtain ⟨i, hi, rfl, hzero⟩ := scanGap_found h
      rw [BitVec.toNat_sub_of_le (BitVec.le_def.mpr hle)] at hi
      have ha : (start + BitVec.ofNat 64 (16 * i)).toNat = start.toNat + 16 * i :=
        toNat_add_ofNat (by omega)
      refine ⟨?_, ?_, ?_, ?_, ?_, isZero_free ?_ hzero⟩ <;> rw [ha] <;> omega

end Gap

/-! ## All gaps -/

section Fill

/-- **What the zeros leave alone**: the gaps that are marked, and all that is in no gap. -/
def Filled (gaps : List ShExitGap) (m m' : Mem) : Prop :=
  ∀ b, (∀ gap ∈ gaps, b ∈ gap.bytes → gap.Marked m) → m' b = m b

theorem Filled.refl (gaps : List ShExitGap) (m : Mem) : Filled gaps m m := fun _ _ => rfl

theorem start_mem (hgood : gap.Good) {i : ℕ} (hi : i < 8) :
    gap.start + BitVec.ofNat 64 i ∈ gap.bytes := by
  obtain ⟨hstart, hend, hlt⟩ := hgood
  have hgap := gap.endAddr.isLt
  rw [mem_bytes_iff, toNat_add_ofNat (by omega)]
  omega

theorem Marked.congr (hgood : gap.Good) (hm : gap.Marked m) (h : ∀ b ∈ gap.bytes, m' b = m b) :
    gap.Marked m' := by
  intro hfill
  rw [Mem.read64_congr fun i hi => h _ (start_mem hgood hi)]
  exact hm hfill

theorem range_gap (hgood : gap.Good) (hb : b ∉ gap.bytes) :
    b ∉ range gap.start (gap.endAddr - gap.start).toNat := by
  have hlt := hgood.lt
  have hgap := gap.endAddr.isLt
  have hsub : (gap.endAddr - gap.start).toNat = gap.endAddr.toNat - gap.start.toNat :=
    BitVec.toNat_sub_of_le (BitVec.le_def.mpr hlt.le)
  rw [hsub, mem_range_iff (by rw [Fits]; omega)]
  rw [mem_bytes_iff] at hb
  omega

theorem write_mark_apart (hgood : gap.Good) (hb : b ∉ gap.bytes) (v : BitVec 64) :
    m.write gap.start v b = m b := by
  refine Mem.write_apart ?_
  by_contra hlt
  refine hb ?_
  have hstart := start_mem hgood (i := (b - gap.start).toNat) (by omega)
  rwa [BitVec.ofNat_toNat, BitVec.setWidth_eq, add_sub_cancel] at hstart

/-- **The zeros of one gap**: a gap that is marked stays as it is. -/
theorem fillZero_filled (hgood : gap.Good) (hfill : gap.needFillZero = true) {r : Option Stopped}
    (h : shExitFillZero env gap m = (m', r)) :
    Filled [gap] m m' ∧ (r = none → gap.Marked m') := by
  simp only [shExitFillZero] at h
  split at h
  · cases h
    exact ⟨.refl _ _, fun hr => by cases hr⟩
  split at h
  · cases h
    exact ⟨.refl _ _, fun hr => by cases hr⟩
  split at h
  · rename_i hmark
    split at h
    · cases h
      exact ⟨.refl _ _, fun hr => by cases hr⟩
    · cases h
      refine ⟨fun b hb => ?_, fun _ _ => Mem.read64_write64 _⟩
      have hout : b ∉ gap.bytes := fun hin => hmark (hb gap List.mem_cons_self hin hfill)
      rw [write_mark_apart hgood hout, memClear_of_notMem (range_gap hgood hout)]
  · rename_i hmark
    cases h
    exact ⟨.refl _ _, fun _ _ => not_not.mp hmark⟩

variable {gaps : List ShExitGap} {m₁ m₂ : Mem}

/-- The gaps do not meet. -/
def GapsApart (gaps : List ShExitGap) : Prop :=
  ∀ gap ∈ gaps, ∀ gap' ∈ gaps, gap ≠ gap' → Disjoint gap.bytes gap'.bytes

theorem Filled.marked (hgood : ∀ g ∈ gaps, g.Good) (hapart : GapsApart gaps) (hin : gap ∈ gaps)
    (hin' : gap' ∈ gaps) (hfill : Filled [gap] m m₁) (hm : gap'.Marked m) : gap'.Marked m₁ := by
  refine Marked.congr (hgood gap' hin') hm fun b hb => hfill b fun g hg hbg => ?_
  obtain rfl := List.mem_singleton.mp hg
  by_cases heq : g = gap'
  · exact heq ▸ hm
  · exact absurd hb (Set.disjoint_left.mp (hapart g hin gap' hin' heq) hbg)

theorem Filled.trans (hgood : ∀ g ∈ gap :: gaps, g.Good) (hapart : GapsApart (gap :: gaps))
    (h₁ : Filled [gap] m m₁) (h₂ : Filled gaps m₁ m₂) : Filled (gap :: gaps) m m₂ := by
  intro b hb
  have hsame : m₁ b = m b :=
    h₁ b fun g hg => hb g (List.mem_singleton.mp hg ▸ List.mem_cons_self)
  rw [← hsame]
  refine h₂ b fun g hg hbg => ?_
  exact h₁.marked hgood hapart List.mem_cons_self (List.mem_cons_of_mem _ hg)
    (hb g (List.mem_cons_of_mem _ hg) hbg)

theorem Filled.mono {gaps' : List ShExitGap} (h : Filled gaps m m₁) (hsub : gaps ⊆ gaps') :
    Filled gaps' m m₁ := fun b hb => h b fun g hg => hb g (hsub hg)

end Fill

/-- **The outcome of `sh_exit_alloc_in_library`**, in the gaps of the library. -/
inductive InGaps (gaps : List ShExitGap) (m : Mem) (pc rangeLow rangeHigh : Addr)
    (exit : List (BitVec 32)) : Mem × InLibrary → Prop
  | found {m₁ : Mem} {gap : ShExitGap} {a : Addr} : Filled gaps m m₁ → gap ∈ gaps →
      gap.Marked m₁ → GapPlace gap m₁ pc rangeLow rangeHigh a →
      InGaps gaps m pc rangeLow rangeHigh exit (m₁.writeWords a exit, .found a)
  | none {m₁ : Mem} : Filled gaps m m₁ → InGaps gaps m pc rangeLow rangeHigh exit (m₁, .none)
  | locked {m₁ : Mem} : Filled gaps m m₁ → InGaps gaps m pc rangeLow rangeHigh exit (m₁, .locked)

section InGaps

variable {gaps : List ShExitGap} {m₁ : Mem} {res : Mem × InLibrary}

theorem InGaps.cons (hgood : ∀ g ∈ gap :: gaps, g.Good) (hapart : GapsApart (gap :: gaps))
    (hfill : Filled [gap] m m₁) (h : InGaps gaps m₁ pc rangeLow rangeHigh exit res) :
    InGaps (gap :: gaps) m pc rangeLow rangeHigh exit res := by
  cases h with
  | found h₂ hin hmark hfound =>
    exact .found (hfill.trans hgood hapart h₂) (List.mem_cons_of_mem _ hin) hmark hfound
  | none h₂ => exact .none (hfill.trans hgood hapart h₂)
  | locked h₂ => exact .locked (hfill.trans hgood hapart h₂)

/-- The step before the search in a gap. -/
theorem fill_filled (hgood : gap.Good) {r : Option Stopped}
    (h : (if gap.needFillZero then shExitFillZero env gap m else (m, Option.none)) = (m₁, r)) :
    Filled [gap] m m₁ ∧ (r = Option.none → gap.Marked m₁) := by
  split at h
  · exact fillZero_filled hgood ‹_› h
  · cases h
    exact ⟨.refl _ _, fun _ hfill => absurd hfill ‹_›⟩

theorem allocInGaps_inGaps (hgood : ∀ g ∈ gaps, g.Good) (hapart : GapsApart gaps)
    (hhigh : pc.toNat + rangeHigh.toNat < 2 ^ 64) (hhigh' : 16 ≤ rangeHigh.toNat)
    (hexit : exit.length = 4) :
    InGaps gaps m pc rangeLow rangeHigh exit
      (allocInGaps env pc exit rangeLow rangeHigh gaps m) := by
  induction gaps generalizing m with
  | nil => exact .none (.refl _ _)
  | cons gap gaps ih =>
    have hg := hgood gap List.mem_cons_self
    have hsub : [gap] ⊆ gap :: gaps := List.cons_subset_cons _ (List.nil_subset _)
    rw [allocInGaps]
    split
    · rename_i heq
      exact .none ((fill_filled hg heq).1.mono hsub)
    · rename_i heq
      exact .locked ((fill_filled hg heq).1.mono hsub)
    · rename_i m₁ heq
      obtain ⟨hfill, hmark⟩ := fill_filled hg heq
      split
      · exact .none (hfill.mono hsub)
      · rename_i a hfound
        rw [hexit] at hfound
        exact .found (hfill.mono hsub) List.mem_cons_self (hmark rfl)
          (tryAlloc_found hg hhigh hhigh' hfound)
      · refine .cons hgood hapart hfill (ih (fun g hin => hgood g (List.mem_cons_of_mem _ hin)) ?_)
        exact fun g hin g' hin' =>
          hapart g (List.mem_cons_of_mem _ hin) g' (List.mem_cons_of_mem _ hin')

end InGaps

end Koola
