import Koola.Alloc.ExitGaps

/-!
# The gaps between the segments of a library

* `Segments`: the segments as they are mapped, from low to high.
* `segmentGap_bounds`: the gap is behind its segment; `gapLimit_le`: it ends before the next ones.
* `getGaps_outside`, `getGaps_apart`: gaps have nothing of a segment, and they do not meet.
* **`shExitAllocInLibrary_sound`**: no segment is written to.
-/

namespace Koola

open A64 ShTrampoMgr ShExitGap

variable {k : ℕ} {dliFbase : Addr} {cur p q : Phdr} {next : Option Phdr} {rest phdrs : List Phdr}
  {kernel : Bool} {cap : ℕ} {gap gap' : ShExitGap} {b x : Addr}

/-! ## Pages -/

section Page

def pageStart (k x : ℕ) : ℕ := x / 2 ^ k * 2 ^ k

def pageEnd (k x : ℕ) : ℕ := pageStart k (x + (2 ^ k - 1))

theorem pageStart_le (k x : ℕ) : pageStart k x ≤ x := Nat.div_mul_le_self _ _

theorem le_pageEnd (k x : ℕ) : x ≤ pageEnd k x := by
  have hpos : 0 < 2 ^ k := Nat.two_pow_pos k
  have hlt := Nat.lt_div_mul_add (a := x + (2 ^ k - 1)) hpos
  rw [pageEnd, pageStart]
  omega

theorem dvd_pageStart (hk : 4 ≤ k) (x : ℕ) : 16 ∣ pageStart k x :=
  (pow_dvd_pow 2 hk : 2 ^ 4 ∣ 2 ^ k).trans (Dvd.intro_left _ rfl)

theorem toNat_shUtilPageStart :
    (shUtilPageStart (BitVec.ofNat 64 (2 ^ k)) x).toNat = pageStart k x.toNat :=
  toNat_and_not_mask

theorem toNat_shUtilPageEnd (hk : k < 64) (h : x.toNat + 2 ^ k ≤ 2 ^ 64) :
    (shUtilPageEnd (BitVec.ofNat 64 (2 ^ k)) x).toNat = pageEnd k x.toNat :=
  toNat_alignEnd hk h

end Page

/-! ## Segments -/

/-- Where the segment starts and ends. -/
def Phdr.first (dliFbase : Addr) (p : Phdr) : ℕ := (dliFbase + p.vaddr).toNat

def Phdr.last (dliFbase : Addr) (p : Phdr) : ℕ := p.first dliFbase + p.memsz.toNat

def Phdr.bytes (dliFbase : Addr) (p : Phdr) : Set Addr :=
  {b | p.first dliFbase ≤ b.toNat ∧ b.toNat < p.last dliFbase}

/-- **The segments of a library**, with pages of `2 ^ k` bytes: none has a page of the one
before. -/
structure Segments (k : ℕ) (dliFbase : Addr) (phdrs : List Phdr) : Prop where
  fits : ∀ p ∈ phdrs, p.load = true → p.last dliFbase + 2 * 2 ^ k ≤ 2 ^ 64
  apart : phdrs.Pairwise fun p q => p.load = true → q.load = true →
    pageEnd k (p.last dliFbase) ≤ pageStart k (q.first dliFbase)

section Segments

theorem Segments.tail (h : Segments k dliFbase (cur :: rest)) : Segments k dliFbase rest :=
  ⟨fun p hp => h.fits p (List.mem_cons_of_mem _ hp), (List.pairwise_cons.mp h.apart).2⟩

theorem Segments.before (h : Segments k dliFbase (cur :: rest)) (hcur : cur.load = true)
    (hp : p ∈ rest) (hload : p.load = true) :
    pageEnd k (cur.last dliFbase) ≤ pageStart k (p.first dliFbase) :=
  (List.pairwise_cons.mp h.apart).1 p hp hcur hload

/-- Where the page behind the segment starts that the gap ends before. -/
def gapLimit (k : ℕ) (dliFbase : Addr) (cur : Phdr) : Option Phdr → ℕ
  | none => pageEnd k (cur.last dliFbase)
  | some next => pageStart k (next.first dliFbase)

theorem dvd_gapLimit (hk : 4 ≤ k) : 16 ∣ gapLimit k dliFbase cur next := by
  cases next with
  | none => exact dvd_pageStart hk _
  | some next => exact dvd_pageStart hk _

theorem toNat_last (hfits : cur.last dliFbase + 2 * 2 ^ k ≤ 2 ^ 64) :
    (dliFbase + cur.vaddr + cur.memsz).toNat = cur.last dliFbase := by
  have hpos : 0 < 2 ^ k := Nat.two_pow_pos k
  have hlt : (dliFbase + cur.vaddr).toNat + cur.memsz.toNat < 2 ^ 64 := by
    change cur.last dliFbase < _
    omega
  rw [BitVec.toNat_add, Nat.mod_eq_of_lt hlt]
  rfl

theorem toNat_pageEnd_last (hk' : k < 64) (hfits : cur.last dliFbase + 2 * 2 ^ k ≤ 2 ^ 64) :
    (shUtilPageEnd (BitVec.ofNat 64 (2 ^ k)) (dliFbase + cur.vaddr + cur.memsz)).toNat =
      pageEnd k (cur.last dliFbase) := by
  have hlast := toNat_last hfits
  rw [toNat_shUtilPageEnd hk' (by omega), hlast]

/-- The mark is at the next multiple of 16. -/
theorem toNat_alignEnd_last (hk : 4 ≤ k) (hfits : cur.last dliFbase + 2 * 2 ^ k ≤ 2 ^ 64) :
    (alignEnd (dliFbase + cur.vaddr + cur.memsz) 0x10).toNat =
      (cur.last dliFbase + 15) / 16 * 16 := by
  have hpow : 2 ^ 4 ≤ 2 ^ k := Nat.pow_le_pow_right (by decide) hk
  have hlast := toNat_last hfits
  have h16 := toNat_alignEnd (x := dliFbase + cur.vaddr + cur.memsz) (k := 4) (by decide) (by omega)
  rw [hlast] at h16
  exact h16

theorem toNat_nextPageStart (hk' : k < 64) (hfits : cur.last dliFbase + 2 * 2 ^ k ≤ 2 ^ 64) :
    (nextPageStart (BitVec.ofNat 64 (2 ^ k)) dliFbase
      (shUtilPageEnd (BitVec.ofNat 64 (2 ^ k)) (dliFbase + cur.vaddr + cur.memsz)) next).toNat =
      gapLimit k dliFbase cur next := by
  cases next with
  | none => exact toNat_pageEnd_last hk' hfits
  | some next => exact toNat_shUtilPageStart

/-- What `usable` says of a gap that is filled with zeros. -/
theorem lt_of_room {s e : Addr} (hs : s.toNat + 16 < 2 ^ 64) (he : e > s + 0x10) :
    s.toNat < e.toNat := by
  have hadd : (s + 0x10).toNat = s.toNat + 16 := toNat_add_ofNat hs
  rw [gt_iff_lt, BitVec.lt_def, hadd] at he
  omega

/-- **The gap is behind its segment** and ends at a page. -/
theorem segmentGap_bounds (hk : 4 ≤ k) (hk' : k < 64)
    (hfits : cur.last dliFbase + 2 * 2 ^ k ≤ 2 ^ 64)
    (husable : (segmentGap (BitVec.ofNat 64 (2 ^ k)) dliFbase cur next).usable = true) :
    (segmentGap (BitVec.ofNat 64 (2 ^ k)) dliFbase cur next).Good ∧
      cur.last dliFbase ≤ (segmentGap (BitVec.ofNat 64 (2 ^ k)) dliFbase cur next).start.toNat ∧
      (segmentGap (BitVec.ofNat 64 (2 ^ k)) dliFbase cur next).endAddr.toNat =
        gapLimit k dliFbase cur next := by
  have hpow : 2 ^ 4 ≤ 2 ^ k := Nat.pow_le_pow_right (by decide) hk
  have hround := toNat_alignEnd_last hk hfits
  have hpage := toNat_pageEnd_last hk' hfits
  have hlimit : _ = gapLimit k dliFbase cur next := toNat_nextPageStart hk' hfits
  have hdvd : 16 ∣ gapLimit k dliFbase cur next := dvd_gapLimit hk
  have hle := le_pageEnd k (cur.last dliFbase)
  have hpage16 : 16 ∣ pageEnd k (cur.last dliFbase) := dvd_pageStart hk _
  rw [segmentGap, usable] at husable
  rw [segmentGap]
  split at husable
  · rename_i hx
    rw [if_pos hx]
    simp only [Bool.true_and, Bool.not_true, Bool.false_and, Bool.or_false,
      decide_eq_true_eq] at husable
    have hlt := lt_of_room (by omega) husable
    exact ⟨⟨by rw [hround]; omega, by rw [hlimit]; exact hdvd, hlt⟩, by rw [hround]; omega, hlimit⟩
  · rename_i hx
    rw [if_neg hx]
    split at husable
    · rename_i hbss
      rw [if_pos hbss]
      simp only [Bool.false_and, Bool.not_false, Bool.true_and, Bool.false_or,
        decide_eq_true_eq] at husable
      rw [gt_iff_lt, BitVec.lt_def] at husable
      exact ⟨⟨by rw [hround]; omega, by rw [hlimit]; exact hdvd, husable⟩, by rw [hround]; omega,
        hlimit⟩
    · rename_i hbss
      rw [if_neg hbss]
      split at husable
      · rename_i hlt
        rw [if_pos hlt]
        rw [gt_iff_lt, BitVec.lt_def] at hlt
        exact ⟨⟨by rw [hpage]; exact hpage16, by rw [hlimit]; exact hdvd, hlt⟩,
          by rw [hpage]; exact hle, hlimit⟩
      · exact absurd husable (by decide)

/-- The gap ends before the next segments. -/
theorem gapLimit_le (h : Segments k dliFbase (cur :: rest)) (hcur : cur.load = true)
    (hp : p ∈ rest) (hload : p.load = true) :
    gapLimit k dliFbase cur (nextPhdr kernel rest) ≤ pageStart k (p.first dliFbase) := by
  rw [nextPhdr]
  split
  · exact h.before hcur hp hload
  · cases hfind : rest.find? (·.load) with
    | none => exact h.before hcur hp hload
    | some q =>
      obtain ⟨hq, pre, post, rfl, hpre⟩ := List.find?_eq_some_iff_append.mp hfind
      rcases List.mem_append.mp hp with hin | hin
      · exact absurd hload (by simpa using hpre p hin)
      rcases List.mem_cons.mp hin with rfl | hin
      · exact le_refl _
      · have hpost := (List.pairwise_cons.mp (List.pairwise_append.mp h.tail.apart).2.1).1
        have hle := hpost p hin hq hload
        have hfirst : pageStart k (q.first dliFbase) ≤ q.first dliFbase := pageStart_le _ _
        have hlast := le_pageEnd k (q.last dliFbase)
        have hself : q.first dliFbase ≤ q.last dliFbase := Nat.le_add_right _ _
        exact hfirst.trans (hself.trans (hlast.trans hle))

end Segments

/-! ## All gaps -/

section GetGaps

/-- A gap is behind one of the segments. -/
theorem getGaps_mem {pageSize : Addr}
    (h : gap ∈ shExitGetGaps pageSize dliFbase kernel phdrs cap) :
    ∃ pre cur rest, phdrs = pre ++ cur :: rest ∧ cur.load = true ∧
      gap = segmentGap pageSize dliFbase cur (nextPhdr kernel rest) ∧ gap.usable = true := by
  induction phdrs generalizing cap with
  | nil =>
    rw [shExitGetGaps] at h
    cases h
  | cons cur rest ih =>
    have hlater : ∀ {cap : ℕ}, gap ∈ shExitGetGaps pageSize dliFbase kernel rest cap →
        ∃ pre cur' rest', cur :: rest = pre ++ cur' :: rest' ∧ cur'.load = true ∧
          gap = segmentGap pageSize dliFbase cur' (nextPhdr kernel rest') ∧
          gap.usable = true := by
      intro cap hin
      obtain ⟨pre, cur', rest', rfl, hgap⟩ := ih hin
      exact ⟨cur :: pre, cur', rest', rfl, hgap⟩
    cases cap with
    | zero =>
      rw [shExitGetGaps] at h
      cases h
    | succ cap =>
      rw [shExitGetGaps] at h
      split at h
      · exact hlater h
      · rename_i hload
        rw [Bool.not_eq_true', Bool.not_eq_false] at hload
        simp only at h
        split at h
        · rename_i husable
          rcases List.mem_cons.mp h with rfl | h
          · exact ⟨[], cur, rest, rfl, hload, rfl, husable⟩
          · exact hlater h
        · exact hlater h

/-- What is known of a gap and its segment. -/
theorem getGaps_bounds (hk : 4 ≤ k) (hk' : k < 64) (hseg : Segments k dliFbase phdrs)
    (h : gap ∈ shExitGetGaps (BitVec.ofNat 64 (2 ^ k)) dliFbase kernel phdrs cap) :
    gap.Good ∧ ∃ pre cur rest, phdrs = pre ++ cur :: rest ∧ cur.load = true ∧
      cur.last dliFbase ≤ gap.start.toNat ∧
      ∀ p ∈ rest, p.load = true → gap.endAddr.toNat ≤ p.first dliFbase := by
  obtain ⟨pre, cur, rest, rfl, hload, rfl, husable⟩ := getGaps_mem h
  have hcur := hseg.fits cur (by simp) hload
  obtain ⟨hgood, hstart, hend⟩ := segmentGap_bounds hk hk' hcur husable
  refine ⟨hgood, pre, cur, rest, rfl, hload, hstart, fun p hp hp' => ?_⟩
  have hsub : Segments k dliFbase (cur :: rest) :=
    ⟨fun p hp => hseg.fits p (List.mem_append_right _ hp),
      (List.pairwise_append.mp hseg.apart).2.1⟩
  rw [hend]
  exact (gapLimit_le hsub hload hp hp').trans (pageStart_le _ _)

/-- **A gap has nothing of a segment.** -/
theorem getGaps_outside (hk : 4 ≤ k) (hk' : k < 64) (hseg : Segments k dliFbase phdrs)
    (h : gap ∈ shExitGetGaps (BitVec.ofNat 64 (2 ^ k)) dliFbase kernel phdrs cap)
    (hp : p ∈ phdrs) (hload : p.load = true) : Disjoint gap.bytes (p.bytes dliFbase) := by
  obtain ⟨-, pre, cur, rest, rfl, hcur, hstart, hend⟩ := getGaps_bounds hk hk' hseg h
  rw [Set.disjoint_left]
  intro b hb hb'
  rw [mem_bytes_iff] at hb
  have hfirst : p.first dliFbase ≤ b.toNat := hb'.1
  have hlast : b.toNat < p.last dliFbase := hb'.2
  have hself : cur.first dliFbase ≤ cur.last dliFbase := Nat.le_add_right _ _
  rcases List.mem_append.mp hp with hin | hin
  · have hbefore := (List.pairwise_append.mp hseg.apart).2.2 p hin cur List.mem_cons_self hload hcur
    have hpage := le_pageEnd k (p.last dliFbase)
    have hpage' := pageStart_le k (cur.first dliFbase)
    omega
  rcases List.mem_cons.mp hin with rfl | hin
  · omega
  · have hle := hend p hin hload
    omega

/-- **The gaps do not meet.** -/
theorem getGaps_pairwise (hk : 4 ≤ k) (hk' : k < 64) (hseg : Segments k dliFbase phdrs) :
    (shExitGetGaps (BitVec.ofNat 64 (2 ^ k)) dliFbase kernel phdrs cap).Pairwise
      fun gap gap' => gap.endAddr.toNat ≤ gap'.start.toNat := by
  induction phdrs generalizing cap with
  | nil =>
    rw [shExitGetGaps]
    exact .nil
  | cons cur rest ih =>
    cases cap with
    | zero =>
      rw [shExitGetGaps]
      exact .nil
    | succ cap =>
      rw [shExitGetGaps]
      split
      · exact ih hseg.tail
      · rename_i hload
        rw [Bool.not_eq_true', Bool.not_eq_false] at hload
        simp only
        split
        · rename_i husable
          refine List.pairwise_cons.mpr ⟨fun gap' hgap' => ?_, ih hseg.tail⟩
          obtain ⟨-, pre, p, post, rfl, hp, hstart, -⟩ :=
            getGaps_bounds hk hk' hseg.tail hgap'
          obtain ⟨-, -, hend⟩ :=
            segmentGap_bounds hk hk' (hseg.fits cur List.mem_cons_self hload) husable
          have hlimit : gapLimit k dliFbase cur (nextPhdr kernel (pre ++ p :: post)) ≤ _ :=
            gapLimit_le hseg hload (p := p) (by simp) hp
          have hfirst := pageStart_le k (p.first dliFbase)
          have hself : p.first dliFbase ≤ p.last dliFbase := Nat.le_add_right _ _
          rw [hend]
          exact hlimit.trans (hfirst.trans (hself.trans hstart))
        · exact ih hseg.tail

theorem bytes_disjoint (h : gap.endAddr.toNat ≤ gap'.start.toNat) :
    Disjoint gap.bytes gap'.bytes := by
  rw [Set.disjoint_left]
  intro b hb hb'
  rw [mem_bytes_iff] at hb hb'
  omega

theorem getGaps_apart (hk : 4 ≤ k) (hk' : k < 64) (hseg : Segments k dliFbase phdrs) :
    GapsApart (shExitGetGaps (BitVec.ofNat 64 (2 ^ k)) dliFbase kernel phdrs cap) := by
  have hsymm : Std.Symm fun gap gap' : ShExitGap => Disjoint gap.bytes gap'.bytes :=
    ⟨fun _ _ h => h.symm⟩
  have hpair : (shExitGetGaps (BitVec.ofNat 64 (2 ^ k)) dliFbase kernel phdrs cap).Pairwise
      fun gap gap' => Disjoint gap.bytes gap'.bytes :=
    (getGaps_pairwise hk hk' hseg).imp fun h => bytes_disjoint h
  exact fun gap hin gap' hin' hne => hpair.forall hin hin' hne

end GetGaps

/-! ## The call -/

section Call

variable {infos : ElfinfoGlobals} {dlinfo : XdlInfo} {pc rangeLow rangeHigh a : Addr}
  {exit : List (BitVec 32)} {env : ExitEnv} {m m' : Mem} {r : InLibrary}

theorem GapPlace.subset (h : GapPlace gap m pc rangeLow rangeHigh a) : range a 16 ⊆ gap.bytes := by
  intro b hb
  have hstart := h.start
  have hend := h.endAddr
  rw [mem_range_iff (lt_of_le_of_lt hend gap.endAddr.isLt)] at hb
  rw [mem_bytes_iff]
  omega

/-- The zeros are written to no segment. -/
theorem Filled.segment (hk : 4 ≤ k) (hk' : k < 64) (hseg : Segments k dliFbase phdrs)
    (hfill : Filled (shExitGetGaps (BitVec.ofNat 64 (2 ^ k)) dliFbase kernel phdrs cap) m m')
    (hp : p ∈ phdrs) (hload : p.load = true) (hb : b ∈ p.bytes dliFbase) : m' b = m b :=
  hfill b fun _ hgap hin => absurd hb
    (Set.disjoint_left.mp (getGaps_outside hk hk' hseg hgap hp hload) hin)

/-- **`sh_exit_alloc_in_library` does not write to a segment**, and the exit that it finds is in the
range and in no segment. -/
theorem shExitAllocInLibrary_sound (hk : 4 ≤ k) (hk' : k < 64)
    (hseg : Segments k dlinfo.dliFbase dlinfo.phdrs) (hexit : exit.length = 4)
    (hhigh : pc.toNat + rangeHigh.toNat < 2 ^ 64) (hhigh' : 16 ≤ rangeHigh.toNat)
    (h : shExitAllocInLibrary (BitVec.ofNat 64 (2 ^ k)) infos pc dlinfo exit rangeLow rangeHigh env
      m = (m', r)) :
    (∀ p ∈ dlinfo.phdrs, p.load = true → ∀ b ∈ p.bytes dlinfo.dliFbase, m' b = m b) ∧
      ∀ a, r = .found a → 16 ∣ a.toNat ∧ pc.toNat - rangeLow.toNat ≤ a.toNat ∧
        a.toNat ≤ pc.toNat + rangeHigh.toNat ∧ Holds m' a exit ∧
        ∀ p ∈ dlinfo.phdrs, p.load = true → Disjoint (range a 16) (p.bytes dlinfo.dliFbase) := by
  have hres : InGaps (shExitGetGaps (BitVec.ofNat 64 (2 ^ k)) dlinfo.dliFbase
      (shExitIsElfLoadedByKernel infos pc) dlinfo.phdrs shExitGapsCap) m pc rangeLow rangeHigh exit
      (m', r) := by
    rw [← h]
    exact allocInGaps_inGaps (fun gap hgap => (getGaps_bounds hk hk' hseg hgap).1)
      (getGaps_apart hk hk' hseg) hhigh hhigh' hexit
  cases hres with
  | none hfill | locked hfill =>
    exact ⟨fun p hp hload b hb => hfill.segment hk hk' hseg hp hload hb, nofun⟩
  | @found m₁ gap a hfill hgap hmark hplace =>
    have hout : ∀ p ∈ dlinfo.phdrs, p.load = true →
        Disjoint (range a 16) (p.bytes dlinfo.dliFbase) := fun p hp hload =>
      (getGaps_outside hk hk' hseg hgap hp hload).mono_left hplace.subset
    refine ⟨fun p hp hload b hb => ?_, ?_⟩
    · rw [Mem.writeWords_apart fun hin => ?_]
      · exact hfill.segment hk hk' hseg hp hload hb
      · rw [hexit, bytesAt_four] at hin
        exact Set.disjoint_left.mp (hout p hp hload) hin hb
    · rintro a ⟨⟩
      exact ⟨hplace.dvd, hplace.low, hplace.high, Mem.holds_writeWords (by omega), hout⟩

/-- A segment with code, and one with data some pages behind it. -/
def twoSegments : List Phdr :=
  [⟨true, true, true, 0x10000, 64, 64⟩, ⟨true, false, true, 0x13000, 256, 256⟩]

theorem segments_twoSegments : Segments 12 0 twoSegments := by
  refine ⟨fun p hp _ => ?_, ?_⟩
  · rcases List.mem_cons.mp hp with rfl | hp
    · decide
    · obtain rfl := List.mem_singleton.mp hp
      decide
  · exact List.pairwise_pair.mpr fun _ _ => by decide

/-- The library is not one of those that the kernel has loaded. -/
def byLinker : ElfinfoGlobals := ⟨⟨0, some []⟩, ⟨0, some []⟩, ⟨0, none⟩⟩

/-- A jump to `0x30000`. -/
def exitWords : List (BitVec 32) := [0x58000051, 0xD61F0220, 0x30000, 0]

theorem shExitAllocInLibrary_sound_twoSegments : ∃ m' : Mem, Holds m' 0x10050 exitWords ∧
    ∀ p ∈ twoSegments, p.load = true → ∀ b ∈ p.bytes 0, m' b = 1 := by
  have hfound : (shExitAllocInLibrary (BitVec.ofNat 64 (2 ^ 12)) byLinker 0x10000
      ⟨0, 64, twoSegments⟩ exitWords 134217728 134217724 ⟨fun _ => false, fun _ => true⟩
      fun _ => 1).2 = .found 0x10050 := by
    decide +kernel
  have hhigh : (0x10000 : Addr).toNat + (134217724 : Addr).toNat < 2 ^ 64 := by decide
  obtain ⟨hkeep, hplace⟩ := shExitAllocInLibrary_sound (by decide) (by decide) segments_twoSegments
    rfl hhigh (by decide) (Prod.ext rfl hfound)
  exact ⟨_, (hplace _ rfl).2.2.2.1, hkeep⟩

end Call

end Koola
