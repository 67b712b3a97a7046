import Koola.Alloc.Segments
import Koola.Inline.Inst

/-!
# Memory of the trampolines

The libraries, their gaps and the variables of the program are memory that the managers of the
trampolines have nothing of.

* `Layout`: what the process has; `Layout.ofLibrary`: a library.
* `Managers`: the pages of the two managers; `NewPage`: what `mmap` promises.
* `Cell`: memory in a gap that is taken; `InUse`: the bytes that a call must leave alone.
* `InUse.spares_enters`, `InUse.spares_exits`: the managers leave them alone.
-/

namespace Koola.Inline

open A64 ShTrampoMgr ShExitGap

/-- **What the process has**: the instructions of the libraries, variables, and the gaps of the
libraries. -/
structure Layout where
  code : Set Addr
  data : Set Addr
  gaps : Set ShExitGap
  good : ∀ gap ∈ gaps, gap.Good
  null : ∀ gap ∈ gaps, gap.start ≠ 0
  gaps_apart : ∀ gap ∈ gaps, ∀ gap' ∈ gaps, gap ≠ gap' → Disjoint gap.bytes gap'.bytes
  data_code : Disjoint data code
  code_gaps : ∀ gap ∈ gaps, Disjoint code gap.bytes
  data_gaps : ∀ gap ∈ gaps, Disjoint data gap.bytes

/-- **The layout of a library**: its gaps are those of `sh_exit_get_gaps`. -/
def Layout.ofLibrary {k : ℕ} {dliFbase : Addr} {phdrs : List Phdr} (kernel : Bool) (hk : 4 ≤ k)
    (hk' : k < 64) (hseg : Segments k dliFbase phdrs)
    (hpos : ∀ p ∈ phdrs, p.load = true → 0 < p.last dliFbase) (code data : Set Addr)
    (hcode : ∀ b ∈ code, ∃ p ∈ phdrs, p.load = true ∧ b ∈ p.bytes dliFbase)
    (hdata : Disjoint data code)
    (hgaps : ∀ gap ∈ shExitGetGaps (BitVec.ofNat 64 (2 ^ k)) dliFbase kernel phdrs shExitGapsCap,
      Disjoint data gap.bytes) : Layout where
  code := code
  data := data
  gaps := {gap | gap ∈ shExitGetGaps (BitVec.ofNat 64 (2 ^ k)) dliFbase kernel phdrs shExitGapsCap}
  good _ hgap := (getGaps_bounds hk hk' hseg hgap).1
  null gap hgap hnull := by
    obtain ⟨-, pre, cur, rest, rfl, hload, hstart, -⟩ := getGaps_bounds hk hk' hseg hgap
    have hlast := hpos cur (by simp) hload
    rw [hnull] at hstart
    exact absurd hstart (not_le.mpr hlast)
  gaps_apart := getGaps_apart hk hk' hseg
  data_code := hdata
  code_gaps gap hgap := Set.disjoint_left.mpr fun b hb hin => by
    obtain ⟨p, hp, hload, hbytes⟩ := hcode b hb
    exact Set.disjoint_left.mp (getGaps_outside hk hk' hseg hgap hp hload) hin hbytes
  data_gaps := hgaps

/-- All that is not of the managers. -/
def Layout.mem (L : Layout) : Set Addr :=
  {b | b ∈ L.code ∨ b ∈ L.data ∨ ∃ gap ∈ L.gaps, b ∈ gap.bytes}

/-- **The two managers** have pages that are apart from each other and from all else. -/
structure Managers (L : Layout) (pageSize : ℕ) (s : InstState) : Prop where
  enters : s.enters.WellFormed pageSize
  exits : s.exits.WellFormed pageSize
  enterSize : s.enters.trampoSize = 256
  exitSize : s.exits.trampoSize = 16
  enterDelay : 0 < s.enters.delaySec
  exitDelay : 0 < s.exits.delaySec
  enterPages : ∀ p ∈ s.enters.pages, Disjoint (range p.ptr pageSize) L.mem
  exitPages : ∀ p ∈ s.exits.pages, Disjoint (range p.ptr pageSize) L.mem
  apart : ∀ p ∈ s.enters.pages, ∀ q ∈ s.exits.pages, Apart pageSize p.ptr q.ptr
  aligned : ∀ p ∈ s.exits.pages, 16 ∣ p.ptr.toNat

/-- **What `mmap` promises** of a new page. -/
structure NewPage (L : Layout) (pageSize : ℕ) (s : InstState) (ptr : Addr) : Prop where
  null : ptr ≠ 0
  fits : Fits ptr pageSize
  aligned : 16 ∣ ptr.toNat
  libraries : Disjoint (range ptr pageSize) L.mem
  enters : ∀ p ∈ s.enters.pages, Apart pageSize ptr p.ptr
  exits : ∀ p ∈ s.exits.pages, Apart pageSize ptr p.ptr

/-- Memory in a gap that is taken: it is not zero, and the gap is not filled again. -/
structure Cell (gap : ShExitGap) (m : Mem) (a : Addr) : Prop where
  marked : gap.Marked m
  dvd : 16 ∣ a.toNat
  start : gap.start.toNat ≤ a.toNat
  endAddr : a.toNat + 16 ≤ gap.endAddr.toNat
  taken : ¬ Free m a

/-- **The bytes that a call must leave alone.** -/
inductive InUse (L : Layout) (pageSize : ℕ) (s : InstState) (b : Addr) : Prop
  | code : b ∈ L.code → InUse L pageSize s b
  | data : b ∈ L.data → InUse L pageSize s b
  | enter {e : Addr} : s.enters.Held pageSize e → b ∈ range e 256 → InUse L pageSize s b
  | exit {x : Addr} : s.exits.Held pageSize x → b ∈ range x 16 → InUse L pageSize s b
  | cell {gap : ShExitGap} {a : Addr} : gap ∈ L.gaps → Cell gap s.mem a → b ∈ range a 16 →
      InUse L pageSize s b

variable {L : Layout} {pageSize : ℕ} {s s' : InstState} {a b e x ptr : Addr} {gap gap' : ShExitGap}
  {m m' : Mem} {n : ℕ}

/-! ## Bytes -/

section Bytes

theorem disjoint_of_apart (ha : Fits a n) (hb : Fits b n) (h : Apart n a b) :
    Disjoint (range a n) (range b n) :=
  Set.disjoint_left.mpr fun _ hx => notMem_of_apart ha hb h hx

/-- Two pieces of 16 bytes. -/
theorem disjoint_sixteen (ha : 16 ∣ a.toNat) (hb : 16 ∣ b.toNat) (hfa : Fits a 16)
    (hfb : Fits b 16) (hne : a ≠ b) : Disjoint (range a 16) (range b 16) := by
  refine disjoint_of_apart hfa hfb ?_
  have hnat : a.toNat ≠ b.toNat := fun h => hne (BitVec.eq_of_toNat_eq h)
  rw [Apart]
  omega

end Bytes

/-! ## Cells -/

section Cells

theorem Cell.fits (h : Cell gap m a) : Fits a 16 := lt_of_le_of_lt h.endAddr gap.endAddr.isLt

theorem Cell.subset (h : Cell gap m a) : range a 16 ⊆ gap.bytes := by
  intro b hb
  have hstart := h.start
  have hend := h.endAddr
  rw [mem_range_iff h.fits] at hb
  rw [mem_bytes_iff]
  omega

/-- The mark of a gap is taken. -/
theorem Cell.mark (hgood : gap.Good) (h : Cell gap m a) (hfill : gap.needFillZero = true) :
    Cell gap m gap.start where
  marked := h.marked
  dvd := hgood.start_dvd
  start := le_refl _
  endAddr := by
    have hstart := h.start
    have hend := h.endAddr
    omega
  taken hfree := absurd ((h.marked hfill).symm.trans hfree.1) (by decide)

/-- A cell stays one while its bytes and the mark stay. -/
theorem Cell.congr (h : Cell gap m a) (hcell : ∀ b ∈ range a 16, m' b = m b)
    (hmark : gap.needFillZero = true → ∀ b ∈ range gap.start 16, m' b = m b) : Cell gap m' a where
  marked hfill := by
    rw [Mem.read64_congr fun i hi => hmark hfill _ ?_]
    · exact h.marked hfill
    · rw [range, Set.mem_ofPred_eq, add_sub_cancel_left, BitVec.toNat_ofNat,
        Nat.mod_eq_of_lt (by omega)]
      omega
  dvd := h.dvd
  start := h.start
  endAddr := h.endAddr
  taken := by
    rw [free_congr (bytesAt_four ▸ hcell)]
    exact h.taken

/-- Cells that differ have nothing in common. -/
theorem Layout.cells_disjoint {gap gap' : ShExitGap} (ha : Cell gap m a) (hb : Cell gap' m b)
    (hne : a ≠ b) : Disjoint (range a 16) (range b 16) :=
  disjoint_sixteen ha.dvd hb.dvd ha.fits hb.fits hne

theorem Layout.gap_eq (L : Layout) (hgap : gap ∈ L.gaps) (hgap' : gap' ∈ L.gaps)
    (hb : b ∈ gap.bytes) (hb' : b ∈ gap'.bytes) : gap = gap' := by
  by_contra hne
  exact Set.disjoint_left.mp (L.gaps_apart gap hgap gap' hgap' hne) hb hb'

end Cells

/-! ## Memory of the managers -/

section Managers

variable {mgr mgr' : ShTrampoMgr}

/-- Memory that is taken is in a page. -/
theorem held_page (hwf : mgr.WellFormed pageSize) (ha : mgr.Held pageSize a) :
    ∃ p ∈ mgr.pages, range a mgr.trampoSize ⊆ range p.ptr pageSize := by
  obtain ⟨p, hp, i, hi, -, rfl⟩ := ha
  exact ⟨p, hp, fun b hb => slot_subset hwf (hwf.fits hp) hi hb⟩

theorem held_ne_zero (hwf : mgr.WellFormed pageSize) (ha : mgr.Held pageSize a) : a ≠ 0 := by
  obtain ⟨p, hp, i, hi, -, rfl⟩ := ha
  have hnull := (hwf.good p hp).null
  intro h
  have hzero := congrArg BitVec.toNat h
  rw [toNat_slot hwf.size (hwf.fits hp) hi] at hzero
  refine hnull (BitVec.eq_of_toNat_eq ?_)
  change p.ptr.toNat = 0
  change p.ptr.toNat + _ = 0 at hzero
  omega

theorem held_disjoint (hwf : mgr.WellFormed pageSize) (ha : mgr.Held pageSize a)
    (hb : mgr.Held pageSize b) (hne : a ≠ b) :
    Disjoint (range a mgr.trampoSize) (range b mgr.trampoSize) :=
  disjoint_of_apart (Held.fits hwf ha) (Held.fits hwf hb) (hwf.held_apart ha hb hne)

theorem held_dvd (hwf : mgr.WellFormed pageSize) (hsize : mgr.trampoSize = 16)
    (haligned : ∀ p ∈ mgr.pages, 16 ∣ p.ptr.toNat) (ha : mgr.Held pageSize a) :
    16 ∣ a.toNat := by
  obtain ⟨p, hp, i, hi, -, rfl⟩ := ha
  rw [toNat_slot hwf.size (hwf.fits hp) hi, hsize]
  exact Nat.dvd_add (haligned p hp) (Nat.dvd_mul_right 16 i)

namespace Managers

theorem enter_mem (hm : Managers L pageSize s) (he : s.enters.Held pageSize e) :
    Disjoint (range e 256) L.mem := by
  obtain ⟨p, hp, hsub⟩ := held_page hm.enters he
  rw [hm.enterSize] at hsub
  exact (hm.enterPages p hp).mono_left hsub

theorem exit_mem (hm : Managers L pageSize s) (hx : s.exits.Held pageSize x) :
    Disjoint (range x 16) L.mem := by
  obtain ⟨p, hp, hsub⟩ := held_page hm.exits hx
  rw [hm.exitSize] at hsub
  exact (hm.exitPages p hp).mono_left hsub

theorem pages_disjoint (hm : Managers L pageSize s) {p q : ShTrampoPage}
    (hp : p ∈ s.enters.pages) (hq : q ∈ s.exits.pages) :
    Disjoint (range p.ptr pageSize) (range q.ptr pageSize) :=
  disjoint_of_apart (hm.enters.fits hp) (hm.exits.fits hq) (hm.apart p hp q hq)

theorem enter_exit (hm : Managers L pageSize s) (he : s.enters.Held pageSize e)
    (hx : s.exits.Held pageSize x) : Disjoint (range e 256) (range x 16) := by
  obtain ⟨p, hp, hsub⟩ := held_page hm.enters he
  obtain ⟨q, hq, hsub'⟩ := held_page hm.exits hx
  rw [hm.enterSize] at hsub
  rw [hm.exitSize] at hsub'
  exact (hm.pages_disjoint hp hq).mono hsub hsub'

theorem enter_enter (hm : Managers L pageSize s) {e' : Addr} (he : s.enters.Held pageSize e)
    (he' : s.enters.Held pageSize e') (hne : e ≠ e') : Disjoint (range e 256) (range e' 256) := by
  have h := held_disjoint hm.enters he he' hne
  rwa [hm.enterSize] at h

theorem exit_exit (hm : Managers L pageSize s) {x' : Addr} (hx : s.exits.Held pageSize x)
    (hx' : s.exits.Held pageSize x') (hne : x ≠ x') : Disjoint (range x 16) (range x' 16) := by
  have h := held_disjoint hm.exits hx hx' hne
  rwa [hm.exitSize] at h

end Managers

theorem cell_mem (hgap : gap ∈ L.gaps) (hc : Cell gap m a) : range a 16 ⊆ L.mem :=
  fun _ hb => .inr (.inr ⟨gap, hgap, hc.subset hb⟩)

/-- Bytes in use are in the libraries, or in memory that one of the managers has handed out. -/
theorem InUse.cases (hb : InUse L pageSize s b) :
    b ∈ L.mem ∨ (∃ e, s.enters.Held pageSize e ∧ b ∈ range e 256) ∨
      ∃ x, s.exits.Held pageSize x ∧ b ∈ range x 16 := by
  cases hb with
  | code h => exact .inl (.inl h)
  | data h => exact .inl (.inr (.inl h))
  | enter he h => exact .inr (.inl ⟨_, he, h⟩)
  | exit hx h => exact .inr (.inr ⟨_, hx, h⟩)
  | cell hgap hc h => exact .inl (cell_mem hgap hc h)

/-- Memory of an enter trampoline that is new is not in use yet. -/
theorem InUse.not_enter (hm' : Managers L pageSize s') (hexits : s'.exits = s.exits)
    (hnew : ¬ s.enters.Held pageSize e)
    (hheld : ∀ x, s'.enters.Held pageSize x ↔ x = e ∨ s.enters.Held pageSize x)
    (hb : InUse L pageSize s b) : b ∉ range e 256 := by
  have he := (hheld e).mpr (.inl rfl)
  intro hin
  rcases hb.cases with hmem | ⟨e', he', h⟩ | ⟨x, hx, h⟩
  · exact Set.disjoint_left.mp (hm'.enter_mem he) hin hmem
  · have hne : e ≠ e' := fun heq => hnew (heq ▸ he')
    exact Set.disjoint_left.mp (hm'.enter_enter he ((hheld e').mpr (.inr he')) hne) hin h
  · exact Set.disjoint_left.mp (hm'.enter_exit he (hexits ▸ hx)) hin h

/-- Memory of an exit that is new is not in use yet. -/
theorem InUse.not_exit (hm' : Managers L pageSize s') (henters : s'.enters = s.enters)
    (hnew : ¬ s.exits.Held pageSize x)
    (hheld : ∀ y, s'.exits.Held pageSize y ↔ y = x ∨ s.exits.Held pageSize y)
    (hb : InUse L pageSize s b) : b ∉ range x 16 := by
  have hx := (hheld x).mpr (.inl rfl)
  intro hin
  rcases hb.cases with hmem | ⟨e, he, h⟩ | ⟨x', hx', h⟩
  · exact Set.disjoint_left.mp (hm'.exit_mem hx) hin hmem
  · exact Set.disjoint_left.mp (hm'.enter_exit (henters ▸ he) hx) h hin
  · have hne : x ≠ x' := fun heq => hnew (heq ▸ hx')
    exact Set.disjoint_left.mp (hm'.exit_exit hx ((hheld x').mpr (.inr hx')) hne) hin h

theorem InUse.spares_enters (hm : Managers L pageSize s) (hb : InUse L pageSize s b) :
    s.enters.Spares pageSize b := by
  rcases hb.cases with hmem | ⟨e, he, h⟩ | ⟨x, hx, h⟩
  · exact .inr fun p hp hin => Set.disjoint_left.mp (hm.enterPages p hp) hin hmem
  · exact .inl ⟨e, he, by rwa [hm.enterSize]⟩
  · obtain ⟨q, hq, hsub⟩ := held_page hm.exits hx
    rw [hm.exitSize] at hsub
    exact .inr fun p hp hin => Set.disjoint_left.mp (hm.pages_disjoint hp hq) hin (hsub h)

theorem InUse.spares_exits (hm : Managers L pageSize s) (hb : InUse L pageSize s b) :
    s.exits.Spares pageSize b := by
  rcases hb.cases with hmem | ⟨e, he, h⟩ | ⟨x, hx, h⟩
  · exact .inr fun p hp hin => Set.disjoint_left.mp (hm.exitPages p hp) hin hmem
  · obtain ⟨q, hq, hsub⟩ := held_page hm.enters he
    rw [hm.enterSize] at hsub
    exact .inr fun p hp hin => Set.disjoint_left.mp (hm.pages_disjoint hq hp) (hsub h) hin
  · exact .inl ⟨x, hx, by rwa [hm.exitSize]⟩

/-- A new page is not in use. -/
theorem InUse.not_new (hm : Managers L pageSize s) (hnew : NewPage L pageSize s ptr)
    (hb : InUse L pageSize s b) : b ∉ range ptr pageSize := by
  intro hin
  rcases hb.cases with hmem | ⟨e, he, h⟩ | ⟨x, hx, h⟩
  · exact Set.disjoint_left.mp hnew.libraries hin hmem
  · obtain ⟨p, hp, hsub⟩ := held_page hm.enters he
    rw [hm.enterSize] at hsub
    have hapart := disjoint_of_apart hnew.fits (hm.enters.fits hp) (hnew.enters p hp)
    exact Set.disjoint_left.mp hapart hin (hsub h)
  · obtain ⟨p, hp, hsub⟩ := held_page hm.exits hx
    rw [hm.exitSize] at hsub
    have hapart := disjoint_of_apart hnew.fits (hm.exits.fits hp) (hnew.exits p hp)
    exact Set.disjoint_left.mp hapart hin (hsub h)

theorem NewPage.fresh_enters (h : NewPage L pageSize s ptr) : Fresh s.enters pageSize ptr :=
  ⟨h.null, h.fits, h.enters⟩

theorem NewPage.fresh_exits (h : NewPage L pageSize s ptr) : Fresh s.exits pageSize ptr :=
  ⟨h.null, h.fits, h.exits⟩

end Managers

end Koola.Inline
