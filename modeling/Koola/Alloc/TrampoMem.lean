import Koola.Alloc.TrampoRuns
import Mathlib.Order.CompletePartialOrder
import Mathlib.Order.Interval.Set.Disjoint

/-!
# What `sh_trampo` does to the memory

* `range`: pieces of memory.
* `Spares`: the bytes that a manager leaves alone; `Spares.alloc_mem`: it does so.
* `alloc_held`, `free_held`: what is taken after a call; `alloc_pages`, `free_pages`: the pages.
* `alloc_new`: memory that is handed out is zero; **`trampoRuns_alloc`**.
-/

namespace Koola

open A64 ShTrampoMgr

/-- The `n` bytes from `a` on. -/
def range (a : Addr) (n : ℕ) : Set Addr := {b | (b - a).toNat < n}

variable {mgr mgr' : ShTrampoMgr} {trampoPageSize : ℕ} {page : ShTrampoPage}
  {hint low high a b ptr : Addr} {env : AllocEnv} {m m' : Mem} {n i : ℕ} {now : ℤ}

section Range

theorem mem_range_iff (hfits : Fits a n) :
    b ∈ range a n ↔ a.toNat ≤ b.toNat ∧ b.toNat < a.toNat + n := by
  rw [Fits] at hfits
  have hb := b.isLt
  have hsub : (b - a).toNat = (2 ^ 64 - a.toNat + b.toNat) % 2 ^ 64 := BitVec.toNat_sub b a
  rw [range, Set.mem_ofPred_eq, hsub]
  omega

theorem memClear_of_mem (h : b ∈ range a n) : memClear m a n b = 0 := if_pos h

theorem memClear_of_notMem (h : b ∉ range a n) : memClear m a n b = m b := if_neg h

/-- Memory of a page is in the page. -/
theorem slot_subset (hwf : mgr.WellFormed trampoPageSize) (hfits : Fits page.ptr trampoPageSize)
    (hi : i < mgr.count trampoPageSize) (hb : b ∈ range (mgr.slot page i) mgr.trampoSize) :
    b ∈ range page.ptr trampoPageSize := by
  have hbound := slot_bound hi
  have hslot := toNat_slot hwf.size hfits hi
  have hfits' := hfits
  rw [Fits] at hfits'
  rw [mem_range_iff (by rw [Fits, hslot]; omega), hslot] at hb
  rw [mem_range_iff hfits]
  omega

theorem notMem_of_apart (ha : Fits a n) (hb : Fits b n) (h : Apart n a b) {x : Addr}
    (hx : x ∈ range a n) : x ∉ range b n := by
  rw [mem_range_iff ha] at hx
  rw [mem_range_iff hb]
  rw [Apart] at h
  omega

theorem range_disjoint {k : ℕ} (ha : a.toNat + n ≤ b.toNat) (hb : b.toNat + k < 2 ^ 64) :
    Disjoint (range a n) (range b k) := by
  refine Set.disjoint_left.mpr fun x hx hx' => ?_
  rw [mem_range_iff (by rw [Fits]; omega)] at hx hx'
  omega

theorem bytesAt_eq_range (h : 4 * n < 2 ^ 64) : bytesAt a n = range a (4 * n) := by
  ext b
  constructor
  · rintro ⟨i, hi, rfl⟩
    rw [range, Set.mem_ofPred_eq, add_sub_cancel_left, BitVec.toNat_ofNat,
      Nat.mod_eq_of_lt (by omega)]
    exact hi
  · intro hb
    refine ⟨(b - a).toNat, hb, ?_⟩
    rw [BitVec.ofNat_toNat, BitVec.setWidth_eq, add_sub_cancel]

theorem bytesAt_four : bytesAt a 4 = range a 16 := bytesAt_eq_range (n := 4) (by decide)

theorem range_mono {k : ℕ} (h : n ≤ k) : range a n ⊆ range a k := fun _ hb => lt_of_lt_of_le hb h

end Range

/-- **The byte is left alone**: it is memory that is taken, or it is in none of the pages. -/
def ShTrampoMgr.Spares (mgr : ShTrampoMgr) (trampoPageSize : ℕ) (b : Addr) : Prop :=
  (∃ a, mgr.Held trampoPageSize a ∧ b ∈ range a mgr.trampoSize) ∨
    ∀ page ∈ mgr.pages, b ∉ range page.ptr trampoPageSize

section Spares

theorem Held.fits (hwf : mgr.WellFormed trampoPageSize) (ha : mgr.Held trampoPageSize a) :
    Fits a mgr.trampoSize := by
  obtain ⟨page, hpage, i, hi, -, rfl⟩ := ha
  have hfits := hwf.fits hpage
  have hbound := slot_bound hi
  rw [Fits] at hfits
  rw [Fits, toNat_slot hwf.size (hwf.fits hpage) hi]
  omega

theorem slot_fits (hwf : mgr.WellFormed trampoPageSize) (hfits : Fits page.ptr trampoPageSize)
    (hi : i < mgr.count trampoPageSize) : Fits (mgr.slot page i) mgr.trampoSize := by
  have hbound := slot_bound hi
  have hslot := toNat_slot hwf.size hfits hi
  rw [Fits] at hfits
  rw [Fits, hslot]
  omega

/-- **The memory that is kept is left alone** by `sh_trampo_alloc`. -/
theorem ShTrampoMgr.Spares.alloc_mem (hwf : mgr.WellFormed trampoPageSize)
    (hk : mgr.Spares trampoPageSize b)
    (hnew : ∀ ptr, env.mmap = some ptr → b ∉ range ptr trampoPageSize)
    {r : AllocResult} (hout : AllocOutcome mgr trampoPageSize hint low high env m (mgr', m', r)) :
    m' b = m b := by
  cases hout with
  | @again pre post page i hpages hi htake =>
    have hpage : page ∈ mgr.pages := by simp [hpages]
    have hflag : page.flag i = false := by
      rw [canTake, Bool.and_eq_true, Bool.and_eq_true, Bool.not_eq_true'] at htake
      exact htake.1.1
    refine memClear_of_notMem fun hin => ?_
    rcases hk with ⟨a, ha, hb⟩ | hnone
    · exact notMem_of_apart (slot_fits hwf (hwf.fits hpage) hi) (Held.fits hwf ha)
        (hwf.slot_apart_held hpages hi hflag ha).2 hin hb
    · exact hnone page hpage (slot_subset hwf (hwf.fits hpage) hi hin)
  | new hmmap => exact memClear_of_notMem (hnew _ hmmap)
  | null hm =>
    rcases hm with rfl | ⟨ptr, hmmap, rfl⟩
    · rfl
    · exact memClear_of_notMem (hnew _ hmmap)
  | abort hmmap => exact memClear_of_notMem (hnew _ hmmap)

end Spares

/-! ## The memory that is handed out -/

section New

/-- The pool of what a manager has taken now. -/
theorem simulates_held (hwf : mgr.WellFormed trampoPageSize) :
    Simulates mgr trampoPageSize ⟨{a | mgr.Held trampoPageSize a}, fun _ => none⟩ :=
  ⟨hwf, fun _ => Iff.rfl, fun _ _ h => by cases h⟩

/-- **What is taken after `sh_trampo_alloc`.** -/
theorem alloc_held (hwf : mgr.WellFormed trampoPageSize) (hdelay : 0 < mgr.delaySec)
    (hfresh : ∀ ptr, env.mmap = some ptr → Fresh mgr trampoPageSize ptr)
    (hout : AllocOutcome mgr trampoPageSize hint low high env m (mgr', m', .mem a)) :
    mgr'.WellFormed trampoPageSize ∧ ¬ mgr.Held trampoPageSize a ∧
      ∀ b, mgr'.Held trampoPageSize b ↔ b = a ∨ mgr.Held trampoPageSize b := by
  obtain ⟨P', hstep, hsim⟩ := (simulates_held hwf).alloc hdelay hfresh hout
  cases hstep with
  | alloc _ _ hout => exact ⟨hsim.wf, hout, fun b => (hsim.held b).symm⟩

/-- **What is taken after `sh_trampo_free`.** -/
theorem free_held (hwf : mgr.WellFormed trampoPageSize) (hdelay : 0 < mgr.delaySec)
    (ha : mgr.Held trampoPageSize a) (now : ℤ) :
    (shTrampoFree mgr trampoPageSize a now).WellFormed trampoPageSize ∧
      ∀ b, (shTrampoFree mgr trampoPageSize a now).Held trampoPageSize b ↔
        mgr.Held trampoPageSize b ∧ b ≠ a := by
  obtain ⟨P', hstep, hsim⟩ := (simulates_held hwf).free hdelay ha now
  cases hstep with
  | free => exact ⟨hsim.wf, fun b => (hsim.held b).symm⟩

/-- The pages after a call. -/
theorem alloc_pages {r : AllocResult}
    (hout : AllocOutcome mgr trampoPageSize hint low high env m (mgr', m', r)) :
    ∀ p ∈ mgr'.pages, (∃ q ∈ mgr.pages, q.ptr = p.ptr) ∨ env.mmap = some p.ptr := by
  intro p hp
  cases hout with
  | @again pre post page i hpages =>
    simp only [List.mem_append, List.mem_cons] at hp
    rcases hp with hp | rfl | hp
    · exact .inl ⟨p, by simp [hpages, hp], rfl⟩
    · exact .inl ⟨page, by simp [hpages], rfl⟩
    · exact .inl ⟨p, by simp [hpages, hp], rfl⟩
  | new hmmap =>
    rcases List.mem_cons.mp hp with rfl | hp
    · exact .inr hmmap
    · exact .inl ⟨p, hp, rfl⟩
  | null => exact .inl ⟨p, hp, rfl⟩
  | abort hmmap =>
    rcases List.mem_cons.mp hp with rfl | hp
    · exact .inr hmmap
    · exact .inl ⟨p, hp, rfl⟩

theorem free_pages (mgr : ShTrampoMgr) (trampoPageSize : ℕ) (a : Addr) (now : ℤ) :
    ∀ p ∈ (shTrampoFree mgr trampoPageSize a now).pages, ∃ q ∈ mgr.pages, q.ptr = p.ptr := by
  intro p hp
  rcases freeIn_cases mgr trampoPageSize a now mgr.pages with
    ⟨-, hsame⟩ | ⟨pre, page, post, hpages, -, hfree⟩
  · rw [shTrampoFree, hsame] at hp
    exact ⟨p, hp, rfl⟩
  · rw [shTrampoFree, hfree] at hp
    simp only [List.mem_append, List.mem_cons] at hp
    rcases hp with hp | rfl | hp
    · exact ⟨p, by simp [hpages, hp], rfl⟩
    · refine ⟨page, by simp [hpages], ?_⟩
      rw [freed]
      split <;> rfl
    · exact ⟨p, by simp [hpages, hp], rfl⟩

/-- Memory that is handed out is zero. -/
theorem alloc_new (hwf : mgr.WellFormed trampoPageSize)
    (hfresh : ∀ ptr, env.mmap = some ptr → Fresh mgr trampoPageSize ptr)
    (hout : AllocOutcome mgr trampoPageSize hint low high env m (mgr', m', .mem a)) :
    ∀ b ∈ range a mgr.trampoSize, m' b = 0 := by
  cases hout with
  | again => exact fun b hb => memClear_of_mem hb
  | @new ptr i hmmap hi hhit =>
    have hsub : ∀ b ∈ range (mgr.slot (mgr.newPage trampoPageSize ptr) i) mgr.trampoSize,
        b ∈ range (mgr.newPage trampoPageSize ptr).ptr trampoPageSize :=
      fun b hb => slot_subset hwf (hfresh ptr hmmap).fits hi hb
    exact fun b hb => memClear_of_mem (hsub b hb)

/-- **Memory that is handed out is in the range, new and zero, and what is taken is not written
to**, in every run. -/
theorem trampoRuns_alloc {size : ℕ} {delay : ℤ} {es : List (Quarantine.Event Addr)}
    (hsize : 0 < size) (hdelay : 0 < delay)
    (hruns : TrampoRuns trampoPageSize (shTrampoInitMgr size delay) es mgr)
    (hfresh : ∀ ptr, env.mmap = some ptr → Fresh mgr trampoPageSize ptr)
    (halloc : shTrampoAlloc mgr trampoPageSize hint low high env m = (mgr', m', .mem a)) :
    (hint ≠ 0 → hint.toNat - low.toNat ≤ a.toNat ∧ a.toNat ≤ hint.toNat + high.toNat) ∧
      (∀ b ∈ range a mgr.trampoSize, m' b = 0) ∧
      ∀ x, Quarantine.Live es x → x ≠ a ∧ ∀ b ∈ range x mgr.trampoSize, m' b = m b := by
  obtain ⟨P, hP, hsim, -, hdelay'⟩ := trampoRuns_refine hsize hdelay hruns
  have hwf := hsim.wf
  have hout := allocOutcome mgr trampoPageSize hint low high env m
  rw [halloc] at hout
  refine ⟨fun hne => shTrampoAlloc_range hne halloc, alloc_new hwf hfresh hout, fun x hx => ?_⟩
  have hheld : mgr.Held trampoPageSize x := held_of_live hsize hdelay hruns hx
  refine ⟨?_, fun b hb => ?_⟩
  · rintro rfl
    exact (alloc_held hwf (hdelay' ▸ hdelay) hfresh hout).2.1 hheld
  · refine ShTrampoMgr.Spares.alloc_mem hwf (.inl ⟨x, hheld, hb⟩) (fun ptr hptr hin => ?_) hout
    -- what is taken is in a page, and a new page is apart from it
    obtain ⟨page, hpage, i, hi, -, rfl⟩ := hheld
    have hnew := hfresh ptr hptr
    exact notMem_of_apart hnew.fits (hwf.fits hpage) (hnew.apart page hpage) hin
      (slot_subset hwf (hwf.fits hpage) hi hb)

theorem trampoRuns_alloc_thirdSlot : ∃ mgr : ShTrampoMgr, ∃ m' : Mem,
    (∀ b ∈ range 0x40200 mgr.trampoSize, m' b = 0) ∧
      ∀ b ∈ range 0x40100 mgr.trampoSize, m' b = 1 := by
  obtain ⟨mgr, -, hruns, hmem, -⟩ := exists_reuse
  have halloc : shTrampoAlloc mgr 4096 0x40000 0 0x1000 ⟨102, none, true, true, true⟩ (fun _ => 1) =
      (_, _, .mem 0x40200) := Prod.ext rfl (Prod.ext rfl hmem)
  have hnone : ∀ ptr, (none : Option Addr) = some ptr → Fresh mgr 4096 ptr := nofun
  obtain ⟨-, hzero, hkeep⟩ := trampoRuns_alloc (by decide) (by decide) hruns hnone halloc
  exact ⟨mgr, _, hzero, (hkeep 0x40100 ⟨101, rfl⟩).2⟩

end New

end Koola
