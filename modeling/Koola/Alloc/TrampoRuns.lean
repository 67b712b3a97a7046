import Koola.Alloc.TrampoPages
import Koola.Lib.Quarantine

/-!
# Runs of `sh_trampo`

* `Simulates`: the manager as a pool with a quarantine.
* `Simulates.alloc`, `Simulates.free`: a call is a step of the pool.
* **`shTrampoAlloc_no_abort`**: new pages have memory in the range.
* `TrampoRuns`: runs of the manager; `trampoRuns_refine`; **`trampoRuns_apart`**,
  **`trampoRuns_reuse`**.
-/

namespace Koola

open A64 ShTrampoMgr

/-- **The manager as a pool**: the memory that is taken is what the pool holds, and the timestamps
are those of the pool. -/
structure Simulates (mgr : ShTrampoMgr) (trampoPageSize : ℕ) (P : Quarantine.Pool Addr) : Prop where
  wf : mgr.WellFormed trampoPageSize
  held : ∀ a, a ∈ P.held ↔ mgr.Held trampoPageSize a
  freed : ∀ a t, P.freedAt a = some t → ∃ page ∈ mgr.pages,
    ∃ i < mgr.count trampoPageSize, a = mgr.slot page i ∧ page.timestamp i = t

/-- What `mmap` promises: a new page that is apart from all others. -/
structure Fresh (mgr : ShTrampoMgr) (trampoPageSize : ℕ) (ptr : Addr) : Prop where
  null : ptr ≠ 0
  fits : Fits ptr trampoPageSize
  apart : ∀ page ∈ mgr.pages, Apart trampoPageSize ptr page.ptr

variable {mgr : ShTrampoMgr} {trampoPageSize : ℕ} {P : Quarantine.Pool Addr}
  {page : ShTrampoPage} {pre post : List ShTrampoPage} {i : ℕ} {now : ℤ} {ptr : Addr}

section Steps

/-- Memory that the pool does not hold is taken. -/
theorem Simulates.take (hsim : Simulates mgr trampoPageSize P)
    (hpages : mgr.pages = pre ++ page :: post) (hi : i < mgr.count trampoPageSize)
    (hflag : page.flag i = false)
    (hrested : ∀ t, P.freedAt (mgr.slot page i) = some t → t + mgr.delaySec < now) :
    ∃ P', Quarantine.Step (Apart mgr.trampoSize) mgr.delaySec P (.alloc (mgr.slot page i) now) P' ∧
      Simulates { mgr with pages := pre ++ page.setFlag i :: post } trampoPageSize P' := by
  have hwf := hsim.wf
  have hwf' := hwf.replace (page.setFlag i) hpages rfl length_setFlag rfl
  have hout : ¬ mgr.Held trampoPageSize (mgr.slot page i) :=
    fun h => (hwf.slot_apart_held hpages hi hflag h).1 rfl
  refine ⟨_, .alloc (mgr.slot page i) now ((hsim.held _).not.mpr hout) (fun b hb => ?_) hrested,
    hwf', fun a => ?_, fun a t ht => ?_⟩
  · exact (hwf.slot_apart_held hpages hi hflag ((hsim.held b).mp hb)).2
  · rw [held_setFlag hwf hpages hi, ← hsim.held]
    exact Set.mem_insert_iff
  · obtain ⟨q, hq, j, hj, ha, htime⟩ := hsim.freed a t ht
    rw [hpages, List.mem_append, List.mem_cons] at hq
    rcases hq with hq | rfl | hq
    · exact ⟨q, List.mem_append_left _ hq, j, hj, ha, htime⟩
    · exact ⟨q.setFlag i, by simp, j, hj, ha, htime⟩
    · exact ⟨q, List.mem_append_right _ (List.mem_cons_of_mem _ hq), j, hj, ha, htime⟩

theorem flag_newPage (i : ℕ) : (mgr.newPage trampoPageSize ptr).flag i = false := by
  have hword : ∀ n k : ℕ, (List.replicate n (0 : BitVec 32)).getD k 0 = 0 := by
    intro n k
    rw [List.getD_eq_getElem?_getD, List.getElem?_replicate]
    split <;> rfl
  rw [flag_eq, ShTrampoMgr.newPage, hword]
  exact BitVec.getLsbD_zero

/-- A new page with nothing taken. -/
theorem Simulates.newPage (hsim : Simulates mgr trampoPageSize P)
    (hfresh : Fresh mgr trampoPageSize ptr) :
    Simulates { mgr with pages := mgr.newPage trampoPageSize ptr :: mgr.pages }
      trampoPageSize P := by
  have hwf := hsim.wf
  refine ⟨⟨hwf.size, ?_, ?_⟩, fun a => ?_, fun a t ht => ?_⟩
  · intro p hp
    rcases List.mem_cons.mp hp with rfl | hp
    · refine ⟨hfresh.null, hfresh.fits, ?_, fun hdelay => ?_⟩
      · rw [ShTrampoMgr.newPage, List.length_replicate, shUtilAlignEnd]
        change mgr.count trampoPageSize ≤ _
        omega
      · change 0 < mgr.delaySec at hdelay
        rw [ShTrampoMgr.newPage, if_pos hdelay, List.length_replicate]
        rfl
    · exact (hwf.good p hp).of_pages _
  · exact List.pairwise_cons.mpr ⟨hfresh.apart, hwf.apart⟩
  · rw [hsim.held]
    constructor
    · rintro ⟨q, hq, j, hj, hflag, ha⟩
      exact ⟨q, List.mem_cons_of_mem _ hq, j, hj, hflag, ha⟩
    · rintro ⟨q, hq, j, hj, hflag, ha⟩
      rcases List.mem_cons.mp hq with rfl | hq
      · rw [flag_newPage] at hflag
        cases hflag
      · exact ⟨q, hq, j, hj, hflag, ha⟩
  · obtain ⟨q, hq, hrest⟩ := hsim.freed a t ht
    exact ⟨q, List.mem_cons_of_mem _ hq, hrest⟩

theorem pageHas_iff (hfits : Fits page.ptr trampoPageSize) {a : Addr} :
    PageHas trampoPageSize page a ↔
      page.ptr.toNat ≤ a.toNat ∧ a.toNat < page.ptr.toNat + trampoPageSize := by
  rw [PageHas, BitVec.le_def, BitVec.lt_def, toNat_add_ofNat hfits]

theorem pageHas_slot (hwf : mgr.WellFormed trampoPageSize) (hpage : page ∈ mgr.pages)
    (hi : i < mgr.count trampoPageSize) : PageHas trampoPageSize page (mgr.slot page i) := by
  have hbound := slot_bound hi
  have hsize := hwf.size
  rw [pageHas_iff (hwf.fits hpage), toNat_slot hsize (hwf.fits hpage) hi]
  omega

/-- Memory is in one page only. -/
theorem pageHas_unique (hwf : mgr.WellFormed trampoPageSize) {p q : ShTrampoPage} {a : Addr}
    (hp : p ∈ mgr.pages) (hq : q ∈ mgr.pages) (hpa : PageHas trampoPageSize p a)
    (hqa : PageHas trampoPageSize q a) : p = q := by
  by_contra hne
  have hapart := hwf.pages_apart hp hq hne
  rw [pageHas_iff (hwf.fits hp)] at hpa
  rw [pageHas_iff (hwf.fits hq)] at hqa
  rw [Apart] at hapart
  omega

theorem slot_index (hwf : mgr.WellFormed trampoPageSize) (hpage : page ∈ mgr.pages)
    (hi : i < mgr.count trampoPageSize) :
    (mgr.slot page i - page.ptr).toNat / mgr.trampoSize = i := by
  have hbound := slot_bound hi
  have hfits := hwf.fits hpage
  rw [Fits] at hfits
  rw [slot, add_sub_cancel_left, BitVec.toNat_ofNat, Nat.mod_eq_of_lt (by omega),
    Nat.mul_div_cancel_left i hwf.size]

/-- What `sh_trampo_free` does with memory that is taken. -/
theorem shTrampoFree_slot (hwf : mgr.WellFormed trampoPageSize) (hdelay : 0 < mgr.delaySec)
    (hpage : page ∈ mgr.pages) (hi : i < mgr.count trampoPageSize) (now : ℤ) :
    ∃ pre post, mgr.pages = pre ++ page :: post ∧
      shTrampoFree mgr trampoPageSize (mgr.slot page i) now =
        { mgr with pages := pre ++ (page.setTimestamp i now).clearFlag i :: post } := by
  have hhas := pageHas_slot hwf hpage hi
  rcases freeIn_cases mgr trampoPageSize (mgr.slot page i) now mgr.pages with
    ⟨hnone, -⟩ | ⟨pre, page', post, hpages, hhas', hfree⟩
  · exact absurd hhas (hnone page hpage)
  · obtain rfl := pageHas_unique hwf (by simp [hpages]) hpage hhas' hhas
    refine ⟨pre, post, hpages, ?_⟩
    rw [shTrampoFree, hfree, freed, slot_index hwf hpage hi, if_pos hdelay]

/-- Memory that the pool holds comes back. -/
theorem Simulates.free (hsim : Simulates mgr trampoPageSize P) (hdelay : 0 < mgr.delaySec)
    {a : Addr} (ha : mgr.Held trampoPageSize a) (now : ℤ) :
    ∃ P', Quarantine.Step (Apart mgr.trampoSize) mgr.delaySec P (.free a now) P' ∧
      Simulates (shTrampoFree mgr trampoPageSize a now) trampoPageSize P' := by
  have hwf := hsim.wf
  refine ⟨_, .free a now ((hsim.held a).mpr ha), ?_⟩
  obtain ⟨page, hpage, k, hk, -, rfl⟩ := ha
  obtain ⟨pre, post, hpages, hfree⟩ := shTrampoFree_slot hwf hdelay hpage hk now
  have htimes := (hwf.good page hpage).timestamps hdelay
  have hlen : ((page.setTimestamp k now).clearFlag k).flags.length = page.flags.length :=
    List.length_modify _ _ _
  rw [hfree]
  refine ⟨hwf.replace _ hpages rfl hlen List.length_set, fun b => ?_, fun b t ht => ?_⟩
  · rw [held_clearFlag hwf ((page.setTimestamp k now).clearFlag k) hpages hk rfl rfl, ← hsim.held]
    exact Set.mem_sdiff_singleton
  · change Function.update P.freedAt (mgr.slot page k) (some now) b = some t at ht
    by_cases hb : b = mgr.slot page k
    · subst hb
      rw [Function.update_self] at ht
      cases ht
      refine ⟨(page.setTimestamp k now).clearFlag k, by simp, k, hk, rfl, ?_⟩
      change (page.timestamps.set k now).getD k 0 = now
      rw [List.getD_eq_getElem?_getD, List.getElem?_set_self (htimes ▸ hk), Option.getD_some]
    · rw [Function.update_of_ne hb] at ht
      obtain ⟨q, hq, j, hj, rfl, htime⟩ := hsim.freed b t ht
      rw [hpages, List.mem_append, List.mem_cons] at hq
      rcases hq with hq | rfl | hq
      · exact ⟨q, List.mem_append_left _ hq, j, hj, rfl, htime⟩
      · refine ⟨(q.setTimestamp k now).clearFlag k, by simp, j, hj, rfl, ?_⟩
        have hne : k ≠ j := by
          rintro rfl
          exact hb rfl
        change (q.timestamps.set k now).getD j 0 = t
        rw [List.getD_eq_getElem?_getD, List.getElem?_set_ne hne, ← List.getD_eq_getElem?_getD]
        exact htime
      · exact ⟨q, List.mem_append_right _ (List.mem_cons_of_mem _ hq), j, hj, rfl, htime⟩

end Steps

/-! ## `sh_trampo_alloc` -/

/-- The new page is in the range. -/
def NewInRange (mgr : ShTrampoMgr) (trampoPageSize : ℕ) (hint low high ptr : Addr) : Prop :=
  ¬ (hint > 0 ∧
    (hint - low ≥ ptr + BitVec.ofNat 64 trampoPageSize - BitVec.ofNat 64 mgr.trampoSize ∨
      hint + high < ptr))

/-- **The outcome of `sh_trampo_alloc`**: memory that rested is used again, memory of a new page is
used, there is none, or no memory of a new page is in the range. -/
inductive AllocOutcome (mgr : ShTrampoMgr) (trampoPageSize : ℕ) (hint low high : Addr)
    (env : AllocEnv) (m : Mem) : ShTrampoMgr × Mem × AllocResult → Prop
  | again {pre post : List ShTrampoPage} {page : ShTrampoPage} {i : ℕ} :
      mgr.pages = pre ++ page :: post → i < mgr.count trampoPageSize →
      mgr.canTake page env.now hint low high i = true →
      AllocOutcome mgr trampoPageSize hint low high env m
        ({ mgr with pages := pre ++ page.setFlag i :: post },
          memClear m (mgr.slot page i) mgr.trampoSize, .mem (mgr.slot page i))
  | new {ptr : Addr} {i : ℕ} : env.mmap = some ptr → i < mgr.count trampoPageSize →
      hitRange hint low high (mgr.slot (mgr.newPage trampoPageSize ptr) i) = true →
      AllocOutcome mgr trampoPageSize hint low high env m
        ({ mgr with pages := (mgr.newPage trampoPageSize ptr).setFlag i :: mgr.pages },
          memClear m ptr trampoPageSize, .mem (mgr.slot (mgr.newPage trampoPageSize ptr) i))
  | null {m' : Mem} : m' = m ∨ (∃ ptr, env.mmap = some ptr ∧ m' = memClear m ptr trampoPageSize) →
      AllocOutcome mgr trampoPageSize hint low high env m (mgr, m', .null)
  | abort {ptr : Addr} : env.mmap = some ptr → NewInRange mgr trampoPageSize hint low high ptr →
      (∀ i < mgr.count trampoPageSize,
        hitRange hint low high (mgr.slot (mgr.newPage trampoPageSize ptr) i) = false) →
      AllocOutcome mgr trampoPageSize hint low high env m
        ({ mgr with pages := mgr.newPage trampoPageSize ptr :: mgr.pages },
          memClear m ptr trampoPageSize, .abort)

variable {hint low high : Addr} {env : AllocEnv} {m : Mem}

theorem allocOutcome (mgr : ShTrampoMgr) (trampoPageSize : ℕ) (hint low high : Addr)
    (env : AllocEnv) (m : Mem) :
    AllocOutcome mgr trampoPageSize hint (clampLow hint low) (clampHigh hint high) env m
      (shTrampoAlloc mgr trampoPageSize hint low high env m) := by
  rw [shTrampoAlloc]
  simp only
  cases hfind : mgr.findUnused trampoPageSize env.now hint (clampLow hint low)
      (clampHigh hint high) mgr.pages with
  | some found =>
    obtain ⟨pre, page, post, i, hpages, hpages', hi, htake, hmem⟩ := findUnused_some hfind
    obtain ⟨pages, mem⟩ := found
    cases hpages'
    cases hmem
    exact .again hpages hi htake
  | none =>
    cases hmmap : env.mmap with
    | none => exact .null (.inl rfl)
    | some ptr =>
      simp only
      split
      · exact .null (.inl rfl)
      · rename_i hrange
        split
        · exact .null (.inl rfl)
        · split
          · exact .null (.inr ⟨ptr, hmmap, rfl⟩)
          · split
            · rename_i i hi
              have hhit := List.find?_some hi
              exact .new hmmap (List.mem_range.mp (List.mem_of_find?_eq_some hi)) hhit
            · rename_i hnone
              refine .abort hmmap hrange fun i hi => ?_
              have hno := List.find?_eq_none.mp hnone i (List.mem_range.mpr hi)
              exact Bool.eq_false_of_not_eq_true hno

/-- What memory that may be taken has rested for. -/
theorem canTake_rested (hdelay : 0 < mgr.delaySec)
    (htake : mgr.canTake page now hint low high i = true) :
    page.flag i = false ∧ page.timestamp i + mgr.delaySec < now := by
  rw [canTake, Bool.and_eq_true, Bool.and_eq_true, Bool.not_eq_true'] at htake
  obtain ⟨⟨hflag, hrested⟩, -⟩ := htake
  rw [rested, decide_eq_true hdelay, Bool.true_and, Bool.not_eq_true', Bool.or_eq_false_iff,
    decide_eq_false_iff_not, decide_eq_false_iff_not] at hrested
  exact ⟨hflag, by omega⟩

/-- **Memory that is handed out** is a step of the pool. -/
theorem Simulates.alloc (hsim : Simulates mgr trampoPageSize P) (hdelay : 0 < mgr.delaySec)
    (hfresh : ∀ ptr, env.mmap = some ptr → Fresh mgr trampoPageSize ptr) {mgr' : ShTrampoMgr}
    {m' : Mem} {a : Addr}
    (hout : AllocOutcome mgr trampoPageSize hint low high env m (mgr', m', .mem a)) :
    ∃ P', Quarantine.Step (Apart mgr.trampoSize) mgr.delaySec P (.alloc a env.now) P' ∧
      Simulates mgr' trampoPageSize P' := by
  have hwf := hsim.wf
  cases hout with
  | again hpages hi htake =>
    obtain ⟨hflag, hrested⟩ := canTake_rested hdelay htake
    refine hsim.take hpages hi hflag fun t ht => ?_
    obtain ⟨q, hq, j, hj, heq, rfl⟩ := hsim.freed _ t ht
    obtain ⟨rfl, rfl⟩ := hwf.page_eq (by simp [hpages]) hq hi hj heq
    exact hrested
  | @new ptr i hmmap hi hhit =>
    have hfresh := hfresh ptr hmmap
    have hnew := hsim.newPage hfresh
    refine hnew.take (List.nil_append _).symm hi (flag_newPage i) fun t ht => ?_
    -- memory of the new page never was in the pool
    obtain ⟨q, hq, j, hj, heq, -⟩ := hsim.freed _ t ht
    have hslots := slot_apart_pages hwf.size (p := mgr.newPage trampoPageSize ptr) hfresh.fits
      (hwf.fits hq) (hfresh.apart q hq) hi hj
    have hsize := hwf.size
    change mgr.slot (mgr.newPage trampoPageSize ptr) i = _ at heq
    rw [heq, Apart] at hslots
    omega

/-! ## The range -/

section Range

theorem toNat_low (hint low : Addr) :
    (hint - clampLow hint low).toNat = hint.toNat - low.toNat := by
  rw [clampLow]
  split
  · rename_i hlt
    rw [gt_iff_lt, BitVec.lt_def] at hlt
    rw [sub_self, show (0 : Addr).toNat = 0 from rfl]
    omega
  · rename_i hle
    rw [gt_iff_lt, BitVec.lt_def, not_lt] at hle
    exact BitVec.toNat_sub_of_le (BitVec.le_def.mpr hle)

theorem toNat_high (hint high : Addr) :
    (hint + clampHigh hint high).toNat = min (hint.toNat + high.toNat) (2 ^ 64 - 1) := by
  have hmax : (0xFFFFFFFFFFFFFFFF - hint).toNat = 2 ^ 64 - 1 - hint.toNat :=
    BitVec.toNat_sub_of_le (BitVec.le_def.mpr (by have := hint.isLt; exact Nat.le_pred_of_lt this))
  have hhint := hint.isLt
  rw [clampHigh]
  split
  · rename_i hlt
    rw [gt_iff_lt, BitVec.lt_def, hmax] at hlt
    rw [BitVec.toNat_add, hmax]
    omega
  · rename_i hle
    rw [gt_iff_lt, BitVec.lt_def, hmax, not_lt] at hle
    rw [BitVec.toNat_add]
    omega

theorem hitRange_iff {a : Addr} :
    hitRange hint (clampLow hint low) (clampHigh hint high) a = true ↔
      hint = 0 ∨ (hint.toNat - low.toNat ≤ a.toNat ∧ a.toNat ≤ hint.toNat + high.toNat) := by
  have hpos : hint > 0 ↔ hint ≠ 0 := BitVec.pos_iff_ne_zero hint
  have ha := a.isLt
  rw [hitRange, Bool.not_eq_true', ← Bool.not_eq_true, Bool.and_eq_true, Bool.or_eq_true,
    decide_eq_true_iff, decide_eq_true_iff, decide_eq_true_iff, hpos, BitVec.lt_def, BitVec.lt_def,
    toNat_low, toNat_high]
  by_cases hzero : hint = 0
  · simp [hzero]
  · simp only [hzero, ne_eq, not_false_eq_true, true_and, false_or]
    omega

/-- **Memory that is handed out is in the range.** -/
theorem shTrampoAlloc_range {a : Addr} {mgr' : ShTrampoMgr} {m' : Mem} (hint0 : hint ≠ 0)
    (h : shTrampoAlloc mgr trampoPageSize hint low high env m = (mgr', m', .mem a)) :
    hint.toNat - low.toNat ≤ a.toNat ∧ a.toNat ≤ hint.toNat + high.toNat := by
  have hout := allocOutcome mgr trampoPageSize hint low high env m
  rw [h] at hout
  cases hout with
  | again hpages hi htake =>
    rw [canTake, Bool.and_eq_true] at htake
    exact (hitRange_iff.mp htake.2).resolve_left hint0
  | new hmmap hi hhit => exact (hitRange_iff.mp hhit).resolve_left hint0

/-- The first multiple of `n` from `d` on. -/
theorem exists_multiple {n d k : ℕ} (hn : 0 < n) (hd : d + n ≤ n * k) :
    ∃ i < k, d ≤ n * i ∧ n * i < d + n := by
  have hle : n * ((d + n - 1) / n) ≤ d + n - 1 := Nat.mul_div_le _ _
  have hlt : d + n - 1 < n * ((d + n - 1) / n) + n := by
    have hsucc := Nat.lt_mul_div_succ (d + n - 1) hn
    rwa [mul_add, mul_one] at hsucc
  refine ⟨(d + n - 1) / n, Nat.lt_of_mul_lt_mul_left (a := n) ?_, by omega, by omega⟩
  omega

/-- **A new page always has memory in the range**, if the range goes down from the hint by the size
of the memory: the process is not aborted. -/
theorem shTrampoAlloc_no_abort (hsize : 0 < mgr.trampoSize) (hdvd : mgr.trampoSize ∣ trampoPageSize)
    (hpos : 0 < trampoPageSize) (hfits : ∀ ptr, env.mmap = some ptr → Fits ptr trampoPageSize)
    (hwide : hint ≠ 0 → mgr.trampoSize ≤ low.toNat + 1) :
    (shTrampoAlloc mgr trampoPageSize hint low high env m).2.2 ≠ .abort := by
  intro habort
  have hout := allocOutcome mgr trampoPageSize hint low high env m
  generalize shTrampoAlloc mgr trampoPageSize hint low high env m = res at hout habort
  cases hout with
  | again | new | null => cases habort
  | @abort ptr hmmap hrange hnone =>
    obtain ⟨k, rfl⟩ := hdvd
    have hk : 0 < k := Nat.pos_of_mul_pos_left hpos
    have hcount : mgr.count (mgr.trampoSize * k) = k := Nat.mul_div_cancel_left k hsize
    have hfits := hfits ptr hmmap
    rw [hcount] at hnone
    have hmiss : ∀ i < k, hint ≠ 0 ∧ ¬ (hint.toNat - low.toNat ≤ ptr.toNat + mgr.trampoSize * i ∧
        ptr.toNat + mgr.trampoSize * i ≤ hint.toNat + high.toNat) := by
      intro i hi
      have hno := Bool.eq_false_iff.mp (hnone i hi)
      rw [Ne, hitRange_iff, not_or, toNat_slot hsize hfits (by rwa [hcount])] at hno
      exact hno
    have hint0 := (hmiss 0 hk).1
    have hsize_le : mgr.trampoSize ≤ mgr.trampoSize * k := Nat.le_mul_of_pos_right _ hk
    have hfits' := hfits
    rw [Fits] at hfits'
    have hlast : (ptr + BitVec.ofNat 64 (mgr.trampoSize * k) -
        BitVec.ofNat 64 mgr.trampoSize).toNat =
          ptr.toNat + mgr.trampoSize * k - mgr.trampoSize := by
      have hend := toNat_add_ofNat hfits'
      have hone : (BitVec.ofNat 64 mgr.trampoSize).toNat = mgr.trampoSize := by
        rw [BitVec.toNat_ofNat, Nat.mod_eq_of_lt (by omega)]
      rw [BitVec.toNat_sub_of_le (by rw [BitVec.le_def, hend, hone]; omega), hend, hone]
    rw [NewInRange, not_and, not_or, ge_iff_le, BitVec.le_def, BitVec.lt_def, toNat_low, toNat_high,
      hlast] at hrange
    have hrange := hrange ((BitVec.pos_iff_ne_zero hint).mpr hint0)
    have hptr := ptr.isLt
    have hwide := hwide hint0
    by_cases hfirst : hint.toNat - low.toNat ≤ ptr.toNat
    · exact (hmiss 0 hk).2 (by omega)
    · obtain ⟨i, hi, hle, hlt⟩ := exists_multiple (d := hint.toNat - low.toNat - ptr.toNat)
        (k := k) hsize (by omega)
      exact (hmiss i hi).2 (by omega)

theorem shTrampoAlloc_no_abort_exits :
    (shTrampoAlloc (shTrampoInitMgr 16 2) 4096 0x10000 134217728 134217724
      ⟨100, some 0x50000, true, true, true⟩ fun _ => 0).2.2 ≠ .abort := by
  refine shTrampoAlloc_no_abort (by decide) (by decide) (by decide) ?_ fun _ => by decide
  rintro ptr ⟨⟩
  rw [Fits]
  decide

end Range

/-! ## Runs -/

/-- **The runs of a manager**, and what happens to the memory. Callers free memory that they got;
`mmap` makes new pages. -/
inductive TrampoRuns (trampoPageSize : ℕ) (mgr : ShTrampoMgr) :
    List (Quarantine.Event Addr) → ShTrampoMgr → Prop
  | nil : TrampoRuns trampoPageSize mgr [] mgr
  | alloc {es : List (Quarantine.Event Addr)} {mgr' mgr'' : ShTrampoMgr} {hint low high a : Addr}
      {env : AllocEnv} {m m' : Mem} : TrampoRuns trampoPageSize mgr es mgr' →
      (∀ ptr, env.mmap = some ptr → Fresh mgr' trampoPageSize ptr) →
      shTrampoAlloc mgr' trampoPageSize hint low high env m = (mgr'', m', .mem a) →
      TrampoRuns trampoPageSize mgr (es ++ [.alloc a env.now]) mgr''
  | refused {es : List (Quarantine.Event Addr)} {mgr' mgr'' : ShTrampoMgr} {hint low high : Addr}
      {env : AllocEnv} {m m' : Mem} : TrampoRuns trampoPageSize mgr es mgr' →
      shTrampoAlloc mgr' trampoPageSize hint low high env m = (mgr'', m', .null) →
      TrampoRuns trampoPageSize mgr es mgr''
  | free {es : List (Quarantine.Event Addr)} {mgr' : ShTrampoMgr} {a : Addr} {now : ℤ} :
      TrampoRuns trampoPageSize mgr es mgr' → mgr'.Held trampoPageSize a →
      TrampoRuns trampoPageSize mgr (es ++ [.free a now]) (shTrampoFree mgr' trampoPageSize a now)

/-- A call does not change the size of the memory and the delay. -/
theorem AllocOutcome.sizes {res : ShTrampoMgr × Mem × AllocResult}
    (h : AllocOutcome mgr trampoPageSize hint low high env m res) :
    res.1.trampoSize = mgr.trampoSize ∧ res.1.delaySec = mgr.delaySec := by
  cases h with
  | again | new | null | abort => exact ⟨rfl, rfl⟩

theorem simulates_init {size : ℕ} {delay : ℤ} (hsize : 0 < size) :
    Simulates (shTrampoInitMgr size delay) trampoPageSize .empty := by
  refine ⟨⟨?_, fun _ h => absurd h List.not_mem_nil, .nil⟩, fun a => ?_, fun a t ht => ?_⟩
  · rw [shTrampoInitMgr, shUtilAlignEnd]
    change 0 < (size + 4 - 1) / 4 * 4
    omega
  · exact iff_of_false (Set.notMem_empty a) fun ⟨_, hpage, _⟩ => absurd hpage List.not_mem_nil
  · cases ht

/-- **Every run of the manager is a run of a pool with a quarantine.** -/
theorem trampoRuns_refine {size : ℕ} {delay : ℤ} {es : List (Quarantine.Event Addr)}
    (hsize : 0 < size) (hdelay : 0 < delay)
    (hruns : TrampoRuns trampoPageSize (shTrampoInitMgr size delay) es mgr) :
    ∃ P, Quarantine.Runs (Apart (shUtilAlignEnd size 4)) delay .empty es P ∧
      Simulates mgr trampoPageSize P ∧ mgr.trampoSize = shUtilAlignEnd size 4 ∧
      mgr.delaySec = delay := by
  induction hruns with
  | nil => exact ⟨_, .nil, simulates_init hsize, rfl, rfl⟩
  | @alloc es mgr' mgr'' hint low high a env m m' hruns hfresh halloc ih =>
    obtain ⟨P, hP, hsim, hsz, hd⟩ := ih
    have hout := allocOutcome mgr' trampoPageSize hint low high env m
    rw [halloc] at hout
    obtain ⟨P', hstep, hsim'⟩ := hsim.alloc (hd ▸ hdelay) hfresh hout
    rw [hsz, hd] at hstep
    exact ⟨P', .snoc hP hstep, hsim', hout.sizes.1.trans hsz, hout.sizes.2.trans hd⟩
  | @refused es mgr' mgr'' hint low high env m m' hruns halloc ih =>
    obtain ⟨P, hP, hsim, hsz, hd⟩ := ih
    have hout := allocOutcome mgr' trampoPageSize hint low high env m
    rw [halloc] at hout
    cases hout with
    | null => exact ⟨P, hP, hsim, hsz, hd⟩
  | @free es mgr' a now hruns hheld ih =>
    obtain ⟨P, hP, hsim, hsz, hd⟩ := ih
    obtain ⟨P', hstep, hsim'⟩ := hsim.free (hd ▸ hdelay) hheld now
    rw [hsz, hd] at hstep
    exact ⟨P', .snoc hP hstep, hsim', hsz, hd⟩

/-- Memory that was handed out and not given back is taken. -/
theorem held_of_live {size : ℕ} {delay : ℤ} {es : List (Quarantine.Event Addr)} {a : Addr}
    (hsize : 0 < size) (hdelay : 0 < delay)
    (hruns : TrampoRuns trampoPageSize (shTrampoInitMgr size delay) es mgr)
    (ha : Quarantine.Live es a) : mgr.Held trampoPageSize a := by
  obtain ⟨P, hP, hsim, -⟩ := trampoRuns_refine hsize hdelay hruns
  exact (hsim.held a).mp (hP.held_iff.mpr ha)

/-- A call without a range. -/
theorem TrampoRuns.allocAny {es : List (Quarantine.Event Addr)} {mgr' : ShTrampoMgr} {a : Addr}
    (hruns : TrampoRuns trampoPageSize mgr es mgr') (env : AllocEnv)
    (hfresh : ∀ ptr, env.mmap = some ptr → Fresh mgr' trampoPageSize ptr)
    (h : (shTrampoAlloc mgr' trampoPageSize 0 0 0 env fun _ => 0).2.2 = .mem a) :
    TrampoRuns trampoPageSize mgr (es ++ [.alloc a env.now])
      (shTrampoAlloc mgr' trampoPageSize 0 0 0 env fun _ => 0).1 :=
  .alloc hruns hfresh (Prod.ext rfl (Prod.ext rfl h))

/-- Two runs; in the longer one memory is used again. -/
theorem exists_reuse : ∃ mgr mgr', TrampoRuns 4096 (shTrampoInitMgr 256 10)
      [.alloc 0x40000 100, .alloc 0x40100 101] mgr ∧
    (shTrampoAlloc mgr 4096 0x40000 0 0x1000 ⟨102, none, true, true, true⟩ fun _ => 1).2.2 =
      .mem 0x40200 ∧
    TrampoRuns 4096 (shTrampoInitMgr 256 10)
      [.alloc 0x40000 100, .alloc 0x40100 101, .free 0x40000 105, .alloc 0x40000 116] mgr' := by
  have hfresh : Fresh (shTrampoInitMgr 256 10) 4096 0x40000 :=
    ⟨by decide, by rw [Fits]; decide, fun _ h => absurd h List.not_mem_nil⟩
  have hnone : ∀ {mgr : ShTrampoMgr}, ∀ ptr, (none : Option Addr) = some ptr →
      Fresh mgr 4096 ptr := fun ptr hptr => absurd hptr.symm (Option.some_ne_none ptr)
  have hfirst := TrampoRuns.nil.allocAny ⟨100, some 0x40000, true, true, true⟩
    (by rintro ptr ⟨⟩; exact hfresh) (a := 0x40000) (by decide +kernel)
  have hsecond := hfirst.allocAny ⟨101, none, true, true, true⟩ hnone (a := 0x40100)
    (by decide +kernel)
  have hheld : ShTrampoMgr.Held _ 4096 0x40000 :=
    held_of_live (by decide) (by decide) hsecond ⟨100, rfl⟩
  have hfreed : TrampoRuns 4096 (shTrampoInitMgr 256 10)
      [.alloc 0x40000 100, .alloc 0x40100 101, .free 0x40000 105] _ := .free hsecond hheld
  exact ⟨_, _, hsecond, by decide +kernel,
    hfreed.allocAny ⟨116, none, true, true, true⟩ hnone (by decide +kernel)⟩

/-- **Memory that is handed out and not given back is apart**, in every run. -/
theorem trampoRuns_apart {size : ℕ} {delay : ℤ} {es : List (Quarantine.Event Addr)} {a b : Addr}
    (hsize : 0 < size) (hdelay : 0 < delay)
    (hruns : TrampoRuns trampoPageSize (shTrampoInitMgr size delay) es mgr)
    (ha : Quarantine.Live es a) (hb : Quarantine.Live es b) (hne : a ≠ b) :
    Apart (shUtilAlignEnd size 4) a b := by
  obtain ⟨P, hP, -, -, -⟩ := trampoRuns_refine hsize hdelay hruns
  have happart := hP.apart (fun _ _ h => h.symm) (Set.pairwise_empty _)
  exact happart (hP.held_iff.mpr ha) (hP.held_iff.mpr hb) hne

theorem trampoRuns_apart_twoSlots : Apart 256 0x40000 0x40100 := by
  obtain ⟨mgr, -, hruns, -, -⟩ := exists_reuse
  exact trampoRuns_apart (by decide) (by decide) hruns ⟨100, rfl⟩ ⟨101, rfl⟩ (by decide)

/-- **Memory that was given back is not handed out again** before the delay is over, in every
run. -/
theorem trampoRuns_reuse {size : ℕ} {delay : ℤ} {before mid : List (Quarantine.Event Addr)}
    {a : Addr} {t₁ t₂ : ℤ} (hsize : 0 < size) (hdelay : 0 < delay)
    (hruns : TrampoRuns trampoPageSize (shTrampoInitMgr size delay)
      (before ++ .alloc a t₁ :: (mid ++ [.alloc a t₂])) mgr) :
    ∃ mid₁ mid₂ t, mid = mid₁ ++ .free a t :: mid₂ ∧ (∀ e ∈ mid₂, e.slot ≠ a) ∧
      t + delay < t₂ := by
  obtain ⟨P, hP, -, -, -⟩ := trampoRuns_refine hsize hdelay hruns
  exact hP.reuse

theorem trampoRuns_reuse_afterFree : ∃ mid₁ mid₂ t,
    [Quarantine.Event.alloc (0x40100 : Addr) 101, .free 0x40000 105] =
      mid₁ ++ .free 0x40000 t :: mid₂ ∧
      (∀ e ∈ mid₂, e.slot ≠ 0x40000) ∧ t + 10 < 116 := by
  obtain ⟨-, mgr, -, -, hruns⟩ := exists_reuse
  have hsplit : TrampoRuns 4096 (shTrampoInitMgr 256 10) ([] ++ .alloc 0x40000 100 ::
      ([.alloc 0x40100 101, .free 0x40000 105] ++ [.alloc 0x40000 116])) mgr := hruns
  exact trampoRuns_reuse (by decide) (by decide) hsplit

end Koola
