import Koola.Alloc.Trampo
import Mathlib.Data.List.Pairwise

/-!
# The pages of `sh_trampo`

* `flag_setFlag`, `flag_clearFlag`: the bitmap.
* `WellFormed`: the pages are apart, and their bitmaps are long enough; `Held`: the memory that is
  taken; **`WellFormed.held_apart`**.
* `findUnused_some`, `freeIn_cases`: the page that a call changes; `held_setFlag`,
  `held_clearFlag`: what it changes.
-/

namespace Koola

open A64

/-! ## The bitmap -/

section Flags

variable {page : ShTrampoPage} {i j : ℕ}

theorem and_mask {x : BitVec 32} {k : ℕ} (hk : k < 32) :
    decide (x &&& (1#32 <<< k) ≠ 0) = x.getLsbD k := by
  rw [show 1#32 <<< k = BitVec.twoPow 32 k from rfl, BitVec.and_twoPow]
  have hne : BitVec.twoPow 32 k ≠ 0#32 := by
    intro h
    have hbit := congrArg (BitVec.getLsbD · k) h
    simp [hk] at hbit
  cases hx : x.getLsbD k with
  | true => simp [hne]
  | false => simp

theorem flag_eq : page.flag i = (page.flags.getD (i / 32) 0).getLsbD (i % 32) :=
  and_mask (Nat.mod_lt i (by decide))

/-- The word of a bitmap that is changed. -/
theorem flag_modify {f : BitVec 32 → BitVec 32} :
    ShTrampoPage.flag { page with flags := page.flags.modify (i / 32) f } j =
      if i / 32 = j / 32 ∧ j / 32 < page.flags.length then
        (f (page.flags.getD (j / 32) 0)).getLsbD (j % 32)
      else page.flag j := by
  rw [flag_eq, flag_eq, List.getD_eq_getElem?_getD, List.getElem?_modify]
  by_cases hlt : j / 32 < page.flags.length
  · rw [List.getElem?_eq_getElem hlt]
    by_cases hword : i / 32 = j / 32
    · simp [hword, hlt]
    · simp [hword, hlt]
  · rw [if_neg (fun h => hlt h.2), List.getElem?_eq_none (Nat.not_lt.mp hlt)]
    simp [List.getD_eq_getElem?_getD, List.getElem?_eq_none (Nat.not_lt.mp hlt)]

theorem flag_setFlag (hi : i < 32 * page.flags.length) :
    (page.setFlag i).flag j = (decide (i = j) || page.flag j) := by
  rw [ShTrampoPage.setFlag, flag_modify]
  by_cases hword : i / 32 = j / 32
  · have hbit : i = j ↔ j % 32 = i % 32 := by omega
    have hj : j % 32 < 32 := Nat.mod_lt j (by decide)
    have hi' : i % 32 < 32 := Nat.mod_lt i (by decide)
    rw [if_pos ⟨hword, by omega⟩, flag_eq, BitVec.getLsbD_or,
      show 1#32 <<< (i % 32) = BitVec.twoPow 32 (i % 32) from rfl, BitVec.getLsbD_twoPow]
    simp [hbit, hj, hi', Bool.or_comm, eq_comm]
  · have hne : ¬ i = j := fun h => hword (congrArg (· / 32) h)
    rw [if_neg (fun h => hword h.1), decide_eq_false hne, Bool.false_or]

theorem flag_clearFlag (hi : i < 32 * page.flags.length) :
    (page.clearFlag i).flag j = (!decide (i = j) && page.flag j) := by
  rw [ShTrampoPage.clearFlag, flag_modify]
  by_cases hword : i / 32 = j / 32
  · have hbit : i = j ↔ j % 32 = i % 32 := by omega
    have hj : j % 32 < 32 := Nat.mod_lt j (by decide)
    have hi' : i % 32 < 32 := Nat.mod_lt i (by decide)
    rw [if_pos ⟨hword, by omega⟩, flag_eq, BitVec.getLsbD_and, BitVec.getLsbD_not,
      show 1#32 <<< (i % 32) = BitVec.twoPow 32 (i % 32) from rfl, BitVec.getLsbD_twoPow]
    simp [hbit, hj, hi', Bool.and_comm, eq_comm]
  · have hne : ¬ i = j := fun h => hword (congrArg (· / 32) h)
    rw [if_neg (fun h => hword h.1), decide_eq_false hne, Bool.not_false, Bool.true_and]

end Flags

/-! ## Pages -/

/-- The first `n` bytes from `a` on do not wrap around. -/
def Fits (a : Addr) (n : ℕ) : Prop := a.toNat + n < 2 ^ 64

/-- The `n` bytes from `a` on and those from `b` on are apart. -/
def Apart (n : ℕ) (a b : Addr) : Prop := a.toNat + n ≤ b.toNat ∨ b.toNat + n ≤ a.toNat

theorem Apart.symm {n : ℕ} {a b : Addr} (h : Apart n a b) : Apart n b a := Or.symm h

namespace ShTrampoMgr

variable (mgr : ShTrampoMgr) (trampoPageSize : ℕ)

/-- A page as `sh_trampo_alloc` makes them. -/
structure Good (page : ShTrampoPage) : Prop where
  null : page.ptr ≠ 0
  fits : Fits page.ptr trampoPageSize
  flags : mgr.count trampoPageSize ≤ 32 * page.flags.length
  timestamps : 0 < mgr.delaySec → page.timestamps.length = mgr.count trampoPageSize

/-- **The manager is well formed**: the pages are good and apart. -/
structure WellFormed : Prop where
  size : 0 < mgr.trampoSize
  good : ∀ page ∈ mgr.pages, mgr.Good trampoPageSize page
  apart : mgr.pages.Pairwise fun p q => Apart trampoPageSize p.ptr q.ptr

/-- The memory at `a` is taken. -/
def Held (a : Addr) : Prop :=
  ∃ page ∈ mgr.pages, ∃ i < mgr.count trampoPageSize, page.flag i = true ∧ a = mgr.slot page i

variable {mgr trampoPageSize} {page p q : ShTrampoPage} {i j : ℕ} {a b : Addr}

section Slots

theorem slot_bound (hi : i < mgr.count trampoPageSize) :
    mgr.trampoSize * i + mgr.trampoSize ≤ trampoPageSize := by
  have hmul : mgr.trampoSize * (i + 1) ≤ mgr.trampoSize * mgr.count trampoPageSize :=
    Nat.mul_le_mul_left _ hi
  have hdiv : mgr.trampoSize * mgr.count trampoPageSize ≤ trampoPageSize :=
    Nat.mul_div_le trampoPageSize mgr.trampoSize
  rw [mul_add, mul_one] at hmul
  omega

theorem toNat_slot (hsize : 0 < mgr.trampoSize) (hfits : Fits page.ptr trampoPageSize)
    (hi : i < mgr.count trampoPageSize) :
    (mgr.slot page i).toNat = page.ptr.toNat + mgr.trampoSize * i := by
  have hbound := slot_bound hi
  rw [Fits] at hfits
  exact toNat_add_ofNat (by omega)

/-- Two pieces of memory of one page. -/
theorem slot_apart (hsize : 0 < mgr.trampoSize) (hfits : Fits page.ptr trampoPageSize)
    (hi : i < mgr.count trampoPageSize) (hj : j < mgr.count trampoPageSize) (hne : i ≠ j) :
    Apart mgr.trampoSize (mgr.slot page i) (mgr.slot page j) := by
  rw [Apart, toNat_slot hsize hfits hi, toNat_slot hsize hfits hj]
  rcases Nat.lt_or_gt_of_ne hne with hlt | hgt
  · have hmul := Nat.mul_le_mul_left mgr.trampoSize (Nat.succ_le_of_lt hlt)
    rw [Nat.mul_succ] at hmul
    omega
  · have hmul := Nat.mul_le_mul_left mgr.trampoSize (Nat.succ_le_of_lt hgt)
    rw [Nat.mul_succ] at hmul
    omega

/-- Pieces of memory of two pages. -/
theorem slot_apart_pages (hsize : 0 < mgr.trampoSize) (hp : Fits p.ptr trampoPageSize)
    (hq : Fits q.ptr trampoPageSize) (hapart : Apart trampoPageSize p.ptr q.ptr)
    (hi : i < mgr.count trampoPageSize) (hj : j < mgr.count trampoPageSize) :
    Apart mgr.trampoSize (mgr.slot p i) (mgr.slot q j) := by
  have hbi := slot_bound hi
  have hbj := slot_bound hj
  rw [Apart] at hapart
  rw [Apart, toNat_slot hsize hp hi, toNat_slot hsize hq hj]
  omega

end Slots

section Lists

variable {pages pages' pre post : List ShTrampoPage} {now : ℤ} {hint low high mem : Addr}

/-- **The memory that `SLIST_FOREACH` finds.** -/
theorem findUnused_some
    (h : mgr.findUnused trampoPageSize now hint low high pages = some (pages', a)) :
    ∃ pre page post i, pages = pre ++ page :: post ∧ pages' = pre ++ page.setFlag i :: post ∧
      i < mgr.count trampoPageSize ∧ mgr.canTake page now hint low high i = true ∧
      a = mgr.slot page i := by
  induction pages generalizing pages' with
  | nil => cases h
  | cons page rest ih =>
    have hskip : (mgr.findUnused trampoPageSize now hint low high rest).map
        (fun found => (page :: found.1, found.2)) = some (pages', a) →
        ∃ pre page' post i, page :: rest = pre ++ page' :: post ∧
          pages' = pre ++ page'.setFlag i :: post ∧ i < mgr.count trampoPageSize ∧
          mgr.canTake page' now hint low high i = true ∧ a = mgr.slot page' i := by
      intro h
      obtain ⟨⟨rest', a'⟩, hrest, heq⟩ := Option.map_eq_some_iff.mp h
      cases heq
      obtain ⟨pre, page', post, i, rfl, rfl, hi, htake, ha⟩ := ih hrest
      exact ⟨page :: pre, page', post, i, rfl, rfl, hi, htake, ha⟩
    rw [findUnused] at h
    simp only at h
    split at h
    · exact hskip h
    · split at h
      · rename_i i hi
        cases h
        exact ⟨[], page, rest, i, rfl, rfl, List.mem_range.mp (List.mem_of_find?_eq_some hi),
          List.find?_some hi, rfl⟩
      · exact hskip h

/-- The page that a piece of memory is in. -/
def PageHas (trampoPageSize : ℕ) (page : ShTrampoPage) (mem : Addr) : Prop :=
  page.ptr ≤ mem ∧ mem < page.ptr + BitVec.ofNat 64 trampoPageSize

/-- The page after memory of it was freed. -/
def freed (mgr : ShTrampoMgr) (page : ShTrampoPage) (mem : Addr) (now : ℤ) : ShTrampoPage :=
  let i := (mem - page.ptr).toNat / mgr.trampoSize
  (if mgr.delaySec > 0 then page.setTimestamp i now else page).clearFlag i

theorem freeIn_cases (mgr : ShTrampoMgr) (trampoPageSize : ℕ) (mem : Addr) (now : ℤ)
    (pages : List ShTrampoPage) :
    ((∀ page ∈ pages, ¬ PageHas trampoPageSize page mem) ∧
        freeIn mgr trampoPageSize mem now pages = pages) ∨
      ∃ pre page post, pages = pre ++ page :: post ∧ PageHas trampoPageSize page mem ∧
        freeIn mgr trampoPageSize mem now pages = pre ++ mgr.freed page mem now :: post := by
  induction pages with
  | nil => exact .inl ⟨fun _ h => absurd h List.not_mem_nil, rfl⟩
  | cons page rest ih =>
    rw [freeIn]
    split
    · exact .inr ⟨[], page, rest, rfl, ‹_›, rfl⟩
    · rename_i hno
      rcases ih with ⟨hnone, hrest⟩ | ⟨pre, page', post, rfl, hhas, hrest⟩
      · refine .inl ⟨?_, by rw [hrest]⟩
        intro page' hpage'
        rcases List.mem_cons.mp hpage' with rfl | hpage'
        · exact hno
        · exact hnone page' hpage'
      · exact .inr ⟨page :: pre, page', post, rfl, hhas, by rw [hrest]; rfl⟩

end Lists

/-! ## What the pages hold -/

section Replace

variable {pre post : List ShTrampoPage} {page' : ShTrampoPage}

theorem WellFormed.fits (hwf : mgr.WellFormed trampoPageSize) (hp : p ∈ mgr.pages) :
    Fits p.ptr trampoPageSize := (hwf.good p hp).fits

theorem WellFormed.pages_apart (hwf : mgr.WellFormed trampoPageSize) (hp : p ∈ mgr.pages)
    (hq : q ∈ mgr.pages) (hne : p ≠ q) : Apart trampoPageSize p.ptr q.ptr := by
  have : Std.Symm fun p q : ShTrampoPage => Apart trampoPageSize p.ptr q.ptr :=
    ⟨fun _ _ h => h.symm⟩
  exact hwf.apart.forall hp hq hne

theorem WellFormed.page_eq (hwf : mgr.WellFormed trampoPageSize) (hp : p ∈ mgr.pages)
    (hq : q ∈ mgr.pages) (hi : i < mgr.count trampoPageSize) (hj : j < mgr.count trampoPageSize)
    (heq : mgr.slot p i = mgr.slot q j) : p = q ∧ i = j := by
  have hsize := hwf.size
  have hself : ∀ a : Addr, ¬ Apart mgr.trampoSize a a := by
    intro a h
    rw [Apart] at h
    omega
  have hpq : p = q := by
    by_contra hne
    have hslots := slot_apart_pages hsize (hwf.fits hp) (hwf.fits hq)
      (hwf.pages_apart hp hq hne) hi hj
    rw [heq] at hslots
    exact hself _ hslots
  subst hpq
  refine ⟨rfl, by_contra fun hne => ?_⟩
  have hslots := slot_apart hsize (hwf.fits hp) hi hj hne
  rw [heq] at hslots
  exact hself _ hslots

/-- **Pieces of memory that are taken are apart.** -/
theorem WellFormed.held_apart (hwf : mgr.WellFormed trampoPageSize)
    (ha : mgr.Held trampoPageSize a) (hb : mgr.Held trampoPageSize b) (hne : a ≠ b) :
    Apart mgr.trampoSize a b := by
  obtain ⟨p, hp, i, hi, -, rfl⟩ := ha
  obtain ⟨q, hq, j, hj, -, rfl⟩ := hb
  by_cases hpq : p = q
  · subst hpq
    refine slot_apart hwf.size (hwf.fits hp) hi hj ?_
    rintro rfl
    exact hne rfl
  · exact slot_apart_pages hwf.size (hwf.fits hp) (hwf.fits hq)
      (hwf.pages_apart hp hq hpq) hi hj

theorem Good.of_pages (h : mgr.Good trampoPageSize page) (pages : List ShTrampoPage) :
    ({ mgr with pages := pages } : ShTrampoMgr).Good trampoPageSize page :=
  ⟨h.null, h.fits, h.flags, h.timestamps⟩

/-- A page that is changed, and stays where it is. -/
theorem WellFormed.replace (hwf : mgr.WellFormed trampoPageSize) (page' : ShTrampoPage)
    (hpages : mgr.pages = pre ++ page :: post) (hptr : page'.ptr = page.ptr)
    (hflags : page'.flags.length = page.flags.length)
    (htimestamps : page'.timestamps.length = page.timestamps.length) :
    ({ mgr with pages := pre ++ page' :: post } : ShTrampoMgr).WellFormed trampoPageSize := by
  have hgood := hwf.good
  have hapart := hwf.apart
  rw [hpages] at hgood hapart
  refine ⟨hwf.size, ?_, ?_⟩
  · intro p hp
    rcases List.mem_append.mp hp with hp | hp
    · exact (hgood p (List.mem_append_left _ hp)).of_pages _
    · rcases List.mem_cons.mp hp with rfl | hp
      · obtain ⟨hnull, hfits, hlen, htimes⟩ := hgood page (by simp)
        exact ⟨hptr ▸ hnull, hptr ▸ hfits, hflags ▸ hlen, fun h => htimestamps.trans (htimes h)⟩
      · exact (hgood p (List.mem_append_right _ (List.mem_cons_of_mem _ hp))).of_pages _
  · simp only [List.pairwise_append, List.pairwise_cons, List.mem_cons, forall_eq_or_imp]
      at hapart ⊢
    rw [hptr]
    exact hapart

theorem others_apart (hwf : mgr.WellFormed trampoPageSize)
    (hpages : mgr.pages = pre ++ page :: post) (hq : q ∈ pre ++ post) :
    Apart trampoPageSize q.ptr page.ptr := by
  have hapart := hwf.apart
  rw [hpages, List.pairwise_append, List.pairwise_cons] at hapart
  rcases List.mem_append.mp hq with hq | hq
  · exact hapart.2.2 q hq page List.mem_cons_self
  · exact (hapart.2.1.1 q hq).symm

/-- What is taken when one page is changed. -/
theorem held_replace (hptr : page'.ptr = page.ptr) :
    ({ mgr with pages := pre ++ page' :: post } : ShTrampoMgr).Held trampoPageSize a ↔
      (∃ i < mgr.count trampoPageSize, page'.flag i = true ∧ a = mgr.slot page i) ∨
        ∃ q ∈ pre ++ post, ∃ i < mgr.count trampoPageSize, q.flag i = true ∧ a = mgr.slot q i := by
  have hslot : ∀ i, mgr.slot page' i = mgr.slot page i := fun i => by rw [slot, slot, hptr]
  constructor
  · rintro ⟨q, hq, i, hi, hflag, ha⟩
    simp only [List.mem_append, List.mem_cons] at hq
    rcases hq with hq | rfl | hq
    · exact .inr ⟨q, List.mem_append_left _ hq, i, hi, hflag, ha⟩
    · exact .inl ⟨i, hi, hflag, ha.trans (hslot i)⟩
    · exact .inr ⟨q, List.mem_append_right _ hq, i, hi, hflag, ha⟩
  · rintro (⟨i, hi, hflag, ha⟩ | ⟨q, hq, i, hi, hflag, ha⟩)
    · exact ⟨page', by simp, i, hi, hflag, ha.trans (hslot i).symm⟩
    · refine ⟨q, ?_, i, hi, hflag, ha⟩
      simp only [List.mem_append, List.mem_cons]
      rcases List.mem_append.mp hq with hq | hq
      · exact .inl hq
      · exact .inr (.inr hq)

theorem held_split (hpages : mgr.pages = pre ++ page :: post) :
    mgr.Held trampoPageSize a ↔
      (∃ i < mgr.count trampoPageSize, page.flag i = true ∧ a = mgr.slot page i) ∨
        ∃ q ∈ pre ++ post, ∃ i < mgr.count trampoPageSize, q.flag i = true ∧ a = mgr.slot q i := by
  have h : ({ mgr with pages := pre ++ page :: post } : ShTrampoMgr).Held trampoPageSize a ↔ _ :=
    held_replace rfl
  rwa [← hpages] at h

variable {k : ℕ}

theorem length_setFlag : (page.setFlag k).flags.length = page.flags.length :=
  List.length_modify _ _ _

/-- **One more piece of memory is taken.** -/
theorem held_setFlag (hwf : mgr.WellFormed trampoPageSize)
    (hpages : mgr.pages = pre ++ page :: post) (hk : k < mgr.count trampoPageSize) :
    ({ mgr with pages := pre ++ page.setFlag k :: post } : ShTrampoMgr).Held trampoPageSize a ↔
      a = mgr.slot page k ∨ mgr.Held trampoPageSize a := by
  have hlen := (hwf.good page (by simp [hpages])).flags
  rw [held_replace rfl, held_split hpages, ← or_assoc]
  refine or_congr_left ⟨?_, ?_⟩
  · rintro ⟨i, hi, hflag, ha⟩
    rw [flag_setFlag (by omega), Bool.or_eq_true, decide_eq_true_iff] at hflag
    rcases hflag with rfl | hflag
    · exact .inl ha
    · exact .inr ⟨i, hi, hflag, ha⟩
  · rintro (rfl | ⟨i, hi, hflag, ha⟩)
    · exact ⟨k, hk, by rw [flag_setFlag (by omega)]; simp, rfl⟩
    · exact ⟨i, hi, by rw [flag_setFlag (by omega), hflag, Bool.or_true], ha⟩

/-- Memory that is not taken is apart from memory that is. -/
theorem WellFormed.slot_apart_held (hwf : mgr.WellFormed trampoPageSize)
    (hpages : mgr.pages = pre ++ page :: post) (hk : k < mgr.count trampoPageSize)
    (hflag : page.flag k = false) (ha : mgr.Held trampoPageSize a) :
    a ≠ mgr.slot page k ∧ Apart mgr.trampoSize (mgr.slot page k) a := by
  have hwf' := hwf.replace (page.setFlag k) hpages rfl length_setFlag rfl
  have hne : a ≠ mgr.slot page k := by
    rintro rfl
    obtain ⟨q, hq, j, hj, hflag', heq⟩ := ha
    obtain ⟨rfl, rfl⟩ := hwf.page_eq (by simp [hpages]) hq hk hj heq
    rw [hflag] at hflag'
    cases hflag'
  exact ⟨hne, hwf'.held_apart ((held_setFlag hwf hpages hk).mpr (.inl rfl))
    ((held_setFlag hwf hpages hk).mpr (.inr ha)) hne.symm⟩

/-- **One piece of memory less is taken.** -/
theorem held_clearFlag (hwf : mgr.WellFormed trampoPageSize) (page' : ShTrampoPage)
    (hpages : mgr.pages = pre ++ page :: post) (hk : k < mgr.count trampoPageSize)
    (hptr : page'.ptr = page.ptr) (hflags : page'.flags = (page.clearFlag k).flags) :
    ({ mgr with pages := pre ++ page' :: post } : ShTrampoMgr).Held trampoPageSize a ↔
      mgr.Held trampoPageSize a ∧ a ≠ mgr.slot page k := by
  have hmem : page ∈ mgr.pages := by simp [hpages]
  have hlen := (hwf.good page hmem).flags
  have hflag' : ∀ i, page'.flag i = (!decide (k = i) && page.flag i) := by
    intro i
    rw [← flag_clearFlag (by omega), ShTrampoPage.flag, ShTrampoPage.flag, hflags]
  rw [held_replace hptr, held_split hpages, or_and_right]
  refine or_congr ⟨?_, ?_⟩ ⟨?_, fun h => h.1⟩
  · rintro ⟨i, hi, hflag, rfl⟩
    rw [hflag', Bool.and_eq_true, Bool.not_eq_true', decide_eq_false_iff_not] at hflag
    refine ⟨⟨i, hi, hflag.2, rfl⟩, fun heq => hflag.1 ?_⟩
    exact (hwf.page_eq hmem hmem hi hk heq).2.symm
  · rintro ⟨⟨i, hi, hflag, rfl⟩, hne⟩
    refine ⟨i, hi, ?_, rfl⟩
    rw [hflag', hflag, Bool.and_true, Bool.not_eq_true', decide_eq_false_iff_not]
    rintro rfl
    exact hne rfl
  · rintro ⟨q, hq, i, hi, hflag, rfl⟩
    refine ⟨⟨q, hq, i, hi, hflag, rfl⟩, fun heq => ?_⟩
    have hqmem : q ∈ mgr.pages := by
      rw [hpages]
      rcases List.mem_append.mp hq with hq | hq
      · exact List.mem_append_left _ hq
      · exact List.mem_append_right _ (List.mem_cons_of_mem _ hq)
    have hslots := slot_apart_pages hwf.size (hwf.fits hqmem) (hwf.fits hmem)
      (others_apart hwf hpages hq) hi hk
    have hsize := hwf.size
    rw [heq, Apart] at hslots
    omega

end Replace

end ShTrampoMgr

end Koola
