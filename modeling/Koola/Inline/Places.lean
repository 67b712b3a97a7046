import Koola.Inline.Layout

/-!
# Memory for the trampolines

* `EnterAlloc`, `shEnterAlloc_spec`: an enter trampoline.
* `ExitPlace`, `InReach`: an exit, of the manager or in a gap; `ExitAlloc`, `shExitAlloc_spec`.
* `Managers.free_enters`, `shExitFree_spec`: memory that is given back.
-/

namespace Koola.Inline

open A64 ShTrampoMgr ShExitGap

variable {L : Layout} {pageSize : ℕ} {s s' : InstState} {a b e x ptr : Addr} {gap gap' : ShExitGap}
  {m m' : Mem} {n : ℕ}

/-! ## Allocations -/

section Alloc

variable {env : AllocEnv} {hint low high : Addr} {mgr' : ShTrampoMgr} {r : AllocResult}

/-- The manager has handed out `a`. -/
structure Grown (pageSize : ℕ) (mgr mgr' : ShTrampoMgr) (a : Addr) : Prop where
  fresh : ¬ mgr.Held pageSize a
  held : ∀ x, mgr'.Held pageSize x ↔ x = a ∨ mgr.Held pageSize x

theorem AllocOutcome.wellFormed {mgr : ShTrampoMgr} (hwf : mgr.WellFormed pageSize)
    (hdelay : 0 < mgr.delaySec)
    (hfresh : ∀ ptr, env.mmap = some ptr → Fresh mgr pageSize ptr) (hr : r ≠ .abort)
    (hout : AllocOutcome mgr pageSize hint low high env m (mgr', m', r)) :
    mgr'.WellFormed pageSize := by
  cases r with
  | mem a => exact (alloc_held hwf hdelay hfresh hout).1
  | null =>
    cases hout with
    | null => exact hwf
  | abort => exact absurd rfl hr

theorem Managers.setMem (hm : Managers L pageSize s) (m : Mem) :
    Managers L pageSize { s with mem := m } :=
  ⟨hm.enters, hm.exits, hm.enterSize, hm.exitSize, hm.enterDelay, hm.exitDelay, hm.enterPages,
    hm.exitPages, hm.apart, hm.aligned⟩

/-- **The managers after a call for an enter trampoline.** -/
theorem Managers.alloc_enters (hm : Managers L pageSize s)
    (hnew : ∀ ptr, env.mmap = some ptr → NewPage L pageSize s ptr) (hr : r ≠ .abort)
    (hout : AllocOutcome s.enters pageSize hint low high env m (mgr', m', r)) (m'' : Mem) :
    Managers L pageSize { s with mem := m'', enters := mgr' } := by
  have hpages := alloc_pages hout
  have hsizes := hout.sizes
  have hwf := AllocOutcome.wellFormed hm.enters hm.enterDelay
    (fun ptr h => (hnew ptr h).fresh_enters) hr hout
  refine ⟨hwf, hm.exits, hsizes.1.trans hm.enterSize, hm.exitSize, ?_, hm.exitDelay, ?_,
    hm.exitPages, ?_, hm.aligned⟩
  · exact hsizes.2.symm ▸ hm.enterDelay
  · intro p hp
    rcases hpages p hp with ⟨q, hq, hptr⟩ | hmmap
    · exact hptr ▸ hm.enterPages q hq
    · exact (hnew _ hmmap).libraries
  · intro p hp q hq
    rcases hpages p hp with ⟨p', hp', hptr⟩ | hmmap
    · exact hptr ▸ hm.apart p' hp' q hq
    · exact (hnew _ hmmap).exits q hq

/-- **The managers after a call for an exit.** -/
theorem Managers.alloc_exits (hm : Managers L pageSize s)
    (hnew : ∀ ptr, env.mmap = some ptr → NewPage L pageSize s ptr) (hr : r ≠ .abort)
    (hout : AllocOutcome s.exits pageSize hint low high env m (mgr', m', r)) (m'' : Mem)
    (locked : Bool) : Managers L pageSize ⟨m'', s.enters, mgr', locked⟩ := by
  have hpages := alloc_pages hout
  have hsizes := hout.sizes
  have hwf := AllocOutcome.wellFormed hm.exits hm.exitDelay
    (fun ptr h => (hnew ptr h).fresh_exits) hr hout
  refine ⟨hm.enters, hwf, hm.enterSize, hsizes.1.trans hm.exitSize, hm.enterDelay, ?_,
    hm.enterPages, ?_, ?_, ?_⟩
  · exact hsizes.2.symm ▸ hm.exitDelay
  · intro p hp
    rcases hpages p hp with ⟨q, hq, hptr⟩ | hmmap
    · exact hptr ▸ hm.exitPages q hq
    · exact (hnew _ hmmap).libraries
  · intro p hp q hq
    rcases hpages q hq with ⟨q', hq', hptr⟩ | hmmap
    · exact hptr ▸ hm.apart p hp q' hq'
    · exact ((hnew _ hmmap).enters p hp).symm
  · intro p hp
    rcases hpages p hp with ⟨q, hq, hptr⟩ | hmmap
    · exact hptr ▸ hm.aligned q hq
    · exact (hnew _ hmmap).aligned

/-- **What `sh_enter_alloc` does**: an enter trampoline is new, or there is none; what is in use
stays. -/
structure EnterAlloc (L : Layout) (pageSize : ℕ) (env : AllocEnv) (s : InstState) (e : Addr)
    (s' : InstState) : Prop where
  managers : Managers L pageSize s'
  exits : s'.exits = s.exits
  keep : ∀ b, InUse L pageSize s b → s'.mem b = s.mem b
  pages : ∀ p ∈ s'.enters.pages, (∃ q ∈ s.enters.pages, q.ptr = p.ptr) ∨ env.mmap = some p.ptr
  result : e = 0 ∧ s'.enters = s.enters ∨ e ≠ 0 ∧ Grown pageSize s.enters s'.enters e

theorem InUse.alloc_mem_enters (hm : Managers L pageSize s)
    (hnew : ∀ ptr, env.mmap = some ptr → NewPage L pageSize s ptr)
    (hout : AllocOutcome s.enters pageSize hint low high env s.mem (mgr', m', r))
    (hb : InUse L pageSize s b) : m' b = s.mem b :=
  (hb.spares_enters hm).alloc_mem hm.enters (fun ptr h => hb.not_new hm (hnew ptr h)) hout

theorem InUse.alloc_mem_exits (hm : Managers L pageSize s)
    (hnew : ∀ ptr, env.mmap = some ptr → NewPage L pageSize s ptr)
    (hout : AllocOutcome s.exits pageSize hint low high env s.mem (mgr', m', r))
    (hb : InUse L pageSize s b) : m' b = s.mem b :=
  (hb.spares_exits hm).alloc_mem hm.exits (fun ptr h => hb.not_new hm (hnew ptr h)) hout

theorem shEnterAlloc_spec (hm : Managers L pageSize s)
    (hnew : ∀ ptr, env.mmap = some ptr → NewPage L pageSize s ptr)
    (h : shEnterAlloc pageSize env s = some (e, s')) : EnterAlloc L pageSize env s e s' := by
  have hout := allocOutcome s.enters pageSize 0 0 0 env s.mem
  rw [shEnterAlloc] at h
  generalize shTrampoAlloc s.enters pageSize 0 0 0 env s.mem = res at hout h
  obtain ⟨mgr', m', r⟩ := res
  cases r with
  | mem a =>
    cases h
    have hm' := hm.alloc_enters hnew (by simp) hout m'
    obtain ⟨-, hfresh, hheld⟩ := alloc_held hm.enters hm.enterDelay
      (fun ptr h => (hnew ptr h).fresh_enters) hout
    refine ⟨hm', rfl, fun b hb => hb.alloc_mem_enters hm hnew hout, alloc_pages hout, .inr ⟨?_, ?_⟩⟩
    · exact held_ne_zero hm'.enters ((hheld e).mpr (.inl rfl))
    · exact ⟨hfresh, hheld⟩
  | null =>
    cases h
    have hm' := hm.alloc_enters hnew (by simp) hout m'
    refine ⟨hm', rfl, fun b hb => hb.alloc_mem_enters hm hnew hout, alloc_pages hout,
      .inl ⟨rfl, ?_⟩⟩
    cases hout with
    | null => rfl
  | abort => cases h

end Alloc

/-! ## Exits -/

/-- **Where an exit is**: in memory of the manager, or in a gap and not where the mark is. -/
inductive ExitPlace (L : Layout) (pageSize : ℕ) (s : InstState) (x : Addr) : ShExitType → Prop
  | outLibrary : s.exits.Held pageSize x → ExitPlace L pageSize s x .outLibrary
  | inLibrary {gap : ShExitGap} : gap ∈ L.gaps → Cell gap s.mem x →
      (gap.needFillZero = true → x ≠ gap.start) → ExitPlace L pageSize s x .inLibrary

/-- The exit can be reached with `B`. -/
structure InReach (target x : Addr) : Prop where
  dvd : 4 ∣ x.toNat
  low : target.toNat - 134217728 ≤ x.toNat
  high : x.toNat ≤ target.toNat + 134217724

/-- **What `sh_exit_alloc` does**: an exit is new and has its code, or there is none; what is in use
stays. -/
structure ExitAlloc (L : Layout) (pageSize : ℕ) (target : Addr) (exit : List (BitVec 32))
    (s : InstState) (r : Option (Addr × ShExitType)) (s' : InstState) : Prop where
  managers : Managers L pageSize s'
  enters : s'.enters = s.enters
  held : ∀ y, s.exits.Held pageSize y → s'.exits.Held pageSize y
  keep : ∀ b, InUse L pageSize s b → s'.mem b = s.mem b
  place : ∀ x type, r = some (x, type) → ExitPlace L pageSize s' x type
  code : ∀ x type, r = some (x, type) → Holds s'.mem x exit
  reach : ∀ x type, r = some (x, type) → InReach target x
  new : ∀ x type, r = some (x, type) → ∀ b ∈ range x 16, ¬ InUse L pageSize s b

section Exits

variable {env : AllocEnv} {genv : ExitEnv} {target newAddr hint low high rangeLow rangeHigh : Addr}
  {infos : ElfinfoGlobals} {dlinfo : XdlInfo} {exit : List (BitVec 32)}
  {r : Option (Addr × ShExitType)} {gaps : List ShExitGap} {m₁ m'' : Mem} {mgr' : ShTrampoMgr}
  {o : InLibrary}

/-- What is in use stays in use, if its bytes stay and no memory is given back; variables may
change. -/
theorem InUse.mono (hkeep : ∀ b, InUse L pageSize s b → b ∉ L.data → s'.mem b = s.mem b)
    (henters : ∀ e, s.enters.Held pageSize e → s'.enters.Held pageSize e)
    (hexits : ∀ x, s.exits.Held pageSize x → s'.exits.Held pageSize x)
    (hb : InUse L pageSize s b) : InUse L pageSize s' b := by
  have hcell : ∀ {gap a}, gap ∈ L.gaps → Cell gap s.mem a → ∀ b ∈ range a 16,
      s'.mem b = s.mem b := by
    intro gap a hgap hc b hb
    refine hkeep b (.cell hgap hc hb) fun hdata => ?_
    exact Set.disjoint_left.mp (L.data_gaps gap hgap) hdata (hc.subset hb)
  cases hb with
  | code h => exact .code h
  | data h => exact .data h
  | enter he h => exact .enter (henters _ he) h
  | exit hx h => exact .exit (hexits _ hx) h
  | cell hgap hc h =>
    refine .cell hgap (hc.congr (hcell hgap hc) fun hfill => ?_) h
    exact hcell hgap (hc.mark (L.good _ hgap) hfill)

/-- A byte of a gap that is in use is in a cell. -/
theorem InUse.in_gap (hm : Managers L pageSize s) (hgap : gap ∈ L.gaps) (hin : b ∈ gap.bytes)
    (hb : InUse L pageSize s b) : ∃ a, Cell gap s.mem a ∧ b ∈ range a 16 := by
  have hmem : b ∈ L.mem := .inr (.inr ⟨gap, hgap, hin⟩)
  cases hb with
  | code h => exact absurd hin (Set.disjoint_left.mp (L.code_gaps gap hgap) h)
  | data h => exact absurd hin (Set.disjoint_left.mp (L.data_gaps gap hgap) h)
  | enter he h => exact absurd hmem (Set.disjoint_left.mp (hm.enter_mem he) h)
  | exit hx h => exact absurd hmem (Set.disjoint_left.mp (hm.exit_mem hx) h)
  | cell hgap' hc h =>
    obtain rfl := L.gap_eq hgap hgap' hin (hc.subset h)
    exact ⟨_, hc, h⟩

/-- What the zeros of the gaps leave alone. -/
theorem InUse.filled (hm : Managers L pageSize s) (hgaps : ∀ gap ∈ gaps, gap ∈ L.gaps)
    (hfill : Filled gaps s.mem m₁) (hb : InUse L pageSize s b) : m₁ b = s.mem b := by
  refine hfill b fun gap hgap hin => ?_
  obtain ⟨a, hc, -⟩ := hb.in_gap hm (hgaps gap hgap) hin
  exact hc.marked

/-- A place that is free is not in use. -/
theorem InUse.not_free (hm : Managers L pageSize s) (hgap : gap ∈ L.gaps) (hdvd : 16 ∣ a.toNat)
    (hstart : gap.start.toNat ≤ a.toNat) (hend : a.toNat + 16 ≤ gap.endAddr.toNat)
    (hfree : Free s.mem a) (hb : InUse L pageSize s b) : b ∉ range a 16 := by
  intro hin
  have hfits : Fits a 16 := lt_of_le_of_lt hend gap.endAddr.isLt
  have hgapb : b ∈ gap.bytes := by
    rw [mem_range_iff hfits] at hin
    rw [mem_bytes_iff]
    omega
  obtain ⟨a', hc, h⟩ := hb.in_gap hm hgap hgapb
  have hne : a ≠ a' := fun heq => hc.taken (heq ▸ hfree)
  exact Set.disjoint_left.mp (disjoint_sixteen hdvd hc.dvd hfits hc.fits hne) hin h

/-- The code of an exit is not zero, and not the mark. -/
theorem read64_absoluteJump (h : Holds m x (shA64AbsoluteJumpWithBr newAddr)) :
    m.read64 x = 0xD61F022058000051 := by
  have hlo : m.read32 x = 0x58000051 := h.1
  have hhi : m.read32 (x + 4) = 0xD61F0220 := h.2.1
  rw [Mem.read64, hlo, hhi]
  decide

/-- The mark is in another place than the exit. -/
theorem GapPlace.ne_start (hplace : GapPlace gap m target rangeLow rangeHigh a)
    (hmark : gap.Marked m) (hneed : gap.needFillZero = true) : a ≠ gap.start := by
  rintro rfl
  exact absurd ((hmark hneed).symm.trans hplace.free.1) (by decide)

/-- **The exit is a cell** of its gap. -/
theorem GapPlace.cell (hgood : gap.Good) (hplace : GapPlace gap m target rangeLow rangeHigh a)
    (hmark : gap.Marked m) :
    Cell gap (m.writeWords a (shA64AbsoluteJumpWithBr newAddr)) a := by
  have hlen : (shA64AbsoluteJumpWithBr newAddr).length = 4 := rfl
  refine ⟨fun hneed => ?_, hplace.dvd, hplace.start, hplace.endAddr, fun hfree => ?_⟩
  · have hfits : Fits gap.start 16 := by
      have hstart' := hplace.start
      have hend := hplace.endAddr
      have hlt := gap.endAddr.isLt
      rw [Fits]
      omega
    have hfits' : Fits a 16 := lt_of_le_of_lt hplace.endAddr gap.endAddr.isLt
    have hdis := disjoint_sixteen hgood.start_dvd hplace.dvd hfits hfits'
      (GapPlace.ne_start hplace hmark hneed).symm
    rw [Mem.read64_congr fun i hi => Mem.writeWords_apart fun hin' => ?_]
    · exact hmark hneed
    · rw [hlen, bytesAt_four] at hin'
      refine Set.disjoint_left.mp hdis ?_ hin'
      rw [range, Set.mem_ofPred_eq, add_sub_cancel_left, BitVec.toNat_ofNat,
        Nat.mod_eq_of_lt (by omega)]
      omega
  · have hcode : Holds (m.writeWords a (shA64AbsoluteJumpWithBr newAddr)) a
        (shA64AbsoluteJumpWithBr newAddr) := Mem.holds_writeWords (by rw [hlen]; decide)
    have hread := read64_absoluteJump hcode
    rw [hfree.1] at hread
    exact absurd hread (by decide)

/-- **The exit in a gap** is new, and what is in use stays. -/
theorem inGaps_spec (hm : Managers L pageSize s) (hgaps : ∀ gap ∈ gaps, gap ∈ L.gaps)
    (hexit : exit = shA64AbsoluteJumpWithBr newAddr) {res : Mem × InLibrary}
    (h : InGaps gaps s.mem target rangeLow rangeHigh exit res) :
    (∀ b, InUse L pageSize s b → res.1 b = s.mem b) ∧
      ∀ x, res.2 = .found x → Holds res.1 x exit ∧
        (∀ b ∈ range x 16, ¬ InUse L pageSize s b) ∧
        target.toNat - rangeLow.toNat ≤ x.toNat ∧ x.toNat ≤ target.toNat + rangeHigh.toNat ∧
        ∃ gap ∈ L.gaps, Cell gap res.1 x ∧ (gap.needFillZero = true → x ≠ gap.start) := by
  cases h with
  | none hfill => exact ⟨fun b hb => hb.filled hm hgaps hfill, fun x hx => by cases hx⟩
  | locked hfill => exact ⟨fun b hb => hb.filled hm hgaps hfill, fun x hx => by cases hx⟩
  | @found m₁ gap a hfill hin hmark hplace =>
    have hgap := hgaps gap hin
    have hkeep : ∀ b, InUse L pageSize s b → m₁ b = s.mem b :=
      fun b hb => hb.filled hm hgaps hfill
    have huse : ∀ b, InUse L pageSize s b → b ∉ range a 16 := by
      intro b hb
      have hb₁ : InUse L pageSize { s with mem := m₁ } b :=
        hb.mono (fun b hb _ => hkeep b hb) (fun _ he => he) fun _ hx => hx
      exact hb₁.not_free (hm.setMem m₁) hgap hplace.dvd hplace.start hplace.endAddr hplace.free
    have hlen : exit.length = 4 := by rw [hexit]; rfl
    have hout : ∀ b, b ∉ range a 16 → m₁.writeWords a exit b = m₁ b := fun b hb =>
      Mem.writeWords_apart (by rwa [hlen, bytesAt_four])
    have hcode : Holds (m₁.writeWords a exit) a exit := Mem.holds_writeWords (by rw [hlen]; decide)
    refine ⟨fun b hb => (hout b (huse b hb)).trans (hkeep b hb), fun x hx => ?_⟩
    cases hx
    have hcell : Cell gap (m₁.writeWords a exit) a :=
      hexit ▸ GapPlace.cell (L.good gap hgap) hplace hmark
    exact ⟨hcode, fun b hb hb' => huse b hb' hb, hplace.low, hplace.high, gap, hgap, hcell,
      GapPlace.ne_start hplace hmark⟩

/-- **An exit of the manager.** -/
theorem ExitAlloc.outLibrary (hm : Managers L pageSize s)
    (hnew : ∀ ptr, env.mmap = some ptr → NewPage L pageSize s ptr) (htarget : target ≠ 0)
    (hlen : exit.length = 4)
    (h : shTrampoAlloc s.exits pageSize target shInstA64BRangeLow shInstA64BRangeHigh env s.mem =
      (mgr', m', .mem a)) :
    ExitAlloc L pageSize target exit s (some (a, .outLibrary))
      { s with mem := m'.writeWords a exit, exits := mgr' } := by
  have hout := allocOutcome s.exits pageSize target shInstA64BRangeLow shInstA64BRangeHigh env s.mem
  rw [h] at hout
  obtain ⟨-, hfresh, hheld⟩ := alloc_held hm.exits hm.exitDelay
    (fun ptr h => (hnew ptr h).fresh_exits) hout
  have hm' := hm.alloc_exits hnew (by simp) hout (m'.writeWords a exit) s.exitLocked
  have ha := (hheld a).mpr (.inl rfl)
  have hrange := shTrampoAlloc_range htarget h
  have huse : ∀ b, InUse L pageSize s b → b ∉ range a 16 := fun b hb =>
    InUse.not_exit (s := s) hm' rfl hfresh hheld hb
  have hout' : ∀ b, b ∉ range a 16 → m'.writeWords a exit b = m' b := fun b hb =>
    Mem.writeWords_apart (by rwa [hlen, bytesAt_four])
  refine ⟨hm', rfl, fun y hy => (hheld y).mpr (.inr hy), fun b hb => ?_, ?_, ?_, ?_, ?_⟩
  · exact (hout' b (huse b hb)).trans (hb.alloc_mem_exits hm hnew hout)
  · rintro x type ⟨⟩
    exact .outLibrary ha
  · rintro x type ⟨⟩
    exact Mem.holds_writeWords (by rw [hlen]; decide)
  · rintro x type ⟨⟩
    have hdvd := held_dvd hm'.exits hm'.exitSize hm'.aligned ha
    exact ⟨Dvd.dvd.trans (by decide) hdvd, hrange.1, hrange.2⟩
  · rintro x type ⟨⟩ b hb hb'
    exact huse b hb' hb

/-- **The manager has none**, and the gaps are looked through. -/
theorem ExitAlloc.inLibrary (hm : Managers L pageSize s)
    (hnew : ∀ ptr, env.mmap = some ptr → NewPage L pageSize s ptr)
    (hgaps : ∀ gap ∈ gaps, gap ∈ L.gaps) (hexit : exit = shA64AbsoluteJumpWithBr newAddr)
    (hout : AllocOutcome s.exits pageSize hint low high env s.mem (mgr', m', .null))
    (h : InGaps gaps m' target shInstA64BRangeLow shInstA64BRangeHigh exit (m'', o))
    (hr : ∀ x type, r = some (x, type) → o = .found x ∧ type = .inLibrary) (locked : Bool) :
    ExitAlloc L pageSize target exit s r ⟨m'', s.enters, mgr', locked⟩ := by
  have hm' := hm.alloc_exits hnew (by simp) hout m'' locked
  have hm₀ := hm.alloc_exits hnew (by simp) hout m' s.exitLocked
  have hmgr : mgr' = s.exits := by
    cases hout with
    | null => rfl
  subst hmgr
  -- a new page that the manager has not kept may have been cleared
  have hkeep₀ : ∀ b, InUse L pageSize s b → m' b = s.mem b :=
    fun b hb => hb.alloc_mem_exits hm hnew hout
  have hmono : ∀ b, InUse L pageSize s b → InUse L pageSize { s with mem := m' } b :=
    fun b hb => hb.mono (fun b hb _ => hkeep₀ b hb) (fun _ he => he) fun _ hx => hx
  obtain ⟨hkeep, hfound⟩ := inGaps_spec hm₀ hgaps hexit h
  refine ⟨hm', rfl, fun _ hy => hy, fun b hb => ?_, ?_, ?_, ?_, ?_⟩
  · exact (hkeep b (hmono b hb)).trans (hkeep₀ b hb)
  all_goals intro x type hx
  all_goals obtain ⟨ho, rfl⟩ := hr x type hx
  all_goals obtain ⟨hcode, huse, hlow, hhigh, gap, hgap, hcell, hmark⟩ := hfound x ho
  · exact .inLibrary hgap hcell hmark
  · exact hcode
  · exact ⟨Dvd.dvd.trans (by decide) hcell.dvd, hlow, hhigh⟩
  · exact fun b hb hb' => huse b hb (hmono b hb')

theorem shExitAlloc_spec (hm : Managers L pageSize s)
    (hnew : ∀ ptr, env.mmap = some ptr → NewPage L pageSize s ptr)
    (hgaps : ∀ gap ∈ shExitGetGaps (BitVec.ofNat 64 pageSize) dlinfo.dliFbase
      (shExitIsElfLoadedByKernel infos target) dlinfo.phdrs shExitGapsCap, gap ∈ L.gaps)
    (htarget : target ≠ 0) (hfits : target.toNat + 134217724 < 2 ^ 64)
    (hexit : exit = shA64AbsoluteJumpWithBr newAddr)
    (h : shExitAlloc pageSize infos target dlinfo exit shInstA64BRangeLow shInstA64BRangeHigh env
      genv s = some (r, s')) : ExitAlloc L pageSize target exit s r s' := by
  have hlen : exit.length = 4 := by rw [hexit]; rfl
  have hout := allocOutcome s.exits pageSize target shInstA64BRangeLow shInstA64BRangeHigh env s.mem
  rw [shExitAlloc] at h
  cases halloc : shTrampoAlloc s.exits pageSize target shInstA64BRangeLow shInstA64BRangeHigh env
      s.mem with
  | mk mgr' rest =>
    obtain ⟨m', res⟩ := rest
    rw [halloc] at hout h
    cases res with
    | mem a =>
      cases h
      exact .outLibrary hm hnew htarget hlen halloc
    | null =>
      simp only at h
      split at h
      · cases h
      have hin : InGaps _ m' target shInstA64BRangeLow shInstA64BRangeHigh exit
          (shExitAllocInLibrary (BitVec.ofNat 64 pageSize) infos target dlinfo exit
            shInstA64BRangeLow shInstA64BRangeHigh genv m') :=
        allocInGaps_inGaps (fun g hg => L.good g (hgaps g hg))
          (fun g hg g' hg' => L.gaps_apart g (hgaps g hg) g' (hgaps g' hg')) hfits (by decide) hlen
      generalize shExitAllocInLibrary (BitVec.ofNat 64 pageSize) infos target dlinfo exit
        shInstA64BRangeLow shInstA64BRangeHigh genv m' = res at h hin
      obtain ⟨m'', o⟩ := res
      cases o with
      | none | locked =>
        cases h
        exact .inLibrary hm hnew hgaps hexit hout hin (fun _ _ hr => by cases hr) _
      | found a =>
        cases h
        refine .inLibrary hm hnew hgaps hexit hout hin ?_ _
        rintro x type ⟨⟩
        exact ⟨rfl, rfl⟩
    | abort => cases h

end Exits

/-! ## Memory that is given back -/

section Free

variable {env : ExitFreeEnv} {exit : List (BitVec 32)} {type : ShExitType}
  {r : Option ExitFreeErrno}

theorem Managers.free_enters (hm : Managers L pageSize s) (he : s.enters.Held pageSize e)
    (now : ℤ) : Managers L pageSize (shEnterFree pageSize e now s) ∧
      ∀ y, (shEnterFree pageSize e now s).enters.Held pageSize y ↔
        s.enters.Held pageSize y ∧ y ≠ e := by
  obtain ⟨hwf, hheld⟩ := free_held hm.enters hm.enterDelay he now
  have hpages := free_pages s.enters pageSize e now
  refine ⟨⟨hwf, hm.exits, hm.enterSize, hm.exitSize, hm.enterDelay, hm.exitDelay, fun p hp => ?_,
    hm.exitPages, fun p hp q hq => ?_, hm.aligned⟩, hheld⟩
  · obtain ⟨p', hp', hptr⟩ := hpages p hp
    exact hptr ▸ hm.enterPages p' hp'
  · obtain ⟨p', hp', hptr⟩ := hpages p hp
    exact hptr ▸ hm.apart p' hp' q hq

theorem Managers.free_exits (hm : Managers L pageSize s) (hx : s.exits.Held pageSize x)
    (now : ℤ) :
    Managers L pageSize { s with exits := shTrampoFree s.exits pageSize x now } ∧
      ∀ y, (shTrampoFree s.exits pageSize x now).Held pageSize y ↔
        s.exits.Held pageSize y ∧ y ≠ x := by
  obtain ⟨hwf, hheld⟩ := free_held hm.exits hm.exitDelay hx now
  have hpages := free_pages s.exits pageSize x now
  refine ⟨⟨hm.enters, hwf, hm.enterSize, hm.exitSize, hm.enterDelay, hm.exitDelay, hm.enterPages,
    fun p hp => ?_, fun p hp q hq => ?_, fun p hp => ?_⟩, hheld⟩
  · obtain ⟨p', hp', hptr⟩ := hpages p hp
    exact hptr ▸ hm.exitPages p' hp'
  · obtain ⟨q', hq', hptr⟩ := hpages q hq
    exact hptr ▸ hm.apart p hp q' hq'
  · obtain ⟨p', hp', hptr⟩ := hpages p hp
    exact hptr ▸ hm.aligned p' hp'

/-- **What `sh_exit_free` does**: only the bytes of the exit may change. -/
structure ExitFreed (L : Layout) (pageSize : ℕ) (s : InstState) (x : Addr) (s' : InstState) :
    Prop where
  managers : Managers L pageSize s'
  enters : s'.enters = s.enters
  held : ∀ y, s.exits.Held pageSize y → y ≠ x → s'.exits.Held pageSize y
  keep : ∀ b, b ∉ range x 16 → s'.mem b = s.mem b

/-- An exit with its code is given back; it is never found to be another one. -/
theorem shExitFree_spec (hm : Managers L pageSize s) (hplace : ExitPlace L pageSize s x type)
    (hcode : Holds s.mem x exit) (hlen : exit.length = 4)
    (h : shExitFree pageSize x type exit env s = some (s', r)) :
    ExitFreed L pageSize s x s' ∧ r ≠ some .unhookExitMismatch := by
  cases hplace with
  | outLibrary hx =>
    cases h
    obtain ⟨hm', hheld⟩ := hm.free_exits hx env.now
    exact ⟨⟨hm', rfl, fun y hy hne => (hheld y).mpr ⟨hy, hne⟩, fun _ _ => rfl⟩, nofun⟩
  | inLibrary =>
    have hsame : ExitFreed L pageSize s x { s with mem := s.mem } :=
      ⟨hm, rfl, fun _ hy _ => hy, fun _ _ => rfl⟩
    simp only [shExitFree, shExitFreeInLibrary] at h
    split at h
    · cases h
    split at h
    · cases h
      exact ⟨hsame, by simp⟩
    split at h
    · rename_i hmatch
      exact absurd (Mem.holds_iff_readWords.mp hcode) hmatch
    split at h
    · cases h
      exact ⟨hsame, by simp⟩
    · cases h
      refine ⟨⟨hm.setMem _, rfl, fun _ hy _ => hy, fun b hb => ?_⟩, nofun⟩
      exact memClear_of_notMem (by rwa [hlen])

end Free

end Koola.Inline
