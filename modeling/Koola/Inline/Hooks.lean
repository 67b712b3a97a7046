import Koola.Inline.Jumps

/-!
# Hooks that are in place

* `Hooked`: a hook; `Hooked.bytes`: the bytes that it rests on; `Hooked.Clear`: its window is apart
  from those of others.
* `Installed`: the target jumps to the detour, and the enter trampoline has the instructions that
  the jump has overwritten.
* `Inv`: all hooks of a process; `Frame`: what a call does to them; `Inv.frame`.
-/

namespace Koola.Inline

open A64 ShTrampoMgr ShExitGap

/-- A hook, with what `sh_inst_hook` has left in `self`. -/
structure Hooked where
  target : Addr
  newAddr : Addr
  self : ShInst

namespace Hooked

variable (h h' : Hooked)

/-- The overwritten instructions. -/
def window : Set Addr := bytesAt h.target h.self.backup.length

/-- The exit, and the marks of gaps that it is in. -/
def exitBytes (L : Layout) : Set Addr :=
  {b | b ∈ range h.self.exitAddr 16 ∨ ∃ gap ∈ L.gaps, h.self.exitAddr ∈ gap.bytes ∧
    gap.needFillZero = true ∧ b ∈ range gap.start 16}

/-- **The bytes that the hook rests on.** -/
def bytes (L : Layout) : Set Addr :=
  {b | b ∈ h.window ∨ b ∈ range h.self.enterAddr 256 ∨ h.self.exitAddr ≠ 0 ∧ b ∈ h.exitBytes L}

/-- The hooks have nothing in common. -/
structure Apart : Prop where
  window : Disjoint h.window h'.window
  enter : h.self.enterAddr ≠ h'.self.enterAddr
  exit : h.self.exitAddr ≠ 0 → h.self.exitAddr ≠ h'.self.exitAddr

/-- The hook has overwritten nothing of the hooks that are in place. -/
def Clear (H : List Hooked) : Prop := ∀ h' ∈ H, Disjoint h.window h'.window

end Hooked

/-- **The jump at the target**: to the detour, or to an exit that jumps there. -/
inductive Jump (L : Layout) (pageSize : ℕ) (s : InstState) (h : Hooked) : Prop
  | direct : h.self.exitAddr = 0 → h.self.trampo = shA64AbsoluteJumpWithBr h.newAddr →
      Jump L pageSize s h
  | exit : h.self.exitAddr ≠ 0 →
      h.self.trampo = shA64RelativeJump h.self.exitAddr h.target →
      h.self.exit = shA64AbsoluteJumpWithBr h.newAddr →
      Holds s.mem h.self.exitAddr h.self.exit → InReach h.target h.self.exitAddr →
      ExitPlace L pageSize s h.self.exitAddr h.self.exitType → Jump L pageSize s h

/-- **The hook is in place.** The memory was `m₀` before all hooks. -/
structure Installed (L : Layout) (pageSize : ℕ) (m₀ : Mem) (s : InstState) (h : Hooked) : Prop where
  window : h.window ⊆ L.code
  aligned : 4 ∣ h.target.toNat
  fits : h.target.toNat + 134217724 < 2 ^ 64
  backup : h.self.backup = m₀.readWords h.target h.self.backup.length
  backupLen : h.self.backupLen = 4 * h.self.backup.length
  short : h.self.backup.length ≤ 4
  words : h.self.trampo.length = h.self.backup.length
  patched : Holds s.mem h.target h.self.trampo
  enter : s.enters.Held pageSize h.self.enterAddr
  moved : ∃ code, enterCode h.self.enterAddr h.target h.self.backup = some code ∧
    code.length ≤ 64 ∧ Holds s.mem h.self.enterAddr code
  jump : Jump L pageSize s h

/-- **The hooks of a process**: all are in place and apart, and the rest of the code is as it
was. -/
structure Inv (L : Layout) (pageSize : ℕ) (m₀ : Mem) (H : List Hooked) (s : InstState) :
    Prop where
  managers : Managers L pageSize s
  live : ∀ h ∈ H, Installed L pageSize m₀ s h
  apart : H.Pairwise Hooked.Apart
  code : ∀ b ∈ L.code, (∀ h ∈ H, b ∉ h.window) → s.mem b = m₀ b

/-- **What a call does to hooks that are in place**: nothing. It may change variables. -/
structure Frame (L : Layout) (pageSize : ℕ) (s s' : InstState) : Prop where
  managers : Managers L pageSize s'
  enters : ∀ e, s.enters.Held pageSize e → s'.enters.Held pageSize e
  exits : ∀ x, s.exits.Held pageSize x → s'.exits.Held pageSize x
  keep : ∀ b, InUse L pageSize s b → b ∉ L.data → s'.mem b = s.mem b

variable {L : Layout} {pageSize : ℕ} {m₀ m : Mem} {s s' s'' : InstState} {h h' : Hooked}
  {H : List Hooked} {b x : Addr} {type : ShExitType}

/-! ## One hook -/

section Hook

theorem Hooked.Apart.symm (ha : h.Apart h') : h'.Apart h where
  window := ha.window.symm
  enter := ha.enter.symm
  exit hne heq := ha.exit (heq ▸ hne) heq.symm

theorem mem_range_self {n : ℕ} (hn : 0 < n) : x ∈ range x n := by
  rw [range, Set.mem_ofPred_eq, sub_self]
  exact hn

theorem ExitPlace.ne_zero (hm : Managers L pageSize s) (hp : ExitPlace L pageSize s x type) :
    x ≠ 0 := by
  cases hp with
  | outLibrary hx => exact held_ne_zero hm.exits hx
  | @inLibrary gap hgap hc hne =>
    rintro rfl
    have hstart := hc.start
    refine L.null gap hgap (BitVec.eq_of_toNat_eq ?_)
    exact Nat.le_zero.mp hstart

/-- The bytes of an exit are in use. -/
theorem ExitPlace.inUse (hm : Managers L pageSize s) (hp : ExitPlace L pageSize s x type)
    (hb : b ∈ range x 16 ∨ ∃ gap ∈ L.gaps, x ∈ gap.bytes ∧ gap.needFillZero = true ∧
      b ∈ range gap.start 16) : InUse L pageSize s b ∧ b ∉ L.data := by
  have hself : x ∈ range x 16 := mem_range_self (by decide)
  cases hp with
  | outLibrary hx =>
    have hmem := Set.disjoint_left.mp (hm.exit_mem hx)
    rcases hb with hb | ⟨gap, hgap, hin, -⟩
    · exact ⟨.exit hx hb, fun hdata => hmem hb (.inr (.inl hdata))⟩
    · exact absurd (.inr (.inr ⟨gap, hgap, hin⟩)) (hmem hself)
  | @inLibrary gap hgap hc hne =>
    rcases hb with hb | ⟨gap', hgap', hin, hfill, hb⟩
    · refine ⟨.cell hgap hc hb, fun hdata => ?_⟩
      exact Set.disjoint_left.mp (L.data_gaps gap hgap) hdata (hc.subset hb)
    · obtain rfl := L.gap_eq hgap hgap' (hc.subset hself) hin
      have hmark := hc.mark (L.good gap hgap) hfill
      refine ⟨.cell hgap hmark hb, fun hdata => ?_⟩
      exact Set.disjoint_left.mp (L.data_gaps gap hgap) hdata (hmark.subset hb)

/-- The bytes of an exit are no code, and of no enter trampoline. -/
theorem ExitPlace.apart (hm : Managers L pageSize s) (hp : ExitPlace L pageSize s x type)
    (hb : b ∈ range x 16 ∨ ∃ gap ∈ L.gaps, x ∈ gap.bytes ∧ gap.needFillZero = true ∧
      b ∈ range gap.start 16) :
    b ∉ L.code ∧ ∀ e, s.enters.Held pageSize e → b ∉ range e 256 := by
  have hself : x ∈ range x 16 := mem_range_self (by decide)
  have hgap : ∀ gap ∈ L.gaps, b ∈ gap.bytes →
      b ∉ L.code ∧ ∀ e, s.enters.Held pageSize e → b ∉ range e 256 := by
    intro gap hgap hin
    refine ⟨fun hcode => Set.disjoint_left.mp (L.code_gaps gap hgap) hcode hin, fun e he hb => ?_⟩
    exact Set.disjoint_left.mp (hm.enter_mem he) hb (.inr (.inr ⟨gap, hgap, hin⟩))
  cases hp with
  | outLibrary hx =>
    have hmem := Set.disjoint_left.mp (hm.exit_mem hx)
    rcases hb with hb | ⟨gap, hgap', hin, -⟩
    · exact ⟨fun hcode => hmem hb (.inl hcode), fun e he hb' =>
        Set.disjoint_left.mp (hm.enter_exit he hx) hb' hb⟩
    · exact absurd (.inr (.inr ⟨gap, hgap', hin⟩)) (hmem hself)
  | @inLibrary gap hgap' hc hne =>
    rcases hb with hb | ⟨gap', hgap'', hin, hfill, hb⟩
    · exact hgap gap hgap' (hc.subset hb)
    · obtain rfl := L.gap_eq hgap' hgap'' (hc.subset hself) hin
      exact hgap gap hgap' ((hc.mark (L.good gap hgap') hfill).subset hb)

theorem ExitPlace.congr (hp : ExitPlace L pageSize s x type)
    (hexits : s.exits.Held pageSize x → s'.exits.Held pageSize x)
    (hkeep : ∀ b, (b ∈ range x 16 ∨ ∃ gap ∈ L.gaps, x ∈ gap.bytes ∧ gap.needFillZero = true ∧
      b ∈ range gap.start 16) → s'.mem b = s.mem b) : ExitPlace L pageSize s' x type := by
  cases hp with
  | outLibrary hx => exact .outLibrary (hexits hx)
  | @inLibrary gap hgap hc hne =>
    refine .inLibrary hgap (hc.congr (fun b hb => hkeep b (.inl hb)) fun hfill b hb => ?_) hne
    exact hkeep b (.inr ⟨gap, hgap, hc.subset (mem_range_self (by decide)), hfill, hb⟩)

/-- **The bytes of a hook are in use**, and no variables. -/
theorem Installed.inUse (hm : Managers L pageSize s) (hi : Installed L pageSize m₀ s h)
    (hb : b ∈ h.bytes L) : InUse L pageSize s b ∧ b ∉ L.data := by
  rcases hb with hb | hb | ⟨hne, hb⟩
  · exact ⟨.code (hi.window hb), fun hdata =>
      Set.disjoint_left.mp L.data_code hdata (hi.window hb)⟩
  · exact ⟨.enter hi.enter hb, fun hdata =>
      Set.disjoint_left.mp (hm.enter_mem hi.enter) hb (.inr (.inl hdata))⟩
  · cases hi.jump with
    | direct hzero => exact absurd hzero hne
    | exit _ _ _ _ _ hplace => exact hplace.inUse hm hb

/-- Code that a hook rests on is in its window. -/
theorem Installed.in_window (hm : Managers L pageSize s) (hi : Installed L pageSize m₀ s h)
    (hb : b ∈ h.bytes L) (hcode : b ∈ L.code) : b ∈ h.window := by
  rcases hb with hb | hb | ⟨hne, hb⟩
  · exact hb
  · exact absurd (.inl hcode) (Set.disjoint_left.mp (hm.enter_mem hi.enter) hb)
  · cases hi.jump with
    | direct hzero => exact absurd hzero hne
    | exit _ _ _ _ _ hplace => exact absurd hcode (hplace.apart hm hb).1

/-- **A hook stays in place** while its bytes stay. -/
theorem Installed.congr (hi : Installed L pageSize m₀ s h)
    (hkeep : ∀ b ∈ h.bytes L, s'.mem b = s.mem b)
    (henter : s'.enters.Held pageSize h.self.enterAddr)
    (hexits : s.exits.Held pageSize h.self.exitAddr → s'.exits.Held pageSize h.self.exitAddr) :
    Installed L pageSize m₀ s' h := by
  obtain ⟨code, hcode, hlen, hholds⟩ := hi.moved
  have hjump : Jump L pageSize s' h := by
    cases hi.jump with
    | direct hzero htrampo => exact .direct hzero htrampo
    | exit hne htrampo hexit hat hreach hplace =>
      refine .exit hne htrampo hexit (hat.congr fun b hb => hkeep b ?_) hreach
        (hplace.congr hexits fun b hb => hkeep b (.inr (.inr ⟨hne, hb⟩)))
      rw [hexit, shA64AbsoluteJumpWithBr] at hb
      exact .inr (.inr ⟨hne, .inl (bytesAt_four ▸ hb)⟩)
  refine ⟨hi.window, hi.aligned, hi.fits, hi.backup, hi.backupLen, hi.short, hi.words,
    hi.patched.congr fun b hb => hkeep b (.inl ?_), henter,
    ⟨code, hcode, hlen, hholds.congr fun b hb => hkeep b (.inr (.inl ?_))⟩, hjump⟩
  · rwa [hi.words] at hb
  · rw [bytesAt_eq_range (by omega)] at hb
    exact range_mono (by omega) hb

end Hook

/-! ## All hooks -/

section Frames

theorem Frame.refl (hm : Managers L pageSize s) : Frame L pageSize s s :=
  ⟨hm, fun _ h => h, fun _ h => h, fun _ _ _ => rfl⟩

theorem Frame.inUse (hf : Frame L pageSize s s') (hb : InUse L pageSize s b) :
    InUse L pageSize s' b := hb.mono hf.keep hf.enters hf.exits

theorem Frame.trans (h₁ : Frame L pageSize s s') (h₂ : Frame L pageSize s' s'') :
    Frame L pageSize s s'' where
  managers := h₂.managers
  enters e he := h₂.enters e (h₁.enters e he)
  exits x hx := h₂.exits x (h₁.exits x hx)
  keep b hb hdata := (h₂.keep b (h₁.inUse hb) hdata).trans (h₁.keep b hb hdata)

/-- **Hooks survive a call.** -/
theorem Inv.frame (hI : Inv L pageSize m₀ H s) (hf : Frame L pageSize s s') :
    Inv L pageSize m₀ H s' where
  managers := hf.managers
  live h hh := by
    have hi := hI.live h hh
    refine hi.congr (fun b hb => ?_) (hf.enters _ hi.enter) (hf.exits _)
    obtain ⟨huse, hdata⟩ := hi.inUse hI.managers hb
    exact hf.keep b huse hdata
  apart := hI.apart
  code b hb hout := by
    have hdata : b ∉ L.data := fun hdata => Set.disjoint_left.mp L.data_code hdata hb
    rw [hf.keep b (.code hb) hdata, hI.code b hb hout]

end Frames

end Koola.Inline
