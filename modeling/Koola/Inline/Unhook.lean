import Koola.Inline.HookSpec

/-!
# What `sh_inst_unhook` does

* `Inv.restore`: the instructions are written back; `Inv.freeExit`, `Inv.freeEnter`: the memory of
  the hook is given back; `Inv.unhookExit`: both for a hook with an exit.
* **`shInstUnhook_spec`**.
-/

namespace Koola.Inline

open A64 ShTrampoMgr ShExitGap

variable {L : Layout} {pageSize : ℕ} {m₀ : Mem} {s s' : InstState} {H H' : List Hooked} {h : Hooked}
  {b e x : Addr} {type : ShExitType}

section Unhook

theorem Inv.perm (hI : Inv L pageSize m₀ H s) (hp : H.Perm H') : Inv L pageSize m₀ H' s where
  managers := hI.managers
  live h hh := hI.live h (hp.mem_iff.mpr hh)
  apart := (hp.pairwise_iff fun ha => ha.symm).mp hI.apart
  code b hb hout := hI.code b hb fun h hh => hout h (hp.mem_iff.mp hh)

/-- **The instructions are written back**: the hook is none any more. -/
theorem Inv.restore (hI : Inv L pageSize m₀ (h :: H) s) :
    Inv L pageSize m₀ H { s with mem := s.mem.writeWords h.target h.self.backup } := by
  have hi := hI.live h List.mem_cons_self
  have hapart := (List.pairwise_cons.mp hI.apart).1
  have hout : ∀ b, b ∉ h.window → s.mem.writeWords h.target h.self.backup b = s.mem b :=
    fun b hb => Mem.writeWords_apart hb
  refine ⟨hI.managers.setMem _, fun h' hh' => ?_, (List.pairwise_cons.mp hI.apart).2,
    fun b hb hnone => ?_⟩
  · have hi' := hI.live h' (List.mem_cons_of_mem _ hh')
    refine hi'.congr (fun b hb => hout b fun hin => ?_) hi'.enter id
    exact Set.disjoint_left.mp (hapart h' hh').window hin
      (hi'.in_window hI.managers hb (hi.window hin))
  · by_cases hin : b ∈ h.window
    · have hwords : (s.mem.writeWords h.target h.self.backup).readWords h.target
          h.self.backup.length = m₀.readWords h.target h.self.backup.length := by
        have hshort := hi.short
        rw [← hi.backup]
        exact Mem.holds_iff_readWords.mp (Mem.holds_writeWords (by omega))
      exact Mem.bytes_of_readWords hwords b hin
    · refine (hout b hin).trans (hI.code b hb fun h' hh' => ?_)
      rcases List.mem_cons.mp hh' with rfl | hh'
      · exact hin
      · exact hnone h' hh'

/-- **Exits have nothing in common**, and the marks of their gaps are in none. -/
theorem ExitPlace.not_mem {x' : Addr} {type' : ShExitType} (hm : Managers L pageSize s)
    (hp : ExitPlace L pageSize s x type) (hp' : ExitPlace L pageSize s x' type') (hne : x ≠ x')
    (hb : b ∈ range x' 16 ∨ ∃ gap ∈ L.gaps, x' ∈ gap.bytes ∧ gap.needFillZero = true ∧
      b ∈ range gap.start 16) : b ∉ range x 16 := by
  intro hin
  have hself : x' ∈ range x' 16 := mem_range_self (by decide)
  cases hp with
  | outLibrary hx =>
    have hmem := Set.disjoint_left.mp (hm.exit_mem hx) hin
    cases hp' with
    | outLibrary hx' =>
      rcases hb with hb | ⟨gap, hgap, hx'', -⟩
      · exact Set.disjoint_left.mp (hm.exit_exit hx hx' hne) hin hb
      · exact Set.disjoint_left.mp (hm.exit_mem hx') hself (.inr (.inr ⟨gap, hgap, hx''⟩))
    | @inLibrary gap hgap hc' hmark' =>
      rcases hb with hb | ⟨gap', hgap', hx'', hfill, hb⟩
      · exact hmem (cell_mem hgap hc' hb)
      · obtain rfl := L.gap_eq hgap hgap' (hc'.subset hself) hx''
        exact hmem (cell_mem hgap (hc'.mark (L.good gap hgap) hfill) hb)
  | @inLibrary gap hgap hc hmark =>
    cases hp' with
    | outLibrary hx' =>
      rcases hb with hb | ⟨gap', hgap', hx'', -⟩
      · exact Set.disjoint_left.mp (hm.exit_mem hx') hb (cell_mem hgap hc hin)
      · exact Set.disjoint_left.mp (hm.exit_mem hx') hself (.inr (.inr ⟨gap', hgap', hx''⟩))
    | @inLibrary gap' hgap' hc' hmark' =>
      rcases hb with hb | ⟨gap'', hgap'', hx'', hfill, hb⟩
      · exact Set.disjoint_left.mp (Layout.cells_disjoint hc hc' hne) hin hb
      · obtain rfl := L.gap_eq hgap' hgap'' (hc'.subset hself) hx''
        have hcm := hc'.mark (L.good gap' hgap') hfill
        obtain rfl := L.gap_eq hgap hgap' (hc.subset hin) (hcm.subset hb)
        exact Set.disjoint_left.mp (Layout.cells_disjoint hc hcm (hmark hfill)) hin hb

/-- What a hook rests on is not in the exit of another one. -/
theorem Installed.not_exit (hm : Managers L pageSize s) (hi : Installed L pageSize m₀ s h)
    (hp : ExitPlace L pageSize s x type) (hne : h.self.exitAddr ≠ 0 → x ≠ h.self.exitAddr)
    (hb : b ∈ h.bytes L) : b ∉ range x 16 := by
  rcases hb with hb | hb | ⟨hzero, hb⟩
  · exact fun hin => (hp.apart hm (.inl hin)).1 (hi.window hb)
  · exact fun hin => (hp.apart hm (.inl hin)).2 _ hi.enter hb
  · cases hi.jump with
    | direct hz => exact absurd hz hzero
    | exit _ _ _ _ _ hp' => exact hp.not_mem hm hp' (hne hzero) hb

/-- An exit that no hook rests on is given back. -/
theorem Inv.freeExit (hI : Inv L pageSize m₀ H s) (hp : ExitPlace L pageSize s x type)
    (hne : ∀ h ∈ H, h.self.exitAddr ≠ 0 → x ≠ h.self.exitAddr)
    (hf : ExitFreed L pageSize s x s') : Inv L pageSize m₀ H s' where
  managers := hf.managers
  live h hh := by
    have hi := hI.live h hh
    refine hi.congr (fun b hb => hf.keep b (hi.not_exit hI.managers hp (hne h hh) hb))
      (hf.enters.symm ▸ hi.enter) fun hx => hf.held _ hx ?_
    exact (hne h hh (held_ne_zero hI.managers.exits hx)).symm
  apart := hI.apart
  code b hb hout :=
    (hf.keep b fun hin => (hp.apart hI.managers (.inl hin)).1 hb).trans (hI.code b hb hout)

/-- An enter trampoline that no hook has is given back. -/
theorem Inv.freeEnter (hI : Inv L pageSize m₀ H s) (he : s.enters.Held pageSize e)
    (hne : ∀ h ∈ H, h.self.enterAddr ≠ e) (now : ℤ) :
    Inv L pageSize m₀ H (shEnterFree pageSize e now s) := by
  obtain ⟨hm, hheld⟩ := hI.managers.free_enters he now
  refine ⟨hm, fun h hh => ?_, hI.apart, hI.code⟩
  have hi := hI.live h hh
  exact hi.congr (fun _ _ => rfl) ((hheld _).mpr ⟨hi.enter, hne h hh⟩) id

/-- **The exit is given back** once the instructions are. -/
theorem Inv.unhookExit {env : ExitFreeEnv} {r : Option ExitFreeErrno}
    (hI : Inv L pageSize m₀ (h :: H) s) (hexit : h.self.exitAddr ≠ 0)
    (hcode : h.self.exit = shA64AbsoluteJumpWithBr h.newAddr)
    (hholds : Holds s.mem h.self.exitAddr h.self.exit)
    (hplace : ExitPlace L pageSize s h.self.exitAddr h.self.exitType)
    (hfree : shExitFree pageSize h.self.exitAddr h.self.exitType h.self.exit env
      { s with mem := s.mem.writeWords h.target h.self.backup } = some (s', r)) :
    Inv L pageSize m₀ H s' ∧ s'.enters = s.enters ∧ r ≠ some .unhookExitMismatch := by
  have hi := hI.live h List.mem_cons_self
  have hapart := (List.pairwise_cons.mp hI.apart).1
  have hI₁ := hI.restore
  -- the exit and the mark of its gap are no code
  have hkeep : ∀ b, (b ∈ range h.self.exitAddr 16 ∨ ∃ gap ∈ L.gaps,
      h.self.exitAddr ∈ gap.bytes ∧ gap.needFillZero = true ∧ b ∈ range gap.start 16) →
      s.mem.writeWords h.target h.self.backup b = s.mem b := fun b hb =>
    Mem.writeWords_apart fun hin => (hplace.apart hI.managers hb).1 (hi.window hin)
  have hlen : h.self.exit.length = 4 := by rw [hcode]; rfl
  have hplace₁ : ExitPlace L pageSize { s with mem := s.mem.writeWords h.target h.self.backup }
      h.self.exitAddr h.self.exitType := hplace.congr id hkeep
  have hholds₁ : Holds (s.mem.writeWords h.target h.self.backup) h.self.exitAddr h.self.exit :=
    hholds.congr fun b hb => hkeep b (.inl (bytesAt_four ▸ hlen ▸ hb))
  obtain ⟨hfreed, hmis⟩ := shExitFree_spec hI₁.managers hplace₁ hholds₁ hlen hfree
  exact ⟨hI₁.freeExit hplace₁ (fun h' hh' _ => (hapart h' hh').exit hexit) hfreed,
    hfreed.enters, hmis⟩

/-- The codes of an unhook that has written the instructions back. -/
def restored : Option UnhookErrno → Bool
  | none | some (.exit _) => true
  | some _ => false

/-- **`sh_inst_unhook`** of a hook that is in place: the hook is gone, or all is as before. -/
theorem shInstUnhook_spec {env : UnhookEnv} {r : Option UnhookErrno}
    (hI : Inv L pageSize m₀ (h :: H) s) (hwrite : env.write ≠ .crash true)
    (heq : shInstUnhook pageSize h.self h.target env s = some (s', r)) :
    (restored r = true → Inv L pageSize m₀ H s') ∧ (restored r = false → s' = s) ∧
      r ≠ some .unhookTrampoMismatch ∧ r ≠ some (.exit .unhookExitMismatch) := by
  have hi := hI.live h List.mem_cons_self
  have hapart := (List.pairwise_cons.mp hI.apart).1
  have hmatch : s.mem.readWords h.target (h.self.backupLen / 4) = h.self.trampo := by
    have hlen := hi.backupLen
    rw [show h.self.backupLen / 4 = h.self.trampo.length by rw [hi.words]; omega]
    exact Mem.holds_iff_readWords.mp hi.patched
  rw [shInstUnhook] at heq
  split at heq
  · cases heq
    exact ⟨fun hr => absurd hr Bool.false_ne_true, fun _ => rfl, by simp, by simp⟩
  rw [if_neg (not_not.mpr hmatch)] at heq
  simp only [shUtilWriteInst] at heq
  cases hw : env.write with
  | mprotFails =>
    rw [hw] at heq
    cases heq
    exact ⟨fun hr => absurd hr Bool.false_ne_true, fun _ => rfl, by simp, by simp⟩
  | crash stored =>
    cases stored with
    | true => exact absurd hw hwrite
    | false =>
      rw [hw] at heq
      cases heq
      exact ⟨fun hr => absurd hr Bool.false_ne_true, fun _ => rfl, by simp, by simp⟩
  | ok =>
    rw [hw] at heq
    simp only at heq
    have hI₁ := hI.restore
    have hne : ∀ h' ∈ H, h'.self.enterAddr ≠ h.self.enterAddr :=
      fun h' hh' => (hapart h' hh').enter.symm
    cases hi.jump with
    | direct hzero =>
      rw [if_neg (not_not.mpr hzero)] at heq
      cases heq
      exact ⟨fun _ => hI₁.freeEnter hi.enter hne _,
        fun hr => absurd hr.symm Bool.false_ne_true, by simp, by simp⟩
    | exit hexit _ hcode hholds _ hplace =>
      rw [if_pos hexit] at heq
      cases hfree : shExitFree pageSize h.self.exitAddr h.self.exitType h.self.exit env.exitFree
          { s with mem := s.mem.writeWords h.target h.self.backup } with
      | none =>
        rw [hfree] at heq
        cases heq
      | some res =>
        obtain ⟨s₂, r₂⟩ := res
        obtain ⟨hI₂, henters, hmis⟩ := hI.unhookExit hexit hcode hholds hplace hfree
        rw [hfree] at heq
        cases r₂ with
        | some err =>
          cases heq
          refine ⟨fun _ => hI₂, fun hr => absurd hr.symm Bool.false_ne_true, by simp,
            fun hr => hmis ?_⟩
          cases hr
          rfl
        | none =>
          cases heq
          exact ⟨fun _ => hI₂.freeEnter (henters.symm ▸ hi.enter) hne _,
            fun hr => absurd hr.symm Bool.false_ne_true, by simp, by simp⟩

end Unhook

end Koola.Inline
