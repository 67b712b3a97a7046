import Koola.Inline.HookRewrite

/-!
# The enter trampoline

A call of the original function enters the trampoline. Until control leaves the overwritten
instructions, the trampoline does what they did.

* `Enter`: a trampoline and the instructions it stands for; `Enter.entry`: where an instruction is
  moved to.
* `Enter.fix_place`, `Enter.fix_other`: where branches are moved to.
* `Enter.Inside`, `Enter.Left`: the two machines in the overwritten instructions, and behind them;
  `Enter.Tame`: what an instruction must leave alone.
* `Enter.step_inside`: one instruction.
* **`Enter.visit`**: a visit of the overwritten instructions, of any length.
-/

namespace Koola.Inline

open A64

/-- **A trampoline** with the code that `sh_inst_hook_rewrite` leaves there. -/
structure Enter where
  target : Addr
  enter : Addr
  insts : List (BitVec 32)
  code : List (BitVec 32)
  moved : enterCode enter target insts = some code
  fits : target.toNat + 4 * insts.length < 2 ^ 64

/-! ## Where an instruction is moved to -/

/-- The bytes of the first `i` instructions after the move. -/
def movedLen (insts : List (BitVec 32)) (i : ℕ) : ℕ :=
  ((insts.take i).map shA64GetRewriteInstLen).sum

section MovedLen

variable {rinfo : ShA64RewriteInfo} {insts code : List (BitVec 32)} {inst : BitVec 32} {pc : Addr}
  {i : ℕ}

theorem moved_cons (h : Inline.moved rinfo (inst :: insts) pc = some code) :
    ∃ ws rest, code = ws ++ rest ∧ shA64Rewrite rinfo inst pc = some ws ∧
      Inline.moved rinfo insts (pc + 4) = some rest := by
  rw [Inline.moved] at h
  split at h
  · cases h
    exact ⟨_, _, rfl, ‹_›, ‹_›⟩
  · cases h

theorem moved_length (h : Inline.moved rinfo insts pc = some code) :
    4 * code.length = movedLen insts insts.length := by
  induction insts generalizing pc code with
  | nil =>
    cases h
    rfl
  | cons inst insts ih =>
    obtain ⟨ws, rest, rfl, hws, hrest⟩ := moved_cons h
    have hlen := shA64Rewrite_length hws
    have htail := ih hrest
    rw [movedLen, List.length_cons, List.take_succ_cons, List.map_cons, List.sum_cons,
      List.length_append, mul_add, hlen, htail, movedLen]

/-- The words of the instruction number `i`. -/
theorem moved_at (h : Inline.moved rinfo insts pc = some code) (hi : insts[i]? = some inst) :
    ∃ pre ws post, code = pre ++ (ws ++ post) ∧ 4 * pre.length = movedLen insts i ∧
      shA64Rewrite rinfo inst (place pc i) = some ws := by
  induction insts generalizing pc code i with
  | nil => cases hi
  | cons head insts ih =>
    obtain ⟨ws, rest, rfl, hws, hrest⟩ := moved_cons h
    cases i with
    | zero =>
      cases hi
      exact ⟨[], ws, rest, rfl, rfl, by rwa [place_zero]⟩
    | succ i =>
      obtain ⟨pre, ws', post, rfl, hpre, hws'⟩ := ih hrest hi
      refine ⟨ws ++ pre, ws', post, (List.append_assoc _ _ _).symm, ?_, ?_⟩
      · have hlen := shA64Rewrite_length hws
        rw [List.length_append, mul_add, hlen, hpre, movedLen, movedLen, List.take_succ_cons,
          List.map_cons, List.sum_cons]
      · rwa [show pc + 4 = place pc 1 from rfl, place_add, add_comm] at hws'

theorem movedLen_succ (hi : insts[i]? = some inst) :
    movedLen insts (i + 1) = movedLen insts i + shA64GetRewriteInstLen inst := by
  rw [movedLen, movedLen, List.take_add_one, hi, List.map_append, List.sum_append]
  simp

end MovedLen

/-! ## Branches into the overwritten instructions -/

section FixAddr

variable {lens : List ℕ} {start : Addr} {j offset : ℕ}

theorem toNat_place {a : Addr} {n : ℕ} (h : a.toNat + 4 * n < 2 ^ 64) :
    (place a n).toNat = a.toNat + 4 * n := toNat_add_ofNat h

theorem fixOffset_place (hj : j ≤ lens.length) (hfits : start.toNat + 4 * j < 2 ^ 64) :
    fixOffset (place start j) lens start offset = offset + (lens.take j).sum := by
  induction lens generalizing start j offset with
  | nil =>
    rw [fixOffset, List.take_nil, List.sum_nil, add_zero]
  | cons len lens ih =>
    cases j with
    | zero =>
      rw [fixOffset, place_zero, if_pos (BitVec.le_refl start)]
      rfl
    | succ j =>
      have hlt : start < place start (j + 1) := by
        rw [BitVec.lt_def, toNat_place hfits]
        omega
      have hnext : (place start 1).toNat = start.toNat + 4 := toNat_place (by omega)
      have hplace : place start (j + 1) = place (place start 1) j := by rw [place_add, add_comm]
      rw [List.length_cons] at hj
      rw [fixOffset, if_neg (BitVec.not_le.mpr hlt), show start + 4 = place start 1 from rfl,
        hplace, ih (by omega) (by omega), List.take_succ_cons, List.sum_cons, add_assoc]

end FixAddr

namespace Enter

variable (h : Enter)

/-- Where the instruction number `i` is moved to; for the last one, the jump back. -/
def entry (i : ℕ) : Addr := h.enter + BitVec.ofNat 64 (movedLen h.insts i)

def info : ShA64RewriteInfo :=
  ⟨h.target, place h.target h.insts.length, h.enter, h.insts.map shA64GetRewriteInstLen⟩

/-- The overwritten bytes. -/
def window : Set Addr := {a | h.target ≤ a ∧ a < place h.target h.insts.length}

variable {h} {i j : ℕ} {inst : BitVec 32} {a : Addr}

theorem toNat_place (hi : i ≤ h.insts.length) :
    (place h.target i).toNat = h.target.toNat + 4 * i := by
  have hfits := h.fits
  exact Inline.toNat_place (by omega)

theorem place_mem_window (hj : j < h.insts.length) : place h.target j ∈ h.window := by
  constructor
  · rw [BitVec.le_def, h.toNat_place hj.le]
    omega
  · rw [BitVec.lt_def, h.toNat_place hj.le, h.toNat_place le_rfl]
    omega

theorem fix_place (hj : j < h.insts.length) :
    shA64FixAddr h.info (place h.target j) = h.entry j := by
  have hfits := h.fits
  have hin : h.info.startAddr ≤ place h.target j ∧ place h.target j < h.info.endAddr :=
    h.place_mem_window hj
  rw [shA64FixAddr, if_pos hin, info, fixOffset_place (by rw [List.length_map]; omega) (by omega),
    zero_add, ← List.map_take]
  rfl

theorem fix_other (ha : a ∉ h.window) : shA64FixAddr h.info a = a := if_neg ha

/-- The addresses in the window that branches go to. -/
theorem exists_place (ha : a ∈ h.window) (halign : (a - h.target).toNat % 4 = 0) :
    ∃ j < h.insts.length, a = place h.target j := by
  obtain ⟨hle, hlt⟩ := ha
  rw [BitVec.le_def] at hle
  rw [BitVec.lt_def, h.toNat_place le_rfl] at hlt
  have hsub : (a - h.target).toNat = a.toNat - h.target.toNat := BitVec.toNat_sub_of_le hle
  refine ⟨(a - h.target).toNat / 4, by omega, ?_⟩
  rw [place, Nat.mul_div_cancel' (Nat.dvd_of_mod_eq_zero halign), BitVec.ofNat_toNat,
    BitVec.setWidth_eq, add_sub_cancel]

/-- The words of an instruction stand at its entry, and the next entry is behind them. -/
theorem entry_holds {m : Mem} (hcode : Holds m h.enter h.code) (hi : h.insts[i]? = some inst) :
    ∃ ws, shA64Rewrite h.info inst (place h.target i) = some ws ∧ Holds m (h.entry i) ws ∧
      place (h.entry i) ws.length = h.entry (i + 1) ∧ 0 < ws.length ∧
      ∀ a ∈ bytesAt (h.entry i) ws.length, a ∈ bytesAt h.enter h.code.length := by
  have hmoved := h.moved
  rw [enterCode, Option.map_eq_some_iff] at hmoved
  obtain ⟨code, hmoved, heq⟩ := hmoved
  obtain ⟨pre, ws, post, rfl, hpre, hws⟩ := moved_at hmoved hi
  have hlen := shA64Rewrite_length hws
  have hentry : place h.enter pre.length = h.entry i := by rw [place, hpre]; rfl
  have hpos : 0 < shA64GetRewriteInstLen inst := by
    rw [shA64GetRewriteInstLen]
    cases shA64GetType inst <;> decide
  rw [← heq, holds_append, holds_append, holds_append] at hcode
  refine ⟨ws, hws, hentry ▸ hcode.1.2.1, ?_, by omega, fun a ha => ?_⟩
  · rw [entry, entry, place, hlen, add_ofNat, movedLen_succ hi]
  · rw [← hentry] at ha
    refine mem_bytesAt_of_lt (mem_bytesAt_of_place ha) ?_
    rw [← heq, List.length_append, List.length_append, List.length_append]
    omega

/-- The jump back. -/
theorem run_back {other : Others} {c : Cpu} (hcode : Holds c.mem h.enter h.code) :
    A64.run other 2 ⟨c, h.entry h.insts.length⟩ =
      ⟨c.setReg 17 (place h.target h.insts.length), place h.target h.insts.length⟩ := by
  have hmoved := h.moved
  rw [enterCode, Option.map_eq_some_iff] at hmoved
  obtain ⟨code, hmoved, heq⟩ := hmoved
  have hentry : place h.enter code.length = h.entry h.insts.length := by
    rw [place, moved_length hmoved]
    rfl
  rw [← heq, holds_append, hentry] at hcode
  have hldr : step other ⟨c, place (h.entry h.insts.length) 0⟩ = _ :=
    step_ldr_at 17 2 hcode.2 rfl (by decide) rfl rfl
  rw [place_zero] at hldr
  rw [run_succ, hldr, run_succ, step_ret_at (n := 1) hcode.2 rfl]
  rfl

/-! ## One instruction -/

variable (h) (other : Others) (R : Set (BitVec 5)) (D : Set Addr)

/-- **What an instruction must leave alone.** It does the same from every state that agrees, and it
does not write to the trampoline. -/
def Tolerates (i : Instr) (pc : Addr) (c : Cpu) : Prop :=
  ∀ c', Agree R D c c' → (exec other i pc c').2 = (exec other i pc c).2 ∧
    Agree R D (exec other i pc c).1 (exec other i pc c').1 ∧
    ∀ a ∈ bytesAt h.enter h.code.length, (exec other i pc c').1.mem a = c'.mem a

/-- **The instruction number `i` in the state `c`.** It can be moved; what it loses then is free; a
jump through a register does not go to the overwritten instructions; and `x17` is not needed where a
branch does. -/
structure Tame (i : ℕ) (inst : BitVec 32) (c : Cpu) : Prop where
  original : Holds c.mem h.target h.insts
  movable : other.Movable (decode inst)
  tolerates : h.Tolerates other R D (decode inst) (place h.target i) c
  free : ScratchFree (decode inst) (place h.target i) c (bytesAt h.enter h.code.length)
  scratch : ∀ a ∈ scratch (decode inst) c, a ∈ D
  indirect : (decode inst).relative = false → ∀ a ∈ h.window,
    (exec other (decode inst) (place h.target i) c).2 ≠ .jump a ∧
      (exec other (decode inst) (place h.target i) c).2 ≠ .call a
  loops : ∀ a ∈ h.window, (exec other (decode inst) (place h.target i) c).2 = .jump a → 17 ∈ R

/-- The two machines are at the instruction number `i`. -/
structure Inside (i : ℕ) (M M' : Machine) : Prop where
  pc : M.pc = place h.target i
  pc' : M'.pc = h.entry i
  agree : Agree R D M.cpu M'.cpu
  code : Holds M'.cpu.mem h.enter h.code

/-- The instruction calls a function. -/
def Calls (i : ℕ) (inst : BitVec 32) (c : Cpu) : Prop :=
  ∃ a, (exec other (decode inst) (place h.target i) c).2 = .call a

/-- **The two machines have left the overwritten instructions**, for the same place. A function that
they have called returns to the next instruction in the one and to its entry in the other. -/
inductive Left (M M' : Machine) : Prop
  | jump : M'.pc = M.pc → Agree (R ∪ {17}) D M.cpu M'.cpu →
      Holds M'.cpu.mem h.enter h.code → Left M M'
  | call (i : ℕ) : i < h.insts.length → M'.pc = shA64FixAddr h.info M.pc →
      M.cpu.x 30 = place h.target (i + 1) → M'.cpu.x 30 = h.entry (i + 1) →
      Agree (R ∪ {17, 30}) D M.cpu M'.cpu → Holds M'.cpu.mem h.enter h.code → Left M M'

section Step

variable {h other R D} {c c' : Cpu} {M M' : Machine} {f : Flow}

theorem scratch_congr {i : Instr} (hsp : c'.x 31 = c.x 31) :
    Koola.scratch i c' = Koola.scratch i c := by
  cases i with
  | ldrLit kind _ _ => rw [Koola.scratch, Koola.scratch, belowSp, belowSp, hsp]
  | b | bl | bCond | cb | tb | adr | adrp | br | blr | ret | ldr | ldur | stp | other => rfl

/-- The moved instruction, from a state that agrees. -/
theorem reproduces_entry (hsp : 31 ∉ R) (hi : h.insts[i]? = some inst)
    (ht : h.Tame other R D i inst c) (hagree : Agree R D c c')
    (hcode : Holds c'.mem h.enter h.code) :
    ∃ k c'' p, A64.run other (k + 1) ⟨c', h.entry i⟩ =
        ((exec other (decode inst) (place h.target i) c).2.map
          (rewriteFix h.info inst)).land c'' p ∧
      p + 4 = h.entry (i + 1) ∧
      Agree (R ∪ clobbered (exec other (decode inst) (place h.target i) c).2) D
        (exec other (decode inst) (place h.target i) c).1 c'' ∧
      Holds c''.mem h.enter h.code := by
  obtain ⟨ws, hws, hat, hnext, hpos, hsub⟩ := h.entry_holds hcode hi
  obtain ⟨hflow, hexec, hkeep⟩ := ht.tolerates c' hagree
  have hscratch := scratch_congr (i := decode inst) (hagree.x 31 hsp)
  have hfree : ScratchFree (decode inst) (place h.target i) c'
      (bytesAt (h.entry i) ws.length) := by
    refine ⟨fun a ha hin => ?_, fun a ha => ?_⟩
    · exact ht.free.code a (hscratch ▸ ha) (hsub a hin)
    · exact ht.free.literal a (hscratch ▸ ha)
  have hrep : Reproduces other _ _ _ c' _ _ := shA64Rewrite_reproduces hws hat ht.movable hfree
  obtain ⟨k, c'', hrun, hagree''⟩ := hrep
  rw [hflow] at hrun hagree''
  rw [hscratch] at hagree''
  refine ⟨k, c'', _, hrun, ?_, ?_, ?_⟩
  · rw [place_succ, Nat.sub_add_cancel hpos, hnext]
  · exact (hexec.mono Set.subset_union_left subset_rfl).trans
      (hagree''.mono Set.subset_union_right ht.scratch)
  · refine hcode.congr fun a ha => ?_
    rw [hagree''.mem a fun hin => ht.free.code a hin ha]
    exact hkeep a ha

theorem rewriteFix_out (ha : a ∉ h.window) : rewriteFix h.info inst a = a := by
  rw [rewriteFix, h.fix_other ha, ite_self]

/-- A jump into the overwritten instructions. -/
theorem rewriteFix_in (ht : h.Tame other R D i inst c)
    (ha : a ∈ h.window)
    (hflow : (exec other (decode inst) (place h.target i) c).2 = .jump a) :
    ∃ j < h.insts.length, a = place h.target j ∧ rewriteFix h.info inst a = h.entry j := by
  have hrel : (decode inst).relative = true := by
    by_contra hno
    exact (ht.indirect (Bool.eq_false_of_not_eq_true hno) a ha).1 hflow
  have halign : (a - h.target).toNat % 4 = 0 := by
    have hword := branch_aligned hrel (.inl hflow)
    have hsub : a - h.target = a - place h.target i + BitVec.ofNat 64 (4 * i) := by
      rw [place]
      ring
    rw [hsub, BitVec.toNat_add, BitVec.toNat_ofNat]
    omega
  obtain ⟨j, hj, rfl⟩ := h.exists_place ha halign
  refine ⟨j, hj, rfl, ?_⟩
  have htype : ¬ shA64GetType inst = .ignored := fun htype => by
    rw [ignored_iff.mp htype] at hrel
    cases hrel
  rw [rewriteFix, if_neg htype, h.fix_place hj]

theorem rewriteFix_call (ht : h.Tame other R D i inst c)
    (hflow : (exec other (decode inst) (place h.target i) c).2 = .call a) :
    rewriteFix h.info inst a = shA64FixAddr h.info a := by
  rw [rewriteFix]
  split
  · have hrel : (decode inst).relative = false := ignored_iff.mp ‹_›
    exact (h.fix_other fun ha => (ht.indirect hrel a ha).2 hflow).symm
  · rfl

theorem step_original (hpc : M.pc = place h.target i) (hi : h.insts[i]? = some inst)
    (ht : h.Tame other R D i inst M.cpu) :
    step other M = (exec other (decode inst) (place h.target i) M.cpu).2.land
      (exec other (decode inst) (place h.target i) M.cpu).1 (place h.target i) := by
  obtain ⟨c, pc⟩ := M
  cases hpc
  exact step_of_read (ht.original.read hi) rfl

/-- The end of the overwritten instructions. -/
theorem end_not_mem_window : place h.target h.insts.length ∉ h.window :=
  fun hin => BitVec.lt_irrefl _ hin.2

variable {k : ℕ} {c'' : Cpu} {p : Addr}

/-- The instruction goes on to the next one, or to the jump back. -/
theorem step_next (hi : i < h.insts.length)
    (hrun : A64.run other (k + 1) M' = ⟨c'', h.entry (i + 1)⟩) (hagree : Agree R D c c'')
    (hcode : Holds c''.mem h.enter h.code) :
    (∃ j < h.insts.length, ∃ k,
      h.Inside R D j ⟨c, place h.target i + 4⟩ (A64.run other (k + 1) M')) ∨
      (place h.target i + 4 ∉ h.window ∧
        ∃ k, h.Left R D ⟨c, place h.target i + 4⟩ (A64.run other (k + 1) M')) := by
  rw [place_succ]
  by_cases hlast : i + 1 < h.insts.length
  · refine .inl ⟨i + 1, hlast, k, ?_⟩
    rw [hrun]
    exact ⟨rfl, rfl, hagree, hcode⟩
  · have hend : i + 1 = h.insts.length := by omega
    have hback : A64.run other (k + 2 + 1) M' = ⟨c''.setReg 17 (place h.target h.insts.length),
        place h.target h.insts.length⟩ := by
      rw [show k + 2 + 1 = k + 1 + 2 from rfl, run_add, hrun, hend, run_back hcode]
    refine .inr ⟨hend ▸ h.end_not_mem_window, k + 2, ?_⟩
    rw [hback, hend]
    refine .jump rfl ?_ hcode.setReg
    exact (hagree.mono Set.subset_union_left subset_rfl).trans
      (.setReg c'' (Set.mem_union_right R (Set.mem_singleton 17)) _)

/-- The instruction jumps. -/
theorem step_jump (ht : h.Tame other R D i inst M.cpu)
    (hflow : (exec other (decode inst) (place h.target i) M.cpu).2 = .jump a)
    (hrun : A64.run other (k + 1) M' = ⟨c'', rewriteFix h.info inst a⟩)
    (hagree : Agree (R ∪ {17}) D c c'') (hcode : Holds c''.mem h.enter h.code) :
    (∃ j < h.insts.length, ∃ k, h.Inside R D j ⟨c, a⟩ (A64.run other (k + 1) M')) ∨
      (a ∉ h.window ∧ ∃ k, h.Left R D ⟨c, a⟩ (A64.run other (k + 1) M')) := by
  by_cases ha : a ∈ h.window
  · obtain ⟨j, hj, hplace, hfix⟩ := rewriteFix_in ht ha hflow
    have hR : R ∪ {17} ⊆ R := Set.union_subset subset_rfl
      (Set.singleton_subset_iff.mpr (ht.loops a ha hflow))
    refine .inl ⟨j, hj, k, ?_⟩
    rw [hrun, hfix]
    exact ⟨hplace, rfl, hagree.mono hR subset_rfl, hcode⟩
  · refine .inr ⟨ha, k, ?_⟩
    rw [hrun, rewriteFix_out ha]
    exact .jump rfl hagree hcode

/-- The instruction calls. -/
theorem step_call (hi : i < h.insts.length) (ht : h.Tame other R D i inst M.cpu)
    (hflow : (exec other (decode inst) (place h.target i) M.cpu).2 = .call a)
    (hrun : A64.run other (k + 1) M' =
      ⟨c''.setReg 30 (h.entry (i + 1)), rewriteFix h.info inst a⟩)
    (hagree : Agree (R ∪ {17}) D c c'') (hcode : Holds c''.mem h.enter h.code) :
    h.Left R D ⟨c.setReg 30 (place h.target i + 4), a⟩ (A64.run other (k + 1) M') := by
  rw [hrun, rewriteFix_call ht hflow, place_succ]
  have hR : R ∪ {17} ⊆ R ∪ {17, 30} :=
    Set.union_subset_union_right R (Set.singleton_subset_iff.mpr (Set.mem_insert _ _))
  have h30 : (30 : BitVec 5) ∈ R ∪ {17, 30} := Set.mem_union_right R (.inr rfl)
  exact .call i hi rfl (Cpu.setReg_x (r := 30) (by decide)) (Cpu.setReg_x (r := 30) (by decide))
    ((hagree.mono hR subset_rfl).setReg_both h30 _ _) hcode.setReg

/-- **One instruction**: both machines stay, or both leave. -/
theorem step_inside (hsp : 31 ∉ R) (hi : h.insts[i]? = some inst)
    (ht : h.Tame other R D i inst M.cpu) (hin : h.Inside R D i M M') :
    (¬ h.Calls other i inst M.cpu ∧
        ∃ j < h.insts.length, ∃ k, h.Inside R D j (step other M) (A64.run other (k + 1) M')) ∨
      ((h.Calls other i inst M.cpu ∨ (step other M).pc ∉ h.window) ∧
        ∃ k, h.Left R D (step other M) (A64.run other (k + 1) M')) := by
  have hlt : i < h.insts.length := (List.getElem?_eq_some_iff.mp hi).1
  obtain ⟨k, c'', p, hrun, hp, hagree, hcode⟩ := reproduces_entry hsp hi ht hin.agree hin.code
  rw [show (⟨M'.cpu, h.entry i⟩ : Machine) = M' from hin.pc' ▸ rfl] at hrun
  rw [step_original hin.pc hi ht, Calls]
  cases hflow : (exec other (decode inst) (place h.target i) M.cpu).2 with
  | next =>
    rw [hflow] at hrun hagree
    rw [clobbered, Set.union_empty] at hagree
    have hno : ¬ ∃ a, Flow.next = .call a := by rintro ⟨a, ⟨⟩⟩
    have hnext : A64.run other (k + 1) M' = ⟨c'', h.entry (i + 1)⟩ := hp ▸ hrun
    rcases step_next hlt hnext hagree hcode with hstay | ⟨hout, hleft⟩
    · exact .inl ⟨hno, hstay⟩
    · exact .inr ⟨.inr hout, hleft⟩
  | jump a =>
    rw [hflow] at hrun hagree
    have hno : ¬ ∃ a', Flow.jump a = .call a' := by rintro ⟨a', ⟨⟩⟩
    rcases step_jump ht hflow hrun hagree hcode with hstay | ⟨hout, hleft⟩
    · exact .inl ⟨hno, hstay⟩
    · exact .inr ⟨.inr hout, hleft⟩
  | call a =>
    rw [hflow] at hrun hagree
    have hcall : A64.run other (k + 1) M' =
        ⟨c''.setReg 30 (h.entry (i + 1)), rewriteFix h.info inst a⟩ := hp ▸ hrun
    exact .inr ⟨.inl ⟨a, rfl⟩, k, step_call hlt ht hflow hcall hagree hcode⟩

end Step

/-! ## A visit -/

/-- **A visit of the overwritten instructions** by the original machine, from a state in them to the
state in which it leaves or calls. -/
inductive Visit : Machine → Machine → Prop
  | leave {i : ℕ} {inst : BitVec 32} {M : Machine} : h.insts[i]? = some inst →
      M.pc = place h.target i → h.Tame other R D i inst M.cpu →
      h.Calls other i inst M.cpu ∨ (step other M).pc ∉ h.window → Visit M (step other M)
  | stay {i : ℕ} {inst : BitVec 32} {M N : Machine} : h.insts[i]? = some inst →
      M.pc = place h.target i → h.Tame other R D i inst M.cpu →
      ¬ h.Calls other i inst M.cpu → Visit (step other M) N → Visit M N

variable {h other R D} {M N M' : Machine}

theorem Visit.pc_mem (hv : h.Visit other R D M N) : M.pc ∈ h.window := by
  cases hv with
  | leave hi hpc | stay hi hpc => exact hpc ▸ h.place_mem_window (List.getElem?_eq_some_iff.mp hi).1

theorem place_injective (hi : i < h.insts.length) (hj : j < h.insts.length)
    (heq : place h.target i = place h.target j) : i = j := by
  have hnat := congrArg BitVec.toNat heq
  rw [h.toNat_place hi.le, h.toNat_place hj.le] at hnat
  omega

/-- **The trampoline does what the overwritten instructions did**, from any of them on and for a
visit of any length. -/
theorem visit (hsp : 31 ∉ R) (hv : h.Visit other R D M N) {i : ℕ} (hlt : i < h.insts.length)
    (hin : h.Inside R D i M M') : ∃ k, h.Left R D N (A64.run other k M') := by
  induction hv generalizing M' i with
  | leave hi hpc ht hout =>
    obtain rfl := h.place_injective hlt (List.getElem?_eq_some_iff.mp hi).1 (hin.pc.symm.trans hpc)
    rcases step_inside hsp hi ht hin with ⟨hno, j, hj, k, hstay⟩ | ⟨-, k, hleft⟩
    · refine absurd (hstay.pc ▸ h.place_mem_window hj) ?_
      exact hout.resolve_left hno
    · exact ⟨k + 1, hleft⟩
  | stay hi hpc ht hno hv ih =>
    obtain rfl := h.place_injective hlt (List.getElem?_eq_some_iff.mp hi).1 (hin.pc.symm.trans hpc)
    rcases step_inside hsp hi ht hin with ⟨-, j, hj, k, hstay⟩ | ⟨hout, -⟩
    · obtain ⟨k', hleft⟩ := ih hj hstay
      exact ⟨k + 1 + k', run_add ▸ hleft⟩
    · exact absurd hv.pc_mem (hout.resolve_left hno)

end Enter

end Koola.Inline
