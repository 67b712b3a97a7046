import Koola.Hook.Shadowhook
import Koola.Inline.RewriteSound

/-!
# `sh_inst_hook_rewrite`

The instructions at the target are kept in `backup` and moved to the enter trampoline, with a jump
back behind them.

* `ShInst`, `rewriteLoop`, `shInstHookRewrite`: the function, on the memory.
* **`shA64Rewrite_eq_none`**, **`shA64Rewrite_sound`**: which instructions cannot be moved, and what
  the others do at their new place.
* `moved`, `enterCode`: what the loop writes, as a list.
* `shInstHookRewrite_some`, `shInstHookRewrite_none`: the function writes `enterCode`, or fails and
  has only written to the enter trampoline.
-/

namespace Koola.Inline

open A64

/-- `sh_inst_t`. The bytes of `backup` are read as words. -/
structure ShInst where
  trampo : List (BitVec 32)
  backup : List (BitVec 32)
  backupLen : ℕ
  exitType : ShExitType
  exitAddr : Addr
  exit : List (BitVec 32)
  enterAddr : Addr

/-- The loop of `sh_inst_hook_rewrite` over the instructions that are left: the memory, and
`rinfo.buf_offset` unless an instruction cannot be moved. -/
def rewriteLoop (rinfo : ShA64RewriteInfo) : ℕ → Mem → Addr → ℕ → Mem × Option ℕ
  | 0, m, _, bufOffset => (m, some bufOffset)
  | n + 1, m, pc, bufOffset =>
    match shA64Rewrite rinfo (m.read32 pc) pc with
    | none => (m, none)
    | some ws =>
      rewriteLoop rinfo n (m.writeWords (rinfo.buf + BitVec.ofNat 64 bufOffset) ws) (pc + 4)
        (bufOffset + 4 * ws.length)

/-- `*orig_addr = v`, unless the pointer is null. -/
def storeOrig (orig : Option Addr) (v : BitVec 64) (m : Mem) : Mem :=
  match orig with
  | none => m
  | some a => m.write a v

/-- The argument of `sh_a64_rewrite`, with the sizes of the instructions at the target. -/
def rewriteInfo (self : ShInst) (target : Addr) (m : Mem) : ShA64RewriteInfo where
  startAddr := target
  endAddr := target + BitVec.ofNat 64 self.backupLen
  buf := self.enterAddr
  instLens := (m.readWords target (self.backupLen / 4)).map shA64GetRewriteInstLen

def shInstHookRewrite (self : ShInst) (target : Addr) (orig orig2 : Option Addr) (m : Mem) :
    ShInst × Mem × Option Errno :=
  let self := { self with backup := m.readWords target (self.backupLen / 4) }
  match rewriteLoop (rewriteInfo self target m) (self.backupLen / 4) m target 0 with
  | (m, none) => (self, m, some .hookRewriteFailed)
  | (m, some bufOffset) =>
    let m := m.writeWords (self.enterAddr + BitVec.ofNat 64 bufOffset)
      (shA64AbsoluteJumpWithRet (target + BitVec.ofNat 64 self.backupLen))
    (self, storeOrig orig2 self.enterAddr (storeOrig orig self.enterAddr m), none)

/-! ## Which instructions can be moved -/

section CanMove

variable {rinfo : ShA64RewriteInfo} {inst : BitVec 32} {pc : Addr} {ws : List (BitVec 32)}

/-- The address that an instruction at `pc` makes, or loads from. -/
def dataAddr (i : Instr) (pc : Addr) : Option Addr :=
  match i with
  | .adr _ off => some (pc + off)
  | .adrp _ off => some ((pc &&& 0xFFFFFFFFFFFFF000#64) + off)
  | .ldrLit kind _ off => if kind = .prfm then none else some (pc + off)
  | _ => none

theorem isAddrNeedFix_iff {a : Addr} :
    shA64IsAddrNeedFix rinfo a = true ↔ rinfo.startAddr ≤ a ∧ a < rinfo.endAddr := by
  rw [shA64IsAddrNeedFix, Bool.and_eq_true, decide_eq_true_iff, decide_eq_true_iff]

theorem none_iff_of_none {o : Option (List (BitVec 32))} {i : Instr}
    (hdata : dataAddr i pc = none) (ho : o ≠ none) :
    o = none ↔ ∃ a ∈ dataAddr i pc, rinfo.startAddr ≤ a ∧ a < rinfo.endAddr := by
  refine ⟨fun h => absurd h ho, ?_⟩
  rintro ⟨a, ha, -⟩
  rw [hdata] at ha
  cases ha

theorem none_iff_of_some {o : Option (List (BitVec 32))} {i : Instr} {a : Addr}
    (hdata : dataAddr i pc = some a) (ho : o = none ↔ shA64IsAddrNeedFix rinfo a = true) :
    o = none ↔ ∃ a ∈ dataAddr i pc, rinfo.startAddr ≤ a ∧ a < rinfo.endAddr := by
  rw [ho, isAddrNeedFix_iff, hdata]
  refine ⟨fun h => ⟨a, rfl, h⟩, ?_⟩
  rintro ⟨a', ha', h⟩
  cases ha'
  exact h

theorem dataAddr_other {i : Instr} (h : i.relative = false) : dataAddr i pc = none := by
  cases i with
  | b | bl | bCond | cb | tb | adr | adrp | ldrLit => cases h
  | br | blr | ret | ldr | ldur | stp | other => rfl

theorem shA64RewriteLdr_eq_none {type : ShA64Type} (h : type ≠ .prfmLit) :
    shA64RewriteLdr rinfo inst pc type = none ↔
      shA64IsAddrNeedFix rinfo (pc + imm19 inst) = true := by
  rw [shA64RewriteLdr_eq]
  split
  · exact iff_of_true rfl (And.left ‹_›)
  · exact iff_of_false (Option.some_ne_none _) fun hin => absurd (And.intro hin h) ‹_›

theorem shA64RewriteAdr_eq_none {type : ShA64Type} :
    shA64RewriteAdr rinfo inst pc type = none ↔
      shA64IsAddrNeedFix rinfo (adrTarget type inst pc) = true := by
  rw [shA64RewriteAdr_eq]
  split
  · exact iff_of_true rfl ‹_›
  · exact iff_of_false (Option.some_ne_none _) ‹_›

/-- **An instruction cannot be moved** exactly if it makes the address of an overwritten
instruction, or loads from there. -/
theorem shA64Rewrite_eq_none :
    shA64Rewrite rinfo inst pc = none ↔
      ∃ a ∈ dataAddr (decode inst) pc, rinfo.startAddr ≤ a ∧ a < rinfo.endAddr := by
  have hfits := fits_type inst
  cases ht : shA64GetType inst with
  | ignored =>
    rw [ht] at hfits
    simp only [shA64Rewrite, ht]
    exact none_iff_of_none (dataAddr_other hfits) (Option.some_ne_none _)
  | b =>
    rw [ht] at hfits
    simp only [shA64Rewrite, ht]
    exact none_iff_of_none (by rw [decode_b hfits]; rfl) (Option.some_ne_none _)
  | bl =>
    rw [ht] at hfits
    simp only [shA64Rewrite, ht]
    exact none_iff_of_none (by rw [decode_bl hfits]; rfl) (Option.some_ne_none _)
  | bCond =>
    rw [ht] at hfits
    simp only [shA64Rewrite, ht]
    exact none_iff_of_none (by rw [decode_bCond hfits]; rfl) (Option.some_ne_none _)
  | adr =>
    rw [ht] at hfits
    simp only [shA64Rewrite, ht]
    exact none_iff_of_some (by rw [decode_adr hfits]; rfl) shA64RewriteAdr_eq_none
  | adrp =>
    rw [ht] at hfits
    simp only [shA64Rewrite, ht]
    exact none_iff_of_some (by rw [decode_adrp hfits]; rfl) shA64RewriteAdr_eq_none
  | ldrLit32 | ldrLit64 | ldrswLit | ldrSimdLit32 | ldrSimdLit64 | ldrSimdLit128 =>
    rw [ht] at hfits
    simp only [shA64Rewrite, ht]
    refine none_iff_of_some (a := pc + imm19 inst) ?_ (shA64RewriteLdr_eq_none (by decide))
    rw [decode_literal hfits rfl]
    rfl
  | prfmLit =>
    rw [ht] at hfits
    simp only [shA64Rewrite, ht]
    refine none_iff_of_none (by rw [decode_literal hfits rfl]; rfl) ?_
    rw [shA64RewriteLdr_eq, if_neg (fun h => h.2 rfl)]
    exact Option.some_ne_none _
  | cbz | cbnz =>
    rw [ht] at hfits
    simp only [shA64Rewrite, ht]
    refine none_iff_of_none ?_ (Option.some_ne_none _)
    rw [decode_cb ((mask_sub hfits (by decide)).trans (by decide))]
    rfl
  | tbz | tbnz =>
    rw [ht] at hfits
    simp only [shA64Rewrite, ht]
    refine none_iff_of_none ?_ (Option.some_ne_none _)
    rw [decode_tb ((mask_sub hfits (by decide)).trans (by decide))]
    rfl

theorem shA64Rewrite_length (h : shA64Rewrite rinfo inst pc = some ws) :
    4 * ws.length = shA64GetRewriteInstLen inst := by
  cases ht : shA64GetType inst with
  | b | bl | cbz | cbnz | tbz | tbnz | bCond | ignored =>
    simp only [shA64Rewrite, ht] at h
    cases h
    rw [shA64GetRewriteInstLen, ht]
    rfl
  | adr | adrp =>
    simp only [shA64Rewrite, ht, shA64RewriteAdr_eq] at h
    split at h
    · cases h
    · cases h
      rw [shA64GetRewriteInstLen, ht]
      rfl
  | ldrLit32 | ldrLit64 | ldrswLit | ldrSimdLit32 | ldrSimdLit64 | ldrSimdLit128 | prfmLit =>
    simp only [shA64Rewrite, ht] at h
    obtain ⟨addr, -, rfl⟩ := shA64RewriteLdr_addr h
    rw [shA64GetRewriteInstLen, ht]
    rfl

/-- **A rewritten instruction has the size that was announced, and does at its new place what it
did at the old one**, from every state in which what it loses there is free. -/
theorem shA64Rewrite_sound {other : Others} {c : Cpu} {b : Addr}
    (hrw : shA64Rewrite rinfo inst pc = some ws) (hcode : Holds c.mem b ws)
    (hmov : other.Movable (decode inst))
    (hfree : ScratchFree (decode inst) pc c (bytesAt b ws.length)) :
    4 * ws.length = shA64GetRewriteInstLen inst ∧
      Reproduces other (rewriteFix rinfo inst) (decode inst) pc c b ws.length :=
  ⟨shA64Rewrite_length hrw, shA64Rewrite_reproduces hrw hcode hmov hfree⟩

/-- `CBZ x0, #8` is moved to `0x40000`. -/
theorem shA64Rewrite_sound_cbz :
    Reproduces (fun _ _ c => (c, .next)) (rewriteFix ⟨0x10000, 0x10004, 0x40000, [24]⟩ 0xB4000040)
      (decode 0xB4000040) 0x10000
      ⟨fun _ => 0, fun _ => 0, 0, Mem.writeWords (fun _ => 0) 0x40000
        [0xB4000040, 0x14000005, 0x58000051, 0xD61F0220, 0x10008, 0]⟩ 0x40000 6 := by
  have hrw : shA64Rewrite ⟨0x10000, 0x10004, 0x40000, [24]⟩ 0xB4000040 0x10000 =
      some [0xB4000040, 0x14000005, 0x58000051, 0xD61F0220, 0x10008, 0] := by decide +kernel
  have hdecode : decode 0xB4000040 = .cb false true 0 8 := by decide +kernel
  refine (shA64Rewrite_sound hrw (Mem.holds_writeWords (by decide)) (fun _ _ _ _ _ => rfl) ?_).2
  rw [hdecode]
  exact ⟨fun a ha => absurd ha (Set.notMem_empty a), fun a ha => absurd ha (Set.notMem_empty a)⟩

theorem length_le_seven (h : shA64Rewrite rinfo inst pc = some ws) : ws.length ≤ 7 := by
  have hlen := shA64Rewrite_length h
  have hmax : shA64GetRewriteInstLen inst ≤ 28 := by
    rw [shA64GetRewriteInstLen]
    cases shA64GetType inst <;> decide
  omega

end CanMove

/-! ## What the loop writes -/

/-- The moved instructions, the first of which stands at `pc`. -/
def moved (rinfo : ShA64RewriteInfo) : List (BitVec 32) → Addr → Option (List (BitVec 32))
  | [], _ => some []
  | inst :: rest, pc =>
    match shA64Rewrite rinfo inst pc, moved rinfo rest (pc + 4) with
    | some ws, some code => some (ws ++ code)
    | _, _ => none

section Loop

variable {rinfo : ShA64RewriteInfo} {inst : BitVec 32} {pc : Addr} {ws code : List (BitVec 32)}
  {insts : List (BitVec 32)} {m : Mem} {n bufOffset : ℕ}

theorem place_bufOffset (ws : List (BitVec 32)) (b : Addr) :
    b + BitVec.ofNat 64 (bufOffset + 4 * ws.length) =
      place (b + BitVec.ofNat 64 bufOffset) ws.length :=
  (add_ofNat b bufOffset (4 * ws.length)).symm

/-- The words that are written leave the instructions to read alone. -/
theorem readWords_writeWords
    (hapart : ∀ a ∈ bytesAt (rinfo.buf + BitVec.ofNat 64 bufOffset) (7 * (n + 1)),
      a ∉ bytesAt pc (n + 1)) (hws : ws.length ≤ 7) :
    (m.writeWords (rinfo.buf + BitVec.ofNat 64 bufOffset) ws).readWords (pc + 4) n =
      m.readWords (pc + 4) n := by
  refine Mem.readWords_congr fun a ha => Mem.writeWords_apart fun hin => ?_
  refine hapart a (mem_bytesAt_of_lt hin (by omega)) ?_
  exact (add_comm 1 n) ▸ mem_bytesAt_of_place (k := 1) ha

theorem apart_next
    (hapart : ∀ a ∈ bytesAt (rinfo.buf + BitVec.ofNat 64 bufOffset) (7 * (n + 1)),
      a ∉ bytesAt pc (n + 1)) (hws : ws.length ≤ 7) :
    ∀ a ∈ bytesAt (rinfo.buf + BitVec.ofNat 64 (bufOffset + 4 * ws.length)) (7 * n),
      a ∉ bytesAt (pc + 4) n := by
  intro a ha hin
  rw [place_bufOffset] at ha
  refine hapart a (mem_bytesAt_of_lt (mem_bytesAt_of_place ha) (by omega)) ?_
  exact (add_comm 1 n) ▸ mem_bytesAt_of_place (k := 1) hin

/-- **The loop writes the moved instructions.** -/
theorem rewriteLoop_some
    (hapart : ∀ a ∈ bytesAt (rinfo.buf + BitVec.ofNat 64 bufOffset) (7 * n), a ∉ bytesAt pc n)
    (hcode : moved rinfo (m.readWords pc n) pc = some code) :
    rewriteLoop rinfo n m pc bufOffset =
      (m.writeWords (rinfo.buf + BitVec.ofNat 64 bufOffset) code,
        some (bufOffset + 4 * code.length)) := by
  induction n generalizing m pc bufOffset code with
  | zero =>
    cases hcode
    rfl
  | succ n ih =>
    rw [Mem.readWords, moved] at hcode
    split at hcode
    · rename_i ws code' hws hcode'
      cases hcode
      have hlen := length_le_seven hws
      rw [rewriteLoop, hws]
      simp only
      rw [ih (apart_next hapart hlen) (by rwa [readWords_writeWords hapart hlen]),
        place_bufOffset, ← Mem.writeWords_append, List.length_append, mul_add, add_assoc]
    · cases hcode

/-- A loop that fails has written to the trampoline only. -/
theorem rewriteLoop_none
    (hapart : ∀ a ∈ bytesAt (rinfo.buf + BitVec.ofNat 64 bufOffset) (7 * n), a ∉ bytesAt pc n)
    (hcode : moved rinfo (m.readWords pc n) pc = none) :
    (rewriteLoop rinfo n m pc bufOffset).2 = none ∧
      ∀ b ∉ bytesAt (rinfo.buf + BitVec.ofNat 64 bufOffset) (7 * n),
        (rewriteLoop rinfo n m pc bufOffset).1 b = m b := by
  induction n generalizing m pc bufOffset with
  | zero => cases hcode
  | succ n ih =>
    rw [rewriteLoop]
    cases hws : shA64Rewrite rinfo (m.read32 pc) pc with
    | none => exact ⟨rfl, fun _ _ => rfl⟩
    | some ws =>
      have hlen := length_le_seven hws
      have hrest : moved rinfo (m.readWords (pc + 4) n) (pc + 4) = none := by
        rw [Mem.readWords, moved, hws] at hcode
        cases hm : moved rinfo (m.readWords (pc + 4) n) (pc + 4) with
        | none => rfl
        | some code =>
          rw [hm] at hcode
          cases hcode
      obtain ⟨hnone, hsame⟩ := ih (apart_next hapart hlen)
        (by rwa [readWords_writeWords hapart hlen])
      refine ⟨hnone, fun b hb => (hsame b fun hin => hb ?_).trans
        (Mem.writeWords_apart fun hin => hb (mem_bytesAt_of_lt hin (by omega)))⟩
      rw [place_bufOffset] at hin
      exact mem_bytesAt_of_lt (mem_bytesAt_of_place hin) (by omega)

end Loop

/-! ## The enter trampoline -/

/-- What `sh_inst_hook_rewrite` makes of the instructions at the target. -/
def enterCode (enter target : Addr) (insts : List (BitVec 32)) : Option (List (BitVec 32)) :=
  (moved ⟨target, place target insts.length, enter, insts.map shA64GetRewriteInstLen⟩ insts
    target).map (· ++ shA64AbsoluteJumpWithRet (place target insts.length))

section HookRewrite

variable {self : ShInst} {target : Addr} {orig orig2 : Option Addr} {m : Mem} {n : ℕ}
  {code : List (BitVec 32)}

theorem rewriteInfo_eq (hlen : self.backupLen = 4 * n) :
    rewriteInfo self target m = ⟨target, place target (m.readWords target n).length,
      self.enterAddr, (m.readWords target n).map shA64GetRewriteInstLen⟩ := by
  rw [rewriteInfo, hlen, Nat.mul_div_cancel_left n (by decide), Mem.length_readWords]
  rfl

theorem rewriteInfo_backup (backup : List (BitVec 32)) :
    rewriteInfo { self with backup := backup } target m = rewriteInfo self target m := rfl

theorem buf_zero : (rewriteInfo self target m).buf + BitVec.ofNat 64 0 = self.enterAddr :=
  add_zero self.enterAddr

/-- **A rewrite that goes well** leaves `enterCode` and sets the pointers. -/
theorem shInstHookRewrite_some (hlen : self.backupLen = 4 * n)
    (hapart : ∀ a ∈ bytesAt self.enterAddr (7 * n), a ∉ bytesAt target n)
    (hcode : enterCode self.enterAddr target (m.readWords target n) = some code) :
    shInstHookRewrite self target orig orig2 m =
      ({ self with backup := m.readWords target n },
        storeOrig orig2 self.enterAddr (storeOrig orig self.enterAddr
          (m.writeWords self.enterAddr code)), none) := by
  rw [enterCode, Option.map_eq_some_iff] at hcode
  obtain ⟨code, hmoved, rfl⟩ := hcode
  rw [← rewriteInfo_eq hlen] at hmoved
  have hn : self.backupLen / 4 = n := by omega
  have hloop : rewriteLoop (rewriteInfo self target m) n m target 0 = _ :=
    rewriteLoop_some (by rwa [buf_zero]) hmoved
  rw [buf_zero, zero_add] at hloop
  simp only [shInstHookRewrite, hn, rewriteInfo_backup, hloop]
  rw [Mem.length_readWords, hlen, Mem.writeWords_append]
  rfl

theorem shInstHookRewrite_none (hlen : self.backupLen = 4 * n)
    (hapart : ∀ a ∈ bytesAt self.enterAddr (7 * n), a ∉ bytesAt target n)
    (hcode : enterCode self.enterAddr target (m.readWords target n) = none) :
    ∃ m', shInstHookRewrite self target orig orig2 m =
        ({ self with backup := m.readWords target n }, m', some .hookRewriteFailed) ∧
      ∀ b ∉ bytesAt self.enterAddr (7 * n), m' b = m b := by
  rw [enterCode, Option.map_eq_none_iff, ← rewriteInfo_eq hlen] at hcode
  have hn : self.backupLen / 4 = n := by omega
  obtain ⟨hnone, hsame⟩ : (rewriteLoop (rewriteInfo self target m) n m target 0).2 = none ∧ _ :=
    rewriteLoop_none (by rwa [buf_zero]) hcode
  rw [buf_zero] at hsame
  refine ⟨_, ?_, hsame⟩
  simp only [shInstHookRewrite, hn, rewriteInfo_backup]
  split
  · rename_i hloop
    rw [hloop]
  · rename_i hloop
    rw [hloop] at hnone
    cases hnone

end HookRewrite

end Koola.Inline
