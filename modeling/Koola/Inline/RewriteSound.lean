import Koola.Inline.Moved

/-!
# What a moved instruction does

* `Reproduces`: from an address on, some steps do what one instruction does at another address.
  They destroy `x17`, and only where control leaves for another address; and the bytes below the
  stack pointer, and only where a vector register or a hint is loaded.
* **`shA64Rewrite_reproduces`**: the words of `sh_a64_rewrite` reproduce the instruction.
-/

namespace Koola

open A64

variable {other : Others} {c : Cpu} {b addr : Addr} {ws : List (BitVec 32)}
  {n k : ℕ} {r : BitVec 5} {w : BitVec 32} {i : Instr}

/-! ## The words of `buf` -/

section Words

theorem step_at (hcode : Holds c.mem b ws) (hn : ws[n]? = some w) (hi : decode w = i) :
    step other ⟨c, place b n⟩ =
      (exec other i (place b n) c).2.land (exec other i (place b n) c).1 (place b n) :=
  step_of_read (hcode.read hn) hi

theorem step_b_at (hcode : Holds c.mem b ws) (hn : ws[n]? = some w)
    (hi : decode w = .b (BitVec.ofNat 64 (4 * k))) :
    step other ⟨c, place b n⟩ = ⟨c, place b (n + k)⟩ := by
  rw [step_at hcode hn hi, ← place_add]
  rfl

theorem addrWords_eq (addr : Addr) :
    addrWords addr = [addr.extractLsb' 0 32, addr.extractLsb' 32 32] := by
  have hmask : addr &&& 0xFFFFFFFF = (addr.setWidth 32).setWidth 64 := by
    rw [show (0xFFFFFFFF : Addr) = (BitVec.allOnes 32).setWidth 64 from rfl]
    apply BitVec.eq_of_getLsbD_eq
    intro i hi
    rw [BitVec.getLsbD_and, BitVec.getLsbD_setWidth, BitVec.getLsbD_allOnes,
      BitVec.getLsbD_setWidth, BitVec.getLsbD_setWidth]
    by_cases hlt : i < 32 <;> simp [hi, hlt]
  rw [addrWords, hmask, BitVec.setWidth_setWidth_of_le _ (by decide), BitVec.setWidth_eq,
    BitVec.setWidth_eq_extractLsb' (by decide)]
  rfl

theorem read64_addrWords {m : Mem} (hcode : Holds m b ws)
    (hlo : ws[n]? = (addrWords addr)[0]?) (hhi : ws[n + 1]? = (addrWords addr)[1]?) :
    m.read64 (place b n) = addr := by
  rw [addrWords_eq] at hlo hhi
  rw [Mem.read64, place_succ, hcode.read hlo, hcode.read hhi]
  exact Mem.bytes64 addr

theorem step_ldr_at (r : BitVec 5) (k : ℕ) (hcode : Holds c.mem b ws) (hn : ws[n]? = some w)
    (hi : decode w = .ldrLit .x r (BitVec.ofNat 64 (4 * k)))
    (hlo : ws[n + k]? = (addrWords addr)[0]?) (hhi : ws[n + k + 1]? = (addrWords addr)[1]?) :
    step other ⟨c, place b n⟩ = ⟨c.setReg r addr, place b (n + 1)⟩ := by
  have hread := read64_addrWords hcode hlo hhi
  rw [← place_add] at hread
  rw [step_at hcode hn hi, ← place_succ, ← hread]
  rfl

/-- `LDR X17, #8`, and a jump over the address. -/
theorem run_ldr_b (hcode : Holds c.mem b ws) (h0 : ws[n]? = some 0x58000051)
    (h1 : ws[n + 1]? = some 0x14000003) (h2 : ws[n + 2]? = (addrWords addr)[0]?)
    (h3 : ws[n + 3]? = (addrWords addr)[1]?) :
    run other 2 ⟨c, place b n⟩ = ⟨c.setReg 17 addr, place b (n + 4)⟩ := by
  rw [run_succ, step_ldr_at 17 2 hcode h0 (by decide) h2 h3, run_succ,
    step_b_at (k := 3) hcode.setReg h1 (by decide)]
  rfl

/-- `BR X17`, `BLR X17` or `RET X17`, with an address in `x17`. -/
theorem step_br_at (hcode : Holds c.mem b ws) (hn : ws[n]? = some 0xD61F0220) :
    step other ⟨c.setReg 17 addr, place b n⟩ = ⟨c.setReg 17 addr, addr⟩ := by
  rw [step_at (i := .br 17) hcode.setReg hn (by decide)]
  change (⟨c.setReg 17 addr, (c.setReg 17 addr).reg 17⟩ : Machine) = _
  rw [Cpu.setReg_reg (by decide)]

theorem step_ret_at (hcode : Holds c.mem b ws) (hn : ws[n]? = some 0xD65F0220) :
    step other ⟨c.setReg 17 addr, place b n⟩ = ⟨c.setReg 17 addr, addr⟩ := by
  rw [step_at (i := .ret 17) hcode.setReg hn (by decide)]
  change (⟨c.setReg 17 addr, (c.setReg 17 addr).reg 17⟩ : Machine) = _
  rw [Cpu.setReg_reg (by decide)]

theorem step_blr_at (hcode : Holds c.mem b ws) (hn : ws[n]? = some 0xD63F0220) :
    step other ⟨c.setReg 17 addr, place b n⟩ =
      ⟨(c.setReg 17 addr).setReg 30 (place b n + 4), addr⟩ := by
  rw [step_at (i := .blr 17) hcode.setReg hn (by decide)]
  change (⟨(c.setReg 17 addr).setReg 30 _, (c.setReg 17 addr).reg 17⟩ : Machine) = _
  rw [Cpu.setReg_reg (by decide)]

/-- `LDR X17, #8` and a jump to the address behind the jump. -/
theorem run_ldr_br (hcode : Holds c.mem b ws) (h0 : ws[n]? = some 0x58000051)
    (h1 : ws[n + 1]? = some 0xD61F0220) (h2 : ws[n + 2]? = (addrWords addr)[0]?)
    (h3 : ws[n + 3]? = (addrWords addr)[1]?) :
    run other 2 ⟨c, place b n⟩ = ⟨c.setReg 17 addr, addr⟩ := by
  rw [run_succ, step_ldr_at 17 2 hcode h0 (by decide) h2 h3, run_succ, step_br_at hcode h1]
  rfl

end Words

/-! ## One instruction -/

/-- The registers that are lost when control leaves. -/
def clobbered : Flow → Set (BitVec 5)
  | .next => ∅
  | .jump _ | .call _ => {17}

/-- The 16 bytes below the stack pointer. -/
def belowSp (c : Cpu) : Set Addr := bytesAt (c.x 31 + -16) 4

/-- The bytes that are lost when the instruction is moved: `x17` is kept there while it holds the
address of a literal. -/
def scratch (i : Instr) (c : Cpu) : Set Addr :=
  match i with
  | .ldrLit kind _ _ => if kind.general then ∅ else belowSp c
  | _ => ∅

/-- **From `b` on, some steps do what the instruction does at `pc`.** Control goes where `fix` moves
it, and to the end of `n` words where the instruction goes on to the next one. -/
def Reproduces (other : Others) (fix : Addr → Addr) (i : Instr) (pc : Addr) (c : Cpu) (b : Addr)
    (n : ℕ) : Prop :=
  ∃ k c', run other (k + 1) ⟨c, b⟩ = ((exec other i pc c).2.map fix).land c' (place b (n - 1)) ∧
    Agree (clobbered (exec other i pc c).2) (scratch i c) (exec other i pc c).1 c'

variable {rinfo : ShA64RewriteInfo} {inst : BitVec 32} {pc dest : Addr} {fix : Addr → Addr}
  {c' : Cpu}

theorem Reproduces.of_next (hexec : exec other i pc c = (c', .next))
    (hrun : run other (k + 1) ⟨c, b⟩ = ⟨c', place b n⟩) (hn : 0 < n) :
    Reproduces other fix i pc c b n := by
  refine ⟨k, c', ?_, by rw [hexec]; exact .refl c'⟩
  rw [hrun, hexec]
  change _ = (⟨c', place b (n - 1) + 4⟩ : Machine)
  rw [place_succ, Nat.sub_add_cancel hn]

theorem Reproduces.of_jump (hexec : exec other i pc c = (c, .jump dest))
    (hrun : run other (k + 1) ⟨c, b⟩ = ⟨c.setReg 17 (fix dest), fix dest⟩) :
    Reproduces other fix i pc c b n := by
  refine ⟨k, c.setReg 17 (fix dest), ?_, ?_⟩
  · rw [hrun, hexec]
    rfl
  · rw [hexec]
    exact .setReg c (Set.mem_singleton 17) _

/-- A branch over a jump, where the instruction branches. -/
theorem Reproduces.of_cond {t : Bool}
    (hexec : exec other i pc c = (c, if t then .jump dest else .next)) (hn : 0 < n)
    (hcond : step other ⟨c, b⟩ = ⟨c, if t then place b 2 else place b 1⟩)
    (hskip : step other ⟨c, place b 1⟩ = ⟨c, place b n⟩)
    (hjump : run other (k + 1) ⟨c, place b 2⟩ = ⟨c.setReg 17 (fix dest), fix dest⟩) :
    Reproduces other fix i pc c b n := by
  cases t with
  | true =>
    refine .of_jump (k := k + 1) hexec ?_
    rw [run_succ, hcond]
    exact hjump
  | false =>
    refine .of_next (k := 1) hexec ?_ hn
    rw [run_succ, hcond, run_succ]
    exact hskip

/-! ### Branches -/

section Branches

theorem reproduces_b {off : BitVec 64}
    (hcode : Holds c.mem b ([0x58000051, 0x14000003] ++ addrWords (fix (pc + off)) ++
      [0xD61F0220])) :
    Reproduces other fix (.b off) pc c b 5 := by
  refine .of_jump (k := 2) rfl ?_
  have hrun : run other 2 ⟨c, place b 0⟩ = _ := run_ldr_b hcode rfl rfl rfl rfl
  rw [place_zero] at hrun
  rw [run_add (m := 2), hrun, run_succ, step_br_at hcode rfl]
  rfl

theorem reproduces_bl {off : BitVec 64}
    (hcode : Holds c.mem b ([0x58000051, 0x14000003] ++ addrWords (fix (pc + off)) ++
      [0xD63F0220])) :
    Reproduces other fix (.bl off) pc c b 5 := by
  refine ⟨2, c.setReg 17 (fix (pc + off)), ?_, .setReg c (Set.mem_singleton 17) _⟩
  have hrun : run other 2 ⟨c, place b 0⟩ = _ := run_ldr_b hcode rfl rfl rfl rfl
  rw [place_zero] at hrun
  rw [run_add (m := 2), hrun, run_succ, step_blr_at hcode rfl]
  rfl

theorem or_and_eq {m v m' : BitVec 32} (hm : m &&& m' = m') (hv : v &&& m' = 0#32) :
    (inst &&& m ||| v) &&& m' = inst &&& m' := by
  rw [BitVec.and_or_distrib_right, BitVec.and_assoc, hm, hv, BitVec.or_zero]

theorem or_and_field {m v : BitVec 32} {s l : ℕ} (hm : m.extractLsb' s l = BitVec.allOnes l)
    (hv : v.extractLsb' s l = 0#l) :
    (inst &&& m ||| v).extractLsb' s l = inst.extractLsb' s l := by
  rw [BitVec.extractLsb'_or, BitVec.extractLsb'_and, hm, hv, BitVec.and_allOnes, BitVec.or_zero]

theorem or_and_imm {m v : BitVec 32} {s l : ℕ} (hm : m.extractLsb' s l = 0#l) :
    (inst &&& m ||| v).extractLsb' s l = v.extractLsb' s l := by
  rw [BitVec.extractLsb'_or, BitVec.extractLsb'_and, hm, BitVec.and_zero, BitVec.zero_or]

theorem or_and_bit {m v : BitVec 32} {l : ℕ} (hm : m.getLsbD l = true)
    (hv : v.getLsbD l = false) : (inst &&& m ||| v).getLsbD l = inst.getLsbD l := by
  rw [BitVec.getLsbD_or, BitVec.getLsbD_and, hm, hv, Bool.and_true, Bool.or_false]

/-- `B.<cond> #8`. -/
theorem decode_bCond_8 (h : inst &&& 0xFF000010 = 0x54000000) :
    decode (inst &&& 0xFF00001F ||| 0x40) = .bCond (inst.extractLsb' 0 4) 8 := by
  rw [decode_bCond ((or_and_eq (by decide) (by decide)).trans h), imm19,
    or_and_field (by decide) (by decide), or_and_imm (by decide)]
  rfl

theorem decode_cb_8 (h : inst &&& 0x7E000000 = 0x34000000) :
    decode (inst &&& 0xFF00001F ||| 0x40) =
      .cb (inst.getLsbD 24) (inst.getLsbD 31) (rt inst) 8 := by
  rw [decode_cb ((or_and_eq (by decide) (by decide)).trans h), imm19, rt,
    or_and_field (by decide) (by decide), or_and_imm (by decide),
    or_and_bit (by decide) (by decide), or_and_bit (by decide) (by decide)]
  rfl

theorem decode_tb_8 (h : inst &&& 0x7E000000 = 0x36000000) :
    decode (inst &&& 0xFFF8001F ||| 0x40) =
      .tb (inst.getLsbD 24) (inst.extractLsb' 31 1 ++ inst.extractLsb' 19 5) (rt inst) 8 := by
  rw [decode_tb ((or_and_eq (by decide) (by decide)).trans h), imm14, rt,
    or_and_field (by decide) (by decide), or_and_field (by decide) (by decide),
    or_and_field (by decide) (by decide), or_and_imm (by decide),
    or_and_bit (by decide) (by decide)]
  rfl

/-- A branch to `#8`, taken or not. -/
theorem land_cond (t : Bool) :
    (if t then Flow.jump (b + 8) else .next).land c b =
      ⟨c, if t then place b 2 else place b 1⟩ := by
  cases t <;> rfl

theorem reproduces_bCond {cond : BitVec 4} {off : BitVec 64} (hw : decode w = .bCond cond 8)
    (hcode : Holds c.mem b ([w, 0x14000006, 0x58000051, 0x14000003] ++
      addrWords (fix (pc + off)) ++ [0xD61F0220])) :
    Reproduces other fix (.bCond cond off) pc c b 7 := by
  refine .of_cond (t := condHolds cond c.nzcv) (k := 2) rfl (by decide) ?_ ?_ ?_
  · have hstep : step other ⟨c, place b 0⟩ = _ := step_at hcode rfl hw
    rw [place_zero] at hstep
    exact hstep.trans (land_cond _)
  · exact step_b_at (n := 1) (k := 6) hcode rfl (by decide)
  · rw [run_add (m := 2), run_ldr_b (n := 2) hcode rfl rfl rfl rfl, run_succ,
      step_br_at hcode rfl]
    rfl

theorem reproduces_cb {nz sf : Bool} {off : BitVec 64} (hw : decode w = .cb nz sf r 8)
    (hcode : Holds c.mem b ([w, 0x14000005, 0x58000051, 0xD61F0220] ++
      addrWords (fix (pc + off)))) :
    Reproduces other fix (.cb nz sf r off) pc c b 6 := by
  refine .of_cond (t := ((if sf then c.reg r else c.reg r &&& 0xFFFFFFFF) == 0) != nz)
    (k := 1) rfl (by decide) ?_ ?_ ?_
  · have hstep : step other ⟨c, place b 0⟩ = _ := step_at hcode rfl hw
    rw [place_zero] at hstep
    exact hstep.trans (land_cond _)
  · exact step_b_at (n := 1) (k := 5) hcode rfl (by decide)
  · exact run_ldr_br (n := 2) hcode rfl rfl rfl rfl

theorem reproduces_tb {nz : Bool} {bit : BitVec 6} {off : BitVec 64}
    (hw : decode w = .tb nz bit r 8)
    (hcode : Holds c.mem b ([w, 0x14000005, 0x58000051, 0xD61F0220] ++
      addrWords (fix (pc + off)))) :
    Reproduces other fix (.tb nz bit r off) pc c b 6 := by
  refine .of_cond (t := (c.reg r).getLsbD bit.toNat == nz) (k := 1) rfl (by decide) ?_ ?_ ?_
  · have hstep : step other ⟨c, place b 0⟩ = _ := step_at hcode rfl hw
    rw [place_zero] at hstep
    exact hstep.trans (land_cond _)
  · exact step_b_at (n := 1) (k := 5) hcode rfl (by decide)
  · exact run_ldr_br (n := 2) hcode rfl rfl rfl rfl

end Branches

/-! ### Addresses and literals -/

section Literals

variable {kind : Access}

theorem decode_ldr_8 : ∀ r : BitVec 5, decode (0x58000040 ||| r.setWidth 32) = .ldrLit .x r 8 := by
  decide +kernel

theorem decode_ldr_12 : ∀ r : BitVec 5,
    decode (0x58000060 ||| r.setWidth 32) = .ldrLit .x r 12 := by
  decide +kernel

theorem decode_ldr_self : ∀ r : BitVec 5,
    decode (0xB9400000#32 ||| r.setWidth 32 ||| r.setWidth 32 <<< 5) = .ldr .w r r 0 ∧
    decode (0xF9400000#32 ||| r.setWidth 32 ||| r.setWidth 32 <<< 5) = .ldr .x r r 0 ∧
    decode (0xB9800000#32 ||| r.setWidth 32 ||| r.setWidth 32 <<< 5) = .ldr .sw r r 0 := by
  decide +kernel

theorem decode_ldr_17 : ∀ r : BitVec 5,
    decode (0xF9800220 ||| r.setWidth 32) = .ldr .prfm r 17 0 ∧
    decode (0xBD400220 ||| r.setWidth 32) = .ldr .s r 17 0 ∧
    decode (0xFD400220 ||| r.setWidth 32) = .ldr .d r 17 0 ∧
    decode (0x3DC00220 ||| r.setWidth 32) = .ldr .q r 17 0 := by
  decide +kernel

theorem reproduces_adr (hexec : exec other i pc c = (c.setReg r addr, .next))
    (hw : decode w = .ldrLit .x r 8) (hcode : Holds c.mem b ([w, 0x14000003] ++ addrWords addr)) :
    Reproduces other fix i pc c b 4 := by
  refine .of_next (k := 1) hexec ?_ (by decide)
  have hldr : step other ⟨c, place b 0⟩ = _ := step_ldr_at r 2 hcode rfl hw rfl rfl
  rw [place_zero] at hldr
  rw [run_succ, hldr]
  exact step_b_at (n := 1) (k := 3) hcode.setReg rfl (by decide)

theorem step_load_at {rn : BitVec 5} (hcode : Holds c.mem b ws) (hn : ws[n]? = some w)
    (hi : decode w = .ldr kind r rn 0) :
    step other ⟨c, place b n⟩ = ⟨c.load kind r (c.x rn), place b (n + 1)⟩ := by
  rw [step_at hcode hn hi, ← place_succ]
  change (⟨c.load kind r (c.x rn + 0), _⟩ : Machine) = _
  rw [add_zero]

/-- The address goes to the register of the literal first. -/
theorem reproduces_literal {off : BitVec 64} (hkind : kind.general = true)
    (hw : decode w = .ldrLit .x r 12) {w' : BitVec 32} (hw' : decode w' = .ldr kind r r 0)
    (hcode : Holds c.mem b ([w, w', 0x14000003] ++ addrWords (pc + off))) :
    Reproduces other fix (.ldrLit kind r off) pc c b 5 := by
  refine .of_next (k := 2) rfl ?_ (by decide)
  have haddr : step other ⟨c, place b 0⟩ = _ := step_ldr_at r 3 hcode rfl hw rfl rfl
  rw [place_zero] at haddr
  rw [run_succ, haddr, run_succ, step_load_at (n := 1) hcode.setReg rfl hw',
    Cpu.load_general hkind]
  exact step_b_at (n := 2) (k := 3) hcode.load rfl (by decide)

theorem step_stp_at (hcode : Holds c.mem b ws) (hn : ws[n]? = some 0xA93F47F0) :
    step other ⟨c, place b n⟩ = ⟨c.setMem ((c.mem.write (c.x 31 + -16) (c.x 16)).write
      (c.x 31 + -16 + 8) (c.x 17)), place b (n + 1)⟩ := by
  rw [step_at (i := .stp 16 17 31 (-16)) hcode hn (by decide +kernel), ← place_succ]
  rfl

theorem step_ldur_at (hcode : Holds c.mem b ws) (hn : ws[n]? = some 0xF85F83F1) :
    step other ⟨c, place b n⟩ =
      ⟨c.setReg 17 (c.mem.read64 (c.x 31 + -8)), place b (n + 1)⟩ := by
  rw [step_at (i := .ldur 17 31 (-8)) hcode hn (by decide +kernel), ← place_succ]
  rfl

/-- `x17` holds the address, and is kept below the stack pointer meanwhile. -/
theorem reproduces_literal_17 {off : BitVec 64} (hkind : kind.general = false)
    (haddr : ∀ c : Cpu, c.load kind r addr = c.load kind r (pc + off))
    (hw : decode w = .ldr kind r 17 0)
    (hcode : Holds c.mem b ([0xA93F47F0, 0x58000091, w, 0xF85F83F1, 0x14000003] ++ addrWords addr))
    (hapart : ∀ a ∈ belowSp c, a ∉ bytesAt b 7)
    (hbytes : ∀ i < kind.bytes, pc + off + BitVec.ofNat 64 i ∉ belowSp c) :
    Reproduces other fix (.ldrLit kind r off) pc c b 7 := by
  set pushed := c.setMem ((c.mem.write (c.x 31 + -16) (c.x 16)).write (c.x 31 + -16 + 8) (c.x 17))
    with hpushed
  have hsame : ∀ a, a ∉ belowSp c → pushed.mem a = c.mem a := fun a ha => write_pair_apart ha
  have hkept : Holds pushed.mem b _ :=
    hcode.congr fun a ha => hsame a fun hin => hapart a hin ha
  -- the value that is taken back is the one that was kept
  have hback : pushed.mem.read64 (c.x 31 + -8) = c.x 17 := by
    rw [show (-8 : Addr) = -16 + 8 from by decide, ← add_assoc]
    exact Mem.read64_write64 (c.x 17)
  set loaded := pushed.load kind r (pc + off) with hloaded
  have hagree : Agree ∅ (belowSp c) (c.load kind r (pc + off)) loaded :=
    (Agree.setMem hsame).load hkind hbytes
  refine ⟨4, loaded.setReg 17 (c.x 17), ?_, ?_⟩
  · have hpush : step other ⟨c, place b 0⟩ = _ := step_stp_at hcode rfl
    rw [place_zero] at hpush
    have hpop : step other ⟨loaded.setReg 17 addr, place b 3⟩ = _ :=
      step_ldur_at hkept.load.setReg rfl
    have hx : (loaded.setReg 17 addr).x 31 = c.x 31 := by
      rw [Cpu.setReg_other (by decide), hloaded, Cpu.load_x hkind]
      rfl
    have hmem : (loaded.setReg 17 addr).mem = pushed.mem := by rw [Cpu.setReg_mem, Cpu.load_mem]
    rw [hx, hmem, hback, Cpu.setReg_setReg] at hpop
    rw [run_succ, hpush, ← hpushed, run_succ,
      step_ldr_at (n := 1) 17 4 hkept rfl (by decide) rfl rfl, run_succ,
      step_load_at (n := 2) hkept.setReg rfl hw, Cpu.setReg_x (by decide), haddr,
      Cpu.load_setReg hkind, ← hloaded, run_succ, hpop, run_succ,
      step_b_at (n := 4) (k := 3) hkept.load.setReg rfl (by decide)]
    exact congrArg (Machine.mk _) (place_succ 6).symm
  · rw [scratch, hkind]
    exact hagree.restore (by rw [Cpu.load_x hkind])

end Literals

/-! ## `sh_a64_rewrite` -/

section Rewrite

/-- Where branches are moved to. An instruction that is copied as it is goes where it says. -/
def rewriteFix (rinfo : ShA64RewriteInfo) (inst : BitVec 32) (a : Addr) : Addr :=
  if shA64GetType inst = .ignored then a else shA64FixAddr rinfo a

/-- The bytes of the literal that an instruction at `pc` loads. -/
def literalBytes (i : Instr) (pc : Addr) : Set Addr :=
  match i with
  | .ldrLit kind _ off => {a | ∃ j < kind.bytes, a = pc + off + BitVec.ofNat 64 j}
  | _ => ∅

/-- The bytes that are lost are neither code nor the literal. -/
structure ScratchFree (i : Instr) (pc : Addr) (c : Cpu) (code : Set Addr) : Prop where
  code : ∀ a ∈ scratch i c, a ∉ code
  literal : ∀ a ∈ scratch i c, a ∉ literalBytes i pc

theorem shA64RewriteB_eq (type : ShA64Type) (h : type ≠ .bCond) :
    shA64RewriteB rinfo inst pc type =
      some ([0x58000051, 0x14000003] ++ addrWords (shA64FixAddr rinfo (pc + imm26 inst)) ++
        [if type = .bl then 0xD63F0220 else 0xD61F0220]) := by
  simp only [shA64RewriteB, if_neg h, imm26_eq, List.nil_append]

theorem shA64RewriteB_bCond :
    shA64RewriteB rinfo inst pc .bCond =
      some ([inst &&& 0xFF00001F ||| 0x40, 0x14000006, 0x58000051, 0x14000003] ++
        addrWords (shA64FixAddr rinfo (pc + imm19 inst)) ++ [0xD61F0220]) := by
  simp only [shA64RewriteB, imm19_eq, if_pos]
  rfl

theorem shA64RewriteCb_eq :
    shA64RewriteCb rinfo inst pc =
      some ([inst &&& 0xFF00001F ||| 0x40, 0x14000005, 0x58000051, 0xD61F0220] ++
        addrWords (shA64FixAddr rinfo (pc + imm19 inst))) := by
  simp only [shA64RewriteCb, imm19_eq]

theorem shA64RewriteTb_eq :
    shA64RewriteTb rinfo inst pc =
      some ([inst &&& 0xFFF8001F ||| 0x40, 0x14000005, 0x58000051, 0xD61F0220] ++
        addrWords (shA64FixAddr rinfo (pc + imm14 inst))) := by
  simp only [shA64RewriteTb, imm14_eq]

/-- The address that `ADR` or `ADRP` makes. -/
def adrTarget (type : ShA64Type) (inst : BitVec 32) (pc : Addr) : Addr :=
  if type = .adr then pc + immAdr inst else (pc &&& 0xFFFFFFFFFFFFF000#64) + immAdrp inst

theorem shA64RewriteAdr_eq (type : ShA64Type) :
    shA64RewriteAdr rinfo inst pc type =
      if shA64IsAddrNeedFix rinfo (adrTarget type inst pc) then none
      else some ([0x58000040 ||| (rt inst).setWidth 32, 0x14000003] ++
        addrWords (adrTarget type inst pc)) := by
  simp only [shA64RewriteAdr, immAdr_eq, immAdrp_eq, rt_eq, adrTarget]
  rfl

/-- What a literal of a type is loaded as. -/
def literalKind : ShA64Type → Option Access
  | .ldrLit32 => some .w
  | .ldrLit64 => some .x
  | .ldrswLit => some .sw
  | .prfmLit => some .prfm
  | .ldrSimdLit32 => some .s
  | .ldrSimdLit64 => some .d
  | .ldrSimdLit128 => some .q
  | _ => none

theorem decode_literal {type : ShA64Type} {kind : Access} (hfits : type.Fits inst)
    (hkind : literalKind type = some kind) : decode inst = .ldrLit kind (rt inst) (imm19 inst) := by
  cases type with
  | ldrLit32 | ldrLit64 | ldrswLit | prfmLit | ldrSimdLit32 | ldrSimdLit64 | ldrSimdLit128 =>
    cases hkind
    exact decode_ldrLit ((mask_sub hfits (by decide)).trans (by decide))
      ((literal_of_mask hfits).trans (by decide))
  | ignored | b | bCond | bl | adr | adrp | cbz | cbnz | tbz | tbnz => cases hkind

/-- The words of a literal, with its address. -/
def literalWords (type : ShA64Type) (inst : BitVec 32) (addr : Addr) : List (BitVec 32) :=
  let rt := (rt inst).setWidth 32
  if type = .ldrLit32 ∨ type = .ldrLit64 ∨ type = .ldrswLit then
    [0x58000060 ||| rt,
      if type = .ldrLit32 then 0xB9400000#32 ||| rt ||| rt <<< 5
      else if type = .ldrLit64 then 0xF9400000#32 ||| rt ||| rt <<< 5
      else 0xB9800000#32 ||| rt ||| rt <<< 5,
      0x14000003] ++ addrWords addr
  else
    [0xA93F47F0, 0x58000091,
      if type = .prfmLit then 0xF9800220 ||| rt
      else if type = .ldrSimdLit32 then 0xBD400220 ||| rt
      else if type = .ldrSimdLit64 then 0xFD400220 ||| rt
      else 0x3DC00220 ||| rt,
      0xF85F83F1, 0x14000003] ++ addrWords addr

theorem shA64RewriteLdr_eq (type : ShA64Type) :
    shA64RewriteLdr rinfo inst pc type =
      if shA64IsAddrNeedFix rinfo (pc + imm19 inst) ∧ type ≠ .prfmLit then none
      else some (literalWords type inst
        (if shA64IsAddrNeedFix rinfo (pc + imm19 inst) then shA64FixAddr rinfo (pc + imm19 inst)
        else pc + imm19 inst)) := by
  simp only [shA64RewriteLdr, imm19_eq, rt_eq, literalWords, apply_ite some]

/-- `sh_a64_fix_addr` changes the address of `PRFM` only. -/
theorem shA64RewriteLdr_addr {type : ShA64Type}
    (hrw : shA64RewriteLdr rinfo inst pc type = some ws) :
    ∃ addr, (type ≠ .prfmLit → addr = pc + imm19 inst) ∧ ws = literalWords type inst addr := by
  rw [shA64RewriteLdr_eq] at hrw
  by_cases hfail : shA64IsAddrNeedFix rinfo (pc + imm19 inst) ∧ type ≠ .prfmLit
  · rw [if_pos hfail] at hrw
    cases hrw
  · rw [if_neg hfail] at hrw
    cases hrw
    exact ⟨_, fun hne => if_neg fun hin => hfail ⟨hin, hne⟩, rfl⟩

/-- The instructions that are copied are those that do not know where they stand. -/
theorem ignored_iff : shA64GetType inst = .ignored ↔ (decode inst).relative = false := by
  have hfits := fits_type inst
  refine ⟨fun ht => ?_, fun hrel => ?_⟩
  · rwa [ht] at hfits
  · cases ht : shA64GetType inst with
    | ignored => rfl
    | b => rw [ht] at hfits; rw [decode_b hfits] at hrel; cases hrel
    | bl => rw [ht] at hfits; rw [decode_bl hfits] at hrel; cases hrel
    | bCond => rw [ht] at hfits; rw [decode_bCond hfits] at hrel; cases hrel
    | adr => rw [ht] at hfits; rw [decode_adr hfits] at hrel; cases hrel
    | adrp => rw [ht] at hfits; rw [decode_adrp hfits] at hrel; cases hrel
    | ldrLit32 | ldrLit64 | ldrswLit | prfmLit | ldrSimdLit32 | ldrSimdLit64 | ldrSimdLit128 =>
      rw [ht] at hfits
      rw [decode_literal hfits rfl] at hrel
      cases hrel
    | cbz | cbnz =>
      rw [ht] at hfits
      rw [decode_cb ((mask_sub hfits (by decide)).trans (by decide))] at hrel
      cases hrel
    | tbz | tbnz =>
      rw [ht] at hfits
      rw [decode_tb ((mask_sub hfits (by decide)).trans (by decide))] at hrel
      cases hrel

/-- A literal in a general register. -/
theorem reproduces_ldr_general {type : ShA64Type} {kind : Access}
    (hkind : literalKind type = some kind) (hgeneral : kind.general = true)
    (hrw : shA64RewriteLdr rinfo inst pc type = some ws) (hcode : Holds c.mem b ws) :
    Reproduces other fix (.ldrLit kind (rt inst) (imm19 inst)) pc c b ws.length := by
  obtain ⟨addr, haddr, rfl⟩ := shA64RewriteLdr_addr hrw
  obtain ⟨hw, hx, hsw⟩ := decode_ldr_self (rt inst)
  cases type with
  | ldrLit32 =>
    cases hkind
    obtain rfl := haddr (by decide)
    exact reproduces_literal hgeneral (decode_ldr_12 _) hw hcode
  | ldrLit64 =>
    cases hkind
    obtain rfl := haddr (by decide)
    exact reproduces_literal hgeneral (decode_ldr_12 _) hx hcode
  | ldrswLit =>
    cases hkind
    obtain rfl := haddr (by decide)
    exact reproduces_literal hgeneral (decode_ldr_12 _) hsw hcode
  | prfmLit | ldrSimdLit32 | ldrSimdLit64 | ldrSimdLit128 =>
    cases hkind
    cases hgeneral
  | ignored | b | bCond | bl | adr | adrp | cbz | cbnz | tbz | tbnz => cases hkind

/-- A literal that is read through `x17`. -/
theorem reproduces_ldr_17 {type : ShA64Type} {kind : Access}
    (hkind : literalKind type = some kind) (hgeneral : kind.general = false)
    (hrw : shA64RewriteLdr rinfo inst pc type = some ws) (hcode : Holds c.mem b ws)
    (hfree : ScratchFree (.ldrLit kind (rt inst) (imm19 inst)) pc c (bytesAt b ws.length)) :
    Reproduces other fix (.ldrLit kind (rt inst) (imm19 inst)) pc c b ws.length := by
  obtain ⟨addr, haddr, rfl⟩ := shA64RewriteLdr_addr hrw
  obtain ⟨hprfm, hs, hd, hq⟩ := decode_ldr_17 (rt inst)
  have hscratch : scratch (.ldrLit kind (rt inst) (imm19 inst)) c = belowSp c := by
    rw [scratch, hgeneral]
    rfl
  have hapart := hfree.code
  rw [hscratch] at hapart
  have hbytes : ∀ j < kind.bytes, pc + imm19 inst + BitVec.ofNat 64 j ∉ belowSp c := by
    intro j hj hin
    exact hfree.literal _ (hscratch ▸ hin) ⟨j, hj, rfl⟩
  cases type with
  | prfmLit =>
    cases hkind
    -- a hint that loads nothing, wherever it points
    have hload : ∀ c : Cpu,
        c.load .prfm (rt inst) addr = c.load .prfm (rt inst) (pc + imm19 inst) :=
      fun _ => rfl
    exact reproduces_literal_17 hgeneral hload hprfm hcode hapart hbytes
  | ldrSimdLit32 =>
    cases hkind
    obtain rfl := haddr (by decide)
    exact reproduces_literal_17 hgeneral (fun _ => rfl) hs hcode hapart hbytes
  | ldrSimdLit64 =>
    cases hkind
    obtain rfl := haddr (by decide)
    exact reproduces_literal_17 hgeneral (fun _ => rfl) hd hcode hapart hbytes
  | ldrSimdLit128 =>
    cases hkind
    obtain rfl := haddr (by decide)
    exact reproduces_literal_17 hgeneral (fun _ => rfl) hq hcode hapart hbytes
  | ldrLit32 | ldrLit64 | ldrswLit =>
    cases hkind
    cases hgeneral
  | ignored | b | bCond | bl | adr | adrp | cbz | cbnz | tbz | tbnz => cases hkind

/-- An instruction that is copied. -/
theorem reproduces_copied (hrel : i.relative = false) (hmov : other.Movable i) (hi : decode inst = i)
    (hcode : Holds c.mem b [inst]) (hfix : ∀ a, fix a = a) :
    Reproduces other fix i pc c b 1 := by
  refine ⟨0, (exec other i pc c).1, ?_, .refl _⟩
  rw [run_succ, run_zero, step_of_read hcode.1 hi, exec_other_place hrel hmov b pc,
    show fix = id from funext hfix, place_zero]
  cases (exec other i pc c).2 <;> rfl

/-- **The words of `sh_a64_rewrite` do what the instruction does at its place.** -/
theorem shA64Rewrite_reproduces (hrw : shA64Rewrite rinfo inst pc = some ws)
    (hcode : Holds c.mem b ws) (hmov : other.Movable (decode inst))
    (hfree : ScratchFree (decode inst) pc c (bytesAt b ws.length)) :
    Reproduces other (rewriteFix rinfo inst) (decode inst) pc c b ws.length := by
  have hfits := fits_type inst
  have hfix : shA64GetType inst ≠ .ignored → rewriteFix rinfo inst = shA64FixAddr rinfo :=
    fun hne => funext fun a => if_neg hne
  cases ht : shA64GetType inst with
  | ignored =>
    rw [ht] at hfits
    simp only [shA64Rewrite, ht] at hrw
    cases hrw
    exact reproduces_copied hfits hmov rfl hcode fun a => if_pos ht
  | b =>
    rw [ht] at hfits hfix
    simp only [shA64Rewrite, ht, shA64RewriteB_eq .b (by decide)] at hrw
    cases hrw
    rw [decode_b hfits, hfix (by decide)]
    exact reproduces_b hcode
  | bl =>
    rw [ht] at hfits hfix
    simp only [shA64Rewrite, ht, shA64RewriteB_eq .bl (by decide)] at hrw
    cases hrw
    rw [decode_bl hfits, hfix (by decide)]
    exact reproduces_bl hcode
  | bCond =>
    rw [ht] at hfits hfix
    simp only [shA64Rewrite, ht, shA64RewriteB_bCond] at hrw
    cases hrw
    rw [decode_bCond hfits, hfix (by decide)]
    exact reproduces_bCond (decode_bCond_8 hfits) hcode
  | adr =>
    rw [ht] at hfits
    simp only [shA64Rewrite, ht, shA64RewriteAdr_eq] at hrw
    split at hrw
    · cases hrw
    · cases hrw
      rw [decode_adr hfits]
      exact reproduces_adr rfl (decode_ldr_8 _) hcode
  | adrp =>
    rw [ht] at hfits
    simp only [shA64Rewrite, ht, shA64RewriteAdr_eq] at hrw
    split at hrw
    · cases hrw
    · cases hrw
      rw [decode_adrp hfits]
      exact reproduces_adr rfl (decode_ldr_8 _) hcode
  | ldrLit32 | ldrLit64 | ldrswLit =>
    rw [ht] at hfits
    simp only [shA64Rewrite, ht] at hrw
    rw [decode_literal hfits rfl]
    exact reproduces_ldr_general rfl rfl hrw hcode
  | prfmLit | ldrSimdLit32 | ldrSimdLit64 | ldrSimdLit128 =>
    rw [ht] at hfits
    simp only [shA64Rewrite, ht] at hrw
    rw [decode_literal hfits rfl] at hfree ⊢
    exact reproduces_ldr_17 rfl rfl hrw hcode hfree
  | cbz | cbnz =>
    rw [ht] at hfits hfix
    simp only [shA64Rewrite, ht, shA64RewriteCb_eq] at hrw
    cases hrw
    have hword : inst &&& 0x7E000000 = 0x34000000 := (mask_sub hfits (by decide)).trans (by decide)
    rw [decode_cb hword, hfix (by decide)]
    exact reproduces_cb (decode_cb_8 hword) hcode
  | tbz | tbnz =>
    rw [ht] at hfits hfix
    simp only [shA64Rewrite, ht, shA64RewriteTb_eq] at hrw
    cases hrw
    have hword : inst &&& 0x7E000000 = 0x36000000 := (mask_sub hfits (by decide)).trans (by decide)
    rw [decode_tb hword, hfix (by decide)]
    exact reproduces_tb (decode_tb_8 hword) hcode

end Rewrite

end Koola
