import Koola.Inline.Hooks

/-!
# What `sh_inst_hook` does

* `Written`, `hookPatch_spec`: the enter trampoline has its code, and the target jumps.
* `Pending`: an enter trampoline for a hook that is not in place yet; `Inv.push`: the hook is.
* `HookCall`: a call, and what callers promise; `shInstHookWithExit_spec`,
  `shInstHookWithoutExit_spec`, **`shInstHook_spec`**.
-/

namespace Koola.Inline

open A64 ShTrampoMgr ShExitGap

variable {L : Layout} {pageSize : ℕ} {infos : ElfinfoGlobals} {m₀ m m' : Mem}
  {s s' s₁ : InstState} {H : List Hooked} {b e x target newAddr : Addr} {self self' : ShInst}
  {orig orig2 : Option Addr} {n : ℕ} {trampo code : List (BitVec 32)} {r : Option Errno}

/-! ## The patch -/

section Patch

/-- The pointers to the original function are variables. -/
def Points (L : Layout) (orig : Option Addr) : Prop := ∀ a ∈ orig, bytesAt a 2 ⊆ L.data

/-- The two pointers are one, or apart. -/
def Separate (orig orig2 : Option Addr) : Prop :=
  ∀ a ∈ orig, ∀ a' ∈ orig2, a = a' ∨ Disjoint (bytesAt a 2) (bytesAt a' 2)

theorem storeOrig_apart {v : BitVec 64} (hp : Points L orig) (hb : b ∉ L.data) :
    storeOrig orig v m b = m b := by
  cases orig with
  | none => rfl
  | some a =>
    have hle := not_mem_bytesAt fun hin => hb (hp a rfl hin)
    exact Mem.write_apart (by omega)

theorem read64_storeOrig {a : Addr} {v : BitVec 64} (ha : a ∈ orig) :
    (storeOrig orig v m).read64 a = v := by
  cases ha
  exact Mem.read64_write64 v

/-- Both pointers are set. -/
theorem read64_storeOrigs {a : Addr} {v : BitVec 64} (hs : Separate orig orig2)
    (ha : a ∈ orig ∨ a ∈ orig2) :
    (storeOrig orig2 v (storeOrig orig v m)).read64 a = v := by
  rcases ha with ha | ha
  · cases horig2 : orig2 with
    | none =>
      change (storeOrig orig v m).read64 a = v
      exact read64_storeOrig ha
    | some a' =>
      rcases hs a ha a' horig2 with rfl | hdis
      · exact read64_storeOrig rfl
      · have hsame : (storeOrig (some a') v (storeOrig orig v m)).read64 a =
            (storeOrig orig v m).read64 a := by
          refine Mem.read64_congr fun i hi => ?_
          have hout : a + BitVec.ofNat 64 i ∉ bytesAt a' 2 :=
            Set.disjoint_left.mp hdis ⟨i, by omega, rfl⟩
          have hle := not_mem_bytesAt hout
          exact Mem.write_apart (by omega)
        rw [hsame]
        exact read64_storeOrig ha
  · exact read64_storeOrig ha

/-- A pointer stays while the variables do. -/
theorem read64_pointer {a : Addr} (horig : Points L orig) (horig2 : Points L orig2)
    (ha : a ∈ orig ∨ a ∈ orig2) (h : ∀ b ∈ L.data, m' b = m b) : m'.read64 a = m.read64 a := by
  have hdata : bytesAt a 2 ⊆ L.data := ha.elim (horig a) (horig2 a)
  exact Mem.read64_congr fun i hi => h _ (hdata ⟨i, by omega, rfl⟩)

theorem moved_length_le {rinfo : ShA64RewriteInfo} {insts : List (BitVec 32)} {pc : Addr}
    (h : moved rinfo insts pc = some code) : code.length ≤ 7 * insts.length := by
  induction insts generalizing pc code with
  | nil =>
    cases h
    exact le_refl _
  | cons inst insts ih =>
    rw [moved] at h
    split at h
    · rename_i ws rest hws hrest
      cases h
      have hlen := length_le_seven hws
      have htail := ih hrest
      rw [List.length_append, List.length_cons]
      omega
    · cases h

theorem enterCode_length {insts : List (BitVec 32)} (h : enterCode e target insts = some code) :
    code.length ≤ 7 * insts.length + 4 := by
  rw [enterCode, Option.map_eq_some_iff] at h
  obtain ⟨code, hmoved, rfl⟩ := h
  have hlen := moved_length_le hmoved
  have hjump : ∀ a, (shA64AbsoluteJumpWithRet a).length = 4 := fun _ => rfl
  rw [List.length_append, hjump]
  omega

/-- **What a patch that goes well leaves.** -/
structure Written (L : Layout) (target : Addr) (trampo : List (BitVec 32)) (n : ℕ) (e : Addr)
    (orig orig2 : Option Addr) (self' : ShInst) (m m' : Mem) : Prop where
  backup : self'.backup = m.readWords target n
  jump : self'.trampo = trampo
  moved : ∃ code, enterCode e target (m.readWords target n) = some code ∧ code.length ≤ 64 ∧
    Holds m' e code
  patched : Holds m' target trampo
  pointers : ∀ a, a ∈ orig ∨ a ∈ orig2 → m'.read64 a = e
  keep : ∀ b, b ∉ range e 256 → b ∉ L.data → b ∉ bytesAt target n → m' b = m b

theorem bytesAt_enter {k : ℕ} (hk : k ≤ 64) : bytesAt e k ⊆ range e 256 := by
  rw [bytesAt_eq_range (by omega)]
  exact range_mono (by omega)

/-- **The rewrite** writes to the enter trampoline and to the pointers. -/
theorem hookRewrite_spec {env : PatchEnv}
    (h : hookRewrite self target orig orig2 env m = (self', m', r)) (hn : n ≤ 4)
    (hlen : self.backupLen = 4 * n) (henter : self.enterAddr = e)
    (hcode : bytesAt target n ⊆ L.code) (he : Disjoint (range e 256) L.mem)
    (horig : Points L orig) (horig2 : Points L orig2) (hs : Separate orig orig2) :
    (∃ backup, self' = { self with backup := backup }) ∧
      (∀ b, b ∉ range e 256 → b ∉ L.data → m' b = m b) ∧
      (r = none → self'.backup = m.readWords target n ∧
        (∃ code, enterCode e target (m.readWords target n) = some code ∧
          code.length ≤ 64 ∧ Holds m' e code) ∧
        ∀ a, a ∈ orig ∨ a ∈ orig2 → m'.read64 a = e) := by
  subst henter
  have hself : ∃ backup, self = { self with backup := backup } := ⟨_, rfl⟩
  have hapart : ∀ a ∈ bytesAt self.enterAddr (7 * n), a ∉ bytesAt target n := fun a ha hin =>
    Set.disjoint_left.mp he (bytesAt_enter (by omega) ha) (.inl (hcode hin))
  rw [hookRewrite] at h
  split at h
  · cases h
    exact ⟨hself, fun _ _ _ => rfl, nofun⟩
  split at h
  · cases h
    exact ⟨hself, fun _ _ _ => rfl, nofun⟩
  cases hmoved : enterCode self.enterAddr target (m.readWords target n) with
  | none =>
    obtain ⟨m₁, hrw, hsame⟩ : ∃ m₁, shInstHookRewrite self target orig orig2 m = (_, m₁, _) ∧ _ :=
      shInstHookRewrite_none hlen hapart hmoved
    rw [hrw] at h
    cases h
    exact ⟨⟨_, rfl⟩, fun b hb _ => hsame b fun hin => hb (bytesAt_enter (by omega) hin), nofun⟩
  | some code =>
    rw [shInstHookRewrite_some hlen hapart hmoved] at h
    cases h
    have hle := enterCode_length hmoved
    rw [Mem.length_readWords] at hle
    have hstore : ∀ b, b ∉ L.data → storeOrig orig2 self.enterAddr (storeOrig orig self.enterAddr
        (m.writeWords self.enterAddr code)) b = m.writeWords self.enterAddr code b := fun b hb =>
      (storeOrig_apart horig2 hb).trans (storeOrig_apart horig hb)
    refine ⟨⟨_, rfl⟩, fun b hb hdata => ?_, fun _ => ⟨rfl, ⟨code, rfl, by omega, ?_⟩,
      fun a ha => read64_storeOrigs hs ha⟩⟩
    · rw [hstore b hdata]
      exact Mem.writeWords_apart fun hin => hb (bytesAt_enter (by omega) hin)
    · refine (Mem.holds_writeWords (by omega)).congr fun b hb => hstore b fun hdata => ?_
      exact Set.disjoint_left.mp he (bytesAt_enter (by omega) hb) (.inr (.inl hdata))

/-- **The patch.** If it fails, only the enter trampoline and the pointers are written to. -/
theorem hookPatch_spec {env : PatchEnv}
    (h : hookPatch self target orig orig2 trampo env m = (self', m', r)) (hn : n ≤ 4)
    (hlen : self.backupLen = 4 * n) (henter : self.enterAddr = e) (htrampo : trampo.length = n)
    (hcode : bytesAt target n ⊆ L.code) (he : Disjoint (range e 256) L.mem)
    (horig : Points L orig) (horig2 : Points L orig2) (hs : Separate orig orig2)
    (hwrite : env.write ≠ .crash true) :
    (∃ backup trampo, self' = { self with backup := backup, trampo := trampo }) ∧
      (r ≠ none → ∀ b, b ∉ range e 256 → b ∉ L.data → m' b = m b) ∧
      (r = none → Written L target trampo n e orig orig2 self' m m') := by
  rw [hookPatch] at h
  cases hrw : hookRewrite self target orig orig2 env m with
  | mk self₁ rest =>
    obtain ⟨m₁, r₁⟩ := rest
    obtain ⟨⟨backup, rfl⟩, hkeep, hok⟩ := hookRewrite_spec hrw hn hlen henter hcode he horig horig2
      hs
    rw [hrw] at h
    cases r₁ with
    | some r₁ =>
      cases h
      exact ⟨⟨_, _, rfl⟩, fun _ => hkeep, nofun⟩
    | none =>
      obtain ⟨hbackup, ⟨code, hmoved, hle, hholds⟩, hpointers⟩ := hok rfl
      simp only [shUtilWriteInst] at h
      cases hw : env.write with
      | mprotFails =>
        rw [hw] at h
        cases h
        exact ⟨⟨_, _, rfl⟩, fun _ => hkeep, nofun⟩
      | crash stored =>
        cases stored with
        | true => exact absurd hw hwrite
        | false =>
          rw [hw] at h
          cases h
          exact ⟨⟨_, _, rfl⟩, fun _ => hkeep, nofun⟩
      | ok =>
        rw [hw] at h
        cases h
        have hout : ∀ b, b ∉ bytesAt target n → m₁.writeWords target trampo b = m₁ b :=
          fun b hb => Mem.writeWords_apart (by rwa [htrampo])
        have hpatched : Holds (m₁.writeWords target trampo) target trampo :=
          Mem.holds_writeWords (by omega)
        refine ⟨⟨_, _, rfl⟩, fun hr => absurd rfl hr, fun _ => ⟨hbackup, rfl, ⟨code, hmoved, hle,
          hholds.congr fun b hb => hout b fun hin => ?_⟩, hpatched, fun a ha => ?_,
          fun b hb hdata hin => (hout b hin).trans (hkeep b hb hdata)⟩⟩
        · exact Set.disjoint_left.mp he (bytesAt_enter hle hb) (.inl (hcode hin))
        · rw [read64_pointer horig horig2 ha fun b hb => hout b fun hin => ?_]
          · exact hpointers a ha
          · exact Set.disjoint_left.mp L.data_code hb (hcode hin)

end Patch

/-! ## A new hook -/

/-- **An enter trampoline that no hook has yet**, after a call that began in `s`. -/
structure Pending (L : Layout) (pageSize : ℕ) (s s₁ : InstState) (e : Addr) : Prop where
  frame : Frame L pageSize s s₁
  held : s₁.enters.Held pageSize e
  new : ∀ b ∈ range e 256, ¬ InUse L pageSize s b

/-- **A hook call.** -/
structure HookCall where
  target : Addr
  newAddr : Addr
  dlinfo : XdlInfo
  orig : Option Addr
  orig2 : Option Addr
  env : HookEnv

/-- **What callers and the system promise.** What may be overwritten of the function is code of a
library; the pointers are variables; and `mmap` makes new pages. -/
structure HookCall.Given (L : Layout) (pageSize : ℕ) (infos : ElfinfoGlobals) (s : InstState)
    (c : HookCall) : Prop where
  aligned : 4 ∣ c.target.toNat
  null : c.target ≠ 0
  fits : c.target.toNat + 134217724 < 2 ^ 64
  symbol : range c.target (min c.dlinfo.dliSsize 16) ⊆ L.code
  gaps : ∀ gap ∈ shExitGetGaps (BitVec.ofNat 64 pageSize) c.dlinfo.dliFbase
    (shExitIsElfLoadedByKernel infos c.target) c.dlinfo.phdrs shExitGapsCap, gap ∈ L.gaps
  orig : Points L c.orig
  orig2 : Points L c.orig2
  separate : Separate c.orig c.orig2
  enterPage : ∀ ptr, c.env.enter.mmap = some ptr → NewPage L pageSize s ptr
  exitPage : ∀ ptr, c.env.exit.mmap = some ptr → NewPage L pageSize s ptr
  pagesApart : ∀ p q, c.env.enter.mmap = some p → c.env.exit.mmap = some q → Apart pageSize q p

/-- **With that, a store that faults has not stored.** -/
structure HookCall.Ok (L : Layout) (pageSize : ℕ) (infos : ElfinfoGlobals) (s : InstState)
    (c : HookCall) : Prop extends c.Given L pageSize infos s where
  withExit : c.env.withExit.write ≠ .crash true
  withoutExit : c.env.withoutExit.write ≠ .crash true

/-- **A hook call that went well**: the hook is in place, unless it has overwritten a part of
another one, and the pointers are at its enter trampoline. -/
structure InPlace (L : Layout) (pageSize : ℕ) (m₀ : Mem) (H : List Hooked) (c : HookCall)
    (self' : ShInst) (s' : InstState) : Prop where
  inv : Hooked.Clear ⟨c.target, c.newAddr, self'⟩ H →
    Inv L pageSize m₀ (⟨c.target, c.newAddr, self'⟩ :: H) s'
  pointers : ∀ a, a ∈ c.orig ∨ a ∈ c.orig2 → s'.mem.read64 a = self'.enterAddr

section Push

variable {c : HookCall}

theorem symbol_window (hn : 4 * n ≤ c.dlinfo.dliSsize) (hn4 : n ≤ 4) :
    bytesAt c.target n ⊆ range c.target (min c.dlinfo.dliSsize 16) := by
  rw [bytesAt_eq_range (by omega)]
  exact range_mono (by omega)

theorem HookCall.Given.window_code (hc : c.Given L pageSize infos s) (hn : 4 * n ≤ c.dlinfo.dliSsize)
    (hn4 : n ≤ 4) : bytesAt c.target n ⊆ L.code := (symbol_window hn hn4).trans hc.symbol

/-- The instructions at the target are those from before all hooks. -/
theorem readWords_target (hI : Inv L pageSize m₀ H s) (hc : c.Ok L pageSize infos s)
    (hf : Frame L pageSize s s₁) (hn : 4 * n ≤ c.dlinfo.dliSsize) (hn4 : n ≤ 4)
    (hclear : ∀ h ∈ H, Disjoint (bytesAt c.target n) h.window) :
    s₁.mem.readWords c.target n = m₀.readWords c.target n := by
  refine Mem.readWords_congr fun b hb => ?_
  have hcode := hc.window_code hn hn4 hb
  have hdata : b ∉ L.data := fun hdata => Set.disjoint_left.mp L.data_code hdata hcode
  rw [hf.keep b (.code hcode) hdata]
  exact hI.code b hcode fun h hh hin => Set.disjoint_left.mp (hclear h hh) hb hin

/-- **The new hook is in place**, and the others stay. -/
theorem Inv.push (hI : Inv L pageSize m₀ H s) (hc : c.Ok L pageSize infos s)
    (hp : Pending L pageSize s s₁ e) (hn : 4 * n ≤ c.dlinfo.dliSsize) (hn4 : n ≤ 4)
    (hw : Written L c.target trampo n e c.orig c.orig2 self' s₁.mem m') (hlen : trampo.length = n)
    (henter : self'.enterAddr = e) (hback : self'.backupLen = 4 * n)
    (hexit : self'.exitAddr ≠ 0 → ∀ b ∈ range self'.exitAddr 16, ¬ InUse L pageSize s b)
    (hjump : Jump L pageSize { s₁ with mem := m' } ⟨c.target, c.newAddr, self'⟩) :
    InPlace L pageSize m₀ H c self' { s₁ with mem := m' } := by
  have hwords : self'.backup.length = n := by rw [hw.backup, Mem.length_readWords]
  have hwindow : (⟨c.target, c.newAddr, self'⟩ : Hooked).window = bytesAt c.target n := by
    rw [Hooked.window, hwords]
  refine ⟨fun hclear => ?_, henter ▸ hw.pointers⟩
  replace hclear : ∀ h ∈ H, Disjoint (bytesAt c.target n) h.window :=
    fun h hh => hwindow ▸ hclear h hh
  have hcode := hc.window_code hn hn4
  have hread := readWords_target hI hc hp.frame hn hn4 hclear
  -- what the other hooks rest on is not written to
  have hkeep : ∀ h ∈ H, ∀ b ∈ h.bytes L, m' b = s.mem b := by
    intro h hh b hb
    have hi := hI.live h hh
    obtain ⟨huse, hdata⟩ := hi.inUse hI.managers hb
    have hout : b ∉ bytesAt c.target n := fun hin =>
      Set.disjoint_left.mp (hclear h hh) hin
        (hi.in_window hI.managers hb (hcode hin))
    rw [hw.keep b (fun hin => hp.new b hin huse) hdata hout, hp.frame.keep b huse hdata]
  refine ⟨hp.frame.managers.setMem m', ?_, ?_, fun b hb hout => ?_⟩
  · intro h hh
    rcases List.mem_cons.mp hh with rfl | hh
    · refine ⟨hwindow ▸ hcode, hc.aligned, hc.fits, ?_, ?_, ?_, ?_, ?_, henter ▸ hp.held, ?_, hjump⟩
      · rw [hwords, hw.backup, hread]
      · rw [hwords, hback]
      · exact hwords.trans_le hn4
      · rw [hw.jump, hlen, hwords]
      · rw [hw.jump]
        exact hw.patched
      · rw [henter, hw.backup]
        exact hw.moved
    · have hi := hI.live h hh
      exact hi.congr (hkeep h hh) (hp.frame.enters _ hi.enter) (hp.frame.exits _)
  · refine List.pairwise_cons.mpr ⟨fun h hh => ⟨?_, ?_, fun hne heq => ?_⟩, hI.apart⟩
    · rw [hwindow]
      exact hclear h hh
    · intro heq
      have hself : e ∈ range e 256 := mem_range_self (by decide)
      refine hp.new e hself (.enter (hI.live h hh).enter ?_)
      rwa [← henter, heq] at hself ⊢
    · have hself : self'.exitAddr ∈ range self'.exitAddr 16 := mem_range_self (by decide)
      refine hexit hne _ hself ((hI.live h hh).inUse hI.managers (.inr (.inr ⟨?_, .inl ?_⟩))).1
      · exact heq ▸ hne
      · exact heq ▸ hself
  · have hdata : b ∉ L.data := fun hdata => Set.disjoint_left.mp L.data_code hdata hb
    have hnew : b ∉ bytesAt c.target n := hwindow ▸ hout _ List.mem_cons_self
    have hcall : m' b = s₁.mem b := hw.keep b (fun hin => hp.new b hin (.code hb)) hdata hnew
    have hold := hI.code b hb fun h hh => hout h (List.mem_cons_of_mem _ hh)
    exact (hcall.trans (hp.frame.keep b (.code hb) hdata)).trans hold

end Push

/-! ## The two tries -/

section Tries

variable {c : HookCall} {s₂ : InstState} {w : WriteInst} {type : ShExitType}

theorem Pending.disjoint (hp : Pending L pageSize s s₁ e) : Disjoint (range e 256) L.mem :=
  hp.frame.managers.enter_mem hp.held

/-- A patch that fails. -/
theorem Pending.failed (hp : Pending L pageSize s s₁ e)
    (hkeep : ∀ b, b ∉ range e 256 → b ∉ L.data → m' b = s₁.mem b) :
    Pending L pageSize s { s₁ with mem := m' } e where
  frame := ⟨hp.frame.managers.setMem m', hp.frame.enters, hp.frame.exits, fun b hb hdata =>
    (hkeep b (fun hin => hp.new b hin hb) hdata).trans (hp.frame.keep b hb hdata)⟩
  held := hp.held
  new := hp.new

/-- The enter trampoline is given back, and the pointers are cleared. -/
theorem Pending.cancel (hp : Pending L pageSize s s₁ e) (hc : c.Ok L pageSize infos s)
    (henter : self.enterAddr = e) {now : ℤ} :
    Frame L pageSize s (shEnterFree pageSize self.enterAddr now
      { s₁ with mem := storeOrig c.orig2 0 (storeOrig c.orig 0 s₁.mem) }) := by
  subst henter
  obtain ⟨hm, hheld⟩ := (hp.frame.managers.setMem
    (storeOrig c.orig2 0 (storeOrig c.orig 0 s₁.mem))).free_enters hp.held now
  refine ⟨hm, fun y hy => (hheld y).mpr ⟨hp.frame.enters y hy, ?_⟩, hp.frame.exits,
    fun b hb hdata => ?_⟩
  · rintro rfl
    exact hp.new _ (mem_range_self (by decide)) (.enter hy (mem_range_self (by decide)))
  · have hstore : storeOrig c.orig2 0 (storeOrig c.orig 0 s₁.mem) b = s₁.mem b :=
      (storeOrig_apart hc.orig2 hdata).trans (storeOrig_apart hc.orig hdata)
    exact hstore.trans (hp.frame.keep b hb hdata)

/-- An exit of the call is given back. -/
theorem Pending.freed (hp : Pending L pageSize s s₁ e) (hx : ExitFreed L pageSize s₁ x s')
    (hnew : ∀ b ∈ range x 16, ¬ InUse L pageSize s b) : Pending L pageSize s s' e where
  frame := by
    refine ⟨hx.managers, fun e he => hx.enters.symm ▸ hp.frame.enters e he, fun y hy => ?_,
      fun b hb hdata => ?_⟩
    · refine hx.held y (hp.frame.exits y hy) ?_
      rintro rfl
      exact hnew y (mem_range_self (by decide)) (.exit hy (mem_range_self (by decide)))
    · exact (hx.keep b fun hin => hnew b hin hb).trans (hp.frame.keep b hb hdata)
  held := hx.enters.symm ▸ hp.held
  new := hp.new

/-- **`sh_inst_hook_without_exit`.** -/
theorem shInstHookWithoutExit_spec (hI : Inv L pageSize m₀ H s) (hc : c.Ok L pageSize infos s)
    (hp : Pending L pageSize s s₁ e) (henter : self.enterAddr = e)
    (hexit : self.exitAddr = 0 ∨ c.dlinfo.dliSsize < 4)
    (h : shInstHookWithoutExit self c.target c.dlinfo c.newAddr c.orig c.orig2 c.env s₁ =
      (self', s', r)) :
    (r = none → InPlace L pageSize m₀ H c self' s') ∧
      (r ≠ none → Pending L pageSize s s' e ∧ self'.enterAddr = e) := by
  subst henter
  rw [shInstHookWithoutExit] at h
  simp only at h
  split at h
  · cases h
    exact ⟨nofun, fun _ => ⟨hp, rfl⟩⟩
  rename_i hsize
  have hzero : self.exitAddr = 0 := hexit.resolve_right (by omega)
  cases hpatch : hookPatch { self with backupLen := 16 } c.target c.orig c.orig2
      (shA64AbsoluteJumpWithBr c.newAddr) c.env.withoutExit s₁.mem with
  | mk self₁ rest =>
    obtain ⟨m₁, r₁⟩ := rest
    rw [hpatch] at h
    cases h
    obtain ⟨⟨backup, trampo, rfl⟩, hfail, hok⟩ := hookPatch_spec (n := 4) hpatch (by decide) rfl rfl
      rfl (hc.window_code (by omega) (by decide)) hp.disjoint hc.orig hc.orig2
      hc.separate hc.withoutExit
    refine ⟨fun hr => ?_, fun hr => ⟨hp.failed (hfail hr), rfl⟩⟩
    have hw := hok hr
    have hlen : (shA64AbsoluteJumpWithBr c.newAddr).length = 4 := rfl
    exact hI.push (n := 4) hc hp (by omega) (by decide) hw hlen rfl rfl
      (fun hne => absurd hzero hne)
      (.direct hzero hw.jump)

/-- **The patch with an exit at hand.** If it fails, the exit is still there. -/
theorem Pending.patchWithExit (hI : Inv L pageSize m₀ H s) (hc : c.Ok L pageSize infos s)
    (hp : Pending L pageSize s s₂ e) (henter : self.enterAddr = e)
    (hsize : 4 ≤ c.dlinfo.dliSsize) (hplace : ExitPlace L pageSize s₂ x type)
    (hcode : Holds s₂.mem x (shA64AbsoluteJumpWithBr c.newAddr)) (hreach : InReach c.target x)
    (hxnew : ∀ b ∈ range x 16, ¬ InUse L pageSize s b)
    (hpatch : hookPatch { self with
      backupLen := 4, exit := shA64AbsoluteJumpWithBr c.newAddr, exitAddr := x, exitType := type }
      c.target c.orig c.orig2 (shA64RelativeJump x c.target) c.env.withExit s₂.mem =
      (self', m', r)) :
    (self'.enterAddr = e ∧ self'.exit = shA64AbsoluteJumpWithBr c.newAddr) ∧
      (r = none → InPlace L pageSize m₀ H c self' { s₂ with mem := m' }) ∧
      (r ≠ none → Pending L pageSize s { s₂ with mem := m' } e ∧
        ExitPlace L pageSize { s₂ with mem := m' } x type ∧
        Holds m' x (shA64AbsoluteJumpWithBr c.newAddr)) := by
  subst henter
  obtain ⟨⟨backup, trampo, rfl⟩, hfail, hok⟩ := hookPatch_spec (n := 1) hpatch (by decide) rfl rfl
    rfl (hc.window_code (by omega) (by decide)) hp.disjoint hc.orig hc.orig2 hc.separate hc.withExit
  have hsame : ∀ b, b ∉ range self.enterAddr 256 → b ∉ L.data → b ∉ bytesAt c.target 1 →
      m' b = s₂.mem b := by
    intro b h₁ h₂ h₃
    by_cases hr : r = none
    · exact (hok hr).keep b h₁ h₂ h₃
    · exact hfail hr b h₁ h₂
  -- neither the exit nor the mark of its gap is written to
  have hkeep : ∀ b, (b ∈ range x 16 ∨ ∃ gap ∈ L.gaps, x ∈ gap.bytes ∧ gap.needFillZero = true ∧
      b ∈ range gap.start 16) → m' b = s₂.mem b := by
    intro b hb
    obtain ⟨hncode, henters⟩ := hplace.apart hp.frame.managers hb
    exact hsame b (henters _ hp.held) (hplace.inUse hp.frame.managers hb).2 fun hin =>
      hncode (hc.window_code (by omega) (by decide) hin)
  have hcode' : Holds m' x (shA64AbsoluteJumpWithBr c.newAddr) :=
    hcode.congr fun b hb => hkeep b (.inl (bytesAt_four ▸ hb))
  have hplace' : ExitPlace L pageSize { s₂ with mem := m' } x type := hplace.congr id hkeep
  refine ⟨⟨rfl, rfl⟩, fun hr => ?_, fun hr => ⟨hp.failed (hfail hr), hplace', hcode'⟩⟩
  have hw := hok hr
  have hlen : (shA64RelativeJump x c.target).length = 1 := rfl
  exact hI.push (n := 1) hc hp (by omega) (by decide) hw hlen rfl rfl (fun _ => hxnew)
    (.exit (hplace.ne_zero hp.frame.managers) hw.jump rfl hcode' hreach hplace')

/-- **`sh_inst_hook_with_exit`.** -/
theorem shInstHookWithExit_spec (hI : Inv L pageSize m₀ H s) (hc : c.Ok L pageSize infos s)
    (hp : Pending L pageSize s s₁ e) (henter : self.enterAddr = e)
    (hpages : ∀ ptr, c.env.exit.mmap = some ptr → NewPage L pageSize s₁ ptr)
    (h : shInstHookWithExit pageSize infos self c.target c.dlinfo c.newAddr c.orig c.orig2 c.env
      s₁ = some (self', s', r)) :
    (r = none → InPlace L pageSize m₀ H c self' s') ∧
      (r ≠ none → Pending L pageSize s s' e ∧ self'.enterAddr = e ∧
        (self'.exitAddr = 0 ∨ c.dlinfo.dliSsize < 4)) := by
  subst henter
  rw [shInstHookWithExit] at h
  simp only at h
  split at h
  · cases h
    exact ⟨nofun, fun _ => ⟨hp, rfl, .inr ‹_›⟩⟩
  rename_i hsize
  cases halloc : shExitAlloc pageSize infos c.target c.dlinfo (shA64AbsoluteJumpWithBr c.newAddr)
      shInstA64BRangeLow shInstA64BRangeHigh c.env.exit c.env.gap s₁ with
  | none =>
    rw [halloc] at h
    cases h
  | some res =>
    obtain ⟨place, s₂⟩ := res
    have hspec := shExitAlloc_spec hp.frame.managers hpages hc.gaps hc.null hc.fits rfl halloc
    have hf₂ : Frame L pageSize s₁ s₂ := ⟨hspec.managers,
      fun y hy => hspec.enters.symm ▸ hy, hspec.held, fun b hb _ => hspec.keep b hb⟩
    have hp₂ : Pending L pageSize s s₂ self.enterAddr :=
      ⟨hp.frame.trans hf₂, hspec.enters.symm ▸ hp.held, hp.new⟩
    rw [halloc] at h
    cases place with
    | none =>
      cases h
      exact ⟨nofun, fun _ => ⟨hp₂, rfl, .inl rfl⟩⟩
    | some place =>
      obtain ⟨x, type⟩ := place
      have hplace := hspec.place x type rfl
      have hcode := hspec.code x type rfl
      have hxnew : ∀ b ∈ range x 16, ¬ InUse L pageSize s b := fun b hb huse =>
        hspec.new x type rfl b hb (hp.frame.inUse huse)
      simp only at h
      cases hpatch : hookPatch { self with
          backupLen := 4, exit := shA64AbsoluteJumpWithBr c.newAddr, exitAddr := x,
          exitType := type } c.target c.orig c.orig2 (shA64RelativeJump x c.target)
          c.env.withExit s₂.mem with
      | mk self₁ rest =>
        obtain ⟨m₁, r₁⟩ := rest
        rw [hpatch] at h
        obtain ⟨⟨henter, hexit⟩, hok, hfail⟩ := hp₂.patchWithExit hI hc rfl (by omega) hplace hcode
          (hspec.reach x type rfl) hxnew hpatch
        cases r₁ with
        | none =>
          cases h
          exact ⟨fun _ => hok rfl, fun hr => absurd rfl hr⟩
        | some err =>
          obtain ⟨hp₃, hplace', hcode'⟩ := hfail (Option.some_ne_none err)
          simp only [hexit] at h
          cases hfree : shExitFree pageSize x type (shA64AbsoluteJumpWithBr c.newAddr)
              c.env.exitFree { s₂ with mem := m₁ } with
          | none =>
            rw [hfree] at h
            cases h
          | some res =>
            obtain ⟨s₄, r₄⟩ := res
            rw [hfree] at h
            cases h
            obtain ⟨hfreed, -⟩ := shExitFree_spec hp₃.frame.managers hplace' hcode' rfl hfree
            exact ⟨nofun, fun _ => ⟨hp₃.freed hfreed hxnew, henter, .inl rfl⟩⟩

end Tries

/-! ## The call -/

section Call

variable {c : HookCall}

theorem EnterAlloc.frame {env : AllocEnv} (h : EnterAlloc L pageSize env s e s') :
    Frame L pageSize s s' where
  managers := h.managers
  enters y hy := by
    rcases h.result with ⟨-, hsame⟩ | ⟨-, hgrown⟩
    · rwa [hsame]
    · exact (hgrown.held y).mpr (.inr hy)
  exits y hy := h.exits.symm ▸ hy
  keep b hb _ := h.keep b hb

theorem EnterAlloc.pending {env : AllocEnv} (h : EnterAlloc L pageSize env s e s')
    (hne : e ≠ 0) : Pending L pageSize s s' e := by
  obtain ⟨-, hgrown⟩ := h.result.resolve_left fun hz => hne hz.1
  exact ⟨h.frame, (hgrown.held e).mpr (.inl rfl), fun b hb huse =>
    InUse.not_enter (s := s) h.managers h.exits hgrown.fresh hgrown.held huse hb⟩

/-- A new page is one after the call for the enter trampoline, too. -/
theorem EnterAlloc.newPage (h : EnterAlloc L pageSize c.env.enter s e s')
    (hc : c.Given L pageSize infos s) {ptr : Addr} (hptr : c.env.exit.mmap = some ptr) :
    NewPage L pageSize s' ptr := by
  have hnew := hc.exitPage ptr hptr
  refine ⟨hnew.null, hnew.fits, hnew.aligned, hnew.libraries, fun p hp => ?_, h.exits ▸ hnew.exits⟩
  rcases h.pages p hp with ⟨q, hq, hq'⟩ | hmmap
  · exact hq' ▸ hnew.enters q hq
  · exact hc.pagesApart p.ptr ptr hmmap hptr

/-- **`sh_inst_hook`**: the hook is in place, or nothing was done to the others. -/
theorem shInstHook_spec (hI : Inv L pageSize m₀ H s) (hc : c.Ok L pageSize infos s)
    (h : shInstHook pageSize infos self c.target c.dlinfo c.newAddr c.orig c.orig2 c.env s =
      some (self', s', r)) :
    (r = none → InPlace L pageSize m₀ H c self' s') ∧ (r ≠ none → Frame L pageSize s s') := by
  rw [shInstHook] at h
  cases halloc : shEnterAlloc pageSize c.env.enter s with
  | none =>
    rw [halloc] at h
    cases h
  | some res =>
    obtain ⟨e, s₁⟩ := res
    have hspec := shEnterAlloc_spec hI.managers hc.enterPage halloc
    rw [halloc] at h
    simp only at h
    split at h
    · cases h
      exact ⟨nofun, fun _ => hspec.frame⟩
    rename_i hne
    have hp := hspec.pending hne
    cases hwith : shInstHookWithExit pageSize infos { self with enterAddr := e } c.target c.dlinfo
        c.newAddr c.orig c.orig2 c.env s₁ with
    | none =>
      rw [hwith] at h
      cases h
    | some res =>
      obtain ⟨self₂, s₂, r₂⟩ := res
      obtain ⟨hok, hfail⟩ := shInstHookWithExit_spec hI hc hp rfl
        (fun ptr hptr => hspec.newPage hc.toGiven hptr) hwith
      rw [hwith] at h
      cases r₂ with
      | none =>
        cases h
        exact ⟨fun _ => hok rfl, fun hr => absurd rfl hr⟩
      | some err =>
        obtain ⟨hp₂, henter, hexit⟩ := hfail (Option.some_ne_none err)
        simp only at h
        cases hwithout : shInstHookWithoutExit self₂ c.target c.dlinfo c.newAddr c.orig c.orig2
            c.env s₂ with
        | mk self₃ rest =>
          obtain ⟨s₃, r₃⟩ := rest
          obtain ⟨hok, hfail⟩ := shInstHookWithoutExit_spec hI hc hp₂ henter hexit hwithout
          rw [hwithout] at h
          cases r₃ with
          | none =>
            cases h
            exact ⟨fun _ => hok rfl, fun hr => absurd rfl hr⟩
          | some err =>
            obtain ⟨hp₃, henter⟩ := hfail (Option.some_ne_none err)
            cases h
            exact ⟨nofun, fun _ => hp₃.cancel hc henter⟩

end Call

end Koola.Inline
