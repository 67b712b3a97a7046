import Koola.Inline.Enter
import Koola.Inline.Unhook

/-!
# Runs of hooks and unhooks

* `HookRuns`: the runs; `hookRuns_inv`: all hooks are in place in every state of every run.
* `exists_twoHooks`: a run.
* **`hookRuns_jumps`**, **`hookRuns_orig`**, **`hookRuns_code`**, **`hookRuns_apart`**,
  **`hookRuns_hook`**, **`hookRuns_unhook`**: what that means.
-/

namespace Koola.Inline

open A64 ShTrampoMgr ShExitGap

variable {L : Layout} {pageSize : ℕ} {infos : ElfinfoGlobals} {m₀ : Mem} {s s' : InstState}
  {H : List Hooked} {h : Hooked} {b : Addr}

variable (L pageSize infos m₀) in
/-- **The runs of hooks and unhooks**, with the hooks that are in place: no store to code faults
after it has stored, and no hook overwrites a part of another one. Between the calls the program may
write to all that is not in use, and to its variables. -/
inductive HookRuns : List Hooked → InstState → Prop
  | init : HookRuns [] (.init m₀)
  | hook {H : List Hooked} {s s' : InstState} {c : HookCall} {self self' : ShInst} :
      HookRuns H s → c.Ok L pageSize infos s →
      shInstHook pageSize infos self c.target c.dlinfo c.newAddr c.orig c.orig2 c.env s =
        some (self', s', none) → Hooked.Clear ⟨c.target, c.newAddr, self'⟩ H →
      HookRuns (⟨c.target, c.newAddr, self'⟩ :: H) s'
  | hookFailed {H : List Hooked} {s s' : InstState} {c : HookCall} {self self' : ShInst}
      {r : Errno} : HookRuns H s → c.Ok L pageSize infos s →
      shInstHook pageSize infos self c.target c.dlinfo c.newAddr c.orig c.orig2 c.env s =
        some (self', s', some r) →
      HookRuns H s'
  | unhook {H H' : List Hooked} {h : Hooked} {s s' : InstState} {env : UnhookEnv}
      {r : Option UnhookErrno} : HookRuns H s → H.Perm (h :: H') → env.write ≠ .crash true →
      shInstUnhook pageSize h.self h.target env s = some (s', r) → restored r = true →
      HookRuns H' s'
  | unhookFailed {H : List Hooked} {h : Hooked} {s s' : InstState} {env : UnhookEnv}
      {r : Option UnhookErrno} : HookRuns H s → h ∈ H → env.write ≠ .crash true →
      shInstUnhook pageSize h.self h.target env s = some (s', r) → restored r = false →
      HookRuns H s'
  | program {H : List Hooked} {s : InstState} {m : Mem} : HookRuns H s →
      (∀ b, InUse L pageSize s b → b ∉ L.data → m b = s.mem b) → HookRuns H { s with mem := m }

section Runs

theorem managers_init : Managers L pageSize (.init m₀) := by
  have hwf : ∀ size delay, 0 < size → (shTrampoInitMgr size delay).WellFormed pageSize :=
    fun size delay hsize => (simulates_init hsize).wf
  have hten : (0 : ℤ) < 10 := by decide
  have htwo : (0 : ℤ) < 2 := by decide
  exact ⟨hwf 256 10 (by decide), hwf 16 2 (by decide), rfl, rfl, hten, htwo,
    fun p hp => absurd hp List.not_mem_nil, fun p hp => absurd hp List.not_mem_nil,
    fun p hp => absurd hp List.not_mem_nil, fun p hp => absurd hp List.not_mem_nil⟩

theorem exists_perm (hh : h ∈ H) : ∃ H', H.Perm (h :: H') := by
  obtain ⟨pre, post, rfl⟩ := List.append_of_mem hh
  exact ⟨pre ++ post, List.perm_middle⟩

/-- **All hooks are in place**, in every state of every run. -/
theorem hookRuns_inv (hruns : HookRuns L pageSize infos m₀ H s) : Inv L pageSize m₀ H s := by
  induction hruns with
  | init => exact ⟨managers_init, fun h hh => absurd hh List.not_mem_nil, .nil, fun _ _ _ => rfl⟩
  | hook _ hc heq hclear ih => exact ((shInstHook_spec ih hc heq).1 rfl).inv hclear
  | hookFailed _ hc heq ih => exact ih.frame ((shInstHook_spec ih hc heq).2 (Option.some_ne_none _))
  | unhook _ hp hwrite heq hr ih => exact (shInstUnhook_spec (ih.perm hp) hwrite heq).1 hr
  | unhookFailed _ hh hwrite heq hr ih =>
    obtain ⟨H', hp⟩ := exists_perm hh
    rw [(shInstUnhook_spec (ih.perm hp) hwrite heq).2.1 hr]
    exact ih
  | program _ hkeep ih =>
    exact ih.frame ⟨ih.managers.setMem _, fun _ he => he, fun _ hx => hx, hkeep⟩

end Runs

/-! ## Two hooks -/

section TwoHooks

theorem gaps_twoSegments : shExitGetGaps (BitVec.ofNat 64 (2 ^ 12)) 0 false twoSegments
    shExitGapsCap = [⟨0x10040, 0x13000, true, false⟩] := by
  decide +kernel

theorem gap_bytes {gap : ShExitGap} (hgap : gap ∈ shExitGetGaps (BitVec.ofNat 64 (2 ^ 12)) 0 false
    twoSegments shExitGapsCap) (hb : b ∈ gap.bytes) : b.toNat < 0x13000 := by
  rw [gaps_twoSegments, List.mem_singleton] at hgap
  subst hgap
  exact (mem_bytes_iff.mp hb).2

theorem pageBits_ge : 4 ≤ 12 := by decide

theorem pageBits_lt : 12 < 64 := by decide

theorem twoSegments_pos : ∀ p ∈ twoSegments, p.load = true → 0 < p.last 0 := by
  intro p hp _
  rcases List.mem_cons.mp hp with rfl | hp
  · decide
  · obtain rfl := List.mem_singleton.mp hp
    decide

theorem code_twoSegments : ∀ b ∈ range 0x10000 64, ∃ p ∈ twoSegments, p.load = true ∧
    b ∈ p.bytes 0 := by
  intro b hb
  rw [mem_range_iff (by rw [Fits]; decide)] at hb
  exact ⟨_, List.mem_cons_self, rfl, hb⟩

theorem variable_code : Disjoint (range 0x20000 8) (range 0x10000 64) :=
  (range_disjoint (by decide) (by decide)).symm

theorem variable_gaps : ∀ gap ∈ shExitGetGaps (BitVec.ofNat 64 (2 ^ 12)) 0 false twoSegments
    shExitGapsCap, Disjoint (range 0x20000 8) gap.bytes := by
  refine fun gap hgap => Set.disjoint_left.mpr fun b hb hin => ?_
  rw [mem_range_iff (by rw [Fits]; decide)] at hb
  have hlow : 0x20000 ≤ b.toNat := hb.1
  have hhigh := gap_bytes hgap hin
  omega

/-- A library and a variable. -/
def twoFunctions : Layout :=
  .ofLibrary false pageBits_ge pageBits_lt segments_twoSegments twoSegments_pos (range 0x10000 64)
    (range 0x20000 8) code_twoSegments variable_code variable_gaps

theorem twoFunctions_mem {ptr : Addr} (hptr : 0x20008 ≤ ptr.toNat) (hfits : Fits ptr 4096) :
    Disjoint (range ptr 4096) twoFunctions.mem := by
  have hlast : (0x10000 : Addr).toNat + 64 ≤ ptr.toNat := le_trans (by decide) hptr
  have hdata : Disjoint (range ptr 4096) (range 0x20000 8) := (range_disjoint hptr hfits).symm
  have hcode : Disjoint (range ptr 4096) (range 0x10000 64) := (range_disjoint hlast hfits).symm
  refine Set.disjoint_left.mpr fun b hb hmem => ?_
  rcases hmem with hin | hin | ⟨gap, hgap, hin⟩
  · exact Set.disjoint_left.mp hcode hb hin
  · exact Set.disjoint_left.mp hdata hb hin
  · rw [mem_range_iff hfits] at hb
    have hhigh := gap_bytes hgap hin
    omega

/-- A call that sets the variable; `exit` says whether the exit can be used. -/
def hookAt (target : Addr) (page : Option Addr) (exitPage : Option Addr) (exit : Bool) :
    HookCall where
  target := target
  newAddr := 0x30000
  dlinfo := ⟨0, 1024, twoSegments⟩
  orig := some 0x20000
  orig2 := none
  env :=
    { enter := ⟨100, page, true, true, true⟩
      exit := ⟨100, exitPage, true, true, true⟩
      gap := ⟨fun _ => false, fun _ => true⟩
      withExit := ⟨exit, false, .ok⟩
      exitFree := ⟨100, ⟨fun _ => false, fun _ => true⟩⟩
      withoutExit := ⟨true, false, .ok⟩
      enterFree := 100 }

def noInst : ShInst := ⟨[], [], 0, .outLibrary, 0, [], 0⟩

theorem hookAt_ok {s : InstState} {target : Addr} {page exitPage : Option Addr}
    {exit : Bool} (haligned : 4 ∣ target.toNat) (hlow : 0x10000 ≤ target.toNat)
    (hhigh : target.toNat + 16 ≤ 0x10040)
    (hpage : ∀ ptr ∈ page, NewPage twoFunctions 4096 s ptr)
    (hexitPage : ∀ ptr ∈ exitPage, NewPage twoFunctions 4096 s ptr)
    (hapart : ∀ p ∈ page, ∀ q ∈ exitPage, Apart 4096 q p) :
    (hookAt target page exitPage exit).Ok twoFunctions 4096 byLinker s where
  aligned := haligned
  null := by
    rintro rfl
    exact absurd hlow (by decide)
  fits := by
    change target.toNat + 134217724 < 2 ^ 64
    omega
  symbol := by
    have hcode : Fits (0x10000 : Addr) 64 := by rw [Fits]; decide
    have hfits : Fits target 16 := by rw [Fits]; omega
    intro b hb
    change b ∈ range target 16 at hb
    rw [mem_range_iff hfits] at hb
    exact (mem_range_iff hcode).mpr ⟨hlow.trans hb.1, lt_of_lt_of_le hb.2 hhigh⟩
  gaps gap hgap := hgap
  orig a ha := by
    cases ha
    rw [bytesAt_eq_range (by decide)]
    exact subset_rfl
  orig2 _ ha := nomatch ha
  separate _ _ _ ha := nomatch ha
  enterPage ptr hptr := hpage ptr hptr
  exitPage ptr hptr := hexitPage ptr hptr
  pagesApart p q hp hq := hapart p hp q hq
  withExit := nofun
  withoutExit := nofun

/-- A branch over the next instruction at the first function. -/
def firstBranch : Mem := Mem.writeWords (fun _ => 0) 0x10000 [0x14000002]

def unhookEnv : UnhookEnv := ⟨false, .ok, ⟨200, ⟨fun _ => false, fun _ => true⟩⟩, 200⟩

theorem window_subset (hruns : HookRuns L pageSize infos m₀ H s) (hh : h ∈ H) :
    h.window ⊆ range h.target 16 := by
  have hshort := ((hookRuns_inv hruns).live h hh).short
  rw [Hooked.window, bytesAt_eq_range (by omega)]
  exact range_mono (by omega)

/-- A first page for trampolines. -/
theorem newPage_init {ptr : Addr} (hnull : ptr ≠ 0) (h16 : 16 ∣ ptr.toNat)
    (hptr : 0x20008 ≤ ptr.toNat) (hfits : ptr.toNat + 4096 < 2 ^ 64) :
    NewPage twoFunctions 4096 (.init m₀) ptr :=
  ⟨hnull, hfits, h16, twoFunctions_mem hptr hfits, fun _ h => absurd h List.not_mem_nil,
    fun _ h => absurd h List.not_mem_nil⟩

def firstHook : HookCall := hookAt 0x10000 (some 0x40000) none true

theorem firstHook_ok : firstHook.Ok twoFunctions 4096 byLinker (.init m₀) := by
  refine hookAt_ok (by decide) (by decide) (by decide) ?_ nofun nofun
  rintro ptr ⟨⟩
  exact newPage_init (by decide) (by decide) (by decide) (by decide)

/-- The exit of the first function is in a gap, the second one has none; the first hook can be taken
back. -/
theorem exists_twoHooks : ∃ h₁ h₂ s s',
    HookRuns twoFunctions 4096 byLinker firstBranch [h₂, h₁] s ∧ h₁.target = 0x10000 ∧
      h₁.newAddr = 0x30000 ∧ h₁.self.backupLen = 4 ∧ h₁.self.exitAddr ≠ 0 ∧
      h₂.target = 0x10020 ∧ h₂.self.exitAddr = 0 ∧
      shInstUnhook 4096 h₁.self h₁.target unhookEnv s = some (s', none) := by
  have hrun : ((shInstHook 4096 byLinker noInst 0x10000 ⟨0, 1024, twoSegments⟩ 0x30000 (some 0x20000)
      none firstHook.env (.init firstBranch)).bind fun r =>
        (shInstHook 4096 byLinker noInst 0x10020 ⟨0, 1024, twoSegments⟩ 0x30000 (some 0x20000) none
          (hookAt 0x10020 none none false).env r.2.1).bind fun r' =>
            (shInstUnhook 4096 r.1 0x10000 unhookEnv r'.2.1).map fun u =>
              (([r.1.backupLen, r'.1.backup.length], r.1.exitAddr, r'.1.exitAddr), r.2.2, r'.2.2,
                u.2)) =
      some (([4, 4], 0x10050, 0), none, none, none) := by
    decide +kernel
  obtain ⟨⟨self₁, s₁, r₁⟩, h₁, hrest⟩ := Option.bind_eq_some_iff.mp hrun
  obtain ⟨⟨self₂, s₂, r₂⟩, h₂, hrest⟩ := Option.bind_eq_some_iff.mp hrest
  obtain ⟨⟨s₃, r₃⟩, h₃, heq⟩ := Option.map_eq_some_iff.mp hrest
  simp only [Prod.mk.injEq, List.cons.injEq, and_true] at heq
  obtain ⟨⟨⟨hlen, hlen₂⟩, hexit₁, hexit₂⟩, rfl, rfl, rfl⟩ := heq
  have hruns₁ : HookRuns twoFunctions 4096 byLinker firstBranch [⟨0x10000, 0x30000, self₁⟩] s₁ :=
    .hook .init firstHook_ok h₁ fun _ h => absurd h List.not_mem_nil
  have hok₂ : (hookAt 0x10020 none none false).Ok twoFunctions 4096 byLinker s₁ :=
    hookAt_ok (by decide) (by decide) (by decide) nofun nofun nofun
  have hclear : Hooked.Clear ⟨0x10020, 0x30000, self₂⟩ [⟨0x10000, 0x30000, self₁⟩] := by
    intro h hh
    obtain rfl := List.mem_singleton.mp hh
    have hwindow : (⟨0x10000, 0x30000, self₁⟩ : Hooked).window ⊆ range 0x10000 16 :=
      window_subset hruns₁ List.mem_cons_self
    rw [Hooked.window, hlen₂, bytesAt_eq_range (by decide)]
    exact (range_disjoint (a := 0x10000) (b := 0x10020) (by decide) (by decide)).symm.mono_right
      hwindow
  exact ⟨_, _, _, _, hruns₁.hook hok₂ h₂ hclear, rfl, rfl, hlen, Eq.trans_ne hexit₁ (by decide), rfl,
    hexit₂, h₃⟩

/-- A machine for the code at the two functions. -/
def cpuWith (m : Mem) : Cpu := ⟨fun _ => 0, fun _ => 0, 0, m⟩

def idle : Others := fun _ _ c => (c, .next)

/-- The branch at the first function leaves the overwritten instructions. -/
theorem visit_firstBranch {E : Enter} {D : Set Addr} (htarget : E.target = 0x10000)
    (hinsts : E.insts = firstBranch.readWords 0x10000 1) :
    ∃ N : Machine, N.pc = 0x10008 ∧
      E.Visit idle {17} D ⟨cpuWith firstBranch, 0x10000⟩ N := by
  have hinst : E.insts = [0x14000002] := by
    rw [hinsts]
    decide +kernel
  have hfirst : E.insts[0]? = some 0x14000002 := by rw [hinst]; rfl
  have hpc : (0x10000 : Addr) = place E.target 0 := by rw [place_zero, htarget]
  have hdecode : decode 0x14000002 = .b 8 := by decide +kernel
  have hout : (0x10008 : Addr) ∉ E.window := by
    rw [Enter.window, htarget, hinst]
    exact fun hin => absurd hin.2 (by decide)
  refine ⟨step idle ⟨cpuWith firstBranch, 0x10000⟩, by decide +kernel,
    .leave hfirst hpc ?_ (.inr ?_)⟩
  · refine ⟨?_, fun _ _ _ _ _ => rfl, fun c' hagree => ?_, ?_, ?_, fun hrel => ?_,
      fun a ha hflow => ?_⟩
    · rw [htarget, hinsts]
      exact Mem.holds_iff_readWords.mpr (by rw [Mem.length_readWords]; rfl)
    · rw [hdecode]
      exact ⟨rfl, hagree, fun _ _ => rfl⟩
    · rw [hdecode]
      exact ⟨fun a ha => absurd ha (Set.notMem_empty a), fun a ha => absurd ha (Set.notMem_empty a)⟩
    · rw [hdecode]
      exact fun a ha => absurd ha (Set.notMem_empty a)
    · rw [hdecode] at hrel
      cases hrel
    · rw [hdecode, ← hpc] at hflow
      cases hflow
      exact absurd ha hout
  · have hstep : (step idle ⟨cpuWith firstBranch, 0x10000⟩).pc = 0x10008 := by decide +kernel
    rw [hstep]
    exact hout

end TwoHooks
/-! ## What holds in every run -/

section Results

variable {other : Others}

/-- **A call of a hooked function goes to the detour**, in every run, with all registers but `x17`
as they were. -/
theorem hookRuns_jumps {c : Cpu} (hruns : HookRuns L pageSize infos m₀ H s) (hh : h ∈ H)
    (hmem : c.mem = s.mem) :
    ∃ n ≤ 3, A64.run other n ⟨c, h.target⟩ = ⟨c.setReg 17 h.newAddr, h.newAddr⟩ := by
  have hi := (hookRuns_inv hruns).live h hh
  have hpatched := hi.patched
  rw [← hmem] at hpatched
  cases hi.jump with
  | direct _ htrampo =>
    rw [htrampo] at hpatched
    exact ⟨2, by decide, run_absoluteJump hpatched⟩
  | exit _ htrampo hcode hexit hreach _ =>
    rw [htrampo] at hpatched
    rw [hcode, ← hmem] at hexit
    exact ⟨3, le_refl _, run_relativeJump hreach hi.aligned hpatched hexit⟩

theorem hookRuns_jumps_twoHooks : ∃ (h : Hooked) (s : InstState), h.self.exitAddr ≠ 0 ∧
    ∃ n ≤ 3, A64.run idle n ⟨cpuWith s.mem, 0x10000⟩ =
      ⟨(cpuWith s.mem).setReg 17 0x30000, 0x30000⟩ := by
  obtain ⟨h₁, h₂, s, -, hruns, htarget, hnew, -, hexit, -⟩ := exists_twoHooks
  have hjump : ∃ n ≤ 3, A64.run idle n ⟨cpuWith s.mem, h₁.target⟩ = _ :=
    hookRuns_jumps hruns (List.mem_cons_of_mem _ List.mem_cons_self) rfl
  rw [htarget, hnew] at hjump
  exact ⟨h₁, s, hexit, hjump⟩

/-- The enter trampoline of a hook that is in place. -/
theorem Installed.exists_enter (hi : Installed L pageSize m₀ s h) :
    ∃ E : Enter, E.target = h.target ∧ E.enter = h.self.enterAddr ∧
      E.insts = m₀.readWords h.target (h.self.backupLen / 4) ∧ Holds s.mem E.enter E.code := by
  obtain ⟨code, hmoved, -, hholds⟩ := hi.moved
  have hlen := hi.backupLen
  have hshort := hi.short
  have hfits := hi.fits
  refine ⟨⟨h.target, h.self.enterAddr, h.self.backup, code, hmoved, by omega⟩, rfl, rfl, ?_, hholds⟩
  rw [show h.self.backupLen / 4 = h.self.backup.length by omega]
  exact hi.backup

/-- **The original function can be called**, in every run. From the enter trampoline on, a visit of
the overwritten instructions as they were before all hooks is reproduced, until control leaves them;
it can go on at any of them, as it does when a function that they call returns. -/
theorem hookRuns_orig (hruns : HookRuns L pageSize infos m₀ H s) (hh : h ∈ H) :
    ∃ E : Enter, E.target = h.target ∧ E.insts = m₀.readWords h.target (h.self.backupLen / 4) ∧
      E.entry 0 = h.self.enterAddr ∧
      (∀ (R : Set (BitVec 5)) (D : Set Addr) (M N : Machine) (c : Cpu) (i : ℕ), 31 ∉ R →
        E.Visit other R D M N → i < E.insts.length → M.pc = place h.target i → c.mem = s.mem →
        Agree R D M.cpu c → ∃ k, E.Left R D N (A64.run other k ⟨c, E.entry i⟩)) ∧
      ∀ c : Cpu, c.mem = s.mem → A64.run other 2 ⟨c, E.entry E.insts.length⟩ =
        ⟨c.setReg 17 (place h.target E.insts.length), place h.target E.insts.length⟩ := by
  obtain ⟨E, htarget, henter, hinsts, hholds⟩ :=
    ((hookRuns_inv hruns).live h hh).exists_enter
  have hzero : E.entry 0 = E.enter := by
    rw [Enter.entry, movedLen, List.take_zero]
    exact add_zero E.enter
  refine ⟨E, htarget, hinsts, hzero.trans henter, fun R D M N c i hsp hv hi hpc hmem hagree => ?_,
    fun c hmem => ?_⟩
  · exact E.visit hsp hv hi ⟨htarget ▸ hpc, rfl, hagree, hmem ▸ hholds⟩
  · rw [← hmem] at hholds
    rw [E.run_back hholds, htarget]

theorem hookRuns_orig_twoHooks : ∃ (E : Enter) (h : Hooked) (s : InstState) (N : Machine) (k : ℕ),
    h.target = 0x10000 ∧ N.pc = 0x10008 ∧ E.Left {17} {b | s.mem b ≠ firstBranch b} N
      (A64.run idle k ⟨cpuWith s.mem, h.self.enterAddr⟩) := by
  obtain ⟨h₁, h₂, s, -, hruns, htarget, -, hlen, -⟩ := exists_twoHooks
  obtain ⟨E, hE, hinsts, hentry, hvisit, -⟩ :=
    hookRuns_orig hruns (List.mem_cons_of_mem _ List.mem_cons_self)
  rw [htarget, hlen] at hinsts
  obtain ⟨N, hpc, hv⟩ := visit_firstBranch (hE.trans htarget) hinsts
  have hagree : Agree {17} {b | s.mem b ≠ firstBranch b} (cpuWith firstBranch) (cpuWith s.mem) :=
    ⟨fun _ _ => rfl, rfl, rfl, fun a ha => not_not.mp ha⟩
  obtain ⟨k, hleft⟩ := hvisit {17} _ ⟨cpuWith firstBranch, 0x10000⟩ N (cpuWith s.mem) 0 (by simp) hv
    (by rw [hinsts, Mem.length_readWords]; decide) (by rw [htarget, place_zero]) rfl hagree
  exact ⟨E, h₁, s, N, k, htarget, hpc, hentry ▸ hleft⟩

/-- **The code that no hook has overwritten is as it was before all hooks**, in every run; so an
unhook brings all of the function back. -/
theorem hookRuns_code (hruns : HookRuns L pageSize infos m₀ H s) (hb : b ∈ L.code)
    (hout : ∀ h ∈ H, b ∉ h.window) : s.mem b = m₀ b := (hookRuns_inv hruns).code b hb hout

theorem hookRuns_code_twoHooks : ∃ s : InstState, s.mem 0x10018 = firstBranch 0x10018 := by
  obtain ⟨h₁, h₂, s, -, hruns, h₁target, -, -, -, h₂target, -⟩ := exists_twoHooks
  refine ⟨s, hookRuns_code hruns (show (8 + 16 : ℕ) < 64 by decide) fun h hh hin => ?_⟩
  have hrange := window_subset hruns hh hin
  rcases List.mem_cons.mp hh with rfl | hh
  · rw [h₂target, range] at hrange
    exact absurd hrange (by decide)
  · obtain rfl := List.mem_singleton.mp hh
    rw [h₁target, range] at hrange
    exact absurd hrange (by decide)

/-- The memory of a hook. -/
def Hooked.memory (h : Hooked) : Set Addr :=
  {b | b ∈ h.window ∨ b ∈ range h.self.enterAddr 256 ∨
    h.self.exitAddr ≠ 0 ∧ b ∈ range h.self.exitAddr 16}

/-- **Hooks have no memory in common**, in every run. -/
theorem hookRuns_apart (hruns : HookRuns L pageSize infos m₀ H s) :
    H.Pairwise fun h h' => Disjoint h.memory h'.memory := by
  have hI := hookRuns_inv hruns
  have hm := hI.managers
  refine hI.apart.imp_of_mem fun {h h'} hh hh' hapart => Set.disjoint_left.mpr fun b hb hb' => ?_
  have hi := hI.live h hh
  have hi' := hI.live h' hh'
  have hbytes' : b ∈ h'.bytes L := by
    rcases hb' with hb' | hb' | ⟨hne, hb'⟩
    · exact .inl hb'
    · exact .inr (.inl hb')
    · exact .inr (.inr ⟨hne, .inl hb'⟩)
  rcases hb with hb | hb | ⟨hne, hb⟩
  · exact Set.disjoint_left.mp hapart.window hb (hi'.in_window hm hbytes' (hi.window hb))
  · rcases hb' with hb' | hb' | ⟨hne', hb'⟩
    · exact Set.disjoint_left.mp (hm.enter_mem hi.enter) hb (.inl (hi'.window hb'))
    · exact Set.disjoint_left.mp (hm.enter_enter hi.enter hi'.enter hapart.enter) hb hb'
    · cases hi'.jump with
      | direct hz => exact hne' hz
      | exit _ _ _ _ _ hp' => exact (hp'.apart hm (.inl hb')).2 _ hi.enter hb
  · cases hi.jump with
    | direct hz => exact hne hz
    | exit _ _ _ _ _ hp => exact hi'.not_exit hm hp (fun _ => hapart.exit hne) hbytes' hb

theorem hookRuns_apart_twoHooks : ∃ h₁ h₂ : Hooked, h₁.target = 0x10000 ∧ h₂.target = 0x10020 ∧
    Disjoint h₂.memory h₁.memory := by
  obtain ⟨h₁, h₂, s, -, hruns, h₁target, -, -, -, h₂target, -⟩ := exists_twoHooks
  have hpair := hookRuns_apart hruns
  exact ⟨h₁, h₂, h₁target, h₂target, (List.pairwise_cons.mp hpair).1 h₁ List.mem_cons_self⟩

/-- **An unhook brings the instructions back, or does nothing**, in every run; and it never finds
that the jump or the exit is another one. -/
theorem hookRuns_unhook {env : UnhookEnv} {r : Option UnhookErrno}
    (hruns : HookRuns L pageSize infos m₀ H s) (hh : h ∈ H) (hwrite : env.write ≠ .crash true)
    (heq : shInstUnhook pageSize h.self h.target env s = some (s', r)) :
    (restored r = true → ∀ b ∈ h.window, s'.mem b = m₀ b) ∧ (restored r = false → s' = s) ∧
      r ≠ some .unhookTrampoMismatch ∧ r ≠ some (.exit .unhookExitMismatch) := by
  obtain ⟨H', hp⟩ := exists_perm hh
  have hI := (hookRuns_inv hruns).perm hp
  obtain ⟨hgone, hsame, hmatch⟩ := shInstUnhook_spec hI hwrite heq
  refine ⟨fun hr b hb => (hgone hr).code b ?_ fun h' hh' hin => ?_, hsame, hmatch⟩
  · exact (hI.live h List.mem_cons_self).window hb
  · have hapart := (List.pairwise_cons.mp hI.apart).1 h' hh'
    exact Set.disjoint_left.mp hapart.window hb hin

theorem hookRuns_unhook_twoHooks : ∃ (h : Hooked) (s' : InstState), h.target = 0x10000 ∧
    ∀ b ∈ h.window, s'.mem b = firstBranch b := by
  obtain ⟨h₁, h₂, s, s', hruns, htarget, -, -, -, -, -, hunhook⟩ := exists_twoHooks
  exact ⟨h₁, s', htarget, (hookRuns_unhook hruns (List.mem_cons_of_mem _ List.mem_cons_self)
    (by decide) hunhook).1 rfl⟩

/-- **A hook that goes well sets the pointers to its enter trampoline; one that fails has changed
nothing** that is in use, but variables, in every run. -/
theorem hookRuns_hook {c : HookCall} {self self' : ShInst} {r : Option Errno}
    (hruns : HookRuns L pageSize infos m₀ H s) (hc : c.Ok L pageSize infos s)
    (heq : shInstHook pageSize infos self c.target c.dlinfo c.newAddr c.orig c.orig2 c.env s =
      some (self', s', r)) :
    (r = none → ∀ a, a ∈ c.orig ∨ a ∈ c.orig2 → s'.mem.read64 a = self'.enterAddr) ∧
      (r ≠ none → ∀ b, InUse L pageSize s b → b ∉ L.data → s'.mem b = s.mem b) := by
  obtain ⟨hok, hfail⟩ := shInstHook_spec (hookRuns_inv hruns) hc heq
  exact ⟨fun hr => (hok hr).pointers, fun hr => (hfail hr).keep⟩

theorem hookRuns_hook_firstHook : ∃ (self' : ShInst) (s' : InstState),
    s'.mem.read64 0x20000 = self'.enterAddr := by
  have hrun : (shInstHook 4096 byLinker noInst firstHook.target firstHook.dlinfo firstHook.newAddr
      firstHook.orig firstHook.orig2 firstHook.env (.init firstBranch)).map (fun r => r.2.2) =
      some none := by
    decide +kernel
  obtain ⟨⟨self', s', r⟩, heq, rfl⟩ := Option.map_eq_some_iff.mp hrun
  exact ⟨self', s', (hookRuns_hook .init firstHook_ok heq).1 rfl 0x20000 (.inl rfl)⟩

end Results

end Koola.Inline
