import Koola.Hook.Shadowhook

/-!
# What one hook can do

* `Try.Reaches`, `Try.Stores`, `Try.Succeeds`: how far one try gets. `Attempt.exitAt`: the exit that
  the first try copies its jump to.
* `afterExit`, `afterBoth`: the states that the tries leave.
* `patchSize`: the hook passes every check before the patch; `Attempt.Installs`: one of the two
  tries then succeeds; `Abandons`: none does.
* `Changes`: all that a hook can change. `Outcome`: the result and the last state, one case each for
  a hook that is refused, installed and abandoned.
* **`hook_outcome`**: every hook has an outcome.
-/

namespace Koola

open Logged

/-- The target is writable and its instructions are moved: `*orig_addr` is set. -/
def Try.Reaches (t : Try) : Prop := t.mprotect = true ∧ t.rewrite = .ok

/-- The jump is stored at the target, even if the try then fails. -/
def Try.Stores (t : Try) : Prop := t.Reaches ∧ (t.write = .ok ∨ t.write = .crash true)

/-- The try returns `0`. -/
def Try.Succeeds (t : Try) : Prop := t.Reaches ∧ t.write = .ok

theorem Try.Succeeds.stores {t : Try} (h : t.Succeeds) : t.Stores := ⟨h.1, .inl h.2⟩

instance (t : Try) : Decidable t.Reaches := inferInstanceAs (Decidable (_ ∧ _))
instance (t : Try) : Decidable t.Stores := inferInstanceAs (Decidable (_ ∧ _))
instance (t : Try) : Decidable t.Succeeds := inferInstanceAs (Decidable (_ ∧ _))

section LeadsTo

variable (x : Native) (a : UInt64)

@[simp] theorem leadsTo_setOrig (d : Detour) (v : UInt64) :
    (x.setOrig d v).leadsTo a = x.leadsTo a := rfl

theorem leadsTo_setCode (target : UInt64) (b : Branch) :
    (x.setCode target b).leadsTo a = if a = target then x.follow b else x.leadsTo a := by
  simp only [Native.leadsTo, Native.setCode, Function.update_apply]
  split_ifs <;> rfl

theorem leadsTo_setExit (e : UInt64) (v : Option Detour) : (x.setExit e v).leadsTo a =
    if x.code a = some (.exit e) then v else x.leadsTo a := by
  simp only [Native.leadsTo, Native.setExit]
  rcases x.code a with - | ⟨d | i⟩
  · simp
  · simp [Native.follow]
  · simp [Native.follow, Function.update_apply]

end LeadsTo

@[simp] theorem vacant_addSwitch (s : Native) (target e : UInt64) :
    (s.addSwitch target).vacant target e = s.vacant target e := by
  simp only [Native.vacant, Native.addSwitch, List.all_cons, decide_true, Bool.true_or,
    Bool.true_and]
  rfl

/-- The exit that the jump to the detour is copied to. -/
def ExitTry.taken (t : ExitTry) (s : Native) (target : UInt64) : Option (UInt64 × ShExitType) :=
  t.exit.filter fun e => s.vacant target e.1

/-- The exit is handed out, and cleared when it is given back. -/
def ExitTry.Clears (t : ExitTry) (type : ShExitType) : Prop :=
  t.exitCrash = false ∧ type = .inLibrary ∧ t.exitCleared = true

instance (t : ExitTry) (type : ShExitType) : Decidable (t.Clears type) :=
  inferInstanceAs (Decidable (_ ∧ _))

namespace Attempt

/-- The exit of the first try, on a symbol of the given size. -/
def exitAt (o : Attempt) (s : Native) (target : UInt64) (n : ℕ) : Option (UInt64 × ShExitType) :=
  if 4 ≤ n then o.withExit.taken s target else none

/-- The first try gets an exit. -/
def ExitReady (o : Attempt) (s : Native) (target : UInt64) (n : ℕ) : Prop :=
  (o.exitAt s target n).isSome = true ∧ o.withExit.exitCrash = false

/-- The first try stores its jump. -/
def FirstStores (o : Attempt) (s : Native) (target : UInt64) (n : ℕ) : Prop :=
  o.ExitReady s target n ∧ o.withExit.Stores

/-- The second try stores its jump. -/
def SecondStores (o : Attempt) (n : ℕ) : Prop := 16 ≤ n ∧ o.withoutExit.Stores

/-- One of the two tries succeeds on a symbol of the given size. -/
def Installs (o : Attempt) (s : Native) (target : UInt64) (n : ℕ) : Prop :=
  (o.ExitReady s target n ∧ o.withExit.Succeeds) ∨ (16 ≤ n ∧ o.withoutExit.Succeeds)

variable (o : Attempt) (s : Native) (target : UInt64) (n : ℕ)

instance : Decidable (o.ExitReady s target n) := inferInstanceAs (Decidable (_ ∧ _))
instance : Decidable (o.FirstStores s target n) := inferInstanceAs (Decidable (_ ∧ _))
instance : Decidable (o.SecondStores n) := inferInstanceAs (Decidable (_ ∧ _))
instance : Decidable (o.Installs s target n) := inferInstanceAs (Decidable (_ ∨ _))

end Attempt

/-! ## One try -/

section Patch

variable (t : Try) (x : Native) (target : UInt64) (d : Detour) (b : Branch) (enter : UInt64)

/-- The state that the common part of a try leaves. -/
def Try.state : Native :=
  if t.Stores then (x.setOrig d enter).setCode target b
  else if t.Reaches then x.setOrig d enter
  else x

theorem val_patch : (shInstHookPatch target d b enter t).val x = none ↔ t.Succeeds := by
  obtain ⟨mp, rw', wr⟩ := t
  cases mp <;> cases rw' <;> rcases wr with - | - | ⟨- | -⟩ <;>
    simp [shInstHookPatch, shInstHookRewrite, shUtilWriteInst, Try.Succeeds, Try.Reaches]

theorem final_patch :
    (shInstHookPatch target d b enter t).final x = t.state x target d b enter := by
  obtain ⟨mp, rw', wr⟩ := t
  cases mp <;> cases rw' <;> rcases wr with - | - | ⟨- | -⟩ <;>
    simp [shInstHookPatch, shInstHookRewrite, shUtilWriteInst, Try.state, Try.Stores, Try.Reaches]

variable {t x target d b enter} in
/-- The states of a try: with the pointer set, then with the jump stored. -/
theorem throughout_patch {I : Native → Prop} (hx : I x) (h1 : I (x.setOrig d enter))
    (h2 : I ((x.setOrig d enter).setCode target b)) :
    Throughout I (shInstHookPatch target d b enter t) x := by
  obtain ⟨mp, rw', wr⟩ := t
  cases mp <;> cases rw' <;> rcases wr with - | - | ⟨- | -⟩ <;>
    simp [shInstHookPatch, shInstHookRewrite, shUtilWriteInst, throughout_bind, hx, h1, h2]

theorem silent_patch : Silent (shInstHookPatch target d b enter t) := by
  obtain ⟨mp, rw', wr⟩ := t
  intro s e
  cases mp <;> cases rw' <;> rcases wr with - | - | ⟨- | -⟩ <;>
    simp [shInstHookPatch, shInstHookRewrite, shUtilWriteInst]

end Patch

/-! ## Both tries -/

section Exit

variable (x : Native) (target : UInt64) (d : Detour) (t : ExitTry)

theorem setExit_setExit (e : UInt64) (v w : Option Detour) :
    (x.setExit e v).setExit e w = x.setExit e w := by
  simp only [Native.setExit, Function.update_idem]

theorem val_exitAlloc : (shExitAlloc target d t).val x =
    if t.exitCrash then none else t.taken x target := by
  unfold shExitAlloc ExitTry.taken
  rcases t.exit with - | ⟨e, type⟩
  · simp
  · by_cases hv : x.vacant target e <;> simp [hv, Option.filter]

theorem final_exitAlloc : (shExitAlloc target d t).final x =
    (t.taken x target).elim x fun e => x.setExit e.1 (some d) := by
  unfold shExitAlloc ExitTry.taken
  rcases t.exit with - | ⟨e, type⟩
  · simp
  · by_cases hv : x.vacant target e <;> simp [hv, Option.filter, setExit_setExit]

variable {x target d t} in
/-- The states of `sh_exit_alloc`: with the exit cleared, then with the jump there. -/
theorem throughout_exitAlloc {I : Native → Prop} (hx : I x) (h1 : ∀ e, I (x.setExit e none)) :
    Throughout I (shExitAlloc target d t) x ↔
      ∀ e ∈ t.taken x target, I (x.setExit e.1 (some d)) := by
  unfold shExitAlloc ExitTry.taken
  rcases t.exit with - | ⟨e, type⟩
  · simp [hx]
  · by_cases hv : x.vacant target e <;>
      simp [hv, Option.filter, setExit_setExit, throughout_bind, hx, h1]

end Exit

section Inst

variable (x : Native) (target : UInt64) (d : Detour) (o : Attempt) (n : ℕ)

/-- The state after the first try. -/
def afterExit : Native :=
  match o.exitAt x target n with
  | none => x
  | some (e, type) =>
    let y := x.setExit e (some d)
    if o.withExit.exitCrash then y
    else
      let z := o.withExit.state y target d (.exit e) o.enter
      if ¬ o.withExit.Succeeds ∧ type = .inLibrary ∧ o.withExit.exitCleared then z.setExit e none
      else z

/-- The state after both tries; the second is made only when the first fails. -/
def afterBoth : Native :=
  if (o.ExitReady x target n ∧ o.withExit.Succeeds) ∨ n < 16 then afterExit x target d o n
  else o.withoutExit.state (afterExit x target d o n) target d (.detour d) o.enter

theorem val_withExit : (shInstHookWithExit target d o.enter n o.withExit).val x = none ↔
    o.ExitReady x target n ∧ o.withExit.Succeeds := by
  unfold shInstHookWithExit Attempt.ExitReady Attempt.exitAt
  by_cases hn : 4 ≤ n
  · rw [if_neg (by omega), if_pos hn]
    simp only [val_bind, val_exitAlloc]
    rcases o.withExit.taken x target with - | ⟨e, type⟩
    · simp
    · cases o.withExit.exitCrash
      · simp only [Bool.false_eq_true, ↓reduceIte, val_bind, Option.isSome_some, and_self, true_and]
        rw [← val_patch o.withExit.toTry ((shExitAlloc target d o.withExit).final x) target d
          (.exit e) o.enter]
        split <;> simp_all
      · simp
  · simp [hn, show n < 4 by omega]

theorem final_withExit : (shInstHookWithExit target d o.enter n o.withExit).final x =
    afterExit x target d o n := by
  unfold shInstHookWithExit afterExit Attempt.exitAt
  by_cases hn : 4 ≤ n
  · rw [if_neg (by omega), if_pos hn]
    simp only [final_bind, val_exitAlloc, final_exitAlloc]
    rcases o.withExit.taken x target with - | ⟨e, type⟩
    · simp
    · cases o.withExit.exitCrash
      · simp only [Bool.false_eq_true, ↓reduceIte, final_bind, Option.elim_some, final_patch]
        have hval := val_patch o.withExit.toTry (x.setExit e (some d)) target d (.exit e) o.enter
        split <;> rename_i hv
        · simp [hval.mp hv]
        · have hs : ¬ o.withExit.Succeeds := fun hs => by simp [hval.mpr hs] at hv
          unfold shExitFree
          simp only [final_bind, final_pure, hs, not_false_eq_true, true_and]
          split_ifs <;> rfl
      · simp
  · simp [hn, show n < 4 by omega]

theorem val_retry : (shInstHookRetry target d n o).val x = none ↔
    16 ≤ n ∧ o.withoutExit.Succeeds := by
  unfold shInstHookRetry shInstHookWithoutExit
  by_cases hn : 16 ≤ n
  · rw [if_neg (by omega), ← val_patch o.withoutExit x target d (.detour d) o.enter]
    simp only [val_bind]
    split <;> simp_all
  · simp [hn, show n < 16 by omega]

theorem final_retry : (shInstHookRetry target d n o).final x =
    let y := if n < 16 then x else o.withoutExit.state x target d (.detour d) o.enter
    if 16 ≤ n ∧ o.withoutExit.Succeeds then y else y.setOrig d 0 := by
  unfold shInstHookRetry shInstHookWithoutExit
  by_cases hn : n < 16
  · simp [hn]
  · have hval := val_patch o.withoutExit x target d (.detour d) o.enter
    rw [if_neg hn]
    simp only [final_bind, final_patch, if_neg hn]
    split <;> rename_i hv
    · rw [if_pos ⟨by omega, hval.mp hv⟩, final_pure]
    · rw [if_neg fun h => by simp [hval.mpr h.2] at hv]
      rfl

/-- `sh_inst_hook` succeeds exactly when one of its two tries does. -/
theorem val_instHook (h0 : o.enter ≠ 0) :
    (shInstHook target d n o).val x = none ↔ o.Installs x target n := by
  unfold shInstHook Attempt.Installs
  rw [if_neg h0, ← val_withExit x target d o n]
  simp only [val_bind]
  split <;> simp_all [val_retry]

/-- **What `sh_inst_hook` leaves**: where both tries fail, the pointer is cleared. -/
theorem final_instHook (h0 : o.enter ≠ 0) : (shInstHook target d n o).final x =
    if o.Installs x target n then afterBoth x target d o n
    else (afterBoth x target d o n).setOrig d 0 := by
  have hval := val_withExit x target d o n
  unfold shInstHook afterBoth
  rw [if_neg h0]
  simp only [final_bind, final_withExit]
  split <;> rename_i hv
  · have h1 := hval.mp hv
    rw [if_pos (.inl h1), if_pos (.inl h1), final_pure]
  · have h1 : ¬ (o.ExitReady x target n ∧ o.withExit.Succeeds) := fun h => by
      simp [hval.mpr h] at hv
    simp only [final_retry, Attempt.Installs, h1, false_or]

theorem silent_instHook : Silent (shInstHook target d n o) := by
  have hwrite (f : Native → Native) (r : Option Errno) :
      Silent (do write f; return r : Hook (Option Errno)) :=
    silent_bind (silent_write f) fun _ => silent_pure r
  have hexit : Silent (shExitAlloc target d o.withExit) := by
    unfold shExitAlloc
    rcases o.withExit.exit with - | ⟨e, type⟩
    · exact silent_pure _
    · exact silent_bind silent_get fun s => silent_ite
        (silent_bind (silent_write _) fun _ => silent_bind (silent_write _) fun _ => silent_pure _)
        (silent_pure _)
  refine silent_ite (silent_pure _) (silent_bind (silent_ite (silent_pure _)
    (silent_bind hexit fun e => ?_)) fun r => ?_)
  · rcases e with - | ⟨e, type⟩
    · exact silent_pure _
    · refine silent_bind (silent_patch _ _ _ _ _) fun r => ?_
      rcases r with - | r
      · exact silent_pure _
      · exact silent_bind (silent_ite (silent_write _) (silent_pure _)) fun _ => silent_pure _
  · rcases r with - | r
    · exact silent_pure _
    · refine silent_bind (silent_ite (silent_pure _) (silent_patch _ _ _ _ _)) fun r => ?_
      rcases r with - | r
      · exact silent_pure _
      · exact hwrite _ _

end Inst

/-! ## What can change -/

/-- **What a patch can change**: the code at its target, the exits that no other switch uses, its
own pointer. -/
structure Changes (s : Native) (target : UInt64) (d : Detour) (x : Native) : Prop where
  info : x.minecraftInfo = s.minecraftInfo
  initErrno : x.initErrno = s.initErrno
  switches : x.switches = s.switches
  code : ∀ a ≠ target, x.code a = s.code a
  exits : ∀ e, s.vacant target e = false → x.exits e = s.exits e
  orig : ∀ e ≠ d, x.orig e = s.orig e

namespace Changes

variable {s x : Native} {target : UInt64} {d : Detour}

theorem refl : Changes s target d s :=
  ⟨rfl, rfl, rfl, fun _ _ => rfl, fun _ _ => rfl, fun _ _ => rfl⟩

theorem setOrig (h : Changes s target d x) (v : UInt64) : Changes s target d (x.setOrig d v) where
  info := h.info
  initErrno := h.initErrno
  switches := h.switches
  code := h.code
  exits := h.exits
  orig e he := (Function.update_of_ne he ..).trans (h.orig e he)

theorem setCode (h : Changes s target d x) (b : Branch) :
    Changes s target d (x.setCode target b) where
  info := h.info
  initErrno := h.initErrno
  switches := h.switches
  code a ha := (Function.update_of_ne ha ..).trans (h.code a ha)
  exits := h.exits
  orig := h.orig

theorem setExit (h : Changes s target d x) {e : UInt64} (he : s.vacant target e = true)
    (v : Option Detour) : Changes s target d (x.setExit e v) where
  info := h.info
  initErrno := h.initErrno
  switches := h.switches
  code := h.code
  exits e' he' := by
    refine (Function.update_of_ne ?_ ..).trans (h.exits e' he')
    rintro rfl
    exact absurd (he.symm.trans he') (by decide)
  orig := h.orig

theorem patched (h : Changes s target d x) (t : Try) (b : Branch) (enter : UInt64) :
    Changes s target d (t.state x target d b enter) := by
  unfold Try.state
  split_ifs
  · exact (h.setOrig enter).setCode b
  · exact h.setOrig enter
  · exact h

/-- **Where a switch was, the code leads to what it led to**: it is not written, and its exit is in
use. -/
theorem leadsTo (h : Changes s target d x) {a : UInt64} (hs : a ∈ s.switches) (ha : a ≠ target) :
    x.leadsTo a = s.leadsTo a := by
  unfold Native.leadsTo
  rw [h.code a ha]
  rcases hb : s.code a with - | ⟨e | i⟩
  · rfl
  · rfl
  · refine h.exits i ?_
    rw [Native.vacant, List.all_eq_false]
    exact ⟨a, hs, by simp [ha, hb]⟩

theorem removeSwitch (h : Changes (s.addSwitch target) target d x) :
    Changes s target d (x.removeSwitch target) where
  info := h.info
  initErrno := h.initErrno
  switches := by
    show x.switches.erase target = s.switches
    rw [h.switches]
    exact List.erase_cons_head ..
  code := h.code
  exits e he := h.exits e (by rwa [vacant_addSwitch])
  orig := h.orig

end Changes

section Left

variable (x : Native) (target : UInt64) (d : Detour) (o : Attempt) (n : ℕ)

theorem vacant_of_exitAt {e : UInt64 × ShExitType} (h : o.exitAt x target n = some e) :
    x.vacant target e.1 = true := by
  unfold Attempt.exitAt at h
  split_ifs at h
  exact (Option.filter_eq_some_iff.mp h).2

theorem afterExit_changes : Changes x target d (afterExit x target d o n) := by
  unfold afterExit
  rcases he : o.exitAt x target n with - | ⟨e, type⟩
  · exact .refl
  · have hv := vacant_of_exitAt _ _ _ _ he
    have hy : Changes x target d (x.setExit e (some d)) := .setExit .refl hv _
    simp only
    split_ifs
    · exact hy
    · exact (hy.patched ..).setExit hv _
    · exact hy.patched ..

theorem afterBoth_changes : Changes x target d (afterBoth x target d o n) := by
  unfold afterBoth
  split_ifs
  · exact afterExit_changes ..
  · exact (afterExit_changes ..).patched ..

theorem Try.state_succeeds {t : Try} (h : t.Succeeds) (b : Branch) (enter : UInt64) :
    t.state x target d b enter = (x.setOrig d enter).setCode target b :=
  if_pos h.stores

/-- **A try that succeeds** leaves the jump and the pointer. -/
theorem afterBoth_installed (h : o.Installs x target n) :
    (afterBoth x target d o n).leadsTo target = some d ∧
      (afterBoth x target d o n).orig d = o.enter := by
  unfold afterBoth
  by_cases h1 : o.ExitReady x target n ∧ o.withExit.Succeeds
  · obtain ⟨e, he⟩ := Option.isSome_iff_exists.mp h1.1.1
    simp only [h1, and_self, true_or, if_true]
    simp only [afterExit, he, h1.1.2, h1.2, not_true_eq_false, false_and, if_false,
      Bool.false_eq_true, Try.state_succeeds]
    simp [Native.leadsTo, Native.setCode, Native.setOrig, Native.setExit, Native.follow]
  · obtain ⟨h16, h2⟩ := h.resolve_left h1
    rw [if_neg (by simp only [h1, false_or]; omega), Try.state_succeeds _ _ _ h2]
    simp [Native.leadsTo, Native.setCode, Native.setOrig, Native.follow]

end Left

/-! ## The whole hook -/

/-- The size of the symbol with which the hook gets to the two tries: everything before them goes
well, and no switch has the target yet. -/
def patchSize (s : Native) (target : UInt64) (o : Attempt) : Option ℕ :=
  if target ≠ 0 ∧ s.initErrno = none ∧ o.taskAlloc = true ∧ o.monitor = none ∧
      target ∉ s.switches ∧ o.switchAlloc = true ∧ o.enter ≠ 0 then
    (shLinkerGetDlinfoByAddr o.dlAddr).toOption
  else none

/-- **The hook is abandoned**: it gets to the two tries, and both fail. -/
def Abandons (s : Native) (target : UInt64) (o : Attempt) : Prop :=
  ∃ n, patchSize s target o = some n ∧ ¬ o.Installs s target n

/-- **The outcome of a hook**: its result and the state it leaves. -/
inductive Outcome (s : Native) (target : UInt64) (d : Detour) (o : Attempt) :
    Option Errno → Native → Prop
  | refused (r : Errno) : patchSize s target o = none → Outcome s target d o (some r) s
  | installed (n : ℕ) (x : Native) : patchSize s target o = some n → o.Installs s target n →
      Changes (s.addSwitch target) target d x → x.leadsTo target = some d → x.orig d = o.enter →
      Outcome s target d o none x
  | abandoned (n : ℕ) (r : Errno) (x : Native) : patchSize s target o = some n →
      ¬ o.Installs s target n → Changes s target d x → x.orig d = 0 →
      Outcome s target d o (some r) x

section Whole

variable {s : Native} {target : UInt64} {o : Attempt} {n : ℕ}

theorem patchSize_eq_some : patchSize s target o = some n ↔
    (target ≠ 0 ∧ s.initErrno = none ∧ o.taskAlloc = true ∧ o.monitor = none ∧
      target ∉ s.switches ∧ o.switchAlloc = true ∧ o.enter ≠ 0) ∧
      shLinkerGetDlinfoByAddr o.dlAddr = .ok n := by
  unfold patchSize
  split_ifs with h
  · cases hd : shLinkerGetDlinfoByAddr o.dlAddr <;> simp [h, Except.toOption]
  · simp [h]

theorem removeSwitch_addSwitch : (s.addSwitch target).removeSwitch target = s :=
  Native.ext rfl rfl (List.erase_cons_head ..) rfl rfl rfl

theorem exitAt_addSwitch : o.exitAt (s.addSwitch target) target n = o.exitAt s target n := by
  simp only [Attempt.exitAt, ExitTry.taken, vacant_addSwitch]

theorem installs_addSwitch :
    o.Installs (s.addSwitch target) target n ↔ o.Installs s target n := by
  simp only [Attempt.Installs, Attempt.ExitReady, exitAt_addSwitch]

variable (d : Detour)

/-- The part of `sh_switch_hook_unique` after its checks. -/
def switchHook (target : UInt64) (d : Detour) (n : ℕ) (o : Attempt) : Hook (Option Errno) := do
  write (·.addSwitch target)
  match ← shInstHook target d n o with
  | none => return none
  | some r =>
    write (·.removeSwitch target)
    return some r

theorem silent_switchHook (target : UInt64) (d : Detour) (n : ℕ) (o : Attempt) :
    Silent (switchHook target d n o) := by
  refine silent_bind (silent_write _) fun _ => silent_bind (silent_instHook _ _ _ _) fun r => ?_
  rcases r with - | r
  · exact silent_pure _
  · exact silent_bind (silent_write _) fun _ => silent_pure _

/-- **A hook that passes every check** goes on to the patch. -/
theorem hook_eq (h : patchSize s target o = some n) :
    shadowhookHookFuncAddr target d o s = ((switchHook target d n o).val s,
      .event ⟨s, target, d, o⟩ :: (switchHook target d n o).log s) := by
  obtain ⟨⟨h0, hi, ht, hm, hs, ha, -⟩, hd⟩ := patchSize_eq_some.mp h
  rw [shadowhookHookFuncAddr, get_bind, emit_bind]
  simp only [h0, hi, ht, hm, hd, if_false, if_true, shTaskHook]
  simp only [Prog.val, Prog.log, shSwitchHookUnique, get_bind, hs, ha, if_false, if_true]
  rfl

/-- **A hook that fails a check** writes nothing, but for a switch that it removes again. -/
theorem hook_refused (h : patchSize s target o = none) : ∃ r l,
    shadowhookHookFuncAddr target d o s = (some r, .event ⟨s, target, d, o⟩ :: l) ∧
      (l = [] ∨ l = [.wrote (s.addSwitch target), .wrote s]) := by
  rw [shadowhookHookFuncAddr, get_bind, emit_bind]
  by_cases h0 : target = 0
  · exact ⟨.invalidArg, [], by simp [h0], .inl rfl⟩
  cases hi : s.initErrno with
  | some r => exact ⟨r, [], by simp [h0], .inl rfl⟩
  | none =>
  by_cases ht : o.taskAlloc = true
  swap
  · exact ⟨.oom, [], by simp [h0, ht], .inl rfl⟩
  cases hd : shLinkerGetDlinfoByAddr o.dlAddr with
  | error r => exact ⟨r, [], by simp [h0, ht, shTaskHook, hd], .inl rfl⟩
  | ok n =>
  cases hm : o.monitor with
  | some r => exact ⟨r, [], by simp [h0, ht, shTaskHook, hd, hm], .inl rfl⟩
  | none =>
  by_cases hs : target ∈ s.switches
  · exact ⟨.hookDup, [], by simp [h0, ht, shTaskHook, hd, hm, shSwitchHookUnique, hs], .inl rfl⟩
  by_cases ha : o.switchAlloc = true
  swap
  · exact ⟨.oom, [], by simp [h0, ht, shTaskHook, hd, hm, shSwitchHookUnique, hs, ha], .inl rfl⟩
  have he : o.enter = 0 := by
    by_contra he
    rw [patchSize_eq_some.mpr ⟨⟨h0, hi, ht, hm, hs, ha, he⟩, hd⟩] at h
    cases h
  refine ⟨.hookEnter, _, ?_, .inr rfl⟩
  simp [h0, ht, shTaskHook, hd, hm, shSwitchHookUnique, hs, ha, shInstHook, he,
    removeSwitch_addSwitch]

variable {d} in
/-- The one event of a hook is its request. -/
theorem along_hook_iff {P : Request → Prop} :
    Along P (shadowhookHookFuncAddr target d o) s ↔ P ⟨s, target, d, o⟩ := by
  have hlog : ∃ l, (shadowhookHookFuncAddr target d o).log s = .event ⟨s, target, d, o⟩ :: l ∧
      ∀ e, .event e ∉ l := by
    cases hn : patchSize s target o with
    | none =>
      obtain ⟨r, l, he, hl⟩ := hook_refused d hn
      refine ⟨l, congrArg Prod.snd he, fun e => ?_⟩
      rcases hl with rfl | rfl <;> simp
    | some n => exact ⟨_, congrArg Prod.snd (hook_eq d hn), silent_switchHook target d n o s⟩
  obtain ⟨l, hl, he⟩ := hlog
  simp only [Along, hl, List.mem_cons, Entry.event.injEq]
  refine ⟨fun h => h _ (.inl rfl), fun h e hm => ?_⟩
  rcases hm with rfl | hm
  · exact h
  · exact absurd hm (he e)

variable (s target o) in
/-- **Every hook has an outcome.** -/
theorem hook_outcome : Outcome s target d o ((shadowhookHookFuncAddr target d o).val s)
    ((shadowhookHookFuncAddr target d o).final s) := by
  cases hn : patchSize s target o with
  | none =>
    obtain ⟨r, l, he, hl⟩ := hook_refused d hn
    have hfinal : (shadowhookHookFuncAddr target d o).final s = s := by
      rw [Prog.final, Prog.log, he]
      rcases hl with rfl | rfl <;> rfl
    rw [hfinal, Prog.val, he]
    exact .refused r hn
  | some n =>
    obtain ⟨⟨-, -, -, -, -, -, he⟩, -⟩ := patchSize_eq_some.mp hn
    have hval := val_instHook (s.addSwitch target) target d o n he
    have hfin := final_instHook (s.addSwitch target) target d o n he
    rw [Prog.val, Prog.final, Prog.log, hook_eq d hn]
    show Outcome s target d o ((switchHook target d n o).val s) ((switchHook target d n o).final s)
    unfold switchHook
    by_cases hi : o.Installs (s.addSwitch target) target n
    · rw [if_pos hi] at hfin
      simp only [val_bind, final_bind, final_write, hval.mpr hi, hfin, val_pure, final_pure]
      obtain ⟨h1, h2⟩ := afterBoth_installed (s.addSwitch target) target d o n hi
      exact .installed n _ hn (installs_addSwitch.mp hi) (afterBoth_changes ..) h1 h2
    · rw [if_neg hi] at hfin
      obtain ⟨r, hr⟩ := Option.ne_none_iff_exists'.mp (mt hval.mp hi)
      simp only [val_bind, final_bind, final_write, hr, hfin, val_pure, final_pure]
      refine .abandoned n r _ hn (mt installs_addSwitch.mpr hi) ?_ (Function.update_self ..)
      exact ((afterBoth_changes ..).setOrig 0).removeSwitch

end Whole

end Koola
