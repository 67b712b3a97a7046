import Koola.Hook.InitHook

/-!
# A live detour and its original

* `LiveOrig`: a detour that the code at some address leads to has a non-null `origX`.
* `Undone`: the two tries of a hook leave nothing that leads to its detour. `Request.Harmless`: a
  hook call does not make stale code lead to a detour without original, and is undone when it is
  abandoned.
* **`session_liveOrig_iff`**: `LiveOrig` holds at every point of a run exactly when every hook
  call of the run is harmless.
* **`not_liveOrig_reload`**: a reload at another base breaks it.
-/

namespace Koola

open Logged

/-- Where the code at some address leads to `my_X`, the variable `origX` that `my_X` calls is
non-null. -/
def LiveOrig (x : Native) : Prop := ∀ a d, x.leadsTo a = some d → x.orig d ≠ 0

/-- **Two failed tries are undone**: no address leads to the detour after them. The second has not
stored its jump; an exit that stays is one that nothing jumps to; and what led to the detour before
was overwritten by the first try, or jumped to the exit that was cleared. -/
structure Undone (s : Native) (target : UInt64) (d : Detour) (o : Attempt) (n : ℕ) : Prop where
  second : ¬ o.SecondStores n
  exit : ∀ e type, o.exitAt s target n = some (e, type) → ¬ o.withExit.Clears type →
    ¬ o.FirstStores s target n ∧ ∀ a, s.code a ≠ some (.exit e)
  others : ∀ a, s.leadsTo a = some d → (a = target ∧ o.FirstStores s target n) ∨
    ∃ e type, o.exitAt s target n = some (e, type) ∧ s.code a = some (.exit e)

/-- **The hook call does no harm.** When it gets to the two tries: where code jumps to the exit
that the first one takes, left there by an abandoned hook, `origX` is non-null; and where both
fail, they are undone. -/
def Request.Harmless (r : Request) : Prop :=
  ∀ n, patchSize r.before r.target r.attempt = some n →
    (∀ e type a, r.attempt.exitAt r.before r.target n = some (e, type) →
      r.before.code a = some (.exit e) → r.before.orig r.detour ≠ 0) ∧
    (¬ r.attempt.Installs r.before r.target n →
      Undone r.before r.target r.detour r.attempt n)

/-! ## One write -/

section Write

variable {s x : Native} {target e v : UInt64} {d : Detour} {b : Branch}

theorem LiveOrig.congr (hs : LiveOrig s) (hc : x.code = s.code) (he : x.exits = s.exits)
    (ho : x.orig = s.orig) : LiveOrig x := by
  intro a d h
  have hl : x.leadsTo a = s.leadsTo a := by
    unfold Native.leadsTo
    rw [hc]
    congr 1
    funext b
    cases b <;> simp only [Native.follow, he]
  rw [ho]
  exact hs a d (hl ▸ h)

theorem liveOrig_setOrig (hx : LiveOrig x) (hv : v ≠ 0) : LiveOrig (x.setOrig d v) := by
  intro a e h
  by_cases hed : e = d
  · rwa [hed, show (x.setOrig d v).orig d = v from Function.update_self ..]
  · rw [show (x.setOrig d v).orig e = x.orig e from Function.update_of_ne hed ..]
    exact hx a e h

theorem liveOrig_setCode (hx : LiveOrig x) (hb : x.follow b = some d) (hd : x.orig d ≠ 0) :
    LiveOrig (x.setCode target b) := by
  intro a e h
  rw [leadsTo_setCode, hb] at h
  split_ifs at h
  · exact Option.some.inj h ▸ hd
  · exact hx a e h

theorem liveOrig_clearExit (hx : LiveOrig x) : LiveOrig (x.setExit e none) := by
  intro a d h
  rw [leadsTo_setExit] at h
  split_ifs at h
  exact hx a d h

/-- A jump placed at an exit goes live where code jumps to the exit already. -/
theorem liveOrig_setExit_iff (hx : LiveOrig x) : LiveOrig (x.setExit e (some d)) ↔
    ∀ a, x.code a = some (.exit e) → x.orig d ≠ 0 := by
  constructor
  · intro h a ha
    exact h a d (by rw [leadsTo_setExit, if_pos ha])
  · intro h a d' hl
    rw [leadsTo_setExit] at hl
    split_ifs at hl with ha
    · exact Option.some.inj hl ▸ h a ha
    · exact hx a d' hl

/-- A pointer can be cleared where nothing leads to its detour. -/
theorem liveOrig_clearOrig_iff (hx : LiveOrig x) :
    LiveOrig (x.setOrig d 0) ↔ ∀ a, x.leadsTo a ≠ some d := by
  constructor
  · intro h a ha
    exact h a d ha (Function.update_self ..)
  · intro h a e hl
    have hed : e ≠ d := fun hed => h a (hed ▸ hl)
    rw [show (x.setOrig d 0).orig e = x.orig e from Function.update_of_ne hed ..]
    exact hx a e hl

end Write

/-! ## One hook -/

section Hook

variable {x : Native} {target : UInt64} {d : Detour} {o : Attempt} {n : ℕ}

/-- The common part of a try sets the pointer before it stores a jump. -/
theorem liveOrig_patch (hx : LiveOrig x) {b : Branch} (hb : x.follow b = some d) {t : Try}
    {enter : UInt64} (he : enter ≠ 0) :
    Throughout LiveOrig (shInstHookPatch target d b enter t) x := by
  have h1 := liveOrig_setOrig (d := d) hx he
  refine throughout_patch hx h1 (liveOrig_setCode h1 (d := d) ?_ ?_)
  · cases b <;> exact hb
  · rwa [show (x.setOrig d enter).orig d = enter from Function.update_self ..]

/-- **The first try**: all that it can break it breaks when its jump is placed at the exit. -/
theorem liveOrig_withExit_iff (hx : LiveOrig x) (he : o.enter ≠ 0) :
    Throughout LiveOrig (shInstHookWithExit target d o.enter n o.withExit) x ↔
      ∀ e type a, o.exitAt x target n = some (e, type) → x.code a = some (.exit e) →
        x.orig d ≠ 0 := by
  unfold shInstHookWithExit Attempt.exitAt
  by_cases hn : 4 ≤ n
  swap
  · simp [hn, show n < 4 by omega, hx]
  rw [if_neg (by omega), if_pos hn, throughout_bind,
    throughout_exitAlloc hx fun e => liveOrig_clearExit hx]
  rw [and_iff_left_of_imp]
  · constructor
    · intro h e type a ht
      exact (liveOrig_setExit_iff hx).mp (h (e, type) ht) a
    · intro h e ht
      exact (liveOrig_setExit_iff hx).mpr fun a => h e.1 e.2 a ht
  intro h
  rw [val_exitAlloc, final_exitAlloc]
  rcases ht : o.withExit.taken x target with - | ⟨e, type⟩
  · simpa using hx
  have hy : LiveOrig (x.setExit e (some d)) := h _ ht
  cases o.withExit.exitCrash with
  | true => simpa using hy
  | false =>
    simp only [Bool.false_eq_true, if_false, Option.elim_some, throughout_bind]
    have hfollow : (x.setExit e (some d)).follow (.exit e) = some d := Function.update_self ..
    have hpatch : Throughout LiveOrig
        (shInstHookPatch target d (.exit e) o.enter o.withExit.toTry) (x.setExit e (some d)) :=
      liveOrig_patch hy hfollow he
    refine ⟨hpatch, ?_⟩
    have hz := hpatch.final
    split
    · simpa using hz
    · simp only [throughout_bind, shExitFree]
      split_ifs
      · simpa using ⟨hz, liveOrig_clearExit hz⟩
      · simpa using hz

theorem liveOrig_withoutExit (hx : LiveOrig x) (he : o.enter ≠ 0) :
    Throughout LiveOrig (shInstHookWithoutExit target d o.enter n o.withoutExit) x := by
  unfold shInstHookWithoutExit
  split_ifs
  · simpa using hx
  · exact liveOrig_patch hx rfl he

/-- **The second try**: all that it can break is the pointer that it clears when it fails. -/
theorem liveOrig_retry_iff (hx : LiveOrig x) (he : o.enter ≠ 0) :
    Throughout LiveOrig (shInstHookRetry target d n o) x ↔
      LiveOrig ((shInstHookRetry target d n o).final x) := by
  refine ⟨Throughout.final, fun h => ?_⟩
  have hsecond : Throughout LiveOrig
      (shInstHookWithoutExit target d o.enter n o.withoutExit) x := liveOrig_withoutExit hx he
  unfold shInstHookRetry at h ⊢
  rw [throughout_bind]
  refine ⟨hsecond, ?_⟩
  rw [final_bind] at h
  revert h
  split
  · exact fun _ => by simpa using hsecond.final
  · simp [throughout_bind, hsecond.final]

theorem liveOrig_afterBoth (hx : LiveOrig (afterExit x target d o n)) (he : o.enter ≠ 0) :
    LiveOrig (afterBoth x target d o n) := by
  unfold afterBoth
  split_ifs with h
  · exact hx
  · rw [← final_patch]
    exact (liveOrig_patch hx rfl he).final

/-- **`sh_inst_hook`**, from the exit that it takes and the state that its tries leave. -/
theorem liveOrig_instHook_iff (hx : LiveOrig x) (he : o.enter ≠ 0) :
    Throughout LiveOrig (shInstHook target d n o) x ↔
      (∀ e type a, o.exitAt x target n = some (e, type) → x.code a = some (.exit e) →
        x.orig d ≠ 0) ∧
      (¬ o.Installs x target n → ∀ a, (afterBoth x target d o n).leadsTo a ≠ some d) := by
  have hfinal := final_instHook x target d o n he
  have hfirst := val_withExit x target d o n
  unfold shInstHook at hfinal ⊢
  rw [if_neg he] at hfinal ⊢
  rw [throughout_bind, ← liveOrig_withExit_iff hx he]
  refine and_congr_right fun h => ?_
  rw [final_bind] at hfinal
  rw [final_withExit] at hfinal ⊢
  have h1 : LiveOrig (afterExit x target d o n) := final_withExit x target d o n ▸ h.final
  have h2 := liveOrig_afterBoth h1 he
  revert hfinal
  split <;> rename_i hv <;> intro hfinal
  · refine iff_of_true (by simpa using h1) fun hi => absurd ?_ hi
    exact .inl (hfirst.mp hv)
  · rw [liveOrig_retry_iff h1 he, hfinal]
    split_ifs with hi
    · exact iff_of_true h2 (absurd hi)
    · rw [liveOrig_clearOrig_iff h2, imp_iff_right hi]

/-! ## What two failed tries leave -/

theorem code_patched (t : Try) (b : Branch) (enter a : UInt64) :
    (t.state x target d b enter).code a =
      if a = target ∧ t.Stores then some b else x.code a := by
  unfold Try.state
  by_cases hs : t.Stores
  · simp [hs, Native.setCode, Native.setOrig, Function.update_apply]
  · simp only [hs, and_false, if_false]
    split_ifs <;> rfl

theorem leadsTo_patched (t : Try) (b : Branch) (enter a : UInt64) :
    (t.state x target d b enter).leadsTo a =
      if a = target ∧ t.Stores then x.follow b else x.leadsTo a := by
  unfold Try.state
  by_cases hs : t.Stores
  · rw [if_pos hs, leadsTo_setCode]
    simp only [hs, and_true]
    cases b <;> rfl
  · simp only [hs, and_false, if_false]
    split_ifs <;> rfl

/-- **Where the code leads after a first try that failed**: with the exit cleared, what jumps
there leads nowhere; else it leads to the detour. -/
theorem leadsTo_afterExit {e : UInt64} {type : ShExitType}
    (he : o.exitAt x target n = some (e, type))
    (hf : ¬ (o.ExitReady x target n ∧ o.withExit.Succeeds)) (a : UInt64) :
    (afterExit x target d o n).leadsTo a =
      if (a = target ∧ o.FirstStores x target n) ∨ x.code a = some (.exit e) then
        if o.withExit.Clears type then none else some d
      else x.leadsTo a := by
  simp only [afterExit, he, Attempt.FirstStores, Attempt.ExitReady, ExitTry.Clears,
    Option.isSome_some, true_and] at hf ⊢
  by_cases hc : o.withExit.exitCrash = true
  · simp [hc, leadsTo_setExit]
  · rw [Bool.not_eq_true] at hc
    have hs : ¬ o.withExit.Succeeds := fun hs => hf ⟨hc, hs⟩
    simp only [hc, hs, Bool.false_eq_true, if_false, not_false_eq_true, true_and]
    split_ifs with hclear h h
    · rw [leadsTo_setExit, if_pos]
      rw [code_patched]
      split_ifs
      · rfl
      · exact h.resolve_left ‹_›
    · rw [leadsTo_setExit, if_neg, leadsTo_patched, if_neg fun hn => h (.inl hn), leadsTo_setExit,
        if_neg fun hn => h (.inr hn)]
      rw [code_patched, if_neg fun hn => h (.inl hn)]
      exact fun hn => h (.inr hn)
    · rw [leadsTo_patched, leadsTo_setExit]
      split_ifs
      · exact Function.update_self ..
      · rfl
      · exact absurd h (by tauto)
    · rw [leadsTo_patched, if_neg fun hn => h (.inl hn), leadsTo_setExit,
        if_neg fun hn => h (.inr hn)]

theorem afterExit_none (he : o.exitAt x target n = none) : afterExit x target d o n = x := by
  unfold afterExit
  rw [he]

/-- **The tries of an abandoned hook** leave nothing that leads to the detour exactly when they are
undone. -/
theorem undone_iff (hi : ¬ o.Installs x target n) :
    (∀ a, (afterBoth x target d o n).leadsTo a ≠ some d) ↔ Undone x target d o n := by
  have hf : ¬ (o.ExitReady x target n ∧ o.withExit.Succeeds) := fun h => hi (.inl h)
  have hboth (a : UInt64) : (afterBoth x target d o n).leadsTo a =
      if a = target ∧ o.SecondStores n then some d else (afterExit x target d o n).leadsTo a := by
    unfold afterBoth Attempt.SecondStores
    simp only [hf, false_or]
    split_ifs with hn hs hs
    · omega
    · rfl
    · rw [leadsTo_patched, if_pos ⟨hs.1, hs.2.2⟩]
      rfl
    · rw [leadsTo_patched, if_neg fun h => hs ⟨h.1, by omega, h.2⟩]
  simp only [hboth]
  rcases he : o.exitAt x target n with - | ⟨e, type⟩
  · have hst : ¬ o.FirstStores x target n := fun h => by
      simp [Attempt.FirstStores, Attempt.ExitReady, he] at h
    rw [afterExit_none he]
    constructor
    · refine fun h => ⟨fun h2 => h target (if_pos ⟨rfl, h2⟩), by simp [he], fun a ha => ?_⟩
      refine absurd ?_ (h a)
      split_ifs
      · rfl
      · exact ha
    · intro h a ha
      split_ifs at ha with h2
      · exact h.second h2.2
      · rcases h.others a ha with ⟨-, h1⟩ | ⟨e, type, h1, -⟩
        · exact hst h1
        · simp [he] at h1
  · simp only [leadsTo_afterExit he hf]
    constructor
    · intro h
      have hn : ¬ o.SecondStores n := fun h2 => h target (if_pos ⟨rfl, h2⟩)
      simp only [hn, and_false, if_false] at h
      refine ⟨hn, fun e' type' he' hc => ?_, fun a ha => ?_⟩
      · obtain ⟨rfl, rfl⟩ : e = e' ∧ type = type' := by simpa [he] using he'
        simp only [hc, if_false] at h
        exact ⟨fun h1 => h target (if_pos (.inl ⟨rfl, h1⟩)), fun a ha => h a (if_pos (.inr ha))⟩
      · by_contra hno
        refine h a ?_
        rw [if_neg, ha]
        rintro (h1 | h1)
        · exact hno (.inl h1)
        · exact hno (.inr ⟨e, type, he, h1⟩)
    · intro h a
      rw [if_neg fun h2 => h.second h2.2]
      split_ifs with h1 hc
      · exact (Option.some_ne_none d).symm
      · obtain ⟨h2, h3⟩ := h.exit e type he hc
        exact absurd h1 (not_or.mpr ⟨fun h => h2 h.2, h3 a⟩)
      · intro ha
        rcases h.others a ha with h2 | ⟨e', type', he', h2⟩
        · exact h1 (.inl h2)
        · obtain ⟨rfl, rfl⟩ : e = e' ∧ type = type' := by simpa [he] using he'
          exact h1 (.inr h2)

variable {s : Native}

theorem undone_addSwitch :
    Undone (s.addSwitch target) target d o n ↔ Undone s target d o n := by
  constructor <;> rintro ⟨h1, h2, h3⟩
  · simp only [Attempt.FirstStores, Attempt.ExitReady, exitAt_addSwitch] at h2 h3
    exact ⟨h1, h2, h3⟩
  · refine ⟨h1, ?_, ?_⟩ <;>
      simp only [Attempt.FirstStores, Attempt.ExitReady, exitAt_addSwitch] <;> assumption

/-- **One hook call**: from a state that satisfies `LiveOrig`, every state of the call does so
exactly when the call is harmless. -/
theorem guards_hook : Guards LiveOrig Request.Harmless (shadowhookHookFuncAddr target d o) := by
  intro s hs
  rw [along_hook_iff]
  cases hn : patchSize s target o with
  | none =>
    refine iff_of_true ?_ fun n h => by simp [hn] at h
    obtain ⟨r, l, he, hl⟩ := hook_refused d hn
    refine ⟨hs, fun x hx => ?_⟩
    rw [Prog.log, he] at hx
    rcases hl with rfl | rfl
    · simp at hx
    · rcases (by simpa using hx : x = s.addSwitch target ∨ x = s) with rfl | rfl
      · exact hs.congr rfl rfl rfl
      · exact hs
  | some n =>
    obtain ⟨⟨-, -, -, -, -, -, he⟩, -⟩ := patchSize_eq_some.mp hn
    have hadd : LiveOrig (s.addSwitch target) := hs.congr rfl rfl rfl
    have hswitch : Throughout LiveOrig (switchHook target d n o) s ↔
        Throughout LiveOrig (shInstHook target d n o) (s.addSwitch target) := by
      unfold switchHook
      rw [throughout_bind, throughout_bind, final_write, throughout_write]
      rw [and_iff_right ⟨hs, hadd⟩, and_iff_left_of_imp]
      intro h
      have hx := h.final
      split
      · simpa using hx
      · simpa [throughout_bind] using ⟨hx, hx.congr rfl rfl rfl⟩
    have hhook : Throughout LiveOrig (shadowhookHookFuncAddr target d o) s ↔
        Throughout LiveOrig (switchHook target d n o) s := by
      simp only [Throughout, Prog.log, hook_eq d hn]
      simp
    rw [hhook, hswitch, liveOrig_instHook_iff hadd he]
    simp only [exitAt_addSwitch, installs_addSwitch]
    constructor
    · rintro ⟨h1, h2⟩ m hm
      obtain rfl : n = m := by simpa [hn] using hm
      refine ⟨h1, fun hi => undone_addSwitch.mp ((undone_iff ?_).mp (h2 hi))⟩
      exact mt installs_addSwitch.mp hi
    · intro h
      obtain ⟨h1, h2⟩ := h n hn
      refine ⟨h1, fun hi => (undone_iff ?_).mpr (undone_addSwitch.mpr (h2 hi))⟩
      exact mt installs_addSwitch.mp hi

end Hook

/-! ## Runs -/

theorem guards_initHook (c : Call) : Guards LiveOrig Request.Harmless (initHook c) := by
  have hhook (d : Detour) : Guards LiveOrig Request.Harmless (c.hook d) :=
    guards_bind guards_get fun _ => guards_hook
  refine guards_bind (guards_write fun s hs => hs.congr rfl rfl rfl) fun _ => ?_
  refine guards_bind (hhook _) fun r1 => guards_bind (hhook _) fun r2 =>
    guards_bind (hhook _) fun r3 => ?_
  exact guards_ite (guards_pure _) (guards_ite (guards_pure _)
    (guards_ite (guards_pure _) (guards_pure _)))

theorem guards_session (cs : List Call) : Guards LiveOrig Request.Harmless (session cs) := by
  induction cs with
  | nil => exact guards_pure ()
  | cons c cs ih => exact guards_bind (guards_initHook c) fun _ => ih

theorem liveOrig_init (e : Option Errno) : LiveOrig (.init e) :=
  fun _ _ h => nomatch h

/-- **A live detour has its original at every point of a run exactly when every hook call of the
run is harmless.** -/
theorem session_liveOrig_iff (e : Option Errno) (cs : List Call) :
    Throughout LiveOrig (session cs) (.init e) ↔
      Along Request.Harmless (session cs) (.init e) :=
  guards_session cs _ (liveOrig_init e)

/-! ## A reload -/

/-- The place of a hook in the pages of trampolines and exits. -/
def Detour.slot : Detour → UInt64
  | .localPlayerTickWorld => 0
  | .actorTick => 1
  | .playerAttack => 2

/-- All goes well, with an exit in a page outside the library. -/
def Attempt.smooth (exits : UInt64) (d : Detour) : Attempt where
  taskAlloc := true
  dlAddr := ⟨false, true, true, none⟩
  monitor := none
  switchAlloc := true
  enter := 0x6F00000000 + 0x100 * d.slot
  withExit := ⟨⟨true, .ok, .ok⟩, some (exits + 0x10 * d.slot, .outLibrary), false, true⟩
  withoutExit := ⟨true, .ok, .ok⟩

/-- The target cannot be made writable. -/
def Attempt.sealed (exits : UInt64) (d : Detour) : Attempt :=
  { Attempt.smooth exits d with
    withExit := ⟨⟨false, .ok, .ok⟩, some (exits + 0x10 * d.slot, .outLibrary), false, true⟩
    withoutExit := ⟨false, .ok, .ok⟩ }

/-- The library at `0x7000000000`, with three hooks that succeed. -/
def firstLoad : Call where
  maps := some (CStr.chars "7000000000-7010000000 r-xp 0 /libminecraftpe.so\n")
  attempt := .smooth 0x6FFFFFF000

/-- The library at `0x7100000000`, with three hooks that are abandoned. -/
def reload : Call where
  maps := some (CStr.chars "7100000000-7110000000 r-xp 0 /libminecraftpe.so\n")
  attempt := .sealed 0x70FFFFF000

/-- **After a reload at another base**, the code at the old base still leads to
`my_LocalPlayerTickWorld`, whose original is null. -/
theorem not_liveOrig_reload :
    ¬ Throughout LiveOrig (session [firstLoad, reload]) (.init none) := by
  intro h
  have hcode : ((session [firstLoad, reload]).final (.init none)).leadsTo
      (0x7000000000 + Detour.localPlayerTickWorld.offset) = some .localPlayerTickWorld := by
    decide +kernel
  have horig : ((session [firstLoad, reload]).final (.init none)).orig
      .localPlayerTickWorld = 0 := by
    decide +kernel
  exact h.final _ _ hcode horig

end Koola
