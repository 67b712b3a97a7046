import Koola.Hook.LiveOrig

/-!
# What the result of `initHook` says

* `Detoured x a d`: the address `a` is hooked with `my_X`; `Gained s x a d`: it is so in `x`, and
  was not hooked in `s`.
* `HookReport`: what a list of hooks does to the hooks and to the pointers; **`hookEach_report`**.
* `InitReport`, **`initHook_report`**: `initHook` returns `0` exactly when it gained all three
  hooks, and loses none whatever it returns.
* **`not_allOrNothing`**: it is not all-or-nothing, and `-1` does not mean that a hook is missing.
-/

namespace Koola

open Logged

/-- The address has a switch, and the code there leads to `my_X`. -/
def Detoured (x : Native) (a : UInt64) (d : Detour) : Prop :=
  a ∈ x.switches ∧ x.leadsTo a = some d

/-- The address had no switch in `s`, and is hooked with `my_X` in `x`. -/
def Gained (s x : Native) (a : UInt64) (d : Detour) : Prop := a ∉ s.switches ∧ Detoured x a d

/-- A hook call of the run for this detour is abandoned. -/
def Abandoned {α : Type} (m : Hook α) (s : Native) (d : Detour) : Prop :=
  ∃ r : Request, .event r ∈ m.log s ∧ r.detour = d ∧ Abandons r.before r.target r.attempt

instance (x : Native) (a : UInt64) (d : Detour) : Decidable (Detoured x a d) :=
  inferInstanceAs (Decidable (_ ∧ _))

/-! ## One hook -/

section Hook

variable {s x : Native} {target a : UInt64} {d e : Detour} {o : Attempt} {v : Option Errno}

/-- What an outcome changes: a switch is added where the hook is installed. -/
theorem Outcome.changes (h : Outcome s target d o v x) :
    (v = none ∧ target ∉ s.switches ∧ Changes (s.addSwitch target) target d x) ∨
      (v ≠ none ∧ Changes s target d x) := by
  cases h with
  | refused r => exact .inr ⟨Option.some_ne_none r, .refl⟩
  | installed n x hn hi hc => exact .inl ⟨rfl, (patchSize_eq_some.mp hn).1.2.2.2.2.1, hc⟩
  | abandoned n r x hn hi hc => exact .inr ⟨Option.some_ne_none r, hc⟩

theorem Outcome.info (h : Outcome s target d o v x) : x.minecraftInfo = s.minecraftInfo := by
  rcases h.changes with ⟨-, -, hc⟩ | ⟨-, hc⟩ <;> exact hc.info

theorem Outcome.mem_switches (h : Outcome s target d o v x) :
    a ∈ x.switches ↔ a ∈ s.switches ∨ (a = target ∧ v = none) := by
  rcases h.changes with ⟨hv, -, hc⟩ | ⟨hv, hc⟩
  · rw [hc.switches, Native.addSwitch, List.mem_cons]
    simp [hv, or_comm]
  · rw [hc.switches]
    simp [hv]

theorem Outcome.eq_none_iff (h : Outcome s target d o v x) :
    v = none ↔ Gained s x target d := by
  constructor
  · intro hv
    cases h with
    | refused r => cases hv
    | abandoned n r => cases hv
    | installed n x hn hi hc hl =>
      refine ⟨(patchSize_eq_some.mp hn).1.2.2.2.2.1, ?_, hl⟩
      rw [hc.switches]
      exact List.mem_cons_self
  · intro hg
    exact ((h.mem_switches.mp hg.2.1).resolve_left hg.1).2

/-- Away from the target nothing is written. -/
theorem Outcome.code_of_ne (h : Outcome s target d o v x) (ha : a ≠ target) :
    x.code a = s.code a := by
  rcases h.changes with ⟨-, -, hc⟩ | ⟨-, hc⟩ <;> exact hc.code a ha

/-- Where a switch was, nothing is written either. -/
theorem Outcome.eq_of_mem (h : Outcome s target d o v x) (ht : target ∈ s.switches) : x = s := by
  cases h with
  | refused => rfl
  | installed n x hn | abandoned n r x hn =>
    exact absurd ht (patchSize_eq_some.mp hn).1.2.2.2.2.1

theorem Outcome.leadsTo (h : Outcome s target d o v x) (hs : a ∈ s.switches) :
    x.leadsTo a = s.leadsTo a := by
  by_cases ha : a = target
  · rw [h.eq_of_mem (ha ▸ hs)]
  · rcases h.changes with ⟨-, -, hc⟩ | ⟨-, hc⟩
    · exact hc.leadsTo (List.mem_cons_of_mem _ hs) ha
    · exact hc.leadsTo hs ha

theorem Outcome.keeps (h : Outcome s target d o v x) (hs : Detoured s a e) : Detoured x a e :=
  ⟨h.mem_switches.mpr (.inl hs.1), (h.leadsTo hs.1).trans hs.2⟩

theorem Outcome.gains (h : Outcome s target d o v x) (hx : Detoured x a e) :
    Detoured s a e ∨ (a = target ∧ e = d ∧ a ∉ s.switches) := by
  by_cases hs : a ∈ s.switches
  · exact .inl ⟨hs, (h.leadsTo hs).symm.trans hx.2⟩
  · obtain ⟨rfl, hv⟩ := (h.mem_switches.mp hx.1).resolve_left hs
    have hd := (h.eq_none_iff.mp hv).2.2
    rw [hx.2] at hd
    exact .inr ⟨rfl, Option.some.inj hd, hs⟩

theorem Outcome.orig_of_ne (h : Outcome s target d o v x) (he : e ≠ d) :
    x.orig e = s.orig e := by
  rcases h.changes with ⟨-, -, hc⟩ | ⟨-, hc⟩ <;> exact hc.orig e he

theorem Outcome.orig_gained (h : Outcome s target d o none x) : x.orig d ≠ 0 := by
  cases h with
  | installed n x hn hi hc hl ho => exact ho ▸ (patchSize_eq_some.mp hn).1.2.2.2.2.2.2

theorem Outcome.orig_refused (h : Outcome s target d o v x) (hv : v ≠ none)
    (ha : ¬ Abandons s target o) : x.orig = s.orig := by
  cases h with
  | refused => rfl
  | installed => exact absurd rfl hv
  | abandoned n r x hn hi => exact absurd ⟨n, hn, hi⟩ ha

end Hook

/-! ## Several hooks -/

/-- **What the hooks of `ds` do**, each at its address `target d`, from `s` to `x`; `dropped` are
the detours with an abandoned hook. -/
structure HookReport (ds : List Detour) (target : Detour → UInt64) (dropped : Detour → Prop)
    (s x : Native) : Prop where
  info : x.minecraftInfo = s.minecraftInfo
  switches : ∀ a ∈ s.switches, a ∈ x.switches
  keeps : ∀ a d, Detoured s a d → Detoured x a d
  gains : ∀ a d, Detoured x a d → Detoured s a d ∨ (d ∈ ds ∧ a = target d ∧ a ∉ s.switches)
  code : ∀ a, (∀ d ∈ ds, a = target d → a ∈ s.switches) → x.code a = s.code a
  orig_gained : ∀ d ∈ ds, Gained s x (target d) d → x.orig d ≠ 0
  orig_kept : ∀ d, (d ∈ ds → ¬ Gained s x (target d) d) → ¬ dropped d → x.orig d = s.orig d
  orig_other : ∀ d ∉ ds, x.orig d = s.orig d

section Several

variable {ds : List Detour} {target : Detour → UInt64} {dropped dropped' : Detour → Prop}
  {s y x : Native} {d : Detour} {o : Attempt} {v : Option Errno}

theorem HookReport.nil : HookReport [] target dropped s s where
  info := rfl
  switches _ h := h
  keeps _ _ h := h
  gains _ _ h := .inl h
  code _ _ := rfl
  orig_gained _ hd := absurd hd List.not_mem_nil
  orig_kept _ _ _ := rfl
  orig_other _ _ := rfl

/-- The first hook leaves the addresses of the others as they were. -/
theorem Outcome.gained_iff (h : Outcome s (target d) d o v y) (ht : Function.Injective target)
    {e : Detour} (he : e ≠ d) : Gained y x (target e) e ↔ Gained s x (target e) e := by
  refine and_congr_left' (not_congr ?_)
  rw [h.mem_switches]
  exact or_iff_left fun hc => he (ht hc.1)

/-- The first hook returns a stub exactly when its detour is gained in the end. -/
theorem HookReport.gained_head (h : Outcome s (target d) d o v y)
    (rest : HookReport ds target dropped y x) (hd : d ∉ ds) :
    v = none ↔ Gained s x (target d) d := by
  rw [h.eq_none_iff]
  refine and_congr_right fun _ => ⟨rest.keeps _ _, fun hx => ?_⟩
  exact (rest.gains _ _ hx).resolve_right fun hc => hd hc.1

/-- **One hook more.** -/
theorem HookReport.cons (h : Outcome s (target d) d o v y)
    (rest : HookReport ds target dropped y x) (ht : Function.Injective target) (hd : d ∉ ds)
    (hdrop : ∀ e, dropped e → dropped' e) (hhead : Abandons s (target d) o → dropped' d) :
    HookReport (d :: ds) target dropped' s x where
  info := rest.info.trans h.info
  switches a ha := rest.switches a (h.mem_switches.mpr (.inl ha))
  keeps a e hs := rest.keeps a e (h.keeps hs)
  gains a e hx := by
    rcases rest.gains a e hx with hy | ⟨he, rfl, hn⟩
    · rcases h.gains hy with hs | ⟨rfl, rfl, hn⟩
      · exact .inl hs
      · exact .inr ⟨List.mem_cons_self, rfl, hn⟩
    · refine .inr ⟨List.mem_cons_of_mem _ he, rfl, fun hs => hn ?_⟩
      exact h.mem_switches.mpr (.inl hs)
  code a ha := by
    have hy : y.code a = s.code a := by
      by_cases had : a = target d
      · rw [h.eq_of_mem (had ▸ ha d List.mem_cons_self had)]
      · exact h.code_of_ne had
    rw [← hy]
    refine rest.code a fun e he hae => h.mem_switches.mpr (.inl ?_)
    exact ha e (List.mem_cons_of_mem _ he) hae
  orig_gained e he hg := by
    rcases List.mem_cons.mp he with rfl | he
    · obtain rfl := (rest.gained_head h hd).mpr hg
      rw [rest.orig_other e hd]
      exact h.orig_gained
    · have hne : e ≠ d := fun hed => hd (hed ▸ he)
      exact rest.orig_gained e he ((h.gained_iff ht hne).mpr hg)
  orig_kept e hg hn := by
    have hlast : x.orig e = y.orig e := by
      refine rest.orig_kept e (fun he hc => hg (List.mem_cons_of_mem _ he) ?_) (mt (hdrop e) hn)
      exact (h.gained_iff ht fun hed => hd (hed ▸ he)).mp hc
    rw [hlast]
    by_cases hed : e = d
    · subst hed
      have hv : v ≠ none := mt (rest.gained_head h hd).mp (hg List.mem_cons_self)
      rw [h.orig_refused hv (mt hhead hn)]
    · exact h.orig_of_ne hed
  orig_other e he := by
    rw [List.mem_cons, not_or] at he
    rw [rest.orig_other e he.2, h.orig_of_ne he.1]

end Several

/-- The address of each hook. -/
def Native.target (s : Native) (d : Detour) : UInt64 := s.minecraftInfo.head + d.offset

theorem target_injective (s : Native) : Function.Injective s.target := fun _ _ h =>
  offset_injective ((UInt64.add_right_inj _).mp h)

theorem call_hook_outcome (c : Call) (d : Detour) (s : Native) :
    Outcome s (s.target d) d (c.attempt d) ((c.hook d).val s) ((c.hook d).final s) := by
  simp only [Call.hook, val_bind, val_get, final_bind, final_get]
  exact hook_outcome s _ _ d

theorem event_mem_hook (c : Call) (d : Detour) (s : Native) :
    .event ⟨s, s.target d, d, c.attempt d⟩ ∈ (c.hook d).log s := by
  simp [Call.hook, Native.target, shadowhookHookFuncAddr]

/-- **The loop over several hooks**: its report, and when all of them return a stub. -/
theorem hookEach_report (c : Call) (ds : List Detour) (hds : ds.Nodup) (s : Native) :
    HookReport ds s.target (Abandoned (c.hookEach ds) s) s ((c.hookEach ds).final s) ∧
      ((c.hookEach ds).val s = true ↔
        ∀ d ∈ ds, Gained s ((c.hookEach ds).final s) (s.target d) d) := by
  induction ds generalizing s with
  | nil => exact ⟨.nil, iff_of_true rfl fun d hd => absurd hd List.not_mem_nil⟩
  | cons d ds ih =>
    obtain ⟨hd, hds⟩ := List.nodup_cons.mp hds
    have h := call_hook_outcome c d s
    have htarget : ((c.hook d).final s).target = s.target := by
      funext e
      rw [Native.target, h.info, Native.target]
    obtain ⟨rest, hok⟩ := ih hds ((c.hook d).final s)
    rw [htarget] at rest hok
    have hfinal : (c.hookEach (d :: ds)).final s =
        (c.hookEach ds).final ((c.hook d).final s) := by
      simp [Call.hookEach]
    have hval : (c.hookEach (d :: ds)).val s =
        (((c.hook d).val s).isNone && (c.hookEach ds).val ((c.hook d).final s)) := by
      simp [Call.hookEach]
    have hlog : (c.hookEach (d :: ds)).log s =
        (c.hook d).log s ++ (c.hookEach ds).log ((c.hook d).final s) := by
      simp [Call.hookEach]
    rw [hfinal]
    refine ⟨rest.cons h (target_injective s) hd ?_ fun ha => ?_, ?_⟩
    · rintro e ⟨r, hr, he⟩
      exact ⟨r, hlog ▸ List.mem_append_right _ hr, he⟩
    · exact ⟨_, hlog ▸ List.mem_append_left _ (event_mem_hook c d s), rfl, ha⟩
    · rw [hval, Bool.and_eq_true, Option.isNone_iff_eq_none, hok, rest.gained_head h hd,
        List.forall_mem_cons]
      refine and_congr_right fun _ => forall₂_congr fun e he => ?_
      exact h.gained_iff (target_injective s) fun hed => hd (hed ▸ he)

/-! ## `initHook` -/

/-- **What `initHook` does**, from `s` to `x` with result `v`. The address of each hook is the base
in `minecraftInfo` after the call plus the offset. -/
structure InitReport (c : Call) (s x : Native) (v : Int) : Prop where
  result : v = 0 ∨ v = -1
  eq_zero_iff : v = 0 ↔ ∀ d, Gained s x (x.target d) d
  keeps : ∀ a d, Detoured s a d → Detoured x a d
  gains : ∀ a d, Detoured x a d →
    Detoured s a d ∨ (a = x.target d ∧ Gained s x a d ∧ x.orig d ≠ 0)
  code : ∀ a, (∀ d, a = x.target d → a ∈ s.switches) → x.code a = s.code a
  orig : ∀ d, ¬ Gained s x (x.target d) d → ¬ Abandoned (initHook c) s d → x.orig d = s.orig d

/-- **The report of `initHook`**, from every state and for all that its hooks meet. -/
theorem initHook_report (c : Call) (s : Native) :
    InitReport c s ((initHook c).final s) ((initHook c).val s) := by
  obtain ⟨h, hok⟩ := hookEach_report c detours nodup_detours (c.read s)
  have hfinal : (initHook c).final s = (c.hookEach detours).final (c.read s) := by
    simp [initHook_eq]
  have hval : (initHook c).val s =
      if (c.hookEach detours).val (c.read s) then 0 else -1 := by
    simp [initHook_eq]
  have hdrop (d : Detour) :
      Abandoned (c.hookEach detours) (c.read s) d → Abandoned (initHook c) s d := by
    rintro ⟨r, hr, hd⟩
    exact ⟨r, by simp [initHook_eq, hr], hd⟩
  rw [hval, hfinal]
  have htarget : ((c.hookEach detours).final (c.read s)).target = (c.read s).target := by
    funext d
    rw [Native.target, h.info, Native.target]
  refine ⟨?_, ?_, h.keeps, fun a d hx => ?_, fun a ha => ?_, fun d hg ha => ?_⟩
  · split_ifs
    · exact .inl rfl
    · exact .inr rfl
  · rw [htarget]
    have hall : (∀ d ∈ detours, Gained (c.read s) ((c.hookEach detours).final (c.read s))
        ((c.read s).target d) d) ↔ ∀ d, Gained s ((c.hookEach detours).final (c.read s))
        ((c.read s).target d) d := forall_congr' fun d => imp_iff_right (mem_detours d)
    rw [← hall, ← hok]
    cases (c.hookEach detours).val (c.read s) <;> simp
  · rw [htarget]
    rcases h.gains a d hx with hs | ⟨hd, rfl, hn⟩
    · exact .inl hs
    · exact .inr ⟨rfl, ⟨hn, hx⟩, h.orig_gained d hd ⟨hn, hx⟩⟩
  · rw [htarget] at ha
    exact h.code a fun d _ => ha d
  · rw [htarget] at hg
    exact h.orig_kept d (fun _ => hg) (mt (hdrop d) ha)

/-- The result tells whether the hooks are there, and `-1` leaves hooks and pointers alone. -/
structure AllOrNothing (c : Call) (s : Native) : Prop where
  truthful : (initHook c).val s = 0 ↔
    ∀ d, Detoured ((initHook c).final s) (((initHook c).final s).target d) d
  atomic : (initHook c).val s = -1 →
    (∀ a d, Detoured ((initHook c).final s) a d ↔ Detoured s a d) ∧
      ((initHook c).final s).orig = s.orig

/-- As `firstLoad`, but there is no memory for the second task. -/
def starved : Call where
  maps := firstLoad.maps
  attempt
    | .actorTick => { firstLoad.attempt .actorTick with taskAlloc := false }
    | d => firstLoad.attempt d

/-- **Two ways to fail.** A second load at the same base returns `-1` with all three hooks in
place, and a first load whose second hook fails returns `-1` with the first hook installed. -/
theorem not_allOrNothing :
    ¬ AllOrNothing firstLoad ((session [firstLoad]).final (.init none)) ∧
      ¬ AllOrNothing starved (.init none) := by
  refine ⟨fun h => ?_, fun h => ?_⟩
  · have hval : (initHook firstLoad).val ((session [firstLoad]).final (.init none)) ≠ 0 := by
      decide +kernel
    refine hval (h.truthful.mpr fun d => ?_)
    cases d <;> decide +kernel
  · have hnew : Detoured ((initHook starved).final (.init none))
        (0x7000000000 + Detour.localPlayerTickWorld.offset) .localPlayerTickWorld := by
      decide +kernel
    have hval : (initHook starved).val (.init none) = -1 := by decide +kernel
    exact absurd (((h.atomic hval).1 _ _).mp hnew).1 List.not_mem_nil

end Koola
