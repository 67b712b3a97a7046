import Koola.Lib.Machine
import Koola.Panel.HookEntry

/-!
# The panel and the window system

The panel is in step with the window system if `floatingView` is the view that is attached.

* `GameProcess.InStep`, `GameProcess.Owned`: `floatingView` is what is attached; what is attached
  belongs to the Activity of `floatingWindow`.
* `Lawful`: what an event should do. `Calm`: `addView` is not called in vain, no second Activity is
  created and none is destroyed under the panel.
* `Played.lawful_iff_calm`: an event that comes while the panel is in step does what it should
  exactly if it is calm.
* **`staysInStep_iff_calm`**: a run keeps the panel in step exactly if all its events are calm.
* **`inStep_or_stuck`**, **`GameProcess.Stuck.forever`**: after every run the panel is in step or
  stuck, and a panel that is stuck is never attached again.
-/

namespace Koola

open Machine

variable {A : Type}

namespace GameProcess

variable (s : GameProcess A)

def floatingView : Option ℕ := s.floatingWindow.bind FloatingWindow.floatingView

/-- `floatingView` is the attached view, or null if there is none. -/
def InStep : Prop := ∀ v, s.system.Attached v ↔ s.floatingView = some v

/-- The attached views belong to the Activity of `floatingWindow`. -/
def Owned : Prop :=
  ∀ v a, (v, a) ∈ s.system.windows → s.floatingWindow.map FloatingWindow.activity = some a

/-- The panel is attached through the Activity. -/
def AttachedThrough (a : A) : Prop := ∃ v, s.floatingView = some v ∧ (v, a) ∈ s.system.windows

/-- Nothing is attached, although `floatingView` is not null. -/
def Stuck : Prop := s.system.windows = [] ∧ s.floatingView ≠ none

variable {s} {system : WindowSystem A} {a : A} {v : ℕ} {params : Option LayoutParams}

theorem InStep.windows_eq_nil (h : s.InStep) (hv : s.floatingView = none) :
    s.system.windows = [] := by
  rw [List.eq_nil_iff_forall_not_mem]
  rintro ⟨v, a⟩ hmem
  have hsome : s.floatingView = some v := (h v).mp ⟨a, hmem⟩
  cases hv.symm.trans hsome

theorem inStep_of_nil (hw : s.system.windows = []) (hv : s.floatingView = none) : s.InStep := by
  intro v
  simp [WindowSystem.Attached, hw, hv]

theorem inStep_init : InStep ({} : GameProcess A) := inStep_of_nil rfl rfl

theorem owned_init : Owned ({} : GameProcess A) := nofun

theorem inStep_attach (hw : system.windows = []) :
    InStep ⟨some ⟨a, some v, params⟩, system.attach v a⟩ := by
  intro v'
  simp [WindowSystem.Attached, WindowSystem.attach, hw, floatingView, eq_comm]

theorem InStep.detach (h : InStep ⟨some ⟨a, some v, params⟩, system⟩) :
    InStep ⟨some ⟨a, none, none⟩, system.detach v⟩ := by
  refine inStep_of_nil (List.filter_eq_nil_iff.mpr ?_) rfl
  rintro ⟨v', a'⟩ hmem
  have hv : some v = some v' := (h v').mp ⟨a', hmem⟩
  simp [Option.some.inj hv]

theorem owned_attach (h : ∀ v a', (v, a') ∈ system.windows → a' = a) {view : Option ℕ} :
    Owned ⟨some ⟨a, view, params⟩, system.attach v a⟩ := by
  intro v' a' hmem
  rcases List.mem_append.mp hmem with hold | hnew
  · rw [h v' a' hold]
    rfl
  · cases List.mem_singleton.mp hnew
    rfl

theorem Stuck.not_attached (h : s.Stuck) : ¬ s.system.Attached v := by
  rintro ⟨a, hmem⟩
  rw [h.1] at hmem
  cases hmem

theorem Stuck.not_inStep (h : s.Stuck) : ¬ s.InStep := by
  intro hs
  obtain ⟨v, hv⟩ := Option.ne_none_iff_exists'.mp h.2
  exact h.not_attached ((hs v).mpr hv)

end GameProcess

/-! ## What an event should do -/

/-- The `FloatingWindow` that the calls in an event are for, as it is before them. -/
def callee (s : GameProcess A) : PanelEvent A → Option (FloatingWindow A)
  | .onCreate a _ => s.floatingWindow <|> some { activity := a }
  | _ => s.floatingWindow

/-- A call of `addView` threw. -/
def AddViewThrew (s s' : GameProcess A) : Prop :=
  ∃ v, s'.system.addViews = s.system.addViews ++ [(v, true)]

structure Lawful (s : GameProcess A) (e : PanelEvent A) (r : HookResult A) : Prop where
  inStep : r.state.InStep
  /-- A `show` whose `addView` threw leaves its `FloatingWindow` as it was. -/
  retry : AddViewThrew s r.state → r.state.floatingWindow = callee s e
  hide : e = .callHide → ∃ s', r = .ok () s'
  /-- The panel is attached through the Activity that was just created, unless `addView` threw. -/
  panel : ∀ a throws, e = .onCreate a throws → ¬ AddViewThrew s r.state → r.state.AttachedThrough a

theorem not_addViewThrew {s s' : GameProcess A} (h : s'.system.addViews = s.system.addViews) :
    ¬ AddViewThrew s s' := by
  rintro ⟨v, hv⟩
  rw [h] at hv
  cases List.self_eq_append_right.mp hv

variable {s s' : GameProcess A} {e : PanelEvent A} {system : WindowSystem A} {a : A} {v : ℕ}
  {params : Option LayoutParams}

theorem lawful_quiet (h : s'.InStep) (hlog : s'.system.addViews = s.system.addViews)
    (he : ∀ a throws, e ≠ .onCreate a throws) : Lawful s e (.ok () s') where
  inStep := h
  retry hthrew := absurd hthrew (not_addViewThrew hlog)
  hide _ := ⟨s', rfl⟩
  panel a throws hcreate := absurd hcreate (he a throws)

theorem lawful_attach (hw : system.windows = []) (hlog : system.addViews = s.system.addViews)
    (he : ∀ a' throws, e = .onCreate a' throws → a' = a) :
    Lawful s e (.ok () ⟨some ⟨a, some v, params⟩, system.attach v a⟩) where
  inStep := GameProcess.inStep_attach hw
  retry := by
    rintro ⟨v', hv'⟩
    simp [HookResult.state, WindowSystem.attach, hlog] at hv'
  hide _ := ⟨_, rfl⟩
  panel a' throws hcreate _ := by
    rw [he a' throws hcreate]
    exact ⟨v, rfl, by simp [HookResult.state, WindowSystem.attach]⟩

/-- `show` has set the fields although `addView` throws. -/
theorem not_lawful_refuse (hlog : system.addViews = s.system.addViews)
    (he : (callee s e).bind FloatingWindow.floatingView = none) :
    ¬ Lawful s e (.ok () ⟨some ⟨a, some v, params⟩, system.refuse v⟩) := by
  intro h
  have hretry := h.retry ⟨v, by rw [← hlog]; rfl⟩
  rw [← hretry] at he
  cases he

/-! ## Calm events -/

section Calm

variable [DecidableEq A]

/-- The event does not come in the way of the panel, as the state before it shows: no call of
`addView` throws, an Activity is created only where there is no `FloatingWindow` or where the panel
is shown already, and none is destroyed under a panel that is shown. -/
def Calm (s : GameProcess A) : PanelEvent A → Prop
  | .onCreate a throws =>
    match s.floatingWindow with
    | none => throws = false
    | some w => w.activity = a ∧ w.floatingView ≠ none
  | .callShow throws => ∀ w, s.floatingWindow = some w → w.floatingView = none →
    ¬ s.system.Refuses throws w.activity
  | .callHide => True
  | .destroy a => ∀ w, s.floatingWindow = some w → w.activity = a → w.floatingView = none

/-- Whatever is attached belongs to the Activity of `floatingWindow`, in every run. -/
theorem Played.owned {r : HookResult A} (h : Played s e r) (hs : s.Owned) : r.state.Owned := by
  cases h with
  | opened system a =>
    apply GameProcess.owned_attach
    intro v a' hmem
    cases hs v a' hmem
  | shown a params system throws h =>
    apply GameProcess.owned_attach
    intro v a' hmem
    cases hs v a' hmem
    rfl
  | notOpened system a =>
    intro v a' hmem
    cases hs v a' hmem
  | hidden a v params system h =>
    intro v' a' hmem
    exact hs v' a' (List.mem_of_mem_filter hmem)
  | destroyed s a =>
    intro v a' hmem
    exact hs v a' (List.mem_of_mem_filter hmem)
  | notShown | ignored | showNobody | hideNobody | showVisible | hideHidden | notHidden => exact hs

theorem lawful_ignored {w : FloatingWindow A} {throws : Bool}
    (hs : GameProcess.InStep ⟨some w, system⟩) (hown : GameProcess.Owned ⟨some w, system⟩) :
    Lawful ⟨some w, system⟩ (.onCreate a throws) (.ok () ⟨some w, system.create a⟩) ↔
      w.activity = a ∧ w.floatingView ≠ none := by
  constructor
  · intro h
    obtain ⟨v, hv, hmem⟩ := h.panel a throws rfl (not_addViewThrew rfl)
    refine ⟨Option.some.inj (hown v a hmem), ?_⟩
    intro hnone
    cases hnone.symm.trans hv
  · rintro ⟨rfl, hview⟩
    obtain ⟨v, hv⟩ := Option.ne_none_iff_exists'.mp hview
    obtain ⟨a, hmem⟩ := (hs v).mpr hv
    cases hown v a hmem
    refine ⟨hs, fun hthrew => absurd hthrew (not_addViewThrew rfl), nofun, ?_⟩
    rintro _ _ ⟨⟩ _
    exact ⟨v, hv, hmem⟩

theorem stuck_destroy (hown : s.Owned) (h : ¬ Calm s (.destroy a)) :
    GameProcess.Stuck { s with system := s.system.destroy a } := by
  simp only [Calm, not_forall] at h
  obtain ⟨w, hw, rfl, hview⟩ := h
  constructor
  · apply List.filter_eq_nil_iff.mpr
    rintro ⟨v, a⟩ hmem
    have hact := hown v a hmem
    rw [hw] at hact
    cases hact
    simp
  · intro hnone
    rw [GameProcess.floatingView, hw] at hnone
    exact hview hnone

theorem inStep_destroy (hs : s.InStep) (hown : s.Owned) :
    GameProcess.InStep { s with system := s.system.destroy a } ↔ Calm s (.destroy a) := by
  constructor
  · intro h
    by_contra hcalm
    exact (stuck_destroy hown hcalm).not_inStep h
  · intro h v
    constructor
    · rintro ⟨a', hmem⟩
      exact (hs v).mp ⟨a', List.mem_of_mem_filter hmem⟩
    · intro hv
      obtain ⟨a', hmem⟩ := (hs v).mpr hv
      obtain ⟨w, hw, rfl⟩ := Option.map_eq_some_iff.mp (hown v a' hmem)
      refine ⟨w.activity, List.mem_filter.mpr ⟨hmem, decide_eq_true ?_⟩⟩
      intro ha
      rw [GameProcess.floatingView, hw, Option.bind_some, h w hw ha] at hv
      cases hv

theorem lawful_destroyed (hs : s.InStep) (hown : s.Owned) :
    Lawful s (.destroy a) (.ok () { s with system := s.system.destroy a }) ↔
      Calm s (.destroy a) := by
  rw [← inStep_destroy hs hown]
  constructor
  · exact Lawful.inStep
  · intro h
    exact lawful_quiet h rfl nofun

/-- An event that comes while the panel is in step does what it should exactly if it is calm. -/
theorem Played.lawful_iff_calm {r : HookResult A} (h : Played s e r) (hs : s.InStep)
    (hown : s.Owned) : Lawful s e r ↔ Calm s e := by
  cases h with
  | opened system a =>
    have hw : system.windows = [] := hs.windows_eq_nil rfl
    refine iff_of_true (lawful_attach hw rfl ?_) rfl
    rintro _ _ ⟨⟩
    rfl
  | notOpened system a =>
    exact iff_of_false (not_lawful_refuse rfl rfl) (Bool.noConfusion ·)
  | ignored w system a throws => exact lawful_ignored hs hown
  | shown a params system throws h =>
    have hw : system.windows = [] := hs.windows_eq_nil rfl
    refine iff_of_true (lawful_attach hw rfl nofun) ?_
    rintro _ ⟨⟩ _
    exact h
  | notShown a params system throws h =>
    exact iff_of_false (not_lawful_refuse rfl rfl) fun hcalm => hcalm _ rfl rfl h
  | showNobody system throws => exact iff_of_true (lawful_quiet hs rfl nofun) nofun
  | showVisible a v params system throws =>
    refine iff_of_true (lawful_quiet hs rfl nofun) ?_
    rintro _ ⟨⟩ ⟨⟩
  | hideNobody | hideHidden => exact iff_of_true (lawful_quiet hs rfl nofun) trivial
  | hidden a v params system h =>
    exact iff_of_true (lawful_quiet hs.detach rfl nofun) trivial
  | notHidden a v params system h => exact absurd ((hs v).mpr rfl) h
  | destroyed s a => exact lawful_destroyed hs hown

/-! ## Runs -/

/-- Every event of the run does what it should. -/
def StaysInStep (es : List (PanelEvent A)) : Prop :=
  EachStep panelStep (fun s e => Lawful s e (e.play s)) {} es

/-- **A run keeps the panel in step exactly if all its events are calm.** -/
theorem staysInStep_iff_calm (es : List (PanelEvent A)) :
    StaysInStep es ↔ EachStep panelStep Calm {} es := by
  apply eachStep_iff_of_invariant (I := fun s => s.InStep ∧ s.Owned)
  · rintro s e ⟨hs, hown⟩
    exact (played s e).lawful_iff_calm hs hown
  · rintro s e ⟨_, hown⟩ hlawful
    exact ⟨hlawful.inStep, (played s e).owned hown⟩
  · exact ⟨GameProcess.inStep_init, GameProcess.owned_init⟩

/-- `addView` throws in the first `onCreate`; a second Activity is created after a first one that
shows the panel. -/
theorem not_staysInStep :
    ¬ StaysInStep (A := ℕ) [.onCreate 0 true] ∧
      ¬ StaysInStep (A := ℕ) [.onCreate 0 false, .onCreate 1 false] := by
  constructor
  · intro h
    cases (h [] _ [] rfl).retry ⟨0, rfl⟩
  · intro h
    obtain ⟨v, _, hmem⟩ := (h [.onCreate 0 false] _ [] rfl).panel 1 false rfl
      (not_addViewThrew rfl)
    cases hmem with
    | tail _ hmem => cases hmem

/-! ## A panel that is stuck -/

theorem Played.stuck {r : HookResult A} (h : Played s e r) (hs : s.Stuck) : r.state.Stuck := by
  cases h with
  | opened | notOpened | shown | notShown | showNobody | hideNobody | hideHidden =>
    exact absurd rfl hs.2
  | ignored | showVisible | notHidden => exact hs
  | hidden a v params system h => exact absurd h hs.not_attached
  | destroyed s a =>
    obtain ⟨hw, hview⟩ := hs
    exact ⟨List.filter_eq_nil_iff.mpr (by simp [hw]), hview⟩

theorem Played.inStep_or_stuck {r : HookResult A} (h : Played s e r) (hs : s.InStep)
    (hown : s.Owned) : r.state.InStep ∨ r.state.Stuck := by
  cases h with
  | opened | shown => exact .inl (GameProcess.inStep_attach (hs.windows_eq_nil rfl))
  | notOpened | notShown => exact .inr ⟨hs.windows_eq_nil rfl, nofun⟩
  | ignored | showNobody | showVisible | hideNobody | hideHidden | notHidden => exact .inl hs
  | hidden => exact .inl hs.detach
  | destroyed s a =>
    by_cases hcalm : Calm s (.destroy a)
    · exact .inl ((inStep_destroy hs hown).mpr hcalm)
    · exact .inr (stuck_destroy hown hcalm)

/-- **After every run the panel is in step or stuck.** -/
theorem inStep_or_stuck (es : List (PanelEvent A)) :
    (es.foldl panelStep {}).InStep ∨ (es.foldl panelStep {}).Stuck := by
  have hinv : ∀ s : GameProcess A, ∀ e, (s.InStep ∨ s.Stuck) ∧ s.Owned →
      ((panelStep s e).InStep ∨ (panelStep s e).Stuck) ∧ (panelStep s e).Owned := by
    rintro s e ⟨hs | hs, hown⟩
    · exact ⟨(played s e).inStep_or_stuck hs hown, (played s e).owned hown⟩
    · exact ⟨.inr ((played s e).stuck hs), (played s e).owned hown⟩
  exact (foldl_invariant hinv ⟨.inl GameProcess.inStep_init, GameProcess.owned_init⟩ es).1

theorem Played.hide_stuck {r : HookResult A} (h : Played s .callHide r) (hs : s.Stuck) :
    r = .error .notAttached s := by
  cases h with
  | hideNobody | hideHidden => exact absurd rfl hs.2
  | hidden a v params system h => exact absurd h hs.not_attached
  | notHidden => rfl

theorem Played.show_stuck {r : HookResult A} {throws : Bool} (h : Played s (.callShow throws) r)
    (hs : s.Stuck) : r = .ok () s := by
  cases h with
  | shown | notShown => exact absurd rfl hs.2
  | showNobody | showVisible => rfl

/-- **A panel that is stuck stays so: `hide` throws and `show` does nothing.** -/
theorem GameProcess.Stuck.forever (h : s.Stuck) (es : List (PanelEvent A))
    (hrun : es.foldl panelStep s = s') :
    s'.Stuck ∧ PanelEvent.play .callHide s' = .error .notAttached s' ∧
      ∀ throws, PanelEvent.play (.callShow throws) s' = .ok () s' := by
  have hstuck : s'.Stuck := by
    rw [← hrun]
    exact foldl_invariant (fun s e hs => (played s e).stuck hs) h es
  exact ⟨hstuck, (played _ _).hide_stuck hstuck, fun _ => (played _ _).show_stuck hstuck⟩

end Calm

end Koola
