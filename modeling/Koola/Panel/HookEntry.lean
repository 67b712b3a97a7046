import Koola.Panel.FloatingWindow

/-!
# `HookEntry.ActivityHook` and the life of the panel

* `GameProcess`: the static field of `HookEntry`, and the window system.
* `afterOnCreate`, `onFloatingWindow`: the code of the hook, and a call on the static field.
* `PanelEvent.play`: Activities are created and destroyed, `show` and `hide` are called.
* **`played`**: what an event can do.
-/

namespace Koola

structure GameProcess (A : Type) where
  floatingWindow : Option (FloatingWindow A) := none
  system : WindowSystem A := {}

/-- Code of the hook; like `UiCode`, in the process. -/
abbrev HookCode (A : Type) : Type → Type := EStateM WindowException (GameProcess A)

variable {A : Type}

/-- `floatingWindow?.method()`. -/
def onFloatingWindow (method : UiCode A Unit) : HookCode A Unit := fun s =>
  match s.floatingWindow with
  | none => .ok () s
  | some window =>
    match method ⟨window, s.system⟩ with
    | .ok _ ui => .ok () ⟨some ui.window, ui.system⟩
    | .error e ui => .error e ⟨some ui.window, ui.system⟩

inductive PanelEvent (A : Type)
  /-- `MainActivity.onCreate` runs. `throws` is whether `addView` throws, here and below, if it is
  called. -/
  | onCreate (activity : A) (throws : Bool)
  | callShow (throws : Bool)
  | callHide
  | destroy (activity : A)

/-- How an event ends: normally or with an exception, and in which state. -/
abbrev HookResult (A : Type) := EStateM.Result WindowException (GameProcess A) Unit

def HookResult.state : HookResult A → GameProcess A
  | .ok _ s => s
  | .error _ s => s

variable [DecidableEq A]

/-- What `ActivityHook` does after `MainActivity.onCreate`. -/
def afterOnCreate (activity : A) (throws : Bool) : HookCode A Unit := do
  if (← get).floatingWindow.isNone then
    modify fun s => { s with floatingWindow := some { activity } }
    onFloatingWindow (FloatingWindow.show throws)

def PanelEvent.play : PanelEvent A → HookCode A Unit
  | .onCreate activity throws => do
    modify fun s => { s with system := s.system.create activity }
    afterOnCreate activity throws
  | .callShow throws => onFloatingWindow (FloatingWindow.show throws)
  | .callHide => onFloatingWindow FloatingWindow.hide
  | .destroy activity => modify fun s => { s with system := s.system.destroy activity }

def panelStep (s : GameProcess A) (e : PanelEvent A) : GameProcess A := HookResult.state (e.play s)

/-! ## What an event can do -/

/-- The outcomes of the events. The fields of the window are written `⟨activity, floatingView,
floatingViewParams⟩`. -/
inductive Played : GameProcess A → PanelEvent A → HookResult A → Prop
  | opened (system : WindowSystem A) (a : A) :
    Played ⟨none, system⟩ (.onCreate a false)
      (.ok () ⟨some ⟨a, some system.views, some createLayoutParams⟩,
        (system.create a).made.attach system.views a⟩)
  /-- `addView` throws, and the new `FloatingWindow` looks as if it had not. -/
  | notOpened (system : WindowSystem A) (a : A) :
    Played ⟨none, system⟩ (.onCreate a true)
      (.ok () ⟨some ⟨a, some system.views, some createLayoutParams⟩,
        (system.create a).made.refuse system.views⟩)
  /-- There is a `FloatingWindow`: a further Activity does not count. -/
  | ignored (w : FloatingWindow A) (system : WindowSystem A) (a : A) (throws : Bool) :
    Played ⟨some w, system⟩ (.onCreate a throws) (.ok () ⟨some w, system.create a⟩)
  | showNobody (system : WindowSystem A) (throws : Bool) :
    Played ⟨none, system⟩ (.callShow throws) (.ok () ⟨none, system⟩)
  | showVisible (a : A) (v : ℕ) (params : Option LayoutParams) (system : WindowSystem A)
      (throws : Bool) :
    Played ⟨some ⟨a, some v, params⟩, system⟩ (.callShow throws)
      (.ok () ⟨some ⟨a, some v, params⟩, system⟩)
  | shown (a : A) (params : Option LayoutParams) (system : WindowSystem A) (throws : Bool)
      (h : ¬ system.Refuses throws a) :
    Played ⟨some ⟨a, none, params⟩, system⟩ (.callShow throws)
      (.ok () ⟨some ⟨a, some system.views, some createLayoutParams⟩,
        system.made.attach system.views a⟩)
  | notShown (a : A) (params : Option LayoutParams) (system : WindowSystem A) (throws : Bool)
      (h : system.Refuses throws a) :
    Played ⟨some ⟨a, none, params⟩, system⟩ (.callShow throws)
      (.ok () ⟨some ⟨a, some system.views, some createLayoutParams⟩,
        system.made.refuse system.views⟩)
  | hideNobody (system : WindowSystem A) :
    Played ⟨none, system⟩ .callHide (.ok () ⟨none, system⟩)
  | hideHidden (a : A) (params : Option LayoutParams) (system : WindowSystem A) :
    Played ⟨some ⟨a, none, params⟩, system⟩ .callHide (.ok () ⟨some ⟨a, none, params⟩, system⟩)
  | hidden (a : A) (v : ℕ) (params : Option LayoutParams) (system : WindowSystem A)
      (h : system.Attached v) :
    Played ⟨some ⟨a, some v, params⟩, system⟩ .callHide
      (.ok () ⟨some ⟨a, none, none⟩, system.detach v⟩)
  /-- `removeView` throws before the fields are cleared. -/
  | notHidden (a : A) (v : ℕ) (params : Option LayoutParams) (system : WindowSystem A)
      (h : ¬ system.Attached v) :
    Played ⟨some ⟨a, some v, params⟩, system⟩ .callHide
      (.error .notAttached ⟨some ⟨a, some v, params⟩, system⟩)
  | destroyed (s : GameProcess A) (a : A) :
    Played s (.destroy a) (.ok () { s with system := s.system.destroy a })

omit [DecidableEq A] in
theorem onFloatingWindow_returns {method : UiCode A Unit} {w : FloatingWindow A}
    {system : WindowSystem A} {ui : Ui A} (h : method ⟨w, system⟩ = .ok () ui) :
    onFloatingWindow method ⟨some w, system⟩ = .ok () ⟨some ui.window, ui.system⟩ := by
  simp only [onFloatingWindow, h]

omit [DecidableEq A] in
theorem onFloatingWindow_throws {method : UiCode A Unit} {w : FloatingWindow A}
    {system : WindowSystem A} {e : WindowException} {ui : Ui A}
    (h : method ⟨w, system⟩ = .error e ui) :
    onFloatingWindow method ⟨some w, system⟩ = .error e ⟨some ui.window, ui.system⟩ := by
  simp only [onFloatingWindow, h]

section Events

variable (floatingWindow : Option (FloatingWindow A)) (system : WindowSystem A)

theorem played_onCreate (a : A) (throws : Bool) :
    Played ⟨floatingWindow, system⟩ (.onCreate a throws)
      (PanelEvent.play (.onCreate a throws) ⟨floatingWindow, system⟩) := by
  cases floatingWindow with
  | some w => exact .ignored w system a throws
  | none =>
    change Played _ _ (onFloatingWindow (FloatingWindow.show throws)
      ⟨some ⟨a, none, none⟩, system.create a⟩)
    cases throws with
    | false =>
      rw [onFloatingWindow_returns (show_attached a none (system.not_refuses_create a))]
      exact .opened system a
    | true =>
      rw [onFloatingWindow_returns (show_thrown a none (.inl rfl))]
      exact .notOpened system a

theorem played_show (throws : Bool) :
    Played ⟨floatingWindow, system⟩ (.callShow throws)
      (PanelEvent.play (.callShow throws) ⟨floatingWindow, system⟩) := by
  change Played _ _ (onFloatingWindow (FloatingWindow.show throws) _)
  match floatingWindow with
  | none => exact .showNobody system throws
  | some ⟨a, some v, params⟩ =>
    rw [onFloatingWindow_returns (show_visible a params system v throws)]
    exact .showVisible a v params system throws
  | some ⟨a, none, params⟩ =>
    by_cases h : system.Refuses throws a
    · rw [onFloatingWindow_returns (show_thrown a params h)]
      exact .notShown a params system throws h
    · rw [onFloatingWindow_returns (show_attached a params h)]
      exact .shown a params system throws h

theorem played_hide :
    Played ⟨floatingWindow, system⟩ .callHide
      (PanelEvent.play .callHide ⟨floatingWindow, system⟩) := by
  change Played _ _ (onFloatingWindow FloatingWindow.hide _)
  match floatingWindow with
  | none => exact .hideNobody system
  | some ⟨a, none, params⟩ => exact .hideHidden a params system
  | some ⟨a, some v, params⟩ =>
    by_cases h : system.Attached v
    · rw [onFloatingWindow_returns (hide_attached a params h)]
      exact .hidden a v params system h
    · rw [onFloatingWindow_throws (hide_detached a params h)]
      exact .notHidden a v params system h

end Events

theorem played (s : GameProcess A) (e : PanelEvent A) : Played s e (e.play s) := by
  cases e with
  | onCreate a throws => exact played_onCreate s.floatingWindow s.system a throws
  | callShow throws => exact played_show s.floatingWindow s.system throws
  | callHide => exact played_hide s.floatingWindow s.system
  | destroy a => exact .destroyed s a

end Koola
