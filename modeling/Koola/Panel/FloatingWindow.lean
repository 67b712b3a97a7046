import Mathlib.Data.Int.Notation
import Mathlib.Data.List.Basic

/-!
# `FloatingWindow`

* `WindowSystem`: what the system keeps of the panels; `addView`, `removeView`.
* `FloatingWindow.show`, `FloatingWindow.hide`, with the exceptions that they catch or let through.
* `show_attached`, **`show_thrown`**: `show` returns and has set both fields, also when `addView`
  throws.
* `hide_attached`, **`hide_detached`**: `hide` throws if the view is not attached, and keeps it.
-/

namespace Koola

/-- The window system of the process. A view is the number of views that were made before it. -/
structure WindowSystem (A : Type) where
  /-- The attached views, each with the Activity that it was added through. -/
  windows : List (ℕ × A) := []
  /-- The Activities that are gone. -/
  destroyed : List A := []
  /-- How many views were made. -/
  views : ℕ := 0
  /-- The calls of `addView` so far: the view, and whether the call threw. -/
  addViews : List (ℕ × Bool) := []

namespace WindowSystem

variable {A : Type} (system : WindowSystem A)

def Attached (view : ℕ) : Prop := ∃ a, (view, a) ∈ system.windows

variable {system} in
theorem any_windows {view : ℕ} :
    (system.windows.any fun window => window.1 = view) ↔ system.Attached view := by
  simp [Attached]

/-- A call of `addView` throws. Besides the calls that `throws` says do, these are the calls for an
Activity that is gone: its token is not valid any more. -/
def Refuses (throws : Bool) (activity : A) : Prop := throws = true ∨ activity ∈ system.destroyed

def made : WindowSystem A := { system with views := system.views + 1 }

def attach (view : ℕ) (activity : A) : WindowSystem A :=
  { system with
    windows := system.windows ++ [(view, activity)]
    addViews := system.addViews ++ [(view, false)] }

def refuse (view : ℕ) : WindowSystem A :=
  { system with addViews := system.addViews ++ [(view, true)] }

def detach (view : ℕ) : WindowSystem A :=
  { system with windows := system.windows.filter fun window => window.1 ≠ view }

variable [DecidableEq A] (activity : A)

instance (throws : Bool) : Decidable (system.Refuses throws activity) :=
  inferInstanceAs (Decidable (throws = true ∨ activity ∈ system.destroyed))

/-- A new Activity is there, or one that was destroyed is created again. -/
def create : WindowSystem A :=
  { system with destroyed := system.destroyed.filter fun a => a ≠ activity }

theorem not_refuses_create : ¬ (system.create activity).Refuses false activity := by
  simp [Refuses, create]

/-- An Activity is destroyed, and its windows with it. -/
def destroy : WindowSystem A :=
  { system with
    windows := system.windows.filter fun window => window.2 ≠ activity
    destroyed := activity :: system.destroyed }

end WindowSystem

/-! ## The class -/

/-- Where the panel stands: the fields of the layout parameters that the panel reads back. -/
structure LayoutParams where
  x : ℤ
  y : ℤ

def createLayoutParams : LayoutParams where
  x := 100
  y := 200

structure FloatingWindow (A : Type) where
  activity : A
  floatingView : Option ℕ := none
  floatingViewParams : Option LayoutParams := none

/-- A `FloatingWindow` in the system that its calls go to. -/
structure Ui (A : Type) where
  window : FloatingWindow A
  system : WindowSystem A

inductive WindowException
  /-- The window cannot be added. -/
  | badToken
  /-- The view is not attached to the window manager. -/
  | notAttached

/-- Code that may throw; what it has done until then stays done. -/
abbrev UiCode (A : Type) : Type → Type := EStateM WindowException (Ui A)

variable {A : Type}

def createContainerView : UiCode A ℕ := fun ui =>
  .ok ui.system.views { ui with system := ui.system.made }

/-- `windowManager.removeView(view)`. -/
def removeView (view : ℕ) : UiCode A Unit := fun ui =>
  if ui.system.windows.any fun window => window.1 = view then
    .ok () { ui with system := ui.system.detach view }
  else .error .notAttached ui

def FloatingWindow.hide : UiCode A Unit := do
  match (← get).window.floatingView with
  | none => return
  | some it =>
    removeView it
    modify fun ui => { ui with window := { ui.window with floatingView := none } }
    modify fun ui => { ui with window := { ui.window with floatingViewParams := none } }

variable [DecidableEq A]

/-- `windowManager.addView(view, …)`: the window manager is that of the Activity. -/
def addView (view : ℕ) (throws : Bool) : UiCode A Unit := fun ui =>
  if ui.system.Refuses throws ui.window.activity then
    .error .badToken { ui with system := ui.system.refuse view }
  else .ok () { ui with system := ui.system.attach view ui.window.activity }

/-- `throws` is whether the call of `addView` throws, if there is one. -/
def FloatingWindow.show (throws : Bool) : UiCode A Unit := do
  if (← get).window.floatingView.isSome then return
  let view ← createContainerView
  modify fun ui => { ui with window := { ui.window with floatingView := some view } }
  modify fun ui =>
    { ui with window := { ui.window with floatingViewParams := some createLayoutParams } }
  try addView view throws
  -- the exception is logged
  catch _ => pure ()

/-! ## What the two methods do -/

variable (a : A) (params : Option LayoutParams) (system : WindowSystem A) (view : ℕ) (throws : Bool)

theorem show_visible :
    FloatingWindow.show throws ⟨⟨a, some view, params⟩, system⟩ =
      .ok () ⟨⟨a, some view, params⟩, system⟩ := rfl

/-- The fields are set before `addView` is called. -/
theorem show_hidden :
    FloatingWindow.show throws ⟨⟨a, none, params⟩, system⟩ =
      EStateM.tryCatch (addView system.views throws) (fun _ => pure ())
        ⟨⟨a, some system.views, some createLayoutParams⟩, system.made⟩ := rfl

variable {system throws view}

theorem show_attached (h : ¬ system.Refuses throws a) :
    FloatingWindow.show throws ⟨⟨a, none, params⟩, system⟩ =
      .ok () ⟨⟨a, some system.views, some createLayoutParams⟩,
        system.made.attach system.views a⟩ := by
  have hadd : addView system.views throws
      ⟨⟨a, some system.views, some createLayoutParams⟩, system.made⟩ = _ := if_neg h
  rw [show_hidden, EStateM.tryCatch, hadd]

theorem show_thrown (h : system.Refuses throws a) :
    FloatingWindow.show throws ⟨⟨a, none, params⟩, system⟩ =
      .ok () ⟨⟨a, some system.views, some createLayoutParams⟩,
        system.made.refuse system.views⟩ := by
  have hadd : addView system.views throws
      ⟨⟨a, some system.views, some createLayoutParams⟩, system.made⟩ = _ := if_pos h
  rw [show_hidden, EStateM.tryCatch, hadd]
  rfl

omit [DecidableEq A] in
theorem hide_attached (h : system.Attached view) :
    FloatingWindow.hide ⟨⟨a, some view, params⟩, system⟩ =
      .ok () ⟨⟨a, none, none⟩, system.detach view⟩ := by
  have hremove : removeView view ⟨⟨a, some view, params⟩, system⟩ = _ :=
    if_pos (WindowSystem.any_windows.mpr h)
  change EStateM.bind (removeView view) _ _ = _
  rw [EStateM.bind, hremove]
  rfl

omit [DecidableEq A] in
theorem hide_detached (h : ¬ system.Attached view) :
    FloatingWindow.hide ⟨⟨a, some view, params⟩, system⟩ =
      .error .notAttached ⟨⟨a, some view, params⟩, system⟩ := by
  have hremove : removeView view ⟨⟨a, some view, params⟩, system⟩ = _ :=
    if_neg (WindowSystem.any_windows.not.mpr h)
  change EStateM.bind (removeView view) _ _ = _
  rw [EStateM.bind, hremove]

end Koola
