import Mathlib.Tactic.Common

/-!
# Programs whose intermediate states are observed

* `Prog σ ε α`: a program on a state `σ` that logs the state after each write, and the events of
  type `ε` it raises; its monad. The last state is the last one logged.
* `Throughout I m s`: every state of the run is in `I`; `Along P m s`: every event is in `P`. Their
  equations, one for each way to build a program, and **`throughout_bind`**, **`along_bind`**.
* `Silent m`: the program raises no event.
* `Guards I P m`: from a state in `I`, the two say the same. **`guards_bind`**: a sequence of
  programs is guarded if its parts are.
-/

namespace Logged

/-- An entry of the log. -/
inductive Entry (σ ε : Type)
  | wrote (s : σ)
  | event (e : ε)

variable {σ ε α β : Type}

/-- The last state in a log that starts in `s`. -/
def lastState (s : σ) : List (Entry σ ε) → σ
  | [] => s
  | .wrote x :: l => lastState x l
  | .event _ :: l => lastState s l

theorem lastState_append (s : σ) (l m : List (Entry σ ε)) :
    lastState s (l ++ m) = lastState (lastState s l) m := by
  induction l generalizing s with
  | nil => rfl
  | cons e l ih => cases e <;> exact ih _

theorem lastState_mem (s : σ) (l : List (Entry σ ε)) :
    lastState s l = s ∨ .wrote (lastState s l) ∈ l := by
  induction l generalizing s with
  | nil => exact .inl rfl
  | cons e l ih =>
    cases e with
    | wrote x =>
      refine .inr ?_
      rcases ih x with h | h
      · rw [lastState, h]
        exact List.mem_cons_self
      · exact List.mem_cons_of_mem _ h
    | event e => exact (ih s).imp_right fun h => List.mem_cons_of_mem _ h

/-- A program: its value and its log. -/
def Prog (σ ε α : Type) : Type := σ → α × List (Entry σ ε)

namespace Prog

/-- The value. -/
def val (m : Prog σ ε α) (s : σ) : α := (m s).1

/-- The log. -/
def log (m : Prog σ ε α) (s : σ) : List (Entry σ ε) := (m s).2

/-- The last state. -/
def final (m : Prog σ ε α) (s : σ) : σ := lastState s (m.log s)

end Prog

open Prog

instance : Monad (Prog σ ε) where
  pure a := fun _ => (a, [])
  bind m f := fun s => ((f (m.val s)).val (m.final s), m.log s ++ (f (m.val s)).log (m.final s))

/-- Read the state. -/
def get : Prog σ ε σ := fun s => (s, [])

/-- One write. -/
def write (f : σ → σ) : Prog σ ε Unit := fun s => ((), [.wrote (f s)])

/-- Raise an event. -/
def emit (e : ε) : Prog σ ε Unit := fun _ => ((), [.event e])

/-! The proofs stand in parentheses: `simp` then rewrites with them instead of leaving it to the
kernel to compute both sides. -/

section Equations

variable (m : Prog σ ε α) (f : α → Prog σ ε β) (s : σ)

@[simp] theorem val_pure (a : α) : (pure a : Prog σ ε α).val s = a := (rfl)
@[simp] theorem final_pure (a : α) : (pure a : Prog σ ε α).final s = s := (rfl)
@[simp] theorem log_pure (a : α) : (pure a : Prog σ ε α).log s = [] := (rfl)
@[simp] theorem val_bind : (m >>= f).val s = (f (m.val s)).val (m.final s) := (rfl)
@[simp] theorem final_bind : (m >>= f).final s = (f (m.val s)).final (m.final s) :=
  lastState_append s _ _
@[simp] theorem log_bind :
    (m >>= f).log s = m.log s ++ (f (m.val s)).log (m.final s) := (rfl)
@[simp] theorem val_get : (get : Prog σ ε σ).val s = s := (rfl)
@[simp] theorem final_get : (get : Prog σ ε σ).final s = s := (rfl)
@[simp] theorem log_get : (get : Prog σ ε σ).log s = [] := (rfl)
@[simp] theorem final_write (g : σ → σ) : (write g : Prog σ ε Unit).final s = g s := (rfl)
@[simp] theorem log_write (g : σ → σ) : (write g : Prog σ ε Unit).log s = [.wrote (g s)] := (rfl)
@[simp] theorem final_emit (e : ε) : (emit e : Prog σ ε Unit).final s = s := (rfl)
@[simp] theorem log_emit (e : ε) : (emit e : Prog σ ε Unit).log s = [.event e] := (rfl)

end Equations

theorem get_bind (f : σ → Prog σ ε β) (s : σ) : (get >>= f) s = f s s := rfl

/-- An event comes first in the log. -/
theorem emit_bind (e : ε) (m : Prog σ ε β) (s : σ) :
    (emit e >>= fun _ => m) s = (m.val s, .event e :: m.log s) := rfl

theorem Prog.ext {m n : Prog σ ε α} (hv : ∀ s, m.val s = n.val s) (hl : ∀ s, m.log s = n.log s) :
    m = n :=
  funext fun s => Prod.ext (hv s) (hl s)

/-! ## States and events of a run -/

/-- **Every state of the run is in `I`**: the first one, and the one after each write. -/
def Throughout (I : σ → Prop) (m : Prog σ ε α) (s : σ) : Prop :=
  I s ∧ ∀ x, .wrote x ∈ m.log s → I x

/-- **Every event of the run is in `P`.** -/
def Along (P : ε → Prop) (m : Prog σ ε α) (s : σ) : Prop :=
  ∀ e, .event e ∈ m.log s → P e

/-- **No event** is raised, whatever the state. -/
def Silent (m : Prog σ ε α) : Prop := ∀ s e, .event e ∉ m.log s

/-- **`P` guards `I`**: started in `I`, the run stays in `I` exactly when its events are in `P`. -/
def Guards (I : σ → Prop) (P : ε → Prop) (m : Prog σ ε α) : Prop :=
  ∀ s, I s → (Throughout I m s ↔ Along P m s)

variable {I : σ → Prop} {P : ε → Prop}

theorem Throughout.final {m : Prog σ ε α} {s : σ} (h : Throughout I m s) : I (m.final s) := by
  rcases lastState_mem s (m.log s) with he | he
  · rw [Prog.final, he]
    exact h.1
  · exact h.2 _ he

@[simp] theorem throughout_pure {a : α} {s : σ} :
    Throughout I (pure a : Prog σ ε α) s ↔ I s := by
  simp [Throughout]

@[simp] theorem throughout_get {s : σ} : Throughout I (get : Prog σ ε σ) s ↔ I s := by
  simp [Throughout]

@[simp] theorem throughout_emit {e : ε} {s : σ} :
    Throughout I (emit e : Prog σ ε Unit) s ↔ I s := by
  simp [Throughout]

@[simp] theorem throughout_write {f : σ → σ} {s : σ} :
    Throughout I (write f : Prog σ ε Unit) s ↔ I s ∧ I (f s) := by
  simp [Throughout]

theorem throughout_bind {m : Prog σ ε α} {f : α → Prog σ ε β} {s : σ} :
    Throughout I (m >>= f) s ↔
      Throughout I m s ∧ Throughout I (f (m.val s)) (m.final s) := by
  simp only [Throughout, log_bind, List.mem_append]
  constructor
  · rintro ⟨h, hl⟩
    have hm : Throughout I m s := ⟨h, fun x hx => hl x (.inl hx)⟩
    exact ⟨hm, hm.final, fun x hx => hl x (.inr hx)⟩
  · rintro ⟨⟨h, hl⟩, -, hr⟩
    exact ⟨h, fun x hx => hx.elim (hl x) (hr x)⟩

theorem along_bind {m : Prog σ ε α} {f : α → Prog σ ε β} {s : σ} :
    Along P (m >>= f) s ↔ Along P m s ∧ Along P (f (m.val s)) (m.final s) := by
  simp only [Along, log_bind, List.mem_append, or_imp, forall_and]

theorem silent_pure (a : α) : Silent (pure a : Prog σ ε α) := fun s e => by simp

theorem silent_get : Silent (get : Prog σ ε σ) := fun s e => by simp

theorem silent_write (f : σ → σ) : Silent (write f : Prog σ ε Unit) := fun s e => by simp

theorem silent_bind {m : Prog σ ε α} {f : α → Prog σ ε β} (hm : Silent m)
    (hf : ∀ a, Silent (f a)) : Silent (m >>= f) := by
  intro s e he
  rcases List.mem_append.mp he with he | he
  · exact hm s e he
  · exact hf _ _ e he

theorem silent_ite {p : Prop} [Decidable p] {m n : Prog σ ε α} (hm : Silent m) (hn : Silent n) :
    Silent (if p then m else n) := by
  split_ifs
  · exact hm
  · exact hn

theorem guards_pure (a : α) : Guards I P (pure a) := fun s hs =>
  iff_of_true ⟨hs, by simp⟩ (by simp [Along])

theorem guards_get : Guards I P (get : Prog σ ε σ) := fun s hs =>
  iff_of_true ⟨hs, by simp⟩ (by simp [Along])

/-- A write that keeps `I` needs no guard. -/
theorem guards_write {f : σ → σ} (hf : ∀ s, I s → I (f s)) :
    Guards I P (write f : Prog σ ε Unit) := fun s hs =>
  iff_of_true ⟨hs, by simpa using hf s hs⟩ (by simp [Along])

/-- **A sequence of guarded programs is guarded**: the first, if it stays in `I`, hands the second
a state in `I`. -/
theorem guards_bind {m : Prog σ ε α} {f : α → Prog σ ε β} (hm : Guards I P m)
    (hf : ∀ a, Guards I P (f a)) : Guards I P (m >>= f) := by
  intro s hs
  rw [throughout_bind, along_bind, ← hm s hs]
  exact and_congr_right fun h => hf _ _ h.final

theorem guards_ite {p : Prop} [Decidable p] {m n : Prog σ ε α} (hm : Guards I P m)
    (hn : Guards I P n) : Guards I P (if p then m else n) := by
  split_ifs
  · exact hm
  · exact hn

end Logged
