import Mathlib.Data.List.Basic

/-!
# Torn writes

A file is written in place: it is cut to nothing, and the text is then written from the front. If
the write is interrupted, the first part of the text is all that the file has.

* `Fate`: how a write ends; `Fate.written`, `Fate.Intact`.
* `Format`: texts that can be read back, and not when they are cut short.
* **`Format.decode_intact`**, **`Format.decode_torn`**: what is read back after a write.
-/

namespace Torn

/-- A write goes through, or after `k` elements of the text it fails, or the writer is killed. -/
inductive Fate
  | completes
  | fails (k : ℕ)
  | killed (k : ℕ)
  deriving DecidableEq, Repr

variable {α β γ : Type}

/-- What the file has after the write. -/
def Fate.written (text : List β) : Fate → List β
  | .completes => text
  | .fails k | .killed k => text.take k

/-- All of the text was written. -/
def Fate.Intact (text : List β) (f : Fate) : Prop := f.written text = text

instance [DecidableEq β] (text : List β) (f : Fate) : Decidable (f.Intact text) :=
  inferInstanceAs (Decidable (f.written text = text))

/-- A write that is not intact wrote a proper prefix. -/
theorem Fate.written_of_torn {text : List β} {f : Fate} (h : ¬ f.Intact text) :
    ∃ k < text.length, f.written text = text.take k := by
  cases f with
  | completes => exact absurd rfl h
  | fails k | killed k =>
    refine ⟨k, ?_, rfl⟩
    by_contra hk
    exact h (List.take_of_length_le (Nat.not_lt.mp hk))

/-- A format: a text is read back up to what `view` shows, and not at all when it is cut short. -/
structure Format (β : Type) (view : α → γ) where
  encode : α → List β
  decode : List β → Option α
  decode_encode : ∀ a, ∃ a', decode (encode a) = some a' ∧ view a' = view a
  decode_cut : ∀ a, ∀ k < (encode a).length, decode ((encode a).take k) = none

variable {view : α → γ} (F : Format β view) {a : α} {f : Fate}

theorem Format.decode_intact (h : f.Intact (F.encode a)) :
    ∃ a', F.decode (f.written (F.encode a)) = some a' ∧ view a' = view a := by
  rw [h]
  exact F.decode_encode a

theorem Format.decode_torn (h : ¬ f.Intact (F.encode a)) :
    F.decode (f.written (F.encode a)) = none := by
  obtain ⟨k, hk, hw⟩ := Fate.written_of_torn h
  rw [hw]
  exact F.decode_cut a k hk

end Torn
