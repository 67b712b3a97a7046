import Mathlib.Data.Set.Defs
import Mathlib.Logic.Function.Basic
import Mathlib.Logic.Relation

/-!
# Settings that are stored, laid over settings that are built in

A session has its defaults, and the settings that it works with; what is stored outlives it. A
session loads by laying what is stored over its settings, and stores all its settings at once; a
storing that is interrupted destroys what is stored.

* `overlay`, `State`, `Step`.
* `Sound`: the settings have a property, and every default has a setting.
* **`Sound.step`**, **`Sound.steps`**: so they stay, whatever is interrupted.
-/

namespace Overlay

variable {κ ν : Type}

/-- `m`, with `base` where `m` has nothing. -/
def overlay (m base : κ → Option ν) : κ → Option ν := fun k => (m k).or (base k)

theorem overlay_eq_some {m base : κ → Option ν} {k : κ} {v : ν} (h : overlay m base k = some v) :
    m k = some v ∨ base k = some v := by
  cases hm : m k with
  | none =>
    rw [overlay, hm, Option.none_or] at h
    exact .inr h
  | some w =>
    rw [overlay, hm, Option.some_or] at h
    exact .inl h

theorem overlay_ne_none {m base : κ → Option ν} {k : κ} (h : base k ≠ none) :
    overlay m base k ≠ none := by
  cases hm : m k with
  | none => rwa [overlay, hm, Option.none_or]
  | some v => simp [overlay, hm]

/-- A session: what is built in, and what it works with. -/
structure Session (κ ν : Type) where
  defaults : κ → Option ν
  settings : κ → Option ν

structure State (κ ν : Type) where
  stored : Option (κ → Option ν)
  session : Option (Session κ ν)

/-- The steps, for sessions with defaults out of `D`, and settings that are changed to values with
`P`. -/
inductive Step [DecidableEq κ] (D : Set (κ → Option ν)) (P : ν → Prop) (s : State κ ν) :
    State κ ν → Prop
  | launch (d : κ → Option ν) (hd : d ∈ D) : Step D P s { s with session := some ⟨d, d⟩ }
  | load (m : κ → Option ν) (p : Session κ ν) (hm : s.stored = some m) (hp : s.session = some p) :
      Step D P s { s with session := some { p with settings := overlay m p.settings } }
  | change (p : Session κ ν) (k : κ) (v : ν) (hp : s.session = some p) (hv : P v) :
      Step D P s { s with
        session := some { p with settings := Function.update p.settings k (some v) } }
  | store (p : Session κ ν) (hp : s.session = some p) :
      Step D P s { s with stored := some p.settings }
  | tear (p : Session κ ν) (hp : s.session = some p) : Step D P s { s with stored := none }
  | die : Step D P s { s with session := none }

/-- The values of `m` have `P`. -/
def Values (P : ν → Prop) (m : κ → Option ν) : Prop := ∀ k v, m k = some v → P v

/-- **What the steps keep.** -/
structure Sound (P : ν → Prop) (s : State κ ν) : Prop where
  stored : ∀ m, s.stored = some m → Values P m
  settings : ∀ p, s.session = some p → Values P p.settings
  defaults : ∀ p, s.session = some p → ∀ k, p.defaults k ≠ none → p.settings k ≠ none

variable {P : ν → Prop} {s s' : State κ ν}

theorem Values.overlay {m base : κ → Option ν} (hm : Values P m) (hb : Values P base) :
    Values P (overlay m base) := by
  intro k v hv
  rcases overlay_eq_some hv with h | h
  · exact hm k v h
  · exact hb k v h

theorem Values.update [DecidableEq κ] {m : κ → Option ν} (hm : Values P m) (k : κ) {v : ν}
    (hv : P v) : Values P (Function.update m k (some v)) := by
  intro k' w hw
  by_cases hk : k' = k
  · subst hk
    rw [Function.update_self] at hw
    cases hw
    exact hv
  · rw [Function.update_of_ne hk] at hw
    exact hm k' w hw

theorem update_ne_none [DecidableEq κ] {m : κ → Option ν} {k' : κ} (h : m k' ≠ none) (k : κ)
    (v : ν) : Function.update m k (some v) k' ≠ none := by
  by_cases hk : k' = k
  · subst hk
    rw [Function.update_self]
    exact Option.some_ne_none v
  · rwa [Function.update_of_ne hk]

theorem Sound.init : Sound P (⟨none, none⟩ : State κ ν) where
  stored _ h := by cases h
  settings _ h := by cases h
  defaults _ h := by cases h

/-- A sound state has a value with `P` for every default. -/
theorem Sound.exists_value (h : Sound P s) {p : Session κ ν} (hp : s.session = some p) {k : κ}
    (hk : p.defaults k ≠ none) : ∃ v, p.settings k = some v ∧ P v := by
  obtain ⟨v, hv⟩ := Option.ne_none_iff_exists'.mp (h.defaults p hp k hk)
  exact ⟨v, hv, h.settings p hp k v hv⟩

variable [DecidableEq κ] {D : Set (κ → Option ν)}

theorem Sound.step (hD : ∀ d ∈ D, Values P d) (hs : Step D P s s') (h : Sound P s) :
    Sound P s' := by
  cases hs with
  | launch d hd =>
    refine ⟨h.stored, ?_, ?_⟩
    · rintro p ⟨⟩
      exact hD d hd
    · rintro p ⟨⟩ k hk
      exact hk
  | load m p hm hp =>
    refine ⟨h.stored, ?_, ?_⟩
    · rintro p ⟨⟩
      exact (h.stored m hm).overlay (h.settings _ hp)
    · rintro p ⟨⟩ k hk
      exact overlay_ne_none (h.defaults _ hp k hk)
  | change p k v hp hv =>
    refine ⟨h.stored, ?_, ?_⟩
    · rintro p ⟨⟩
      exact (h.settings _ hp).update k hv
    · rintro p ⟨⟩ k' hk'
      exact update_ne_none (h.defaults _ hp k' hk') k v
  | store p hp =>
    refine ⟨?_, h.settings, h.defaults⟩
    rintro m ⟨⟩
    exact h.settings p hp
  | tear p hp =>
    refine ⟨?_, h.settings, h.defaults⟩
    intro m hm
    cases hm
  | die =>
    refine ⟨h.stored, ?_, ?_⟩ <;> intro p hp <;> cases hp

theorem Sound.steps (hD : ∀ d ∈ D, Values P d) (hs : Relation.ReflTransGen (Step D P) s s')
    (h : Sound P s) : Sound P s' := by
  induction hs with
  | refl => exact h
  | tail _ hlast ih => exact ih.step hD hlast

end Overlay
