import Mathlib.Data.List.Induction
import Mathlib.Data.Set.Pairwise.Basic

/-!
# Pools with a quarantine

A pool hands out slots and takes them back. A slot that is handed out is apart from those that are
held, and a slot that came back is not handed out again for a while.

* `Pool`, `Event`, `Step`, `Runs`: the slots that are held, what happens to them, runs.
* **`Runs.apart`**: the slots that are held are apart; `Runs.held_iff`: they are those whose last
  event is that they were handed out.
* **`Runs.reuse`**: between two times that a slot is handed out it came back, and the quarantine of
  the last time is over.
-/

namespace Quarantine

variable {α : Type}

/-- The slots that are held, and when a slot came back last. -/
structure Pool (α : Type) where
  held : Set α
  freedAt : α → Option ℤ

inductive Event (α : Type)
  | alloc (a : α) (now : ℤ)
  | free (a : α) (now : ℤ)

/-- The slot that an event is about. -/
def Event.slot : Event α → α
  | alloc a _ | free a _ => a

def Pool.empty : Pool α := ⟨∅, fun _ => none⟩

variable [DecidableEq α]

/-- The steps of a pool. -/
inductive Step (Apart : α → α → Prop) (delay : ℤ) (P : Pool α) : Event α → Pool α → Prop
  | alloc (a : α) (now : ℤ) : a ∉ P.held → (∀ b ∈ P.held, Apart a b) →
      (∀ t, P.freedAt a = some t → t + delay < now) →
      Step Apart delay P (.alloc a now) { P with held := insert a P.held }
  | free (a : α) (now : ℤ) : a ∈ P.held →
      Step Apart delay P (.free a now)
        ⟨P.held \ {a}, Function.update P.freedAt a (some now)⟩

/-- The runs of a pool, by their last step. -/
inductive Runs (Apart : α → α → Prop) (delay : ℤ) (P : Pool α) : List (Event α) → Pool α → Prop
  | nil : Runs Apart delay P [] P
  | snoc {es : List (Event α)} {e : Event α} {P' P'' : Pool α} :
      Runs Apart delay P es P' → Step Apart delay P' e P'' → Runs Apart delay P (es ++ [e]) P''

variable {Apart : α → α → Prop} {delay : ℤ} {P P' P'' : Pool α} {es es' : List (Event α)}
  {e : Event α} {a : α}

theorem Runs.of_nil (h : Runs Apart delay P [] P') : P' = P := by
  generalize hes : ([] : List (Event α)) = es at h
  cases h with
  | nil => rfl
  | snoc => exact absurd hes.symm (List.append_ne_nil_of_right_ne_nil _ (List.cons_ne_nil _ _))

theorem Runs.of_snoc (h : Runs Apart delay P (es ++ [e]) P'') :
    ∃ P', Runs Apart delay P es P' ∧ Step Apart delay P' e P'' := by
  generalize hes : es ++ [e] = full at h
  cases h with
  | nil => exact absurd hes (List.append_ne_nil_of_right_ne_nil _ (List.cons_ne_nil _ _))
  | snoc hruns hstep =>
    obtain ⟨rfl, he⟩ := List.append_inj' hes rfl
    cases he
    exact ⟨_, hruns, hstep⟩

theorem Runs.split (h : Runs Apart delay P (es ++ es') P'') :
    ∃ P', Runs Apart delay P es P' ∧ Runs Apart delay P' es' P'' := by
  induction es' using List.reverseRecOn generalizing P'' with
  | nil =>
    rw [List.append_nil] at h
    exact ⟨P'', h, .nil⟩
  | append_singleton es' e ih =>
    rw [← List.append_assoc] at h
    obtain ⟨P₁, hruns, hstep⟩ := h.of_snoc
    obtain ⟨P', hleft, hright⟩ := ih hruns
    exact ⟨P', hleft, .snoc hright hstep⟩

theorem Runs.single (h : Runs Apart delay P [e] P') : Step Apart delay P e P' := by
  rw [← List.nil_append [e]] at h
  obtain ⟨P₁, hruns, hstep⟩ := h.of_snoc
  rwa [hruns.of_nil] at hstep

/-! ## Slots that are held -/

/-- **The slots that are held are apart.** -/
theorem Runs.apart (hsymm : ∀ a b, Apart a b → Apart b a) (h : Runs Apart delay P es P')
    (hP : P.held.Pairwise Apart) : P'.held.Pairwise Apart := by
  induction h with
  | nil => exact hP
  | snoc hruns hstep ih =>
    cases hstep with
    | alloc a now hnot hapart hfreed =>
      exact ih.insert fun b hb _ => ⟨hapart b hb, hsymm a b (hapart b hb)⟩
    | free a now hin => exact ih.mono Set.sdiff_subset

/-- The last event about the slot is that it was handed out. -/
def Live (es : List (Event α)) (a : α) : Prop :=
  ∃ t, es.reverse.find? (fun e => decide (e.slot = a)) = some (.alloc a t)

/-! ## Slots that came back -/

theorem Step.other (h : Step Apart delay P e P') (hne : e.slot ≠ a) :
    (a ∈ P'.held ↔ a ∈ P.held) ∧ P'.freedAt a = P.freedAt a := by
  cases h with
  | alloc b now =>
    refine ⟨?_, rfl⟩
    exact Set.mem_insert_iff.trans (or_iff_right fun heq => hne heq.symm)
  | free b now hin =>
    refine ⟨?_, Function.update_of_ne (fun heq => hne heq.symm) _ _⟩
    exact Set.mem_sdiff_singleton.trans (and_iff_left fun heq => hne heq.symm)

/-- **The slots that are held** are known from the events. -/
theorem Runs.held_iff (h : Runs Apart delay .empty es P') : a ∈ P'.held ↔ Live es a := by
  induction h with
  | nil =>
    refine iff_of_false (Set.notMem_empty a) ?_
    rintro ⟨t, ht⟩
    cases ht
  | @snoc es e P' P'' hruns hstep ih =>
    rw [Live, List.reverse_append, List.reverse_singleton, List.singleton_append]
    by_cases hslot : e.slot = a
    · rw [List.find?_cons, decide_eq_true hslot]
      cases hstep with
      | alloc b now =>
        cases hslot
        exact iff_of_true (Set.mem_insert _ _) ⟨now, rfl⟩
      | free b now hb =>
        cases hslot
        refine iff_of_false (fun hin => hin.2 rfl) ?_
        rintro ⟨t, ht⟩
        cases ht
    · rw [List.find?_cons, decide_eq_false hslot, (hstep.other hslot).1, ih, Live]

/-- A slot that is not held any more has come back. -/
theorem Runs.last_free (h : Runs Apart delay P es P') (hin : a ∈ P.held) (hout : a ∉ P'.held) :
    ∃ before after t, es = before ++ .free a t :: after ∧ (∀ e ∈ after, e.slot ≠ a) ∧
      P'.freedAt a = some t := by
  induction h with
  | nil => exact absurd hin hout
  | @snoc es e P' P'' hruns hstep ih =>
    by_cases hslot : e.slot = a
    · cases hstep with
      | alloc b now =>
        cases hslot
        exact absurd (Set.mem_insert _ _) hout
      | free b now hb =>
        cases hslot
        exact ⟨es, [], now, rfl, fun _ h => absurd h List.not_mem_nil,
          Function.update_self _ _ _⟩
    · obtain ⟨hheld, hfreed⟩ := hstep.other hslot
      obtain ⟨before, after, t, rfl, hafter, ht⟩ := ih fun h => hout (hheld.mpr h)
      refine ⟨before, after ++ [e], t, by simp, ?_, hfreed.trans ht⟩
      intro e' he'
      rcases List.mem_append.mp he' with he' | he'
      · exact hafter e' he'
      · rwa [List.mem_singleton.mp he']

/-- **A slot is handed out again** only after it came back, and not before the end of the
quarantine. -/
theorem Runs.reuse {before mid after : List (Event α)} {t₁ t₂ : ℤ}
    (h : Runs Apart delay P (before ++ .alloc a t₁ :: (mid ++ .alloc a t₂ :: after)) P') :
    ∃ mid₁ mid₂ t, mid = mid₁ ++ .free a t :: mid₂ ∧ (∀ e ∈ mid₂, e.slot ≠ a) ∧
      t + delay < t₂ := by
  obtain ⟨P₀, -, h⟩ := h.split
  rw [← List.singleton_append] at h
  obtain ⟨P₁, hfirst, h⟩ := h.split
  obtain ⟨P₂, hmid, h⟩ := h.split
  rw [← List.singleton_append] at h
  obtain ⟨P₃, hsecond, -⟩ := h.split
  cases hfirst.single with
  | alloc =>
    cases hsecond.single with
    | alloc _ _ hout hapart hfreed =>
      obtain ⟨mid₁, mid₂, t, rfl, hmid₂, ht⟩ := hmid.last_free (Set.mem_insert _ _) hout
      exact ⟨mid₁, mid₂, t, rfl, hmid₂, hfreed t ht⟩

end Quarantine
