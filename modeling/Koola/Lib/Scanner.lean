import Mathlib.Data.List.Basic

/-!
# Scanners

A scanner takes what it wants off the front of a list, and may fail.

* `Stable p`: what follows is not looked at: more of it changes nothing.
* `Reads p text a`: `p` takes exactly `text` off, whatever follows, and gives `a`.
* **`Reads.cut`**: a stable scanner that reads a text fails on every proper prefix of it.
* `items`: a list with separators and a closing mark, with fuel; `items_mono`, `Reads.items`.
-/

namespace Scanner

/-- A scanner of lists of `β`. -/
abbrev Scan (β α : Type) := StateT (List β) Option α

variable {α γ β : Type} {p : Scan β α} {f : α → Scan β γ} {a : α} {c : γ} {s t text u : List β}

theorem bind_eq_some {x : γ × List β} :
    (p >>= f) s = some x ↔ ∃ a t, p s = some (a, t) ∧ f a t = some x := by
  show (p s).bind (fun r => f r.1 r.2) = some x ↔ _
  simp [Option.bind_eq_some_iff]

theorem bind_of_eq_some (h : p s = some (a, t)) : (p >>= f) s = f a t := by
  show (p s).bind (fun r => f r.1 r.2) = _
  rw [h]
  rfl

@[simp] theorem pure_apply (a : α) : (pure a : Scan β α) s = some (a, s) := rfl

/-! ## Stable scanners -/

def Stable (p : Scan β α) : Prop :=
  ∀ ⦃s a r⦄, p s = some (a, r) → ∀ t, p (s ++ t) = some (a, r ++ t)

theorem Stable.pure (a : α) : Stable (pure a : Scan β α) := by
  rintro s b r ⟨⟩ t
  rfl

theorem Stable.failure : Stable (failure : Scan β α) := fun _ _ _ h => by cases h

theorem Stable.bind (hp : Stable p) (hf : ∀ a, Stable (f a)) : Stable (p >>= f) := by
  intro s c r h t
  obtain ⟨a, m, h₁, h₂⟩ := bind_eq_some.mp h
  rw [bind_of_eq_some (hp h₁ t)]
  exact hf a h₂ t

/-! ## Reading a text -/

def Reads (p : Scan β α) (text : List β) (a : α) : Prop := ∀ t, p (text ++ t) = some (a, t)

theorem Reads.pure (a : α) : Reads (pure a : Scan β α) [] a := fun _ => rfl

theorem Reads.bind (hp : Reads p text a) (hf : Reads (f a) u c) :
    Reads (p >>= f) (text ++ u) c := by
  intro t
  rw [List.append_assoc, bind_of_eq_some (hp _)]
  exact hf t

/-- What is left over grows with the text, so that nothing less than the text will do. -/
theorem eq_nil_of_reads_append {s r : List β} {b : α} (hp : Stable p) (h : Reads p (s ++ t) a)
    (hs : p s = some (b, r)) : t = [] := by
  have hall : p (s ++ t) = some (a, []) := by simpa using h []
  have hrest : r ++ t = [] := (Prod.ext_iff.mp (Option.some.inj ((hp hs t).symm.trans hall))).2
  exact (List.append_eq_nil_iff.mp hrest).2

/-- **A text is not read when it is cut short.** -/
theorem Reads.cut (hp : Stable p) (h : Reads p text a) {k : ℕ} (hk : k < text.length) :
    p (text.take k) = none := by
  cases hcut : p (text.take k) with
  | none => rfl
  | some r =>
    rw [← List.take_append_drop k text] at h
    have hnil := eq_nil_of_reads_append hp h hcut
    exact absurd (List.drop_eq_nil_iff.mp hnil) (Nat.not_le.mpr hk)

/-! ## The scanners that look at the list -/

/-- The next element. -/
def one : Scan β β
  | [] => none
  | b :: s => some (b, s)

theorem stable_one : Stable (one : Scan β β) := by
  rintro (_ | ⟨b, s⟩) c r h t <;> cases h
  rfl

theorem reads_one (b : β) : Reads one [b] b := fun _ => rfl

section Marks

variable [DecidableEq β]

/-- The mark `m`. -/
def mark (m : β) : Scan β Unit := do
  let b ← one
  if b = m then return () else failure

theorem stable_mark (m : β) : Stable (mark m) := by
  apply stable_one.bind
  intro b
  split_ifs
  · exact .pure ()
  · exact .failure

theorem reads_mark (m : β) : Reads (mark m) [m] () := by
  apply (reads_one m).bind (u := [])
  rw [if_pos rfl]
  exact .pure ()

/-- Take the mark `m` if it is next; something has to be. -/
def takes (m : β) : Scan β Bool
  | [] => none
  | b :: s => if b = m then some (true, s) else some (false, b :: s)

theorem takes_of_ne {m b : β} (h : b ≠ m) (s : List β) :
    takes m (b :: s) = some (false, b :: s) := if_neg h

theorem stable_takes (m : β) : Stable (takes m) := by
  rintro (_ | ⟨b, s⟩) c r h t
  · cases h
  · by_cases hb : b = m
    · rw [takes, if_pos hb] at h
      cases h
      exact if_pos hb
    · rw [takes_of_ne hb] at h
      cases h
      exact takes_of_ne hb (s ++ t)

theorem reads_takes (m : β) : Reads (takes m) [m] true := fun _ => if_pos rfl

/-- The marks of a word, one after the other. -/
def word : List β → Scan β Unit
  | [] => return ()
  | m :: ms => do
    mark m
    word ms

theorem stable_word (ms : List β) : Stable (word ms) := by
  induction ms with
  | nil => exact .pure ()
  | cons m ms ih => exact (stable_mark m).bind fun _ => ih

theorem reads_word (ms : List β) : Reads (word ms) ms () := by
  induction ms with
  | nil => exact .pure ()
  | cons m ms ih => exact (reads_mark m).bind ih

/-! ## Lists -/

/-- A non-empty list, with `sep` between the items and `close` after the last one; it has not more
than `n` of them. -/
def items (p : Scan β α) (sep close : β) : ℕ → Scan β (List α)
  | 0 => failure
  | n + 1 => do
    let a ← p
    let b ← one
    if b = close then return [a]
    else if b = sep then
      let as ← items p sep close n
      return a :: as
    else failure

variable {sep close : β}

theorem Stable.items (hp : Stable p) (n : ℕ) : Stable (items p sep close n) := by
  induction n with
  | zero => exact .failure
  | succ n ih =>
    refine hp.bind fun a => stable_one.bind fun b => ?_
    split_ifs
    · exact .pure [a]
    · exact ih.bind fun as => .pure (a :: as)
    · exact .failure

/-- More fuel changes nothing. -/
theorem items_mono {n m : ℕ} (hnm : n ≤ m) {x : List α × List β}
    (h : items p sep close n s = some x) : items p sep close m s = some x := by
  induction n generalizing m s x with
  | zero => cases h
  | succ n ih =>
    obtain ⟨m, rfl⟩ : ∃ m', m = m' + 1 := ⟨m - 1, by omega⟩
    obtain ⟨a, s₁, h₁, h⟩ := bind_eq_some.mp h
    obtain ⟨b, s₂, h₂, h⟩ := bind_eq_some.mp h
    refine bind_eq_some.mpr ⟨a, s₁, h₁, bind_eq_some.mpr ⟨b, s₂, h₂, ?_⟩⟩
    split_ifs at h ⊢
    · exact h
    · obtain ⟨as, s₃, h₃, h⟩ := bind_eq_some.mp h
      exact bind_eq_some.mpr ⟨as, s₃, ih (by omega) h₃, h⟩
    · exact h

/-- The text of a list. -/
def itemsText (print : α → List β) (sep close : β) : List α → List β
  | [] => []
  | [a] => print a ++ [close]
  | a :: as => print a ++ sep :: itemsText print sep close as

theorem Reads.items {print : α → List β} (hsep : sep ≠ close) :
    ∀ {as : List α}, as ≠ [] → (∀ a ∈ as, Reads p (print a) a) → ∀ {n : ℕ}, as.length ≤ n →
      Reads (Scanner.items p sep close n) (itemsText print sep close as) as
  | [], hne, _, _, _ => absurd rfl hne
  | [a], _, hp, n + 1, _ => by
    refine (hp a List.mem_cons_self).bind ((reads_one close).bind (u := []) ?_)
    rw [if_pos rfl]
    exact .pure [a]
  | a :: b :: as, _, hp, n + 1, hn => by
    have hrest := Reads.items hsep (List.cons_ne_nil b as)
      (fun c hc => hp c (List.mem_cons_of_mem _ hc)) (Nat.le_of_succ_le_succ hn)
    refine (hp a List.mem_cons_self).bind ((reads_one sep).bind ?_)
    rw [if_neg hsep, if_pos rfl]
    simpa using hrest.bind (f := fun as => Pure.pure (a :: as)) (.pure (a :: b :: as))

omit [DecidableEq β] in
theorem length_le_length_itemsText (print : α → List β) (sep close : β) :
    ∀ as : List α, as.length ≤ (itemsText print sep close as).length
  | [] => Nat.zero_le _
  | [a] => by simp [itemsText]
  | a :: b :: as => by
    have := length_le_length_itemsText print sep close (b :: as)
    simp only [itemsText, List.length_append, List.length_cons] at this ⊢
    omega

end Marks

end Scanner
