import Koola.Config.MainActivity

/-!
# Settings after a crash

The file is written in place, and what cannot be parsed is replaced by the defaults. So settings
are lost in one way only: by a torn save, one that is interrupted before its last byte.

* `SettingsSurvive`, **`not_settingsSurvive`**: a torn save takes the settings saved before it.
* `SinceTorn`, `Kept`: the saves since the last torn one, and what is kept of them.
* **`start_restores`**: what a start finds.
-/

namespace Koola

open CStr Json Torn Overlay

/-- What was stored by the last save that completed. -/
def lastCompleted (saves : List (Object × Fate)) : Option Object :=
  (saves.reverse.find? (·.2 = .completes)).map Prod.fst

/-- What the last save was to store, if it was interrupted. -/
def interrupted (saves : List (Object × Fate)) : Option Object :=
  match saves.getLast? with
  | some (c, .fails _) | some (c, .killed _) => some c
  | _ => none

variable (J : OrgJson)

/-- **Settings survive a crash while saving**: the next start has the last settings or those that
were being saved. -/
def SettingsSurvive : Prop :=
  ∀ (es : List Event) (d : Defaults) (first second : Fate) (p : Process) (done last : Object),
    lastCompleted (run J es).disk.saves = some done →
    interrupted (run J es).disk.saves = some last →
    (run J (es ++ [.start d first second])).process = some p →
    ∀ key, done.has key ∨ last.has key →
      ∃ v, p.config.get key = some v ∧ (done.get key = some v ∨ last.get key = some v)

/-- One switch is moved and saved; the other is moved, and the process is killed when the file has
been opened. -/
theorem not_settingsSurvive : ¬ ∀ J, SettingsSurvive J := by
  intro h
  let moved := CONFIG.object.put (chars "Test1") (.bool true)
  obtain ⟨v, hv, hsaved⟩ := h compact
    [.start CONFIG .completes .completes, .toggle (chars "Test1") true .completes,
      .toggle (chars "Test2") false (.killed 0)]
    CONFIG .completes .completes ⟨CONFIG, CONFIG.object⟩ moved
    (moved.put (chars "Test2") (.bool false)) (by decide +kernel) (by decide +kernel) rfl
    (chars "Test1") (.inl (by decide +kernel))
  have hdefault : CONFIG.object.get (chars "Test1") = some (.bool false) := by decide +kernel
  have hmoved : moved.get (chars "Test1") = some (.bool true) := by decide +kernel
  have hlast : (moved.put (chars "Test2") (.bool false)).get (chars "Test1") =
      some (.bool true) := by decide +kernel
  rw [hmoved, hlast, or_self] at hsaved
  exact absurd (hdefault.symm.trans (hv.trans hsaved.symm)) (by decide)

/-! ## What is kept -/

/-- The save wrote all its bytes. -/
def Intact (save : Object × Fate) : Prop := save.2.Intact (J.encode save.1)

/-- The save was made, and neither it nor a later one was torn. -/
def SinceTorn (saves : List (Object × Fate)) (save : Object × Fate) : Prop :=
  ∃ before after, saves = before ++ save :: after ∧ ∀ x ∈ save :: after, Intact J x

/-- `m` has all the keys of the saves since the last torn one. -/
def KeysIn (disk : Disk) (m : Object) : Prop :=
  ∀ x, SinceTorn J disk.saves x → ∀ key, x.1.has key → m.has key

/-- **What is kept.** -/
structure Kept (s : Device) : Prop where
  file : s.disk.file = s.disk.saves.getLast?.map fun x => x.2.written (J.encode x.1)
  stored : ∀ c, s.disk.readable J = some c → KeysIn J s.disk c
  live : ∀ p, s.process = some p → KeysIn J s.disk p.config

variable {J} {saves : List (Object × Fate)} {x y : Object × Fate} {disk : Disk} {config : Object}

theorem sinceTorn_append :
    SinceTorn J (saves ++ [y]) x ↔ Intact J y ∧ (x = y ∨ SinceTorn J saves x) := by
  constructor
  · rintro ⟨before, after, h, hall⟩
    rcases List.eq_nil_or_concat after with rfl | ⟨after, z, rfl⟩
    · obtain ⟨-, hxy⟩ := List.append_inj' h rfl
      cases hxy
      exact ⟨hall _ List.mem_cons_self, .inl rfl⟩
    · rw [List.concat_eq_append, ← List.cons_append, ← List.append_assoc] at h
      obtain ⟨hsaves, hyz⟩ := List.append_inj' h rfl
      cases hyz
      refine ⟨hall y (by simp), .inr ⟨before, after, hsaves, fun z hz => hall z ?_⟩⟩
      rw [List.concat_eq_append, ← List.cons_append]
      exact List.mem_append_left _ hz
  · rintro ⟨hy, rfl | ⟨before, after, rfl, hall⟩⟩
    · exact ⟨saves, [], rfl, by simpa using hy⟩
    · refine ⟨before, after ++ [y], by simp, fun z hz => ?_⟩
      rw [← List.cons_append, List.mem_append, List.mem_singleton] at hz
      rcases hz with hz | rfl
      · exact hall z hz
      · exact hy

theorem SinceTorn.intact_getLast (h : SinceTorn J saves x) : ∀ y ∈ saves.getLast?, Intact J y := by
  induction saves using List.reverseRecOn with
  | nil =>
    intro y hy
    cases hy
  | append_singleton saves y _ =>
    intro z hz
    rw [List.getLast?_concat, Option.mem_some_iff] at hz
    cases hz
    exact (sinceTorn_append.mp h).1

theorem KeysIn.saved (h : KeysIn J disk config) (fate : Fate) :
    KeysIn J (disk.saved J config fate) config := by
  intro x hx key hkey
  rcases (sinceTorn_append.mp hx).2 with rfl | hx
  · exact hkey
  · exact h x hx key hkey

theorem KeysIn.mono {m : Object} (h : KeysIn J disk m)
    (hm : ∀ key, m.has key → config.has key) : KeysIn J disk config :=
  fun x hx key hkey => hm key (h x hx key hkey)

variable {s : Device}

theorem Kept.readable_intact (h : Kept J s) (hx : s.disk.saves.getLast? = some x)
    (hi : Intact J x) : ∃ c, s.disk.readable J = some c ∧ c.get = x.1.get := by
  rw [Disk.readable, h.file, hx, Option.map_some, Option.bind_some]
  exact J.decode_intact hi

theorem Kept.readable_torn (h : Kept J s) (ht : ∀ x ∈ s.disk.saves.getLast?, ¬ Intact J x) :
    s.disk.readable J = none := by
  rw [Disk.readable, h.file]
  cases hx : s.disk.saves.getLast? with
  | none => rfl
  | some x => exact J.decode_torn (ht x hx)

/-- Where nothing can be read, no save was made since the last torn one. -/
theorem Kept.not_sinceTorn (h : Kept J s) (hr : s.disk.readable J = none) :
    ¬ SinceTorn J s.disk.saves x := by
  intro hx
  obtain ⟨before, after, hsaves, -⟩ := id hx
  obtain ⟨y, hy⟩ : ∃ y, s.disk.saves.getLast? = some y :=
    Option.ne_none_iff_exists'.mp (by simp [hsaves])
  obtain ⟨c, hc, -⟩ := h.readable_intact hy (hx.intact_getLast y hy)
  cases hr.symm.trans hc

/-- A save keeps what is kept, if `CONFIG` has it. -/
theorem Kept.saved (h : KeysIn J disk config) (fate : Fate) (d : Defaults) (alive : Bool) :
    Kept J ⟨disk.saved J config fate, if alive then some ⟨d, config⟩ else none⟩ where
  file := by simp [Disk.saved]
  stored c hc := by
    by_cases hi : fate.Intact (J.encode config)
    · obtain ⟨c', hc', hget⟩ := saved_intact (s := disk) hi
      obtain rfl : c' = c := Option.some.inj (hc'.symm.trans hc)
      apply (h.saved fate).mono
      intro key hkey
      rwa [LinkedMap.has, hget]
    · cases (saved_torn hi).symm.trans hc
  live p hp := by
    cases alive <;> cases hp
    exact h.saved fate

theorem Kept.created (h : Kept J s) (p : Process) {config : Option Object}
    {disk : Disk} (hc : Created J p.config s.disk config disk) :
    Kept J ⟨disk, config.map (⟨p.defaults, ·⟩)⟩ := by
  have hfirst : s.disk.readable J = none → ∀ {s₁ : Disk},
      (s₁ = s.disk ∨ ∃ k, s₁ = s.disk.saved J p.config (.fails k)) → KeysIn J s₁ p.config := by
    intro hr s₁ h₁
    have hnone : KeysIn J s.disk p.config := fun x hx => absurd hx (h.not_sinceTorn hr)
    rcases h₁ with rfl | ⟨k, rfl⟩
    · exact hnone
    · exact hnone.saved (.fails k)
  cases hc with
  | loaded saved config hr hget =>
    refine ⟨h.file, h.stored, ?_⟩
    rintro q ⟨⟩
    apply (h.stored saved hr).mono
    intro key hkey
    obtain ⟨v, hv⟩ := LinkedMap.has_iff.mp hkey
    exact LinkedMap.has_iff.mpr ⟨v, by rw [hget, overlay, hv, Option.some_or]⟩
  | saved s₁ hr h₁ => exact Kept.saved (hfirst hr h₁) .completes p.defaults true
  | stopped s₁ fate hr h₁ => exact Kept.saved (hfirst hr h₁) fate p.defaults false

theorem Kept.step (h : Kept J s) (e : Event) : Kept J (s.step J e) := by
  have hs := step_effect (J := J) s e
  generalize s.step J e = s' at hs
  have hput : ∀ {p : Process}, s.process = some p →
      ∀ key v, KeysIn J s.disk (p.config.put key v) := by
    intro p hp key v
    apply (h.live p hp).mono
    intro k hk
    rw [LinkedMap.has, LinkedMap.get_put]
    split_ifs
    · rfl
    · exact hk
  cases hs with
  | idle => exact h
  | died =>
    refine ⟨h.file, h.stored, ?_⟩
    intro p hp
    cases hp
  | created p hp config disk hc => exact h.created p hc
  | toggled p hp key state hkey => exact Kept.saved (hput hp key _) .completes p.defaults true
  | toggling p hp key state fate hkey => exact Kept.saved (hput hp key _) fate p.defaults false

theorem run_kept (es : List Event) : Kept J (run J es) := by
  refine run_invariant ⟨rfl, ?_, ?_⟩ (fun s e hs => hs.step e) es
  · intro c hc
    cases hc
  · intro p hp
    cases hp

/-! ## What a start finds -/

/-- **What a start has restored**, after these saves: the last save, with the keys of the earlier
ones, over the defaults; or the defaults, where the last save was torn. -/
structure Restores (J : OrgJson) (saves : List (Object × Fate)) (d : Defaults) (s : Device)
    (p : Process) : Prop where
  kept : ∀ c fate, saves.getLast? = some (c, fate) → Intact J (c, fate) →
    ∀ x, SinceTorn J saves x → ∀ key, x.1.has key →
      ∃ v, c.get key = some v ∧ p.config.get key = some v
  added : ∀ c fate, saves.getLast? = some (c, fate) → Intact J (c, fate) →
    ∀ key, c.get key = none → p.config.get key = d.object.get key
  torn : (∀ x ∈ saves.getLast?, ¬ Intact J x) →
    p.config = d.object ∧ s.disk.file = some (J.encode d.object)

/-- **Every start restores what was saved since the last torn save.** -/
theorem start_restores (J : OrgJson) (es : List Event) (d : Defaults) (first second : Fate)
    (p : Process) (hp : (run J (es ++ [.start d first second])).process = some p) :
    Restores J (run J es).disk.saves d (run J (es ++ [.start d first second])) p := by
  have h := run_kept (J := J) es
  rw [run_append] at hp ⊢
  generalize run J es = s at h hp
  obtain ⟨config, disk, hc, hs⟩ :=
    step_creates (J := J) (s := s) (e := .start d first second) (q := ⟨d, d.object⟩) rfl
  rw [hs] at hp ⊢
  cases hc with
  | loaded saved config hr hget =>
    cases hp
    have hsaved : ∀ {c : Object} {fate : Fate}, s.disk.saves.getLast? = some (c, fate) →
        Intact J (c, fate) → saved.get = c.get := by
      intro c fate hl hi
      obtain ⟨c', hc', hget'⟩ := h.readable_intact hl hi
      obtain rfl : c' = saved := Option.some.inj (hc'.symm.trans hr)
      exact hget'
    refine ⟨?_, ?_, ?_⟩
    · intro c fate hl hi x hx key hkey
      obtain ⟨v, hv⟩ := LinkedMap.has_iff.mp (h.stored saved hr x hx key hkey)
      refine ⟨v, by rw [← hsaved hl hi, hv], ?_⟩
      rw [hget, overlay, hv, Option.some_or]
    · intro c fate hl hi key hnone
      rw [hget, overlay, hsaved hl hi, hnone, Option.none_or]
    · intro ht
      cases (h.readable_torn ht).symm.trans hr
  | saved s₁ hr h₁ =>
    cases hp
    refine ⟨?_, fun _ _ _ _ _ _ => rfl, fun _ => ⟨rfl, rfl⟩⟩
    intro c fate hl hi x hx
    exact absurd hx (h.not_sinceTorn hr)
  | stopped s₁ fate hr h₁ => cases hp

/-- A save is torn, and another one follows. -/
def tornOnce : List Event :=
  [.start CONFIG .completes .completes, .toggle (chars "Test1") true .completes,
    .toggle (chars "Test2") false (.killed 0), .start CONFIG .completes .completes,
    .toggle (chars "Test2") false .completes]

theorem exists_restores : ∃ p,
    Restores compact (run compact tornOnce).disk.saves CONFIG
      (run compact (tornOnce ++ [.start CONFIG .completes .completes])) p := by
  have hp : (run compact (tornOnce ++ [.start CONFIG .completes .completes])).process.isSome := by
    decide +kernel
  obtain ⟨p, hp⟩ := Option.isSome_iff_exists.mp hp
  exact ⟨p, start_restores compact tornOnce CONFIG .completes .completes p hp⟩

end Koola
