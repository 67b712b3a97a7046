import Koola.Config.Survival

/-!
# New versions, and old files

`CONFIG` is both the set of defaults and the settings, and what `onCreate` merges into it is not
written back before the next switch is moved. So the file may be older than the version that runs,
or newer.

* `mapM_ok`: a page of switches throws nothing if no switch does.
* `Upgraded`, **`onCreate_upgrades`**: what `CONFIG` is after every `onCreate`.
-/

namespace Koola

open CStr Json Torn Overlay

/-- **`CONFIG` after an `onCreate`** that began in `q` with this file, and ended in `p`. -/
structure Upgraded (J : OrgJson) (file : Option Bytes) (q : Process) (s : Device) (p : Process) :
    Prop where
  version : p.defaults = q.defaults
  /-- Every default key is bound to a boolean, so that the settings page throws nothing. -/
  boolean : ∀ key, p.defaults.object.has key → ∃ b, p.config.get key = some (.bool b)
  page : ∃ states, settingsPage p.defaults p.config = .ok states
  /-- A complete file has its say on all its keys, and `CONFIG` on the others. -/
  agrees : ∀ c, file = some (J.encode c) → ∀ key v, c.get key = some v →
    p.config.get key = some v
  keeps : ∀ c, file = some (J.encode c) → ∀ key, c.get key = none →
    p.config.get key = q.config.get key
  unwritten : ∀ c, file = some (J.encode c) → s.disk.file = file
  /-- Where there is no complete file, `CONFIG` is as before, and is on file now. -/
  recovered : (∀ c, file ≠ some (J.encode c)) →
    p.config = q.config ∧ s.disk.file = some (J.encode q.config)

theorem mapM_ok {config : Object} {keys : List Bytes}
    (h : ∀ key ∈ keys, ∃ b, getBoolean config key = .ok b) :
    ∃ states, keys.mapM (getBoolean config) = .ok states := by
  induction keys with
  | nil => exact ⟨[], rfl⟩
  | cons key keys ih =>
    obtain ⟨b, hb⟩ := h key List.mem_cons_self
    obtain ⟨states, hs⟩ := ih fun k hk => h k (List.mem_cons_of_mem key hk)
    refine ⟨b :: states, ?_⟩
    rw [List.mapM_cons, hb, hs]
    rfl

theorem getBoolean_ok {config : Object} {key : Bytes} {b : Bool}
    (h : config.get key = some (.bool b)) : getBoolean config key = .ok b := by
  rw [getBoolean, h]
  rfl

variable {J : OrgJson} {s : Device}

/-- A complete file is read. -/
theorem Disk.readable_complete {disk : Disk} {c : Object} (h : disk.file = some (J.encode c)) :
    ∃ c', disk.readable J = some c' ∧ c'.get = c.get := by
  rw [Disk.readable, h, Option.bind_some]
  exact J.decode_encode c

theorem Kept.readable_none (h : Kept J s) (hc : ∀ c, s.disk.file ≠ some (J.encode c)) :
    s.disk.readable J = none := by
  refine h.readable_torn fun x hx hi => hc x.1 ?_
  rw [h.file, Option.mem_def.mp hx, Option.map_some, hi]

/-- **Every `onCreate` brings the settings up to date.** -/
theorem onCreate_upgrades (J : OrgJson) (es : List Event) (e : Event) (q p : Process)
    (hq : (run J es).creates e = some q) (hp : (run J (es ++ [e])).process = some p) :
    Upgraded J (run J es).disk.file q (run J (es ++ [e])) p := by
  have hbool : ∀ key, p.defaults.object.has key → ∃ b, p.config.get key = some (.bool b) := by
    intro key hkey
    have hsession : ((run J (es ++ [e])).settings J).session = some p.session := by
      rw [Device.settings, hp, Option.map_some]
    have hdef : p.session.defaults key ≠ none := Option.isSome_iff_ne_none.mp hkey
    obtain ⟨v, hv, b, rfl⟩ := (run_sound (es ++ [e])).exists_value hsession hdef
    exact ⟨b, hv⟩
  have hpage : ∃ states, settingsPage p.defaults p.config = .ok states := by
    apply mapM_ok
    intro key hkey
    obtain ⟨b, hb⟩ := hbool key (LinkedMap.has_iff_mem.mpr hkey)
    exact ⟨b, getBoolean_ok hb⟩
  have h := run_kept (J := J) es
  rw [run_append] at hp ⊢
  generalize run J es = s at h hp hq
  obtain ⟨config, disk, hc, hs⟩ := step_creates (J := J) hq
  rw [hs] at hp ⊢
  cases hc with
  | loaded saved config hr hget =>
    cases hp
    have hsaved : ∀ {c : Object}, s.disk.file = some (J.encode c) → saved.get = c.get := by
      intro c hfile
      obtain ⟨c', hc', hget'⟩ := Disk.readable_complete hfile
      obtain rfl : c' = saved := Option.some.inj (hc'.symm.trans hr)
      exact hget'
    refine ⟨rfl, hbool, hpage, ?_, ?_, fun _ _ => rfl, fun hne => ?_⟩
    · intro c hfile key v hv
      rw [hget, overlay, hsaved hfile, hv, Option.some_or]
    · intro c hfile key hnone
      rw [hget, overlay, hsaved hfile, hnone, Option.none_or]
    · cases (h.readable_none hne).symm.trans hr
  | saved s₁ hr h₁ =>
    cases hp
    have hne : ∀ c, s.disk.file ≠ some (J.encode c) := by
      intro c hfile
      obtain ⟨c', hc', -⟩ := Disk.readable_complete hfile
      cases hr.symm.trans hc'
    exact ⟨rfl, hbool, hpage, fun c hfile => absurd hfile (hne c),
      fun c hfile => absurd hfile (hne c), fun c hfile => absurd hfile (hne c),
      fun _ => ⟨rfl, rfl⟩⟩
  | stopped s₁ fate hr h₁ => cases hp

/-- A version with one setting, and then this one. -/
def firstVersion : Defaults where
  object := LinkedMap.empty.put (chars "Test1") (.bool true)
  boolean key v h := by
    rw [LinkedMap.get_put] at h
    split_ifs at h
    · exact ⟨true, (Option.some.inj h).symm⟩
    · cases h

theorem exists_upgraded : ∃ p, Upgraded compact
    (run compact [.start firstVersion .completes .completes]).disk.file
    ⟨CONFIG, CONFIG.object⟩
    (run compact [.start firstVersion .completes .completes,
      .start CONFIG .completes .completes]) p := by
  have hp : (run compact [.start firstVersion .completes .completes,
      .start CONFIG .completes .completes]).process.isSome := by decide +kernel
  obtain ⟨p, hp⟩ := Option.isSome_iff_exists.mp hp
  exact ⟨p, onCreate_upgrades compact [.start firstVersion .completes .completes]
    (.start CONFIG .completes .completes) ⟨CONFIG, CONFIG.object⟩ p rfl hp⟩

end Koola
