import Koola.Config.FileUtils

/-!
# `CONFIG`, `MainActivity` and the settings page

* `Defaults`: the initial value of `CONFIG` in some version; `CONFIG` is this version's.
* `onCreate`, `onCheckedChange`, `settingsPage`.
* **`onCreate_created`**: what one `onCreate` can do.
* `Device`, `Event`, `run`: process starts, re-creations, toggles and kills, in any order.
* **`simulates`**: each event is a few steps of the stored settings that `Overlay` is about.
-/

namespace Koola

open CStr Json Torn Overlay Stoppable

/-- The initial value of `CONFIG`, of any version: default keys bound to booleans. -/
structure Defaults where
  object : Object
  boolean : ∀ key v, object.get key = some v → ∃ b, v = .bool b

def CONFIG : Defaults where
  object := (LinkedMap.empty.put (chars "Test1") (.bool false)).put (chars "Test2") (.bool true)
  boolean key v h := by
    rw [LinkedMap.get_put, LinkedMap.get_put] at h
    split_ifs at h
    · exact ⟨true, (Option.some.inj h).symm⟩
    · exact ⟨false, (Option.some.inj h).symm⟩
    · cases h

variable (J : OrgJson)

/-- What `onCreate` does before `setContent`: the new `CONFIG`. `first` and `second` are the fates
of the two calls of `saveConfig`, where they are made. -/
def onCreate (CONFIG : Object) (first second : Fate) : Stoppable Object :=
  onFailure
    (do
      match ← mergeConfig J CONFIG with
      | none =>
        saveConfig J CONFIG first
        return CONFIG
      | some it => return it)
    (do
      saveConfig J CONFIG second
      return CONFIG)

/-- The listener of the switch of a `SettingItem`; the new `CONFIG`. -/
def onCheckedChange (CONFIG : Object) (configName : Bytes) (state : Bool) (fate : Fate) :
    Stoppable Object := do
  let CONFIG := CONFIG.put configName (.bool state)
  saveConfig J CONFIG fate
  return CONFIG

/-- `config.getBoolean(key)`. -/
def getBoolean (config : Object) (key : Bytes) : Except Exception Bool :=
  match (config.get key).bind Value.toBoolean with
  | some b => .ok b
  | none => .error .json

/-- The states of the switches on the settings page, which has one for each default key. -/
def settingsPage (defaults : Defaults) (config : Object) : Except Exception (List Bool) :=
  defaults.object.keys.mapM (getBoolean config)

/-! ## One `onCreate` -/

section OnCreate

/-- The value of a call that returned. -/
def value? {α : Type} : EStateM.Result Stop Disk α → Option α
  | .ok a _ => some a
  | .error _ _ => none

/-- The disk after a call. -/
def diskOf {α : Type} : EStateM.Result Stop Disk α → Disk
  | .ok _ s => s
  | .error _ s => s

/-- The outcomes of `onCreate`: `CONFIG` afterwards, if it was completed, and the disk. Where the
file cannot be read `CONFIG` is saved, and saved again if the first save fails. -/
inductive Created (CONFIG : Object) (s : Disk) : Option Object → Disk → Prop
  | loaded (saved config : Object) (h : s.readable J = some saved)
      (hget : config.get = overlay saved.get CONFIG.get) : Created CONFIG s (some config) s
  | saved (s₁ : Disk) (h : s.readable J = none)
      (h₁ : s₁ = s ∨ ∃ k, s₁ = s.saved J CONFIG (.fails k)) :
      Created CONFIG s (some CONFIG) (s₁.saved J CONFIG .completes)
  | stopped (s₁ : Disk) (fate : Fate) (h : s.readable J = none)
      (h₁ : s₁ = s ∨ ∃ k, s₁ = s.saved J CONFIG (.fails k)) :
      Created CONFIG s none (s₁.saved J CONFIG fate)

variable {J} (config : Object) {s s₁ : Disk}

/-- A save that is the last thing `onCreate` does. -/
theorem created_save (h : s.readable J = none)
    (h₁ : s₁ = s ∨ ∃ k, s₁ = s.saved J config (.fails k)) (fate : Fate) :
    Created J config s (value? ((do saveConfig J config fate; return config : Stoppable Object) s₁))
      (diskOf ((do saveConfig J config fate; return config : Stoppable Object) s₁)) := by
  cases fate with
  | completes => exact .saved s₁ h h₁
  | fails k | killed k => exact .stopped s₁ _ h h₁

theorem onCreate_created (first second : Fate) (s : Disk) :
    Created J config s (value? (onCreate J config first second s))
      (diskOf (onCreate J config first second s)) := by
  cases h : s.readable J with
  | some saved =>
    obtain ⟨merged, hm, hget⟩ := mergeConfig_some h config
    have hrun : onCreate J config first second s = .ok merged s := onFailure_ok (bind_ok hm)
    rw [hrun]
    exact .loaded saved merged h hget
  | none =>
    have hm := mergeConfig_none h config
    have hfirst := created_save config h (.inl rfl) first
    cases first with
    | completes =>
      have hrun : onCreate J config .completes second s =
          .ok config (s.saved J config .completes) := onFailure_ok (bind_ok hm)
      rw [hrun]
      exact hfirst
    | killed k =>
      have hrun : onCreate J config (.killed k) second s =
          .error .killed (s.saved J config (.killed k)) := onFailure_killed (bind_ok hm)
      rw [hrun]
      exact hfirst
    | fails k =>
      have hrun : onCreate J config (.fails k) second s =
          (do saveConfig J config second; return config : Stoppable Object)
            (s.saved J config (.fails k)) := onFailure_thrown (bind_ok hm)
      rw [hrun]
      exact created_save config h (.inr ⟨k, rfl⟩) second

end OnCreate

/-! ## Runs -/

/-- A running process: its version, and `CONFIG`. -/
structure Process where
  defaults : Defaults
  config : Object

structure Device where
  disk : Disk
  process : Option Process

inductive Event
  /-- A process starts, with `CONFIG` as its version has it, and creates the activity. -/
  | start (defaults : Defaults) (first second : Fate)
  /-- The activity is created again. -/
  | recreate (first second : Fate)
  /-- A switch of the settings page is moved. -/
  | toggle (key : Bytes) (state : Bool) (fate : Fate)
  | kill

/-- The device after a call from a process of this version. An exception that nobody catches ends
the process. -/
def Device.after (defaults : Defaults) (r : EStateM.Result Stop Disk Object) : Device :=
  ⟨diskOf r, (value? r).map (⟨defaults, ·⟩)⟩

/-- Without a process nothing is created again, and there is a switch for each default key only. -/
def Device.step (s : Device) : Event → Device
  | .start defaults first second =>
    .after defaults (onCreate J defaults.object first second s.disk)
  | .recreate first second =>
    match s.process with
    | none => s
    | some p => .after p.defaults (onCreate J p.config first second s.disk)
  | .toggle key state fate =>
    match s.process with
    | none => s
    | some p =>
      if p.defaults.object.has key then
        .after p.defaults (onCheckedChange J p.config key state fate s.disk)
      else s
  | .kill => { s with process := none }

/-- At first there is no file. -/
def Device.init : Device := ⟨⟨none, []⟩, none⟩

def run (es : List Event) : Device := es.foldl (Device.step J) .init

/-- The process as an event finds it that calls `onCreate`. -/
def Device.creates (s : Device) : Event → Option Process
  | .start defaults _ _ => some ⟨defaults, defaults.object⟩
  | .recreate _ _ => s.process
  | _ => none

variable {J}

theorem run_append (es : List Event) (e : Event) : run J (es ++ [e]) = (run J es).step J e := by
  rw [run, List.foldl_append]
  rfl

/-- An invariant of the steps holds after every run. -/
theorem run_invariant {I : Device → Prop} (hinit : I .init)
    (hstep : ∀ s e, I s → I (s.step J e)) (es : List Event) : I (run J es) := by
  induction es using List.reverseRecOn with
  | nil => exact hinit
  | append_singleton es e ih =>
    rw [run_append]
    exact hstep _ e ih

/-- **What an event can do.** -/
inductive Effect (J : OrgJson) (s : Device) : Device → Prop
  | idle : Effect J s s
  | died : Effect J s { s with process := none }
  | created (p : Process) (hp : s.process = some p ∨ p.config = p.defaults.object)
      (config : Option Object) (disk : Disk) (h : Created J p.config s.disk config disk) :
      Effect J s ⟨disk, config.map (⟨p.defaults, ·⟩)⟩
  | toggled (p : Process) (hp : s.process = some p) (key : Bytes) (state : Bool)
      (hkey : p.defaults.object.has key) :
      Effect J s
        ⟨s.disk.saved J (p.config.put key (.bool state)) .completes,
          some ⟨p.defaults, p.config.put key (.bool state)⟩⟩
  | toggling (p : Process) (hp : s.process = some p) (key : Bytes) (state : Bool) (fate : Fate)
      (hkey : p.defaults.object.has key) :
      Effect J s ⟨s.disk.saved J (p.config.put key (.bool state)) fate, none⟩

theorem step_effect (s : Device) (e : Event) : Effect J s (s.step J e) := by
  cases e with
  | start d first second =>
    exact .created ⟨d, d.object⟩ (.inr rfl) _ _ (onCreate_created d.object first second s.disk)
  | recreate first second =>
    cases hp : s.process with
    | none =>
      simp only [Device.step, hp]
      exact .idle
    | some p =>
      simp only [Device.step, hp]
      exact .created p (.inl hp) _ _ (onCreate_created p.config first second s.disk)
  | toggle key state fate =>
    cases hp : s.process with
    | none =>
      simp only [Device.step, hp]
      exact .idle
    | some p =>
      simp only [Device.step, hp]
      split_ifs with hkey
      · cases fate with
        | completes => exact .toggled p hp key state hkey
        | fails k | killed k => exact .toggling p hp key state _ hkey
      · exact .idle
  | kill => exact .died

/-- An `onCreate` does what `onCreate` does. -/
theorem step_creates {s : Device} {e : Event} {q : Process} (hq : s.creates e = some q) :
    ∃ config disk, Created J q.config s.disk config disk ∧
      s.step J e = ⟨disk, config.map (⟨q.defaults, ·⟩)⟩ := by
  cases e with
  | start d first second =>
    cases hq
    exact ⟨_, _, onCreate_created d.object first second s.disk, rfl⟩
  | recreate first second =>
    have hp : s.process = some q := hq
    refine ⟨_, _, onCreate_created q.config first second s.disk, ?_⟩
    simp only [Device.step, hp]
    rfl
  | toggle key state fate => cases hq
  | kill => cases hq

/-! ## The stored settings that this is -/

/-- What any version may have as defaults. -/
def versions : Set (Bytes → Option Value) := { d | ∃ defaults : Defaults, d = defaults.object.get }

def IsBool (v : Value) : Prop := ∃ b, v = .bool b

def Process.session (p : Process) : Session Bytes Value := ⟨p.defaults.object.get, p.config.get⟩

variable (J) in
def Disk.stored (s : Disk) : Option (Bytes → Option Value) := (s.readable J).map LinkedMap.get

variable (J) in
def Device.settings (s : Device) : Overlay.State Bytes Value :=
  ⟨s.disk.stored J, s.process.map Process.session⟩

section Simulation

open Relation

/-- A `saveConfig` stores `CONFIG`, or tears what is stored. -/
theorem saved_steps (p : Process) (disk : Disk) (fate : Fate)
    (st : Option (Bytes → Option Value)) :
    Overlay.Step versions IsBool ⟨st, some p.session⟩
      ⟨(disk.saved J p.config fate).stored J, some p.session⟩ := by
  by_cases h : fate.Intact (J.encode p.config)
  · obtain ⟨c, hc, hget⟩ := saved_intact (s := disk) h
    rw [Disk.stored, hc, Option.map_some, hget]
    exact .store p.session rfl
  · rw [Disk.stored, saved_torn h, Option.map_none]
    exact .tear p.session rfl

theorem created_steps (p : Process) {disk disk' : Disk} {config : Option Object}
    (h : Created J p.config disk config disk') :
    ReflTransGen (Overlay.Step versions IsBool) ⟨disk.stored J, some p.session⟩
      ⟨disk'.stored J, (config.map (Process.mk p.defaults)).map Process.session⟩ := by
  have hfirst : ∀ {s₁ : Disk}, (s₁ = disk ∨ ∃ k, s₁ = disk.saved J p.config (.fails k)) →
      ReflTransGen (Overlay.Step versions IsBool) ⟨disk.stored J, some p.session⟩
        ⟨s₁.stored J, some p.session⟩ := by
    rintro s₁ (rfl | ⟨k, rfl⟩)
    · exact .refl
    · exact .single (saved_steps p disk (.fails k) _)
  cases h with
  | loaded saved config hr hget =>
    have hst : disk.stored J = some saved.get := by rw [Disk.stored, hr, Option.map_some]
    have hload := Overlay.Step.load (D := versions) (P := IsBool)
      (s := ⟨disk.stored J, some p.session⟩) saved.get p.session hst rfl
    have hsession : Process.session ⟨p.defaults, config⟩ =
        { p.session with settings := overlay saved.get p.session.settings } := by
      rw [Process.session, hget]
      rfl
    rw [Option.map_some, Option.map_some, hsession]
    exact .single hload
  | saved s₁ hr h₁ => exact (hfirst h₁).tail (saved_steps p s₁ .completes _)
  | stopped s₁ fate hr h₁ => exact ((hfirst h₁).tail (saved_steps p s₁ fate _)).tail .die

theorem update_get (config : Object) (key : Bytes) (v : Value) :
    Function.update config.get key (some v) = (config.put key v).get := by
  funext k
  rw [LinkedMap.get_put]
  exact Function.update_apply config.get key (some v) k

/-- A switch that is moved changes `CONFIG`, and what is stored. -/
theorem toggle_steps (p : Process) (key : Bytes) (state : Bool) (disk : Disk) (fate : Fate) :
    ReflTransGen (Overlay.Step versions IsBool) ⟨disk.stored J, some p.session⟩
      ⟨(disk.saved J (p.config.put key (.bool state)) fate).stored J,
        some (Process.session ⟨p.defaults, p.config.put key (.bool state)⟩)⟩ := by
  have hchange := Overlay.Step.change (D := versions) (P := IsBool)
    (s := ⟨disk.stored J, some p.session⟩) p.session key (.bool state) rfl ⟨state, rfl⟩
  have hsession : { p.session with
      settings := Function.update p.session.settings key (some (.bool state)) } =
      Process.session ⟨p.defaults, p.config.put key (.bool state)⟩ := by
    show Session.mk _ (Function.update p.config.get key (some (.bool state))) = _
    rw [update_get]
    rfl
  rw [hsession] at hchange
  exact (ReflTransGen.single hchange).tail (saved_steps ⟨p.defaults, _⟩ disk fate _)

/-- **The device simulates stored settings laid over the defaults.** -/
theorem simulates (s : Device) (e : Event) :
    ReflTransGen (Overlay.Step versions IsBool) (s.settings J) ((s.step J e).settings J) := by
  have h := step_effect (J := J) s e
  generalize s.step J e = s' at h
  have hsettings : ∀ {p : Process}, s.process = some p →
      s.settings J = ⟨s.disk.stored J, some p.session⟩ := by
    intro p hp
    rw [Device.settings, hp, Option.map_some]
  cases h with
  | idle => exact .refl
  | died => exact .single .die
  | created p hp config disk h =>
    rcases hp with hp | hp
    · rw [hsettings hp]
      exact created_steps p h
    · have hlaunch := Overlay.Step.launch (D := versions) (P := IsBool) (s := s.settings J)
        p.defaults.object.get ⟨p.defaults, rfl⟩
      have hsession : p.session = ⟨p.defaults.object.get, p.defaults.object.get⟩ := by
        rw [Process.session, hp]
      rw [← hsession] at hlaunch
      exact (ReflTransGen.single hlaunch).trans (created_steps p h)
  | toggled p hp key state hkey =>
    rw [hsettings hp]
    exact toggle_steps p key state s.disk .completes
  | toggling p hp key state fate hkey =>
    rw [hsettings hp]
    exact (toggle_steps p key state s.disk fate).tail .die

/-- **After every run the settings are sound**: they are booleans, and every default key of the
running version has one. -/
theorem run_sound (es : List Event) : Sound IsBool ((run J es).settings J) := by
  refine run_invariant (I := fun s => Sound IsBool (s.settings J)) .init (fun s e hs => ?_) es
  refine hs.steps ?_ (simulates s e)
  rintro d ⟨defaults, rfl⟩ key v hv
  exact defaults.boolean key v hv

end Simulation

end Koola
