import Koola.Lib.Json
import Koola.Lib.Overlay

/-!
# `FileUtils.kt`

* `Stoppable`: code that works on the file `koola-config.json` and may be stopped, by an exception
  or by the end of the process.
* `readConfig`, `mergeConfig`, `saveConfig`.
* **`readConfig_eq`**, **`mergeConfig_some`**: reading and merging throw nothing and write nothing;
  `saved_intact`, `saved_torn`: what is on file after a `saveConfig`.
-/

namespace Koola

open CStr Json Torn Overlay

/-- `org.json` with the UTF-8 encoding. A `JSONObject` has no equality of its own: two objects are
equal when they bind the same keys to the same values. -/
abbrev OrgJson := Torn.Format UInt8 (LinkedMap.get : Object → Bytes → Option Value)

inductive Exception
  | fileNotFound
  | io
  | json
  deriving DecidableEq, Repr

inductive Stop
  | thrown (e : Exception)
  | killed
  deriving DecidableEq, Repr

/-- The private directory. `saves` records the calls of `saveConfig` and how they ended. -/
structure Disk where
  file : Option Bytes
  saves : List (Object × Fate)

abbrev Stoppable := EStateM Stop Disk

namespace Stoppable

variable {α β : Type} {m : Stoppable α} {f : α → Stoppable β} {s t : Disk} {a : α} {e : Stop}

theorem bind_ok (h : m s = .ok a t) : (m >>= f) s = f a t := by
  show EStateM.bind m f s = _
  rw [EStateM.bind, h]

theorem bind_error (h : m s = .error e t) : (m >>= f) s = .error e t := by
  show EStateM.bind m f s = _
  rw [EStateM.bind, h]

/-- `runCatching { body }.onFailure { handler }`. Nothing catches the end of the process. -/
def onFailure (body handler : Stoppable α) : Stoppable α := fun s =>
  match body s with
  | .ok a t => .ok a t
  | .error (.thrown _) t => handler t
  | .error .killed t => .error .killed t

theorem onFailure_ok {body handler : Stoppable α} (h : body s = .ok a t) :
    onFailure body handler s = .ok a t := by rw [onFailure, h]

theorem onFailure_thrown {body handler : Stoppable α} {x : Exception}
    (h : body s = .error (.thrown x) t) :
    onFailure body handler s = handler t := by rw [onFailure, h]

theorem onFailure_killed {body handler : Stoppable α} (h : body s = .error .killed t) :
    onFailure body handler s = .error .killed t := by rw [onFailure, h]

end Stoppable

open Stoppable

variable (J : OrgJson)

/-! ## Reading -/

/-- `context.openFileInput("koola-config.json")`, read to the end. -/
def openFileInput : Stoppable Bytes := do
  match (← get).file with
  | some bytes => return bytes
  | none => throw (.thrown .fileNotFound)

/-- `JSONObject(jsonString)`. -/
def jsonObject (jsonString : Bytes) : Stoppable Object :=
  match J.decode jsonString with
  | some config => return config
  | none => throw (.thrown .json)

def readConfig : Stoppable (Option Object) :=
  onFailure
    (do
      let jsonString ← openFileInput
      let config ← jsonObject J jsonString
      return some config)
    (return none)

/-- What can be read from the file. -/
def Disk.readable (s : Disk) : Option Object := s.file.bind J.decode

theorem readConfig_eq (s : Disk) : readConfig J s = .ok (s.readable J) s := by
  unfold readConfig Disk.readable
  cases hfile : s.file with
  | none =>
    have hopen : openFileInput s = .error (.thrown .fileNotFound) s := by
      show (match s.file with | some bytes => _ | none => _ : Stoppable Bytes) s = _
      rw [hfile]
      rfl
    exact onFailure_thrown (bind_error hopen)
  | some bytes =>
    have hopen : openFileInput s = .ok bytes s := by
      show (match s.file with | some bytes => _ | none => _ : Stoppable Bytes) s = _
      rw [hfile]
      rfl
    rw [Option.bind_some]
    cases hdec : J.decode bytes with
    | none =>
      have hjson : jsonObject J bytes s = .error (.thrown .json) s := by
        rw [jsonObject, hdec]
        rfl
      exact onFailure_thrown ((bind_ok hopen).trans (bind_error hjson))
    | some config =>
      have hjson : jsonObject J bytes s = .ok config s := by
        rw [jsonObject, hdec]
        rfl
      exact onFailure_ok ((bind_ok hopen).trans (bind_ok hjson))

/-! ## Merging -/

/-- `config.get(key)`. -/
def getValue (config : Object) (key : Bytes) : Stoppable Value :=
  match config.get key with
  | some v => return v
  | none => throw (.thrown .json)

/-- The loop of `mergeConfig`. -/
def mergeEach (CONFIG : Object) : List Bytes → Object → Stoppable Object
  | [], savedConfig => return savedConfig
  | key :: keys, savedConfig =>
    if savedConfig.has key then mergeEach CONFIG keys savedConfig
    else do
      let value ← getValue CONFIG key
      mergeEach CONFIG keys (savedConfig.put key value)

def mergeConfig (CONFIG : Object) : Stoppable (Option Object) := do
  match ← readConfig J with
  | none => return none
  | some savedConfig =>
    let merged ← mergeEach CONFIG CONFIG.keys savedConfig
    return some merged

theorem mergeEach_ok (CONFIG : Object) (s : Disk) {keys : List Bytes}
    (hkeys : ∀ key ∈ keys, CONFIG.has key) (saved : Object) :
    ∃ merged, mergeEach CONFIG keys saved s = .ok merged s ∧
      ∀ key, merged.get key = (saved.get key).or (if key ∈ keys then CONFIG.get key else none) := by
  induction keys generalizing saved with
  | nil => exact ⟨saved, rfl, fun key => by simp⟩
  | cons key keys ih =>
    have hrest : ∀ k ∈ keys, CONFIG.has k := fun k hk => hkeys k (List.mem_cons_of_mem key hk)
    unfold mergeEach
    by_cases hhas : saved.has key
    · obtain ⟨merged, hm, hget⟩ := ih hrest saved
      refine ⟨merged, by rwa [if_pos hhas], fun k => ?_⟩
      rw [hget]
      obtain ⟨v, hv⟩ := LinkedMap.has_iff.mp hhas
      by_cases hk : k = key <;> simp [hk, hv]
    · obtain ⟨v, hv⟩ := LinkedMap.has_iff.mp (hkeys key List.mem_cons_self)
      have hvalue : getValue CONFIG key s = .ok v s := by
        rw [getValue, hv]
        rfl
      obtain ⟨merged, hm, hget⟩ := ih hrest (saved.put key v)
      refine ⟨merged, by rw [if_neg hhas, bind_ok hvalue, hm], fun k => ?_⟩
      have hnone : saved.get key = none := Option.not_isSome_iff_eq_none.mp hhas
      rw [hget, LinkedMap.get_put]
      by_cases hk : k = key <;> simp [hk, hv, hnone]

variable {J} {s : Disk}

theorem mergeConfig_none (h : s.readable J = none) (CONFIG : Object) :
    mergeConfig J CONFIG s = .ok none s := by
  rw [mergeConfig, bind_ok (readConfig_eq J s), h]
  rfl

/-- **What is read is laid over `CONFIG`.** -/
theorem mergeConfig_some {saved : Object} (h : s.readable J = some saved) (CONFIG : Object) :
    ∃ merged, mergeConfig J CONFIG s = .ok (some merged) s ∧
      merged.get = overlay saved.get CONFIG.get := by
  obtain ⟨merged, hm, hget⟩ :=
    mergeEach_ok CONFIG s (fun key => LinkedMap.has_iff_mem.mpr) saved
  refine ⟨merged, ?_, funext fun key => ?_⟩
  · rw [mergeConfig, bind_ok (readConfig_eq J s), h]
    exact bind_ok hm
  · rw [hget, overlay]
    split_ifs with hkey
    · rfl
    · rw [← LinkedMap.has_iff_mem, LinkedMap.has, Option.not_isSome_iff_eq_none] at hkey
      rw [hkey]

/-! ## Saving -/

variable (J)

/-- The disk after a `saveConfig`. -/
def Disk.saved (s : Disk) (config : Object) (fate : Fate) : Disk where
  file := some (fate.written (J.encode config))
  saves := s.saves ++ [(config, fate)]

/-- `openFileOutput` with `MODE_PRIVATE` cuts the file to nothing, and the bytes are written from
the front; `fate` says how far that gets. -/
def saveConfig (config : Object) (fate : Fate) : Stoppable Unit := do
  modify (·.saved J config fate)
  match fate with
  | .completes => return ()
  | .fails _ => throw (.thrown .io)
  | .killed _ => throw .killed

variable {J} {config : Object} {fate : Fate}

theorem saved_intact (h : fate.Intact (J.encode config)) :
    ∃ c, (s.saved J config fate).readable J = some c ∧ c.get = config.get :=
  J.decode_intact h

theorem saved_torn (h : ¬ fate.Intact (J.encode config)) :
    (s.saved J config fate).readable J = none :=
  J.decode_torn h

end Koola
