import Koola.Bus.Settled

/-!
# The FlyToSky toggle

* `Listener`: `dexode::EventBus::Listener`, bound to the global bus or to none.
* `enable`, `disable`, `flytosky`, `myLocalPlayerTickWorld`; `App.load`: the state at load.
* `ToggleLaw`: every toggle returns, and every tick updates as the latest toggle says.
* **`toggleLaw_load_iff`**: from load the law holds only of runs without a toggle.
* **`toggleLaw_bind_iff`**: with a bound listener it would hold of all runs that never enable
  twice in a row.
-/

namespace Koola

inductive EventType
  | gameUpdate
  deriving DecidableEq, Repr

/-- `std::bind(&FlyToSky::onUpdate)`. -/
inductive Callback
  | onUpdate
  deriving DecidableEq, Repr

/-- A listener; its `_bus` is the global bus or null. -/
structure Listener where
  id : UInt32
  bound : Bool
  deriving DecidableEq, Repr

/-- The globals: `bus` and `FlyToSky::_listener`. -/
structure App where
  bus : EventBus EventType Unit Callback
  listener : Listener

abbrev AppM (α : Type) := Throws EventType App α

/-- A function of the bus. -/
def onBus {α : Type} (m : Throws EventType (EventBus EventType Unit Callback) α) : AppM α := do
  let app ← get
  let (a, b) ← m app.bus
  set { app with bus := b }
  return a

namespace Listener

def isListening (event : EventType) : AppM Bool := do
  let app ← get
  if app.listener.bound then return app.bus.isListening app.listener.id event
  else throw .busIsNull

def listen (event : EventType) (callback : Callback) : AppM Unit := do
  let app ← get
  if app.listener.bound then onBus (EventBus.listen app.listener.id event callback)
  else throw .busIsNull

def unlisten (event : EventType) : AppM Unit := do
  let app ← get
  if app.listener.bound then onBus (EventBus.unlisten app.listener.id event)
  else throw .busIsNull

end Listener

/-- `FlyToSky::enable`. The global bus is there from load on, so that its guard `if (!bus)` never
returns; the result of `isListening` decides about a line of the log only. -/
def enable : AppM Unit := do
  let _ ← Listener.isListening .gameUpdate
  Listener.listen .gameUpdate .onUpdate

def disable : AppM Unit := Listener.unlisten .gameUpdate

/-- `Java_cn_peyriat_koola_NativeHook_flytosky`. -/
def flytosky (state : Bool) : AppM Int := do
  if state then enable else disable
  return 0

/-- `my_LocalPlayerTickWorld`; the callbacks that it runs. -/
def myLocalPlayerTickWorld : AppM (List Callback) := do
  let _ ← onBus (EventBus.postponeEvent .gameUpdate ())
  let (_, calls) ← onBus (EventBus.processLimit none)
  return calls.map (·.1.2)

/-- The state once the library is loaded: the listener is default-constructed. -/
def App.load : App := ⟨.create .gameUpdate, ⟨0, false⟩⟩

/-! ## Runs -/

inductive Act
  | flytosky (state : Bool)
  | tick
  deriving DecidableEq, Repr

/-- A run; how often each tick invokes `onUpdate`. -/
def play : List Act → AppM (List ℕ)
  | [] => pure []
  | .flytosky state :: acts => do
    let _ ← flytosky state
    play acts
  | .tick :: acts => do
    let calls ← myLocalPlayerTickWorld
    let rest ← play acts
    return calls.count .onUpdate :: rest

/-- How often each tick should: once if the latest toggle, `on` before the run, passed `true`. -/
def updates (on : Bool) : List Act → List ℕ
  | [] => []
  | .flytosky state :: acts => updates state acts
  | .tick :: acts => (if on then 1 else 0) :: updates on acts

/-- **The toggle law**: no call throws, and every tick updates as the latest toggle says. -/
def ToggleLaw (app : App) (acts : List Act) : Prop :=
  ∃ app', play acts app = .ok (updates false acts, app')

/-! ## The calls -/

section Calls

variable {app : App} {ls : List (UInt32 × Callback)}

theorem onBus_ok {α : Type} {m : Throws EventType (EventBus EventType Unit Callback) α} {a : α}
    {b : EventBus EventType Unit Callback} (app : App) (h : m app.bus = .ok (a, b)) :
    onBus m app = .ok (a, { app with bus := b }) := by
  rw [onBus, Throws.get_bind, h]
  rfl

theorem onBus_error {α : Type} {m : Throws EventType (EventBus EventType Unit Callback) α}
    {x : Exn EventType} (h : m app.bus = .error x) : onBus m app = .error x := by
  rw [onBus, Throws.get_bind, h]
  rfl

/-- A tick calls every listener once. -/
theorem tick_settled (h : Settled .gameUpdate ls app.bus) :
    ∃ b, myLocalPlayerTickWorld app = .ok (ls.map Prod.snd, { app with bus := b }) ∧
      Settled .gameUpdate ls b := by
  obtain ⟨b₁, b₂, hpost, hproc, hset⟩ := h.tick ()
  refine ⟨b₂, ?_, hset⟩
  rw [myLocalPlayerTickWorld, Throws.bind_ok (onBus_ok app hpost),
    Throws.bind_ok (onBus_ok { app with bus := b₁ } hproc)]
  simp [Function.comp_def]

/-- **Without a bus every toggle throws.** -/
theorem flytosky_unbound (hb : app.listener.bound = false) (state : Bool) :
    flytosky state app = .error .busIsNull := by
  have hlisten : Listener.isListening .gameUpdate app = .error .busIsNull := by
    rw [Listener.isListening, Throws.get_bind, if_neg (by simp [hb])]
    rfl
  have hunlisten : Listener.unlisten .gameUpdate app = .error .busIsNull := by
    rw [Listener.unlisten, Throws.get_bind, if_neg (by simp [hb])]
    rfl
  cases state
  · exact Throws.bind_error hunlisten
  · exact Throws.bind_error (Throws.bind_error hlisten)

/-- The listeners while the toggle is on or off. -/
def Listener.registered (l : Listener) (on : Bool) : List (UInt32 × Callback) :=
  if on then [(l.id, .onUpdate)] else []

/-- With a bus a toggle registers the listener or removes it; but it does not register twice. -/
theorem flytosky_bound {on : Bool} (hb : app.listener.bound = true)
    (h : Settled .gameUpdate (app.listener.registered on) app.bus) (state : Bool) :
    if state ∧ on then flytosky state app = .error (.alreadyAdded .gameUpdate)
    else ∃ b, flytosky state app = .ok (0, { app with bus := b }) ∧
      Settled .gameUpdate (app.listener.registered state) b := by
  have hlistening : Listener.isListening .gameUpdate app =
      .ok (app.bus.isListening app.listener.id .gameUpdate, app) := by
    rw [Listener.isListening, Throws.get_bind, if_pos hb]
    rfl
  have hlisten : Listener.listen .gameUpdate .onUpdate app =
      onBus (EventBus.listen app.listener.id .gameUpdate .onUpdate) app := by
    rw [Listener.listen, Throws.get_bind, if_pos hb]
  have henable :
      enable app = onBus (EventBus.listen app.listener.id .gameUpdate .onUpdate) app := by
    rw [enable, Throws.bind_ok hlistening, hlisten]
  have hdisable : disable app = onBus (EventBus.unlisten app.listener.id .gameUpdate) app := by
    rw [disable, Listener.unlisten, Throws.get_bind, if_pos hb]
  cases state with
  | false =>
    obtain ⟨b, hun, hset⟩ := h.unlisten app.listener.id
    rw [if_neg (by simp)]
    refine ⟨b, Throws.bind_ok (hdisable.trans (onBus_ok app hun)), ?_⟩
    cases on <;> simpa [Listener.registered] using hset
  | true =>
    cases on with
    | false =>
      obtain ⟨b, hli, hset⟩ := h.listen app.listener.id .onUpdate (by simp [Listener.registered])
      rw [if_neg (by simp)]
      exact ⟨b, Throws.bind_ok (henable.trans (onBus_ok app hli)), hset⟩
    | true =>
      have hli := h.listen_again app.listener.id .onUpdate (by simp [Listener.registered])
      rw [if_pos (by simp)]
      exact Throws.bind_error (henable.trans (onBus_error hli))

end Calls

/-! ## Runs of the calls -/

section Play

variable {app : App} {acts : List Act}

theorem play_tick (acts : List Act) {ls : List (UInt32 × Callback)} (h : Settled .gameUpdate ls app.bus) :
    ∃ b, Settled .gameUpdate ls b ∧ ∀ us app', play (.tick :: acts) app = .ok (us, app') ↔
      ∃ us', us = (ls.map Prod.snd).count .onUpdate :: us' ∧
        play acts { app with bus := b } = .ok (us', app') := by
  obtain ⟨b, htick, hset⟩ := tick_settled h
  refine ⟨b, hset, fun us app' => ?_⟩
  rw [play, Throws.bind_ok htick]
  cases hplay : play acts { app with bus := b } with
  | error x =>
    rw [Throws.bind_error hplay]
    simp
  | ok r =>
    rw [Throws.bind_ok (a := r.1) (t := r.2) hplay]
    simp only [Throws.pure_apply, Except.ok.injEq, Prod.mk.injEq]
    grind

/-- **Without a bus** the law holds of the runs that have no toggle. -/
theorem play_unbound (hb : app.listener.bound = false) (h : Settled .gameUpdate [] app.bus) :
    (∃ app', play acts app = .ok (updates false acts, app')) ↔ ∀ a ∈ acts, a = .tick := by
  induction acts generalizing app with
  | nil => exact iff_of_true ⟨app, rfl⟩ (by simp)
  | cons a acts ih =>
    cases a with
    | flytosky state =>
      have hthrow : play (.flytosky state :: acts) app = .error .busIsNull :=
        Throws.bind_error (flytosky_unbound hb state)
      simp [hthrow]
    | tick =>
      obtain ⟨b, hset, hplay⟩ := play_tick acts h
      simp only [hplay, updates]
      have hrest := ih (show ({ app with bus := b } : App).listener.bound = false from hb) hset
      simp_all

/-- No toggle passes `true` while the latest one did, `on` before the run. -/
def NeverTwice (on : Bool) : List Act → Prop
  | [] => True
  | .flytosky state :: acts => ¬ (state ∧ on) ∧ NeverTwice state acts
  | .tick :: acts => NeverTwice on acts

/-- **With a bus** the law holds of the runs that never enable twice in a row. -/
theorem play_bound {on : Bool} (hb : app.listener.bound = true)
    (h : Settled .gameUpdate (app.listener.registered on) app.bus) :
    (∃ app', play acts app = .ok (updates on acts, app')) ↔ NeverTwice on acts := by
  induction acts generalizing app on with
  | nil => exact iff_of_true ⟨app, rfl⟩ trivial
  | cons a acts ih =>
    cases a with
    | flytosky state =>
      have hf := flytosky_bound hb h state
      simp only [NeverTwice]
      split_ifs at hf with htwice
      · have hthrow : play (.flytosky state :: acts) app =
            .error (.alreadyAdded .gameUpdate) := Throws.bind_error hf
        refine iff_of_false ?_ fun hc => hc.1 htwice
        simp [hthrow]
      · obtain ⟨b, hok, hset⟩ := hf
        have hrest := ih (show ({ app with bus := b } : App).listener.bound = true from hb) hset
        rw [and_iff_right htwice, ← hrest, play, Throws.bind_ok hok, updates]
    | tick =>
      obtain ⟨b, hset, hplay⟩ := play_tick acts h
      have hcount : ((app.listener.registered on).map Prod.snd).count .onUpdate =
          if on then 1 else 0 := by
        cases on <;> rfl
      have hrest := ih (show ({ app with bus := b } : App).listener.bound = true from hb) hset
      rw [NeverTwice, ← hrest]
      simp [hplay, updates, hcount]

end Play

/-- **From load on, the law holds exactly of the runs without a toggle.** -/
theorem toggleLaw_load_iff (acts : List Act) :
    ToggleLaw .load acts ↔ ∀ a ∈ acts, a = .tick :=
  play_unbound rfl settled_create

/-- The first toggle throws. -/
theorem not_toggleLaw_load : ¬ ToggleLaw .load [.flytosky true] := by
  rintro ⟨app', h⟩
  rw [play, Throws.bind_error (flytosky_unbound rfl true)] at h
  cases h

/-- The state with the listener constructed from the global bus. -/
def App.bind : App :=
  let (id, bus) := App.load.bus.newListenerID
  ⟨bus, ⟨id, true⟩⟩

/-- **With a listener bound to the bus** the law would hold exactly of the runs that never enable
twice in a row. -/
theorem toggleLaw_bind_iff (acts : List Act) :
    ToggleLaw .bind acts ↔ NeverTwice false acts :=
  play_bound rfl (.absent rfl rfl rfl rfl)

end Koola
