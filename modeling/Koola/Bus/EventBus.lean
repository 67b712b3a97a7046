import Mathlib.Data.List.Basic
import Mathlib.Logic.Function.Basic

/-!
# `ProtectedEventStream` and `EventBus`

No exception is caught anywhere in the module: one that is thrown ends the run, so that a function
that may throw is a `StateT` over `Except`.

* `EventStream`: a stream; `addListener`, `removeListener`, `flushWaitingOnes`, `process`.
* `EventBus`: the streams, the index from event types to streams, and the memory they point to;
  `obtainStream`, `postponeEvent`, `listen`, `unlisten`.
* `EventBus.processLimit`, out of its three parts `swapOut`, the loop `processEach` and `mergeBack`.
-/

namespace Koola

/-- The exceptions: `std::runtime_error{"bus is null"}`, and the `std::invalid_argument{"Already
added listener for event: "}` of a second listener with one ID. -/
inductive Exn (K : Type)
  | busIsNull
  | alreadyAdded (event : K)
  deriving DecidableEq, Repr

/-- `std::numeric_limits<std::size_t>::max()`, which no vector is longer than, is `none`. -/
abbrev Limit := Option ℕ

/-- A stream for events of type `K`, with `ε` what one event carries and `κ` the callbacks. The two
vectors `_listenerIDs` and `_callbacks` are always changed together and are one list here; in
`waiting`, no callback means that the listener is to be removed. -/
structure EventStream (K ε κ : Type) where
  event : K
  listeners : List (UInt32 × κ)
  queue : List ε
  isProcessing : Bool
  waiting : List (UInt32 × Option κ)
  deriving DecidableEq

/-- Functions that change a state and may throw. -/
abbrev Throws (K σ α : Type) := StateT σ (Except (Exn K)) α

variable {K ε κ : Type}

namespace Throws

variable {σ α β : Type} {m : Throws K σ α} {f : α → Throws K σ β} {s t : σ} {a : α} {x : Exn K}

theorem bind_ok (h : m s = .ok (a, t)) : (m >>= f) s = f a t := by
  show (m s >>= fun r => f r.1 r.2) = _
  rw [h]
  rfl

theorem bind_error (h : m s = .error x) : (m >>= f) s = .error x := by
  show (m s >>= fun r => f r.1 r.2) = _
  rw [h]
  rfl

@[simp] theorem get_bind (f : σ → Throws K σ β) : (get >>= f) s = f s s := rfl
@[simp] theorem set_bind (f : PUnit → Throws K σ β) : (set t >>= f) s = f ⟨⟩ t := rfl
@[simp] theorem modify_bind (g : σ → σ) (f : PUnit → Throws K σ β) :
    (modify g >>= f) s = f ⟨⟩ (g s) := rfl
@[simp] theorem pure_apply (a : α) : (pure a : Throws K σ α) s = .ok (a, s) := rfl

end Throws

namespace EventStream

/-- A new stream. -/
def create (event : K) : EventStream K ε κ := ⟨event, [], [], false, []⟩

/-- The events of one `process`, and the stream without them. -/
def takeEvents (limit : Limit) (s : EventStream K ε κ) : List ε × EventStream K ε κ :=
  match limit with
  | none => (s.queue, { s with queue := [] })
  | some n => (s.queue.take n, { s with queue := s.queue.drop n })

def postpone (s : EventStream K ε κ) (e : ε) : EventStream K ε κ :=
  { s with queue := s.queue ++ [e] }

def hasListener (s : EventStream K ε κ) (id : UInt32) : Bool := s.listeners.any (·.1 == id)

def rawAddListener (id : UInt32) (callback : κ) : Throws K (EventStream K ε κ) Bool := do
  let s ← get
  if s.hasListener id then throw (.alreadyAdded s.event)
  else
    set { s with listeners := s.listeners ++ [(id, callback)] }
    return true

def rawRemoveListener (id : UInt32) : Throws K (EventStream K ε κ) Bool := do
  let s ← get
  if s.hasListener id then
    set { s with listeners := s.listeners.eraseP (·.1 == id) }
    return true
  else return false

def addListener (id : UInt32) (callback : κ) : Throws K (EventStream K ε κ) Bool := do
  let s ← get
  if s.isProcessing then
    set { s with waiting := s.waiting ++ [(id, some callback)] }
    return true
  else rawAddListener id callback

def removeListener (id : UInt32) : Throws K (EventStream K ε κ) Bool := do
  let s ← get
  if s.isProcessing then
    set { s with waiting := s.waiting ++ [(id, none)] }
    return true
  else rawRemoveListener id

/-- The loop of `flushWaitingOnes`. -/
def flushEach : List (UInt32 × Option κ) → Throws K (EventStream K ε κ) Unit
  | [] => pure ()
  | (id, some callback) :: rest => do
    let _ ← rawAddListener id callback
    flushEach rest
  | (id, none) :: rest => do
    let _ ← rawRemoveListener id
    flushEach rest

def flushWaitingOnes : Throws K (EventStream K ε κ) Unit := do
  let s ← get
  flushEach s.waiting
  modify ({ · with waiting := [] })

/-- The loop of `process` over the events, for callbacks that do not touch the bus; the calls. -/
def deliver : List ε → Throws K (EventStream K ε κ) (List ((UInt32 × κ) × ε))
  | [] => pure []
  | e :: events => do
    modify ({ · with isProcessing := true })
    let s ← get
    modify ({ · with isProcessing := false })
    flushWaitingOnes
    let rest ← deliver events
    return s.listeners.map (·, e) ++ rest

/-- `process(limit)`: the number of events, and the calls. -/
def process (limit : Limit) :
    Throws K (EventStream K ε κ) (ℕ × List ((UInt32 × κ) × ε)) := do
  let s ← get
  let (events, s) := s.takeEvents limit
  set s
  let calls ← deliver events
  return (events.length, calls)

/-! ### Streams that are not processing -/

section Idle

variable {event : K} {ls : List (UInt32 × κ)} {q : List ε} {id : UInt32} {k : κ}

theorem hasListener_iff {s : EventStream K ε κ} :
    s.hasListener id = true ↔ ∃ l ∈ s.listeners, l.1 = id := by
  rw [hasListener, List.any_eq_true]
  exact exists_congr fun l => and_congr_right fun _ => beq_iff_eq

theorem addListener_idle (hid : ∀ l ∈ ls, l.1 ≠ id) :
    addListener id k (⟨event, ls, q, false, []⟩ : EventStream K ε κ) =
      .ok (true, ⟨event, ls ++ [(id, k)], q, false, []⟩) := by
  have h : ¬ ∃ l ∈ ls, l.1 = id := fun ⟨l, hl, he⟩ => hid l hl he
  rw [addListener, Throws.get_bind, if_neg (by simp), rawAddListener, Throws.get_bind,
    if_neg (mt hasListener_iff.mp h)]
  rfl

theorem addListener_again (hid : ∃ l ∈ ls, l.1 = id) :
    addListener id k (⟨event, ls, q, false, []⟩ : EventStream K ε κ) =
      .error (.alreadyAdded event) := by
  rw [addListener, Throws.get_bind, if_neg (by simp), rawAddListener, Throws.get_bind,
    if_pos (hasListener_iff.mpr hid)]
  rfl

theorem removeListener_idle :
    removeListener id (⟨event, ls, q, false, []⟩ : EventStream K ε κ) =
      .ok (ls.any (·.1 == id), ⟨event, ls.eraseP (·.1 == id), q, false, []⟩) := by
  rw [removeListener, Throws.get_bind, if_neg (by simp), rawRemoveListener, Throws.get_bind]
  cases h : ls.any (·.1 == id)
  · have hid : ls.eraseP (·.1 == id) = ls := List.eraseP_of_forall_not (by simpa using h)
    rw [if_neg (by simp [hasListener, h]), hid]
    rfl
  · rw [if_pos (by simp [hasListener, h])]
    rfl

theorem flushWaitingOnes_idle {s : EventStream K ε κ} (h : s.waiting = []) :
    flushWaitingOnes s = .ok ((), s) := by
  have hs : { s with waiting := [] } = s := by rw [← h]
  rw [flushWaitingOnes, Throws.get_bind, h, flushEach]
  exact congrArg (fun t => Except.ok ((), t)) hs

/-- Every event goes to every listener, in order. -/
theorem deliver_idle (events : List ε) :
    deliver events (⟨event, ls, q, false, []⟩ : EventStream K ε κ) =
      .ok (events.flatMap fun e => ls.map (·, e), ⟨event, ls, q, false, []⟩) := by
  induction events with
  | nil => rfl
  | cons e events ih =>
    simp only [deliver, Throws.modify_bind, Throws.get_bind]
    rw [Throws.bind_ok (flushWaitingOnes_idle rfl), Throws.bind_ok ih]
    rfl

theorem process_idle :
    process none (⟨event, ls, q, false, []⟩ : EventStream K ε κ) =
      .ok ((q.length, q.flatMap fun e => ls.map (·, e)), ⟨event, ls, [], false, []⟩) := by
  simp only [process, takeEvents, Throws.get_bind, Throws.set_bind]
  rw [Throws.bind_ok (deliver_idle q)]
  rfl

end Idle

end EventStream

/-! ## The bus -/

/-- A pointer to a stream. -/
abbrev Ptr := ℕ

/-- The bus. `memory` holds the streams, `next` the pointer that the next one gets. -/
structure EventBus (K ε κ : Type) where
  eventStreams : List Ptr
  eventToStream : List (K × Ptr)
  lastID : UInt32
  memory : Ptr → EventStream K ε κ
  next : Ptr

namespace EventBus

variable [DecidableEq K]

def findStreamUnsafe (b : EventBus K ε κ) (eventID : K) : Option Ptr :=
  b.eventToStream.lookup eventID

def newListenerID (b : EventBus K ε κ) : UInt32 × EventBus K ε κ :=
  (b.lastID + 1, { b with lastID := b.lastID + 1 })

/-- `obtainStream`, with `createDefaultEventStream` to make a stream that is not there. -/
def obtainStream (b : EventBus K ε κ) (eventID : K) : Ptr × EventBus K ε κ :=
  match b.findStreamUnsafe eventID with
  | some p => (p, b)
  | none =>
    (b.next,
      { b with
        eventStreams := b.eventStreams ++ [b.next]
        eventToStream := (eventID, b.next) :: b.eventToStream
        memory := Function.update b.memory b.next (.create eventID)
        next := b.next + 1 })

/-- The bus with the stream at `p` changed. -/
def update (b : EventBus K ε κ) (p : Ptr) (s : EventStream K ε κ) : EventBus K ε κ :=
  { b with memory := Function.update b.memory p s }

section Update

variable (b : EventBus K ε κ) (p : Ptr) (s : EventStream K ε κ)

omit [DecidableEq K]

@[simp] theorem memory_update : (b.update p s).memory p = s := Function.update_self ..
@[simp] theorem eventStreams_update : (b.update p s).eventStreams = b.eventStreams := rfl
@[simp] theorem eventToStream_update : (b.update p s).eventToStream = b.eventToStream := rfl
@[simp] theorem next_update : (b.update p s).next = b.next := rfl

theorem update_update (s' : EventStream K ε κ) : (b.update p s).update p s' = b.update p s' := by
  simp [update]

end Update

/-- A function of a stream, applied to the one at `p`. -/
def onStream {α : Type} (p : Ptr) (m : Throws K (EventStream K ε κ) α) :
    Throws K (EventBus K ε κ) α := do
  let b ← get
  let (a, s) ← m (b.memory p)
  set (b.update p s)
  return a

section OnStream

variable {α : Type} {b : EventBus K ε κ} {p : Ptr} {m : Throws K (EventStream K ε κ) α}

omit [DecidableEq K] in
theorem onStream_ok {a : α} {s : EventStream K ε κ} (h : m (b.memory p) = .ok (a, s)) :
    onStream p m b = .ok (a, b.update p s) := by
  rw [onStream, Throws.get_bind, h]
  rfl

omit [DecidableEq K] in
theorem onStream_error {x : Exn K} (h : m (b.memory p) = .error x) :
    onStream p m b = .error x := by
  rw [onStream, Throws.get_bind, h]
  rfl

end OnStream

def postponeEvent (eventID : K) (e : ε) : Throws K (EventBus K ε κ) Bool := do
  let b ← get
  let (p, b) := b.obtainStream eventID
  set (b.update p ((b.memory p).postpone e))
  return true

/-- `listen<Event>(listenerID, callback)`. -/
def listen (id : UInt32) (eventID : K) (callback : κ) : Throws K (EventBus K ε κ) Unit := do
  let b ← get
  let (p, b) := b.obtainStream eventID
  set b
  let _ ← onStream p (EventStream.addListener id callback)

def unlisten (id : UInt32) (eventID : K) : Throws K (EventBus K ε κ) Unit := do
  let b ← get
  match b.findStreamUnsafe eventID with
  | some p => let _ ← onStream p (EventStream.removeListener id)
  | none => pure ()

/-- `ListenerAttorney::isListening`. -/
def isListening (b : EventBus K ε κ) (id : UInt32) (eventID : K) : Bool :=
  match b.findStreamUnsafe eventID with
  | some p => (b.memory p).hasListener id
  | none => false

/-! ## `processLimit` -/

/-- Move the streams from the member to a local variable. -/
def swapOut (b : EventBus K ε κ) : List Ptr × EventBus K ε κ :=
  (b.eventStreams, { b with eventStreams := [] })

/-- Move the streams back, with those that were added meanwhile behind them, and remove the ones
that no event type points to, when the numbers differ. -/
def mergeBack (b : EventBus K ε κ) (held : List Ptr) : EventBus K ε κ :=
  let streams := held ++ b.eventStreams
  { b with
    eventStreams :=
      if streams.length ≠ b.eventToStream.length then
        streams.filter fun p => b.eventToStream.any (·.2 == p)
      else streams }

/-- Has the loop processed `limit` events? -/
def reached (limit : Limit) (processCount : ℕ) : Bool := limit.any (· ≤ processCount)

/-- The loop over the streams. -/
def processEach (limit : Limit) : List Ptr → ℕ →
    Throws K (EventBus K ε κ) (ℕ × List ((UInt32 × κ) × ε))
  | [], processCount => pure (processCount, [])
  | p :: streams, processCount => do
    let (n, calls) ← onStream p (EventStream.process limit)
    if reached limit (processCount + n) then return (processCount + n, calls)
    else
      let (total, rest) ← processEach limit streams (processCount + n)
      return (total, calls ++ rest)

def processLimit (limit : Limit) : Throws K (EventBus K ε κ) (ℕ × List ((UInt32 × κ) × ε)) := do
  let b ← get
  let (held, b) := b.swapOut
  set b
  let r ← processEach limit held 0
  modify (·.mergeBack held)
  return r

omit [DecidableEq K] in
/-- **One `process`** of a bus with one stream: the queue is emptied, every event goes to every
listener, and the stream is back in its place. -/
theorem processLimit_single {b : EventBus K ε κ} {p : Ptr} {event : K} {ls : List (UInt32 × κ)}
    {q : List ε} (hs : b.eventStreams = [p]) (hm : b.eventToStream.length = 1)
    (hp : b.memory p = ⟨event, ls, q, false, []⟩) :
    processLimit none b = .ok ((q.length, q.flatMap fun e => ls.map (·, e)),
      b.update p ⟨event, ls, [], false, []⟩) := by
  have hrun : EventStream.process none (({ b with eventStreams := [] } : EventBus K ε κ).memory p) =
      .ok ((q.length, q.flatMap fun e => ls.map (·, e)), ⟨event, ls, [], false, []⟩) := by
    rw [show ({ b with eventStreams := [] } : EventBus K ε κ).memory p = _ from hp]
    exact EventStream.process_idle
  have hback : (({ b with eventStreams := [] } : EventBus K ε κ).update p
      ⟨event, ls, [], false, []⟩).mergeBack [p] = b.update p ⟨event, ls, [], false, []⟩ := by
    simp [mergeBack, update, hm, hs]
  have heach : processEach none [p] 0 { b with eventStreams := [] } =
      .ok ((q.length, q.flatMap fun e => ls.map (·, e)),
        ({ b with eventStreams := [] } : EventBus K ε κ).update p ⟨event, ls, [], false, []⟩) := by
    rw [processEach, Throws.bind_ok (onStream_ok hrun)]
    simp [processEach, reached]
  simp only [processLimit, Throws.get_bind, swapOut, Throws.set_bind, hs]
  rw [Throws.bind_ok heach, Throws.modify_bind, hback]
  rfl

/-- A bus as it is constructed. -/
def create (event : K) : EventBus K ε κ := ⟨[], [], 0, fun _ => .create event, 0⟩

end EventBus

end Koola
