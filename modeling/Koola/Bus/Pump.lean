import Koola.Bus.EventBus
import Mathlib.Logic.Relation

/-!
# Ticks on many threads

Each thread calls `my_LocalPlayerTickWorld` again and again. A state of the pump has where each
thread stands; a step is one atomic step of one thread.

* `Pc`: where a thread stands in the call, with the local variables that are alive there.
* `Pump`: the bus, the process lock and the threads; `Step`: the atomic steps.
* `Initial`: a fresh bus on which some listeners are registered; `Reachable`.

An event carries no data. To tell the events apart, each one has here the number of events that
were posted before it.
-/

namespace Koola

/-- Where a thread stands. Inside `process`, `held` are the streams that were swapped out and `todo`
those that the loop has not come to; inside `process` of the stream `p`, `events` are the events
from the current one on, and `i` the callbacks that the current one has been passed to. -/
inductive Pc
  | idle
  | obtained (p : Ptr)
  | posted
  | locked
  | looping (held todo : List Ptr)
  | running (held : List Ptr) (p : Ptr) (todo : List Ptr) (events : List ℕ) (i : ℕ)
  | merged
  | unlocked

/-- A state of the pump. The last three fields record what has happened: the calls of callbacks,
the ticks begun, and the events posted. -/
structure Pump (T K κ : Type) where
  bus : EventBus K ℕ κ
  lock : Option T
  pc : T → Pc
  calls : List ((UInt32 × κ) × ℕ)
  started : ℕ
  posts : ℕ

variable {T K κ : Type} [DecidableEq T] [DecidableEq K]

/-- The threads, with `t` moved on. -/
def Pump.goto (s : Pump T K κ) (t : T) (pc : Pc) : T → Pc := Function.update s.pc t pc

/-- **The atomic steps.** -/
inductive Step (event : K) (s : Pump T K κ) : Pump T K κ → Prop
  | obtain (t : T) (h : s.pc t = .idle) :
      Step event s { s with
        bus := (s.bus.obtainStream event).2
        pc := s.goto t (.obtained (s.bus.obtainStream event).1)
        started := s.started + 1 }
  | append (t : T) (p : Ptr) (h : s.pc t = .obtained p) :
      Step event s { s with
        bus := s.bus.update p ((s.bus.memory p).postpone s.posts)
        pc := s.goto t .posted
        posts := s.posts + 1 }
  | lock (t : T) (h : s.pc t = .posted) (hlock : s.lock = none) :
      Step event s { s with lock := some t, pc := s.goto t .locked }
  | swapOut (t : T) (h : s.pc t = .locked) :
      Step event s { s with
        bus := s.bus.swapOut.2
        pc := s.goto t (.looping s.bus.swapOut.1 s.bus.swapOut.1) }
  | take (t : T) (held : List Ptr) (p : Ptr) (todo : List Ptr)
      (h : s.pc t = .looping held (p :: todo)) :
      Step event s { s with
        bus := s.bus.update p ((s.bus.memory p).takeEvents none).2
        pc := s.goto t (.running held p todo ((s.bus.memory p).takeEvents none).1 0) }
  | call (t : T) (held : List Ptr) (p : Ptr) (todo : List Ptr) (e : ℕ) (events : List ℕ) (i : ℕ)
      (l : UInt32 × κ) (h : s.pc t = .running held p todo (e :: events) i)
      (hl : (s.bus.memory p).listeners[i]? = some l) :
      Step event s { s with
        bus := s.bus.update p { s.bus.memory p with isProcessing := true }
        pc := s.goto t (.running held p todo (e :: events) (i + 1))
        calls := s.calls ++ [(l, e)] }
  | next (t : T) (held : List Ptr) (p : Ptr) (todo : List Ptr) (e : ℕ) (events : List ℕ) (i : ℕ)
      (stream : EventStream K ℕ κ) (h : s.pc t = .running held p todo (e :: events) i)
      (hl : (s.bus.memory p).listeners[i]? = none)
      (hflush : EventStream.flushWaitingOnes { s.bus.memory p with isProcessing := false } =
        .ok ((), stream)) :
      Step event s { s with
        bus := s.bus.update p stream
        pc := s.goto t (.running held p todo events 0) }
  | leave (t : T) (held : List Ptr) (p : Ptr) (todo : List Ptr) (i : ℕ)
      (h : s.pc t = .running held p todo [] i) :
      Step event s { s with pc := s.goto t (.looping held todo) }
  | merge (t : T) (held : List Ptr) (h : s.pc t = .looping held []) :
      Step event s { s with bus := s.bus.mergeBack held, pc := s.goto t .merged }
  | unlock (t : T) (h : s.pc t = .merged) :
      Step event s { s with lock := none, pc := s.goto t .unlocked }
  | orig (t : T) (h : s.pc t = .unlocked) :
      Step event s { s with pc := s.goto t .idle }

/-- Register the listeners, one after the other. -/
def registerAll (event : K) : List (UInt32 × κ) → Throws K (EventBus K ℕ κ) Unit
  | [] => pure ()
  | l :: ls => do
    EventBus.listen l.1 event l.2
    registerAll event ls

/-- The initial states: the listeners `ls` are registered on a fresh bus, and no tick has begun. -/
def Initial (event : K) (ls : List (UInt32 × κ)) (s : Pump T K κ) : Prop :=
  ∃ b, registerAll event ls (.create event) = .ok ((), b) ∧ s = ⟨b, none, fun _ => .idle, [], 0, 0⟩

/-- The states that are reached from there in any number of steps. -/
def Reachable (event : K) (ls : List (UInt32 × κ)) (s : Pump T K κ) : Prop :=
  ∃ s₀, Initial event ls s₀ ∧ Relation.ReflTransGen (Step event) s₀ s

/-- An invariant of the initial states and of the steps holds in every reachable state. -/
theorem Reachable.invariant {event : K} {ls : List (UInt32 × κ)} {I : Pump T K κ → Prop}
    (hinit : ∀ s, Initial event ls s → I s) (hstep : ∀ s s', Step event s s' → I s → I s')
    {s : Pump T K κ} (h : Reachable event ls s) : I s := by
  obtain ⟨s₀, h₀, hs⟩ := h
  induction hs with
  | refl => exact hinit s₀ h₀
  | tail _ hlast ih => exact hstep _ _ hlast ih

/-! ## Where the events are -/

/-- The events in the queue of a stream. -/
def EventBus.queueOf {ε : Type} (b : EventBus K ε κ) (event : K) : List ε :=
  match b.findStreamUnsafe event with
  | some p => (b.memory p).queue
  | none => []

namespace Pc

/-- The thread has taken the process lock and not yet released it. -/
def InProcess : Pc → Prop
  | .locked | .looping .. | .running .. | .merged => True
  | _ => False

/-- The events that the thread holds. -/
def events : Pc → List ℕ
  | .running _ _ _ events _ => events
  | _ => []

/-- The streams that the thread holds. -/
def held : Pc → List Ptr
  | .looping held _ => held
  | .running held _ _ _ _ => held
  | _ => []

end Pc

/-- How often the listener with this ID was called for an event. -/
def Pump.deliveries (s : Pump T K κ) (id : UInt32) (e : ℕ) : ℕ :=
  s.calls.countP fun c => c.1.1 = id ∧ c.2 = e

/-- How often the listener with this ID was called. -/
def Pump.invocations (s : Pump T K κ) (id : UInt32) : ℕ := s.calls.countP fun c => c.1.1 = id

/-- **The pump loses and duplicates nothing.** -/
structure Delivers (event : K) (ls : List (UInt32 × κ)) (s : Pump T K κ) : Prop where
  /-- No two threads are in `process`, so that no two run callbacks. -/
  exclusive : ∀ t u, (s.pc t).InProcess → (s.pc u).InProcess → t = u
  /-- Every posted event is queued and not delivered, or held by the thread in `process` and
  delivered to no listener twice, or delivered exactly once to every listener. -/
  accounted : ∀ e < s.posts,
    (e ∈ s.bus.queueOf event ∧ (∀ t, e ∉ (s.pc t).events) ∧ ∀ id, s.deliveries id e = 0) ∨
    (e ∉ s.bus.queueOf event ∧ (∃ t, e ∈ (s.pc t).events) ∧ ∀ id, s.deliveries id e ≤ 1) ∨
    (e ∉ s.bus.queueOf event ∧ (∀ t, e ∉ (s.pc t).events) ∧ ∀ l ∈ ls, s.deliveries l.1 e = 1)
  /-- While no tick is in flight the queue is empty, and every listener has been called once for
  each tick. -/
  quiescent : (∀ t, s.pc t = .idle) →
    s.bus.queueOf event = [] ∧ ∀ l ∈ ls, s.invocations l.1 = s.started
  /-- At most one stream is ever made, and it is always in the list of the bus or in the hands of
  the thread in `process`. -/
  oneStream : s.bus.next ≤ 1 ∧ ∀ p < s.bus.next, p ∈ s.bus.eventStreams ∨ ∃ t, p ∈ (s.pc t).held

end Koola
