import Koola.Bus.Pump
import Koola.Bus.FlyToSky
import Koola.Lib.Relay
import Mathlib.Data.Finset.Card

/-!
# The tick pump loses and duplicates nothing

* `Mutex`: the thread in `process` is the one that has the lock; `Pump.work`: where it stands.
* `Arranged`: there is at most one stream, in the list or in the hands of the thread in `process`.
* `Pump.relay`: the pump as a relay. **`Step.relay`**: each atomic step is a step of the relay or
  leaves it alone.
* `Served`: a queue that is not empty has a thread that will come to it; `Counted`: the ticks begun.
* **`reachable_delivers`**: `Delivers` holds in every reachable state.
-/

namespace Koola

variable {T K κ : Type} [DecidableEq T] [DecidableEq K] {event : K} {ls : List (UInt32 × κ)}
  {s s' : Pump T K κ}

/-! ## The process lock -/

/-- The thread in `process` is the one that has the lock. -/
def Mutex (s : Pump T K κ) : Prop := ∀ t, (s.pc t).InProcess ↔ s.lock = some t

/-- Where the thread that has the lock stands. -/
def workOf (lock : Option T) (pc : T → Pc) : Pc := lock.elim .idle pc

def Pump.work (s : Pump T K κ) : Pc := workOf s.lock s.pc

omit [DecidableEq K] in
theorem Mutex.goto (h : Mutex s) {t : T} {pc : Pc} (ht : pc.InProcess ↔ (s.pc t).InProcess) :
    ∀ u, (s.goto t pc u).InProcess ↔ s.lock = some u := by
  intro u
  rw [← h u, Pump.goto]
  by_cases hu : u = t
  · rw [hu, Function.update_self, ht]
  · rw [Function.update_of_ne hu]

theorem Step.mutex (hs : Step event s s') (h : Mutex s) : Mutex s' := by
  cases hs with
  | obtain t ht | append t p ht | swapOut t ht | take t held p todo ht
  | call t held p todo e events i l ht hl | next t held p todo e events i stream ht hl hflush
  | leave t held p todo i ht | merge t held ht | orig t ht =>
    exact h.goto (by rw [ht]; exact Iff.rfl)
  | lock t ht hlock =>
    intro u
    by_cases hu : u = t
    · simp [Pump.goto, hu, Pc.InProcess]
    · have hno : ¬ (s.pc u).InProcess := by simp [h u, hlock]
      simp [Pump.goto, hu, hno, Ne.symm hu]
  | unlock t ht =>
    have hlock : s.lock = some t := (h t).mp (by rw [ht]; trivial)
    intro u
    by_cases hu : u = t
    · simp [Pump.goto, hu, Pc.InProcess]
    · have hno : ¬ (s.pc u).InProcess := by simp [h u, hlock, Ne.symm hu]
      simp [Pump.goto, hu, hno]

omit [DecidableEq K] in
/-- A thread that is not in `process` does not move the one that is. -/
theorem Mutex.work_outside (h : Mutex s) {t : T} (ht : ¬ (s.pc t).InProcess) (pc : Pc) :
    workOf s.lock (s.goto t pc) = s.work := by
  rw [h t] at ht
  unfold Pump.work workOf
  cases hl : s.lock with
  | none => rfl
  | some u =>
    have hu : u ≠ t := fun hu => ht (by rw [hl, hu])
    simp [Pump.goto, hu]

omit [DecidableEq K] in
/-- The thread in `process` moves itself. -/
theorem Mutex.work_inside (h : Mutex s) {t : T} (ht : (s.pc t).InProcess) :
    s.work = s.pc t ∧ ∀ pc, workOf s.lock (s.goto t pc) = pc := by
  have hl := (h t).mp ht
  refine ⟨?_, fun pc => ?_⟩
  · simp [Pump.work, workOf, hl]
  · simp [workOf, hl, Pump.goto]

/-! ## The stream -/

namespace Pc

/-- With one stream at most, the loop over the streams has not begun or is at its end. -/
def Tidy : Pc → Prop
  | .looping held todo => todo = held ∨ todo = []
  | .running held p todo _ _ => held = [p] ∧ todo = []
  | _ => True

/-- The number of callbacks that the current event has been passed to. -/
def index : Pc → ℕ
  | .running _ _ _ (_ :: _) i => i
  | _ => 0

/-- The thread will still take the events that are in the queue now. -/
def Coming : Pc → Prop
  | .posted | .locked => True
  | .looping _ todo => todo ≠ []
  | _ => False

end Pc

/-- Where the stream is, `w` being where the thread in `process` stands. -/
inductive Arranged (event : K) (ls : List (UInt32 × κ)) (b : EventBus K ℕ κ) (w : Pc) : Prop
  | absent (hls : ls = []) (hs : b.eventStreams = []) (hm : b.eventToStream = []) (hn : b.next = 0)
      (hw : w.held = [])
  | present (hs : w.held ++ b.eventStreams = [0]) (hm : b.eventToStream = [(event, 0)])
      (hn : b.next = 1) (hl : (b.memory 0).listeners = ls) (hwait : (b.memory 0).waiting = [])

/-- **The invariant of the stream.** -/
structure Placed (event : K) (ls : List (UInt32 × κ)) (s : Pump T K κ) : Prop where
  mutex : Mutex s
  arranged : Arranged event ls s.bus s.work
  tidy : s.work.Tidy
  obtained : ∀ t p, s.pc t = .obtained p → p = 0 ∧ s.bus.eventToStream = [(event, 0)]

theorem queueOf_absent {b : EventBus K ℕ κ} (hm : b.eventToStream = []) :
    b.queueOf event = [] := by
  rw [EventBus.queueOf, findStreamUnsafe_absent hm]

theorem queueOf_present {b : EventBus K ℕ κ} (hm : b.eventToStream = [(event, 0)]) :
    b.queueOf event = (b.memory 0).queue := by
  rw [EventBus.queueOf, findStreamUnsafe_present hm]

theorem queueOf_update {b : EventBus K ℕ κ} (hm : b.eventToStream = [(event, 0)])
    {stream : EventStream K ℕ κ} : (b.update 0 stream).queueOf event = stream.queue := by
  rw [queueOf_present (by simpa using hm), EventBus.memory_update]

omit [DecidableEq K] in
/-- The arrangement depends only on the streams that are held. -/
theorem Arranged.of_held {b : EventBus K ℕ κ} {w w' : Pc} (h : Arranged event ls b w)
    (hw : w'.held = w.held) : Arranged event ls b w' := by
  cases h with
  | absent hls hs hm hn hnil => exact .absent hls hs hm hn (hw.trans hnil)
  | present hs hm hn hl hwait => exact .present (hw ▸ hs) hm hn hl hwait

/-- Obtaining the stream makes it if it is not there. -/
theorem Arranged.obtain {b : EventBus K ℕ κ} {w : Pc} (h : Arranged event ls b w) :
    ∃ b', b.obtainStream event = (0, b') ∧ Arranged event ls b' w ∧
      b'.eventToStream = [(event, 0)] ∧ b'.queueOf event = b.queueOf event := by
  cases h with
  | absent hls hs hm hn hw =>
    refine ⟨_, by rw [EventBus.obtainStream, findStreamUnsafe_absent hm, hn], ?_, ?_, ?_⟩
    · exact .present (by simp [hw, hs]) (by simp [hm]) rfl (by simp [hls, EventStream.create])
        (by simp [EventStream.create])
    · simp [hm]
    · rw [queueOf_absent hm, queueOf_present (by simp [hm])]
      simp [EventStream.create]
  | present hs hm hn hl hwait =>
    exact ⟨b, by rw [EventBus.obtainStream, findStreamUnsafe_present hm], .present hs hm hn hl hwait,
      hm, rfl⟩

section Moves

variable {b : EventBus K ℕ κ} {calls : List ((UInt32 × κ) × ℕ)} {started posts : ℕ} {t : T}
  {pc : Pc}

omit [DecidableEq K] in
/-- A thread that is not in `process` moves. -/
theorem Placed.outside (h : Placed event ls s) (ht : ¬ (s.pc t).InProcess) (hpc : ¬ pc.InProcess)
    (hb : Arranged event ls b s.work)
    (hm : s.bus.eventToStream = [(event, 0)] → b.eventToStream = [(event, 0)])
    (ho : ∀ p, pc = .obtained p → p = 0 ∧ b.eventToStream = [(event, 0)]) :
    Placed event ls ⟨b, s.lock, s.goto t pc, calls, started, posts⟩ := by
  have hw := h.mutex.work_outside ht pc
  refine ⟨h.mutex.goto (by simp [ht, hpc]), ?_, ?_, fun u p hu => ?_⟩
  · show Arranged event ls b (workOf s.lock (s.goto t pc))
    rwa [hw]
  · show (workOf s.lock (s.goto t pc)).Tidy
    rw [hw]
    exact h.tidy
  · by_cases hut : u = t
    · simp only [Pump.goto, hut, Function.update_self] at hu
      exact ho p hu
    · simp only [Pump.goto, Function.update_of_ne hut] at hu
      exact (h.obtained u p hu).imp_right hm

omit [DecidableEq K] in
/-- The thread in `process` moves. -/
theorem Placed.inside (h : Placed event ls s) (ht : (s.pc t).InProcess) (hpc : pc.InProcess)
    (hb : Arranged event ls b pc) (hm : b.eventToStream = s.bus.eventToStream) (htidy : pc.Tidy) :
    Placed event ls ⟨b, s.lock, s.goto t pc, calls, started, posts⟩ := by
  have hw := (h.mutex.work_inside ht).2 pc
  refine ⟨h.mutex.goto (by simp [ht, hpc]), ?_, ?_, fun u p hu => ?_⟩
  · show Arranged event ls b (workOf s.lock (s.goto t pc))
    rwa [hw]
  · show (workOf s.lock (s.goto t pc)).Tidy
    rwa [hw]
  · rw [hm]
    by_cases hut : u = t
    · simp only [Pump.goto, hut, Function.update_self] at hu
      rw [hu] at hpc
      exact hpc.elim
    · simp only [Pump.goto, Function.update_of_ne hut] at hu
      exact h.obtained u p hu

omit [DecidableEq K] in
/-- The thread in `process` that has an event to deliver holds the one stream. -/
theorem Placed.running (h : Placed event ls s) {held todo : List Ptr} {p : Ptr} {events : List ℕ}
    {i : ℕ} (ht : s.pc t = .running held p todo events i) :
    held = [0] ∧ p = 0 ∧ todo = [] ∧ s.bus.eventStreams = [] ∧
      s.bus.eventToStream = [(event, 0)] ∧ s.bus.next = 1 ∧
      (s.bus.memory 0).listeners = ls ∧ (s.bus.memory 0).waiting = [] := by
  have hw := (h.mutex.work_inside (t := t) (by rw [ht]; trivial)).1.trans ht
  obtain ⟨hheld, htodo⟩ : held = [p] ∧ todo = [] := by
    have := h.tidy
    rwa [hw] at this
  have harr := h.arranged
  rw [hw, hheld] at harr
  cases harr with
  | absent hls hs hm hn hw => exact absurd hw (List.cons_ne_nil _ _)
  | present hs hm hn hl hwait =>
    obtain ⟨rfl, hnil⟩ : p = 0 ∧ s.bus.eventStreams = [] := by simpa [Pc.held] using hs
    exact ⟨hheld, rfl, htodo, hnil, hm, hn, hl, hwait⟩

omit [DecidableEq K] in
/-- The thread in `process` that comes to a stream finds the one that there is. -/
theorem Placed.looping (h : Placed event ls s) {held todo : List Ptr} {p : Ptr}
    (ht : s.pc t = .looping held (p :: todo)) :
    held = [0] ∧ p = 0 ∧ todo = [] ∧ s.bus.eventStreams = [] ∧
      s.bus.eventToStream = [(event, 0)] ∧ s.bus.next = 1 ∧
      (s.bus.memory 0).listeners = ls ∧ (s.bus.memory 0).waiting = [] := by
  have hw := (h.mutex.work_inside (t := t) (by rw [ht]; trivial)).1.trans ht
  have hheld : p :: todo = held := by
    have := h.tidy
    rw [hw] at this
    exact this.resolve_right (List.cons_ne_nil _ _)
  have harr := h.arranged
  rw [hw, ← hheld] at harr
  cases harr with
  | absent hls hs hm hn hw => exact absurd hw (List.cons_ne_nil _ _)
  | present hs hm hn hl hwait =>
    obtain ⟨rfl, rfl, hnil⟩ : p = 0 ∧ todo = [] ∧ s.bus.eventStreams = [] := by
      simpa [Pc.held] using hs
    exact ⟨hheld.symm, rfl, rfl, hnil, hm, hn, hl, hwait⟩

end Moves

omit [DecidableEq K] in
/-- Merging puts the stream back. The numbers agree, so that nothing is removed. -/
theorem Arranged.mergeBack {b : EventBus K ℕ κ} {held : List Ptr}
    (h : Arranged event ls b (.looping held [])) :
    Arranged event ls (b.mergeBack held) .merged := by
  cases h with
  | absent hls hs hm hn hw =>
    have hheld : held = [] := hw
    exact .absent hls (by simp [EventBus.mergeBack, hheld, hs]) hm hn rfl
  | present hs hm hn hl hwait =>
    have hback : held ++ b.eventStreams = [0] := hs
    refine .present ?_ hm hn hl hwait
    simp [EventBus.mergeBack, hback, hm, Pc.held]

/-! ## The pump as a relay -/

/-- **The pump as a relay.** -/
def Pump.relay (event : K) (s : Pump T K κ) : Relay.State (UInt32 × κ) ℕ where
  posted := List.range s.posts
  queue := s.bus.queueOf event
  batch := s.work.events
  passed := s.work.index
  calls := s.calls

section Relay

variable {b : EventBus K ℕ κ} {calls : List ((UInt32 × κ) × ℕ)} {started posts : ℕ} {t : T}
  {pc : Pc}

theorem Mutex.relay_outside (h : Mutex s) (ht : ¬ (s.pc t).InProcess) :
    Pump.relay event ⟨b, s.lock, s.goto t pc, calls, started, posts⟩ =
      ⟨List.range posts, b.queueOf event, s.work.events, s.work.index, calls⟩ := by
  rw [← h.work_outside ht pc]
  rfl

theorem Mutex.relay_inside (h : Mutex s) (ht : (s.pc t).InProcess) :
    Pump.relay event ⟨b, s.lock, s.goto t pc, calls, started, posts⟩ =
      ⟨List.range posts, b.queueOf event, pc.events, pc.index, calls⟩ := by
  have hw : Pump.work ⟨b, s.lock, s.goto t pc, calls, started, posts⟩ = pc :=
    (h.work_inside ht).2 pc
  rw [Pump.relay, hw]

theorem Mutex.relay_self (h : Mutex s) (ht : (s.pc t).InProcess) :
    s.relay event =
      ⟨List.range s.posts, s.bus.queueOf event, (s.pc t).events, (s.pc t).index, s.calls⟩ := by
  rw [Pump.relay, (h.work_inside ht).1]

end Relay

/-- **An atomic step** keeps the invariant of the stream, and is a step of the relay or leaves it
alone. -/
theorem Step.relay (hs : Step event s s') (h : Placed event ls s) : Placed event ls s' ∧
    (Relay.Step ls (s.relay event) (s'.relay event) ∨ s'.relay event = s.relay event) := by
  have hmutex := hs.mutex h.mutex
  cases hs with
  | obtain t ht =>
    have hout : ¬ (s.pc t).InProcess := by rw [ht]; exact id
    obtain ⟨b', ho, harr, hm, hq⟩ := h.arranged.obtain
    rw [ho]
    refine ⟨h.outside hout id harr (fun _ => hm) fun p hp => ?_, .inr ?_⟩
    · exact ⟨(Pc.obtained.inj hp).symm, hm⟩
    · rw [h.mutex.relay_outside hout, hq]
      rfl
  | append t p ht =>
    have hout : ¬ (s.pc t).InProcess := by rw [ht]; exact id
    obtain ⟨rfl, hm⟩ := h.obtained t p ht
    have harr : Arranged event ls (s.bus.update 0 ((s.bus.memory 0).postpone s.posts)) s.work := by
      cases h.arranged with
      | absent hls hs hm' => simp [hm'] at hm
      | present hs hm hn hl hwait =>
        exact .present hs hm hn (by simpa [EventStream.postpone] using hl)
          (by simpa [EventStream.postpone] using hwait)
    refine ⟨h.outside hout id harr id (fun p hp => by cases hp), .inl ?_⟩
    have hpost : Relay.Step ls (s.relay event) _ := .post s.posts
    rw [h.mutex.relay_outside hout, queueOf_update hm, List.range_succ]
    simpa [Pump.relay, queueOf_present hm, EventStream.postpone] using hpost
  | lock t ht hlock =>
    have hw : s.work = .idle := by rw [Pump.work, workOf, hlock]; rfl
    have hw' : Pump.work { s with lock := some t, pc := s.goto t .locked } = .locked := by
      simp [Pump.work, workOf, Pump.goto]
    have harr := h.arranged
    rw [hw] at harr
    refine ⟨⟨hmutex, ?_, ?_, fun u p hu => ?_⟩, .inr ?_⟩
    · rw [hw']
      exact harr.of_held rfl
    · rw [hw']
      trivial
    · by_cases hut : u = t
      · simp [Pump.goto, hut] at hu
      · simp only [Pump.goto, Function.update_of_ne hut] at hu
        exact h.obtained u p hu
    · rw [Pump.relay, Pump.relay, hw, hw']
      rfl
  | swapOut t ht =>
    have hin : (s.pc t).InProcess := by rw [ht]; trivial
    have harr := h.arranged
    rw [(h.mutex.work_inside hin).1, ht] at harr
    refine ⟨h.inside hin trivial ?_ rfl (.inl rfl), .inr ?_⟩
    · cases harr with
      | absent hls hs hm hn hw => exact .absent hls rfl hm hn hs
      | present hs hm hn hl hwait =>
        exact .present (by simpa [EventBus.swapOut, Pc.held] using hs) hm hn hl hwait
    · rw [h.mutex.relay_inside hin, h.mutex.relay_self hin, ht]
      rfl
  | take t held p todo ht =>
    have hin : (s.pc t).InProcess := by rw [ht]; trivial
    obtain ⟨rfl, rfl, rfl, hs, hm, hn, hl, hwait⟩ := h.looping ht
    refine ⟨h.inside hin trivial ?_ rfl ⟨rfl, rfl⟩, .inl ?_⟩
    · exact .present (by simp [Pc.held, hs]) hm hn (by simpa [EventStream.takeEvents] using hl)
        (by simpa [EventStream.takeEvents] using hwait)
    · have htake : Relay.Step ls (s.relay event) _ := .take (by rw [h.mutex.relay_self hin, ht]; rfl)
      rw [h.mutex.relay_self hin, ht, queueOf_present hm] at htake ⊢
      rw [h.mutex.relay_inside hin, queueOf_update hm]
      cases hq : (s.bus.memory 0).queue <;>
        simpa [EventStream.takeEvents, Pc.events, Pc.index, hq] using htake
  | call t held p todo e events i l ht hl =>
    have hin : (s.pc t).InProcess := by rw [ht]; trivial
    obtain ⟨rfl, rfl, rfl, hs, hm, hn, hlist, hwait⟩ := h.running ht
    refine ⟨h.inside hin trivial ?_ rfl ⟨rfl, rfl⟩, .inl ?_⟩
    · exact .present (by simp [Pc.held, hs]) hm hn (by simpa using hlist) (by simpa using hwait)
    · have hcall : Relay.Step ls (s.relay event) _ := .call l e events
        (by rw [h.mutex.relay_self hin, ht]; rfl)
        (by rw [h.mutex.relay_self hin, ht, ← hlist]; exact hl)
      rw [h.mutex.relay_self hin, ht, queueOf_present hm] at hcall ⊢
      rw [h.mutex.relay_inside hin, queueOf_update hm]
      exact hcall
  | next t held p todo e events i stream ht hl hflush =>
    have hin : (s.pc t).InProcess := by rw [ht]; trivial
    obtain ⟨rfl, rfl, rfl, hs, hm, hn, hlist, hwait⟩ := h.running ht
    have hidle := EventStream.flushWaitingOnes_idle
      (s := { s.bus.memory 0 with isProcessing := false }) hwait
    obtain rfl : { s.bus.memory 0 with isProcessing := false } = stream := by
      simpa using hidle.symm.trans hflush
    refine ⟨h.inside hin trivial ?_ rfl ⟨rfl, rfl⟩, .inl ?_⟩
    · exact .present (by simp [Pc.held, hs]) hm hn (by simpa using hlist) (by simpa using hwait)
    · have hnext : Relay.Step ls (s.relay event) _ := .next e events
        (by rw [h.mutex.relay_self hin, ht]; rfl)
        (by rw [h.mutex.relay_self hin, ht, ← hlist]; exact hl)
      rw [h.mutex.relay_self hin, ht, queueOf_present hm] at hnext ⊢
      rw [h.mutex.relay_inside hin, queueOf_update hm]
      cases events <;> exact hnext
  | leave t held p todo i ht =>
    have hin : (s.pc t).InProcess := by rw [ht]; trivial
    obtain ⟨rfl, rfl, rfl, hs, hm, hn, hlist, hwait⟩ := h.running ht
    refine ⟨h.inside hin trivial ?_ rfl (.inr rfl), .inr ?_⟩
    · exact .present (by simp [Pc.held, hs]) hm hn hlist hwait
    · rw [h.mutex.relay_inside hin, h.mutex.relay_self hin, ht]
      rfl
  | merge t held ht =>
    have hin : (s.pc t).InProcess := by rw [ht]; trivial
    have harr := h.arranged
    rw [(h.mutex.work_inside hin).1, ht] at harr
    refine ⟨h.inside hin trivial (harr.mergeBack) rfl trivial, .inr ?_⟩
    rw [h.mutex.relay_inside hin, h.mutex.relay_self hin, ht]
    rfl
  | unlock t ht =>
    have hin : (s.pc t).InProcess := by rw [ht]; trivial
    have hw := (h.mutex.work_inside hin).1.trans ht
    have hw' : Pump.work { s with lock := none, pc := s.goto t .unlocked } = .idle := rfl
    have harr := h.arranged
    rw [hw] at harr
    refine ⟨⟨hmutex, ?_, ?_, fun u p hu => ?_⟩, .inr ?_⟩
    · rw [hw']
      exact harr.of_held rfl
    · rw [hw']
      trivial
    · by_cases hut : u = t
      · simp [Pump.goto, hut] at hu
      · simp only [Pump.goto, Function.update_of_ne hut] at hu
        exact h.obtained u p hu
    · rw [Pump.relay, Pump.relay, hw, hw']
      rfl
  | orig t ht =>
    have hout : ¬ (s.pc t).InProcess := by rw [ht]; exact id
    refine ⟨h.outside hout id h.arranged id (fun p hp => by cases hp), .inr ?_⟩
    rw [h.mutex.relay_outside hout]
    rfl

/-! ## Queued events and counted ticks -/

/-- A queue that is not empty has a thread that will come to it. -/
def Served (event : K) (s : Pump T K κ) : Prop :=
  s.bus.queueOf event ≠ [] → ∃ t, (s.pc t).Coming

/-- The ticks begun are the events posted and the threads that are about to post one. -/
def Counted (s : Pump T K κ) : Prop :=
  ∃ F : Finset T, (∀ t, t ∈ F ↔ ∃ p, s.pc t = .obtained p) ∧ s.started = s.posts + F.card

section Queue

variable {b : EventBus K ℕ κ} {lock : Option T} {calls : List ((UInt32 × κ) × ℕ)}
  {started posts : ℕ} {t : T} {pc : Pc}

/-- A thread that would not come to the queue moves. -/
theorem Served.goto (h : Served event s) (ht : ¬ (s.pc t).Coming)
    (hq : b.queueOf event = s.bus.queueOf event) :
    Served event ⟨b, lock, s.goto t pc, calls, started, posts⟩ := by
  intro hne
  obtain ⟨u, hu⟩ := h (hq ▸ hne)
  have hut : u ≠ t := fun hut => ht (hut ▸ hu)
  refine ⟨u, ?_⟩
  show (s.goto t pc u).Coming
  rwa [Pump.goto, Function.update_of_ne hut]

/-- A thread moves to where it will come to the queue, should there be anything in it. -/
theorem served_coming (hpc : b.queueOf event ≠ [] → pc.Coming) :
    Served event ⟨b, lock, s.goto t pc, calls, started, posts⟩ := by
  intro hne
  refine ⟨t, ?_⟩
  show (s.goto t pc t).Coming
  rw [Pump.goto, Function.update_self]
  exact hpc hne

omit [DecidableEq K] in
/-- A thread moves that is not about to post, before or after. -/
theorem Counted.goto (h : Counted s) (ht : ∀ p, s.pc t ≠ .obtained p)
    (hpc : ∀ p, pc ≠ .obtained p) :
    Counted ⟨b, lock, s.goto t pc, calls, s.started, s.posts⟩ := by
  obtain ⟨F, hF, hcard⟩ := h
  refine ⟨F, fun u => ?_, hcard⟩
  rw [hF u]
  by_cases hu : u = t
  · simp [Pump.goto, hu, ht, hpc]
  · simp [Pump.goto, hu]

end Queue

theorem Step.served (hs : Step event s s') (h : Placed event ls s) (hserved : Served event s) :
    Served event s' := by
  cases hs with
  | obtain t ht =>
    obtain ⟨b', ho, -, -, hq⟩ := h.arranged.obtain
    rw [ho]
    exact hserved.goto (by rw [ht]; exact id) hq
  | append t p ht => exact served_coming fun _ => trivial
  | lock t ht hlock => exact served_coming fun _ => trivial
  | swapOut t ht =>
    apply served_coming
    intro hne
    have harr := h.arranged
    rw [(h.mutex.work_inside (by rw [ht]; trivial)).1, ht] at harr
    cases harr with
    | absent hls hs hm hn hw => exact absurd (queueOf_absent hm) hne
    | present hs hm hn hl hwait =>
      have hstreams : s.bus.eventStreams = [0] := hs
      simp [Pc.Coming, EventBus.swapOut, hstreams]
  | take t held p todo ht =>
    obtain ⟨-, rfl, -, -, hm, -⟩ := h.looping ht
    exact served_coming fun hne => absurd (queueOf_update hm) hne
  | call t held p todo e events i l ht hl =>
    obtain ⟨-, rfl, -, -, hm, -⟩ := h.running ht
    apply hserved.goto (by rw [ht]; exact id)
    rw [queueOf_update hm, queueOf_present hm]
  | next t held p todo e events i stream ht hl hflush =>
    obtain ⟨-, rfl, -, -, hm, -, -, hwait⟩ := h.running ht
    have hidle := EventStream.flushWaitingOnes_idle
      (s := { s.bus.memory 0 with isProcessing := false }) hwait
    obtain rfl : { s.bus.memory 0 with isProcessing := false } = stream := by
      simpa using hidle.symm.trans hflush
    apply hserved.goto (by rw [ht]; exact id)
    rw [queueOf_update hm, queueOf_present hm]
  | merge t held ht => exact hserved.goto (by rw [ht]; simp [Pc.Coming]) rfl
  | leave t held p todo i ht | unlock t ht | orig t ht =>
    exact hserved.goto (by rw [ht]; exact id) rfl

theorem Step.counted (hs : Step event s s') (h : Counted s) : Counted s' := by
  cases hs with
  | obtain t ht =>
    obtain ⟨F, hF, hcard⟩ := h
    have htF : t ∉ F := by simp [hF, ht]
    refine ⟨insert t F, fun u => ?_, ?_⟩
    · by_cases hu : u = t
      · simp [Pump.goto, hu]
      · simp [Pump.goto, hu, hF]
    · rw [Finset.card_insert_of_notMem htF]
      simp only [hcard]
      omega
  | append t p ht =>
    obtain ⟨F, hF, hcard⟩ := h
    have htF : t ∈ F := (hF t).mpr ⟨p, ht⟩
    have hpos := Finset.card_pos.mpr ⟨t, htF⟩
    refine ⟨F.erase t, fun u => ?_, ?_⟩
    · by_cases hu : u = t
      · simp [Pump.goto, hu]
      · simp [Pump.goto, hu, hF]
    · rw [Finset.card_erase_of_mem htF]
      simp only [hcard]
      omega
  | lock t ht | swapOut t ht | take t held p todo ht | call t held p todo e events i l ht
  | next t held p todo e events i stream ht | leave t held p todo i ht | merge t held ht
  | unlock t ht | orig t ht =>
    exact h.goto (fun p hp => by rw [ht] at hp; cases hp) fun p hp => by cases hp

/-! ## Reachable states -/

omit [DecidableEq T] in
theorem settled_of_registerAll {b b' : EventBus K ℕ κ} (ls₀ : List (UInt32 × κ))
    (h : Settled event ls₀ b) (hnd : (ls₀.map Prod.fst).Nodup)
    (hr : registerAll event ls b = .ok ((), b')) :
    Settled event (ls₀ ++ ls) b' ∧ ((ls₀ ++ ls).map Prod.fst).Nodup := by
  induction ls generalizing ls₀ b with
  | nil =>
    obtain rfl : b = b' := by simpa [registerAll] using hr
    simpa using ⟨h, hnd⟩
  | cons l ls ih =>
    by_cases hid : ∃ l' ∈ ls₀, l'.1 = l.1
    · rw [registerAll, Throws.bind_error (h.listen_again l.1 l.2 hid)] at hr
      cases hr
    · have hfresh : ∀ l' ∈ ls₀, l'.1 ≠ l.1 := fun l' hl' he => hid ⟨l', hl', he⟩
      obtain ⟨b₁, hlisten, hset⟩ := h.listen l.1 l.2 hfresh
      rw [registerAll, Throws.bind_ok hlisten] at hr
      have hnd₁ : ((ls₀ ++ [l]).map Prod.fst).Nodup := by
        rw [List.map_append, List.nodup_append]
        refine ⟨hnd, List.nodup_singleton _, fun x hx y hy => ?_⟩
        obtain ⟨l', hl', rfl⟩ := List.mem_map.mp hx
        rw [List.mem_singleton.mp hy]
        exact hfresh l' hl'
      have := ih (ls₀ ++ [l]) hset hnd₁ hr
      rwa [List.append_assoc, List.singleton_append] at this

/-- **The invariant of the pump.** -/
structure PumpInv (event : K) (ls : List (UInt32 × κ)) (s : Pump T K κ) : Prop where
  nodup : (ls.map Prod.fst).Nodup
  placed : Placed event ls s
  ledger : ∃ done, Relay.Ledger ls (s.relay event) done
  served : Served event s
  counted : Counted s

omit [DecidableEq T] in
theorem pumpInv_init (h : Initial event ls s) : PumpInv event ls s := by
  obtain ⟨b, hb, rfl⟩ := h
  obtain ⟨hset, hnd⟩ := settled_of_registerAll [] settled_create List.nodup_nil hb
  rw [List.nil_append] at hset hnd
  have hq : b.queueOf event = [] := by
    cases hset with
    | absent hls hs hm hn => exact queueOf_absent hm
    | present hs hm hn hp => rw [queueOf_present hm, hp]
  refine ⟨hnd, ⟨?_, ?_, trivial, ?_⟩, ⟨[], ?_, ?_, ?_⟩, fun hne => absurd hq hne, ∅, ?_, rfl⟩
  · exact fun t => ⟨fun h => h.elim, fun h => nomatch h⟩
  · cases hset with
    | absent hls hs hm hn => exact .absent hls hs hm hn rfl
    | present hs hm hn hp => exact .present hs hm hn (by rw [hp]) (by rw [hp])
  · exact fun t p hp => nomatch hp
  · show List.range 0 = [] ++ [] ++ b.queueOf event
    rw [hq]
    rfl
  · rfl
  · exact fun _ => rfl
  · simp

theorem pumpInv_step (hs : Step event s s') (h : PumpInv event ls s) : PumpInv event ls s' := by
  obtain ⟨hplaced, hrelay⟩ := hs.relay h.placed
  refine ⟨h.nodup, hplaced, ?_, hs.served h.placed h.served, hs.counted h.counted⟩
  obtain ⟨done, hdone⟩ := h.ledger
  rcases hrelay with hstep | heq
  · exact hdone.step hstep
  · exact ⟨done, heq ▸ hdone⟩

omit [DecidableEq T] [DecidableEq K] in
/-- What some thread holds, the thread with the lock holds. -/
theorem Mutex.mem_work (h : Mutex s) {α : Type} {f : Pc → List α}
    (hf : ∀ pc, ¬ pc.InProcess → f pc = []) (x : α) :
    (∃ t, x ∈ f (s.pc t)) ↔ x ∈ f s.work := by
  constructor
  · rintro ⟨t, ht⟩
    have hin : (s.pc t).InProcess := by
      by_contra hno
      simp [hf _ hno] at ht
    have hl := (h t).mp hin
    simpa [Pump.work, workOf, hl] using ht
  · intro hx
    cases hl : s.lock with
    | none => simp [Pump.work, workOf, hl, hf .idle id] at hx
    | some t => exact ⟨t, by simpa [Pump.work, workOf, hl] using hx⟩

theorem events_of_outside (pc : Pc) (h : ¬ pc.InProcess) : pc.events = [] := by
  cases pc <;> first | rfl | exact absurd trivial h

theorem held_of_outside (pc : Pc) (h : ¬ pc.InProcess) : pc.held = [] := by
  cases pc <;> first | rfl | exact absurd trivial h

omit [DecidableEq T] in
/-- **From the invariant to what is claimed.** -/
theorem PumpInv.delivers (h : PumpInv event ls s) : Delivers event ls s := by
  obtain ⟨hnd, hplaced, ⟨done, hledger⟩, hserved, hcounted⟩ := h
  have hevents := hplaced.mutex.mem_work events_of_outside
  refine ⟨fun t u ht hu => ?_, fun e he => ?_, fun hidle => ?_, ?_⟩
  · have h1 := (hplaced.mutex t).mp ht
    have h2 := (hplaced.mutex u).mp hu
    exact Option.some.inj (h1.symm.trans h2)
  · have hacc := hledger.accounted Prod.fst List.nodup_range hnd (List.mem_range.mpr he)
    have hheld : (∃ t, e ∈ (s.pc t).events) ↔ e ∈ (s.relay event).batch := hevents e
    have hno : (∀ t, e ∉ (s.pc t).events) ↔ e ∉ (s.relay event).batch := by
      rw [← hheld, not_exists]
    rw [hheld, hno]
    exact hacc
  · have hlock : s.lock = none := by
      rw [Option.eq_none_iff_forall_ne_some]
      intro t ht
      have := (hplaced.mutex t).mpr ht
      rw [hidle t] at this
      exact this
    have hwork : s.work = .idle := by rw [Pump.work, workOf, hlock]; rfl
    have hq : s.bus.queueOf event = [] := by
      by_contra hne
      obtain ⟨t, ht⟩ := hserved hne
      rw [hidle t] at ht
      exact ht
    refine ⟨hq, fun l hl => ?_⟩
    have hquiet := hledger.quiet Prod.fst hnd hq
      (by rw [Pump.relay, hwork]; rfl) hl
    obtain ⟨F, hF, hstarted⟩ := hcounted
    have hempty : F = ∅ := by
      rw [Finset.eq_empty_iff_forall_notMem]
      intro t ht
      obtain ⟨p, hp⟩ := (hF t).mp ht
      rw [hidle t] at hp
      cases hp
    rw [hstarted, hempty, Finset.card_empty, add_zero]
    exact hquiet.trans List.length_range
  · have hheld := hplaced.mutex.mem_work held_of_outside
    cases hplaced.arranged with
    | absent hls hs hm hn hw =>
      exact ⟨hn.le.trans zero_le_one, fun p hp => absurd (hn ▸ hp) (Nat.not_lt_zero p)⟩
    | present hs hm hn hl hwait =>
      refine ⟨hn.le, fun p hp => ?_⟩
      obtain rfl : p = 0 := Nat.lt_one_iff.mp (hn ▸ hp)
      have hmem : (0 : Ptr) ∈ s.work.held ++ s.bus.eventStreams := by
        rw [hs]
        exact List.mem_singleton_self 0
      rw [hheld, or_comm]
      exact List.mem_append.mp hmem

/-- **The tick pump loses and duplicates nothing**, whatever the threads and their interleaving. -/
theorem reachable_delivers (h : Reachable event ls s) : Delivers event ls s :=
  (h.invariant (fun _ => pumpInv_init) fun _ _ => pumpInv_step).delivers

/-- A bus with one listener. -/
def oneListener : EventBus EventType ℕ Callback where
  eventStreams := [0]
  eventToStream := [(.gameUpdate, 0)]
  lastID := 0
  memory := Function.update (Function.update (fun _ => .create .gameUpdate) 0 (.create .gameUpdate))
    0 ⟨.gameUpdate, [(1, .onUpdate)], [], false, []⟩
  next := 1

/-- Two threads are in a tick, and one of them has called the one listener for the first event. -/
theorem exists_delivers : ∃ s : Pump Bool EventType Callback,
    s.calls = [((1, .onUpdate), 0)] ∧ Delivers .gameUpdate [(1, .onUpdate)] s := by
  have h₁ := Relation.ReflTransGen.refl (r := Step EventType.gameUpdate)
    (a := (⟨oneListener, none, fun _ => .idle, [], 0, 0⟩ : Pump Bool EventType Callback))
  have h₂ := (h₁.tail (.obtain false rfl)).tail (.obtain true rfl)
  have h₃ := (h₂.tail (.append true 0 rfl)).tail (.append false 0 rfl)
  have h₄ := (h₃.tail (.lock true rfl rfl)).tail (.swapOut true rfl)
  have h₅ := h₄.tail (.take true [0] 0 [] rfl)
  have h₆ := h₅.tail (.call true [0] 0 [] 0 [1] 0 (1, .onUpdate) rfl rfl)
  exact ⟨_, rfl, reachable_delivers ⟨_, ⟨_, rfl, rfl⟩, h₆⟩⟩

end Koola
