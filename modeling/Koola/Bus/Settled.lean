import Koola.Bus.EventBus

/-!
# The bus between two calls

* `Settled event ls b`: the only stream that the bus has made is in its place, its queue is empty,
  and its listeners are `ls`.
* What a call does to a settled bus: `Settled.listen`, `Settled.listen_again`, `Settled.unlisten`,
  **`Settled.tick`**.
-/

namespace Koola

variable {K ε κ : Type} [DecidableEq K]

/-- Between two calls the first stream ever made is in its place, its queue is empty, and it has
the listeners `ls`; or no stream has been made, and there is no listener. -/
inductive Settled (event : K) (ls : List (UInt32 × κ)) (b : EventBus K ε κ) : Prop
  | absent (hls : ls = []) (hs : b.eventStreams = []) (hm : b.eventToStream = [])
      (hn : b.next = 0)
  | present (hs : b.eventStreams = [0]) (hm : b.eventToStream = [(event, 0)]) (hn : b.next = 1)
      (hp : b.memory 0 = ⟨event, ls, [], false, []⟩)

variable {event : K} {ls : List (UInt32 × κ)} {b : EventBus K ε κ} {id : UInt32} {k : κ}

omit [DecidableEq K] in
theorem settled_create : Settled event [] (EventBus.create event : EventBus K ε κ) :=
  .absent rfl rfl rfl rfl

theorem findStreamUnsafe_absent (hm : b.eventToStream = []) :
    b.findStreamUnsafe event = none := by
  simp [EventBus.findStreamUnsafe, hm]

theorem findStreamUnsafe_present {p : Ptr} (hm : b.eventToStream = [(event, p)]) :
    b.findStreamUnsafe event = some p := by
  simp [EventBus.findStreamUnsafe, hm]

/-- Obtaining the stream puts it in its place. -/
theorem Settled.obtainStream (h : Settled event ls b) : ∃ b', b.obtainStream event = (0, b') ∧
    b'.eventStreams = [0] ∧ b'.eventToStream = [(event, 0)] ∧ b'.next = 1 ∧
      b'.memory 0 = ⟨event, ls, [], false, []⟩ := by
  cases h with
  | absent hls hs hm hn =>
    refine ⟨_, by rw [EventBus.obtainStream, findStreamUnsafe_absent hm, hn], ?_⟩
    simp [hs, hm, hls, EventStream.create]
  | present hs hm hn hp =>
    exact ⟨b, by rw [EventBus.obtainStream, findStreamUnsafe_present hm], hs, hm, hn, hp⟩

omit [DecidableEq K] in
/-- A stream with an empty queue in the place of the first one settles the bus. -/
theorem settled_update (ls' : List (UInt32 × κ)) (hs : b.eventStreams = [0])
    (hm : b.eventToStream = [(event, 0)]) (hn : b.next = 1) :
    Settled event ls' (b.update 0 ⟨event, ls', [], false, []⟩) :=
  .present hs hm hn (b.memory_update 0 _)

theorem Settled.listen (h : Settled event ls b) (id : UInt32) (k : κ) (hid : ∀ l ∈ ls, l.1 ≠ id) :
    ∃ b', EventBus.listen id event k b = .ok ((), b') ∧
      Settled event (ls ++ [(id, k)]) b' := by
  obtain ⟨b', ho, hs, hm, hn, hp⟩ := h.obtainStream
  refine ⟨_, ?_, settled_update (ls ++ [(id, k)]) hs hm hn⟩
  have hadd : EventStream.addListener id k (b'.memory 0) =
      .ok (true, ⟨event, ls ++ [(id, k)], [], false, []⟩) := by
    rw [hp]
    exact EventStream.addListener_idle hid
  simp only [EventBus.listen, Throws.get_bind, ho, Throws.set_bind]
  rw [Throws.bind_ok (EventBus.onStream_ok hadd)]
  rfl

theorem Settled.listen_again (h : Settled event ls b) (id : UInt32) (k : κ) (hid : ∃ l ∈ ls, l.1 = id) :
    EventBus.listen id event k b = .error (.alreadyAdded event) := by
  obtain ⟨b', ho, hs, hm, hn, hp⟩ := h.obtainStream
  have hadd : EventStream.addListener id k (b'.memory 0) = .error (.alreadyAdded event) := by
    rw [hp]
    exact EventStream.addListener_again hid
  simp only [EventBus.listen, Throws.get_bind, ho, Throws.set_bind]
  rw [Throws.bind_error (EventBus.onStream_error hadd)]

theorem Settled.unlisten (h : Settled event ls b) (id : UInt32) :
    ∃ b', EventBus.unlisten id event b = .ok ((), b') ∧
      Settled event (ls.eraseP (·.1 == id)) b' := by
  cases h with
  | absent hls hs hm hn =>
    refine ⟨b, ?_, .absent (by simp [hls]) hs hm hn⟩
    simp only [EventBus.unlisten, Throws.get_bind, findStreamUnsafe_absent hm]
    rfl
  | present hs hm hn hp =>
    refine ⟨_, ?_, settled_update (ls.eraseP (·.1 == id)) hs hm hn⟩
    have hrem : EventStream.removeListener id (b.memory 0) =
        .ok (ls.any (·.1 == id), ⟨event, ls.eraseP (·.1 == id), [], false, []⟩) := by
      rw [hp]
      exact EventStream.removeListener_idle
    simp only [EventBus.unlisten, Throws.get_bind, findStreamUnsafe_present hm]
    rw [Throws.bind_ok (EventBus.onStream_ok hrem)]
    rfl

section Tick

variable {b' : EventBus K ε κ}

theorem postponeEvent_obtained (ho : b.obtainStream event = (0, b'))
    (hp : b'.memory 0 = ⟨event, ls, [], false, []⟩) (e : ε) :
    EventBus.postponeEvent event e b =
      .ok (true, b'.update 0 ⟨event, ls, [e], false, []⟩) := by
  simp only [EventBus.postponeEvent, Throws.get_bind, ho, hp]
  rfl

omit [DecidableEq K] in
theorem processLimit_obtained (hs : b'.eventStreams = [0]) (hm : b'.eventToStream = [(event, 0)])
    (e : ε) :
    EventBus.processLimit none (b'.update 0 ⟨event, ls, [e], false, []⟩) =
      .ok ((1, ls.map (·, e)), b'.update 0 ⟨event, ls, [], false, []⟩) := by
  have hrun := EventBus.processLimit_single (b := b'.update 0 ⟨event, ls, [e], false, []⟩) hs
    (by simp [hm]) (b'.memory_update 0 _)
  rw [hrun, EventBus.update_update]
  simp

/-- **One tick** calls every listener once, and settles the bus again. -/
theorem Settled.tick (h : Settled event ls b) (e : ε) :
    ∃ b₁ b₂, EventBus.postponeEvent event e b = .ok (true, b₁) ∧
      EventBus.processLimit none b₁ = .ok ((1, ls.map (·, e)), b₂) ∧ Settled event ls b₂ := by
  obtain ⟨b', ho, hs, hm, hn, hp⟩ := h.obtainStream
  exact ⟨_, _, postponeEvent_obtained ho hp e, processLimit_obtained hs hm e,
    settled_update ls hs hm hn⟩

end Tick

end Koola
