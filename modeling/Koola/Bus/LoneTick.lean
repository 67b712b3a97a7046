import Koola.Bus.Pump
import Koola.Bus.Settled

/-!
# A tick that nobody disturbs

Between the atomic steps of a tick other threads may take theirs. If none does, the steps come to
what `postponeEvent` and `process` do as they are written.

* `Pump.amid`: the pump while one thread ticks; the steps of that thread.
* `calls_alone`, `loop_alone`: the loops over the listeners and over the streams.
* **`tick_alone`**: a lone tick can go through, and does what the two functions do.
-/

namespace Koola

open Relation

variable {T K κ : Type} [DecidableEq T] [DecidableEq K] {event : K} {ls : List (UInt32 × κ)}

/-- The pump while the thread `t` ticks and the others stay where they are in `s`. -/
def Pump.amid (s : Pump T K κ) (t : T) (pc : Pc) (bus : EventBus K ℕ κ) (lock : Option T)
    (calls : List ((UInt32 × κ) × ℕ)) (posts : ℕ) : Pump T K κ :=
  ⟨bus, lock, s.goto t pc, calls, s.started + 1, posts⟩

section Lone

variable (event) (s : Pump T K κ) (t : T) {pc : Pc} (bus : EventBus K ℕ κ) (lock : Option T)
  (calls : List ((UInt32 × κ) × ℕ)) (posts : ℕ)

/-! ## The steps -/

omit [DecidableEq K] in
theorem pc_amid : (s.amid t pc bus lock calls posts).pc t = pc := Function.update_self ..

omit [DecidableEq K] in
theorem goto_amid (pc' : Pc) :
    (s.amid t pc bus lock calls posts).goto t pc' = s.goto t pc' := Function.update_idem ..

theorem append_alone (p : Ptr) :
    Step event (s.amid t (.obtained p) bus lock calls posts)
      (s.amid t .posted (bus.update p ((bus.memory p).postpone posts)) lock calls
        (posts + 1)) := by
  have h : Step event (s.amid t (.obtained p) bus lock calls posts) _ :=
    .append t p (pc_amid ..)
  rwa [goto_amid] at h

theorem lock_alone :
    Step event (s.amid t .posted bus none calls posts)
      (s.amid t .locked bus (some t) calls posts) := by
  have h : Step event (s.amid t .posted bus none calls posts) _ := .lock t (pc_amid ..) rfl
  rwa [goto_amid] at h

theorem swapOut_alone :
    Step event (s.amid t .locked bus lock calls posts)
      (s.amid t (.looping bus.eventStreams bus.eventStreams) bus.swapOut.2 lock calls posts) := by
  have h : Step event (s.amid t .locked bus lock calls posts) _ := .swapOut t (pc_amid ..)
  rwa [goto_amid] at h

theorem take_alone (held : List Ptr) (p : Ptr) (todo : List Ptr) :
    Step event (s.amid t (.looping held (p :: todo)) bus lock calls posts)
      (s.amid t (.running held p todo (bus.memory p).queue 0)
        (bus.update p { bus.memory p with queue := [] }) lock calls posts) := by
  have h : Step event (s.amid t (.looping held (p :: todo)) bus lock calls posts) _ :=
    .take t held p todo (pc_amid ..)
  rwa [goto_amid] at h

theorem call_alone (held : List Ptr) (p : Ptr) (todo : List Ptr) (e : ℕ) (events : List ℕ) (i : ℕ)
    (l : UInt32 × κ) (hl : (bus.memory p).listeners[i]? = some l) :
    Step event (s.amid t (.running held p todo (e :: events) i) bus lock calls posts)
      (s.amid t (.running held p todo (e :: events) (i + 1))
        (bus.update p { bus.memory p with isProcessing := true }) lock (calls ++ [(l, e)])
        posts) := by
  have h : Step event (s.amid t (.running held p todo (e :: events) i) bus lock calls posts) _ :=
    .call t held p todo e events i l (pc_amid ..) hl
  rwa [goto_amid] at h

theorem next_alone (held : List Ptr) (p : Ptr) (todo : List Ptr) (e : ℕ) (events : List ℕ) (i : ℕ)
    (hl : (bus.memory p).listeners[i]? = none) (hwait : (bus.memory p).waiting = []) :
    Step event (s.amid t (.running held p todo (e :: events) i) bus lock calls posts)
      (s.amid t (.running held p todo events 0)
        (bus.update p { bus.memory p with isProcessing := false }) lock calls posts) := by
  have h : Step event (s.amid t (.running held p todo (e :: events) i) bus lock calls posts) _ :=
    .next t held p todo e events i _ (pc_amid ..) hl (EventStream.flushWaitingOnes_idle hwait)
  rwa [goto_amid] at h

theorem leave_alone (held : List Ptr) (p : Ptr) (todo : List Ptr) (i : ℕ) :
    Step event (s.amid t (.running held p todo [] i) bus lock calls posts)
      (s.amid t (.looping held todo) bus lock calls posts) := by
  have h : Step event (s.amid t (.running held p todo [] i) bus lock calls posts) _ :=
    .leave t held p todo i (pc_amid ..)
  rwa [goto_amid] at h

theorem merge_alone (held : List Ptr) :
    Step event (s.amid t (.looping held []) bus lock calls posts)
      (s.amid t .merged (bus.mergeBack held) lock calls posts) := by
  have h : Step event (s.amid t (.looping held []) bus lock calls posts) _ :=
    .merge t held (pc_amid ..)
  rwa [goto_amid] at h

theorem unlock_alone :
    Step event (s.amid t .merged bus lock calls posts)
      (s.amid t .unlocked bus none calls posts) := by
  have h : Step event (s.amid t .merged bus lock calls posts) _ := .unlock t (pc_amid ..)
  rwa [goto_amid] at h

theorem orig_alone :
    Step event (s.amid t .unlocked bus lock calls posts)
      (s.amid t .idle bus lock calls posts) := by
  have h : Step event (s.amid t .unlocked bus lock calls posts) _ := .orig t (pc_amid ..)
  rwa [goto_amid] at h

/-! ## The loops -/

variable (ls) (e : ℕ)

/-- The calls of the first `n` listeners. The first call sets `isProcessing`. -/
theorem calls_alone {n : ℕ} (hn : n ≤ ls.length) :
    ∃ flag, ReflTransGen (Step event)
      (s.amid t (.running [0] 0 [] [e] 0) (bus.update 0 ⟨event, ls, [], false, []⟩) lock calls
        posts)
      (s.amid t (.running [0] 0 [] [e] n) (bus.update 0 ⟨event, ls, [], flag, []⟩) lock
        (calls ++ (ls.take n).map (·, e)) posts) := by
  induction n with
  | zero => exact ⟨false, by simpa using .refl⟩
  | succ n ih =>
    obtain ⟨flag, hsteps⟩ := ih (Nat.le_of_succ_le hn)
    have hget : ls[n]? = some ls[n] := List.getElem?_eq_getElem hn
    have htake : (ls.take (n + 1)).map (·, e) = (ls.take n).map (·, e) ++ [(ls[n], e)] := by
      rw [List.take_add_one, hget, List.map_append]
      rfl
    have hcall := call_alone event s t (bus.update 0 ⟨event, ls, [], flag, []⟩) lock
      (calls ++ (ls.take n).map (·, e)) posts [0] 0 [] e [] n ls[n]
      (by rw [EventBus.memory_update]; exact hget)
    rw [EventBus.memory_update, EventBus.update_update, List.append_assoc, ← htake] at hcall
    exact ⟨true, hsteps.tail hcall⟩

/-- The loop over the streams, when there is one stream with one event. -/
theorem loop_alone :
    ReflTransGen (Step event)
      (s.amid t (.looping [0] [0]) (bus.update 0 ⟨event, ls, [e], false, []⟩) lock calls posts)
      (s.amid t (.looping [0] []) (bus.update 0 ⟨event, ls, [], false, []⟩) lock
        (calls ++ ls.map (·, e)) posts) := by
  have htake := take_alone event s t (bus.update 0 ⟨event, ls, [e], false, []⟩) lock
    calls posts [0] 0 []
  rw [EventBus.memory_update, EventBus.update_update] at htake
  obtain ⟨flag, hcalls⟩ := calls_alone event ls s t bus lock calls posts e (Nat.le_refl ls.length)
  rw [List.take_length] at hcalls
  have hnext := next_alone event s t (bus.update 0 ⟨event, ls, [], flag, []⟩) lock
    (calls ++ ls.map (·, e)) posts [0] 0 [] e [] ls.length
    (by rw [EventBus.memory_update]; exact List.getElem?_eq_none (Nat.le_refl ls.length))
    (by rw [EventBus.memory_update])
  rw [EventBus.memory_update, EventBus.update_update] at hnext
  exact (((ReflTransGen.single htake).trans hcalls).tail hnext).tail (leave_alone ..)

end Lone

/-! ## The tick -/

/-- **A lone tick does what the bus does.** -/
theorem tick_alone {s : Pump T K κ} {t : T} (h : Settled event ls s.bus) (hidle : s.pc t = .idle)
    (hlock : s.lock = none) :
    ∃ b₁ b₂ calls, EventBus.postponeEvent event s.posts s.bus = .ok (true, b₁) ∧
      EventBus.processLimit none b₁ = .ok ((1, calls), b₂) ∧
      ReflTransGen (Step event) s { s with
        bus := b₂
        calls := s.calls ++ calls
        started := s.started + 1
        posts := s.posts + 1 } := by
  obtain ⟨b, ho, hs, hm, hn, hp⟩ := h.obtainStream
  refine ⟨_, _, _, postponeEvent_obtained ho hp s.posts, processLimit_obtained hs hm s.posts, ?_⟩
  have hobtain : Step event s (s.amid t (.obtained 0) b none s.calls s.posts) := by
    have hstep : Step event s _ := .obtain t hidle
    rwa [ho, hlock] at hstep
  have happend := append_alone event s t b none s.calls s.posts 0
  rw [hp] at happend
  have hswap := swapOut_alone event s t (b.update 0 ⟨event, ls, [s.posts], false, []⟩)
    (some t) s.calls (s.posts + 1)
  rw [EventBus.eventStreams_update, hs] at hswap
  -- the list of the streams is empty until it is moved back
  have hloop := loop_alone event ls s t b.swapOut.2 (some t) s.calls (s.posts + 1) s.posts
  have hmerge := merge_alone event s t
    (b.swapOut.2.update 0 ⟨event, ls, [], false, []⟩) (some t) (s.calls ++ ls.map (·, s.posts))
    (s.posts + 1) [0]
  have hback : (b.swapOut.2.update 0 ⟨event, ls, [], false, []⟩).mergeBack [0] =
      b.update 0 ⟨event, ls, [], false, []⟩ := by
    simp [EventBus.mergeBack, EventBus.swapOut, EventBus.update, hm, hs]
  rw [hback] at hmerge
  have horig : s.amid t .idle (b.update 0 ⟨event, ls, [], false, []⟩) none
      (s.calls ++ ls.map (·, s.posts)) (s.posts + 1) = { s with
        bus := b.update 0 ⟨event, ls, [], false, []⟩
        calls := s.calls ++ ls.map (·, s.posts)
        started := s.started + 1
        posts := s.posts + 1 } := by
    rw [Pump.amid, Pump.goto, ← hidle, Function.update_eq_self, hlock]
  rw [← horig]
  exact (((((((ReflTransGen.single hobtain).tail happend).tail (lock_alone ..)).tail
    hswap).trans hloop).tail hmerge).tail (unlock_alone ..)).tail (orig_alone ..)

end Koola
