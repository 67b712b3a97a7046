import Mathlib.Data.List.Nodup
import Mathlib.Data.List.Count
import Mathlib.Logic.Relation
import Mathlib.Tactic.Ring

/-!
# Relays

A relay passes events on to a fixed list of receivers. Events are posted to a queue; from time to
time the whole queue becomes the batch, and the events of the batch are passed to the receivers one
after the other.

* `State`, `Step`: the queue, the batch, and the calls of receivers so far.
* `Ledger`: the posted events are those that are done, the batch and the queue, in this order;
  the calls are those for the events that are done, and some for the first of the batch.
* **`Ledger.step`**, **`Ledger.accounted`**, **`Ledger.quiet`**: each event is in the queue, in the
  batch, or delivered once to every receiver.
-/

namespace Relay

/-- A state of a relay. `passed` receivers have got the first event of the batch; `posted` and
`calls` record what has happened. -/
structure State (ρ α : Type) where
  posted : List α
  queue : List α
  batch : List α
  passed : ℕ
  calls : List (ρ × α)

variable {ρ α ι : Type}

/-- The steps of a relay. -/
inductive Step (rs : List ρ) (s : State ρ α) : State ρ α → Prop
  | post (e : α) : Step rs s { s with posted := s.posted ++ [e], queue := s.queue ++ [e] }
  | take (h : s.batch = []) : Step rs s { s with batch := s.queue, queue := [] }
  | call (r : ρ) (e : α) (rest : List α) (h : s.batch = e :: rest)
      (hr : rs[s.passed]? = some r) :
      Step rs s { s with passed := s.passed + 1, calls := s.calls ++ [(r, e)] }
  | next (e : α) (rest : List α) (h : s.batch = e :: rest) (hr : rs[s.passed]? = none) :
      Step rs s { s with batch := rest, passed := 0 }

/-- Every receiver gets every event. -/
def deliver (rs : List ρ) (es : List α) : List (ρ × α) := es.flatMap fun e => rs.map (·, e)

theorem deliver_singleton (rs : List ρ) (e : α) : deliver rs [e] = rs.map (·, e) := by
  simp [deliver]

/-- **The ledger of a relay** with the events `done`. -/
structure Ledger (rs : List ρ) (s : State ρ α) (done : List α) : Prop where
  posted : s.posted = done ++ s.batch ++ s.queue
  calls : s.calls = deliver rs done ++ deliver (rs.take s.passed) s.batch.head?.toList
  passed : s.batch = [] → s.passed = 0

variable {rs : List ρ} {s s' : State ρ α} {done : List α}

/-- **A step keeps the ledger**; it is only `next` that has one event more done. -/
theorem Ledger.step (hs : Step rs s s') (h : Ledger rs s done) : ∃ done', Ledger rs s' done' := by
  cases hs with
  | post e =>
    refine ⟨done, ?_, h.calls, h.passed⟩
    simp only [h.posted, List.append_assoc]
  | take hb =>
    have hp := h.passed hb
    refine ⟨done, ?_, ?_, fun _ => hp⟩
    · simpa [hb] using h.posted
    · rw [h.calls]
      simp [hb, hp, deliver]
  | call r e rest hb hr =>
    refine ⟨done, h.posted, ?_, fun hn => absurd (hb.symm.trans hn) (List.cons_ne_nil _ _)⟩
    have htake : rs.take (s.passed + 1) = rs.take s.passed ++ [r] := by
      rw [List.take_add_one, hr]
      rfl
    simp only [h.calls, hb, htake, List.head?_cons, Option.toList_some, deliver_singleton,
      List.map_append, List.append_assoc, List.map_cons, List.map_nil]
  | next e rest hb hr =>
    have hall : rs.take s.passed = rs := List.take_of_length_le (List.getElem?_eq_none_iff.mp hr)
    refine ⟨done ++ [e], ?_, ?_, fun _ => rfl⟩
    · simp [h.posted, hb]
    · simp [h.calls, hb, hall, deliver]

section Count

variable [DecidableEq α] [DecidableEq ι] (key : ρ → ι) (k : ι) (e : α)

theorem countP_deliver (es : List α) :
    (deliver rs es).countP (fun c => key c.1 = k ∧ c.2 = e) =
      es.count e * (rs.map key).count k := by
  induction es with
  | nil => simp [deliver]
  | cons f es ih =>
    have hone : (rs.map (·, f)).countP (fun c => key c.1 = k ∧ c.2 = e) =
        if f = e then (rs.map key).count k else 0 := by
      rw [List.countP_map, List.count, List.countP_map]
      split_ifs with hf
      · exact List.countP_congr fun r _ => by simp [hf]
      · simp [hf]
    rw [deliver, List.flatMap_cons, List.countP_append, hone, ← deliver, ih, List.count_cons]
    by_cases hf : f = e
    · rw [if_pos hf, if_pos (beq_iff_eq.mpr hf)]
      ring
    · rw [if_neg hf, if_neg (mt beq_iff_eq.mp hf)]
      ring

omit [DecidableEq α] in
theorem countP_deliver_key (es : List α) :
    (deliver rs es).countP (fun c => key c.1 = k) = es.length * (rs.map key).count k := by
  induction es with
  | nil => simp [deliver]
  | cons f es ih =>
    have hone : (rs.map (·, f)).countP (fun c => key c.1 = k) = (rs.map key).count k := by
      rw [List.countP_map, List.count, List.countP_map]
      exact List.countP_congr fun r _ => by simp
    rw [deliver, List.flatMap_cons, List.countP_append, hone, ← deliver, ih, List.length_cons,
      add_mul, one_mul, add_comm]

end Count

section Results

variable [DecidableEq α] [DecidableEq ι] (key : ρ → ι)

/-- **Every posted event** is in the queue and not passed on yet, or in the batch and passed at
most once to every receiver, or passed exactly once to every receiver. -/
theorem Ledger.accounted (h : Ledger rs s done) (hposted : s.posted.Nodup)
    (hrs : (rs.map key).Nodup) {e : α} (he : e ∈ s.posted) :
    (e ∈ s.queue ∧ e ∉ s.batch ∧ ∀ k, s.calls.countP (fun c => key c.1 = k ∧ c.2 = e) = 0) ∨
    (e ∉ s.queue ∧ e ∈ s.batch ∧ ∀ k, s.calls.countP (fun c => key c.1 = k ∧ c.2 = e) ≤ 1) ∨
    (e ∉ s.queue ∧ e ∉ s.batch ∧
      ∀ r ∈ rs, s.calls.countP (fun c => key c.1 = key r ∧ c.2 = e) = 1) := by
  have hcount (k : ι) : s.calls.countP (fun c => key c.1 = k ∧ c.2 = e) =
      done.count e * (rs.map key).count k +
        s.batch.head?.toList.count e * ((rs.take s.passed).map key).count k := by
    rw [h.calls, List.countP_append, countP_deliver, countP_deliver]
  have hhead : e ∉ s.batch → s.batch.head?.toList.count e = 0 := fun hb => by
    refine List.count_eq_zero.mpr fun hm => hb ?_
    exact List.mem_of_mem_head? (Option.mem_toList.mp hm)
  rw [h.posted] at hposted he
  simp only [List.nodup_append, List.mem_append] at hposted he
  obtain ⟨⟨hd, hb, hdb⟩, hq, hdq⟩ := hposted
  rcases he with (he | he) | he
  · refine .inr (.inr ⟨fun hc => hdq e (.inl he) e hc rfl, fun hc => hdb e he e hc rfl, ?_⟩)
    intro r hr
    rw [hcount, hhead fun hc => hdb e he e hc rfl, List.count_eq_one_of_mem hd he,
      List.count_eq_one_of_mem hrs (List.mem_map_of_mem hr), zero_mul, mul_one,
      add_zero]
  · refine .inr (.inl ⟨fun hc => hdq e (.inr he) e hc rfl, he, fun k => ?_⟩)
    have h0 : done.count e = 0 := List.count_eq_zero.mpr fun hc => hdb e hc e he rfl
    have h1 : s.batch.head?.toList.count e ≤ 1 := by
      apply le_trans List.count_le_length
      cases s.batch <;> simp
    have h2 : ((rs.take s.passed).map key).count k ≤ 1 :=
      List.nodup_iff_count_le_one.mp (hrs.sublist ((List.take_sublist _ _).map key)) k
    rw [hcount, h0, zero_mul, zero_add]
    exact Nat.mul_le_mul h1 h2
  · refine .inl ⟨he, fun hc => hdq e (.inr hc) e he rfl, fun k => ?_⟩
    have h0 : done.count e = 0 := List.count_eq_zero.mpr fun hc => hdq e (.inl hc) e he rfl
    rw [hcount, h0, hhead fun hc => hdq e (.inr hc) e he rfl]
    simp

omit [DecidableEq α] in
/-- **When nothing is queued or in the batch** every receiver has been called once for each posted
event. -/
theorem Ledger.quiet (h : Ledger rs s done) (hrs : (rs.map key).Nodup) (hq : s.queue = [])
    (hb : s.batch = []) {r : ρ} (hr : r ∈ rs) :
    s.calls.countP (fun c => key c.1 = key r) = s.posted.length := by
  have hposted := h.posted
  rw [hb, hq, List.append_nil, List.append_nil] at hposted
  rw [h.calls, hb, hposted, List.countP_append, countP_deliver_key,
    List.count_eq_one_of_mem hrs (List.mem_map_of_mem hr)]
  simp [deliver]

end Results

end Relay
