import Koola.Maps.CreateInfo
import Mathlib.Order.Basic
import Mathlib.Data.Nat.Find

/-!
# `createInfo` and read errors

`fp` is an arbitrary stream of `fgets` outcomes.

* `stateAt`: the loop state before each iteration; `loop_eq_some_iff`: the loop ends in the first
  of them that has the end-of-file flag.
* `Ends`, `ReadsFresh`, `IgnoresGarbage`, `Survives`: what it means to survive read errors.
* `ReachesEof`: no call before the one that meets the end of the file fails.
* **`survives_iff_reachesEof`**: these streams, and no others, are survived.
-/

namespace Koola

open CStr Stdio

variable (libName : Bytes) (reads : ℕ → Fgets)

/-- The state after `i` iterations; the loop stands still once the flag is set. -/
def stateAt (s : Scan) : ℕ → Scan
  | 0 => s
  | i + 1 => if (stateAt s i).eof then stateAt s i else (stateAt s i).body libName (reads i)

variable {libName reads}

theorem Scan.body_eof (s : Scan) (r : Fgets) : (s.body libName r).eof = (s.eof || r.setsEof) := by
  have h : (s.fgets r).eof = (s.eof || r.setsEof) := by
    cases r <;> simp [Scan.fgets, Fgets.setsEof]
  rw [← h, Scan.body]
  split_ifs
  · cases examine libName (s.fgets r).buff <;> rfl
  · rfl

theorem examines_eq (s : Scan) (r : Fgets) : s.examines r = !(s.eof || r.setsEof) := by
  cases r <;> simp [Scan.examines, Scan.fgets, Fgets.setsEof]

theorem stateAt_succ_shift (s : Scan) (hs : s.eof = false) (i : ℕ) :
    stateAt libName reads s (i + 1) =
      stateAt libName (fun j => reads (j + 1)) (s.body libName (reads 0)) i := by
  induction i with
  | zero => simp [stateAt, hs]
  | succ i ih => rw [stateAt, ih]; rfl

theorem stateAt_of_eof (s : Scan) (hs : s.eof = true) (i : ℕ) : stateAt libName reads s i = s := by
  induction i with
  | zero => rfl
  | succ i ih => rw [stateAt, ih, if_pos hs]

/-- **The loop ends within `fuel` iterations** exactly if the flag is set by then. -/
theorem loop_eq_some_iff (fuel : ℕ) (reads : ℕ → Fgets) (s s' : Scan) :
    loop libName fuel reads s = some s' ↔
      (stateAt libName reads s fuel).eof = true ∧ stateAt libName reads s fuel = s' := by
  induction fuel generalizing reads s with
  | zero =>
    simp only [loop, stateAt]
    split_ifs with hs <;> simp [hs]
  | succ fuel ih =>
    by_cases hs : s.eof = true
    · rw [loop_of_eof hs, stateAt_of_eof s hs]
      simp [hs]
    · rw [loop, if_neg hs, ih, stateAt_succ_shift s (by simpa using hs)]

variable (libName) in
theorem stateAt_eof_iff (s : Scan) (hs : s.eof = false) (n : ℕ) :
    (stateAt libName reads s n).eof = true ↔ ∃ i < n, (reads i).setsEof = true := by
  induction n with
  | zero => simp [stateAt, hs]
  | succ n ih =>
    rw [stateAt]
    split_ifs with h
    · refine ⟨fun _ => ?_, fun _ => h⟩
      obtain ⟨i, hi, he⟩ := ih.mp h
      exact ⟨i, by omega, he⟩
    · rw [Scan.body_eof, Bool.or_eq_true]
      refine ⟨fun he => ⟨n, by omega, he.resolve_left h⟩, fun ⟨i, hi, he⟩ => .inr ?_⟩
      rcases Nat.lt_succ_iff_lt_or_eq.mp hi with hi | rfl
      · exact absurd (ih.mpr ⟨i, hi, he⟩) h
      · exact he

/-! ## Surviving read errors -/

section Survival

variable (libName : Bytes) (reads : ℕ → Fgets) (buff : Bytes) (info : ModuleInfo)

/-- `createInfo` returns after finitely many iterations. -/
def Ends : Prop := ∃ fuel, (createInfoWithin fuel libName buff (some reads) info).isSome

/-- Each iteration looks into the buffer only if its own `fgets` stored a string there. -/
def ReadsFresh : Prop :=
  ∀ i, let s := stateAt libName reads (.start buff info) i
    s.eof = false → s.examines (reads i) = true → (reads i).stores = true

/-- The result does not depend on what the uninitialised buffer holds. -/
def IgnoresGarbage : Prop :=
  ∀ fuel buff', createInfoWithin fuel libName buff (some reads) info =
    createInfoWithin fuel libName buff' (some reads) info

/-- **The stream is survived.** -/
def Survives : Prop :=
  Ends libName reads buff info ∧ ReadsFresh libName reads buff info ∧
    IgnoresGarbage libName reads buff info

/-- **The stream reaches the end of the file**, and every call before that stores a string. -/
def ReachesEof (reads : ℕ → Fgets) : Prop :=
  ∃ n, (reads n).setsEof = true ∧ ∀ i < n, ∃ b, reads i = .stored b false

end Survival

variable {buff : Bytes} {info : ModuleInfo}

theorem ends_iff : Ends libName reads buff info ↔ ∃ i, (reads i).setsEof = true := by
  have h : ∀ fuel, (createInfoWithin fuel libName buff (some reads) info).isSome ↔
      ∃ i < fuel, (reads i).setsEof = true := by
    intro fuel
    rw [← stateAt_eof_iff libName (.start buff info) rfl]
    simp only [createInfoWithin, Option.isSome_map]
    rw [Option.isSome_iff_exists]
    constructor
    · rintro ⟨s, hs⟩
      exact ((loop_eq_some_iff _ _ _ _).mp hs).1
    · exact fun he => ⟨_, (loop_eq_some_iff _ _ _ _).mpr ⟨he, rfl⟩⟩
  constructor
  · rintro ⟨fuel, hf⟩
    obtain ⟨i, -, hi⟩ := (h fuel).mp hf
    exact ⟨i, hi⟩
  · rintro ⟨i, hi⟩
    exact ⟨i + 1, (h _).mpr ⟨i, by omega, hi⟩⟩

/-- Up to the first call that sets the flag, every call that the loop looks at is one that
stored a string. -/
theorem readsFresh_iff : ReadsFresh libName reads buff info ↔
    ∀ n, (∀ i ≤ n, (reads i).setsEof = false) → (reads n).stores = true := by
  have hs : ∀ n, (stateAt libName reads (.start buff info) n).eof = false ↔
      ∀ i < n, (reads i).setsEof = false := by
    intro n
    rw [← Bool.not_eq_true, stateAt_eof_iff _ _ rfl]
    simp
  apply forall_congr'
  intro n
  simp only [examines_eq, hs]
  constructor
  · intro h hn
    refine h (fun i hi => hn i hi.le) ?_
    simp [(hs n).mpr fun i hi => hn i hi.le, hn n le_rfl]
  · intro h hn he
    simp only [Bool.not_eq_true', Bool.or_eq_false_iff] at he
    apply h
    intro i hi
    rcases hi.lt_or_eq with hi | rfl
    · exact hn i hi
    · exact he.2

variable (libName) in
/-- Two loops that differ in the buffer only stay so when every string looked at is fresh. -/
theorem stateAt_agree (s s' : Scan) (he : s.eof = s'.eof) (hf : s.found = s'.found)
    (h : ∀ n, (∀ i ≤ n, (reads i).setsEof = false) → (reads n).stores = true)
    (h0 : s.eof = false) (n : ℕ) :
    (stateAt libName reads s n).eof = (stateAt libName reads s' n).eof ∧
      (stateAt libName reads s n).found = (stateAt libName reads s' n).found := by
  induction n with
  | zero => exact ⟨he, hf⟩
  | succ n ih =>
    obtain ⟨ih1, ih2⟩ := ih
    simp only [stateAt, ← ih1]
    split_ifs with hn
    · exact ⟨ih1, ih2⟩
    · have hclear : ∀ i < n, (reads i).setsEof = false := by
        rw [stateAt_eof_iff libName s h0] at hn
        simpa using hn
      refine ⟨by rw [Scan.body_eof, Scan.body_eof, ih1], ?_⟩
      cases hr : (reads n).setsEof with
      | true => rw [(Scan.body_setsEof _ _ hr).2, (Scan.body_setsEof _ _ hr).2, ih2]
      | false =>
        have hst := h n fun i hi => hi.lt_or_eq.elim (hclear i) fun e => e ▸ hr
        cases hrd : reads n with
        | stored b e =>
          obtain rfl : e = false := by simpa [hrd, Fgets.setsEof] using hr
          rw [Scan.body_stored _ _ (by simpa using hn),
            Scan.body_stored _ _ (by rw [← ih1]; simpa using hn), ih2]
        | eof => simp [hrd, Fgets.setsEof] at hr
        | error => simp [hrd, Fgets.stores] at hst

theorem ignoresGarbage_of_readsFresh (h : ReadsFresh libName reads buff info) :
    IgnoresGarbage libName reads buff info := by
  rw [readsFresh_iff] at h
  intro fuel buff'
  obtain ⟨he, hf⟩ := stateAt_agree libName (.start buff info) (.start buff' info) rfl rfl h
    rfl fuel
  have key : ∀ b, createInfoWithin fuel libName b (some reads) info =
      if (stateAt libName reads (.start b info) fuel).eof then
        some ((stateAt libName reads (.start b info) fuel).found.isFound,
          (stateAt libName reads (.start b info) fuel).found.info) else none := by
    intro b
    simp only [createInfoWithin]
    split_ifs with hb
    · rw [(loop_eq_some_iff fuel reads (.start b info) _).mpr ⟨hb, rfl⟩]
      rfl
    · rw [Option.map_eq_none_iff, Option.eq_none_iff_forall_ne_some]
      intro s hs
      exact hb ((loop_eq_some_iff _ _ _ _).mp hs).1
  rw [key, key, he, hf]

theorem reachesEof_of_survives (h : Survives libName reads buff info) : ReachesEof reads := by
  obtain ⟨hends, hfresh, -⟩ := h
  rw [ends_iff] at hends
  rw [readsFresh_iff] at hfresh
  refine ⟨Nat.find hends, Nat.find_spec hends, fun i hi => ?_⟩
  have hclear : ∀ j ≤ i, (reads j).setsEof = false := fun j hj => by
    simpa using Nat.find_min hends (lt_of_le_of_lt hj hi)
  have hst := hfresh i hclear
  have he := hclear i le_rfl
  cases hr : reads i with
  | stored b e =>
    rw [hr] at he
    exact ⟨b, by rw [show e = false from he]⟩
  | eof => simp [hr, Fgets.stores] at hst
  | error => simp [hr, Fgets.stores] at hst

theorem survives_of_reachesEof (h : ReachesEof reads) : Survives libName reads buff info := by
  obtain ⟨n, hn, hbefore⟩ := h
  have hfresh : ReadsFresh libName reads buff info := by
    rw [readsFresh_iff]
    intro m hm
    have hmn : m < n := by
      by_contra hc
      simp [hm n (by omega)] at hn
    obtain ⟨b, hb⟩ := hbefore m hmn
    rw [hb]
    rfl
  exact ⟨ends_iff.mpr ⟨n, hn⟩, hfresh, ignoresGarbage_of_readsFresh hfresh⟩

/-- **Exactly the streams that reach the end of the file without an error are survived**, for
every library name, every content of the uninitialised buffer and every object. -/
theorem survives_iff_reachesEof (libName buff : Bytes) (reads : ℕ → Fgets) (info : ModuleInfo) :
    Survives libName reads buff info ↔ ReachesEof reads :=
  ⟨reachesEof_of_survives, survives_of_reachesEof⟩

/-- A file whose very first read fails, and fails for ever, is not survived. -/
theorem not_survives_error :
    ¬ Survives (chars "libminecraftpe.so") (fun _ => .error) [] ⟨0, 0⟩ := fun h => by
  obtain ⟨n, hn, -⟩ := reachesEof_of_survives h
  simp [Fgets.setsEof] at hn

end Koola
