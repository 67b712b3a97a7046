import Koola.Hook.Attempt
import Koola.Inline.HookRuns

/-!
# Hooks on the table and on the memory

`Koola.shInstHook` keeps a table of jumps and pointers, `shInstHook` writes words to the memory. The
second refines the first, also where a fault leaves a jump behind.

* `Left`, `hookPatch_left`: what one try leaves in the memory; `PatchEnv.toTry`: its failure points.
* `Shows`: the memory is as the table says. One step of both: `Shows.patch`, `Shows.clear`,
  `Shows.cancel`.
* `shInstHookWithExit_refines`, `shInstHookWithoutExit_refines`, **`shInstHook_refines`**.
* **`shInstHook_calls`**: the result, the pointers and where a call of the target goes are those of
  the table.
-/

namespace Koola.Inline

open A64

variable {L : Layout} {pageSize : ℕ} {infos : ElfinfoGlobals} {m m' : Mem} {s s₁ s' : InstState}
  {e target : Addr} {self self' : ShInst} {orig orig2 : Option Addr} {n : ℕ}
  {trampo : List (BitVec 32)} {r : Option Errno} {c : HookCall}

/-! ## The patch -/

/-- The failure points of a try that finds the instructions `insts`. -/
def PatchEnv.toTry (env : PatchEnv) (enter target : Addr) (insts : List (BitVec 32)) : Try where
  mprotect := env.mprotect
  rewrite :=
    if env.crash then .crash else if (enterCode enter target insts).isSome then .ok else .failed
  write := env.write

/-- **What a patch leaves in the memory**, also when it fails. -/
structure Left (L : Layout) (target : Addr) (trampo : List (BitVec 32)) (n : ℕ) (e : Addr)
    (orig orig2 : Option Addr) (t : Try) (m m' : Mem) : Prop where
  keep : ∀ b, b ∉ range e 256 → b ∉ L.data → b ∉ bytesAt target n → m' b = m b
  stored : t.Stores → Holds m' target trampo
  spared : ¬ t.Stores → ∀ b, b ∉ range e 256 → b ∉ L.data → m' b = m b
  pointers : t.Reaches → ∀ a, a ∈ orig ∨ a ∈ orig2 → m'.read64 a = e
  same : ¬ t.Reaches → ∀ b, b ∉ range e 256 → m' b = m b

section Patch

variable {t : Try}

/-- A try that does not get to the store of the jump. -/
theorem Left.unreached (ht : ¬ t.Reaches) (h : ∀ b, b ∉ range e 256 → m' b = m b) :
    Left L target trampo n e orig orig2 t m m' where
  keep b hb _ _ := h b hb
  stored hs := absurd hs.1 ht
  spared _ b hb _ := h b hb
  pointers hr := absurd hr ht
  same _ := h

theorem Left.unstored (hr : t.Reaches) (ht : ¬ t.Stores)
    (h : ∀ b, b ∉ range e 256 → b ∉ L.data → m' b = m b)
    (hpointers : ∀ a, a ∈ orig ∨ a ∈ orig2 → m'.read64 a = e) :
    Left L target trampo n e orig orig2 t m m' where
  keep b hb hdata _ := h b hb hdata
  stored hs := absurd hs ht
  spared _ := h
  pointers _ := hpointers
  same hn := absurd hr hn

/-- A try that stores its jump. -/
theorem Left.store (ht : t.Stores) (htrampo : trampo.length = n) (hn : n ≤ 4)
    (hcode : bytesAt target n ⊆ L.code) (horig : Points L orig) (horig2 : Points L orig2)
    (h : ∀ b, b ∉ range e 256 → b ∉ L.data → m' b = m b)
    (hpointers : ∀ a, a ∈ orig ∨ a ∈ orig2 → m'.read64 a = e) :
    Left L target trampo n e orig orig2 t m (m'.writeWords target trampo) where
  keep b hb hdata hout := (Mem.writeWords_apart (by rwa [htrampo])).trans (h b hb hdata)
  stored _ := Mem.holds_writeWords (by omega)
  spared hs := absurd ht hs
  pointers _ a ha := by
    rw [read64_pointer horig horig2 ha fun b hb => Mem.writeWords_apart fun hin => ?_]
    · exact hpointers a ha
    · rw [htrampo] at hin
      exact Set.disjoint_left.mp L.data_code hb (hcode hin)
  same hn := absurd ht.1 hn

/-- **The patch on the memory is the patch of the table.** -/
theorem hookPatch_left {env : PatchEnv} {d : Detour} {b : Branch} {x : Native} {v a : UInt64}
    (h : hookPatch self target orig orig2 trampo env m = (self', m', r)) (hn : n ≤ 4)
    (hlen : self.backupLen = 4 * n) (henter : self.enterAddr = e) (htrampo : trampo.length = n)
    (hcode : bytesAt target n ⊆ L.code) (he : Disjoint (range e 256) L.mem)
    (horig : Points L orig) (horig2 : Points L orig2) (hs : Separate orig orig2) :
    (∃ backup trampo, self' = { self with backup := backup, trampo := trampo }) ∧
      (shInstHookPatch a d b v (env.toTry e target (m.readWords target n))).val x = r ∧
      Left L target trampo n e orig orig2 (env.toTry e target (m.readWords target n)) m m' := by
  subst henter
  have hapart : ∀ a ∈ bytesAt self.enterAddr (7 * n), a ∉ bytesAt target n := fun a ha hin =>
    Set.disjoint_left.mp he (bytesAt_enter (by omega) ha) (.inl (hcode hin))
  obtain ⟨mprotect, crash, w⟩ := env
  rw [hookPatch] at h
  cases mprotect with
  | false =>
    cases h
    exact ⟨⟨_, _, rfl⟩, rfl, .unreached (fun hr => Bool.false_ne_true hr.1) fun _ _ => rfl⟩
  | true =>
  cases crash with
  | true =>
    cases h
    exact ⟨⟨_, _, rfl⟩, rfl, .unreached (fun hr => by cases hr.2) fun _ _ => rfl⟩
  | false =>
  cases hmoved : enterCode self.enterAddr target (m.readWords target n) with
  | none =>
    obtain ⟨m₁, hrw, hsame⟩ : ∃ m₁, shInstHookRewrite self target orig orig2 m = (_, m₁, _) ∧ _ :=
      shInstHookRewrite_none hlen hapart hmoved
    have hfull : hookRewrite self target orig orig2 ⟨true, false, w⟩ m = _ := hrw
    rw [hfull] at h
    cases h
    simp only [PatchEnv.toTry, hmoved]
    exact ⟨⟨_, _, rfl⟩, rfl, .unreached (fun hr => by cases hr.2) fun b hb =>
      hsame b fun hin => hb (bytesAt_enter (by omega) hin)⟩
  | some code =>
    have hrw : hookRewrite self target orig orig2 ⟨true, false, w⟩ m = _ :=
      shInstHookRewrite_some hlen hapart hmoved
    obtain ⟨-, hkeep, hok⟩ := hookRewrite_spec hrw hn hlen rfl hcode he horig horig2 hs
    obtain ⟨-, -, hpointers⟩ := hok rfl
    rw [hrw] at h
    simp only [PatchEnv.toTry, hmoved]
    have hreach : (⟨true, .ok, w⟩ : Try).Reaches := ⟨rfl, rfl⟩
    rcases w with - | - | ⟨- | -⟩ <;> cases h
    · exact ⟨⟨_, _, rfl⟩, rfl,
        .store ⟨hreach, .inl rfl⟩ htrampo hn hcode horig horig2 hkeep hpointers⟩
    · exact ⟨⟨_, _, rfl⟩, rfl, .unstored hreach (fun ht => by simpa using ht.2) hkeep hpointers⟩
    · exact ⟨⟨_, _, rfl⟩, rfl, .unstored hreach (fun ht => by simpa using ht.2) hkeep hpointers⟩
    · exact ⟨⟨_, _, rfl⟩, rfl,
        .store ⟨hreach, .inr rfl⟩ htrampo hn hcode horig horig2 hkeep hpointers⟩

end Patch

/-! ## The table and the memory -/

section Shows

variable {A : Detour → Addr} {d : Detour} {x₀ x : Native} {t : Try} {b : Branch} {y : UInt64}
  {S : Set Branch}

/-- The words of a jump that is written at `target`; the detours are at `A`. -/
def jumpWords (A : Detour → Addr) (target : Addr) : Branch → List (BitVec 32)
  | .detour d => shA64AbsoluteJumpWithBr (A d)
  | .exit y => shA64RelativeJump y.toBitVec target

/-- The words of an exit; a cleared one is zero. -/
def exitWords (A : Detour → Addr) : Option Detour → List (BitVec 32)
  | some d => shA64AbsoluteJumpWithBr (A d)
  | none => List.replicate 4 0

/-- An exit of a call: in reach, and no memory that its patches write to. -/
structure ExitShown (A : Detour → Addr) (L : Layout) (target e : Addr) (x : Native) (m : Mem)
    (y : UInt64) : Prop where
  reach : InReach target y.toBitVec
  code : ∀ b ∈ range y.toBitVec 16, b ∉ L.code
  data : ∀ b ∈ range y.toBitVec 16, b ∉ L.data
  enter : ∀ b ∈ range y.toBitVec 16, b ∉ range e 256
  words : Holds m y.toBitVec (exitWords A (x.exits y))

/-- **The memory has the jump that the table has.** -/
structure Jumps (A : Detour → Addr) (L : Layout) (target e : Addr) (x : Native) (m : Mem)
    (b : Branch) : Prop where
  code : x.code (.ofBitVec target) = some b
  words : Holds m target (jumpWords A target b)
  window : bytesAt target (jumpWords A target b).length ⊆ L.code
  exit : ∀ y, b = .exit y → ExitShown A L target e x m y

/-- The call has not written to the code. -/
structure Spares (L : Layout) (target : Addr) (x₀ x : Native) (m₀ m : Mem) : Prop where
  code : x.code (.ofBitVec target) = x₀.code (.ofBitVec target)
  words : ∀ b ∈ L.code, m b = m₀ b

/-- **The memory is as the table says**, in a call that began in `x₀` and `s`: nothing is written to
the code, or there is a jump of `S` at the target; the pointers are those of the table; and all else
that is in use is as it was. -/
structure Shows (A : Detour → Addr) (L : Layout) (pageSize : ℕ) (c : HookCall) (d : Detour)
    (e : Addr) (s : InstState) (x₀ x : Native) (S : Set Branch) (m : Mem) : Prop where
  code : Spares L c.target x₀ x s.mem m ∨ ∃ b ∈ S, Jumps A L c.target e x m b
  orig : ∀ a, a ∈ c.orig ∨ a ∈ c.orig2 → m.read64 a = (x.orig d).toBitVec
  keep : ∀ b, InUse L pageSize s b → b ∉ L.data → b ∉ bytesAt c.target 4 → m b = s.mem b

theorem length_exitWords {v : Option Detour} : (exitWords A v).length = 4 := by
  cases v <;> rfl

/-- The exit stays while its words do. -/
theorem ExitShown.congr {x' : Native} (h : ExitShown A L target e x m y)
    (hx : x'.exits y = x.exits y) (hm : ∀ b ∈ range y.toBitVec 16, m' b = m b) :
    ExitShown A L target e x' m' y where
  reach := h.reach
  code := h.code
  data := h.data
  enter := h.enter
  words := by
    rw [hx]
    refine h.words.congr fun b hb => hm b ?_
    rwa [length_exitWords, bytesAt_four] at hb

section State

variable (t x) (a : UInt64) (d) (b) (enter : UInt64)

theorem state_exits : (t.state x a d b enter).exits = x.exits := by
  unfold Try.state
  split_ifs <;> rfl

theorem state_code : (t.state x a d b enter).code a = if t.Stores then some b else x.code a := by
  unfold Try.state
  split_ifs <;> simp [Native.setCode, Native.setOrig]

theorem state_orig : (t.state x a d b enter).orig d = if t.Reaches then enter else x.orig d := by
  unfold Try.state
  by_cases hs : t.Stores
  · simp [hs, hs.1, Native.setCode, Native.setOrig]
  · split_ifs <;> simp [Native.setOrig]

end State

/-- A patch leaves the words of an exit alone. -/
theorem ExitShown.patch {a enter : UInt64} {b' : Branch} (h : ExitShown A L target e x m y)
    (hleft : Left L target trampo n e orig orig2 t m m') (hcode : bytesAt target n ⊆ L.code) :
    ExitShown A L target e (t.state x a d b' enter) m' y :=
  h.congr (by rw [state_exits]) fun b hb =>
    hleft.keep b (h.enter b hb) (h.data b hb) fun hin => h.code b hb (hcode hin)

/-- **One step of both: the patch.** -/
theorem Shows.patch (hx : Shows A L pageSize c d e s x₀ x S m)
    (hexit : ∀ y, b = .exit y → ExitShown A L c.target e x m y)
    (hleft : Left L c.target (jumpWords A c.target b) n e c.orig c.orig2 t m m') (hn : n ≤ 4)
    (hlen : (jumpWords A c.target b).length = n) (hcode : bytesAt c.target n ⊆ L.code)
    (horig : Points L c.orig) (horig2 : Points L c.orig2) (he : Disjoint (range e 256) L.mem)
    (hnew : ∀ b ∈ range e 256, ¬ InUse L pageSize s b) :
    Shows A L pageSize c d e s x₀ (t.state x (.ofBitVec c.target) d b (.ofBitVec e)) (insert b S)
      m' := by
  have hout : ∀ b, b ∈ L.mem → b ∉ range e 256 := fun b hb hin =>
    Set.disjoint_left.mp he hin hb
  refine ⟨?_, fun a ha => ?_, fun b' huse hdata hout' => ?_⟩
  · by_cases ht : t.Stores
    · refine .inr ⟨b, .inl rfl, ?_, hleft.stored ht, hlen ▸ hcode, fun y hy =>
        (hexit y hy).patch hleft hcode⟩
      rw [state_code, if_pos ht]
    · have hspared : ∀ b ∈ L.code, m' b = m b := fun b hb =>
        hleft.spared ht b (hout b (.inl hb)) fun hdata =>
          Set.disjoint_left.mp L.data_code hdata hb
      rcases hx.code with hs | ⟨b', hb', hj⟩
      · refine .inl ⟨?_, fun b hb => (hspared b hb).trans (hs.words b hb)⟩
        rw [state_code, if_neg ht, hs.code]
      · have hwords := hj.words.congr fun b hb => hspared b (hj.window hb)
        refine .inr ⟨b', .inr hb', ?_, hwords, hj.window, fun y hy =>
          (hj.exit y hy).patch hleft hcode⟩
        rw [state_code, if_neg ht, hj.code]
  · rw [state_orig]
    split_ifs with ht
    · exact hleft.pointers ht a ha
    · rw [← hx.orig a ha]
      exact read64_pointer horig horig2 ha fun b hb => hleft.same ht b (hout b (.inr (.inl hb)))
  · have hnot : b' ∉ range e 256 := fun hin => hnew b' hin huse
    refine (hleft.keep b' hnot hdata fun hin => hout' (mem_bytesAt_of_lt hin hn)).trans ?_
    exact hx.keep b' huse hdata hout'

theorem Shows.refl (h : ∀ a, a ∈ c.orig ∨ a ∈ c.orig2 → s.mem.read64 a = (x.orig d).toBitVec) :
    Shows A L pageSize c d e s x x ∅ s.mem :=
  ⟨.inl ⟨rfl, fun _ _ => rfl⟩, h, fun _ _ _ _ => rfl⟩

theorem Shows.mono {S' : Set Branch} (hx : Shows A L pageSize c d e s x₀ x S m) (hS : S ⊆ S') :
    Shows A L pageSize c d e s x₀ x S' m where
  code := hx.code.imp_right fun ⟨b, hb, hj⟩ => ⟨b, hS hb, hj⟩
  orig := hx.orig
  keep := hx.keep

/-- **Before the first patch**, a call leaves alone what is in use. -/
theorem Shows.frame (hx : Shows A L pageSize c d e s x₀ x ∅ m) (horig : Points L c.orig)
    (horig2 : Points L c.orig2) (h : ∀ b, InUse L pageSize s b → m' b = m b) :
    Shows A L pageSize c d e s x₀ x ∅ m' where
  code := by
    rcases hx.code with hs | ⟨b, hb, -⟩
    · exact .inl ⟨hs.code, fun b hb => (h b (.code hb)).trans (hs.words b hb)⟩
    · exact absurd hb (Set.notMem_empty b)
  orig a ha := by
    rw [← hx.orig a ha]
    exact read64_pointer horig horig2 ha fun b hb => h b (.data hb)
  keep b huse hdata hout := (h b huse).trans (hx.keep b huse hdata hout)

/-- The table alone gets the jump of an exit. -/
theorem Shows.setExit (hx : Shows A L pageSize c d e s x₀ x ∅ m) (v : Option Detour) :
    Shows A L pageSize c d e s x₀ (x.setExit y v) ∅ m where
  code := by
    rcases hx.code with hs | ⟨b, hb, -⟩
    · exact .inl ⟨hs.code, hs.words⟩
    · exact absurd hb (Set.notMem_empty b)
  orig := hx.orig
  keep := hx.keep

/-- Cleared memory is zero. -/
theorem holds_memClear : Holds (memClear m target 16) target (List.replicate 4 0) := by
  have hzero : ∀ (k : ℕ) (a : Addr), Holds (fun _ => 0) a (List.replicate k 0) := by
    intro k
    induction k with
    | zero => exact fun _ => trivial
    | succ k ih => exact fun a => ⟨(by decide : (0#8 ++ 0#8 ++ 0#8 ++ 0#8 : BitVec 32) = 0), ih _⟩
  refine (hzero 4 target).congr fun b hb => ?_
  rw [List.length_replicate, bytesAt_four] at hb
  exact memClear_of_mem hb

/-- **One step of both: the exit is cleared.** -/
theorem Shows.clear (hx : Shows A L pageSize c d e s x₀ x {.exit y} m) (horig : Points L c.orig)
    (horig2 : Points L c.orig2) (hy : ExitShown A L c.target e x m y)
    (hnew : ∀ b ∈ range y.toBitVec 16, ¬ InUse L pageSize s b) :
    Shows A L pageSize c d e s x₀ (x.setExit y none) {.exit y} (memClear m y.toBitVec 16) where
  code := by
    have hcode : ∀ b ∈ L.code, memClear m y.toBitVec 16 b = m b := fun b hb =>
      memClear_of_notMem fun hin => hy.code b hin hb
    rcases hx.code with hs | ⟨b, rfl, hj⟩
    · exact .inl ⟨hs.code, fun b hb => (hcode b hb).trans (hs.words b hb)⟩
    · refine .inr ⟨_, rfl, hj.code, hj.words.congr fun b hb => hcode b (hj.window hb), hj.window,
        fun z hz => ?_⟩
      cases hz
      refine ⟨hy.reach, hy.code, hy.data, hy.enter, ?_⟩
      rw [show (x.setExit y none).exits y = none from Function.update_self ..]
      exact holds_memClear
  orig a ha := by
    rw [read64_pointer horig horig2 ha fun b hb => memClear_of_notMem fun hin => hy.data b hin hb]
    exact hx.orig a ha
  keep b huse hdata hout :=
    (memClear_of_notMem fun hin => hnew b hin huse).trans (hx.keep b huse hdata hout)

/-- **One step of both: the pointers are cleared.** -/
theorem Shows.cancel (hx : Shows A L pageSize c d e s x₀ x S m) (horig : Points L c.orig)
    (horig2 : Points L c.orig2) (hs : Separate c.orig c.orig2) :
    Shows A L pageSize c d e s x₀ (x.setOrig d 0) S
      (storeOrig c.orig2 0 (storeOrig c.orig 0 m)) where
  code := by
    have hstore : ∀ b, b ∉ L.data → storeOrig c.orig2 0 (storeOrig c.orig 0 m) b = m b :=
      fun b hb => (storeOrig_apart horig2 hb).trans (storeOrig_apart horig hb)
    have hcode : ∀ b ∈ L.code, storeOrig c.orig2 0 (storeOrig c.orig 0 m) b = m b := fun b hb =>
      hstore b fun hdata => Set.disjoint_left.mp L.data_code hdata hb
    refine hx.code.imp (fun hs => ⟨hs.code, fun b hb => (hcode b hb).trans (hs.words b hb)⟩) ?_
    rintro ⟨b, hb, hj⟩
    exact ⟨b, hb, hj.code, hj.words.congr fun b hb => hcode b (hj.window hb), hj.window,
      fun y hy => (hj.exit y hy).congr rfl fun b hb => hstore b ((hj.exit y hy).data b hb)⟩
  orig a ha := by
    rw [show (x.setOrig d 0).orig d = 0 from Function.update_self ..]
    exact read64_storeOrigs hs ha
  keep b huse hdata hout := by
    rw [storeOrig_apart horig2 hdata, storeOrig_apart horig hdata]
    exact hx.keep b huse hdata hout

end Shows

/-! ## The two tries -/

section Tries

open Logged

variable {A : Detour → Addr} {d : Detour} {x : Native} {a v y : UInt64}
  {type : ShExitType}

/-- A try that is not made. -/
def noTry : Try := ⟨false, .ok, .ok⟩

/-- A try for which there is no exit. -/
def noExitTry : ExitTry := ⟨noTry, none, false, false⟩

/-- What `sh_exit_free` does to the memory. -/
theorem shExitFree_mem {z : Addr} {exit : List (BitVec 32)} {env : ExitFreeEnv}
    {r : Option ExitFreeErrno} (h : shExitFree pageSize z type exit env s = some (s', r)) :
    s'.mem = if type = .inLibrary ∧ r = none then memClear s.mem z (4 * exit.length)
      else s.mem := by
  cases type with
  | outLibrary =>
    cases h
    rfl
  | inLibrary =>
    simp only [shExitFree, shExitFreeInLibrary] at h
    split at h
    · cases h
    split_ifs at h <;> cases h <;> rfl

/-- **A try with an exit**, on the table. -/
theorem withExit_eq {t : ExitTry} (hn : 4 ≤ n) (hy : t.exit = some (y, type))
    (hv : x.vacant a y = true) (hcrash : t.exitCrash = false) :
    let z := t.state (x.setExit y (some d)) a d (.exit y) v
    let r := (shInstHookPatch a d (.exit y) v t.toTry).val (x.setExit y (some d))
    (Koola.shInstHookWithExit a d v n t).val x = r ∧
      (Koola.shInstHookWithExit a d v n t).final x =
        if r ≠ none ∧ type = .inLibrary ∧ t.exitCleared then z.setExit y none else z := by
  have hval : (Koola.shExitAlloc a d t).val x = some (y, type) := by
    simp [val_exitAlloc, ExitTry.taken, hcrash, hy, hv]
  have hfin : (Koola.shExitAlloc a d t).final x = x.setExit y (some d) := by
    simp [final_exitAlloc, ExitTry.taken, hy, hv, Option.filter]
  unfold Koola.shInstHookWithExit
  rw [if_neg (by omega)]
  simp only [val_bind, final_bind, hval, hfin, final_patch]
  cases hr : (shInstHookPatch a d (.exit y) v t.toTry).val (x.setExit y (some d)) with
  | none => simp
  | some r =>
    unfold Koola.shExitFree
    simp only [val_bind, val_pure, final_bind, final_pure, ne_eq, reduceCtorEq, not_false_eq_true,
      true_and]
    split_ifs <;> rfl

/-- The exit of a call is no exit of another switch. -/
theorem vacant_of_new {z : Addr}
    (hused : ∀ a' ∈ x.switches, a' ≠ a → ∀ y, x.code a' = some (.exit y) →
      InUse L pageSize s y.toBitVec)
    (hnew : ∀ b ∈ range z 16, ¬ InUse L pageSize s b) : x.vacant a (.ofBitVec z) = true := by
  rw [Native.vacant, List.all_eq_true]
  intro a' ha'
  by_cases ha : a' = a
  · simp [ha]
  · simp only [ha, decide_false, Bool.false_or, decide_eq_true_eq]
    exact fun hcode => hnew z (mem_range_self (by decide)) (hused a' ha' ha _ hcode)

/-- **`sh_inst_hook_with_exit` refines that of the table.** -/
theorem shInstHookWithExit_refines (hc : c.Given L pageSize infos s)
    (hp : Pending L pageSize s s₁ e) (henter : self.enterAddr = e) (hA : c.newAddr = A d)
    (hpages : ∀ ptr, c.env.exit.mmap = some ptr → NewPage L pageSize s₁ ptr)
    (hused : ∀ a ∈ x.switches, a ≠ .ofBitVec c.target → ∀ y, x.code a = some (.exit y) →
      InUse L pageSize s y.toBitVec)
    (hx : Shows A L pageSize c d e s x x ∅ s₁.mem)
    (h : shInstHookWithExit pageSize infos self c.target c.dlinfo c.newAddr c.orig c.orig2 c.env
      s₁ = some (self', s', r)) :
    self'.enterAddr = e ∧ ∃ (t : ExitTry) (y : UInt64),
      (Koola.shInstHookWithExit (.ofBitVec c.target) d (.ofBitVec e) c.dlinfo.dliSsize t).val x =
        r ∧
      Shows A L pageSize c d e s x ((Koola.shInstHookWithExit (.ofBitVec c.target) d (.ofBitVec e)
        c.dlinfo.dliSsize t).final x) {.exit y} s'.mem := by
  subst henter
  rw [shInstHookWithExit] at h
  simp only at h
  split at h
  · rename_i hsize
    cases h
    refine ⟨rfl, noExitTry, 0, ?_⟩
    rw [Koola.shInstHookWithExit, if_pos hsize]
    exact ⟨rfl, hx.mono (Set.empty_subset _)⟩
  rename_i hsize
  have hsize : 4 ≤ c.dlinfo.dliSsize := not_lt.mp hsize
  cases halloc : shExitAlloc pageSize infos c.target c.dlinfo (shA64AbsoluteJumpWithBr c.newAddr)
      shInstA64BRangeLow shInstA64BRangeHigh c.env.exit c.env.gap s₁ with
  | none =>
    rw [halloc] at h
    cases h
  | some res =>
    obtain ⟨place, s₂⟩ := res
    have hspec := shExitAlloc_spec hp.frame.managers hpages hc.gaps hc.null hc.fits rfl halloc
    have hx₂ : Shows A L pageSize c d self.enterAddr s x x ∅ s₂.mem :=
      hx.frame hc.orig hc.orig2 fun b hb => hspec.keep b (hp.frame.inUse hb)
    rw [halloc] at h
    cases place with
    | none =>
      cases h
      refine ⟨rfl, noExitTry, 0, ?_⟩
      rw [Koola.shInstHookWithExit, if_neg (by omega)]
      exact ⟨rfl, hx₂.mono (Set.empty_subset _)⟩
    | some place =>
      obtain ⟨z, type⟩ := place
      have hplace := hspec.place z type rfl
      have hcode := hspec.code z type rfl
      have hnew : ∀ b ∈ range z 16, ¬ InUse L pageSize s b := fun b hb huse =>
        hspec.new z type rfl b hb (hp.frame.inUse huse)
      have hwindow := hc.window_code (n := 1) (by omega) (by decide)
      have hheld : s₂.enters.Held pageSize self.enterAddr := hspec.enters.symm ▸ hp.held
      -- the exit, before the patch
      have hexit : ExitShown A L c.target self.enterAddr (x.setExit (.ofBitVec z) (some d)) s₂.mem
          (.ofBitVec z) := by
        refine ⟨hspec.reach z type rfl, fun b hb => (hplace.apart hspec.managers (.inl hb)).1,
          fun b hb => (hplace.inUse hspec.managers (.inl hb)).2,
          fun b hb => (hplace.apart hspec.managers (.inl hb)).2 _ hheld, ?_⟩
        rw [show (x.setExit (.ofBitVec z) (some d)).exits (.ofBitVec z) = some d from
          Function.update_self ..]
        rw [exitWords, ← hA]
        exact hcode
      simp only at h
      cases hpatch : hookPatch { self with
          backupLen := 4, exit := shA64AbsoluteJumpWithBr c.newAddr, exitAddr := z,
          exitType := type } c.target c.orig c.orig2 (shA64RelativeJump z c.target)
          c.env.withExit s₂.mem with
      | mk self₁ rest =>
        obtain ⟨m₁, r₁⟩ := rest
        rw [hpatch] at h
        obtain ⟨⟨backup, trampo, rfl⟩, hval, hleft⟩ := hookPatch_left (n := 1) (d := d)
          (b := .exit (.ofBitVec z)) (x := x.setExit (.ofBitVec z) (some d))
          (v := .ofBitVec self.enterAddr) (a := .ofBitVec c.target) hpatch (by decide) rfl rfl
          rfl hwindow hp.disjoint hc.orig hc.orig2 hc.separate
        have hx₃ := (hx₂.setExit (some d) (y := .ofBitVec z)).patch (b := .exit (.ofBitVec z))
          (fun y hy => by cases hy; exact hexit) hleft (by decide) rfl hwindow hc.orig hc.orig2
          hp.disjoint hp.new
        have hv := vacant_of_new hused hnew
        -- the try of the table, when the exit is cleared or not
        have htry := fun cleared : Bool => withExit_eq (d := d) (v := .ofBitVec self.enterAddr)
          (t := ⟨c.env.withExit.toTry self.enterAddr c.target (s₂.mem.readWords c.target 1),
            some (.ofBitVec z, type), false, cleared⟩) hsize rfl hv rfl
        simp only [hval] at htry
        rw [insert_empty_eq] at hx₃
        cases r₁ with
        | none =>
          cases h
          refine ⟨rfl, _, .ofBitVec z, (htry false).1, ?_⟩
          rw [(htry false).2, if_neg (by simp)]
          exact hx₃
        | some r₁ =>
          simp only at h
          cases hfree : shExitFree pageSize z type (shA64AbsoluteJumpWithBr c.newAddr)
              c.env.exitFree { s₂ with mem := m₁ } with
          | none =>
            rw [hfree] at h
            cases h
          | some res =>
            obtain ⟨s₄, r₄⟩ := res
            have hmem := shExitFree_mem hfree
            rw [hfree] at h
            cases h
            refine ⟨rfl, _, .ofBitVec z, (htry (r₄ = none)).1, ?_⟩
            rw [(htry (r₄ = none)).2, hmem]
            by_cases hcleared : type = .inLibrary ∧ r₄ = none
            · rw [if_pos (by simpa using hcleared), if_pos hcleared]
              exact hx₃.clear hc.orig hc.orig2 (hexit.patch hleft hwindow) hnew
            · rw [if_neg (by simpa using hcleared), if_neg hcleared]
              exact hx₃

/-- **`sh_inst_hook_without_exit` refines that of the table.** -/
theorem shInstHookWithoutExit_refines {S : Set Branch} {x₀ : Native}
    (hc : c.Given L pageSize infos s) (hp : Pending L pageSize s s₁ e) (henter : self.enterAddr = e)
    (hA : c.newAddr = A d) {s₂ : InstState} (hx : Shows A L pageSize c d e s x₀ x S s₂.mem)
    (h : shInstHookWithoutExit self c.target c.dlinfo c.newAddr c.orig c.orig2 c.env s₂ =
      (self', s', r)) :
    self'.enterAddr = e ∧ ∃ t : Try,
      (Koola.shInstHookWithoutExit (.ofBitVec c.target) d (.ofBitVec e) c.dlinfo.dliSsize t).val x =
        r ∧
      Shows A L pageSize c d e s x₀ ((Koola.shInstHookWithoutExit (.ofBitVec c.target) d
        (.ofBitVec e) c.dlinfo.dliSsize t).final x) (insert (.detour d) S) s'.mem := by
  subst henter
  rw [shInstHookWithoutExit] at h
  simp only at h
  split at h
  · rename_i hsize
    cases h
    refine ⟨rfl, noTry, ?_⟩
    rw [Koola.shInstHookWithoutExit, if_pos hsize]
    exact ⟨rfl, hx.mono (Set.subset_insert _ _)⟩
  rename_i hsize
  have hwindow := hc.window_code (n := 4) (by omega) (by decide)
  cases hpatch : hookPatch { self with backupLen := 16 } c.target c.orig c.orig2
      (shA64AbsoluteJumpWithBr c.newAddr) c.env.withoutExit s₂.mem with
  | mk self₁ rest =>
    obtain ⟨m₁, r₁⟩ := rest
    rw [hpatch] at h
    cases h
    obtain ⟨⟨backup, trampo, rfl⟩, hval, hleft⟩ := hookPatch_left (n := 4) (d := d)
      (b := .detour d) (x := x) (v := .ofBitVec self.enterAddr) (a := .ofBitVec c.target) hpatch
      (by decide) rfl rfl rfl hwindow hp.disjoint hc.orig hc.orig2 hc.separate
    refine ⟨rfl, c.env.withoutExit.toTry self.enterAddr c.target (s₂.mem.readWords c.target 4), ?_⟩
    rw [Koola.shInstHookWithoutExit, if_neg hsize, final_patch]
    refine ⟨hval, hx.patch (n := 4) (fun y hy => by cases hy) ?_ (by decide) rfl hwindow hc.orig
      hc.orig2 hp.disjoint hp.new⟩
    rw [jumpWords, ← hA]
    exact hleft

end Tries

/-! ## The call -/

section Call

open Logged

variable {A : Detour → Addr} {d : Detour} {x : Native}

/-- **The table before a call**: the exits of other switches are in use, and the pointers are those
of the table. -/
structure Before (L : Layout) (pageSize : ℕ) (c : HookCall) (d : Detour) (s : InstState)
    (x : Native) : Prop where
  exits : ∀ a ∈ x.switches, a ≠ .ofBitVec c.target → ∀ y, x.code a = some (.exit y) →
    InUse L pageSize s y.toBitVec
  orig : ∀ a, a ∈ c.orig ∨ a ∈ c.orig2 → s.mem.read64 a = (x.orig d).toBitVec

/-- An attempt that gets to `sh_inst_hook`. -/
def attemptOf (enter : Addr) (t₁ : ExitTry) (t₂ : Try) : Attempt where
  taskAlloc := true
  dlAddr := ⟨false, true, true, none⟩
  monitor := none
  switchAlloc := true
  enter := .ofBitVec enter
  withExit := t₁
  withoutExit := t₂

/-- **`sh_inst_hook` refines that of the table**: it ends with the same result, and the memory shows
the state that is left. -/
theorem shInstHook_refines (hm : Managers L pageSize s) (hc : c.Given L pageSize infos s)
    (hA : c.newAddr = A d) (hx : Before L pageSize c d s x)
    (h : shInstHook pageSize infos self c.target c.dlinfo c.newAddr c.orig c.orig2 c.env s =
      some (self', s', r)) :
    ∃ o : Attempt,
      (Koola.shInstHook (.ofBitVec c.target) d c.dlinfo.dliSsize o).val x = r ∧
      Shows A L pageSize c d self'.enterAddr s x
        ((Koola.shInstHook (.ofBitVec c.target) d c.dlinfo.dliSsize o).final x) Set.univ
        s'.mem := by
  rw [shInstHook] at h
  cases halloc : shEnterAlloc pageSize c.env.enter s with
  | none =>
    rw [halloc] at h
    cases h
  | some res =>
    obtain ⟨e, s₁⟩ := res
    have hspec := shEnterAlloc_spec hm hc.enterPage halloc
    have hx₁ : ∀ e, Shows A L pageSize c d e s x x ∅ s₁.mem := fun e =>
      (Shows.refl hx.orig).frame hc.orig hc.orig2 hspec.keep
    rw [halloc] at h
    simp only at h
    split at h
    · cases h
      refine ⟨attemptOf 0 noExitTry noTry, ?_⟩
      have hzero : (attemptOf 0 noExitTry noTry).enter = 0 := rfl
      rw [Koola.shInstHook, if_pos hzero]
      exact ⟨rfl, (hx₁ _).mono (Set.empty_subset _)⟩
    rename_i hne
    have hp := hspec.pending hne
    have hne' : ∀ t₁ t₂, (attemptOf e t₁ t₂).enter ≠ 0 := fun _ _ hz =>
      hne (congrArg UInt64.toBitVec hz)
    cases hwith : shInstHookWithExit pageSize infos { self with enterAddr := e } c.target c.dlinfo
        c.newAddr c.orig c.orig2 c.env s₁ with
    | none =>
      rw [hwith] at h
      cases h
    | some res =>
      obtain ⟨self₂, s₂, r₂⟩ := res
      obtain ⟨henter, t₁, y, hval₁, hx₂⟩ := shInstHookWithExit_refines hc hp rfl hA
        (fun ptr hptr => hspec.newPage hc hptr) hx.exits (hx₁ e) hwith
      rw [hwith] at h
      cases r₂ with
      | none =>
        cases h
        refine ⟨attemptOf e t₁ noTry, ?_⟩
        rw [Koola.shInstHook, if_neg (hne' _ _)]
        simp only [attemptOf, val_bind, final_bind, hval₁, val_pure, final_pure, henter, true_and]
        exact hx₂.mono (Set.subset_univ _)
      | some err =>
        simp only at h
        cases hwithout : shInstHookWithoutExit self₂ c.target c.dlinfo c.newAddr c.orig c.orig2
            c.env s₂ with
        | mk self₃ rest =>
          obtain ⟨s₃, r₃⟩ := rest
          obtain ⟨henter₃, t₂, hval₂, hx₃⟩ :=
            shInstHookWithoutExit_refines hc hp henter hA hx₂ hwithout
          rw [hwithout] at h
          refine ⟨attemptOf e t₁ t₂, ?_⟩
          rw [Koola.shInstHook, if_neg (hne' _ _)]
          simp only [attemptOf, val_bind, final_bind, hval₁, shInstHookRetry, hval₂]
          cases r₃ with
          | none =>
            cases h
            rw [henter₃]
            exact ⟨rfl, hx₃.mono (Set.subset_univ _)⟩
          | some err =>
            cases h
            rw [henter₃]
            exact ⟨rfl, (hx₃.cancel hc.orig hc.orig2 hc.separate).mono (Set.subset_univ _)⟩

/-- **A call of the target goes where the table says.** -/
theorem Shows.calls {x₀ : Native} {S : Set Branch} {d' : Detour} {other : Others} {cpu : Cpu}
    (hx : Shows A L pageSize c d e s x₀ x S cpu.mem)
    (hnone : x₀.code (.ofBitVec c.target) = none) (ht : 4 ∣ c.target.toNat)
    (hd : x.leadsTo (.ofBitVec c.target) = some d') :
    ∃ n ≤ 3, A64.run other n ⟨cpu, c.target⟩ = ⟨cpu.setReg 17 (A d'), A d'⟩ := by
  rw [Native.leadsTo] at hd
  rcases hx.code with hs | ⟨b, -, hj⟩
  · rw [hs.code, hnone] at hd
    cases hd
  rw [hj.code, Option.bind_some] at hd
  have hwords := hj.words
  cases b with
  | detour d =>
    cases hd
    exact ⟨2, by decide, run_absoluteJump hwords⟩
  | exit y =>
    have hy := hj.exit y rfl
    have hexit := hy.words
    rw [Native.follow] at hd
    rw [hd] at hexit
    exact ⟨3, le_refl _, run_relativeJump hy.reach ht hwords hexit⟩

/-- **What callers see of a hook is what the table says**, also when a fault has left a jump behind:
the result, the pointers, and where a call of the target goes. -/
theorem shInstHook_calls (hm : Managers L pageSize s) (hc : c.Given L pageSize infos s)
    (hA : c.newAddr = A d) (hx : Before L pageSize c d s x)
    (hnone : x.code (.ofBitVec c.target) = none)
    (h : shInstHook pageSize infos self c.target c.dlinfo c.newAddr c.orig c.orig2 c.env s =
      some (self', s', r)) :
    ∃ o : Attempt, let hook := Koola.shInstHook (.ofBitVec c.target) d c.dlinfo.dliSsize o
      hook.val x = r ∧
      (∀ a, a ∈ c.orig ∨ a ∈ c.orig2 → s'.mem.read64 a = ((hook.final x).orig d).toBitVec) ∧
      ∀ d', (hook.final x).leadsTo (.ofBitVec c.target) = some d' →
        ∀ (other : Others) (cpu : Cpu), cpu.mem = s'.mem →
          ∃ n ≤ 3, A64.run other n ⟨cpu, c.target⟩ = ⟨cpu.setReg 17 (A d'), A d'⟩ := by
  obtain ⟨o, hval, hx⟩ := shInstHook_refines hm hc hA hx h
  refine ⟨o, hval, hx.orig, fun d' hd other cpu hmem => ?_⟩
  rw [← hmem] at hx
  exact hx.calls hnone hc.aligned hd

end Call

/-! ## A jump that is left behind -/

section Torn

/-- The store of the first try faults when it is done, and the second try fails. -/
def tornHook : HookCall :=
  { firstHook with
    env :=
      { firstHook.env with
        withExit := ⟨true, false, .crash true⟩
        withoutExit := ⟨false, false, .ok⟩ } }

theorem tornHook_given {m₀ : Mem} : tornHook.Given twoFunctions 4096 byLinker (.init m₀) :=
  have hfirst : firstHook.Ok twoFunctions 4096 byLinker (.init m₀) := firstHook_ok
  { hfirst.toGiven with }

/-- The target jumps to the exit, which is cleared. -/
example : (shInstHook 4096 byLinker noInst tornHook.target tornHook.dlinfo tornHook.newAddr
      tornHook.orig tornHook.orig2 tornHook.env (.init firstBranch)).map (fun r =>
        (r.2.2, r.2.1.mem.readWords 0x10000 1, r.2.1.mem.readWords 0x10050 4)) =
    some (some .mprot, [0x14000014], [0, 0, 0, 0]) := by
  decide +kernel

/-- Nothing is hooked yet, and no pointer is set. -/
def noHooks : Native := ⟨⟨0, 0⟩, none, [], fun _ => none, fun _ => none, fun _ => 0⟩

theorem before_noHooks :
    Before twoFunctions 4096 tornHook .actorTick (.init firstBranch) noHooks where
  exits a ha := absurd ha List.not_mem_nil
  orig a ha := by
    rcases ha with ha | ha <;> cases ha
    decide +kernel

/-- The failure of the hook is one of the table. -/
theorem shInstHook_calls_tornHook :
    ∃ o : Attempt, (Koola.shInstHook 0x10000 .actorTick 1024 o).val noHooks = some .mprot := by
  have hrun : (shInstHook 4096 byLinker noInst tornHook.target tornHook.dlinfo tornHook.newAddr
      tornHook.orig tornHook.orig2 tornHook.env (.init firstBranch)).map (fun r => r.2.2) =
      some (some .mprot) := by
    decide +kernel
  obtain ⟨⟨self', s', r⟩, heq, rfl⟩ := Option.map_eq_some_iff.mp hrun
  obtain ⟨o, hval, -⟩ := shInstHook_calls (A := fun _ => 0x30000) managers_init tornHook_given rfl
    before_noHooks rfl heq
  exact ⟨o, hval⟩

end Torn

end Koola.Inline
