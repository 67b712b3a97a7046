import Mathlib.Data.List.Infix
import Mathlib.Data.List.TakeWhile
import Mathlib.Data.UInt
import Mathlib.Tactic.Ring

/-!
# C strings

Byte strings as the C library sees them, and the two functions that read them here.

* `chars`, `cstr`: the bytes of an ASCII text, and the string held by a buffer.
* `strstr`, **`strstr_isSome`**: the search succeeds exactly on the infixes.
* `strtoul` in base 16: white space, sign, optional `0x`, digits, saturation at `2 ^ 64 - 1`;
  **`strtoul_digits`** reads a run of bare digits back.
-/

namespace CStr

/-- A string of bytes. -/
abbrev Bytes := List UInt8

/-- The bytes of an ASCII text. -/
def chars (s : String) : Bytes := s.toList.map fun c => UInt8.ofNat c.toNat

/-- The string a buffer holds: what stands before the first NUL. -/
def cstr (s : Bytes) : Bytes := s.takeWhile (· ≠ 0)

theorem cstr_eq_self {s : Bytes} (h : 0 ∉ s) : cstr s = s := by
  rw [cstr, List.takeWhile_eq_self_iff]
  intro b hb
  simpa using fun e : b = 0 => h (e ▸ hb)

/-! ## Searching -/

/-- `strstr`: the rest of `hay` from the first place where `needle` stands. -/
def strstr : Bytes → Bytes → Option Bytes
  | [], needle => if needle = [] then some [] else none
  | b :: hay, needle => if needle.isPrefixOf (b :: hay) then some (b :: hay) else strstr hay needle

/-- **`strstr` finds exactly the infixes.** -/
theorem strstr_isSome (hay needle : Bytes) : (strstr hay needle).isSome ↔ needle <:+: hay := by
  induction hay with
  | nil => simp [strstr]
  | cons b hay ih =>
    rw [strstr, List.infix_cons_iff, ← List.isPrefixOf_iff_prefix]
    split_ifs with h
    · simp [h]
    · simp [h, ih]

theorem strstr_isNone (hay needle : Bytes) : (strstr hay needle).isNone ↔ ¬ needle <:+: hay := by
  rw [← strstr_isSome]
  cases strstr hay needle <;> simp

/-- A needle without the byte `c` is not found across a `c` at the end. -/
theorem infix_concat_iff {needle hay : Bytes} {c : UInt8} (hne : needle ≠ []) (hc : c ∉ needle) :
    needle <:+: hay ++ [c] ↔ needle <:+: hay := by
  refine ⟨fun h => ?_, fun h => h.trans (List.prefix_append _ _).isInfix⟩
  rcases List.infix_concat_iff.mp h with h | h
  · obtain ⟨l, x, rfl⟩ := List.eq_nil_or_concat needle |>.resolve_left hne
    have hx : x = c := by
      obtain ⟨t, ht⟩ := h
      rw [List.concat_eq_append, ← List.append_assoc] at ht
      exact (List.append_inj' ht rfl).2 |> List.singleton_inj.mp
    exact absurd (by simp [hx]) hc
  · exact h

/-! ## Numbers in base 16 -/

/-- The value of a hexadecimal digit. -/
def hexDigit? (b : UInt8) : Option ℕ :=
  if 48 ≤ b ∧ b ≤ 57 then some (b.toNat - 48)
  else if 97 ≤ b ∧ b ≤ 102 then some (b.toNat - 87)
  else if 65 ≤ b ∧ b ≤ 70 then some (b.toNat - 55)
  else none

/-- `isxdigit`. -/
def isHex (b : UInt8) : Bool := (hexDigit? b).isSome

/-- `isspace` in the C locale. -/
def isSpace (b : UInt8) : Bool := b == 32 || (9 ≤ b && b ≤ 13)

/-- Read digits onto `acc`; what follows the last digit is kept. -/
def takeHex : ℕ → Bytes → ℕ × Bytes
  | acc, [] => (acc, [])
  | acc, b :: s =>
    match hexDigit? b with
    | some d => takeHex (acc * 16 + d) s
    | none => (acc, b :: s)

/-- The value of a string of digits. -/
def hexVal (s : Bytes) : ℕ := (takeHex 0 s).1

/-- An optional sign: is it a minus, and what follows. -/
def takeSign : Bytes → Bool × Bytes
  | 45 :: s => (true, s)
  | 43 :: s => (false, s)
  | s => (false, s)

/-- Drop `0x` or `0X` where a digit follows it. -/
def dropPrefix : Bytes → Bytes
  | 48 :: x :: d :: s => if (x = 120 ∨ x = 88) ∧ isHex d then d :: s else 48 :: x :: d :: s
  | s => s

/-- The `unsigned long` that the digits' value `v` becomes: the largest one if it does not fit,
and the negative modulo `2 ^ 64` after a minus. -/
def toULong (neg : Bool) (v : ℕ) : UInt64 :=
  if 2 ^ 64 ≤ v then UInt64.ofNat (2 ^ 64 - 1)
  else if neg then -UInt64.ofNat v
  else UInt64.ofNat v

/-- `strtoul(s, &endPtr, 16)`: the value and `endPtr`, which is `s` when there is no digit. -/
def strtoul (s : Bytes) : UInt64 × Bytes :=
  let (neg, t) := takeSign (s.dropWhile isSpace)
  match dropPrefix t with
  | d :: u =>
    if isHex d then ((toULong neg (takeHex 0 (d :: u)).1), (takeHex 0 (d :: u)).2) else (0, s)
  | [] => (0, s)

theorem isHex_ranges {b : UInt8} (h : isHex b) :
    (48 ≤ b ∧ b ≤ 57) ∨ (97 ≤ b ∧ b ≤ 102) ∨ (65 ≤ b ∧ b ≤ 70) := by
  unfold isHex hexDigit? at h
  split_ifs at h <;> simp_all

theorem isSpace_of_isHex {b : UInt8} (h : isHex b) : isSpace b = false := by
  have := isHex_ranges h
  simp only [isSpace, Bool.or_eq_false_iff, beq_eq_false_iff_ne, Bool.and_eq_false_iff,
    decide_eq_false_iff_not]
  grind

theorem takeSign_of_isHex {d : UInt8} (h : isHex d) (s : Bytes) :
    takeSign (d :: s) = (false, d :: s) := by
  have := isHex_ranges h
  unfold takeSign
  split <;> simp_all

/-- Nothing is dropped where the second byte is no `x`. -/
theorem dropPrefix_of_ne (d e : UInt8) (s : Bytes) (h : e ≠ 120 ∧ e ≠ 88) :
    dropPrefix (d :: e :: s) = d :: e :: s := by
  unfold dropPrefix
  split
  · rename_i heq
    simp only [List.cons.injEq] at heq
    obtain ⟨rfl, rfl, rfl⟩ := heq
    rw [if_neg (by tauto)]
  · rfl

theorem takeHex_append (acc : ℕ) {ds : Bytes} (hd : ∀ d ∈ ds, isHex d) {c : UInt8}
    (hc : isHex c = false) (s : Bytes) :
    takeHex acc (ds ++ c :: s) = ((takeHex acc ds).1, c :: s) := by
  induction ds generalizing acc with
  | nil =>
    have : hexDigit? c = none := by simpa [isHex] using hc
    simp [takeHex, this]
  | cons d ds ih =>
    obtain ⟨v, hv⟩ := Option.isSome_iff_exists.mp (hd d List.mem_cons_self)
    simp only [List.cons_append, takeHex, hv]
    exact ih _ fun e he => hd e (List.mem_cons_of_mem _ he)

/-- **Bare digits are read back**, up to the first byte `c` that is no digit and no `x`. -/
theorem strtoul_digits {ds : Bytes} (hne : ds ≠ []) (hd : ∀ d ∈ ds, isHex d)
    (hfit : hexVal ds < 2 ^ 64) {c : UInt8} (hc : isHex c = false) (hx : c ≠ 120 ∧ c ≠ 88)
    (s : Bytes) : strtoul (ds ++ c :: s) = (UInt64.ofNat (hexVal ds), c :: s) := by
  obtain ⟨d, ds, rfl⟩ := List.exists_cons_of_ne_nil hne
  have h1 : isHex d := hd d List.mem_cons_self
  have hws : (d :: ds ++ c :: s).dropWhile isSpace = d :: (ds ++ c :: s) := by
    simp [isSpace_of_isHex h1]
  have hpre : dropPrefix (d :: (ds ++ c :: s)) = d :: ds ++ c :: s := by
    cases ds with
    | nil => exact dropPrefix_of_ne d c s hx
    | cons e ds =>
      apply dropPrefix_of_ne d e _
      have := isHex_ranges (hd e (by simp))
      constructor <;> rintro rfl <;> revert this <;> decide
  have hth := takeHex_append 0 hd hc s
  rw [List.cons_append] at hpre hth
  rw [strtoul, hws, takeSign_of_isHex h1]
  simp only [hpre, h1, if_true, hth]
  rw [toULong, if_neg (by simpa [hexVal] using hfit), if_neg (by simp)]
  rfl

end CStr
