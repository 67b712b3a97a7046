import Koola.Lib.CString
import Koola.Lib.LinkedMap
import Koola.Lib.Scanner
import Koola.Lib.Torn

/-!
# JSON objects in compact form

Objects of strings, booleans and nulls, as they are printed without white space.

* `Value`, `Object`, `Value.toBoolean`.
* `objectText`, `object`: the printer, and a scanner for what it prints.
* **`decode_objectText`**: what is printed is read back.
* `compact`: objects in compact form are a `Torn.Format`: no text is read when it is cut short.
-/

namespace Json

open CStr Scanner

inductive Value
  | null
  | bool (b : Bool)
  | string (s : Bytes)
  deriving DecidableEq, Repr

abbrev Object := LinkedMap Bytes Value

def lower (b : UInt8) : UInt8 := if 65 ≤ b ∧ b ≤ 90 then b + 32 else b

/-- A boolean, or a string that spells one in letters of either case. -/
def Value.toBoolean : Value → Option Bool
  | .null => none
  | .bool b => some b
  | .string s =>
    if s.map lower = chars "true" then some true
    else if s.map lower = chars "false" then some false
    else none

/-! ## Strings -/

/-- `"` and `\`. -/
def quote : UInt8 := 0x22
def backslash : UInt8 := 0x5c

/-- What is escaped, and as what. -/
def escapes : List (UInt8 × UInt8) :=
  [(quote, quote), (backslash, backslash), (0x2f, 0x2f), (0x09, 0x74), (0x08, 0x62), (0x0a, 0x6e),
    (0x0d, 0x72), (0x0c, 0x66)]

def escape (b : UInt8) : Bytes :=
  match escapes.lookup b with
  | some c => [backslash, c]
  | none => [b]

def unescape (c : UInt8) : Option UInt8 := (escapes.find? (·.2 = c)).map (·.1)

/-- What is left of a string after its first quote. -/
def stringText (s : Bytes) : Bytes := s.flatMap escape ++ [quote]

def stringRest : List UInt8 → Option (Bytes × List UInt8)
  | [] => none
  | b :: s =>
    if b = quote then some ([], s)
    else if b = backslash then
      match s with
      | [] => none
      | c :: s => (unescape c).bind fun b => (stringRest s).map fun r => (b :: r.1, r.2)
    else (stringRest s).map fun r => (b :: r.1, r.2)

def string : Scan UInt8 Bytes := stringRest

theorem stringRest_quote (s : Bytes) : stringRest (quote :: s) = some ([], s) := by
  rw [stringRest.eq_def]
  exact if_pos rfl

theorem stringRest_backslash (c : UInt8) (s : Bytes) :
    stringRest (backslash :: c :: s) =
      (unescape c).bind fun b => (stringRest s).map fun r => (b :: r.1, r.2) := by
  rw [stringRest, if_neg (by decide), if_pos rfl]

theorem stringRest_cons {b : UInt8} (hq : b ≠ quote) (hb : b ≠ backslash) (s : Bytes) :
    stringRest (b :: s) = (stringRest s).map fun r => (b :: r.1, r.2) := by
  rw [stringRest.eq_def]
  exact (if_neg hq).trans (if_neg hb)

theorem stable_string : Stable string := by
  intro s
  show ∀ a r, stringRest s = some (a, r) → ∀ t, stringRest (s ++ t) = some (a, r ++ t)
  induction s using stringRest.induct with
  | case1 =>
    intro a r h
    cases h
  | case2 s =>
    intro a r h t
    rw [stringRest_quote] at h
    cases h
    exact stringRest_quote (s ++ t)
  | case3 h =>
    intro a r h'
    rw [stringRest, if_neg h, if_pos rfl] at h'
    cases h'
  | case4 h c s ih =>
    intro a r h' t
    rw [stringRest_backslash, Option.bind_eq_some_iff] at h'
    obtain ⟨b, hb, h'⟩ := h'
    obtain ⟨⟨bs, r'⟩, hs, he⟩ := Option.map_eq_some_iff.mp h'
    cases he
    rw [List.cons_append, List.cons_append, stringRest_backslash, hb, Option.bind_some,
      ih bs r' hs t]
    rfl
  | case5 b s hq hb ih =>
    intro a r h t
    rw [stringRest_cons hq hb] at h
    obtain ⟨⟨bs, r'⟩, hs, he⟩ := Option.map_eq_some_iff.mp h
    cases he
    rw [List.cons_append, stringRest_cons hq hb, ih bs r' hs t]
    rfl

theorem unescape_of_lookup {b c : UInt8} (h : escapes.lookup b = some c) :
    unescape c = some b := by
  obtain ⟨l₁, l₂, hl, -⟩ := List.lookup_eq_some_iff.mp h
  have hmem : (b, c) ∈ escapes := by
    rw [hl]
    exact List.mem_append_right l₁ List.mem_cons_self
  have hall : escapes.all fun e => unescape e.2 = some e.1 := by decide +kernel
  simpa using List.all_eq_true.mp hall _ hmem

/-- What stands for `b` in a string is read as `b`. -/
theorem stringRest_escape (b : UInt8) (s : Bytes) :
    stringRest (escape b ++ s) = (stringRest s).map fun r => (b :: r.1, r.2) := by
  unfold escape
  cases h : escapes.lookup b with
  | some c =>
    have hc : unescape c = some b := unescape_of_lookup h
    show stringRest (backslash :: c :: s) = _
    rw [stringRest_backslash, hc, Option.bind_some]
  | none =>
    refine stringRest_cons ?_ ?_ s
    · rintro rfl
      exact absurd h (by decide +kernel)
    · rintro rfl
      exact absurd h (by decide +kernel)

theorem reads_string (s : Bytes) : Reads string (stringText s) s := by
  intro t
  show stringRest (s.flatMap escape ++ [quote] ++ t) = some (s, t)
  rw [List.append_assoc]
  induction s with
  | nil => exact stringRest_quote t
  | cons b s ih =>
    rw [List.flatMap_cons, List.append_assoc, stringRest_escape, ih]
    rfl

/-! ## Values and entries -/

def Value.text : Value → Bytes
  | .null => chars "null"
  | .bool true => chars "true"
  | .bool false => chars "false"
  | .string s => quote :: stringText s

def value : Scan UInt8 Value := do
  let b ← one
  if b = quote then
    let s ← string
    return .string s
  else if b = 0x6e then
    word (chars "ull")
    return .null
  else if b = 0x74 then
    word (chars "rue")
    return .bool true
  else if b = 0x66 then
    word (chars "alse")
    return .bool false
  else failure

theorem stable_value : Stable value := by
  apply stable_one.bind
  intro b
  split_ifs
  · exact stable_string.bind fun s => .pure _
  · exact (stable_word _).bind fun _ => .pure _
  · exact (stable_word _).bind fun _ => .pure _
  · exact (stable_word _).bind fun _ => .pure _
  · exact .failure

theorem reads_value (v : Value) : Reads value v.text v := by
  cases v with
  | null => exact (reads_one 0x6e).bind ((reads_word (chars "ull")).bind (u := []) (.pure _))
  | bool b =>
    cases b
    · exact (reads_one 0x66).bind ((reads_word (chars "alse")).bind (u := []) (.pure _))
    · exact (reads_one 0x74).bind ((reads_word (chars "rue")).bind (u := []) (.pure _))
  | string s =>
    have h := (reads_string s).bind (f := fun s => pure (Value.string s)) (.pure (Value.string s))
    rw [List.append_nil] at h
    exact (reads_one quote).bind h

def entryText (e : Bytes × Value) : Bytes := quote :: stringText e.1 ++ 0x3a :: e.2.text

def entry : Scan UInt8 (Bytes × Value) := do
  mark quote
  let k ← string
  mark 0x3a
  let v ← value
  return (k, v)

theorem stable_entry : Stable entry :=
  (stable_mark _).bind fun _ => stable_string.bind fun _ => (stable_mark _).bind fun _ =>
    stable_value.bind fun _ => .pure _

theorem reads_entry (e : Bytes × Value) : Reads entry (entryText e) e := by
  have hv := (reads_value e.2).bind (f := fun v => pure (e.1, v)) (.pure e)
  rw [List.append_nil] at hv
  exact (reads_mark quote).bind ((reads_string e.1).bind ((reads_mark 0x3a).bind hv))

/-! ## Objects -/

def objectText (m : Object) : Bytes :=
  match m.entries with
  | [] => chars "\x7b\x7d"
  | es => 0x7b :: itemsText entryText 0x2c 0x7d es

/-- An object with not more than `n` entries. -/
def entries (n : ℕ) : Scan UInt8 (List (Bytes × Value)) := do
  mark 0x7b
  let empty ← takes 0x7d
  if empty then return [] else items entry 0x2c 0x7d n

theorem stable_entries (n : ℕ) : Stable (entries n) := by
  refine (stable_mark _).bind fun _ => (stable_takes _).bind fun empty => ?_
  split_ifs
  · exact .pure []
  · exact stable_entry.items n

theorem entries_mono {n m : ℕ} (hnm : n ≤ m) {s : Bytes} {x : List (Bytes × Value) × Bytes}
    (h : entries n s = some x) : entries m s = some x := by
  obtain ⟨⟨⟩, s₁, h₁, h⟩ := bind_eq_some.mp h
  obtain ⟨b, s₂, h₂, h⟩ := bind_eq_some.mp h
  refine bind_eq_some.mpr ⟨(), s₁, h₁, bind_eq_some.mpr ⟨b, s₂, h₂, ?_⟩⟩
  split_ifs at h ⊢
  · exact h
  · exact items_mono hnm h

theorem reads_entries (m : Object) {n : ℕ} (hn : m.entries.length ≤ n) :
    Reads (entries n) (objectText m) m.entries := by
  unfold objectText
  cases h : m.entries with
  | nil => exact (reads_mark 0x7b).bind ((reads_takes 0x7d).bind (u := []) (.pure []))
  | cons e es =>
    have hitems : Reads (items entry 0x2c 0x7d n) (itemsText entryText 0x2c 0x7d (e :: es))
        (e :: es) :=
      .items (by decide) (List.cons_ne_nil e es) (fun e _ => reads_entry e) (h ▸ hn)
    obtain ⟨u, hu⟩ : ∃ u, itemsText entryText 0x2c 0x7d (e :: es) = quote :: u := by
      cases es <;> exact ⟨_, rfl⟩
    apply (reads_mark 0x7b).bind
    intro t
    have htakes : takes 0x7d (itemsText entryText 0x2c 0x7d (e :: es) ++ t) =
        some (false, itemsText entryText 0x2c 0x7d (e :: es) ++ t) := by
      rw [hu]
      exact takes_of_ne (by decide) _
    rw [bind_of_eq_some htakes]
    exact hitems t

/-- An object, and whatever follows it. -/
def decode (text : Bytes) : Option Object :=
  (entries text.length text).map fun r => .ofEntries r.1

theorem length_entries_le (m : Object) : m.entries.length ≤ (objectText m).length := by
  unfold objectText
  cases m.entries with
  | nil => exact Nat.zero_le _
  | cons e es =>
    exact (length_le_length_itemsText entryText 0x2c 0x7d (e :: es)).trans (Nat.le_succ _)

/-- **What is printed is read back.** -/
theorem decode_objectText (m : Object) : decode (objectText m) = some m := by
  have h := reads_entries m (length_entries_le m) []
  rw [List.append_nil] at h
  rw [decode, h, Option.map_some, LinkedMap.ofEntries_entries]

theorem decode_cut (m : Object) {k : ℕ} (hk : k < (objectText m).length) :
    decode ((objectText m).take k) = none := by
  have hcut := (reads_entries m (length_entries_le m)).cut (stable_entries _) hk
  cases h : entries ((objectText m).take k).length ((objectText m).take k) with
  | none => rw [decode, h, Option.map_none]
  | some x =>
    -- with the fuel of the whole text the scanner would succeed as well
    have hlen : ((objectText m).take k).length ≤ (objectText m).length := List.length_take_le' k _
    cases hcut.symm.trans (entries_mono hlen h)

/-- **Compact JSON is a format.** -/
def compact : Torn.Format UInt8 (LinkedMap.get : Object → Bytes → Option Value) where
  encode := objectText
  decode := decode
  decode_encode m := ⟨m, decode_objectText m, rfl⟩
  decode_cut m _ := decode_cut m

end Json
