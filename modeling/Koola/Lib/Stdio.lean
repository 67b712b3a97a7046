import Koola.Lib.CString
import Mathlib.Tactic.Linarith

/-!
# Reading a file with `fgets`

* `Fgets`: what one call can do to its caller: store a string, meet the end of the file, fail.
* `readLine`, `fgets`, `fgetsCalls`: the calls on a file that reads without errors.
* `pieces`, **`fgets_cases`**: the strings stored before the end-of-file flag is set, in order.
* Files made of lines: `pieces_append`, `pieces_short`, `pieces_full`, **`pieces_line`**.
-/

namespace Stdio

open CStr

/-- The newline. -/
def nl : UInt8 := 10

/-- The outcome of one call of `fgets`: a string was stored (`eof` says whether the call also ran
into the end of the file and set the flag), nothing was left, or the read failed. -/
inductive Fgets
  | stored (s : Bytes) (eof : Bool)
  | eof
  | error

/-- Does the call leave the end-of-file flag set? -/
def Fgets.setsEof : Fgets → Bool
  | .stored _ e => e
  | .eof => true
  | .error => false

/-- Did the call store a string in the buffer? -/
def Fgets.stores : Fgets → Bool
  | .stored _ _ => true
  | _ => false

/-- Read at most `k` bytes and not beyond a newline: what was read, whether the end of the file
was met, and the part of the file that is left. -/
def readLine : ℕ → Bytes → Bytes × Bool × Bytes
  | 0, s => ([], false, s)
  | _ + 1, [] => ([], true, [])
  | k + 1, b :: s => if b = nl then ([b], false, s) else (b :: (readLine k s).1, (readLine k s).2)

/-- `fgets` with a buffer of `n + 1` bytes, where `s` is left of the file. -/
def fgets (n : ℕ) (s : Bytes) : Fgets × Bytes :=
  match readLine n s with
  | ([], _, t) => (.eof, t)
  | (b :: r, e, t) => (.stored (b :: r) e, t)

/-- The outcomes of calling `fgets` again and again. -/
def fgetsCalls (n : ℕ) : Bytes → ℕ → Fgets
  | s, 0 => (fgets n s).1
  | s, i + 1 => fgetsCalls n (fgets n s).2 i

/-- The pieces of `s` with `cur` already in the buffer and room for `k` more bytes. A piece ends
with a newline or with a full buffer; an unfinished one at the end of the file is left out. -/
def piecesFrom (n : ℕ) : ℕ → Bytes → Bytes → List Bytes
  | _, _, [] => []
  | k, cur, b :: s =>
    if b = nl ∨ k ≤ 1 then (cur ++ [b]) :: piecesFrom n n [] s
    else piecesFrom n (k - 1) (cur ++ [b]) s

/-- **The pieces of a file**: the strings that `fgets` stores without setting the flag. -/
def pieces (n : ℕ) (s : Bytes) : List Bytes := piecesFrom n n [] s

variable {n : ℕ}

theorem readLine_length (k : ℕ) (s : Bytes) :
    (readLine k s).1.length + (readLine k s).2.2.length = s.length := by
  induction s generalizing k with
  | nil => cases k <;> rfl
  | cons b s ih =>
    cases k with
    | zero => simp [readLine]
    | succ k =>
      rw [readLine]
      split_ifs
      · simp; omega
      · have := ih k
        simp only [List.length_cons]; omega

theorem piecesFrom_eq (k : ℕ) (hk : 0 < k) (cur s : Bytes) :
    piecesFrom n k cur s = if (readLine k s).2.1 then [] else
      (cur ++ (readLine k s).1) :: pieces n (readLine k s).2.2 := by
  induction s generalizing k cur with
  | nil =>
    obtain ⟨k, rfl⟩ := Nat.exists_eq_add_one_of_ne_zero hk.ne'
    simp [piecesFrom, readLine]
  | cons b s ih =>
    obtain ⟨k, rfl⟩ := Nat.exists_eq_add_one_of_ne_zero hk.ne'
    by_cases hb : b = nl
    · simp [piecesFrom, readLine, hb, pieces]
    · cases k with
      | zero => simp [piecesFrom, readLine, hb, pieces]
      | succ k =>
        have hb' : ¬ (b = nl ∨ k + 1 + 1 ≤ 1) := by simp [hb]
        rw [piecesFrom, if_neg hb', Nat.add_sub_cancel, ih (k + 1) (by omega), readLine, if_neg hb]
        simp

/-- **One call of `fgets`** either stores the first piece and leaves the flag clear, or sets the
flag when no piece is left. -/
theorem fgets_cases (hn : 0 < n) (s : Bytes) :
    (∃ r t, fgets n s = (.stored r false, t) ∧ pieces n s = r :: pieces n t ∧
      t.length < s.length) ∨ ((fgets n s).1.setsEof = true ∧ pieces n s = []) := by
  have hp := piecesFrom_eq (n := n) n hn [] s
  have hl := readLine_length n s
  have hnil : (readLine n s).1 = [] → (readLine n s).2.1 = true := by
    obtain ⟨k, rfl⟩ := Nat.exists_eq_add_one_of_ne_zero hn.ne'
    cases s with
    | nil => simp [readLine]
    | cons b s => rw [readLine]; split_ifs <;> simp
  unfold fgets
  rcases he : readLine n s with ⟨r, e, t⟩
  simp only [he, List.nil_append] at hp hl hnil
  cases r with
  | nil => exact .inr ⟨rfl, by rw [pieces, hp, if_pos (hnil rfl)]⟩
  | cons b r =>
    cases e with
    | false =>
      refine .inl ⟨b :: r, t, rfl, by rw [pieces, hp]; rfl, ?_⟩
      simp only [List.length_cons] at hl; omega
    | true => exact .inr ⟨rfl, by rw [pieces, hp]; rfl⟩

/-! ## Files made of lines -/

theorem piecesFrom_append (k : ℕ) (cur l s : Bytes) (hl : nl ∉ l) :
    piecesFrom n k cur (l ++ nl :: s) = piecesFrom n k cur (l ++ [nl]) ++ pieces n s := by
  induction l generalizing k cur with
  | nil => simp [piecesFrom, pieces]
  | cons b l ih =>
    have hl' : nl ∉ l := fun h => hl (List.mem_cons_of_mem _ h)
    simp only [List.cons_append, piecesFrom]
    split_ifs
    · rw [ih n [] hl', List.cons_append]
    · exact ih _ _ hl'

/-- Reading starts afresh after a newline. -/
theorem pieces_append (l s : Bytes) (hl : nl ∉ l) :
    pieces n (l ++ nl :: s) = pieces n (l ++ [nl]) ++ pieces n s :=
  piecesFrom_append n [] l s hl

/-- The file made of the given lines, each ended by a newline. -/
def unlines (ls : List Bytes) : Bytes := ls.flatMap (· ++ [nl])

theorem pieces_unlines (ls : List Bytes) (h : ∀ l ∈ ls, nl ∉ l) :
    pieces n (unlines ls) = ls.flatMap fun l => pieces n (l ++ [nl]) := by
  induction ls with
  | nil => rfl
  | cons l ls ih =>
    have e : unlines (l :: ls) = l ++ nl :: unlines ls := by simp [unlines]
    rw [e, pieces_append l _ (h l List.mem_cons_self), List.flatMap_cons,
      ih fun l' hl' => h l' (List.mem_cons_of_mem _ hl')]

theorem piecesFrom_line (k : ℕ) (cur l : Bytes) (hl : nl ∉ l) (hlk : l.length ≤ k) (hk : 0 < k) :
    piecesFrom n k cur (l ++ [nl]) =
      if l.length < k then [cur ++ l ++ [nl]] else [cur ++ l, [nl]] := by
  induction l generalizing k cur with
  | nil => simp [piecesFrom, hk]
  | cons b l ih =>
    have hb : b ≠ nl := fun e => hl (e ▸ List.mem_cons_self)
    have hl' : nl ∉ l := fun h => hl (List.mem_cons_of_mem _ h)
    simp only [List.length_cons] at hlk ⊢
    by_cases hk1 : k ≤ 1
    · obtain rfl : l = [] := List.eq_nil_of_length_eq_zero (by omega)
      simp [piecesFrom, hk1]
    · rw [List.cons_append, piecesFrom, if_neg (by simp [hb, hk1]),
        ih (k - 1) _ hl' (by omega) (by omega)]
      simp only [List.append_assoc, List.singleton_append]
      exact if_congr (by omega) rfl rfl

theorem flatten_piecesFrom_line (k : ℕ) (cur l : Bytes) (hl : nl ∉ l) :
    (piecesFrom n k cur (l ++ [nl])).flatten = cur ++ (l ++ [nl]) := by
  induction l generalizing k cur with
  | nil => simp [piecesFrom]
  | cons b l ih =>
    have hl' : nl ∉ l := fun h => hl (List.mem_cons_of_mem _ h)
    simp only [List.cons_append, piecesFrom]
    split_ifs
    · simp [ih _ _ hl']
    · simp [ih _ _ hl']

/-- Nothing of a line is lost. -/
theorem flatten_pieces_line {l : Bytes} (hl : nl ∉ l) :
    (pieces n (l ++ [nl])).flatten = l ++ [nl] :=
  flatten_piecesFrom_line n [] l hl

/-- A line that fits with its newline is one piece. -/
theorem pieces_short {l : Bytes} (hl : nl ∉ l) (h : l.length < n) :
    pieces n (l ++ [nl]) = [l ++ [nl]] := by
  rw [pieces, piecesFrom_line n [] l hl h.le (by omega), if_pos h]
  rfl

/-- A line that fills the buffer leaves its newline to a piece of its own. -/
theorem pieces_full {l : Bytes} (hl : nl ∉ l) (h : l.length = n) (hn : 0 < n) :
    pieces n (l ++ [nl]) = [l, [nl]] := by
  rw [pieces, piecesFrom_line n [] l hl h.le hn, if_neg (by omega)]
  rfl

/-- From the middle of a piece on. -/
theorem toChunks_go (hn : 0 < n) {l : Bytes} (hl : nl ∉ l) (acc : Array UInt8)
    (out : Array Bytes) (hacc : acc.size ≤ n) :
    List.toChunks.go n (l ++ [nl]) acc out = out.toList ++
      if acc.size = n then acc.toList :: pieces n (l ++ [nl])
      else piecesFrom n (n - acc.size) acc.toList (l ++ [nl]) := by
  induction l generalizing acc out with
  | nil =>
    by_cases h : acc.size = n
    · simp [List.toChunks.go, h, pieces, piecesFrom]
    · simp [List.toChunks.go, h, piecesFrom]
  | cons b l ih =>
    have hb : b ≠ nl := fun e => hl (e ▸ List.mem_cons_self)
    have ih := ih fun h => hl (List.mem_cons_of_mem _ h)
    by_cases h : acc.size = n
    · rw [if_pos h, List.cons_append, List.toChunks.go, if_pos (beq_iff_eq.mpr h), ih _ _ (by simpa)]
      simp only [pieces, piecesFrom, hb, false_or]
      by_cases h1 : n ≤ 1
      · have h1' : 1 = n := by omega
        simp [h1']
      · have h1' : 1 ≠ n := by omega
        simp [h1, h1']
    · rw [if_neg h, List.cons_append, List.toChunks.go, if_neg (by simpa using h),
        ih _ _ (by rw [Array.size_push]; omega)]
      simp only [piecesFrom, hb, false_or, Array.size_push, Array.toList_push]
      by_cases h1 : acc.size + 1 = n
      · rw [if_pos h1, if_pos (by omega), pieces]
      · rw [if_neg h1, if_neg (by omega), Nat.sub_add_eq]

/-- **A line with its newline is cut every `n` bytes.** -/
theorem pieces_line (hn : 0 < n) {l : Bytes} (hl : nl ∉ l) :
    pieces n (l ++ [nl]) = (l ++ [nl]).toChunks n := by
  obtain ⟨k, rfl⟩ := Nat.exists_eq_add_one_of_ne_zero hn.ne'
  have hgo := toChunks_go hn hl #[] #[] (Nat.zero_le _)
  rw [if_neg (by simp)] at hgo
  refine hgo.symm.trans ?_
  cases l with
  | nil => rfl
  | cons b l =>
    rw [List.cons_append, List.toChunks.go, if_neg (by simp)]
    rfl

end Stdio
