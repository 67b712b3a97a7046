import Koola.Lib.Stdio

/-!
# `ModuleInfo::createInfo`

* `Scan`, `Scan.body`, `loop`: the `while (!feof(fp))` loop, one `fgets` outcome an iteration.
* `createInfoWithin`: the function on any stream of outcomes, within a number of iterations.
* `ModuleInfo.createInfo`: the function on the content of `/proc/self/maps`, where it returns.
* **`createInfo_eq`**: on a file that reads without errors it keeps the start of the first piece
  that passes the test and the end of the last one.
-/

namespace Koola

open CStr Stdio

/-- `class ModuleInfo`. -/
structure ModuleInfo where
  head : UInt64
  «end» : UInt64
  deriving DecidableEq, Repr

/-- The literal `"(deleted)"`. -/
def deleted : Bytes := chars "(deleted)"

theorem deleted_eq : deleted = [40, 100, 101, 108, 101, 116, 101, 100, 41] := by decide +kernel

/-- `hAddr` and `eAddr`: a number in base 16 and, where a `-` stops it, the number after that. -/
def addrRange (buff : Bytes) : UInt64 × UInt64 :=
  match strtoul buff with
  | (hAddr, 45 :: s) => (hAddr, (strtoul s).1)
  | (hAddr, _) => (hAddr, 0)

/-- The test of the loop on the string in the buffer; the range when it passes. -/
def examine (libName buff : Bytes) : Option (UInt64 × UInt64) :=
  if (strstr buff deleted).isNone ∧ (strstr buff libName).isSome ∧
      (addrRange buff).1 ≠ 0 ∧ (addrRange buff).2 ≠ 0 then
    some (addrRange buff)
  else none

/-- The variables that the loop assigns when a range is found. -/
structure Found where
  isFound : Bool
  flag : Bool
  info : ModuleInfo
  deriving DecidableEq

/-- The assignments for a range: `head` only the first time, `end` every time. -/
def Found.record (f : Found) (r : UInt64 × UInt64) : Found where
  isFound := true
  flag := true
  info := { head := if f.flag then f.info.head else r.1, «end» := r.2 }

/-- The state of the loop: the buffer, the end-of-file flag of `fp`, what was found. -/
structure Scan where
  buff : Bytes
  eof : Bool
  found : Found

/-- `fgets(buff, sizeof(buff), fp)`. A call that stores nothing leaves the buffer as it was. -/
def Scan.fgets (s : Scan) : Fgets → Scan
  | .stored b e => { s with buff := cstr b, eof := s.eof || e }
  | .eof => { s with eof := true }
  | .error => s

/-- Does the iteration look into the buffer? `strstr` runs as soon as `!feof(fp)` holds. -/
def Scan.examines (s : Scan) (r : Fgets) : Bool := !(s.fgets r).eof

/-- One iteration of the loop. -/
def Scan.body (libName : Bytes) (s : Scan) (r : Fgets) : Scan :=
  if s.examines r then
    match examine libName (s.fgets r).buff with
    | some range => { s.fgets r with found := s.found.record range }
    | none => s.fgets r
  else s.fgets r

/-- `while (!feof(fp))`, for at most `fuel` iterations; `none` when the loop is still running. -/
def loop (libName : Bytes) : ℕ → (ℕ → Fgets) → Scan → Option Scan
  | 0, _, s => if s.eof then some s else none
  | fuel + 1, reads, s =>
    if s.eof then some s else loop libName fuel (fun i => reads (i + 1)) (s.body libName (reads 0))

/-- The state in which the loop starts, `buff` being what the uninitialised buffer holds. -/
def Scan.start (buff : Bytes) (info : ModuleInfo) : Scan := ⟨buff, false, false, false, info⟩

/-- `createInfo` within `fuel` iterations. `fp` is `none` when `fopen` fails. -/
def createInfoWithin (fuel : ℕ) (libName buff : Bytes) (fp : Option (ℕ → Fgets))
    (info : ModuleInfo) : Option (Bool × ModuleInfo) :=
  match fp with
  | none => some (false, info)
  | some reads => (loop libName fuel reads (.start buff info)).map fun s =>
      (s.found.isFound, s.found.info)

/-- `sizeof(buff) - 1`: the longest string that `fgets` stores here. -/
def room : ℕ := 255

/-! ## Files that read without errors -/

/-- The ranges found in a file, in order: one for each piece that passes the test. -/
def pieceRanges (libName content : Bytes) : List (UInt64 × UInt64) :=
  (pieces room content).filterMap fun p => examine libName (cstr p)

theorem Scan.body_stored (libName : Bytes) (s : Scan) (hs : s.eof = false) (b : Bytes) :
    s.body libName (.stored b false) =
      ⟨cstr b, false, (examine libName (cstr b)).toList.foldl Found.record s.found⟩ := by
  have he : s.examines (.stored b false) = true := by simp [Scan.examines, Scan.fgets, hs]
  rw [Scan.body, if_pos he]
  simp only [Scan.fgets, hs]
  cases examine libName (cstr b) <;> rfl

theorem Scan.body_setsEof (libName : Bytes) (s : Scan) {r : Fgets} (hr : r.setsEof = true) :
    (s.body libName r).eof = true ∧ (s.body libName r).found = s.found := by
  have he : (s.fgets r).eof = true := by
    cases r <;> simp_all [Scan.fgets, Fgets.setsEof]
  have hf : (s.fgets r).found = s.found := by cases r <;> rfl
  rw [Scan.body, if_neg (by simp [Scan.examines, he])]
  exact ⟨he, hf⟩

theorem loop_of_eof {libName : Bytes} {s : Scan} (hs : s.eof = true) (fuel : ℕ)
    (reads : ℕ → Fgets) : loop libName fuel reads s = some s := by
  cases fuel <;> rw [loop, if_pos hs]

/-- **The loop on a file.** With more iterations than bytes it ends, and has recorded the range
of each piece in turn. -/
theorem loop_file (libName : Bytes) (fuel : ℕ) (content : Bytes) (h : content.length < fuel)
    (s : Scan) (hs : s.eof = false) :
    ∃ s', loop libName fuel (fgetsCalls room content) s = some s' ∧
      s'.found = (pieceRanges libName content).foldl Found.record s.found := by
  induction fuel generalizing content s with
  | zero => omega
  | succ fuel ih =>
    rw [loop, if_neg (by simp [hs])]
    show ∃ s', loop libName fuel (fgetsCalls room (fgets room content).2)
      (s.body libName (fgets room content).1) = some s' ∧ _
    rcases fgets_cases (n := room) (by decide) content with ⟨b, t, he, hp, ht⟩ | ⟨he, hp⟩
    · rw [he, Scan.body_stored libName s hs]
      obtain ⟨s', h1, h2⟩ := ih t (by omega) ⟨cstr b, false, _⟩ rfl
      refine ⟨s', h1, ?_⟩
      rw [h2, pieceRanges, pieceRanges, hp, List.filterMap_cons]
      cases examine libName (cstr b) <;> rfl
    · obtain ⟨h1, h2⟩ := s.body_setsEof libName he
      exact ⟨_, loop_of_eof h1 _ _, by rw [h2, pieceRanges, hp]; rfl⟩

theorem foldl_record_of_flag (rs : List (UInt64 × UInt64)) (info : ModuleInfo) :
    rs.foldl Found.record ⟨true, true, info⟩ =
      ⟨true, true, info.head, (rs.getLast?.map Prod.snd).getD info.end⟩ := by
  induction rs generalizing info with
  | nil => rfl
  | cons r rs ih =>
    rw [List.foldl_cons, Found.record, ih, List.getLast?_cons]
    cases rs.getLast? <;> rfl

/-- The result for a list of ranges: the first start and the last end, if there is any. -/
def rangesResult (rs : List (UInt64 × UInt64)) (info : ModuleInfo) : Bool × ModuleInfo :=
  (!rs.isEmpty,
    ⟨(rs.head?.map Prod.fst).getD info.head, (rs.getLast?.map Prod.snd).getD info.end⟩)

theorem foldl_record (rs : List (UInt64 × UInt64)) (info : ModuleInfo) :
    let f := rs.foldl Found.record ⟨false, false, info⟩
    (f.isFound, f.info) = rangesResult rs info := by
  cases rs with
  | nil => rfl
  | cons r rs =>
    rw [List.foldl_cons, Found.record, foldl_record_of_flag]
    simp only [rangesResult, List.getLast?_cons]
    cases rs.getLast? <;> rfl

/-- **`createInfo` returns on every file**, whatever the buffer held before, within as many
iterations as the file has bytes and one more. -/
theorem createInfoWithin_file (libName buff content : Bytes) (info : ModuleInfo) (fuel : ℕ)
    (h : content.length < fuel) :
    createInfoWithin fuel libName buff (some (fgetsCalls room content)) info =
      some (rangesResult (pieceRanges libName content) info) := by
  obtain ⟨s, h1, h2⟩ := loop_file libName fuel content h (.start buff info) rfl
  simp only [createInfoWithin, h1, Option.map_some, h2]
  exact congrArg some (foldl_record _ info)

theorem createInfoWithin_isSome (libName : Bytes) (maps : Option Bytes) (info : ModuleInfo) :
    (createInfoWithin ((maps.getD []).length + 1) libName [] (maps.map (fgetsCalls room))
      info).isSome := by
  cases maps with
  | none => rfl
  | some content =>
    simp only [Option.map_some, Option.getD_some]
    rw [createInfoWithin_file libName [] content info _ (Nat.lt_succ_self _)]
    rfl

/-- `info.createInfo(libName)`: its result and the object after it. `maps` is the content of
`/proc/self/maps`, or `none` when it cannot be opened. -/
def ModuleInfo.createInfo (info : ModuleInfo) (libName : Bytes) (maps : Option Bytes) :
    Bool × ModuleInfo :=
  (createInfoWithin ((maps.getD []).length + 1) libName [] (maps.map (fgetsCalls room)) info).get
    (createInfoWithin_isSome libName maps info)

/-- **`createInfo` on a file.** -/
theorem createInfo_eq (info : ModuleInfo) (libName content : Bytes) :
    info.createInfo libName (some content) = rangesResult (pieceRanges libName content) info := by
  apply Option.get_of_eq_some
  exact createInfoWithin_file libName [] content info _ (Nat.lt_succ_self _)

theorem createInfo_none (info : ModuleInfo) (libName : Bytes) :
    info.createInfo libName none = (false, info) := rfl

end Koola
