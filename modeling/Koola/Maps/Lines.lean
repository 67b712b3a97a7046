import Koola.Maps.CreateInfo

/-!
# `createInfo` against a reading line by line

* `MapsLine`: a line of the maps file; `Matches`, `matching`: the lines that name the library.
* `AgreesWithLines`: the result that a reading line by line gives.
* `MapsLine.cuts`: a line is cut every `room` bytes; `Spared`: the cuts do not change what is read
  of the line.
* **`agrees_of_spared`**: the two agree if the lines at the ends are spared (`EndsSpared`), and on a
  line by itself only if it is; lines that fit always are (`endsSpared_of_short`).
-/

namespace Koola

open CStr Stdio

/-- A line of `/proc/self/maps`: two addresses in bare digits, then any text. -/
structure MapsLine where
  start : Bytes
  «end» : Bytes
  text : Bytes
  start_ne : start ≠ []
  start_hex : ∀ d ∈ start, isHex d
  start_fits : hexVal start < 2 ^ 64
  end_ne : «end» ≠ []
  end_hex : ∀ d ∈ «end», isHex d
  end_fits : hexVal «end» < 2 ^ 64
  text_nl : nl ∉ text
  text_nul : 0 ∉ text

/-- A line from its parts. -/
def MapsLine.of (start «end» text : Bytes)
    (hstart : start ≠ [] ∧ (∀ d ∈ start, isHex d) ∧ hexVal start < 2 ^ 64)
    (hend : «end» ≠ [] ∧ (∀ d ∈ «end», isHex d) ∧ hexVal «end» < 2 ^ 64)
    (htext : nl ∉ text ∧ 0 ∉ text) : MapsLine :=
  ⟨start, «end», text, hstart.1, hstart.2.1, hstart.2.2, hend.1, hend.2.1, hend.2.2, htext.1,
    htext.2⟩

/-- A library name: a C string that is not empty and has no newline. -/
structure LibName where
  name : Bytes
  ne : name ≠ []
  nl : Stdio.nl ∉ name
  nul : 0 ∉ name

namespace MapsLine

/-- The bytes of a line, without the newline. -/
def bytes (l : MapsLine) : Bytes := l.start ++ 45 :: (l.end ++ 32 :: l.text)

/-- The address where the range of the line starts. -/
def startAddr (l : MapsLine) : UInt64 := UInt64.ofNat (hexVal l.start)

/-- The address where the range of the line ends. -/
def endAddr (l : MapsLine) : UInt64 := UInt64.ofNat (hexVal l.end)

/-- The range of the line. -/
def range (l : MapsLine) : UInt64 × UInt64 := (l.startAddr, l.endAddr)

/-- The line mentions the library and is not a deleted mapping. -/
def Mentions (libName : LibName) (l : MapsLine) : Prop :=
  libName.name <:+: l.bytes ∧ ¬ deleted <:+: l.bytes

/-- The line mentions the library and has non-zero addresses. -/
def Matches (libName : LibName) (l : MapsLine) : Prop :=
  l.Mentions libName ∧ l.startAddr ≠ 0 ∧ l.endAddr ≠ 0

instance (libName : LibName) (l : MapsLine) : Decidable (l.Mentions libName) :=
  decidable_of_iff ((strstr l.bytes libName.name).isSome ∧ (strstr l.bytes deleted).isNone) <| by
    rw [strstr_isSome, strstr_isNone]; rfl

instance (libName : LibName) (l : MapsLine) : Decidable (l.Matches libName) :=
  inferInstanceAs (Decidable (_ ∧ _))

end MapsLine

/-- The file made of the lines. -/
def mapsContent (lines : List MapsLine) : Bytes := unlines (lines.map MapsLine.bytes)

/-- The matching lines, in order. -/
def matching (libName : LibName) (lines : List MapsLine) : List MapsLine :=
  lines.filter fun l => l.Matches libName

/-- **The result of a reading line by line**: success if some line matches; then the start of the
first matching line and the end of the last one; otherwise the object as it was. -/
def AgreesWithLines (libName : LibName) (lines : List MapsLine) (info : ModuleInfo)
    (res : Bool × ModuleInfo) : Prop :=
  (res.1 = true ↔ ∃ l ∈ lines, l.Matches libName) ∧
    (res.1 = true →
      (∃ l, (matching libName lines).head? = some l ∧ res.2.head = l.startAddr) ∧
        ∃ l, (matching libName lines).getLast? = some l ∧ res.2.end = l.endAddr) ∧
    (res.1 = false → res.2 = info)

/-- A string that is taken for a matching line: it names the library, has no `(deleted)`, and
non-zero addresses are read from its start. -/
def Passes (libName : LibName) (p : Bytes) : Prop :=
  libName.name <:+: p ∧ ¬ deleted <:+: p ∧ (addrRange p).1 ≠ 0 ∧ (addrRange p).2 ≠ 0

instance (libName : LibName) (p : Bytes) : Decidable (Passes libName p) :=
  decidable_of_iff ((strstr p libName.name).isSome ∧ (strstr p deleted).isNone ∧
    (addrRange p).1 ≠ 0 ∧ (addrRange p).2 ≠ 0) <| by
    rw [strstr_isSome, strstr_isNone]; rfl

namespace MapsLine

variable (libName : LibName) (l : MapsLine)

/-- The line and its newline, cut every `room` bytes. -/
def cuts : List Bytes := (l.bytes ++ [nl]).toChunks room

/-- The pieces of the line that are taken for matching lines. -/
def passing : List Bytes := l.cuts.filter fun p => Passes libName p

/-- **The cuts spare the line.** If it matches, a piece of it passes; the first that does starts
with its start address, and the last one has its end address. If it does not match, none passes. -/
structure Spared : Prop where
  found : l.passing libName ≠ [] ↔ l.Matches libName
  first : ∀ p, (l.passing libName).head? = some p → (addrRange p).1 = l.startAddr
  last : ∀ p, (l.passing libName).getLast? = some p → (addrRange p).2 = l.endAddr

end MapsLine

/-! ## The pieces of one line -/

namespace MapsLine

variable (libName : LibName) (l : MapsLine)

theorem isHex_notMem {c : UInt8} (hc : isHex c = false) {s : Bytes} (hs : ∀ d ∈ s, isHex d) :
    c ∉ s := fun h => by simp [hs c h] at hc

theorem nl_notMem_bytes : nl ∉ l.bytes := by
  have h1 := isHex_notMem (c := nl) (by decide) l.start_hex
  have h2 := isHex_notMem (c := nl) (by decide) l.end_hex
  have h3 : nl ≠ 45 ∧ nl ≠ 32 := by decide
  simp [bytes, h1, h2, h3, l.text_nl]

theorem nul_notMem_bytes : 0 ∉ l.bytes := by
  have h1 := isHex_notMem (c := 0) (by decide) l.start_hex
  have h2 := isHex_notMem (c := 0) (by decide) l.end_hex
  simp [bytes, h1, h2, l.text_nul]

/-- The two `strtoul` calls read the addresses of the line, whatever follows it. -/
theorem addrRange_bytes (s : Bytes) : addrRange (l.bytes ++ s) = l.range := by
  have h1 := strtoul_digits l.start_ne l.start_hex l.start_fits (c := 45) (by decide) (by decide)
    (l.end ++ 32 :: l.text ++ s)
  have h2 := strtoul_digits l.end_ne l.end_hex l.end_fits (c := 32) (by decide) (by decide)
    (l.text ++ s)
  have hb : l.bytes ++ s = l.start ++ 45 :: (l.end ++ 32 :: l.text ++ s) := by simp [bytes]
  rw [addrRange, hb, h1]
  simp only [List.append_assoc, List.cons_append]
  rw [h2]
  rfl

/-- **The test of the loop on a whole line**, with or without its newline. -/
theorem examine_bytes {s : Bytes} (hs : s = [] ∨ s = [nl]) :
    examine libName.name (cstr (l.bytes ++ s)) =
      if l.Matches libName then some l.range else none := by
  have h0 : 0 ∉ l.bytes ++ s := by
    have := l.nul_notMem_bytes
    rcases hs with rfl | rfl <;> simp [this, nl]
  have hlib : libName.name <:+: l.bytes ++ s ↔ libName.name <:+: l.bytes := by
    rcases hs with rfl | rfl
    · rw [List.append_nil]
    · exact infix_concat_iff libName.ne libName.nl
  have hdel : deleted <:+: l.bytes ++ s ↔ deleted <:+: l.bytes := by
    rcases hs with rfl | rfl
    · rw [List.append_nil]
    · exact infix_concat_iff (by simp [deleted_eq]) (by rw [deleted_eq]; decide)
  rw [cstr_eq_self h0, examine, l.addrRange_bytes]
  refine if_congr ?_ rfl rfl
  rw [strstr_isNone, strstr_isSome, hlib, hdel, Matches, Mentions, range]
  tauto

theorem examine_nl : examine libName.name (cstr [nl]) = none := by
  rw [cstr_eq_self (by simp [nl]), examine, if_neg]
  rintro ⟨-, h, -⟩
  rw [strstr_isSome] at h
  have : libName.name <:+: [] ++ [nl] := h
  rw [infix_concat_iff libName.ne libName.nl] at this
  exact libName.ne (List.eq_nil_of_infix_nil this)

theorem nul_notMem_cuts {p : Bytes} (hp : p ∈ l.cuts) : 0 ∉ p := by
  intro h0
  have hmem : (0 : UInt8) ∈ l.cuts.flatten := List.mem_flatten.mpr ⟨p, hp, h0⟩
  rw [cuts, ← pieces_line (by decide) l.nl_notMem_bytes, flatten_pieces_line l.nl_notMem_bytes]
    at hmem
  rcases List.mem_append.mp hmem with h | h
  · exact l.nul_notMem_bytes h
  · exact absurd (List.mem_singleton.mp h) (by decide)

/-- **What the loop finds on a line.** -/
theorem pieceRanges_line :
    pieceRanges libName.name (l.bytes ++ [nl]) = (l.passing libName).map addrRange := by
  rw [pieceRanges, pieces_line (by decide) l.nl_notMem_bytes, passing, ← List.filterMap_eq_map,
    ← cuts, List.filterMap_filter]
  refine List.filterMap_congr fun p hp => ?_
  rw [cstr_eq_self (l.nul_notMem_cuts hp), examine]
  refine if_congr ?_ rfl rfl
  rw [strstr_isNone, strstr_isSome, decide_eq_true_eq, Passes]
  tauto

/-- A line that fits is seen as a whole, also when it fills the buffer. -/
theorem pieceRanges_short (h : l.bytes.length ≤ room) :
    pieceRanges libName.name (l.bytes ++ [nl]) =
      if l.Matches libName then [l.range] else [] := by
  have e1 := l.examine_bytes libName (s := [nl]) (.inr rfl)
  have e0 := l.examine_bytes libName (s := []) (.inl rfl)
  rw [List.append_nil] at e0
  rw [pieceRanges]
  rcases h.lt_or_eq with h | h
  · rw [pieces_short l.nl_notMem_bytes h, List.filterMap_cons, e1]
    split_ifs <;> rfl
  · rw [pieces_full l.nl_notMem_bytes h (by decide), List.filterMap_cons, e0, List.filterMap_cons,
      examine_nl]
    split_ifs <;> rfl

/-- The line, if it matches. -/
def own : List MapsLine := if l.Matches libName then [l] else []

/-- **Spared lines**, by the ranges that the loop finds on them. -/
theorem spared_iff : l.Spared libName ↔
    (pieceRanges libName.name (l.bytes ++ [nl])).head?.map Prod.fst =
        (l.own libName).head?.map startAddr ∧
      (pieceRanges libName.name (l.bytes ++ [nl])).getLast?.map Prod.snd =
        (l.own libName).getLast?.map endAddr := by
  rw [pieceRanges_line, List.head?_map, List.getLast?_map, Option.map_map, Option.map_map, own]
  rcases hp : l.passing libName with _ | ⟨p, ps⟩
  · by_cases hm : l.Matches libName
    · exact iff_of_false (fun h => absurd hp (h.found.mpr hm)) (by simp [hm])
    · exact iff_of_true ⟨by simp [hp, hm], by simp [hp], by simp [hp]⟩ (by simp [hm])
  · by_cases hm : l.Matches libName
    · rw [if_pos hm, List.getLast?_cons]
      refine ⟨fun h => ⟨congrArg some (h.first p (by rw [hp]; rfl)), congrArg some (h.last _ ?_)⟩,
        fun h => ⟨by simp [hp, hm], fun q hq => ?_, fun q hq => ?_⟩⟩
      · rw [hp, List.getLast?_cons]
      · rw [hp] at hq
        obtain rfl : p = q := by simpa using hq
        exact Option.some.inj h.1
      · rw [hp, List.getLast?_cons] at hq
        obtain rfl := Option.some.inj hq
        exact Option.some.inj h.2
    · exact iff_of_false (fun h => hm (h.found.mp (by simp [hp]))) (by simp [hm])

/-- **A line that fits is spared.** -/
theorem spared_of_short (h : l.bytes.length ≤ room) : l.Spared libName := by
  rw [spared_iff, pieceRanges_short libName l h, own]
  split_ifs
  · exact ⟨rfl, rfl⟩
  · exact ⟨rfl, rfl⟩

end MapsLine

/-! ## Whole files -/

variable (libName : LibName) (lines : List MapsLine) (info : ModuleInfo)

theorem pieceRanges_lines : pieceRanges libName.name (mapsContent lines) =
    lines.flatMap fun l => pieceRanges libName.name (l.bytes ++ [nl]) := by
  have h : ∀ l ∈ lines.map MapsLine.bytes, nl ∉ l := by
    intro b hb
    obtain ⟨l, -, rfl⟩ := List.mem_map.mp hb
    exact l.nl_notMem_bytes
  rw [pieceRanges, mapsContent, pieces_unlines _ h, List.flatMap_map, List.filterMap_flatMap]
  rfl

theorem pieceRanges_of_short (h : ∀ l ∈ lines, l.bytes.length ≤ room) :
    pieceRanges libName.name (mapsContent lines) =
      (matching libName lines).map MapsLine.range := by
  rw [pieceRanges_lines]
  induction lines with
  | nil => rfl
  | cons l ls ih =>
    rw [List.flatMap_cons, l.pieceRanges_short libName (h l List.mem_cons_self),
      ih fun l' hl' => h l' (List.mem_cons_of_mem _ hl'), matching, matching, List.filter_cons]
    split_ifs <;> simp_all

theorem matching_eq_flatMap : matching libName lines = lines.flatMap (MapsLine.own libName) := by
  induction lines with
  | nil => rfl
  | cons l ls ih =>
    rw [matching, List.filter_cons, List.flatMap_cons, ← ih, MapsLine.own, matching]
    split_ifs <;> simp_all

theorem exists_matches_iff :
    (∃ l ∈ lines, l.Matches libName) ↔ (matching libName lines).isEmpty = false := by
  rw [List.isEmpty_eq_false_iff_exists_mem]
  simp [matching]

theorem rangesResult_agrees_iff (rs : List (UInt64 × UInt64)) :
    AgreesWithLines libName lines info (rangesResult rs info) ↔
      rs.head?.map Prod.fst = (matching libName lines).head?.map MapsLine.startAddr ∧
        rs.getLast?.map Prod.snd = (matching libName lines).getLast?.map MapsLine.endAddr := by
  rw [AgreesWithLines, exists_matches_iff]
  rcases hm : matching libName lines with _ | ⟨m, ms⟩ <;> rcases rs with _ | ⟨r, rs⟩
  · simp [rangesResult]
  · simp [rangesResult]
  · simp [rangesResult]
  · simp [rangesResult, List.getLast?_cons]

/-- **The lines at the ends are spared**: those that no matching line precedes, and those that no
matching line follows. -/
def EndsSpared : Prop :=
  ∀ pre l post, lines = pre ++ l :: post →
    (∀ l' ∈ pre, ¬ l'.Matches libName) ∨ (∀ l' ∈ post, ¬ l'.Matches libName) → l.Spared libName

variable {libName lines}

/-- In a file whose lines all fit, every line is spared. -/
theorem endsSpared_of_short (h : ∀ l ∈ lines, l.bytes.length ≤ room) : EndsSpared libName lines :=
  fun _ l _ heq _ =>
    l.spared_of_short libName (h l (heq ▸ List.mem_append_right _ List.mem_cons_self))

/-- Up to the first matching line nothing else is found. -/
theorem head_of_spared (h : ∀ pre l post, lines = pre ++ l :: post →
    (∀ l' ∈ pre, ¬ l'.Matches libName) → l.Spared libName) :
    (pieceRanges libName.name (mapsContent lines)).head?.map Prod.fst =
      (matching libName lines).head?.map MapsLine.startAddr := by
  rw [pieceRanges_lines, matching_eq_flatMap]
  induction lines with
  | nil => rfl
  | cons l ls ih =>
    have hspared := h [] l ls rfl fun l' hl' => absurd hl' List.not_mem_nil
    have hl := ((l.spared_iff libName).mp hspared).1
    rw [List.flatMap_cons, List.flatMap_cons, List.head?_append, List.head?_append,
      Option.map_or, Option.map_or, hl]
    by_cases hm : l.Matches libName
    · rw [MapsLine.own, if_pos hm]
      rfl
    · rw [ih fun pre l' post heq hpre => h (l :: pre) l' post (by rw [heq]; rfl) ?_]
      exact List.forall_mem_cons.mpr ⟨hm, hpre⟩

/-- And nothing else from the last one on. -/
theorem last_of_spared (h : ∀ pre l post, lines = pre ++ l :: post →
    (∀ l' ∈ post, ¬ l'.Matches libName) → l.Spared libName) :
    (pieceRanges libName.name (mapsContent lines)).getLast?.map Prod.snd =
      (matching libName lines).getLast?.map MapsLine.endAddr := by
  rw [pieceRanges_lines, matching_eq_flatMap]
  induction lines using List.reverseRecOn with
  | nil => rfl
  | append_singleton ls l ih =>
    have hspared := h ls l [] rfl fun l' hl' => absurd hl' List.not_mem_nil
    have hl := ((l.spared_iff libName).mp hspared).2
    rw [List.flatMap_append, List.flatMap_append, List.flatMap_singleton, List.flatMap_singleton,
      List.getLast?_append, List.getLast?_append, Option.map_or, Option.map_or, hl]
    by_cases hm : l.Matches libName
    · rw [MapsLine.own, if_pos hm]
      rfl
    · rw [ih fun pre l' post heq hpost => h pre l' (post ++ [l]) (by simp [heq]) ?_]
      intro l'' hl''
      rcases List.mem_append.mp hl'' with hin | hin
      · exact hpost l'' hin
      · exact List.mem_singleton.mp hin ▸ hm

variable (libName lines)

/-- **`createInfo` agrees with a reading line by line if the cuts spare the lines at the ends**,
for every library name and every previous value of the object; **and on a line by itself only if
they spare it**. -/
theorem agrees_of_spared :
    (EndsSpared libName lines → AgreesWithLines libName lines info
      (info.createInfo libName.name (some (mapsContent lines)))) ∧
    ∀ l, AgreesWithLines libName [l] info
      (info.createInfo libName.name (some (mapsContent [l]))) ↔ l.Spared libName := by
  refine ⟨fun h => ?_, fun l => ?_⟩
  · rw [createInfo_eq, rangesResult_agrees_iff]
    exact ⟨head_of_spared fun pre l post heq hpre => h pre l post heq (.inl hpre),
      last_of_spared fun pre l post heq hpost => h pre l post heq (.inr hpost)⟩
  · rw [createInfo_eq, rangesResult_agrees_iff, pieceRanges_lines, matching_eq_flatMap,
      List.flatMap_singleton, List.flatMap_singleton, MapsLine.spared_iff]

/-! ## A line that is cut -/

/-- The name that `initHook` passes. -/
def libminecraftpe : LibName where
  name := chars "libminecraftpe.so"
  ne := by decide +kernel
  nl := by decide +kernel
  nul := by decide +kernel

/-- A mapping of the library under a path so long that its name falls past the cut. -/
def longLine : MapsLine where
  start := [55, 48, 48, 48]
  «end» := [56, 48, 48, 48]
  text := List.replicate 250 120 ++ chars "/libminecraftpe.so"
  start_ne := by decide +kernel
  start_hex := by decide +kernel
  start_fits := by decide +kernel
  end_ne := by decide +kernel
  end_hex := by decide +kernel
  end_fits := by decide +kernel
  text_nl := by decide +kernel
  text_nul := by decide +kernel

/-- The mapping is there, and `createInfo` does not find it. -/
theorem not_agrees_longLine : ¬ AgreesWithLines libminecraftpe [longLine] ⟨0, 0⟩
    ((⟨0, 0⟩ : ModuleInfo).createInfo libminecraftpe.name (some (mapsContent [longLine]))) := by
  rw [createInfo_eq, rangesResult_agrees_iff]
  decide +kernel

end Koola
