import Koola.Maps.Lines
import Koola.Lib.Hull

/-!
# `createInfo` on the file the kernel lists

* `KernelMaps`: lines that fit the buffer, with non-empty ranges in ascending order.
* `mentioning`: the lines that mention the library and are not deleted; here they all match.
* **`createInfo_hull`**: `[head, end)` is the hull of the ranges of these lines.
-/

namespace Koola

open CStr Stdio Hull

/-- A range of addresses as numbers. -/
def MapsLine.natRange (l : MapsLine) : ℕ × ℕ := (l.startAddr.toNat, l.endAddr.toNat)

/-- **The maps file as the kernel lists it**, with lines that fit the buffer. -/
structure KernelMaps where
  lines : List MapsLine
  short : ∀ l ∈ lines, l.bytes.length ≤ room
  positive : ∀ l ∈ lines, 1 ≤ l.startAddr.toNat
  ascending : Ascending (lines.map MapsLine.natRange)

namespace KernelMaps

variable (m : KernelMaps) (libName : LibName)

/-- The content of the file. -/
def content : Bytes := mapsContent m.lines

/-- The lines that mention the library and are not deleted mappings. -/
def mentioning : List MapsLine := m.lines.filter fun l => l.Mentions libName

/-- No address of the file is zero, so that every mention is a match. -/
theorem matching_eq_mentioning : matching libName m.lines = m.mentioning libName := by
  refine List.filter_congr fun l hl => decide_eq_decide.mpr ?_
  have h1 := m.positive l hl
  have h2 := m.ascending.nonempty _ (List.mem_map_of_mem hl)
  simp only [MapsLine.natRange] at h2
  have h3 : l.startAddr ≠ 0 := fun e => by simp [e] at h1
  have h4 : l.endAddr ≠ 0 := fun e => by simp [e] at h2
  simp [MapsLine.Matches, h3, h4]

theorem ascending_mentioning :
    Ascending ((m.mentioning libName).map MapsLine.natRange) :=
  m.ascending.sublist (List.filter_sublist.map _)

/-- `createInfo` keeps the start of the first mention and the end of the last one. -/
theorem createInfo_content (info : ModuleInfo) :
    info.createInfo libName.name (some m.content) =
      rangesResult ((m.mentioning libName).map MapsLine.range) info := by
  rw [createInfo_eq, content, pieceRanges_of_short libName _ m.short, matching_eq_mentioning]

theorem createInfo_of_cons {l : MapsLine} {ls : List MapsLine}
    (h : m.mentioning libName = l :: ls) (info : ModuleInfo) :
    info.createInfo libName.name (some m.content) =
      (true, ⟨l.startAddr, ((l :: ls).getLast (List.cons_ne_nil l ls)).endAddr⟩) := by
  rw [createInfo_content, h, rangesResult, List.getLast?_map,
    List.getLast?_eq_getLast_of_ne_nil (List.cons_ne_nil l ls)]
  rfl

/-- `[head, end)` is the hull of the ranges of `ls`, and is not empty. -/
structure Spans (info : ModuleInfo) (ls : List MapsLine) : Prop where
  lt : info.head < info.end
  isHull : IsHull info.head.toNat info.end.toNat (ls.map MapsLine.natRange)

/-- Whatever the object held before, `createInfo` finds the hull of the mentions, if any. -/
theorem createInfo_spans (info : ModuleInfo) :
    (m.mentioning libName = [] ∧
        info.createInfo libName.name (some m.content) = (false, info)) ∨
      (info.createInfo libName.name (some m.content)).1 = true ∧
        Spans (info.createInfo libName.name (some m.content)).2 (m.mentioning libName) := by
  rcases h : m.mentioning libName with _ | ⟨l, ls⟩
  · exact .inl ⟨rfl, by rw [createInfo_content, h]; rfl⟩
  · have hasc := m.ascending_mentioning libName
    rw [h, List.map_cons] at hasc
    obtain ⟨hlt, hull⟩ := isHull_of_ascending hasc
    rw [createInfo_of_cons m libName h]
    have hlast : (l.natRange :: ls.map MapsLine.natRange).getLast (List.cons_ne_nil _ _) =
        ((l :: ls).getLast (List.cons_ne_nil l ls)).natRange :=
      List.getLast_map (f := MapsLine.natRange) (l := l :: ls) (h := List.cons_ne_nil _ _)
    rw [hlast] at hlt hull
    exact .inr ⟨rfl, UInt64.lt_iff_toNat_lt.mpr hlt, hull⟩

/-- **`createInfo` computes the hull of the library.** On success `[head, end)` is the smallest
interval that contains the range of every line mentioning the library and not `(deleted)`, and is
the same for every previous value of the object; it fails only if there is no such line. -/
theorem createInfo_hull (m : KernelMaps) (libName : LibName) (info : ModuleInfo) :
    ((info.createInfo libName.name (some m.content)).1 = true →
      Spans (info.createInfo libName.name (some m.content)).2 (m.mentioning libName) ∧
        ∀ info' : ModuleInfo, info'.createInfo libName.name (some m.content) =
          info.createInfo libName.name (some m.content)) ∧
    ((info.createInfo libName.name (some m.content)).1 = false → m.mentioning libName = []) := by
  rcases m.createInfo_spans libName info with ⟨hnil, he⟩ | ⟨ht, hspan⟩
  · rw [he]
    exact ⟨fun h => absurd h (by simp), fun _ => hnil⟩
  · refine ⟨fun _ => ⟨hspan, fun info' => ?_⟩, fun h => by rw [ht] at h; cases h⟩
    rcases h : m.mentioning libName with _ | ⟨l, ls⟩
    · rw [createInfo_content, h] at ht
      cases ht
    · rw [createInfo_of_cons m libName h, createInfo_of_cons m libName h]

/-- The library in two mappings; a foreign one and a gap lie between them. -/
def twoMappings : KernelMaps where
  lines :=
    [.of (chars "7000000000") (chars "7000200000")
        (chars "r-xp 00000000 00:00 0 /lib/libminecraftpe.so")
        (by decide +kernel) (by decide +kernel) (by decide +kernel),
      .of (chars "7000200000") (chars "7000201000") (chars "r--p 00000000 00:00 0 /lib/libc.so")
        (by decide +kernel) (by decide +kernel) (by decide +kernel),
      .of (chars "7006000000") (chars "7008000000")
        (chars "rw-p 00200000 00:00 0 /lib/libminecraftpe.so")
        (by decide +kernel) (by decide +kernel) (by decide +kernel)]
  short := by decide +kernel
  positive := by decide +kernel
  ascending :=
    { nonempty := by decide +kernel
      sorted := by decide +kernel
      disjoint := by
        simp only [Set.Ico_disjoint_Ico]
        decide +kernel }

theorem createInfo_hull_twoMappings :
    Spans ((⟨0x1000, 0x2000⟩ : ModuleInfo).createInfo libminecraftpe.name
      (some twoMappings.content)).2 (twoMappings.mentioning libminecraftpe) :=
  ((createInfo_hull twoMappings libminecraftpe ⟨0x1000, 0x2000⟩).1 (by decide +kernel)).1

end KernelMaps

end Koola
