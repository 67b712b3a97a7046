import Koola.Hook.Report
import Koola.Maps.KernelMaps

/-!
# Which addresses `initHook` patches

* `TargetsInLibrary`: every address passed to `shadowhook_hook_func_addr` lies in a mapping of the
  library listed in the snapshot of the same call.
* `Call.found`: `createInfo` returns true in the call. `HeadFrom`: its base comes from a piece of
  the snapshot.
* **`initHook_targets`**: each address is the base found by the call plus a fixed offset.
* **`not_targetsInLibrary`**: a smaller library is patched past its end, and one that is not there
  is patched too.
-/

namespace Koola

open Logged CStr Stdio Hull

namespace MapsLine

/-- The last component of the path: what follows the last `/` of the line. -/
def fileName (l : MapsLine) : Bytes := (l.text.reverse.takeWhile (· ≠ 47)).reverse

/-- A mapping of `libminecraftpe.so` that is not deleted and has the address in its range. -/
def LibraryAt (l : MapsLine) (a : UInt64) : Prop :=
  l.fileName = libminecraftpe.name ∧ ¬ deleted <:+: l.bytes ∧ l.startAddr ≤ a ∧ a < l.endAddr

end MapsLine

/-- **Only the library is patched**, the call reading a snapshot that lists these lines. -/
def TargetsInLibrary (lines : List MapsLine) (attempt : Detour → Attempt) (s : Native) : Prop :=
  Along (fun r => ∃ l ∈ lines, l.LibraryAt r.target) (initHook ⟨some (mapsContent lines), attempt⟩) s

/-- What `createInfo` returns in the call. -/
def Call.found (c : Call) (s : Native) : Bool :=
  (s.minecraftInfo.createInfo libminecraftpe.name c.maps).1

/-- The base stands at the start of a piece of the snapshot that has the name of the library, has
no `(deleted)`, and reads as a range of non-zero addresses. -/
def HeadFrom (content : Bytes) (head : UInt64) : Prop :=
  ∃ p ∈ pieces room content, libminecraftpe.name <:+: cstr p ∧ ¬ deleted <:+: cstr p ∧
    (addrRange (cstr p)).1 = head ∧ head ≠ 0 ∧ (addrRange (cstr p)).2 ≠ 0

/-! ## Requests -/

theorem along_call_hook {P : Request → Prop} {c : Call} {d : Detour} {s : Native} :
    Along P (c.hook d) s ↔ P ⟨s, s.target d, d, c.attempt d⟩ := by
  rw [Call.hook, along_bind]
  exact (and_iff_right fun e he => by simp at he).trans along_hook_iff

/-- Every hook of the loop is asked for at the base of the state that the loop starts in. -/
theorem along_hookEach (c : Call) (ds : List Detour) (s : Native) :
    Along (fun r => r.target = s.target r.detour) (c.hookEach ds) s := by
  induction ds generalizing s with
  | nil => exact fun e he => by simp [Call.hookEach] at he
  | cons d ds ih =>
    have htarget : ((c.hook d).final s).target = s.target := by
      funext e
      rw [Native.target, (call_hook_outcome c d s).info, Native.target]
    rw [Call.hookEach, along_bind, along_bind]
    refine ⟨along_call_hook.mpr rfl, ?_, fun e he => by simp at he⟩
    have := ih ((c.hook d).final s)
    rwa [htarget] at this

/-- **Every request of `initHook`** is for the base found by the call plus the offset. -/
theorem along_initHook (c : Call) (s : Native) :
    Along (fun r => r.target = (c.read s).target r.detour) (initHook c) s := by
  rw [initHook_eq, along_bind, along_bind]
  refine ⟨fun e he => by simp at he, along_hookEach c detours _, fun e he => by simp at he⟩

/-! ## The base -/

theorem examine_eq_some {libName buff : Bytes} {r : UInt64 × UInt64}
    (h : examine libName buff = some r) : libName <:+: buff ∧ ¬ deleted <:+: buff ∧
      addrRange buff = r ∧ r.1 ≠ 0 ∧ r.2 ≠ 0 := by
  unfold examine at h
  split_ifs at h with hc
  obtain ⟨h1, h2, h3, h4⟩ := hc
  obtain rfl := Option.some.inj h
  exact ⟨(strstr_isSome ..).mp h2, (strstr_isNone ..).mp h1, rfl, h3, h4⟩

/-- The base that is found does not depend on the object before, and stands in the snapshot. -/
theorem headFrom_of_found {c : Call} {s : Native} (h : c.found s = true) :
    (∀ s', (c.read s').minecraftInfo = (c.read s).minecraftInfo) ∧
      ∃ content, c.maps = some content ∧ HeadFrom content (c.read s).minecraftInfo.head := by
  simp only [Call.found, Call.read] at h ⊢
  cases hm : c.maps with
  | none =>
    rw [hm, createInfo_none] at h
    cases h
  | some content =>
    rw [hm, createInfo_eq] at h
    simp only [createInfo_eq]
    rcases hr : pieceRanges libminecraftpe.name content with _ | ⟨r, rs⟩
    · rw [hr] at h
      cases h
    · refine ⟨fun s' => ?_, content, rfl, ?_⟩
      · simp [rangesResult, List.getLast?_cons]
      · have hmem : r ∈ pieceRanges libminecraftpe.name content := hr ▸ List.mem_cons_self
        obtain ⟨p, hp, he⟩ := List.mem_filterMap.mp hmem
        obtain ⟨h1, h2, h3, h4, h5⟩ := examine_eq_some he
        exact ⟨p, hp, h1, h2, by rw [h3]; rfl, h4, h3 ▸ h5⟩

/-- An offset leads into a range exactly when it is smaller than its size, also where the sum
overflows. -/
theorem add_mem_range_iff {a b off : UInt64} (h : a < b) :
    (a ≤ a + off ∧ a + off < b) ↔ off.toNat < b.toNat - a.toNat := by
  rw [UInt64.lt_iff_toNat_lt] at h
  rw [UInt64.le_iff_toNat_le, UInt64.lt_iff_toNat_lt, UInt64.toNat_add]
  have := a.toNat_lt
  have := b.toNat_lt
  have := off.toNat_lt
  omega

/-- **Where `initHook` patches.** Each address is the base found by the call plus the offset of the
detour, modulo `2 ^ 64`. When `createInfo` returns true the base comes from the snapshot of this
call, whatever it was before; and on a snapshot as the kernel lists it, an address lies in the hull
of the library exactly when the offset is smaller than the size of that hull. -/
theorem initHook_targets (c : Call) (s : Native) :
    Along (fun r => r.target = (c.read s).minecraftInfo.head + r.detour.offset) (initHook c) s ∧
    (c.found s = true →
      (∀ s', (c.read s').minecraftInfo = (c.read s).minecraftInfo) ∧
      ∃ content, c.maps = some content ∧ HeadFrom content (c.read s).minecraftInfo.head ∧
        ∀ m : KernelMaps, m.content = content →
          KernelMaps.Spans (c.read s).minecraftInfo (m.mentioning libminecraftpe) ∧
          Along (fun r => ((c.read s).minecraftInfo.head ≤ r.target ∧
            r.target < (c.read s).minecraftInfo.end) ↔ r.detour.offset.toNat <
              (c.read s).minecraftInfo.end.toNat - (c.read s).minecraftInfo.head.toNat)
            (initHook c) s) := by
  refine ⟨along_initHook c s, fun h => ?_⟩
  obtain ⟨hany, content, hc, hhead⟩ := headFrom_of_found h
  refine ⟨hany, content, hc, hhead, ?_⟩
  rintro m rfl
  have hspan : KernelMaps.Spans (c.read s).minecraftInfo (m.mentioning libminecraftpe) := by
    simp only [Call.found, Call.read] at h ⊢
    rw [hc] at h ⊢
    rcases m.createInfo_spans libminecraftpe s.minecraftInfo with ⟨-, he⟩ | ⟨-, hs⟩
    · rw [he] at h
      cases h
    · exact hs
  refine ⟨hspan, fun r hr => ?_⟩
  have htarget : r.target = (c.read s).minecraftInfo.head + r.detour.offset :=
    along_initHook c s r hr
  simp only [htarget]
  exact add_mem_range_iff hspan.lt

/-- `firstLoad` on a snapshot with a gap and a foreign mapping between the mappings of the
library. -/
def gapLoad : Call where
  maps := some KernelMaps.twoMappings.content
  attempt := firstLoad.attempt

/-- All three addresses lie in the hull. -/
theorem initHook_targets_gapLoad :
    Along (fun r => 0x7000000000 ≤ r.target ∧ r.target < 0x7008000000) (initHook gapLoad)
      (.init none) := by
  have hhead : (gapLoad.read (.init none)).minecraftInfo.head = 0x7000000000 := by decide +kernel
  have hend : (gapLoad.read (.init none)).minecraftInfo.end = 0x7008000000 := by decide +kernel
  obtain ⟨-, content, hc, -, hmaps⟩ := (initHook_targets gapLoad (.init none)).2 (by decide +kernel)
  have hhull := (hmaps KernelMaps.twoMappings (Option.some.inj hc)).2
  intro r hr
  have := hhull r hr
  rw [hhead, hend] at this
  exact this.mpr (by cases r.detour <;> decide)

/-! ## Other processes -/

/-- The library in a mapping of one page. -/
def pageLine : MapsLine where
  start := chars "7000000000"
  «end» := chars "7000001000"
  text := chars "r-xp 00000000 00:00 0 /lib/libminecraftpe.so"
  start_ne := by decide +kernel
  start_hex := by decide +kernel
  start_fits := by decide +kernel
  end_ne := by decide +kernel
  end_hex := by decide +kernel
  end_fits := by decide +kernel
  text_nl := by decide +kernel
  text_nul := by decide +kernel

theorem along_first {P : Request → Prop} {c : Call} {s : Native} (h : Along P (initHook c) s) :
    P ⟨c.read s, (c.read s).target .localPlayerTickWorld, .localPlayerTickWorld,
      c.attempt .localPlayerTickWorld⟩ := by
  rw [initHook_eq, along_bind, along_bind, detours, Call.hookEach, along_bind] at h
  exact along_call_hook.mp h.2.1.1

/-- **Foreign addresses are patched.** With the library in one page, the first hook is asked for
far behind it; with no library at all, `createInfo` returns false and the hooks are asked for all
the same. -/
theorem not_targetsInLibrary :
    ¬ TargetsInLibrary [pageLine] firstLoad.attempt (.init none) ∧
      ¬ TargetsInLibrary [] firstLoad.attempt (.init none) := by
  refine ⟨fun h => ?_, fun h => ?_⟩
  · obtain ⟨l, hl, -, -, -, hlt⟩ := along_first h
    rw [List.mem_singleton.mp hl] at hlt
    revert hlt
    decide +kernel
  · obtain ⟨l, hl, -⟩ := along_first h
    exact absurd hl List.not_mem_nil

end Koola
