import Koola.Hook.Attempt
import Koola.Maps.Lines

/-!
# `initHook`

* `Call`: what one call of `initHook` finds: the maps file and the environments of its hooks.
* `initHook`, from `Call.read` and `Call.hook`.
* `session`: the calls of a run in order, from `Native.init`.
* `Call.hookEach`: the three hooks as a loop over `detours`. **`initHook_eq`**: `initHook` reads the
  maps file, runs that loop and returns `0` when no hook of it failed.
-/

namespace Koola

open Logged

/-- The offset of the function that a detour replaces. -/
def Detour.offset : Detour → UInt64
  | .localPlayerTickWorld => 0x558CFC0
  | .actorTick => 0x725DA34
  | .playerAttack => 0x6D0CE6C

/-- What a call of `initHook` finds: the content of `/proc/self/maps`, `none` when it cannot be
opened, and how each of the three hooks goes. -/
structure Call where
  maps : Option CStr.Bytes
  attempt : Detour → Attempt

/-- `minecraftInfo.createInfo("libminecraftpe.so")`. The result is not used. -/
def Call.read (c : Call) (s : Native) : Native :=
  { s with minecraftInfo := (s.minecraftInfo.createInfo libminecraftpe.name c.maps).2 }

/-- One `shadowhook_hook_func_addr(minecraftInfo.head + offset, my_X, &origX)` of `initHook`. -/
def Call.hook (c : Call) (d : Detour) : Hook (Option Errno) := do
  let s ← get
  shadowhookHookFuncAddr (s.minecraftInfo.head + d.offset) d (c.attempt d)

/-- `Java_cn_peyriat_koola_NativeHook_initHook`. -/
def initHook (c : Call) : Hook Int := do
  write c.read
  let hookLocalPlayerTickWorld ← c.hook .localPlayerTickWorld
  let hookActorTick ← c.hook .actorTick
  let hookPlayerAttack ← c.hook .playerAttack
  if hookLocalPlayerTickWorld.isSome then return -1
  else if hookActorTick.isSome then return -1
  else if hookPlayerAttack.isSome then return -1
  else return 0

/-- The state when the library is loaded: nothing is patched, every `origX` is null. -/
def Native.init (initErrno : Option Errno) : Native where
  minecraftInfo := ⟨0, 0⟩
  initErrno := initErrno
  switches := []
  code := fun _ => none
  exits := fun _ => none
  orig := fun _ => 0

/-- A run: `initHook` after each load of the game library. -/
def session : List Call → Hook Unit
  | [] => pure ()
  | c :: cs => do
    let _ ← initHook c
    session cs

/-! ## The three hooks as a loop -/

/-- The detours in the order in which `initHook` installs them. -/
def detours : List Detour := [.localPlayerTickWorld, .actorTick, .playerAttack]

theorem mem_detours (d : Detour) : d ∈ detours := by
  cases d <;> decide

theorem nodup_detours : detours.Nodup := by decide

theorem offset_injective : Function.Injective Detour.offset := by
  intro d e
  cases d <;> cases e <;> decide

/-- The hooks of a list of detours; did all return a stub? -/
def Call.hookEach (c : Call) : List Detour → Hook Bool
  | [] => pure true
  | d :: ds => do
    let r ← c.hook d
    let ok ← c.hookEach ds
    return r.isNone && ok

/-- **`initHook` as a loop.** -/
theorem initHook_eq (c : Call) : initHook c = (do
    write c.read
    let ok ← c.hookEach detours
    return if ok then 0 else -1) := by
  refine Prog.ext (fun s => ?_) fun s => ?_
  · simp only [initHook, detours, Call.hookEach, val_bind, final_bind, final_write, val_pure]
    split_ifs <;> simp_all
  · simp only [initHook, detours, Call.hookEach, log_bind, log_pure, List.append_nil]
    split_ifs <;> simp

end Koola
