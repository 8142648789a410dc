import HyperRpc.Model.SessionManager

/-!
# Options

`Options` and the `OptionsBuilder`, over the builder of `hudp`, which is not part of the
repository and is known by what its functions do (`HudpApi`). A call leaves a builder behind also
when it throws.
-/
namespace HyperRpc

structure HudpOptions where
  workerNum : UInt64
  deriving DecidableEq, Repr

structure Options where
  hudpOptions : HudpOptions
  maxRpcSessions : UInt64
  defaultRpcTimeout : UInt64
  deriving DecidableEq, Repr

/-- `CalcSessionPoolSize`, in the arithmetic of `size_t`. -/
def calcSessionPoolSize (opt : Options) : UInt64 :=
  let sizePerCore := opt.maxRpcSessions / opt.hudpOptions.workerNum
  sizePerCore * 10 / 9

/-- `hudp::Options` and `hudp::OptionsBuilder`, whose state is `H`. -/
structure HudpApi (H : Type) where
  defaultOptions : HudpOptions
  construct : H
  workerNumber : UInt64 → EStateM String H Unit
  workerQueueSize : UInt64 → EStateM String H Unit
  build : EStateM String H HudpOptions

structure OptionsBuilder (H : Type) where
  hrpcOpt : Options
  hudpOptBuilder : H

/-- The command-line flags that differ from their defaults. -/
structure Flags where
  workerNum : Option UInt64
  workerQueueSize : Option UInt64
  maxRpcSessions : Option UInt64
  defaultRpcTimeout : Option UInt64
  deriving DecidableEq

namespace OptionsBuilder

variable {H : Type} (api : HudpApi H)

def onHudp {α : Type} (call : EStateM String H α) : EStateM String (OptionsBuilder H) α := fun b =>
  match call b.hudpOptBuilder with
  | .ok a h => .ok a { b with hudpOptBuilder := h }
  | .error e h => .error e { b with hudpOptBuilder := h }

def workerNumber (num : UInt64) : EStateM String (OptionsBuilder H) Unit :=
  onHudp (api.workerNumber num)

def workerQueueSize (num : UInt64) : EStateM String (OptionsBuilder H) Unit :=
  onHudp (api.workerQueueSize num)

def maxRpcSessions (num : UInt64) : EStateM String (OptionsBuilder H) Unit := do
  let b ← get
  if num < b.hrpcOpt.hudpOptions.workerNum then throw "Invalid value!"
  else set { b with hrpcOpt := { b.hrpcOpt with maxRpcSessions := num } }

def defaultRpcTimeout (ms : UInt64) : EStateM String (OptionsBuilder H) Unit := do
  let b ← get
  if ms > 4294967295 ∨ ms ≤ 0 then throw "Invalid timeout value!"
  else set { b with hrpcOpt := { b.hrpcOpt with defaultRpcTimeout := ms } }

def mayOverride (flag : Option UInt64)
    (setter : UInt64 → EStateM String (OptionsBuilder H) Unit) :
    EStateM String (OptionsBuilder H) Unit :=
  match flag with
  | some v => setter v
  | none => pure ()

def build (flags : Flags) : EStateM String (OptionsBuilder H) Options := do
  mayOverride flags.workerNum (workerNumber api)
  mayOverride flags.workerQueueSize (workerQueueSize api)
  mayOverride flags.maxRpcSessions maxRpcSessions
  mayOverride flags.defaultRpcTimeout defaultRpcTimeout
  let hudpOptions ← onHudp api.build
  modify fun b => { b with hrpcOpt := { b.hrpcOpt with hudpOptions := hudpOptions } }
  return (← get).hrpcOpt

/-- The members before the body of the constructor runs. -/
def members : OptionsBuilder H where
  hrpcOpt := { hudpOptions := api.defaultOptions, maxRpcSessions := 0, defaultRpcTimeout := 0 }
  hudpOptBuilder := api.construct

def construct : EStateM.Result String (OptionsBuilder H) Unit :=
  (do
    maxRpcSessions 1000000
    defaultRpcTimeout 2500) (members api)

end OptionsBuilder

inductive BuilderCall
  | workerNumber (num : UInt64)
  | workerQueueSize (num : UInt64)
  | maxRpcSessions (num : UInt64)
  | defaultRpcTimeout (ms : UInt64)
  | build (flags : Flags)
  deriving DecidableEq

/-- A builder and the options it has built, newest first. -/
structure BuilderRun (H : Type) where
  builder : OptionsBuilder H
  built : List Options

namespace BuilderCall

variable {H : Type} (api : HudpApi H)

/-- The call's effect on the builder and what `Build` returns. -/
def perform : BuilderCall → EStateM String (OptionsBuilder H) (Option Options)
  | workerNumber num => do OptionsBuilder.workerNumber api num; return none
  | workerQueueSize num => do OptionsBuilder.workerQueueSize api num; return none
  | maxRpcSessions num => do OptionsBuilder.maxRpcSessions num; return none
  | defaultRpcTimeout ms => do OptionsBuilder.defaultRpcTimeout ms; return none
  | build flags => do return some (← OptionsBuilder.build api flags)

end BuilderCall

/-- A call that does not throw; `none` if it does. -/
def BuilderRun.step {H : Type} (api : HudpApi H) (r : BuilderRun H) (call : BuilderCall) :
    Option (BuilderRun H) :=
  match call.perform api r.builder with
  | .ok opt b => some ⟨b, opt.toList ++ r.built⟩
  | .error _ _ => none

end HyperRpc
