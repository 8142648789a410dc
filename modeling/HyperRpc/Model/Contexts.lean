import HyperRpc.Lib.Transition
import HyperRpc.Model.RpcCore

/-!
# The objects made for requests

`OnRecvRequestMessage` and `OnIncomingRpcDone` of one core with the contexts and messages they
create and delete. Contexts are numbered as they are created. The ledger holds what has been
created and not been released; it is never read by the code.
-/
namespace HyperRpc

open Lib

inductive ObjectKind
  | context | request | response
  deriving DecidableEq, Repr

/-- An object created for the request with this number. What is in the arena of its context is
released with the context, all else when it is deleted. -/
structure RequestObject where
  kind : ObjectKind
  number : ℕ
  inArena : Bool
  deriving DecidableEq, Repr

/-- The contexts of a core: `running` are those whose handler has been called and has not called
its `done` yet. -/
structure Contexts (Msg : Type) where
  created : ℕ
  ledger : List RequestObject
  running : List (ℕ × IncomingRpcContext Msg)

/-- What happens to a core as a server. A handler calls `done` with the response it has filled. -/
inductive ServerAction (Msg : Type)
  | recv (buf : List UInt8) (addr : Addr)
  | done (number : ℕ) (result : Result) (response : Msg)

namespace Contexts

variable {Msg : Type}

def initial : Contexts Msg := ⟨0, [], []⟩

variable (env : RpcEnv Msg) (onFindService : Str → Option (Service Msg)) (s : Contexts Msg)

def newContext : Contexts Msg :=
  { s with
    created := s.created + 1
    ledger := ⟨.context, s.created, false⟩ :: s.ledger }

/-- `Init` of a context: with an arena, `New` puts the messages there. -/
def initContext (number : ℕ) (arena : Bool) : Contexts Msg :=
  { s with ledger := ⟨.response, number, arena⟩ :: ⟨.request, number, arena⟩ :: s.ledger }

/-- `delete ctx`. The destructor of an `ArenaIncomingRpcContext` destroys its arena, that of an
`IncomingRpcContext` is empty. -/
def deleteContext (number : ℕ) (arena : Bool) : Contexts Msg :=
  let ledger := s.ledger.erase ⟨.context, number, false⟩
  { s with
    ledger :=
      if arena then ledger.filter fun o => ¬ (o.number = number ∧ o.inArena) else ledger }

def onRecvRequestMessage (header : RpcHeader) (body : List UInt8) (addr : Addr) :
    Contexts Msg × Received Msg :=
  match onFindService header.serviceName with
  | none => (s, .dropped)
  | some service =>
    match service.descriptor.findMethodByName header.methodName with
    | none => (s, .dropped)
    | some method =>
      let requestProt := service.requestPrototype method
      let responseProt := service.responsePrototype method
      let arena := env.ccEnableArenas requestProt
      let number := s.created
      let s := s.newContext.initContext number arena
      let parsed := env.parseFromArray (env.new requestProt) body
      let ctx : IncomingRpcContext Msg :=
        { method := method
          request := parsed.1
          response := env.new responseProt
          rpcId := header.rpcId
          addr := addr
          arena := arena }
      if ¬ parsed.2 then (s, .dropped)
      else ({ s with running := (number, ctx) :: s.running }, .invoke service ctx)

/-- `OnRecvPacket` on core `curRpcCoreId`; `RpcCore.onRecvPacket` leaves the objects out. -/
def onRecvPacket (curRpcCoreId : ℕ) (buf : List UInt8) (addr : Addr) :
    Option (Contexts Msg × ℕ × Received Msg) :=
  (RpcCore.parsePacket buf).map fun packet =>
    match packet with
    | none => (s, curRpcCoreId, .dropped)
    | some (rpcHeaderBytes, rpcBody) =>
      match env.parseHeader rpcHeaderBytes with
      | none => (s, curRpcCoreId, .dropped)
      | some rpcHeader =>
        if rpcHeader.packetType = .request then
          let r := s.onRecvRequestMessage env onFindService rpcHeader rpcBody addr
          (r.1, 0, r.2)
        else
          let rpcCoreIdPlus1 := (rpcHeader.rpcId >>> UInt64.ofNat kRpcIdSeqPartBits).toNat
          if rpcCoreIdPlus1 = 0 ∨ rpcCoreIdPlus1 > env.workerNum then (s, curRpcCoreId, .dropped)
          else
            let dstRpcCoreId := rpcCoreIdPlus1 - 1
            if dstRpcCoreId ≠ curRpcCoreId then (s, dstRpcCoreId, .dropped)
            else (s, 0, RpcCore.onRecvResponseMessage rpcHeader rpcBody)

def onIncomingRpcDone (number : ℕ) (result : Result) (response : Msg) :
    Option (Contexts Msg × List UInt8) :=
  (s.running.find? fun r => r.1 = number).bind fun r =>
    (HyperRpc.onIncomingRpcDone env r.2 result response).map fun packet =>
      ({ s.deleteContext number r.2.arena with
          running := s.running.eraseP fun r => r.1 = number }, packet)

/-- One step on core `curRpcCoreId`; `none` where the handler is not running or an assertion
fails. -/
def step (curRpcCoreId : ℕ) : ServerAction Msg → Option (Contexts Msg)
  | .recv buf addr => (s.onRecvPacket env onFindService curRpcCoreId buf addr).map Prod.fst
  | .done number result response =>
    (s.onIncomingRpcDone env number result response).map Prod.fst

end Contexts

end HyperRpc
