import HyperRpc.Model.Packet
import HyperRpc.Model.SessionMachine

/-!
# `RpcCore`

What a core makes of a packet, of a failed send and of a call. A result of `onRecvPacket`
is `none` where the code would read outside the buffer; otherwise it is the core index
returned and what was done with the packet.
-/
namespace HyperRpc

open Lib

inductive Received (Msg : Type)
  | dropped
  /-- `service->CallMethod` is invoked with the messages of the context. -/
  | invoke (service : Service Msg) (ctx : IncomingRpcContext Msg)
  /-- `rpc_sess_mgr_.OnRecvResponse` is called. -/
  | respond (service method : Str) (rpcId : UInt64) (rpcResult : Result) (respBody : List UInt8)

namespace RpcCore

variable {Msg : Type} (env : RpcEnv Msg) (onFindService : Str → Option (Service Msg))

def getCoreIdFromRpcId (rpcId : UInt64) : Option ℕ :=
  let rpcCoreIdPlus1 := (rpcId >>> UInt64.ofNat kRpcIdSeqPartBits).toNat
  if rpcCoreIdPlus1 = 0 ∨ rpcCoreIdPlus1 > env.workerNum then none
  else some (rpcCoreIdPlus1 - 1)

def onRecvRequestMessage (header : RpcHeader) (body : List UInt8) (addr : Addr) : Received Msg :=
  match onFindService header.serviceName with
  | none => .dropped
  | some service =>
    match service.descriptor.findMethodByName header.methodName with
    | none => .dropped
    | some method =>
      let requestProt := service.requestPrototype method
      let responseProt := service.responsePrototype method
      let parsed := env.parseFromArray (env.new requestProt) body
      let ctx : IncomingRpcContext Msg :=
        { method := method
          request := parsed.1
          response := env.new responseProt
          rpcId := header.rpcId
          addr := addr
          arena := env.ccEnableArenas requestProt }
      if ¬ parsed.2 then .dropped else .invoke service ctx

def onRecvResponseMessage (header : RpcHeader) (body : List UInt8) : Received Msg :=
  match Result.ofInt? header.rpcResult with
  | none => .dropped
  | some rpcResult =>
    .respond header.serviceName header.methodName header.rpcId rpcResult body

/-- The first part of `OnRecvPacket`: the header and body bytes of a packet that passes the
checks of `RpcPacketHeader`. -/
def parsePacket (buf : List UInt8) : Option (Option (List UInt8 × List UInt8)) :=
  if buf.length ≤ RpcPacketHeader.size then some none
  else
    buf[0]?.bind fun tag =>
    if tag ≠ kHyperRpcPacketTag then some none
    else
      buf[1]?.bind fun ver =>
      if ver ≠ kHyperRpcPacketVer then some none
      else
        (slice buf 2 2).bind fun headerLenBytes =>
        (slice buf 4 4).bind fun bodyLenBytes =>
        let rpcHeaderLen := beNat headerLenBytes
        let rpcBodyLen := beNat bodyLenBytes
        if buf.length ≠ RpcPacketHeader.size + rpcHeaderLen + rpcBodyLen then some none
        else
          (slice buf RpcPacketHeader.size rpcHeaderLen).bind fun rpcHeader =>
          (slice buf (RpcPacketHeader.size + rpcHeaderLen) rpcBodyLen).map fun rpcBody =>
          some (rpcHeader, rpcBody)

def onRecvPacket (curRpcCoreId : ℕ) (buf : List UInt8) (addr : Addr) :
    Option (ℕ × Received Msg) :=
  (parsePacket buf).map fun packet =>
    match packet with
    | none => (curRpcCoreId, .dropped)
    | some (rpcHeaderBytes, rpcBody) =>
      match env.parseHeader rpcHeaderBytes with
      | none => (curRpcCoreId, .dropped)
      | some rpcHeader =>
        if rpcHeader.packetType = .request then
          (0, onRecvRequestMessage env onFindService rpcHeader rpcBody addr)
        else
          let rpcCoreIdPlus1 := (rpcHeader.rpcId >>> UInt64.ofNat kRpcIdSeqPartBits).toNat
          if rpcCoreIdPlus1 = 0 ∨ rpcCoreIdPlus1 > env.workerNum then (curRpcCoreId, .dropped)
          else
            let dstRpcCoreId := rpcCoreIdPlus1 - 1
            if dstRpcCoreId ≠ curRpcCoreId then (dstRpcCoreId, .dropped)
            else (0, onRecvResponseMessage rpcHeader rpcBody)

/-- `OnSendPacketFailed` on core `curRpcCoreId`: the core index returned and the id for which
`rpc_sess_mgr_.OnSendRequestFailed` is called. -/
def onSendPacketFailed (curRpcCoreId : ℕ) (ctx : UInt64) : ℕ × Option UInt64 :=
  if ctx ≠ 0 then
    match getCoreIdFromRpcId env ctx with
    | none => (curRpcCoreId, none)
    | some dstRpcCoreId =>
      if dstRpcCoreId ≠ curRpcCoreId then (dstRpcCoreId, none) else (curRpcCoreId, some ctx)
  else (curRpcCoreId, none)

/-- `on_service_routing_`: whether it resolves the method and the endpoints it has added. -/
abbrev OnServiceRouting (Msg : Type) := Str → Str → Msg → Bool × List Addr

/-- `CallMethod`: what it does with its session manager. -/
def callMethod (onServiceRouting : Option (OnServiceRouting Msg)) (method : MethodDescriptor)
    (request response : MsgRef) (requestMsg : Msg) (done : Closure) : Action Msg :=
  match onServiceRouting with
  | none => .noRoute done
  | some route =>
    let routed := route method.service.name method.name requestMsg
    if routed.1 = false ∨ routed.2 = [] then .noRoute done
    else .addSession method request response routed.2 done

end RpcCore

end HyperRpc
