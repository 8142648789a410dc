import HyperRpc.Lib.Bytes
import HyperRpc.Model.SessionManager

/-!
# Packets, services and contexts

The packet format, what the code uses of protobuf and of a registered `Service`, and the
context of an incoming request.
-/
namespace HyperRpc

open Lib

def kHyperRpcPacketTag : UInt8 := 82
def kHyperRpcPacketVer : UInt8 := 1

/-- `RpcPacketHeader`; the lengths are in network order on the wire. -/
structure RpcPacketHeader where
  hrpcPktTag : UInt8
  hrpcPktVer : UInt8
  rpcHeaderLen : ℕ
  rpcBodyLen : ℕ
  deriving DecidableEq, Repr

def RpcPacketHeader.size : ℕ := 8

def RpcPacketHeader.encode (h : RpcPacketHeader) : List UInt8 :=
  h.hrpcPktTag :: h.hrpcPktVer :: (beBytes 2 h.rpcHeaderLen ++ beBytes 4 h.rpcBodyLen)

inductive PacketType
  | request | response
  deriving DecidableEq, Repr

/-- `RpcHeader`; every field is optional. -/
structure RpcHeader where
  packetType? : Option PacketType
  serviceName? : Option Str
  methodName? : Option Str
  rpcId? : Option UInt64
  rpcResult? : Option Int32
  deriving DecidableEq

namespace RpcHeader

def empty : RpcHeader := ⟨none, none, none, none, none⟩

variable (h : RpcHeader)

/-- The getters answer a default for a field that is not set. -/
def packetType : PacketType := h.packetType?.getD .request
def serviceName : Str := h.serviceName?.getD []
def methodName : Str := h.methodName?.getD []
def rpcId : UInt64 := h.rpcId?.getD 0
def rpcResult : ℤ := (h.rpcResult?.getD 0).toInt

end RpcHeader

/-- The options and the parts of protobuf the core uses: `serialize` answers `none` where
`SerializeToZeroCopyStream` fails, `new` makes an empty message of the same type and
`ccEnableArenas` is the option of the file that declares the type. -/
structure RpcEnv (Msg : Type) extends SessionEnv Msg where
  workerNum : ℕ
  parseHeader : List UInt8 → Option RpcHeader
  serializeHeader : RpcHeader → List UInt8
  serialize : Msg → Option (List UInt8)
  typeOf : Msg → Str
  new : Msg → Msg
  ccEnableArenas : Msg → Bool

/-- A registered service object, known by its address, and what it answers to the core. -/
structure Service (Msg : Type) where
  object : ℕ
  descriptor : ServiceDescriptor
  requestPrototype : MethodDescriptor → Msg
  responsePrototype : MethodDescriptor → Msg

/-- `IncomingRpcContext`, or `ArenaIncomingRpcContext` if `arena` holds. -/
structure IncomingRpcContext (Msg : Type) where
  method : MethodDescriptor
  request : Msg
  response : Msg
  rpcId : UInt64
  addr : Addr
  arena : Bool

variable {Msg : Type} (env : RpcEnv Msg)

/-- `SendMessage`: the packet handed to `on_send_packet_`; `none` where an assertion fails. -/
def sendMessage (header : RpcHeader) (body : Msg) : Option (List UInt8) :=
  (env.serialize body).map fun bodyBytes =>
    let headerBytes := env.serializeHeader header
    RpcPacketHeader.encode
      { hrpcPktTag := kHyperRpcPacketTag
        hrpcPktVer := kHyperRpcPacketVer
        rpcHeaderLen := headerBytes.length % 2 ^ 16
        rpcBodyLen := bodyBytes.length % 2 ^ 32 } ++ headerBytes ++ bodyBytes

/-- The header `OnOutgoingRpcSend` sends, from what the thread's header held before. -/
def outgoingHeader (rpcHeader : RpcHeader) (method : MethodDescriptor) (rpcId : UInt64) :
    RpcHeader :=
  { rpcHeader with
    packetType? := some .request
    serviceName? := some method.service.name
    methodName? := some method.name
    rpcId? := some rpcId }

/-- The header `OnIncomingRpcDone` sends; it sets every field of the thread's header. -/
def incomingDoneHeader (ctx : IncomingRpcContext Msg) (result : Result) : RpcHeader where
  packetType? := some .response
  serviceName? := some ctx.method.service.name
  methodName? := some ctx.method.name
  rpcId? := some ctx.rpcId
  rpcResult? := some (Int32.ofInt result.toInt)

/-- `OnOutgoingRpcSend`: the thread's header afterwards and the packet. -/
def onOutgoingRpcSend (rpcHeader : RpcHeader) (method : MethodDescriptor) (request : Msg)
    (rpcId : UInt64) : RpcHeader × Option (List UInt8) :=
  let header := outgoingHeader rpcHeader method rpcId
  (header, sendMessage env header request)

def onIncomingRpcDone (ctx : IncomingRpcContext Msg) (result : Result) (response : Msg) :
    Option (List UInt8) :=
  sendMessage env (incomingDoneHeader ctx result) response

end HyperRpc
