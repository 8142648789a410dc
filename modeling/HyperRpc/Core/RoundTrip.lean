import HyperRpc.Core.Services

/-!
# Packets of one thread

A thread owns two `RpcHeader` objects, one for the requests it sends and one for its responses,
and never clears them. What it sends is read back by the receiver exactly as it was meant, unless
a length was cut when it was written into its field.
-/
namespace HyperRpc

open Lib

variable {Msg : Type}

/-- The two `static thread_local RpcHeader` objects of the senders. -/
structure ThreadHeaders where
  outgoingRpcSend : RpcHeader
  incomingRpcDone : RpcHeader

/-- A thread that has not sent anything. -/
def ThreadHeaders.initial : ThreadHeaders := ⟨.empty, .empty⟩

/-- One call of `OnOutgoingRpcSend` or of `OnIncomingRpcDone`. -/
inductive Sending (Msg : Type)
  | request (method : MethodDescriptor) (request : Msg) (rpcId : UInt64)
  | response (ctx : IncomingRpcContext Msg) (result : Result) (response : Msg)

namespace Sending

/-- The header the receiver is meant to read; a request has no `rpc_result`. -/
def header : Sending Msg → RpcHeader
  | .request method _ rpcId =>
    ⟨some .request, some method.service.name, some method.name, some rpcId, none⟩
  | .response ctx result _ => incomingDoneHeader ctx result

def body : Sending Msg → Msg
  | .request _ msg _ => msg
  | .response _ _ msg => msg

end Sending

/-- The setters of `OnIncomingRpcDone` on the header of the thread. -/
def doneHeader (rpcHeader : RpcHeader) (ctx : IncomingRpcContext Msg) (result : Result) :
    RpcHeader :=
  { rpcHeader with
    packetType? := some .response
    serviceName? := some ctx.method.service.name
    methodName? := some ctx.method.name
    rpcId? := some ctx.rpcId
    rpcResult? := some (Int32.ofInt result.toInt) }

section Senders

variable (env : RpcEnv Msg)

/-- The headers of the thread afterwards and the packet. -/
def ThreadHeaders.send (t : ThreadHeaders) :
    Sending Msg → ThreadHeaders × Option (List UInt8)
  | .request method request rpcId =>
    let sent := onOutgoingRpcSend env t.outgoingRpcSend method request rpcId
    ({ t with outgoingRpcSend := sent.1 }, sent.2)
  | .response ctx result response =>
    let header := doneHeader t.incomingRpcDone ctx result
    ({ t with incomingRpcDone := header }, sendMessage env header response)

/-- The packets of a sequence of sendings; `none` where a message is not serialised. -/
def ThreadHeaders.sendAll (t : ThreadHeaders) : List (Sending Msg) → Option (List (List UInt8))
  | [] => some []
  | s :: sendings =>
    (t.send env s).2.bind fun packet =>
      ((t.send env s).1.sendAll sendings).map fun packets => packet :: packets

/-- `OnRecvPacket` accepts the packet and reads from it the header and the body it was sent
with. -/
def Sending.RoundTrips (s : Sending Msg) (packet : List UInt8) : Prop :=
  ∃ headerBytes bodyBytes, RpcCore.parsePacket packet = some (some (headerBytes, bodyBytes)) ∧
    env.parseHeader headerBytes = some s.header ∧ env.serialize s.body = some bodyBytes

/-- The lengths of the header and of the body fit into the fields of `RpcPacketHeader`. -/
def Sending.LengthsFit (s : Sending Msg) : Prop :=
  (env.serializeHeader s.header).length < 2 ^ 16 ∧
    ∀ bodyBytes, env.serialize s.body = some bodyBytes → bodyBytes.length < 2 ^ 32

end Senders

variable {env : RpcEnv Msg}

namespace ThreadHeaders

/-- No sending of a request sets the one field that requests leave alone. -/
theorem send_rpcResult (t : ThreadHeaders) (s : Sending Msg) :
    (t.send env s).1.outgoingRpcSend.rpcResult? = t.outgoingRpcSend.rpcResult? := by
  cases s <;> rfl

/-- Every other field is overwritten. -/
theorem send_packet {t : ThreadHeaders} (ht : t.outgoingRpcSend.rpcResult? = none)
    (s : Sending Msg) : (t.send env s).2 = sendMessage env s.header s.body := by
  cases s with
  | request method request rpcId =>
    have hheader : outgoingHeader t.outgoingRpcSend method rpcId =
        (Sending.request method request rpcId).header := by
      rw [outgoingHeader, ht, Sending.header]
    rw [← hheader]
    rfl
  | response ctx result response => rfl

theorem sendAll_packet {sendings : List (Sending Msg)} {t : ThreadHeaders}
    {packets : List (List UInt8)} (ht : t.outgoingRpcSend.rpcResult? = none)
    (h : t.sendAll env sendings = some packets) :
    List.Forall₂ (fun s packet => sendMessage env s.header s.body = some packet)
      sendings packets := by
  induction sendings generalizing t packets with
  | nil =>
    obtain rfl := Option.some.inj h
    exact List.Forall₂.nil
  | cons s sendings ih =>
    obtain ⟨packet, hpacket, hmap⟩ := Option.bind_eq_some_iff.mp h
    obtain ⟨rest, hrest, rfl⟩ := Option.map_eq_some_iff.mp hmap
    have hnext : (t.send env s).1.outgoingRpcSend.rpcResult? = none := by
      rw [send_rpcResult, ht]
    rw [send_packet ht] at hpacket
    exact List.Forall₂.cons hpacket (ih hnext hrest)

end ThreadHeaders

namespace Sending

variable {s : Sending Msg} {packet : List UInt8}

theorem header_ne_empty (s : Sending Msg) : s.header ≠ .empty := by
  cases s <;> simp [header, incomingDoneHeader, RpcHeader.empty]

/-- A sent header takes at least one byte. -/
theorem serializeHeader_ne_nil (hlaw : LawfulProtobuf env)
    (hnil : env.parseHeader [] = some .empty) (s : Sending Msg) :
    env.serializeHeader s.header ≠ [] := by
  intro h
  have hparse := hlaw.header s.header (by rw [h]; decide)
  rw [h, hnil] at hparse
  exact s.header_ne_empty (Option.some.inj hparse).symm

/-- A packet is read back exactly if its lengths fit. -/
theorem roundTrips_iff (hlaw : LawfulProtobuf env) (hnil : env.parseHeader [] = some .empty)
    (hsent : sendMessage env s.header s.body = some packet) :
    s.RoundTrips env packet ↔ s.LengthsFit env := by
  obtain ⟨bodyBytes, hbody, rfl⟩ := sendMessage_eq_some.mp hsent
  have hserialize : ∀ bytes, env.serialize s.body = some bytes → bytes = bodyBytes :=
    fun bytes hbytes => Option.some.inj (hbytes.symm.trans hbody)
  constructor
  · rintro ⟨headerBytes, bytes, hparse, -, -⟩
    obtain ⟨hpacket, hfits⟩ := RpcCore.parsePacket_eq_some.mp hparse
    obtain ⟨rfl, rfl⟩ := packetOf_inj hfits hpacket
    refine ⟨hfits.header, fun bytes hbytes => ?_⟩
    rw [hserialize bytes hbytes]
    exact hfits.body
  · rintro ⟨hheader, hlength⟩
    have hpos := List.length_pos_of_ne_nil (s.serializeHeader_ne_nil hlaw hnil)
    have hfits : Fits (env.serializeHeader s.header) bodyBytes :=
      ⟨hheader, hlength bodyBytes hbody, by omega⟩
    exact ⟨_, bodyBytes, RpcCore.parsePacket_eq_some.mpr ⟨rfl, hfits⟩, hlaw.header _ hheader,
      hbody⟩

end Sending

/-- In every sequence of packets a thread sends, a packet is read back by the receiver with the
header and the body it was sent with, and nothing of an earlier packet, exactly if the lengths
of its header and of its body fit into 16 and 32 bits. -/
theorem ThreadHeaders.round_trip_iff (hlaw : LawfulProtobuf env)
    (hnil : env.parseHeader [] = some .empty) {sendings : List (Sending Msg)}
    {packets : List (List UInt8)} (h : ThreadHeaders.initial.sendAll env sendings = some packets) :
    packets.length = sendings.length ∧
      ∀ (i : ℕ) (s : Sending Msg) (packet : List UInt8), sendings[i]? = some s →
        packets[i]? = some packet → (s.RoundTrips env packet ↔ s.LengthsFit env) := by
  have hall := sendAll_packet rfl h
  refine ⟨hall.length_eq.symm, fun i s packet hs hpacket => ?_⟩
  obtain ⟨hi, rfl⟩ := List.getElem?_eq_some_iff.mp hs
  obtain ⟨hi', rfl⟩ := List.getElem?_eq_some_iff.mp hpacket
  exact Sending.roundTrips_iff hlaw hnil (hall.get hi hi')

/-- Two responses and, between them, a request whose header must not show a result. -/
def sampleSendings : List (Sending ValueMessage) :=
  let method := RpcCore.sampleMethod [] [] []
  let ctx : IncomingRpcContext ValueMessage :=
    ⟨method, ⟨[], none⟩, ⟨[], none⟩, 0x1000000000007, ⟨7, 7⟩, true⟩
  [.response ctx .kInError ⟨[], some [1, 2]⟩, .request method ⟨[], some []⟩ 0x2000000000001,
    .response ctx .kSuccess ⟨[], none⟩]

theorem ThreadHeaders.round_trip_sample : ∃ packets,
    ThreadHeaders.initial.sendAll (wireEnv 1) sampleSendings = some packets ∧
      ∀ (i : ℕ) (s : Sending ValueMessage) (packet : List UInt8), sampleSendings[i]? = some s →
        packets[i]? = some packet → s.RoundTrips (wireEnv 1) packet := by
  obtain ⟨packets, h⟩ : ∃ packets,
      ThreadHeaders.initial.sendAll (wireEnv 1) sampleSendings = some packets :=
    Option.isSome_iff_exists.mp (by decide +kernel)
  have hfit : ∀ s ∈ sampleSendings, s.LengthsFit (wireEnv 1) := by
    intro s hs
    simp only [sampleSendings, List.mem_cons, List.not_mem_nil, or_false] at hs
    rcases hs with rfl | rfl | rfl
    all_goals
      refine ⟨by decide +kernel, fun bytes hbytes => ?_⟩
      cases hbytes
      decide
  refine ⟨packets, h, fun i s packet hs hpacket => ?_⟩
  exact ((ThreadHeaders.round_trip_iff (wireEnv_lawful 1) rfl h).2 i s packet hs hpacket).mpr
    (hfit s (List.mem_of_getElem? hs))

/-- A method whose name takes 65536 bytes. -/
def longNamedMethod : MethodDescriptor where
  service :=
    { package := []
      name := [80]
      methods := [⟨List.replicate 65536 109, [], []⟩]
      nodup := List.nodup_singleton _ }
  index := ⟨0, Nat.one_pos⟩

/-- The length of this header is cut to 16 bits, and the receiver drops the packet. -/
theorem ThreadHeaders.round_trip_cut : ∃ packet,
    ThreadHeaders.initial.sendAll (wireEnv 1) [.request longNamedMethod ⟨[], none⟩ 1] =
        some [packet] ∧
      ¬ (Sending.request longNamedMethod ⟨[], none⟩ 1).RoundTrips (wireEnv 1) packet ∧
      RpcCore.parsePacket packet = some none := by
  let s : Sending ValueMessage := .request longNamedMethod ⟨[], none⟩ 1
  have hname : (3, WireValue.bytes longNamedMethod.name) ∈ s.header.fields := by
    simp [s, Sending.header, RpcHeader.fields]
  have hlong : 2 ^ 16 ≤ (RpcHeader.wireSerialize s.header).length := by
    have hle := bytes_length_le_encode hname
    have hlen : longNamedMethod.name.length = 65536 := List.length_replicate
    unfold RpcHeader.wireSerialize
    omega
  have hreject : ∀ headerBytes bodyBytes,
      RpcCore.parsePacket (packetOf (RpcHeader.wireSerialize s.header) []) ≠
        some (some (headerBytes, bodyBytes)) := by
    intro headerBytes bodyBytes hparse
    obtain ⟨hpacket, hfits⟩ := RpcCore.parsePacket_eq_some.mp hparse
    have hheader := hfits.header
    rw [← (packetOf_inj hfits hpacket).1] at hheader
    omega
  have hsent : sendMessage (wireEnv 1) s.header s.body =
      some (packetOf (RpcHeader.wireSerialize s.header) []) :=
    sendMessage_eq_some.mpr ⟨[], rfl, rfl⟩
  refine ⟨packetOf (RpcHeader.wireSerialize s.header) [], ?_, ?_, ?_⟩
  · rw [sendAll, send_packet rfl, hsent]
    rfl
  · rintro ⟨headerBytes, bodyBytes, hparse, -, -⟩
    exact hreject headerBytes bodyBytes hparse
  · obtain ⟨r, hr⟩ := Option.isSome_iff_exists.mp (RpcCore.parsePacket_isSome
      (packetOf (RpcHeader.wireSerialize s.header) []))
    rcases r with _ | ⟨headerBytes, bodyBytes⟩
    · exact hr
    · exact absurd hr (hreject headerBytes bodyBytes)

end HyperRpc
