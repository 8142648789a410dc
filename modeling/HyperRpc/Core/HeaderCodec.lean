import HyperRpc.Lib.Wire
import HyperRpc.Model.Packet

/-!
# `RpcHeader` on the wire

The code `protoc` generates from `rpc_message.proto`: fields are written in the order of their
numbers; reading keeps the last value of each known field and skips all others. The last
section is a message type with one optional field `bytes value = 1`, for concrete runs.
-/
namespace HyperRpc

open Lib

namespace RpcHeader

/-- An `int32` is written as the varint of its 64-bit sign extension. -/
def wireInt32 (v : Int32) : ℕ := v.toInt64.toUInt64.toNat

def readInt32 (n : ℕ) : Int32 := (UInt64.ofNat n).toInt64.toInt32

theorem readInt32_wireInt32 (v : Int32) : readInt32 (wireInt32 v) = v := by
  rw [readInt32, wireInt32, UInt64.ofNat_toNat, Int64.toInt64_toUInt64, Int32.toInt32_toInt64]

def fields (h : RpcHeader) : List (ℕ × WireValue) :=
  (h.packetType?.map fun t => (1, WireValue.varint (if t = .request then 0 else 1))).toList ++
    (h.serviceName?.map fun s => (2, WireValue.bytes s)).toList ++
    (h.methodName?.map fun s => (3, WireValue.bytes s)).toList ++
    (h.rpcId?.map fun x => (4, WireValue.varint x.toNat)).toList ++
    (h.rpcResult?.map fun r => (5, WireValue.varint (wireInt32 r))).toList

/-- One field is merged into the header. An unknown enumerator counts as unknown field. -/
def merge (h : RpcHeader) : ℕ × WireValue → RpcHeader
  | (1, .varint 0) => { h with packetType? := some .request }
  | (1, .varint 1) => { h with packetType? := some .response }
  | (2, .bytes s) => { h with serviceName? := some s }
  | (3, .bytes s) => { h with methodName? := some s }
  | (4, .varint n) => { h with rpcId? := some (UInt64.ofNat n) }
  | (5, .varint n) => { h with rpcResult? := some (readInt32 n) }
  | _ => h

def wireSerialize (h : RpcHeader) : List UInt8 := h.fields.flatMap encodeField

/-- `ParseFromArray` into a cleared header. -/
def wireParse (bytes : List UInt8) : Option RpcHeader :=
  (readFields bytes.length bytes).map fun fields => fields.foldl merge .empty

theorem merge_fields (h : RpcHeader) : h.fields.foldl merge .empty = h := by
  obtain ⟨type, service, method, id, result⟩ := h
  rcases type with _ | type <;> rcases service with _ | service <;>
    rcases method with _ | method <;> rcases id with _ | id <;> rcases result with _ | result <;>
    try cases type
  all_goals simp [fields, merge, empty, readInt32_wireInt32]

theorem fields_fit {h : RpcHeader} (hlen : h.wireSerialize.length < 2 ^ 64) :
    ∀ f ∈ h.fields, FieldFits f := by
  intro f hf
  have hbytes : ∀ num s, (num, WireValue.bytes s) ∈ h.fields → s.length < 2 ^ 64 :=
    fun num s hs => (bytes_length_le_encode hs).trans_lt hlen
  have hmem := hf
  simp only [fields, List.mem_append, Option.mem_toList, Option.map_eq_some_iff] at hf
  rcases hf with (((⟨t, -, rfl⟩ | ⟨s, hs, rfl⟩) | ⟨s, hs, rfl⟩) | ⟨x, -, rfl⟩) | ⟨r, -, rfl⟩
  · refine ⟨by decide, by decide, ?_⟩
    split_ifs <;> decide
  · exact ⟨by decide, by decide, hbytes 2 s hmem⟩
  · exact ⟨by decide, by decide, hbytes 3 s hmem⟩
  · exact ⟨by decide, by decide, x.toNat_lt⟩
  · exact ⟨by decide, by decide, UInt64.toNat_lt _⟩

theorem wireParse_wireSerialize {h : RpcHeader} (hlen : h.wireSerialize.length < 2 ^ 64) :
    wireParse h.wireSerialize = some h := by
  have hfields : readFields h.wireSerialize.length h.wireSerialize = some h.fields :=
    readFields_encode (fields_fit hlen) (length_le_encode h.fields)
  rw [wireParse, hfields, Option.map_some, merge_fields]

end RpcHeader

/-! ## Messages with one field -/

/-- A message with an optional field `bytes value = 1` and the name of its type. -/
structure ValueMessage where
  type : Str
  value? : Option Str
  deriving DecidableEq

namespace ValueMessage

def fields (m : ValueMessage) : List (ℕ × WireValue) :=
  (m.value?.map fun s => (1, WireValue.bytes s)).toList

def merge (m : ValueMessage) : ℕ × WireValue → ValueMessage
  | (1, .bytes s) => { m with value? := some s }
  | _ => m

/-- Messages of two gigabytes and more are not serialised. -/
def wireSerialize (m : ValueMessage) : Option (List UInt8) :=
  let bytes := m.fields.flatMap encodeField
  if bytes.length < 2 ^ 31 then some bytes else none

/-- `ParseFromArray` clears the message first. -/
def wireParse (m : ValueMessage) (bytes : List UInt8) : ValueMessage × Bool :=
  match readFields bytes.length bytes with
  | none => (⟨m.type, none⟩, false)
  | some fields => (fields.foldl merge ⟨m.type, none⟩, true)

theorem wireParse_wireSerialize {old m : ValueMessage} {bytes : List UInt8}
    (htype : old.type = m.type) (h : m.wireSerialize = some bytes) :
    old.wireParse bytes = (m, true) := by
  obtain ⟨hlen, heq⟩ := Option.ite_none_right_eq_some.mp h
  cases heq
  have hfit : ∀ f ∈ m.fields, FieldFits f := by
    intro f hf
    have hmem := hf
    simp only [fields, Option.mem_toList, Option.map_eq_some_iff] at hf
    obtain ⟨s, -, rfl⟩ := hf
    have hle := bytes_length_le_encode hmem
    exact ⟨by decide, by decide, by omega⟩
  have hfields := readFields_encode hfit (length_le_encode m.fields)
  have hmerge : m.fields.foldl merge ⟨old.type, none⟩ = m := by
    obtain ⟨type, _ | value⟩ := m <;> simp [fields, merge, htype]
  rw [wireParse, hfields]
  simp only [hmerge]

theorem wireParse_type (old : ValueMessage) (bytes : List UInt8) :
    (old.wireParse bytes).1.type = old.type := by
  have hmerge : ∀ (fields : List (ℕ × WireValue)) (m : ValueMessage),
      (fields.foldl merge m).type = m.type := by
    intro fields
    induction fields with
    | nil => exact fun _ => rfl
    | cons f fields ih =>
      intro m
      rw [List.foldl_cons, ih]
      unfold merge
      split <;> rfl
  unfold wireParse
  split
  · rfl
  · exact hmerge _ _

end ValueMessage

/-- The environment of a process with `workerNum` workers whose messages are `ValueMessage`s. -/
def wireEnv (workerNum : ℕ) : RpcEnv ValueMessage where
  defaultRpcTimeout := 5
  parseFromArray := ValueMessage.wireParse
  hasTimerAfterCancel := true
  hasTimerAfterExpiry := false
  workerNum := workerNum
  parseHeader := RpcHeader.wireParse
  serializeHeader := RpcHeader.wireSerialize
  serialize := ValueMessage.wireSerialize
  typeOf := ValueMessage.type
  new := fun m => ⟨m.type, none⟩
  ccEnableArenas := fun _ => true

end HyperRpc
