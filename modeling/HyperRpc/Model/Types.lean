import HyperRpc.Lib.Tables
import Mathlib.Data.List.FinRange
import Mathlib.Tactic.DeriveFintype

/-!
# The values the RPC code passes around

Results, addresses and protobuf descriptors. A method descriptor is a service descriptor
together with the index of one of its methods, so that `method->service()`, `method->index()`
and the message types can never disagree.
-/
namespace HyperRpc

open Lib

/-- A `std::string`, which is a sequence of bytes. -/
abbrev Str := List UInt8

def ascii (s : String) : Str := s.toList.map Char.toUInt8

inductive Result
  | kSuccess | kFailure | kNoRoute | kTimeout | kNotImpl | kInError
  deriving DecidableEq, Repr

namespace Result

/-- The enumerator's value, as `set_rpc_result` stores it. -/
def toInt : Result → ℤ
  | kSuccess => 0
  | kFailure => 1
  | kNoRoute => 2
  | kTimeout => 3
  | kNotImpl => 4
  | kInError => 5

end Result

def kMaxResultValue : ℤ := Result.kInError.toInt

/-- The check of `rpc_result` in `OnRecvResponseMessage` followed by its cast to `Result`. -/
def Result.ofInt? (v : ℤ) : Option Result :=
  if v < 0 ∨ v > kMaxResultValue then none
  else if v = 0 then some .kSuccess
  else if v = 1 then some .kFailure
  else if v = 2 then some .kNoRoute
  else if v = 3 then some .kTimeout
  else if v = 4 then some .kNotImpl
  else some .kInError

@[simp] theorem Result.ofInt?_toInt (r : Result) : Result.ofInt? r.toInt = some r := by
  cases r <;> rfl

/-- `hudp::Addr`, an IPv4 endpoint. -/
structure Addr where
  ip : UInt32
  port : UInt16
  deriving DecidableEq, Repr

/-- One method of a service, as its proto file declares it. -/
structure MethodProto where
  name : Str
  inputType : Str
  outputType : Str
  deriving DecidableEq, Repr

/-- `google::protobuf::ServiceDescriptor`. The names of its methods are distinct, or the proto
file would not have compiled. -/
structure ServiceDescriptor where
  package : Str
  name : Str
  methods : List MethodProto
  nodup : (methods.map MethodProto.name).Nodup
  deriving DecidableEq

/-- `full_name()`: the package, if there is one, a dot and the name. -/
def ServiceDescriptor.fullName (svc : ServiceDescriptor) : Str :=
  if svc.package = [] then svc.name else svc.package ++ 46 :: svc.name

/-- `google::protobuf::MethodDescriptor`, which knows its service and its index there. -/
structure MethodDescriptor where
  service : ServiceDescriptor
  index : Fin service.methods.length
  deriving DecidableEq

namespace MethodDescriptor

variable (md : MethodDescriptor)

def proto : MethodProto := md.service.methods.get md.index
def name : Str := md.proto.name
def inputType : Str := md.proto.inputType
def outputType : Str := md.proto.outputType

end MethodDescriptor

namespace ServiceDescriptor

def findMethodByName (svc : ServiceDescriptor) (name : Str) : Option MethodDescriptor :=
  ((List.finRange svc.methods.length).find? fun i => (svc.methods.get i).name = name).map
    fun i => ⟨svc, i⟩

theorem findMethodByName_some {svc : ServiceDescriptor} {name : Str} {md : MethodDescriptor}
    (h : svc.findMethodByName name = some md) : md.service = svc ∧ md.name = name := by
  obtain ⟨i, hi, rfl⟩ := Option.map_eq_some_iff.mp h
  exact ⟨rfl, (lookup_eq_some hi).2⟩

theorem findMethodByName_name (md : MethodDescriptor) :
    md.service.findMethodByName md.name = some md := by
  have hnames : (List.finRange md.service.methods.length).map
      (MethodProto.name ∘ md.service.methods.get) = md.service.methods.map MethodProto.name := by
    rw [← List.map_map, List.map_get_finRange]
  have hfound := lookup_of_mem (hnames ▸ md.service.nodup) (List.mem_finRange md.index)
  exact congrArg (Option.map fun i => MethodDescriptor.mk md.service i) hfound

end ServiceDescriptor

end HyperRpc
