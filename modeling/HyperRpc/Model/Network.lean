import HyperRpc.Model.Process

/-!
# Processes on a network

Any number of processes, each at an address of its own, that share their proto files. Every
packet a process has given to its transport stays in its outbox, from where it may reach a
worker at its destination at any time and any number of times, or never. The receiver sees the
address of the sender.
-/
namespace HyperRpc

/-- What is fixed about the processes: protobuf, and of each process the options and the
services. -/
structure Deployment (Msg : Type) where
  protobuf : RpcEnv Msg
  workerNum : Addr → ℕ
  defaultRpcTimeout : Addr → ℕ
  services : Addr → List (Service Msg)

abbrev Network (Msg : Type) := Addr → Process Msg

inductive NetworkAction (Msg : Type)
  /-- A process does something other than to receive a packet. -/
  | act (a : Addr) (action : ProcessAction Msg)
  /-- The `k`-th packet that `src` has sent reaches a worker at `dst`. -/
  | deliver (src dst : Addr) (k : ℕ) (worker : ℕ) (posted : Bool)

def ProcessAction.isReception {Msg : Type} : ProcessAction Msg → Bool
  | .recvPacket .. => true
  | _ => false

namespace Network

variable {Msg : Type} (D : Deployment Msg) (N : Network Msg)

def envAt (a : Addr) : RpcEnv Msg :=
  { D.protobuf with workerNum := D.workerNum a, defaultRpcTimeout := D.defaultRpcTimeout a }

/-- The process at `a` makes a step. -/
def stepAt (a : Addr) (action : ProcessAction Msg) : Option (Network Msg) :=
  ((N a).step (envAt D a) (D.services a) action).map (Function.update N a)

def step : NetworkAction Msg → Option (Network Msg)
  | .act a action => if action.isReception then none else stepAt D N a action
  | .deliver src dst k worker posted =>
    match (N src).outbox[k]? with
    | none => none
    | some packet =>
      if packet.addr = dst then stepAt D N dst (.recvPacket worker packet.buf src posted) else none

def start (boot : Addr → Process.Boot Msg) (mgr : Addr → ℕ → SessionManager) : Network Msg :=
  fun a => Process.start (boot a) (mgr a)

end Network

end HyperRpc
