import HyperRpc.Core.HeaderCodec
import HyperRpc.Core.Receive
import HyperRpc.Session.Isolation

/-!
# Arbitrary input

Whatever bytes arrive from wherever, a core reads inside the buffer, answers with the index of
a core and leaves its sessions alone, unless the bytes are a response to one of them; then it
completes that session and no other.
-/
namespace HyperRpc

open Lib

namespace RpcCore

variable {Msg : Type} (env : RpcEnv Msg) (onFindService : Str → Option (Service Msg))

/-- The rest of `OnRecvPacket` for the session manager of the core. -/
def deliver (m : Machine Msg) : Received Msg → Option (Machine Msg)
  | .dropped => some m
  | .invoke _ _ => some m
  | .respond service method rpcId rpcResult respBody =>
    m.operation env.toSessionEnv (.onRecvResponse service method rpcId rpcResult respBody)

/-- The bytes answer the session in slot `i`: a response packet for this core with the id and
the names of that session, a result that exists and a body of its response type. -/
structure Answers (m : Machine Msg) (c : ℕ) (buf : List UInt8) (i : ℕ) (rpcResult : Result) :
    Prop where
  live : m.Live i
  packet : ∃ header body, Responds env buf header body rpcResult ∧
    getCoreIdFromRpcId env header.rpcId = some c ∧ header.rpcId = (m.node i).rpcId ∧
    header.serviceName = (m.node i).method.service.name ∧
    header.methodName = (m.node i).method.name ∧ (m.parsed env.toSessionEnv i body).2 = true

/-- The session in slot `i` is completed with the result, and nothing else happens. -/
structure CompletedAlone (m : Machine Msg) (i : ℕ) (rpcResult : Result) (m' : Machine Msg) :
    Prop where
  log : m'.log = .done (m.node i).done rpcResult (.response i) :: m.log
  once : ∃ d, (m.node i).done = some d ∧ m.doneCount d = 0 ∧ m'.doneCount d = 1
  freed : ¬ m'.Live i ∧ m'.st.wheel.armed i = none
  others : m.ActsOn i m'

/-- The session table, the timers, the id counter and the calls of `done` stay. -/
structure Undisturbed (m m' : Machine Msg) : Prop where
  mgr : m'.st.mgr = m.st.mgr
  wheel : m'.st.wheel = m.st.wheel
  log : m'.log = m.log

variable {m m' : Machine Msg} {mgr : SessionManager}

/-- What a response does to the manager once its callback has returned. -/
theorem operation_response (hT : m.TableInv) (hidle : m.stack = []) {rpcId : UInt64}
    (hne : rpcId ≠ 0) (service method : Str) (rpcResult : Result) (body : List UInt8) :
    ∃ m', m.operation env.toSessionEnv (.onRecvResponse service method rpcId rpcResult body) =
        some m' ∧
      ((∃ i, m.Live i ∧ rpcId = (m.node i).rpcId ∧ service = (m.node i).method.service.name ∧
          method = (m.node i).method.name ∧ (m.parsed env.toSessionEnv i body).2 = true ∧
          m' = ((m.parseInto env.toSessionEnv i body).push
            (.done (m.node i).done rpcResult (.response i))).close env.toSessionEnv true i []) ∨
        (∀ i, m.Live i → rpcId = (m.node i).rpcId → service = (m.node i).method.service.name →
          method = (m.node i).method.name → (m.parsed env.toSessionEnv i body).2 = false) ∧
          Undisturbed m m') := by
  have hrep : m.mayReport rpcId := by simp [Machine.mayReport, hidle]
  have hstep : m.step env.toSessionEnv (.onRecvResponse service method rpcId rpcResult body) =
      some (m.onRecvResponse env.toSessionEnv service method rpcId rpcResult body) :=
    if_pos ⟨hrep, hne⟩
  have hslot : ∀ i, m.Live i → rpcId = (m.node i).rpcId →
      m.st.mgr.findSessionNode rpcId = some i := by
    rintro i hlive rfl
    exact m.st.mgr.findSessionNode_eq_some.mpr ⟨(hT.slot i hlive).symm, rfl⟩
  have htrans := Machine.step_trans hstep
  generalize m.onRecvResponse env.toSessionEnv service method rpcId rpcResult body = m₁
    at htrans hstep
  cases htrans with
  | respIgnored _ _ hbad =>
    refine ⟨m, Machine.operation_of_idle hstep hidle, Or.inr ⟨?_, rfl, rfl, rfl⟩⟩
    intro i hlive hid hservice hmethod
    rcases hbad with hnone | ⟨k, hk, hnames⟩
    · rw [hslot i hlive hid] at hnone
      cases hnone
    · obtain rfl := Option.some.inj ((hslot i hlive hid).symm.trans hk)
      exact absurd hnames (by simp [hservice, hmethod])
  | @respUnparsed _ _ _ _ _ k _ _ hfind hnames hparse =>
    refine ⟨_, Machine.operation_of_idle hstep hidle, Or.inr ⟨?_, rfl, rfl, rfl⟩⟩
    intro i hlive hid _ _
    obtain rfl := Option.some.inj ((hslot i hlive hid).symm.trans hfind)
    exact hparse
  | @respDone _ _ _ _ _ k _ _ hfind hnames hparse =>
    obtain ⟨hlive, hid⟩ := Machine.found hne hfind
    refine ⟨_, Machine.operation_of_returns hstep rfl, Or.inl ⟨k, hlive, hid.symm, hnames.1.symm,
      hnames.2.symm, hparse, ?_⟩⟩
    rw [show (m.parseInto env.toSessionEnv k body).stack = [] from hidle]
    rfl

variable {env}

theorem completedAlone (hC : m.Consistent) (hidle : m.stack = []) {i : ℕ} {rpcResult : Result}
    {body : List UInt8} (hlive : m.Live i) :
    CompletedAlone m i rpcResult (((m.parseInto env.toSessionEnv i body).push
      (.done (m.node i).done rpcResult (.response i))).close env.toSessionEnv true i []) where
  log := rfl
  once := by
    obtain ⟨d, -, hd⟩ := hC.table.done_known hlive
    have hzero : m.doneCount d = 0 := by
      rw [hC.ledger.running i d hlive hd, hidle, List.countP_nil]
    refine ⟨d, hd, hzero, ?_⟩
    rw [Machine.doneCount_of_log_cons (m := m) rfl, hzero]
    simp [Callback.isDone, hd]
  freed := by
    refine ⟨fun h => h Machine.close_node_self.1, ?_⟩
    simp [Machine.close, SessionState.freeSessionNode, SessionState.cancelTimer, TimerWheel.disarm]
  others := by
    refine (Machine.parseInto_actsOn.trans (Machine.push_actsOn fun c hc => ?_) rfl).trans
      Machine.close_actsOn rfl
    exact Machine.isDone_of_ne hc

theorem ne_zero_of_getCoreId {x : UInt64} {c : ℕ} (h : getCoreIdFromRpcId env x = some c) :
    x ≠ 0 := by
  rintro rfl
  have hzero := (getCoreIdFromRpcId_eq_some.mp h).1
  simp at hzero

variable {onFindService} {buf : List UInt8} {addr : Addr} {c ret : ℕ} {received : Received Msg}

/-- Only a response for this core reaches the manager. -/
theorem Receives.deliver (h : Receives env onFindService c buf addr ret received)
    (hC : m.Consistent) (hidle : m.stack = []) :
    ∃ m', deliver env m received = some m' ∧
      (∀ i r, Answers env m c buf i r → CompletedAlone m i r m') ∧
      ((∀ i r, ¬ Answers env m c buf i r) → Undisturbed m m') := by
  have hquiet : (∀ header body r, Responds env buf header body r →
      getCoreIdFromRpcId env header.rpcId ≠ some c) →
      (∀ i r, Answers env m c buf i r → CompletedAlone m i r m) ∧
        ((∀ i r, ¬ Answers env m c buf i r) → Undisturbed m m) := by
    refine fun hno => ⟨?_, fun _ => ⟨rfl, rfl, rfl⟩⟩
    rintro i r ⟨-, header, body, hresp, hid, -⟩
    exact absurd hid (hno header body r hresp)
  cases h with
  | request h =>
    refine ⟨m, rfl, hquiet fun header' body' r hresp => ?_⟩
    have htype := hresp.type
    rw [(hresp.carries.unique h.carries).1, h.type] at htype
    cases htype
  | redirect h _ hid hne =>
    refine ⟨m, rfl, hquiet fun header' body' r hresp heq => ?_⟩
    rw [(hresp.carries.unique h).1, hid] at heq
    exact hne (Option.some.inj heq)
  | drop _ _ hnone =>
    refine ⟨m, rfl, hquiet fun header' body' r hresp heq => ?_⟩
    rw [hnone header' body' r hresp] at heq
    cases heq
  | @response header body r h hid =>
    have hT := hC.table
    obtain ⟨m', hop, hout⟩ := operation_response env hT hidle (ne_zero_of_getCoreId hid)
      header.serviceName header.methodName r body
    refine ⟨m', hop, ?_, fun hno => ?_⟩
    · rintro i r' ⟨hlive, header', body', hresp, -, hx, hservice, hmethod, hparse⟩
      obtain ⟨rfl, rfl⟩ := hresp.carries.unique h.carries
      obtain rfl := Option.some.inj (hresp.result.symm.trans h.result)
      rcases hout with ⟨k, hlk, hxk, -, -, -, rfl⟩ | ⟨hnot, -⟩
      · obtain rfl : k = i := by
          rw [← hT.slot k hlk, ← hT.slot i hlive, ← hxk, ← hx]
        exact completedAlone hC hidle hlk
      · exact absurd hparse (by simp [hnot i hlive hx hservice hmethod])
    · rcases hout with ⟨k, hlk, hxk, hservice, hmethod, hparse, -⟩ | ⟨-, hsame⟩
      · exact absurd ⟨hlk, header, body, h, hid, hxk, hservice, hmethod, hparse⟩ (hno k r)
      · exact hsame

/-- Whatever the bytes, the core stays in the buffer and among the cores, its look-ups stay in
the pool and never take a free slot for a session, and only an answer to a live session
changes something: it completes that session. -/
theorem arbitrary_input {size core : UInt64} {rand : UInt32} {memory : ℕ → SessionNode}
    {now : ℕ} {mem : MsgRef → Msg}
    (hinit : SessionManager.init size core rand memory = some mgr) (hsize : size.toNat ≤ 2 ^ 48)
    (hm : Machine.Reachable env.toSessionEnv mgr now mem m) (hidle : m.stack = [])
    (hc : c < env.workerNum) (buf : List UInt8) (addr : Addr) :
    (∀ x, m.st.mgr.slotOf x < 2 ^ m.st.mgr.poolSizeOrder) ∧
      (∀ x i, getCoreIdFromRpcId env x = some c → m.st.mgr.findSessionNode x = some i →
        m.Live i) ∧
      ∃ ret received m', onRecvPacket env onFindService c buf addr = some (ret, received) ∧
        ret < env.workerNum ∧ deliver env m received = some m' ∧
        (∀ i r, Answers env m c buf i r → CompletedAlone m i r m') ∧
        ((∀ i r, ¬ Answers env m c buf i r) → Undisturbed m m') := by
  have hwf := Machine.ReachableIf.wellFormed hinit hm
  refine ⟨(hwf.sized (SessionManager.sized_of_init hinit hsize)).slotOf_lt,
    fun x i hx hi => (Machine.found (ne_zero_of_getCoreId hx) hi).1, ?_⟩
  obtain ⟨ret, received, hrecv, hcases⟩ := onRecvPacket_receives env onFindService c buf addr
  obtain ⟨m', hdeliver, hout⟩ := hcases.deliver hwf.consistent hidle
  exact ⟨ret, received, m', hrecv, hcases.lt hc, hdeliver, hout⟩

/-- A response to the first call of the method on core 0. -/
def pongHeader : RpcHeader :=
  ⟨some .response, some [80], some [112], some 0x1000000000001, some 0⟩

theorem arbitrary_input_pong : ∃ m ret received m',
    Machine.Reachable (wireEnv 1).toSessionEnv Machine.pairManager 0 (fun _ => ⟨[], none⟩) m ∧
      onRecvPacket (wireEnv 1) (fun _ => none) 0 (packetOf pongHeader.wireSerialize []) ⟨7, 7⟩ =
        some (ret, received) ∧
      deliver (wireEnv 1) m received = some m' ∧ CompletedAlone m 1 .kSuccess m' := by
  obtain ⟨m, hm, hp⟩ := exists_reaches_of_run (Machine.step (wireEnv 1).toSessionEnv)
    (Machine.start Machine.pairManager 0 fun _ => ⟨[], none⟩)
    [.addSession pingMethod 0 1 [⟨1, 1⟩] 10, .ret]
    (fun m => decide (m.stack = [] ∧ (m.node 1).rpcId = 0x1000000000001 ∧
      (m.node 1).method = pingMethod ∧ (m.parsed (wireEnv 1).toSessionEnv 1 []).2 = true))
    (by decide +kernel)
  obtain ⟨hidle, hid, hmethod, hparse⟩ := of_decide_eq_true hp
  obtain ⟨-, -, ret, received, m', hrecv, -, hdeliver, hanswer, -⟩ :=
    arbitrary_input Machine.pairManager_init (by decide) hm hidle (show 0 < (wireEnv 1).workerNum by
      decide) (packetOf pongHeader.wireSerialize []) ⟨7, 7⟩
  refine ⟨m, ret, received, m', hm, hrecv, hdeliver, hanswer 1 _ ⟨?_, pongHeader, [], ?_⟩⟩
  · rw [Machine.Live, hid]
    decide
  · have hcarries : Carries (wireEnv 1) (packetOf pongHeader.wireSerialize []) pongHeader [] :=
      ⟨_, rfl, ⟨by decide, by decide, by decide⟩, by decide +kernel⟩
    exact ⟨⟨hcarries, rfl, rfl⟩, by decide, hid.symm, by rw [hmethod]; rfl, by rw [hmethod]; rfl,
      hparse⟩

end RpcCore

end HyperRpc
