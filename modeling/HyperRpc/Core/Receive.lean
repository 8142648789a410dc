import HyperRpc.Model.RpcCore
import HyperRpc.Session.Allocation

/-!
# Receiving a packet

`parsePacket` accepts exactly the packets whose header has the right tag, version and lengths
and never reads outside the buffer. From this the cases of `onRecvPacket` follow: a handler is
invoked exactly for a `ValidRequest`, the session manager is called exactly for a
`ValidResponse` whose id belongs to this core.
-/
namespace HyperRpc

open Lib

/-- A packet with this header and body. -/
def packetOf (rpcHeader rpcBody : List UInt8) : List UInt8 :=
  RpcPacketHeader.encode
    { hrpcPktTag := kHyperRpcPacketTag
      hrpcPktVer := kHyperRpcPacketVer
      rpcHeaderLen := rpcHeader.length
      rpcBodyLen := rpcBody.length } ++ rpcHeader ++ rpcBody

/-- The lengths fit their fields, and there is something behind the packet header. -/
structure Fits (rpcHeader rpcBody : List UInt8) : Prop where
  header : rpcHeader.length < 2 ^ 16
  body : rpcBody.length < 2 ^ 32
  nonempty : 0 < rpcHeader.length + rpcBody.length

namespace RpcCore

theorem eight_le_length {buf : List UInt8} (h : 8 ≤ buf.length) :
    ∃ t v l₁ l₀ b₃ b₂ b₁ b₀ rest, buf = t :: v :: l₁ :: l₀ :: b₃ :: b₂ :: b₁ :: b₀ :: rest := by
  match buf, h with
  | t :: v :: l₁ :: l₀ :: b₃ :: b₂ :: b₁ :: b₀ :: rest, _ =>
    exact ⟨t, v, l₁, l₀, b₃, b₂, b₁, b₀, rest, rfl⟩

/-- The checks on a buffer that is long enough, read off its first eight bytes. -/
theorem parsePacket_cons (t v l₁ l₀ b₃ b₂ b₁ b₀ : UInt8) (rest : List UInt8) :
    parsePacket (t :: v :: l₁ :: l₀ :: b₃ :: b₂ :: b₁ :: b₀ :: rest) =
      some (if rest.length ≠ 0 ∧ t = kHyperRpcPacketTag ∧ v = kHyperRpcPacketVer ∧
          rest.length = beNat [l₁, l₀] + beNat [b₃, b₂, b₁, b₀]
        then some (rest.take (beNat [l₁, l₀]), rest.drop (beNat [l₁, l₀])) else none) := by
  have hlen : (t :: v :: l₁ :: l₀ :: b₃ :: b₂ :: b₁ :: b₀ :: rest).length = 8 + rest.length := by
    simp only [List.length_cons]
    omega
  have hslice₁ : slice (t :: v :: l₁ :: l₀ :: b₃ :: b₂ :: b₁ :: b₀ :: rest) 2 2 =
      some [l₁, l₀] := by
    rw [slice_of_le (by omega)]
    rfl
  have hslice₂ : slice (t :: v :: l₁ :: l₀ :: b₃ :: b₂ :: b₁ :: b₀ :: rest) 4 4 =
      some [b₃, b₂, b₁, b₀] := by
    rw [slice_of_le (by omega)]
    rfl
  unfold parsePacket
  simp only [hlen, hslice₁, hslice₂, RpcPacketHeader.size, List.getElem?_cons_zero,
    List.getElem?_cons_succ, Option.bind_some]
  by_cases hempty : rest.length = 0
  · simp [hempty]
  rw [if_neg (by omega)]
  by_cases ht : t = kHyperRpcPacketTag
  swap
  · simp [ht]
  by_cases hv : v = kHyperRpcPacketVer
  swap
  · simp [ht, hv]
  by_cases hsum : rest.length = beNat [l₁, l₀] + beNat [b₃, b₂, b₁, b₀]
  swap
  · rw [if_neg (not_not.mpr ht), if_neg (not_not.mpr hv), if_pos (by omega), if_neg (by tauto)]
  · rw [if_neg (not_not.mpr ht), if_neg (not_not.mpr hv), if_neg (by omega),
      slice_of_le (by omega), slice_of_le (by omega), if_pos ⟨hempty, ht, hv, hsum⟩]
    have hdrop : ∀ n, (t :: v :: l₁ :: l₀ :: b₃ :: b₂ :: b₁ :: b₀ :: rest).drop (8 + n) =
        rest.drop n := fun n => by
      rw [← List.drop_drop]
      rfl
    have hall : (rest.drop (beNat [l₁, l₀])).length ≤ beNat [b₃, b₂, b₁, b₀] := by
      rw [List.length_drop]
      omega
    simp only [Option.bind_some, Option.map_some, hdrop, List.take_of_length_le hall]
    rfl

theorem parsePacket_short {buf : List UInt8} (h : buf.length ≤ 8) : parsePacket buf = some none :=
  if_pos h

/-- No read leaves the buffer, whatever it holds. -/
theorem parsePacket_isSome (buf : List UInt8) : (parsePacket buf).isSome := by
  by_cases h : 8 ≤ buf.length
  · obtain ⟨t, v, l₁, l₀, b₃, b₂, b₁, b₀, rest, rfl⟩ := eight_le_length h
    rw [parsePacket_cons, Option.isSome_some]
  · rw [parsePacket_short (by omega), Option.isSome_some]

theorem packetOf_eq (rpcHeader rpcBody : List UInt8) : ∃ l₁ l₀ b₃ b₂ b₁ b₀,
    beBytes 2 rpcHeader.length = [l₁, l₀] ∧ beBytes 4 rpcBody.length = [b₃, b₂, b₁, b₀] ∧
      packetOf rpcHeader rpcBody = kHyperRpcPacketTag :: kHyperRpcPacketVer :: l₁ :: l₀ :: b₃ ::
        b₂ :: b₁ :: b₀ :: (rpcHeader ++ rpcBody) := by
  refine ⟨_, _, _, _, _, _, rfl, rfl, ?_⟩
  simp [packetOf, RpcPacketHeader.encode, beBytes]

/-- A buffer is accepted exactly if it is a packet whose lengths fit. -/
theorem parsePacket_eq_some {buf rpcHeader rpcBody : List UInt8} :
    parsePacket buf = some (some (rpcHeader, rpcBody)) ↔
      buf = packetOf rpcHeader rpcBody ∧ Fits rpcHeader rpcBody := by
  constructor
  · intro h
    by_cases hlen : 8 ≤ buf.length
    swap
    · simp [parsePacket_short (show buf.length ≤ 8 by omega)] at h
    obtain ⟨t, v, l₁, l₀, b₃, b₂, b₁, b₀, rest, rfl⟩ := eight_le_length hlen
    rw [parsePacket_cons] at h
    split_ifs at h with hc
    swap
    · simp at h
    obtain ⟨hne, rfl, rfl, hsum⟩ := hc
    simp only [Option.some.injEq, Prod.mk.injEq] at h
    obtain ⟨rfl, rfl⟩ := h
    have hh : (rest.take (beNat [l₁, l₀])).length = beNat [l₁, l₀] := by
      rw [List.length_take]
      omega
    have hb : (rest.drop (beNat [l₁, l₀])).length = beNat [b₃, b₂, b₁, b₀] := by
      rw [List.length_drop]
      omega
    have hhlt : beNat [l₁, l₀] < 256 ^ 2 := beNat_lt_of_length rfl
    have hblt : beNat [b₃, b₂, b₁, b₀] < 256 ^ 4 := beNat_lt_of_length rfl
    refine ⟨?_, ⟨by omega, by omega, by omega⟩⟩
    obtain ⟨k₁, k₀, c₃, c₂, c₁, c₀, hk, hc, hpkt⟩ :=
      packetOf_eq (rest.take (beNat [l₁, l₀])) (rest.drop (beNat [l₁, l₀]))
    rw [hh, show 2 = [l₁, l₀].length from rfl, beBytes_beNat] at hk
    rw [hb, show 4 = [b₃, b₂, b₁, b₀].length from rfl, beBytes_beNat] at hc
    rw [hpkt, List.take_append_drop]
    simp only [List.cons.injEq, and_true] at hk hc
    obtain ⟨rfl, rfl⟩ := hk
    obtain ⟨rfl, rfl, rfl, rfl⟩ := hc
    rfl
  · rintro ⟨rfl, hfits⟩
    obtain ⟨l₁, l₀, b₃, b₂, b₁, b₀, hl, hb, hpkt⟩ := packetOf_eq rpcHeader rpcBody
    have hlen : beNat [l₁, l₀] = rpcHeader.length := by
      rw [← hl, beNat_beBytes_of_lt (hfits.header.trans_eq (by norm_num))]
    have hblen : beNat [b₃, b₂, b₁, b₀] = rpcBody.length := by
      rw [← hb, beNat_beBytes_of_lt (hfits.body.trans_eq (by norm_num))]
    have hne := hfits.nonempty
    rw [hpkt, parsePacket_cons, hlen, hblen, List.length_append,
      if_pos ⟨by omega, rfl, rfl, rfl⟩, List.take_left, List.drop_left]

/-! ## Core ids -/

variable {Msg : Type} {env : RpcEnv Msg}

theorem coreIdPlus1_toNat (rpcId : UInt64) :
    (rpcId >>> UInt64.ofNat kRpcIdSeqPartBits).toNat = rpcId.toNat / 2 ^ kRpcIdSeqPartBits := by
  have h48 : (UInt64.ofNat kRpcIdSeqPartBits).toNat % 64 = kRpcIdSeqPartBits := by decide
  rw [UInt64.toNat_shiftRight, h48, Nat.shiftRight_eq_div_pow]

theorem getCoreIdFromRpcId_eq_some {rpcId : UInt64} {c : ℕ} :
    getCoreIdFromRpcId env rpcId = some c ↔
      rpcId.toNat / 2 ^ kRpcIdSeqPartBits = c + 1 ∧ c < env.workerNum := by
  unfold getCoreIdFromRpcId
  rw [coreIdPlus1_toNat]
  generalize rpcId.toNat / 2 ^ kRpcIdSeqPartBits = q
  dsimp only
  split_ifs with h
  · simp only [false_iff]
    omega
  · simp only [Option.some.injEq]
    omega

/-- The core id of an id drawn by the manager of core `c`, after any number of draws. -/
theorem getCoreIdFromRpcId_drawn {c : ℕ} (hc : c < env.workerNum) (hW : env.workerNum < 2 ^ 16)
    {size : UInt64} {rand : UInt32} {memory : ℕ → SessionNode} {mgr : SessionManager}
    (hinit : SessionManager.init size (UInt64.ofNat c) rand memory = some mgr) (n : ℕ) :
    getCoreIdFromRpcId env (mgr.advance n).nextRpcId = some c := by
  have hcore : (UInt64.ofNat c).toNat = c := by
    rw [UInt64.toNat_ofNat']
    exact Nat.mod_eq_of_lt (by omega)
  rw [getCoreIdFromRpcId_eq_some, SessionManager.advance_nextRpcId_toNat, ringAt_div,
    SessionManager.init_nextRpcId_div hinit, hcore]
  exact ⟨Nat.mod_eq_of_lt (by omega), hc⟩

theorem getCoreIdFromRpcId_zero : getCoreIdFromRpcId env 0 = none := by
  simp [getCoreIdFromRpcId]

/-- The test for a null context changes nothing: zero is the id of no core. -/
theorem onSendPacketFailed_eq (c : ℕ) (ctx : UInt64) :
    onSendPacketFailed env c ctx = match getCoreIdFromRpcId env ctx with
      | none => (c, none)
      | some dst => if dst ≠ c then (dst, none) else (c, some ctx) := by
  by_cases hctx : ctx = 0
  · simp [onSendPacketFailed, hctx, getCoreIdFromRpcId_zero]
  · unfold onSendPacketFailed
    exact if_pos hctx

/-! ## What is done with a packet -/

variable {onFindService : Str → Option (Service Msg)} {buf : List UInt8} {addr : Addr} {c : ℕ}

/-- The buffer is a packet with this parsed header and this body. -/
def Carries (env : RpcEnv Msg) (buf : List UInt8) (header : RpcHeader) (body : List UInt8) : Prop :=
  ∃ headerBytes, buf = packetOf headerBytes body ∧ Fits headerBytes body ∧
    env.parseHeader headerBytes = some header

/-- A packet for a method of a registered service, with a body that parses as its request. -/
structure Requests (env : RpcEnv Msg) (onFindService : Str → Option (Service Msg))
    (buf : List UInt8) (header : RpcHeader) (body : List UInt8) (svc : Service Msg)
    (method : MethodDescriptor) : Prop where
  carries : Carries env buf header body
  type : header.packetType = .request
  service : onFindService header.serviceName = some svc
  resolves : svc.descriptor.findMethodByName header.methodName = some method
  parses : (env.parseFromArray (env.new (svc.requestPrototype method)) body).2 = true

/-- A packet that answers a call, with a result value that exists. -/
structure Responds (env : RpcEnv Msg) (buf : List UInt8) (header : RpcHeader)
    (body : List UInt8) (rpcResult : Result) : Prop where
  carries : Carries env buf header body
  type : header.packetType = .response
  result : Result.ofInt? header.rpcResult = some rpcResult

def ValidRequest (env : RpcEnv Msg) (onFindService : Str → Option (Service Msg))
    (buf : List UInt8) : Prop :=
  ∃ header body svc method, Requests env onFindService buf header body svc method

/-- The context made for a request. -/
def contextOf (env : RpcEnv Msg) (header : RpcHeader) (body : List UInt8) (addr : Addr)
    (svc : Service Msg) (method : MethodDescriptor) : IncomingRpcContext Msg where
  method := method
  request := (env.parseFromArray (env.new (svc.requestPrototype method)) body).1
  response := env.new (svc.responsePrototype method)
  rpcId := header.rpcId
  addr := addr
  arena := env.ccEnableArenas (svc.requestPrototype method)

theorem Carries.unique {header header' : RpcHeader} {body body' : List UInt8}
    (h : Carries env buf header body) (h' : Carries env buf header' body') :
    header = header' ∧ body = body' := by
  obtain ⟨hb, hbuf, hfits, hparse⟩ := h
  obtain ⟨hb', hbuf', hfits', hparse'⟩ := h'
  have heq := (parsePacket_eq_some.mpr ⟨hbuf, hfits⟩).symm.trans
    (parsePacket_eq_some.mpr ⟨hbuf', hfits'⟩)
  simp only [Option.some.injEq, Prod.mk.injEq] at heq
  obtain ⟨rfl, rfl⟩ := heq
  exact ⟨Option.some.inj (hparse.symm.trans hparse'), rfl⟩

/-- A response is no request. -/
theorem Carries.not_validRequest {header : RpcHeader} {body : List UInt8}
    (h : Carries env buf header body) (htype : header.packetType = .response) :
    ¬ ValidRequest env onFindService buf := by
  rintro ⟨header', body', _, _, hreq⟩
  have htype' := hreq.type
  rw [(hreq.carries.unique h).1, htype] at htype'
  cases htype'

/-- A buffer that carries no packet is dropped. -/
theorem onRecvPacket_reject (h : ∀ header body, ¬ Carries env buf header body) :
    onRecvPacket env onFindService c buf addr = some (c, .dropped) := by
  obtain ⟨r, hr⟩ := Option.isSome_iff_exists.mp (parsePacket_isSome buf)
  rw [onRecvPacket, hr]
  match r, hr with
  | none, _ => rfl
  | some (headerBytes, body), hr =>
    obtain ⟨hbuf, hfits⟩ := parsePacket_eq_some.mp hr
    cases hparse : env.parseHeader headerBytes with
    | none => simp [hparse]
    | some header => exact absurd ⟨headerBytes, hbuf, hfits, hparse⟩ (h header body)

theorem onRecvPacket_request {header : RpcHeader} {body : List UInt8}
    (h : Carries env buf header body) (htype : header.packetType = .request) :
    onRecvPacket env onFindService c buf addr =
      some (0, onRecvRequestMessage env onFindService header body addr) := by
  obtain ⟨headerBytes, hbuf, hfits, hparse⟩ := h
  rw [onRecvPacket, parsePacket_eq_some.mpr ⟨hbuf, hfits⟩]
  simp [hparse, htype]

/-- The core id decoded from a response is the one `GetCoreIdFromRpcId` decodes. -/
theorem onRecvPacket_response {header : RpcHeader} {body : List UInt8}
    (h : Carries env buf header body) (htype : header.packetType = .response) :
    onRecvPacket env onFindService c buf addr =
      some (match getCoreIdFromRpcId env header.rpcId with
        | none => (c, .dropped)
        | some dst =>
          if dst ≠ c then (dst, .dropped) else (0, onRecvResponseMessage header body)) := by
  obtain ⟨headerBytes, hbuf, hfits, hparse⟩ := h
  rw [onRecvPacket, parsePacket_eq_some.mpr ⟨hbuf, hfits⟩, getCoreIdFromRpcId]
  simp only [Option.map_some, hparse, htype, reduceCtorEq, if_false]
  split_ifs <;> simp_all

theorem onRecvRequestMessage_of_requests {header : RpcHeader} {body : List UInt8}
    {svc : Service Msg} {method : MethodDescriptor}
    (h : Requests env onFindService buf header body svc method) :
    onRecvRequestMessage env onFindService header body addr =
      .invoke svc (contextOf env header body addr svc method) := by
  simp [onRecvRequestMessage, h.service, h.resolves, h.parses, contextOf]

/-- A request that names no method or does not parse is dropped. -/
theorem onRecvRequestMessage_dropped {header : RpcHeader} {body : List UInt8}
    (hcarries : Carries env buf header body) (htype : header.packetType = .request)
    (h : ¬ ValidRequest env onFindService buf) :
    onRecvRequestMessage env onFindService header body addr = .dropped := by
  unfold onRecvRequestMessage
  cases hs : onFindService header.serviceName with
  | none => rfl
  | some svc =>
    cases hm : svc.descriptor.findMethodByName header.methodName with
    | none => simp [hm]
    | some method =>
      cases hp : (env.parseFromArray (env.new (svc.requestPrototype method)) body).2 with
      | false => simp [hm, hp]
      | true => exact absurd ⟨header, body, svc, method, hcarries, htype, hs, hm, hp⟩ h

/-- The cases of `OnRecvPacket`. -/
inductive Receives (env : RpcEnv Msg) (onFindService : Str → Option (Service Msg)) (c : ℕ)
    (buf : List UInt8) (addr : Addr) : ℕ → Received Msg → Prop
  | request {header body svc method}
      (h : Requests env onFindService buf header body svc method) :
      Receives env onFindService c buf addr 0
        (.invoke svc (contextOf env header body addr svc method))
  | response {header body rpcResult} (h : Responds env buf header body rpcResult)
      (hid : getCoreIdFromRpcId env header.rpcId = some c) :
      Receives env onFindService c buf addr 0
        (.respond header.serviceName header.methodName header.rpcId rpcResult body)
  | redirect {header body dst} (h : Carries env buf header body)
      (htype : header.packetType = .response)
      (hid : getCoreIdFromRpcId env header.rpcId = some dst) (hne : dst ≠ c) :
      Receives env onFindService c buf addr dst .dropped
  | drop {ret} (hret : ret = c ∨ ret = 0) (hinvalid : ¬ ValidRequest env onFindService buf)
      (hnone : ∀ header body rpcResult, Responds env buf header body rpcResult →
        getCoreIdFromRpcId env header.rpcId = none) :
      Receives env onFindService c buf addr ret .dropped

/-- No buffer makes `OnRecvPacket` read outside it. -/
theorem onRecvPacket_receives (env : RpcEnv Msg) (onFindService : Str → Option (Service Msg))
    (c : ℕ) (buf : List UInt8) (addr : Addr) :
    ∃ ret received, onRecvPacket env onFindService c buf addr = some (ret, received) ∧
      Receives env onFindService c buf addr ret received := by
  by_cases hc : ∃ header body, Carries env buf header body
  swap
  · simp only [not_exists] at hc
    refine ⟨c, .dropped, onRecvPacket_reject hc, .drop (Or.inl rfl) ?_ ?_⟩
    · rintro ⟨header, body, _, _, h⟩
      exact hc header body h.carries
    · intro header body _ h
      exact absurd h.carries (hc header body)
  obtain ⟨header, body, hc⟩ := hc
  cases htype : header.packetType with
  | request =>
    have hno : ∀ header' body' rpcResult, ¬ Responds env buf header' body' rpcResult := by
      intro header' body' _ h
      have htype' := h.type
      rw [(h.carries.unique hc).1, htype] at htype'
      cases htype'
    refine ⟨0, _, onRecvPacket_request hc htype, ?_⟩
    by_cases hv : ValidRequest env onFindService buf
    · obtain ⟨header', body', svc, method, h⟩ := hv
      obtain ⟨rfl, rfl⟩ := h.carries.unique hc
      rw [onRecvRequestMessage_of_requests h]
      exact .request h
    · rw [onRecvRequestMessage_dropped hc htype hv]
      exact .drop (Or.inr rfl) hv fun header' body' r h => absurd h (hno header' body' r)
  | response =>
    have hno : ¬ ValidRequest env onFindService buf := hc.not_validRequest htype
    have heq : onRecvPacket env onFindService c buf addr = _ := onRecvPacket_response hc htype
    cases hid : getCoreIdFromRpcId env header.rpcId with
    | none =>
      refine ⟨c, .dropped, by rw [heq, hid], .drop (Or.inl rfl) hno ?_⟩
      intro header' body' _ h
      rw [(h.carries.unique hc).1, hid]
    | some dst =>
      by_cases hdst : dst = c
      swap
      · exact ⟨dst, .dropped, by simp [heq, hid, hdst], .redirect hc htype hid hdst⟩
      subst hdst
      cases hres : Result.ofInt? header.rpcResult with
      | none =>
        refine ⟨0, .dropped, by simp [heq, hid, onRecvResponseMessage, hres],
          .drop (Or.inr rfl) hno ?_⟩
        intro header' body' _ h
        have hres' := h.result
        rw [(h.carries.unique hc).1, hres] at hres'
        cases hres'
      | some rpcResult =>
        exact ⟨0, _, by simp [heq, hid, onRecvResponseMessage, hres],
          .response ⟨hc, htype, hres⟩ hid⟩

/-- A handler is invoked exactly for a valid request, and zero is returned for it. -/
theorem Receives.validRequest_iff {ret : ℕ} {received : Received Msg}
    (h : Receives env onFindService c buf addr ret received) :
    (ValidRequest env onFindService buf ↔ ∃ svc ctx, received = .invoke svc ctx) ∧
      (ValidRequest env onFindService buf → ret = 0) := by
  cases h with
  | request h => exact ⟨⟨fun _ => ⟨_, _, rfl⟩, fun _ => ⟨_, _, _, _, h⟩⟩, fun _ => rfl⟩
  | response h => exact ⟨by simp [h.carries.not_validRequest h.type], fun _ => rfl⟩
  | redirect h htype =>
    have hno : ¬ ValidRequest env onFindService buf := h.not_validRequest htype
    exact ⟨by simp [hno], fun hv => absurd hv hno⟩
  | drop _ hno => exact ⟨by simp [hno], fun hv => absurd hv hno⟩

theorem Receives.of_invoke {ret : ℕ} {svc : Service Msg} {ctx : IncomingRpcContext Msg}
    (h : Receives env onFindService c buf addr ret (.invoke svc ctx)) :
    ∃ header body method, Requests env onFindService buf header body svc method ∧
      ctx = contextOf env header body addr svc method := by
  cases h with
  | request h => exact ⟨_, _, _, h, rfl⟩

theorem Receives.of_respond {ret : ℕ} {service method : Str} {rpcId : UInt64} {rpcResult : Result}
    {body : List UInt8}
    (h : Receives env onFindService c buf addr ret (.respond service method rpcId rpcResult body)) :
    ∃ header, Responds env buf header body rpcResult ∧ header.serviceName = service ∧
      header.methodName = method ∧ header.rpcId = rpcId ∧
      getCoreIdFromRpcId env rpcId = some c := by
  cases h with
  | response h hid => exact ⟨_, h, rfl, rfl, rfl, hid⟩

/-- The index `OnRecvPacket` returns is that of a core. -/
theorem Receives.lt {ret : ℕ} {received : Received Msg} (hc : c < env.workerNum)
    (h : Receives env onFindService c buf addr ret received) : ret < env.workerNum := by
  cases h with
  | request => omega
  | response => omega
  | redirect _ _ hid => exact (getCoreIdFromRpcId_eq_some.mp hid).2
  | drop hret => omega

end RpcCore

end HyperRpc
