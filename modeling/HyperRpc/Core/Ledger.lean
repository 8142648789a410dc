import HyperRpc.Core.Services
import HyperRpc.Model.Contexts

/-!
# What requests leave behind

A request that is handed to its handler takes a context and two messages until the handler has
called `done`. Two things break this: a body that does not parse, since its context is not deleted,
and the end of a handler whose messages are not in an arena, since nothing deletes them.
-/
namespace HyperRpc

open Lib

namespace Contexts

variable {Msg : Type} {env : RpcEnv Msg} {onFindService : Str → Option (Service Msg)}
  {s t : Contexts Msg} {c : ℕ} {buf : List UInt8} {addr : Addr}

/-- The objects do not change what the core does with a packet. -/
theorem onRecvPacket_eq (env : RpcEnv Msg) (onFindService : Str → Option (Service Msg))
    (s : Contexts Msg) (c : ℕ) (buf : List UInt8) (addr : Addr) :
    (s.onRecvPacket env onFindService c buf addr).map Prod.snd =
      RpcCore.onRecvPacket env onFindService c buf addr := by
  have hrequest : ∀ header body, (s.onRecvRequestMessage env onFindService header body addr).2 =
      RpcCore.onRecvRequestMessage env onFindService header body addr := by
    intro header body
    unfold onRecvRequestMessage RpcCore.onRecvRequestMessage
    cases onFindService header.serviceName with
    | none => rfl
    | some service =>
      dsimp only
      cases service.descriptor.findMethodByName header.methodName with
      | none => rfl
      | some method =>
        dsimp only
        split_ifs <;> rfl
  unfold onRecvPacket RpcCore.onRecvPacket
  rw [Option.map_map]
  congr 1
  funext packet
  rcases packet with _ | ⟨headerBytes, body⟩
  · rfl
  · dsimp only [Function.comp]
    cases env.parseHeader headerBytes with
    | none => rfl
    | some header =>
      dsimp only
      split_ifs
      · simp only [hrequest]
      all_goals rfl

/-! ## Objects of running handlers -/

/-- A context, a request and a response. -/
def objectsOf (number : ℕ) (arena : Bool) : List RequestObject :=
  [⟨.response, number, arena⟩, ⟨.request, number, arena⟩, ⟨.context, number, false⟩]

def expected (s : Contexts Msg) : List RequestObject :=
  s.running.flatMap fun r => objectsOf r.1 r.2.arena

/-- The outstanding objects are one context, one request and one response for each running handler;
with the last handler the last object goes. -/
structure Accounted (s : Contexts Msg) : Prop where
  outstanding : s.ledger.Perm s.expected
  drained : s.running = [] → s.ledger = []

/-- A request for a method of a service, whose body does not parse. -/
structure Unparsable (env : RpcEnv Msg) (onFindService : Str → Option (Service Msg))
    (buf : List UInt8) (header : RpcHeader) (body : List UInt8) (svc : Service Msg)
    (method : MethodDescriptor) : Prop where
  carries : RpcCore.Carries env buf header body
  type : header.packetType = .request
  service : onFindService header.serviceName = some svc
  resolves : svc.descriptor.findMethodByName header.methodName = some method
  fails : (env.parseFromArray (env.new (svc.requestPrototype method)) body).2 = false

/-- The action is a request whose body does not parse or the end of a handler whose messages are
not in an arena. -/
def Leaks (env : RpcEnv Msg) (onFindService : Str → Option (Service Msg)) (s : Contexts Msg) :
    ServerAction Msg → Prop
  | .recv buf _ => ∃ header body svc method,
      Unparsable env onFindService buf header body svc method
  | .done number _ _ => ∃ r ∈ s.running, r.1 = number ∧ r.2.arena = false

/-- No step of the run is such an action. -/
def LeakFree (env : RpcEnv Msg) (onFindService : Str → Option (Service Msg)) (c : ℕ) :
    Contexts Msg → List (ServerAction Msg) → Prop
  | _, [] => True
  | s, a :: as => ¬ s.Leaks env onFindService a ∧
    ∀ t, s.step env onFindService c a = some t → LeakFree env onFindService c t as

/-- The ledger holds the objects of the running handlers and those that no one will release. -/
structure Books (s : Contexts Msg) (lost : List RequestObject) : Prop where
  ledger : s.ledger.Perm (s.expected ++ lost)
  distinct : (s.running.map Prod.fst).Nodup
  running : ∀ r ∈ s.running, r.1 < s.created
  lost : ∀ o ∈ lost, o.number < s.created ∧ ∀ r ∈ s.running, r.1 ≠ o.number

theorem objectsOf_number {number : ℕ} {arena : Bool} {o : RequestObject}
    (h : o ∈ objectsOf number arena) : o.number = number := by
  simp only [objectsOf, List.mem_cons, List.not_mem_nil, or_false] at h
  rcases h with rfl | rfl | rfl <;> rfl

theorem books_initial : (initial : Contexts Msg).Books [] :=
  ⟨.refl _, List.nodup_nil, by simp [initial], by simp⟩

/-- The books balance only if nothing is lost. -/
theorem Books.accounted_iff {lost : List RequestObject} (h : s.Books lost) :
    s.Accounted ↔ lost = [] := by
  constructor
  · intro hok
    have hlen := (h.ledger.symm.trans hok.outstanding).length_eq
    rw [List.length_append] at hlen
    exact List.length_eq_zero_iff.mp (by omega)
  · rintro rfl
    have hperm : s.ledger.Perm s.expected := by simpa using h.ledger
    refine ⟨hperm, fun hnil => ?_⟩
    rw [expected, hnil, List.flatMap_nil] at hperm
    exact hperm.eq_nil

/-! ## Receiving -/

theorem onRecvPacket_of_request {header : RpcHeader} {body : List UInt8}
    (h : RpcCore.Carries env buf header body) (htype : header.packetType = .request) :
    (s.onRecvPacket env onFindService c buf addr).map Prod.fst =
      some (s.onRecvRequestMessage env onFindService header body addr).1 := by
  obtain ⟨headerBytes, hbuf, hfits, hparse⟩ := h
  rw [onRecvPacket, RpcCore.parsePacket_eq_some.mpr ⟨hbuf, hfits⟩]
  simp [hparse, htype]

/-- Only requests make objects. -/
theorem onRecvPacket_of_other
    (h : ∀ header body, RpcCore.Carries env buf header body → header.packetType ≠ .request) :
    (s.onRecvPacket env onFindService c buf addr).map Prod.fst = some s := by
  obtain ⟨packet, hpacket⟩ := Option.isSome_iff_exists.mp (RpcCore.parsePacket_isSome buf)
  rw [onRecvPacket, hpacket]
  match packet, hpacket with
  | none, _ => rfl
  | some (headerBytes, body), hpacket =>
    obtain ⟨hbuf, hfits⟩ := RpcCore.parsePacket_eq_some.mp hpacket
    cases hparse : env.parseHeader headerBytes with
    | none => simp [hparse]
    | some header =>
      have htype := h header body ⟨headerBytes, hbuf, hfits, hparse⟩
      simp only [Option.map_some, hparse, if_neg htype]
      split_ifs <;> rfl

/-- The new objects of a request. -/
def withRequest (s : Contexts Msg) (arena : Bool) : Contexts Msg :=
  s.newContext.initContext s.created arena

theorem withRequest_ledger (s : Contexts Msg) (arena : Bool) :
    (s.withRequest arena).ledger = objectsOf s.created arena ++ s.ledger := rfl

/-- What a received packet does to the objects. -/
inductive RecvEffect (env : RpcEnv Msg) (onFindService : Str → Option (Service Msg))
    (buf : List UInt8) (s : Contexts Msg) : Contexts Msg → Prop
  | none (h : ∀ header body svc method,
      ¬ Unparsable env onFindService buf header body svc method) :
      RecvEffect env onFindService buf s s
  | lost {header body svc method} (arena : Bool)
      (h : Unparsable env onFindService buf header body svc method) :
      RecvEffect env onFindService buf s (s.withRequest arena)
  | invoked (ctx : IncomingRpcContext Msg) (h : ∀ header body svc method,
      ¬ Unparsable env onFindService buf header body svc method) :
      RecvEffect env onFindService buf s
        { s.withRequest ctx.arena with running := (s.created, ctx) :: s.running }

theorem onRecvRequestMessage_effect {header : RpcHeader} {body : List UInt8}
    (h : RpcCore.Carries env buf header body) (htype : header.packetType = .request) :
    RecvEffect env onFindService buf s
      (s.onRecvRequestMessage env onFindService header body addr).1 := by
  have hread : ∀ {header' body' svc method},
      Unparsable env onFindService buf header' body' svc method →
      Unparsable env onFindService buf header body svc method := by
    intro header' body' svc method hu
    obtain ⟨rfl, rfl⟩ := hu.carries.unique h
    exact hu
  unfold onRecvRequestMessage
  cases hs : onFindService header.serviceName with
  | none =>
    refine .none fun header' body' svc method hu => ?_
    have hservice := (hread hu).service
    rw [hs] at hservice
    cases hservice
  | some svc =>
    dsimp only
    cases hm : svc.descriptor.findMethodByName header.methodName with
    | none =>
      refine .none fun header' body' svc' method hu => ?_
      obtain rfl := Option.some.inj (hs.symm.trans (hread hu).service)
      have hresolves := (hread hu).resolves
      rw [hm] at hresolves
      cases hresolves
    | some method =>
      dsimp only
      split_ifs with hp
      · refine .invoked (RpcCore.contextOf env header body addr svc method)
          fun header' body' svc' method' hu => ?_
        obtain rfl := Option.some.inj (hs.symm.trans (hread hu).service)
        obtain rfl := Option.some.inj (hm.symm.trans (hread hu).resolves)
        rw [(hread hu).fails] at hp
        cases hp
      · exact .lost _ ⟨h, htype, hs, hm, by simpa using hp⟩

theorem onRecvPacket_effect (hstep : s.step env onFindService c (.recv buf addr) = some t) :
    RecvEffect env onFindService buf s t := by
  change (s.onRecvPacket env onFindService c buf addr).map Prod.fst = some t at hstep
  by_cases hreq : ∃ header body, RpcCore.Carries env buf header body ∧
      header.packetType = .request
  · obtain ⟨header, body, h, htype⟩ := hreq
    rw [onRecvPacket_of_request h htype] at hstep
    cases hstep
    exact onRecvRequestMessage_effect h htype
  · rw [onRecvPacket_of_other fun header body h htype => hreq ⟨header, body, h, htype⟩] at hstep
    cases hstep
    exact .none fun header body svc method hu => hreq ⟨header, body, hu.carries, hu.type⟩

/-- The three new objects belong to the new handler or to no one. -/
theorem Books.recv {lost : List RequestObject} (h : s.Books lost)
    (hstep : s.step env onFindService c (.recv buf addr) = some t) : ∃ lost', t.Books lost' ∧
      (lost' = [] ↔ lost = [] ∧ ¬ s.Leaks env onFindService (.recv buf addr)) := by
  cases onRecvPacket_effect hstep with
  | none hno =>
    refine ⟨lost, h, ⟨fun hnil => ⟨hnil, ?_⟩, fun hboth => hboth.1⟩⟩
    rintro ⟨header, body, svc, method, hu⟩
    exact hno header body svc method hu
  | lost arena hu =>
    refine ⟨objectsOf s.created arena ++ lost, ⟨?_, h.distinct, ?_, ?_⟩, ?_⟩
    · rw [withRequest_ledger]
      exact (h.ledger.append_left _).trans (List.perm_append_comm_assoc _ _ _)
    · exact fun r hr => Nat.lt_succ_of_lt (h.running r hr)
    · intro o ho
      rcases List.mem_append.mp ho with ho | ho
      · rw [objectsOf_number ho]
        exact ⟨Nat.lt_succ_self _, fun r hr => (h.running r hr).ne⟩
      · exact ⟨Nat.lt_succ_of_lt (h.lost o ho).1, (h.lost o ho).2⟩
    · exact ⟨fun hnil => by simp [objectsOf] at hnil, fun hboth => absurd ⟨_, _, _, _, hu⟩ hboth.2⟩
  | invoked ctx hno =>
    refine ⟨lost, ⟨?_, ?_, ?_, ?_⟩, ⟨fun hnil => ⟨hnil, ?_⟩, fun hboth => hboth.1⟩⟩
    · have hexpected : Contexts.expected { s.withRequest ctx.arena with
          running := (s.created, ctx) :: s.running } =
            objectsOf s.created ctx.arena ++ s.expected := rfl
      rw [hexpected, List.append_assoc]
      exact (h.ledger.append_left (objectsOf s.created ctx.arena))
    · refine List.nodup_cons.mpr ⟨fun hmem => ?_, h.distinct⟩
      obtain ⟨r, hr, heq⟩ := List.mem_map.mp hmem
      exact (h.running r hr).ne heq
    · intro r hr
      rcases List.mem_cons.mp hr with rfl | hr
      · exact Nat.lt_succ_self _
      · exact Nat.lt_succ_of_lt (h.running r hr)
    · intro o ho
      refine ⟨Nat.lt_succ_of_lt (h.lost o ho).1, fun r hr => ?_⟩
      rcases List.mem_cons.mp hr with rfl | hr
      · exact (h.lost o ho).1.ne'
      · exact (h.lost o ho).2 r hr
    · rintro ⟨header, body, svc, method, hu⟩
      exact hno header body svc method hu

/-! ## The end of a handler -/

/-- The handler that ends is the one with the number, and it is no longer running. -/
theorem done_eq_some {number : ℕ} {result : Result} {response : Msg}
    (hstep : s.step env onFindService c (.done number result response) = some t) :
    ∃ pre r post, s.running = pre ++ r :: post ∧ r.1 = number ∧
      t = { s.deleteContext number r.2.arena with running := pre ++ post } := by
  obtain ⟨out, hout, rfl⟩ := Option.map_eq_some_iff.mp hstep
  obtain ⟨r, hfind, hsent⟩ := Option.bind_eq_some_iff.mp hout
  obtain ⟨packet, -, rfl⟩ := Option.map_eq_some_iff.mp hsent
  obtain ⟨hr, pre, post, hsplit, hpre⟩ := List.find?_eq_some_iff_append.mp hfind
  have hnumber : r.1 = number := of_decide_eq_true hr
  refine ⟨pre, r, post, hsplit, hnumber, ?_⟩
  have herase : s.running.eraseP (fun r => decide (r.1 = number)) = pre ++ post := by
    rw [hsplit, List.eraseP_append_right _ fun b hb => by simpa using hpre b hb]
    simp [hnumber]
  simp only [herase]

/-- What stays in the ledger when a context is deleted. -/
theorem deleteContext_ledger {number : ℕ} {arena : Bool} {rest : List RequestObject}
    (h : s.ledger.Perm (objectsOf number arena ++ rest)) (hrest : ∀ o ∈ rest, o.number ≠ number) :
    (s.deleteContext number arena).ledger.Perm
      ((if arena then [] else [⟨.response, number, false⟩, ⟨.request, number, false⟩]) ++
        rest) := by
  have herase : (s.ledger.erase ⟨.context, number, false⟩).Perm
      ([⟨.response, number, arena⟩, ⟨.request, number, arena⟩] ++ rest) := by
    have hdel := h.erase ⟨.context, number, false⟩
    simpa [objectsOf] using hdel
  cases arena with
  | false => exact herase
  | true =>
    have hkeep : rest.filter (fun o => ¬ (o.number = number ∧ o.inArena)) = rest :=
      List.filter_eq_self.mpr fun o ho => by simp [hrest o ho]
    have hfilter := herase.filter fun o => ¬ (o.number = number ∧ o.inArena)
    rw [List.filter_append, hkeep] at hfilter
    simpa [deleteContext] using hfilter

theorem Books.done {lost : List RequestObject} (h : s.Books lost) {number : ℕ} {result : Result}
    {response : Msg}
    (hstep : s.step env onFindService c (.done number result response) = some t) :
    ∃ lost', t.Books lost' ∧
      (lost' = [] ↔ lost = [] ∧ ¬ s.Leaks env onFindService (.done number result response)) := by
  obtain ⟨pre, r, post, hsplit, rfl, rfl⟩ := done_eq_some hstep
  have hdistinct := h.distinct
  rw [hsplit, List.map_append, List.map_cons] at hdistinct
  have hothers : ∀ r' ∈ pre ++ post, r'.1 ≠ r.1 := by
    intro r' hr' heq
    have hnot := (List.nodup_cons.mp (List.nodup_middle.mp hdistinct)).1
    rw [← List.map_append] at hnot
    exact hnot (List.mem_map.mpr ⟨r', hr', heq⟩)
  have hsub : ∀ r' ∈ pre ++ post, r' ∈ s.running := by
    intro r' hr'
    rw [hsplit]
    simp only [List.mem_append, List.mem_cons] at hr' ⊢
    exact hr'.imp_right Or.inr
  let left := (pre ++ post).flatMap fun r => objectsOf r.1 r.2.arena
  have hexpected : s.expected.Perm (objectsOf r.1 r.2.arena ++ left) := by
    rw [expected, hsplit]
    exact List.perm_middle.flatMap_right _
  have hrest : ∀ o ∈ left ++ lost, o.number ≠ r.1 := by
    intro o ho
    rcases List.mem_append.mp ho with ho | ho
    · obtain ⟨r', hr', ho⟩ := List.mem_flatMap.mp ho
      rw [objectsOf_number ho]
      exact hothers r' hr'
    · exact ((h.lost o ho).2 r (hsplit ▸ by simp)).symm
  have hledger := deleteContext_ledger
    ((h.ledger.trans (hexpected.append_right lost)).trans (by rw [List.append_assoc])) hrest
  refine ⟨(if r.2.arena then [] else [⟨.response, r.1, false⟩, ⟨.request, r.1, false⟩]) ++ lost,
    ⟨hledger.trans (List.perm_append_comm_assoc _ _ _), ?_,
      fun r' hr' => h.running r' (hsub r' hr'), fun o ho => ?_⟩, ?_⟩
  · exact (List.nodup_cons.mp (List.nodup_middle.mp hdistinct)).2.sublist (by simp)
  · rcases List.mem_append.mp ho with ho | ho
    · have hnumber : o.number = r.1 := by
        cases harena : r.2.arena <;> simp [harena] at ho
        rcases ho with rfl | rfl <;> rfl
      rw [hnumber]
      exact ⟨h.running r (hsplit ▸ by simp), hothers⟩
    · exact ⟨(h.lost o ho).1, fun r' hr' => (h.lost o ho).2 r' (hsub r' hr')⟩
  · have hleak : s.Leaks env onFindService (.done r.1 result response) ↔ r.2.arena = false := by
      constructor
      · rintro ⟨r', hr', heq, harena⟩
        rw [hsplit] at hr'
        rcases List.mem_append.mp hr' with hr' | hr'
        · exact absurd heq (hothers r' (List.mem_append_left _ hr'))
        · rcases List.mem_cons.mp hr' with rfl | hr'
          · exact harena
          · exact absurd heq (hothers r' (List.mem_append_right _ hr'))
      · exact fun harena => ⟨r, hsplit ▸ by simp, rfl, harena⟩
    rw [hleak]
    cases harena : r.2.arena <;> simp

/-! ## Runs -/

theorem Books.step {lost : List RequestObject} (h : s.Books lost) {a : ServerAction Msg}
    (hstep : s.step env onFindService c a = some t) : ∃ lost', t.Books lost' ∧
      (lost' = [] ↔ lost = [] ∧ ¬ s.Leaks env onFindService a) := by
  cases a with
  | recv buf addr => exact h.recv hstep
  | done number result response => exact h.done hstep

theorem Books.run {as : List (ServerAction Msg)} {lost : List RequestObject} (h : s.Books lost)
    (hrun : run (Contexts.step env onFindService · c) s as = some t) : ∃ lost', t.Books lost' ∧
      (lost' = [] ↔ lost = [] ∧ LeakFree env onFindService c s as) := by
  induction as generalizing s lost with
  | nil =>
    obtain rfl := Option.some.inj hrun
    exact ⟨lost, h, by simp [LeakFree]⟩
  | cons a as ih =>
    obtain ⟨s', hstep, hrest⟩ := run_cons_eq_some.mp hrun
    obtain ⟨lost', h', hiff⟩ := h.step hstep
    obtain ⟨lost'', h'', hiff'⟩ := ih h' hrest
    refine ⟨lost'', h'', hiff'.trans ?_⟩
    rw [hiff, LeakFree, and_assoc]
    refine and_congr_right fun _ => and_congr_right fun _ => ?_
    constructor
    · intro hfree u hu
      obtain rfl := Option.some.inj (hstep.symm.trans hu)
      exact hfree
    · exact fun hfree => hfree s' hstep

/-- In every state that is reached, the outstanding objects are a context, a request and a response
for each running handler, if and only if no request received so far had a body that does not parse
and no handler that has ended had its messages outside of an arena. -/
theorem accounted_iff_leakFree {as : List (ServerAction Msg)}
    (hrun : Lib.run (Contexts.step env onFindService · c) initial as = some s) :
    s.Accounted ↔ LeakFree env onFindService c initial as := by
  obtain ⟨lost, h, hiff⟩ := books_initial.run hrun
  rw [h.accounted_iff, hiff]
  simp

/-- A core with one service. -/
def sampleStep (arenas : Bool) (s : Contexts ValueMessage) :
    ServerAction ValueMessage → Option (Contexts ValueMessage) :=
  s.step { wireEnv 1 with ccEnableArenas := fun _ => arenas }
    (serviceMap [RpcCore.sampleService 0 [] [] []]) 0

/-- A request is received and answered. -/
def answeredRequest : List (ServerAction ValueMessage) :=
  [.recv RpcCore.sampleRequest ⟨7, 7⟩, .done 0 .kSuccess ⟨[], none⟩]

/-- With arenas nothing is left of it. -/
theorem accounted_arena : ∃ s, Lib.run (sampleStep true) initial answeredRequest = some s ∧
    s.ledger = [] ∧ LeakFree { wireEnv 1 with ccEnableArenas := fun _ => true }
      (serviceMap [RpcCore.sampleService 0 [] [] []]) 0 initial answeredRequest := by
  obtain ⟨s, hrun, hs⟩ := Option.map_eq_some_iff.mp
    (show (Lib.run (sampleStep true) initial answeredRequest).map
      (fun s => (s.ledger, s.running.length)) = some ([], 0) by decide +kernel)
  obtain ⟨hledger, hlen⟩ := Prod.mk.inj hs
  refine ⟨s, hrun, hledger, (accounted_iff_leakFree hrun).mp ⟨?_, fun _ => hledger⟩⟩
  rw [hledger, expected, List.length_eq_zero_iff.mp hlen]
  exact .nil

/-- Without them its two messages are left; and a body that does not parse leaves a context and two
messages for a handler that is never called. -/
theorem not_accounted_heap :
    (∃ s, Lib.run (sampleStep false) initial answeredRequest = some s ∧ s.running = [] ∧
      s.ledger.length = 2 ∧ ¬ s.Accounted) ∧
    ∃ s, Lib.run (sampleStep true) initial [.recv (packetOf (RpcHeader.wireSerialize
        ⟨some .request, some [80], some [112], some 7, none⟩) [255]) ⟨7, 7⟩] = some s ∧
      s.running = [] ∧ s.ledger.length = 3 ∧ ¬ s.Accounted := by
  have hfail : ∀ {s : Contexts ValueMessage} {n : ℕ}, s.running.length = 0 →
      s.ledger.length = n + 1 → s.running = [] ∧ s.ledger.length = n + 1 ∧ ¬ s.Accounted := by
    intro s n hlen hledger
    have hnil := List.length_eq_zero_iff.mp hlen
    refine ⟨hnil, hledger, fun hok => ?_⟩
    rw [hok.drained hnil, List.length_nil] at hledger
    omega
  constructor
  · obtain ⟨s, hrun, hs⟩ := Option.map_eq_some_iff.mp
      (show (Lib.run (sampleStep false) initial answeredRequest).map
        (fun s => (s.ledger.length, s.running.length)) = some (2, 0) by decide +kernel)
    obtain ⟨hledger, hlen⟩ := Prod.mk.inj hs
    exact ⟨s, hrun, hfail hlen hledger⟩
  · obtain ⟨s, hrun, hs⟩ := Option.map_eq_some_iff.mp
      (show (Lib.run (sampleStep true) initial [.recv (packetOf (RpcHeader.wireSerialize
        ⟨some .request, some [80], some [112], some 7, none⟩) [255]) ⟨7, 7⟩]).map
        (fun s => (s.ledger.length, s.running.length)) = some (3, 0) by decide +kernel)
    obtain ⟨hledger, hlen⟩ := Prod.mk.inj hs
    exact ⟨s, hrun, hfail hlen hledger⟩

end Contexts

end HyperRpc
