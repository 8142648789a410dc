import HyperRpc.Model.Options
import HyperRpc.Process.Dispatch
import HyperRpc.Session.Accounting
import Mathlib.Algebra.BigOperators.Group.Finset.Basic
import Mathlib.Data.Nat.Log

/-!
# The size of the session pools

`Init` rounds the pool size up to a power of two. The order it keeps is at most 48, but the mask
is made of the order before that clamp; the two agree for sizes up to `2 ^ 48`. Together the pools
of all workers hold `max_rpc_sessions` sessions, unless the share of a worker is one, two, four or
eight and the division leaves a remainder.
-/
namespace HyperRpc

open Lib

namespace SessionManager

variable {size core : UInt64} {rand : UInt32} {memory : ℕ → SessionNode} {m : SessionManager}

/-- The sizing loop finds the least sufficient order. -/
theorem poolSizeOrderLoop_eq {fuel order : ℕ} (hclog : Nat.clog 2 size.toNat < 64)
    (hle : order ≤ Nat.clog 2 size.toNat) (hfuel : Nat.clog 2 size.toNat < order + fuel) :
    poolSizeOrderLoop size fuel order = some (Nat.clog 2 size.toNat) := by
  induction fuel generalizing order with
  | zero => omega
  | succ fuel ih =>
    have htest : (1 : UInt64) <<< UInt64.ofNat order < size ↔ order < Nat.clog 2 size.toNat := by
      rw [UInt64.lt_iff_toNat_lt, one_shiftLeft_toNat (by omega),
        Nat.lt_clog_iff_pow_lt Nat.one_lt_two]
    rw [poolSizeOrderLoop]
    split_ifs with h
    · rw [htest] at h
      exact ih (by omega) (by omega)
    · rw [htest] at h
      rw [show order = Nat.clog 2 size.toNat by omega]

/-- `Init` succeeds for every size up to `2 ^ 63`. -/
theorem init_eq (core : UInt64) (rand : UInt32) (memory : ℕ → SessionNode)
    (hsize : size.toNat ≤ 2 ^ 63) : ∃ m, init size core rand memory = some m ∧
    m.poolSizeOrder = min (Nat.clog 2 size.toNat) kRpcIdSeqPartBits ∧
      m.poolSizeMask = lowMask (Nat.clog 2 size.toNat) := by
  have hclog : Nat.clog 2 size.toNat ≤ 63 := Nat.clog_le_of_le_pow hsize
  have hloop : poolSizeOrderLoop size 64 0 = some (Nat.clog 2 size.toNat) :=
    poolSizeOrderLoop_eq (by omega) (Nat.zero_le _) (by omega)
  refine ⟨_, by rw [init, hloop]; rfl, rfl, rfl⟩

/-- What `Init` has to guarantee of the pool: a size that fits the ids, no index outside it, no
slot out of reach, and room for as many sessions as asked for. -/
structure PoolInBounds (size : UInt64) (m : SessionManager) : Prop where
  order_le : m.poolSizeOrder ≤ kRpcIdSeqPartBits
  index_lt : ∀ rpcId, m.slotOf rpcId < 2 ^ m.poolSizeOrder
  reached : ∀ i < 2 ^ m.poolSizeOrder, ∃ rpcId, m.slotOf rpcId = i
  room : size.toNat ≤ 2 ^ 48 → size.toNat ≤ 2 ^ m.poolSizeOrder

theorem poolInBounds_of_le (hinit : init size core rand memory = some m)
    (hsize : size.toNat ≤ 2 ^ 48) : PoolInBounds size m := by
  have hsized := sized_of_init hinit hsize
  obtain ⟨m', hinit', horder, -⟩ :=
    init_eq core rand memory (hsize.trans (by norm_num))
  cases hinit.symm.trans hinit'
  have hclog : Nat.clog 2 size.toNat ≤ kRpcIdSeqPartBits := Nat.clog_le_of_le_pow hsize
  rw [Nat.min_eq_left hclog] at horder
  refine ⟨hsized.order_le, hsized.slotOf_lt, fun i hi => ?_, fun _ => ?_⟩
  · have hpow : 2 ^ m.poolSizeOrder ≤ 2 ^ 48 := Nat.pow_le_pow_right Nat.two_pos hsized.order_le
    have hi64 : i < 2 ^ 64 := by omega
    refine ⟨UInt64.ofNat i, ?_⟩
    rw [hsized.slotOf_eq, UInt64.toNat_ofNat', Nat.mod_eq_of_lt hi64, Nat.mod_eq_of_lt hi]
  · rw [horder]
    exact Nat.le_pow_clog Nat.one_lt_two _

/-- A pool of more than `2 ^ 48` slots is cut down to `2 ^ 48`, and the id `2 ^ 48` leads
out of it. -/
theorem slotOf_eq_of_lt (hinit : init size core rand memory = some m)
    (hlt : 2 ^ 48 < size.toNat) (hsize : size.toNat ≤ 2 ^ 63) :
    m.poolSizeOrder = 48 ∧ m.slotOf 0x1000000000000 = 2 ^ 48 := by
  obtain ⟨m', hinit', horder, hmask⟩ :=
    init_eq core rand memory hsize
  cases hinit.symm.trans hinit'
  have hclog : 48 < Nat.clog 2 size.toNat := (Nat.lt_clog_iff_pow_lt Nat.one_lt_two).mpr hlt
  have hclog' : Nat.clog 2 size.toNat ≤ 63 := Nat.clog_le_of_le_pow hsize
  refine ⟨horder.trans (Nat.min_eq_right hclog.le), ?_⟩
  have hid : (0x1000000000000 : UInt64).toNat = 2 ^ 48 := by decide
  rw [slotOf, hmask, and_lowMask_toNat (by omega), hid]
  exact Nat.mod_eq_of_lt (Nat.pow_lt_pow_right Nat.one_lt_two hclog)

end SessionManager

/-! ## The size asked for -/

/-- The share of a worker, scaled and rounded down, does not reach `2 ^ 61`. -/
theorem calcSessionPoolSize_lt (opt : Options) : (calcSessionPoolSize opt).toNat < 2 ^ 61 := by
  have hlt := (opt.maxRpcSessions / opt.hudpOptions.workerNum * 10).toNat_lt
  rw [calcSessionPoolSize, UInt64.toNat_div]
  show _ / 9 < _
  omega

/-- The pool a core makes for its options is used within its bounds exactly if no more than
`2 ^ 48` slots are asked for. -/
theorem pool_in_bounds_iff (opt : Options) (core : UInt64) (rand : UInt32)
    (memory : ℕ → SessionNode) :
    (∃ m, SessionManager.init (calcSessionPoolSize opt) core rand memory = some m ∧
      SessionManager.PoolInBounds (calcSessionPoolSize opt) m) ↔
      (calcSessionPoolSize opt).toNat ≤ 2 ^ 48 := by
  have hsize : (calcSessionPoolSize opt).toNat ≤ 2 ^ 63 :=
    (calcSessionPoolSize_lt opt).le.trans (by norm_num)
  constructor
  · rintro ⟨m, hinit, hbounds⟩
    by_contra hgt
    obtain ⟨horder, hslot⟩ := SessionManager.slotOf_eq_of_lt hinit (by omega) hsize
    have hlt := hbounds.index_lt 0x1000000000000
    rw [hslot, horder] at hlt
    exact lt_irrefl _ hlt
  · intro hle
    obtain ⟨m, hinit, -⟩ := SessionManager.init_eq core rand memory hsize
    exact ⟨m, hinit, SessionManager.poolInBounds_of_le hinit hle⟩

/-- One worker and `2 ^ 48` sessions: a ninth more slots are asked for than there can be. -/
theorem pool_out_of_bounds : ∃ m, SessionManager.init
    (calcSessionPoolSize ⟨⟨1⟩, 0x1000000000000, 2500⟩) 0 0 (fun _ => blankNode) = some m ∧
      m.poolSizeOrder = 48 ∧ m.slotOf 0x1000000000000 = 2 ^ 48 := by
  obtain ⟨m, hinit, -⟩ := SessionManager.init_eq 0 0 (fun _ => blankNode)
    (show (calcSessionPoolSize ⟨⟨1⟩, 0x1000000000000, 2500⟩).toNat ≤ 2 ^ 63 by decide)
  exact ⟨m, hinit, SessionManager.slotOf_eq_of_lt hinit (by decide) (by decide)⟩

/-! ## Room for all sessions -/

/-- The rounded size of a worker's pool, for a share of `q` sessions. -/
def roundedShare (q : ℕ) : ℕ := 2 ^ min (Nat.clog 2 (q * 10 / 9)) kRpcIdSeqPartBits

theorem le_roundedShare {q : ℕ} (hq : q ≤ 2 ^ 48) : q ≤ roundedShare q := by
  rw [roundedShare]
  rcases le_total (Nat.clog 2 (q * 10 / 9)) kRpcIdSeqPartBits with h | h
  · rw [Nat.min_eq_left h]
    have hpow := Nat.le_pow_clog Nat.one_lt_two (q * 10 / 9)
    omega
  · rw [Nat.min_eq_right h]
    exact hq

/-- For these shares scaling changes nothing and there is nothing to round up. -/
theorem roundedShare_eq {q : ℕ} (hq : q ∈ [1, 2, 4, 8]) : roundedShare q = q := by
  simp only [List.mem_cons, List.not_mem_nil, or_false] at hq
  rcases hq with rfl | rfl | rfl | rfl <;> decide

theorem lt_roundedShare {q : ℕ} (hpos : 1 ≤ q) (hq : q < 2 ^ 48) (hne : q ∉ [1, 2, 4, 8]) :
    q < roundedShare q := by
  rw [roundedShare]
  rcases le_total (Nat.clog 2 (q * 10 / 9)) kRpcIdSeqPartBits with h | h
  · rw [Nat.min_eq_left h]
    by_cases hsmall : q < 9
    · simp only [List.mem_cons, List.not_mem_nil, or_false, not_or] at hne
      interval_cases q <;> first | omega | decide
    · have hpow := Nat.le_pow_clog Nat.one_lt_two (q * 10 / 9)
      omega
  · rw [Nat.min_eq_right h]
    exact hq

/-- `W` pools for the shares of `W * q + r` sessions. -/
theorem shares_suffice_iff {W q r : ℕ} (hr : r < W) (hq : 1 ≤ q) (hmax : W * q + r ≤ 2 ^ 48) :
    W * q + r ≤ W * roundedShare q ↔ r = 0 ∨ q ∉ [1, 2, 4, 8] := by
  have hqW : q ≤ W * q := Nat.le_mul_of_pos_left q (by omega)
  constructor
  · intro h
    by_contra hcon
    obtain ⟨hr0, hsmall⟩ := not_or.mp hcon
    rw [roundedShare_eq (not_not.mp hsmall)] at h
    omega
  · rintro (rfl | hne)
    · exact Nat.mul_le_mul_left W (le_roundedShare (by omega))
    · by_cases hr0 : r = 0
      · subst hr0
        exact Nat.mul_le_mul_left W (le_roundedShare (by omega))
      · calc W * q + r ≤ W * (q + 1) := by rw [Nat.mul_succ]; omega
          _ ≤ W * roundedShare q := Nat.mul_le_mul_left W (lt_roundedShare hq (by omega) hne)

variable {Msg : Type} {env : RpcEnv Msg} {boot : Process.Boot Msg} {mgr : ℕ → SessionManager}

theorem calcSessionPoolSize_toNat {opt : Options} (hmax : opt.maxRpcSessions.toNat ≤ 2 ^ 48) :
    (calcSessionPoolSize opt).toNat =
      opt.maxRpcSessions.toNat / opt.hudpOptions.workerNum.toNat * 10 / 9 := by
  have hdiv := Nat.div_le_self opt.maxRpcSessions.toNat opt.hudpOptions.workerNum.toNat
  rw [calcSessionPoolSize, UInt64.toNat_div, UInt64.toNat_mul, UInt64.toNat_div]
  show _ * 10 % 2 ^ 64 / 9 = _
  rw [Nat.mod_eq_of_lt (by omega)]

/-- Every process can start: `Init` succeeds on each of its cores. -/
theorem exists_started (env : RpcEnv Msg) (boot : Process.Boot Msg)
    (hsize : boot.sessPoolSize.toNat ≤ 2 ^ 63) : ∃ mgr, Process.Started env boot mgr := by
  choose mgr hmgr using fun c =>
    SessionManager.init_eq (UInt64.ofNat c) (boot.rand c) (boot.memory c) hsize
  exact ⟨mgr, fun c _ => (hmgr c).1⟩

/-- What the pools of a process hold together. -/
theorem sum_poolSize (opt : Options) (hmax : opt.maxRpcSessions.toNat ≤ 2 ^ 48)
    (hsize : boot.sessPoolSize = calcSessionPoolSize opt)
    (hstarted : Process.Started env boot mgr) :
    ∑ c ∈ Finset.range env.workerNum, 2 ^ (mgr c).poolSizeOrder = env.workerNum *
      roundedShare (opt.maxRpcSessions.toNat / opt.hudpOptions.workerNum.toNat) := by
  have horder : ∀ c ∈ Finset.range env.workerNum, 2 ^ (mgr c).poolSizeOrder =
      roundedShare (opt.maxRpcSessions.toNat / opt.hudpOptions.workerNum.toNat) := by
    intro c hc
    have hbound : boot.sessPoolSize.toNat ≤ 2 ^ 63 := by
      rw [hsize]
      exact (calcSessionPoolSize_lt opt).le.trans (by norm_num)
    obtain ⟨m, hinit, horder, -⟩ :=
      SessionManager.init_eq (UInt64.ofNat c) (boot.rand c) (boot.memory c) hbound
    cases (hstarted c (Finset.mem_range.mp hc)).symm.trans hinit
    rw [horder, hsize, calcSessionPoolSize_toNat hmax, roundedShare]
  rw [Finset.sum_congr rfl horder, Finset.sum_const, Finset.card_range, smul_eq_mul]

/-- The pools of all workers together have room for `max_rpc_sessions` sessions unless a worker's
share is one, two, four or eight sessions and the division leaves a remainder. -/
theorem capacity_provided_iff (opt : Options) (hW : 1 ≤ opt.hudpOptions.workerNum.toNat)
    (hle : opt.hudpOptions.workerNum.toNat ≤ opt.maxRpcSessions.toNat)
    (hmax : opt.maxRpcSessions.toNat ≤ 2 ^ 48)
    (hworkers : env.workerNum = opt.hudpOptions.workerNum.toNat)
    (hsize : boot.sessPoolSize = calcSessionPoolSize opt)
    (hstarted : Process.Started env boot mgr) :
    opt.maxRpcSessions.toNat ≤
        ∑ c ∈ Finset.range env.workerNum, 2 ^ (mgr c).poolSizeOrder ↔
      opt.maxRpcSessions.toNat % opt.hudpOptions.workerNum.toNat = 0 ∨
        opt.maxRpcSessions.toNat / opt.hudpOptions.workerNum.toNat ∉ [1, 2, 4, 8] := by
  rw [sum_poolSize opt hmax hsize hstarted, hworkers]
  have hsplit := Nat.div_add_mod opt.maxRpcSessions.toNat opt.hudpOptions.workerNum.toNat
  have hiff := shares_suffice_iff
    (Nat.mod_lt opt.maxRpcSessions.toNat (show 0 < opt.hudpOptions.workerNum.toNat by omega))
    (Nat.div_pos hle hW) (hsplit.le.trans hmax)
  rwa [hsplit] at hiff

/-- What a process with these options starts from. -/
def bootWith (opt : Options) : Process.Boot ValueMessage :=
  { Process.sampleBoot with sessPoolSize := calcSessionPoolSize opt }

/-- Two workers and seven sessions: two pools of four slots. -/
theorem capacity_provided_seven : ∃ mgr,
    Process.Started (wireEnv 2) (bootWith ⟨⟨2⟩, 7, 2500⟩) mgr ∧
      7 ≤ ∑ c ∈ Finset.range 2, 2 ^ (mgr c).poolSizeOrder := by
  obtain ⟨mgr, hstarted⟩ := exists_started (wireEnv 2) (bootWith ⟨⟨2⟩, 7, 2500⟩) (by decide)
  exact ⟨mgr, hstarted, (capacity_provided_iff ⟨⟨2⟩, 7, 2500⟩ (by decide) (by decide) (by decide)
    rfl rfl hstarted).mpr (by decide)⟩

/-- Two workers and three sessions: two pools of one slot. -/
theorem capacity_missed : ∃ mgr, Process.Started (wireEnv 2) (bootWith ⟨⟨2⟩, 3, 2500⟩) mgr ∧
    ∑ c ∈ Finset.range 2, 2 ^ (mgr c).poolSizeOrder = 2 := by
  obtain ⟨mgr, hstarted⟩ := exists_started (wireEnv 2) (bootWith ⟨⟨2⟩, 3, 2500⟩) (by decide)
  have hroom := sum_poolSize ⟨⟨2⟩, 3, 2500⟩ (by decide) rfl hstarted
  exact ⟨mgr, hstarted, hroom.trans (by decide)⟩

end HyperRpc
