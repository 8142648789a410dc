import Mathlib.Data.Nat.Bitwise
import Mathlib.Data.Nat.ModEq
import Mathlib.Tactic

/-!
# Counters that wrap in their low bits

A ring counter of width `b` keeps the part of its value above bit `b` and counts modulo
`2 ^ b` below it. Two facts carry its users: a value does not come back before `2 ^ b`
steps, and a mask of `k ≤ b` low bits sees every residue once in any `2 ^ k` consecutive
steps. The last section reads the same counter off 64-bit machine words.
-/
namespace HyperRpc.Lib

/-- One step of a ring counter of width `b`. -/
def ringNext (b v : ℕ) : ℕ := v / 2 ^ b * 2 ^ b + (v + 1) % 2 ^ b

/-- The value after `n` steps from `start`. -/
def ringAt (b start n : ℕ) : ℕ := start / 2 ^ b * 2 ^ b + (start + n) % 2 ^ b

variable {b k : ℕ}

@[simp] theorem ringAt_zero (b start : ℕ) : ringAt b start 0 = start := by
  simp only [ringAt, Nat.add_zero]
  exact Nat.div_add_mod' start (2 ^ b)

@[simp] theorem ringAt_div (b start n : ℕ) : ringAt b start n / 2 ^ b = start / 2 ^ b := by
  have hlt : (start + n) % 2 ^ b < 2 ^ b := Nat.mod_lt _ (by positivity)
  rw [ringAt, Nat.mul_comm, Nat.mul_add_div (by positivity), Nat.div_eq_of_lt hlt, Nat.add_zero]

@[simp] theorem ringAt_mod (b start n : ℕ) : ringAt b start n % 2 ^ b = (start + n) % 2 ^ b := by
  rw [ringAt, Nat.mul_comm, Nat.mul_add_mod, Nat.mod_mod]

theorem ringNext_ringAt (b start n : ℕ) :
    ringNext b (ringAt b start n) = ringAt b start (n + 1) := by
  have hmod : (ringAt b start n + 1) % 2 ^ b = (start + (n + 1)) % 2 ^ b := by
    rw [Nat.add_mod, ringAt_mod, ← Nat.add_mod, Nat.add_assoc]
  rw [ringNext, ringAt_div, hmod, ringAt]

theorem ringAt_ringAt (b start n k : ℕ) :
    ringAt b (ringAt b start n) k = ringAt b start (n + k) := by
  induction k with
  | zero => simp
  | succ k ih => rw [← ringNext_ringAt, ih, ringNext_ringAt, Nat.add_assoc]

/-- The low `k` bits advance with every step, also where the counter wraps. -/
theorem ringAt_mod_low (hk : k ≤ b) (start n : ℕ) :
    ringAt b start n % 2 ^ k = (start + n) % 2 ^ k := by
  have hdvd : 2 ^ k ∣ 2 ^ b := Nat.pow_dvd_pow 2 hk
  rw [← Nat.mod_mod_of_dvd _ hdvd, ringAt_mod, Nat.mod_mod_of_dvd _ hdvd]

theorem ringAt_eq_iff {start m n : ℕ} :
    ringAt b start m = ringAt b start n ↔ m ≡ n [MOD 2 ^ b] := by
  constructor
  · intro h
    have hmod := congrArg (· % 2 ^ b) h
    simp only [ringAt_mod] at hmod
    exact Nat.ModEq.add_left_cancel' start hmod
  · intro h
    have hmod : (start + m) % 2 ^ b = (start + n) % 2 ^ b := Nat.ModEq.add_left start h
    rw [ringAt, ringAt, hmod]

/-- A value does not come back before `2 ^ b` steps. -/
theorem ringAt_ne {start m n : ℕ} (hlt : m < n) (hwin : n - m < 2 ^ b) :
    ringAt b start n ≠ ringAt b start m := by
  intro h
  have hdvd := (Nat.modEq_iff_dvd' hlt.le).mp (ringAt_eq_iff.mp h).symm
  have hle := Nat.le_of_dvd (by omega) hdvd
  omega

/-- A counter whose high part is not zero never shows the value zero. -/
theorem ringAt_ne_zero {start n : ℕ} (h : start / 2 ^ b ≠ 0) : ringAt b start n ≠ 0 := by
  intro h0
  have hdiv := ringAt_div b start n
  rw [h0, Nat.zero_div] at hdiv
  exact h hdiv.symm

/-- Any `2 ^ k` consecutive values show every residue of `k` low bits once. -/
theorem existsUnique_ringAt_mod (hk : k ≤ b) (start : ℕ) {i : ℕ} (hi : i < 2 ^ k) :
    ∃! j, j < 2 ^ k ∧ ringAt b start (j + 1) % 2 ^ k = i := by
  have hpos : 0 < 2 ^ k := Nat.two_pow_pos k
  have hlow : ∀ j, ringAt b start (j + 1) % 2 ^ k = (start + 1 + j) % 2 ^ k := by
    intro j
    rw [ringAt_mod_low hk]
    congr 1
    omega
  have hlt : (start + 1) % 2 ^ k < 2 ^ k := Nat.mod_lt _ hpos
  have hround : (start + 1 + (i + (2 ^ k - (start + 1) % 2 ^ k))) % 2 ^ k = i := by
    have hsum : (start + 1) % 2 ^ k + (i + (2 ^ k - (start + 1) % 2 ^ k)) = i + 2 ^ k := by omega
    rw [← Nat.mod_add_mod, hsum, Nat.add_mod_right, Nat.mod_eq_of_lt hi]
  refine ⟨(i + (2 ^ k - (start + 1) % 2 ^ k)) % 2 ^ k, ⟨Nat.mod_lt _ hpos, ?_⟩, ?_⟩
  · rw [hlow, Nat.add_mod_mod, hround]
  · rintro j ⟨hj, hji⟩
    rw [hlow] at hji
    have hmod : j ≡ i + (2 ^ k - (start + 1) % 2 ^ k) [MOD 2 ^ k] :=
      Nat.ModEq.add_left_cancel' (start + 1) (hji.trans hround.symm)
    rw [Nat.ModEq, Nat.mod_eq_of_lt hj] at hmod
    exact hmod

theorem ringAt_lt {start n w : ℕ} (hb : b ≤ w) (h : start < 2 ^ w) : ringAt b start n < 2 ^ w := by
  have hsplit : 2 ^ w = 2 ^ (w - b) * 2 ^ b := by rw [← pow_add, Nat.sub_add_cancel hb]
  have hdiv : ringAt b start n / 2 ^ b < 2 ^ (w - b) := by
    rw [ringAt_div]
    exact Nat.div_lt_of_lt_mul (by rw [Nat.mul_comm, ← hsplit]; exact h)
  rw [hsplit]
  exact (Nat.div_lt_iff_lt_mul (by positivity)).mp hdiv

/-! ## The same counter on 64-bit words -/

theorem one_shiftLeft_toNat (hk : k < 64) : ((1 : UInt64) <<< UInt64.ofNat k).toNat = 2 ^ k := by
  have hk' : (UInt64.ofNat k).toNat % 64 = k := by
    rw [UInt64.toNat_ofNat', Nat.mod_eq_of_lt (hk.trans (by norm_num)), Nat.mod_eq_of_lt hk]
  have hpow : 2 ^ k < 2 ^ 64 := Nat.pow_lt_pow_right (by norm_num) hk
  rw [UInt64.toNat_shiftLeft, hk', UInt64.toNat_one, Nat.one_shiftLeft, Nat.mod_eq_of_lt hpow]

/-- The mask of the `k` low bits. -/
def lowMask (k : ℕ) : UInt64 := (1 <<< UInt64.ofNat k) - 1

theorem lowMask_toNat (hk : k < 64) : (lowMask k).toNat = 2 ^ k - 1 := by
  have hle : (1 : UInt64) ≤ 1 <<< UInt64.ofNat k := by
    rw [UInt64.le_iff_toNat_le, one_shiftLeft_toNat hk, UInt64.toNat_one]
    exact Nat.one_le_two_pow
  rw [lowMask, UInt64.toNat_sub_of_le _ _ hle, one_shiftLeft_toNat hk, UInt64.toNat_one]

theorem and_lowMask_toNat (hk : k < 64) (x : UInt64) :
    (x &&& lowMask k).toNat = x.toNat % 2 ^ k := by
  rw [UInt64.toNat_and, lowMask_toNat hk, Nat.and_two_pow_sub_one_eq_mod]

theorem and_not_lowMask_toNat (hk : k < 64) (x : UInt64) :
    (x &&& ~~~lowMask k).toNat = x.toNat / 2 ^ k * 2 ^ k := by
  rw [← Nat.shiftRight_eq_div_pow, ← Nat.shiftLeft_eq]
  apply Nat.eq_of_testBit_eq
  intro i
  have hmask : (lowMask k).toBitVec.getLsbD i = decide (i < k) := by
    rw [← BitVec.testBit_toNat, UInt64.toNat_toBitVec, lowMask_toNat hk,
      Nat.testBit_two_pow_sub_one]
  have hx : x.toBitVec.getLsbD i = x.toNat.testBit i := by
    rw [← BitVec.testBit_toNat, UInt64.toNat_toBitVec]
  have hlhs : (x &&& ~~~lowMask k).toNat.testBit i =
      (x.toNat.testBit i && (decide (i < 64) && !decide (i < k))) := by
    rw [← UInt64.toNat_toBitVec, BitVec.testBit_toNat, UInt64.toBitVec_and, UInt64.toBitVec_not,
      BitVec.getLsbD_and, BitVec.getLsbD_not, hmask, hx]
  rw [hlhs, Nat.testBit_shiftLeft, Nat.testBit_shiftRight]
  by_cases hi : k ≤ i
  · have hsum : k + (i - k) = i := by omega
    by_cases h64 : i < 64
    · simp [hi, h64, hsum, Nat.not_lt.mpr hi]
    · have hzero : x.toNat.testBit i = false := by
        rw [← hx]
        exact BitVec.getLsbD_of_ge _ _ (by omega)
      simp [hi, h64, hsum, hzero]
  · simp [hi, Nat.lt_of_not_le hi]

/-- Masking and adding on words is one step of the ring counter. -/
theorem wordNext_toNat (hb : b < 64) (x : UInt64) :
    ((x &&& ~~~lowMask b) + ((x + 1) &&& lowMask b)).toNat = ringNext b x.toNat := by
  have hdvd : 2 ^ b ∣ 2 ^ 64 := Nat.pow_dvd_pow 2 hb.le
  have hlow : (x + 1).toNat % 2 ^ b = (x.toNat + 1) % 2 ^ b := by
    rw [UInt64.toNat_add, UInt64.toNat_one, Nat.mod_mod_of_dvd _ hdvd]
  have hlt : ringNext b x.toNat < 2 ^ 64 := by
    have h : ringAt b x.toNat 1 < 2 ^ 64 := ringAt_lt hb.le x.toNat_lt
    rwa [← Nat.zero_add 1, ← ringNext_ringAt, ringAt_zero] at h
  rw [UInt64.toNat_add, and_not_lowMask_toNat hb, and_lowMask_toNat hb, hlow]
  exact Nat.mod_eq_of_lt hlt

end HyperRpc.Lib
