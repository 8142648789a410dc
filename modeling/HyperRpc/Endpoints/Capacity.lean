import HyperRpc.Model.EndpointList
import Mathlib.Data.Nat.Log

/-!
# The capacity of the part in the heap

The capacity of a buffer is not stored. `PushBack` infers from the number of endpoints alone
that the buffer is full, and the copy constructor rounds that number up by itself. Both agree
on one function: the least power of two, from the initial four on, that is not below the number.
-/
namespace HyperRpc

open Lib

/-- The capacity of a buffer that holds `n` endpoints, for a positive `n`. -/
def heapCapacity (n : ℕ) : ℕ := 2 ^ max 2 (Nat.clog 2 n)

theorem le_heapCapacity (n : ℕ) : n ≤ heapCapacity n :=
  (Nat.le_pow_clog Nat.one_lt_two n).trans (Nat.pow_le_pow_right Nat.two_pos (le_max_right 2 _))

theorem heapCapacity_le {n k : ℕ} (hk : 2 ≤ k) (hn : n ≤ 2 ^ k) : heapCapacity n ≤ 2 ^ k :=
  Nat.pow_le_pow_right Nat.two_pos (max_le hk (Nat.clog_le_of_le_pow hn))

theorem heapCapacity_mono {m n : ℕ} (hmn : m ≤ n) : heapCapacity m ≤ heapCapacity n :=
  Nat.pow_le_pow_right Nat.two_pos (max_le_max_left 2 (Nat.clog_mono_right 2 hmn))

theorem heapCapacity_one : heapCapacity 1 = 4 := by
  rw [heapCapacity, Nat.clog_one_right]
  rfl

/-- A buffer that is full is followed by one of twice its size. -/
theorem heapCapacity_succ_of_eq {n : ℕ} (hfull : heapCapacity n = n) :
    heapCapacity (n + 1) = 2 * n := by
  obtain ⟨k, hk, hn⟩ : ∃ k, 2 ≤ k ∧ n = 2 ^ k := ⟨_, le_max_left 2 _, hfull.symm⟩
  have hdouble : 2 ^ (k + 1) = 2 * n := by rw [Nat.pow_succ', hn]
  have hpos : 0 < n := hn ▸ Nat.two_pow_pos k
  have hclog : k < Nat.clog 2 (n + 1) := by
    rw [Nat.lt_clog_iff_pow_lt Nat.one_lt_two]
    omega
  apply le_antisymm
  · rw [← hdouble]
    exact heapCapacity_le (by omega) (by omega)
  · rw [← hdouble]
    exact Nat.pow_le_pow_right Nat.two_pos (le_max_of_le_right hclog)

theorem heapCapacity_succ_of_ne {n : ℕ} (hfull : heapCapacity n ≠ n) :
    heapCapacity (n + 1) = heapCapacity n :=
  le_antisymm
    (heapCapacity_le (le_max_left 2 _) (lt_of_le_of_ne (le_heapCapacity n) hfull.symm))
    (heapCapacity_mono n.le_succ)

theorem heapCapacity_eq_self_iff (n : ℕ) :
    heapCapacity n = n ↔ 4 ≤ n ∧ n &&& (n - 1) = 0 := by
  constructor
  · intro hfull
    obtain ⟨k, hk, hn⟩ : ∃ k, 2 ≤ k ∧ n = 2 ^ k := ⟨_, le_max_left 2 _, hfull.symm⟩
    have hfour : 2 ^ 2 ≤ n := hn ▸ Nat.pow_le_pow_right Nat.two_pos hk
    exact ⟨hfour, (Nat.and_sub_one_eq_zero_iff_isPowerOfTwo (by omega)).mpr ⟨k, hn⟩⟩
  · rintro ⟨hfour, hand⟩
    obtain ⟨k, hn⟩ := (Nat.and_sub_one_eq_zero_iff_isPowerOfTwo (by omega)).mp hand
    have hk : 2 ≤ k := (Nat.pow_le_pow_iff_right Nat.one_lt_two).mp (hn ▸ hfour)
    rw [heapCapacity, hn, Nat.clog_pow 2 k Nat.one_lt_two, max_eq_right hk]

/-- The test of `PushBack` for a full buffer. -/
theorem isFull_iff {n : UInt64} (hn : n ≠ 0) :
    n ≥ kListInHeapInitSize ∧ n &&& (n - 1) = 0 ↔ heapCapacity n.toNat = n.toNat := by
  have hpos : 0 < n.toNat := Nat.pos_of_ne_zero fun hzero => hn (UInt64.toNat_inj.mp hzero)
  have hle : (1 : UInt64) ≤ n := UInt64.le_iff_toNat_le.mpr hpos
  rw [heapCapacity_eq_self_iff, ← UInt64.toNat_inj, UInt64.toNat_and,
    UInt64.toNat_sub_of_le _ _ hle, ge_iff_le, UInt64.le_iff_toNat_le]
  rfl

theorem toNat_shiftLeft_one {n : UInt64} (hn : n.toNat < 2 ^ 63) :
    (n <<< 1).toNat = 2 * n.toNat := by
  have hshift : n.toNat * 2 ^ (1 % 64) = 2 * n.toNat := Nat.mul_comm _ _
  rw [UInt64.toNat_shiftLeft, UInt64.toNat_one, Nat.shiftLeft_eq, hshift]
  omega

/-- The rounding loop, from a power of two on that is not yet too large. -/
theorem roundUp_eq_of_pow {n : UInt64} (hn : n.toNat ≤ 2 ^ 59) {fuel k : ℕ} {capacity : UInt64}
    (hcap : capacity.toNat = 2 ^ k) (hk : 2 ≤ k) (hle : 2 ^ k ≤ heapCapacity n.toNat)
    (hfuel : 64 ≤ fuel + k) :
    ∃ c, EndpointList.roundUp n fuel capacity = .ok c ∧ c.toNat = heapCapacity n.toNat := by
  have hk59 : k ≤ 59 := (Nat.pow_le_pow_iff_right Nat.one_lt_two).mp
    (hle.trans (heapCapacity_le (by decide) hn))
  induction fuel generalizing k capacity with
  | zero => omega
  | succ fuel ih =>
    rw [EndpointList.roundUp]
    split_ifs with hlt
    · have hlt' : 2 ^ k < n.toNat := hcap ▸ UInt64.lt_iff_toNat_lt.mp hlt
      have hdouble : 2 ^ (k + 1) ≤ heapCapacity n.toNat :=
        Nat.pow_le_pow_right Nat.two_pos
          (le_max_of_le_right ((Nat.lt_clog_iff_pow_lt Nat.one_lt_two).mpr hlt'))
      have hk59' : k + 1 ≤ 59 := (Nat.pow_le_pow_iff_right Nat.one_lt_two).mp
        (hdouble.trans (heapCapacity_le (by decide) hn))
      have hfit : 2 ^ k ≤ 2 ^ 59 := Nat.pow_le_pow_right Nat.two_pos hk59
      refine ih ?_ (by omega) hdouble (by omega) hk59'
      rw [toNat_shiftLeft_one (by omega), hcap, Nat.pow_succ']
    · have hge : n.toNat ≤ 2 ^ k := hcap ▸ Nat.le_of_not_lt (UInt64.lt_iff_toNat_lt.not.mp hlt)
      exact ⟨capacity, rfl, hcap.trans (le_antisymm hle (heapCapacity_le hk hge))⟩

/-- The rounding loop ends with the capacity that `PushBack` infers. -/
theorem roundUp_eq {n : UInt64} (hn : n.toNat ≤ 2 ^ 59) :
    ∃ capacity, EndpointList.roundUp n 64 kListInHeapInitSize = .ok capacity ∧
      capacity.toNat = heapCapacity n.toNat :=
  roundUp_eq_of_pow hn rfl le_rfl (Nat.pow_le_pow_right Nat.two_pos (le_max_left 2 _)) (by decide)

end HyperRpc
