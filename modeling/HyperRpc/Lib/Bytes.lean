import Mathlib.Data.List.TakeDrop
import Mathlib.Tactic

/-!
# Byte strings read with bounds

`slice` is a read of a given length at a given offset; it answers `none` where it would leave
the buffer, so that a program built from it is seen to stay inside. `beBytes` and `beNat` are
unsigned numbers of a given width in network byte order.
-/
namespace HyperRpc.Lib

/-- `len` bytes from offset `off`; `none` when they are not all inside. -/
def slice (buf : List UInt8) (off len : ℕ) : Option (List UInt8) :=
  if off + len ≤ buf.length then some ((buf.drop off).take len) else none

theorem slice_of_le {buf : List UInt8} {off len : ℕ} (h : off + len ≤ buf.length) :
    slice buf off len = some ((buf.drop off).take len) :=
  if_pos h

/-- The number `n` modulo `256 ^ w` as `w` bytes, the most significant one first. -/
def beBytes : ℕ → ℕ → List UInt8
  | 0, _ => []
  | w + 1, n => beBytes w (n / 256) ++ [UInt8.ofNat n]

/-- The number a byte string stands for. -/
def beNat (bs : List UInt8) : ℕ := bs.foldl (fun n b => n * 256 + b.toNat) 0

@[simp] theorem beBytes_length (w n : ℕ) : (beBytes w n).length = w := by
  induction w generalizing n with
  | zero => rfl
  | succ w ih => rw [beBytes, List.length_append, ih, List.length_singleton]

theorem beNat_append_singleton (bs : List UInt8) (b : UInt8) :
    beNat (bs ++ [b]) = beNat bs * 256 + b.toNat := by
  simp [beNat, List.foldl_append]

theorem beNat_beBytes (w n : ℕ) : beNat (beBytes w n) = n % 256 ^ w := by
  induction w generalizing n with
  | zero => simp [beBytes, beNat, Nat.mod_one]
  | succ w ih =>
    have hsplit : n % 256 ^ (w + 1) = n % 256 + 256 * (n / 256 % 256 ^ w) := by
      rw [Nat.pow_succ, Nat.mul_comm, Nat.mod_mul]
    rw [beBytes, beNat_append_singleton, ih, UInt8.toNat_ofNat', hsplit]
    omega

theorem beNat_beBytes_of_lt {w n : ℕ} (h : n < 256 ^ w) : beNat (beBytes w n) = n := by
  rw [beNat_beBytes, Nat.mod_eq_of_lt h]

theorem beNat_lt (bs : List UInt8) : beNat bs < 256 ^ bs.length := by
  induction bs using List.reverseRecOn with
  | nil => simp [beNat]
  | append_singleton bs b ih =>
    have hb := b.toNat_lt
    rw [beNat_append_singleton, List.length_append, List.length_singleton, pow_succ]
    omega

theorem beNat_lt_of_length {bs : List UInt8} {w : ℕ} (h : bs.length = w) : beNat bs < 256 ^ w :=
  h ▸ beNat_lt bs

theorem beBytes_beNat (bs : List UInt8) : beBytes bs.length (beNat bs) = bs := by
  induction bs using List.reverseRecOn with
  | nil => rfl
  | append_singleton bs b ih =>
    have hb := b.toNat_lt
    have hdiv : (beNat bs * 256 + b.toNat) / 256 = beNat bs := by omega
    have hlow : UInt8.ofNat (beNat bs * 256 + b.toNat) = b := by
      apply UInt8.toNat_inj.mp
      rw [UInt8.toNat_ofNat']
      omega
    rw [beNat_append_singleton, List.length_append, List.length_singleton, beBytes, hdiv, ih, hlow]

/-- Only the number modulo `256 ^ w` counts. -/
theorem beBytes_mod (w n : ℕ) : beBytes w (n % 256 ^ w) = beBytes w n :=
  calc beBytes w (n % 256 ^ w)
      = beBytes (beBytes w n).length (beNat (beBytes w n)) := by rw [beBytes_length, beNat_beBytes]
    _ = beBytes w n := beBytes_beNat _

end HyperRpc.Lib
