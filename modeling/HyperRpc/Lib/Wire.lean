import Mathlib.Data.List.Basic
import Mathlib.Tactic

/-!
# The protobuf wire format

Base-128 varints and the sequence of tagged fields every protobuf message is written as.
`readFields_encode` reads a written sequence back. Reading recurses on a bound on the number
of bytes, so that it evaluates; groups are rejected.
-/
namespace HyperRpc.Lib

/-! ## Varints -/

/-- The varint of `n` in at most `k + 1` bytes. -/
def varint : ℕ → ℕ → List UInt8
  | 0, n => [UInt8.ofNat n]
  | k + 1, n =>
    if n < 128 then [UInt8.ofNat n] else UInt8.ofNat (n % 128 + 128) :: varint k (n / 128)

/-- Reads a varint of at most `k` bytes. -/
def readVarint : ℕ → List UInt8 → Option (ℕ × List UInt8)
  | 0, _ => none
  | _ + 1, [] => none
  | k + 1, b :: bs =>
    if b.toNat < 128 then some (b.toNat, bs)
    else (readVarint k bs).map fun r => (b.toNat - 128 + 128 * r.1, r.2)

theorem readVarint_varint {k n : ℕ} (h : n < 128 ^ (k + 1)) (rest : List UInt8) :
    readVarint (k + 1) (varint k n ++ rest) = some (n, rest) := by
  have hbyte : ∀ v < 256, (UInt8.ofNat v).toNat = v := fun v hv => by
    rw [UInt8.toNat_ofNat', Nat.mod_eq_of_lt hv]
  induction k generalizing n with
  | zero =>
    have hlt : n < 128 := by simpa using h
    simp [varint, readVarint, hbyte n (by omega), hlt]
  | succ k ih =>
    by_cases hlt : n < 128
    · simp [varint, readVarint, hbyte n (by omega), hlt]
    · have hdiv : n / 128 < 128 ^ (k + 1) := by
        rw [Nat.div_lt_iff_lt_mul (by norm_num), ← pow_succ]
        exact h
      rw [varint, if_neg hlt, List.cons_append, readVarint, hbyte _ (by omega),
        if_neg (by omega), ih hdiv]
      simp only [Option.map_some, Option.some.injEq, Prod.mk.injEq, and_true]
      omega

theorem varint_ne_nil (k n : ℕ) : varint k n ≠ [] := by
  cases k with
  | zero => simp [varint]
  | succ k =>
    rw [varint]
    split_ifs <;> simp

/-! ## Fields -/

/-- The content of a field. -/
inductive WireValue
  | varint (n : ℕ)
  | fixed64 (bytes : List UInt8)
  | bytes (bytes : List UInt8)
  | fixed32 (bytes : List UInt8)
  deriving DecidableEq

/-- Reads `len` bytes off the front. -/
def readBytes (len : ℕ) (bs : List UInt8) : Option (List UInt8 × List UInt8) :=
  if len ≤ bs.length then some (bs.take len, bs.drop len) else none

theorem readBytes_append (xs rest : List UInt8) :
    readBytes xs.length (xs ++ rest) = some (xs, rest) := by
  rw [readBytes, if_pos (by rw [List.length_append]; omega), List.take_left, List.drop_left]

/-- Reads one field with its number. -/
def readField (bs : List UInt8) : Option ((ℕ × WireValue) × List UInt8) :=
  (readVarint 10 bs).bind fun tag =>
    if tag.1 / 8 = 0 then none
    else if tag.1 % 8 = 0 then
      (readVarint 10 tag.2).map fun r => ((tag.1 / 8, .varint r.1), r.2)
    else if tag.1 % 8 = 1 then
      (readBytes 8 tag.2).map fun r => ((tag.1 / 8, .fixed64 r.1), r.2)
    else if tag.1 % 8 = 2 then
      (readVarint 10 tag.2).bind fun len =>
        (readBytes len.1 len.2).map fun r => ((tag.1 / 8, .bytes r.1), r.2)
    else if tag.1 % 8 = 5 then
      (readBytes 4 tag.2).map fun r => ((tag.1 / 8, .fixed32 r.1), r.2)
    else none

/-- Reads fields until nothing is left, at most `k` of them. -/
def readFields : ℕ → List UInt8 → Option (List (ℕ × WireValue))
  | _, [] => some []
  | 0, _ :: _ => none
  | k + 1, b :: bs =>
    (readField (b :: bs)).bind fun r => (readFields k r.2).map fun fields => r.1 :: fields

/-- A field as it is written. -/
def encodeField : ℕ × WireValue → List UInt8
  | (num, .varint n) => varint 9 (num * 8) ++ varint 9 n
  | (num, .fixed64 bs) => varint 9 (num * 8 + 1) ++ bs
  | (num, .bytes bs) => varint 9 (num * 8 + 2) ++ (varint 9 bs.length ++ bs)
  | (num, .fixed32 bs) => varint 9 (num * 8 + 5) ++ bs

/-- The values fit their encodings. -/
def FieldFits : ℕ × WireValue → Prop
  | (num, .varint n) => num ≠ 0 ∧ num < 2 ^ 29 ∧ n < 2 ^ 64
  | (num, .fixed64 bs) => num ≠ 0 ∧ num < 2 ^ 29 ∧ bs.length = 8
  | (num, .bytes bs) => num ≠ 0 ∧ num < 2 ^ 29 ∧ bs.length < 2 ^ 64
  | (num, .fixed32 bs) => num ≠ 0 ∧ num < 2 ^ 29 ∧ bs.length = 4

theorem readField_encode {f : ℕ × WireValue} (h : FieldFits f) (rest : List UInt8) :
    readField (encodeField f ++ rest) = some (f, rest) := by
  have htag : ∀ num < 2 ^ 29, ∀ t < 8, ∀ rest,
      readVarint 10 (varint 9 (num * 8 + t) ++ rest) = some (num * 8 + t, rest) :=
    fun num hnum t ht rest => readVarint_varint (by omega) rest
  obtain ⟨num, v⟩ := f
  cases v with
  | varint n =>
    obtain ⟨hne, hnum, hn⟩ := h
    have hread : readVarint 10 (varint 9 n ++ rest) = some (n, rest) :=
      readVarint_varint (by omega) rest
    have ht := htag num hnum 0 (by norm_num) (varint 9 n ++ rest)
    simp only [Nat.add_zero] at ht
    have hdiv : num * 8 / 8 = num := by omega
    simp [readField, encodeField, ht, hread, hne]
  | fixed64 bs =>
    obtain ⟨hne, hnum, hlen⟩ := h
    have hdiv : (num * 8 + 1) / 8 = num := by omega
    have hmod : (num * 8 + 1) % 8 = 1 := by omega
    have hread : readBytes 8 (bs ++ rest) = some (bs, rest) := hlen ▸ readBytes_append bs rest
    simp [readField, encodeField, htag num hnum 1 (by norm_num), hdiv, hmod, hread]
    omega
  | bytes bs =>
    obtain ⟨hne, hnum, hlen⟩ := h
    have hdiv : (num * 8 + 2) / 8 = num := by omega
    have hmod : (num * 8 + 2) % 8 = 2 := by omega
    have hread : readVarint 10 (varint 9 bs.length ++ (bs ++ rest)) =
        some (bs.length, bs ++ rest) := readVarint_varint (by omega) _
    simp [readField, encodeField, htag num hnum 2 (by norm_num), hdiv, hmod, hread,
      readBytes_append]
    omega
  | fixed32 bs =>
    obtain ⟨hne, hnum, hlen⟩ := h
    have hdiv : (num * 8 + 5) / 8 = num := by omega
    have hmod : (num * 8 + 5) % 8 = 5 := by omega
    have hread : readBytes 4 (bs ++ rest) = some (bs, rest) := hlen ▸ readBytes_append bs rest
    simp [readField, encodeField, htag num hnum 5 (by norm_num), hdiv, hmod, hread]
    omega

theorem encodeField_ne_nil (f : ℕ × WireValue) : encodeField f ≠ [] := by
  obtain ⟨num, v⟩ := f
  cases v <;> simp [encodeField, varint_ne_nil]

theorem length_le_encode (fields : List (ℕ × WireValue)) :
    fields.length ≤ (fields.flatMap encodeField).length := by
  induction fields with
  | nil => simp
  | cons f fields ih =>
    have hpos := List.length_pos_of_ne_nil (encodeField_ne_nil f)
    rw [List.flatMap_cons, List.length_append, List.length_cons]
    omega

/-- What is written of a byte string is no longer than the message. -/
theorem bytes_length_le_encode {fields : List (ℕ × WireValue)} {num : ℕ} {bs : List UInt8}
    (h : (num, .bytes bs) ∈ fields) : bs.length ≤ (fields.flatMap encodeField).length := by
  obtain ⟨pre, post, rfl⟩ := List.append_of_mem h
  simp only [List.flatMap_append, List.flatMap_cons, List.length_append, encodeField]
  omega

/-- Written fields are read back in their order. -/
theorem readFields_encode {fields : List (ℕ × WireValue)} (h : ∀ f ∈ fields, FieldFits f) {k : ℕ}
    (hk : fields.length ≤ k) : readFields k (fields.flatMap encodeField) = some fields := by
  induction fields generalizing k with
  | nil => cases k <;> rfl
  | cons f fields ih =>
    obtain ⟨k, rfl⟩ : ∃ n, k = n + 1 := ⟨k - 1, by simp at hk; omega⟩
    have hread := readField_encode (h f (by simp)) (fields.flatMap encodeField)
    have hrest := ih (fun g hg => h g (by simp [hg])) (k := k) (by simpa using hk)
    rw [List.flatMap_cons]
    cases hbs : encodeField f ++ fields.flatMap encodeField with
    | nil => exact absurd (List.append_eq_nil_iff.mp hbs).1 (encodeField_ne_nil f)
    | cons b bs =>
      rw [hbs] at hread
      rw [readFields, hread, Option.bind_some, hrest, Option.map_some]

end HyperRpc.Lib
