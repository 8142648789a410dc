import HyperRpc.Endpoints.Capacity

/-!
# One `EndpointList` and the list it stands for

`Represents` relates an object and the heap to a list: the first endpoints are in the cache, the
others are in a buffer of the capacity that the code infers. Every function keeps it and
exchanges the buffers of its own object only.
-/
namespace HyperRpc

open Lib

/-- The longest list there can be. Its buffer of `2 ^ 59` endpoints is the largest power of two
that `new Endpoint[n]` accepts. -/
def maxListSize : ℕ := kListCacheSize + 2 ^ 59

namespace EndpointList

/-- The buffers that belong to an object. -/
def buffers (this : EndpointList) : Set ℕ := {b | this.listInHeap = some b}

structure Represents (heap : Heap Addr) (this : EndpointList) (l : List Addr) : Prop where
  size : this.size.toNat = l.length
  cache : ∀ (i : Fin kListCacheSize) (hi : i < l.length), this.listCache i = some l[i.val]
  inline : l.length ≤ kListCacheSize → this.listInHeap = none
  spilled : kListCacheSize < l.length → ∃ b, this.listInHeap = some b ∧
    heap.Holds b (heapCapacity (l.length - kListCacheSize)) (l.drop kListCacheSize)
  fits : l.length ≤ maxListSize

theorem buffers_none {this : EndpointList} (h : this.listInHeap = none) : this.buffers = ∅ := by
  simp [buffers, h]

theorem buffers_some {this : EndpointList} {b : ℕ} (h : this.listInHeap = some b) :
    this.buffers = {b} := by
  ext b'
  simp [buffers, h, eq_comm]

variable {heap : Heap Addr} {this other : EndpointList} {l : List Addr}

namespace Represents

theorem live (hr : Represents heap this l) : ∀ b ∈ this.buffers, heap.Live b := by
  intro b hb
  rcases Nat.lt_or_ge kListCacheSize l.length with hlong | hshort
  · obtain ⟨b', hb', hholds⟩ := hr.spilled hlong
    cases hb'.symm.trans hb
    exact hholds.live
  · rw [buffers_none (hr.inline hshort)] at hb
    exact absurd hb (Set.notMem_empty b)

theorem congr (hr : Represents heap this l) {heap' : Heap Addr}
    (hsame : ∀ b ∈ this.buffers, heap'.block? b = heap.block? b) : Represents heap' this l where
  size := hr.size
  cache := hr.cache
  inline := hr.inline
  spilled hlong :=
    let ⟨b, hb, hholds⟩ := hr.spilled hlong
    ⟨b, hb, hholds.congr (hsame b hb)⟩
  fits := hr.fits

/-- The number of endpoints in the heap, as the code computes it. -/
theorem listInHeapSize (hr : Represents heap this l) (hlong : kListCacheSize ≤ l.length) :
    (this.size - .ofNat kListCacheSize).toNat = l.length - kListCacheSize := by
  rw [UInt64.toNat_sub_of_le, hr.size]
  · rfl
  · rw [UInt64.le_iff_toNat_le, hr.size]
    exact hlong

theorem size_succ (hr : Represents heap this l) : (this.size + 1).toNat = l.length + 1 := by
  have hfits := hr.fits
  have hmax : maxListSize + 1 < 2 ^ 64 := by decide
  rw [UInt64.toNat_add, hr.size, UInt64.toNat_one]
  omega

end Represents

theorem represents_nil (hsize : this.size = 0) (hlist : this.listInHeap = none) :
    Represents heap this [] where
  size := by rw [hsize]; rfl
  cache i hi := absurd hi (Nat.not_lt_zero i)
  inline _ := hlist
  spilled hlong := absurd hlong (Nat.not_lt_zero _)
  fits := Nat.zero_le _

theorem clear_spec (hr : Represents heap this l) :
    ∃ this' heap', this.clear heap = .ok (this', heap') ∧ Represents heap' this' [] ∧
      Heap.Exchange heap heap' this.buffers this'.buffers := by
  cases hlist : this.listInHeap with
  | none =>
    refine ⟨{ this with size := 0 }, heap, by rw [clear, hlist]; rfl, represents_nil rfl hlist, ?_⟩
    exact Heap.Exchange.refl hr.live
  | some list =>
    obtain ⟨heap', hdelete, hx⟩ := Heap.delete_spec (hr.live list hlist)
    refine ⟨{ this with listInHeap := none, size := 0 }, heap', ?_, represents_nil rfl rfl, ?_⟩
    · rw [clear, hlist]
      simp only [hdelete]
      rfl
    · have hnone : buffers { this with listInHeap := none, size := 0 } = ∅ := buffers_none rfl
      have hgone : this.buffers \ {list} = ∅ := by rw [buffers_some hlist, Set.sdiff_self]
      rw [hnone, ← hgone]
      exact hx _ hlist hr.live

theorem getEndpoint_spec (hr : Represents heap this l) {index : UInt64}
    (hi : index.toNat < l.length) : this.getEndpoint heap index = .ok l[index.toNat] := by
  rw [getEndpoint, if_pos (by rwa [UInt64.lt_iff_toNat_lt, hr.size])]
  split_ifs with hcache
  · exact congrArg deref (hr.cache ⟨index.toNat, hcache⟩ hi)
  · have hheap : kListCacheSize ≤ index.toNat := Nat.le_of_not_lt hcache
    obtain ⟨b, hb, hholds⟩ := hr.spilled (hheap.trans_lt hi)
    have hindex : (index - .ofNat kListCacheSize).toNat = index.toNat - kListCacheSize :=
      UInt64.toNat_sub_of_le _ _ (UInt64.le_iff_toNat_le.mpr hheap)
    have hlt : index.toNat - kListCacheSize < (l.drop kListCacheSize).length := by
      rw [List.length_drop]
      omega
    have hread := Heap.read_spec hholds hlt
    simp only [List.getElem_drop, Nat.add_sub_cancel' hheap] at hread
    simp only [hb, deref_some, ok_bind, hindex, hread]

/-- `PushBack` gets a buffer with room for one more endpoint. -/
theorem reserve_spec (hr : Represents heap this l) (hlong : kListCacheSize ≤ l.length)
    (hroom : l.length < maxListSize) :
    ∃ b heap', this.reserve heap (this.size - .ofNat kListCacheSize) = .ok (b, heap') ∧
      heap'.Holds b (heapCapacity (l.length - kListCacheSize + 1)) (l.drop kListCacheSize) ∧
      Heap.Exchange heap heap' this.buffers {b} := by
  have hn := hr.listInHeapSize hlong
  generalize this.size - .ofNat kListCacheSize = n at hn
  rw [← hn]
  have hbound : n.toNat < 2 ^ 59 := by
    rw [hn]
    unfold maxListSize at hroom
    omega
  unfold reserve
  by_cases hzero : n = 0
  · have hshort : l.length ≤ kListCacheSize := by
      rw [hzero, UInt64.toNat_zero] at hn
      omega
    have hfit : 4 ≤ maxEndpoints := by decide
    obtain ⟨b, heap', halloc, -, hholds, hx⟩ := Heap.alloc_spec (h := heap) hfit
    refine ⟨b, heap', by rw [if_pos hzero]; exact halloc, ?_, ?_⟩
    · rw [hzero, UInt64.toNat_zero, heapCapacity_one, List.drop_eq_nil_of_le hshort]
      exact hholds
    · rw [buffers_none (hr.inline hshort), ← insert_empty_eq]
      exact hx ∅ fun b hb => absurd hb (Set.notMem_empty b)
  have hspilled : kListCacheSize < l.length := by
    have hpos : n.toNat ≠ 0 := fun hnat => hzero (UInt64.toNat_inj.mp hnat)
    omega
  obtain ⟨old, hold, hholds⟩ := hr.spilled hspilled
  rw [← hn] at hholds
  rw [if_neg hzero, buffers_some hold, hold, deref_some, ok_bind, ok_bind]
  split_ifs with hfull <;> rw [isFull_iff hzero] at hfull
  · have hlen : (l.drop kListCacheSize).length = n.toNat := by rw [List.length_drop, hn]
    have hdouble : (n <<< 1).toNat = 2 * n.toNat := toNat_shiftLeft_one (by omega)
    have hfit : 2 * n.toNat ≤ maxEndpoints := by
      have hmax : 2 * 2 ^ 59 ≤ maxEndpoints + 1 := by decide
      omega
    obtain ⟨new, heap₁, heap₂, heap₃, halloc, hmemcpy, hdelete, hnew, hx⟩ :=
      Heap.replace_spec hholds (by omega) hfit
    rw [hlen] at hmemcpy
    refine ⟨new, heap₃, ?_, ?_, hx⟩
    · simp only [hdouble, halloc, ok_bind, hmemcpy, hdelete]
      rfl
    · rwa [heapCapacity_succ_of_eq hfull]
  · rw [heapCapacity_succ_of_ne hfull]
    exact ⟨old, heap, rfl, hholds, Heap.Exchange.refl (by rintro b rfl; exact hholds.live)⟩

/-- `PushBack` into the cache. -/
theorem pushBack_inline (hr : Represents heap this l) (hshort : l.length < kListCacheSize)
    (endpoint : Addr) :
    ∃ this', this.pushBack heap endpoint = .ok (this', heap) ∧
      Represents heap this' (l ++ [endpoint]) ∧ this'.listInHeap = this.listInHeap := by
  have hlen : (l ++ [endpoint]).length = l.length + 1 := List.length_append
  have hcache : this.size.toNat < kListCacheSize := hr.size.trans_lt hshort
  have hmax : kListCacheSize ≤ maxListSize := Nat.le_add_right _ _
  unfold pushBack
  rw [dif_pos hcache]
  refine ⟨_, rfl, ⟨hr.size_succ.trans hlen.symm, ?_, fun _ => hr.inline hshort.le, ?_, ?_⟩, rfl⟩
  · intro i hi
    rcases Nat.lt_or_ge i.val l.length with hlt | hge
    · have hne : i ≠ ⟨this.size.toNat, hcache⟩ :=
        Fin.ne_of_val_ne (hlt.ne.trans_eq hr.size.symm)
      rw [List.getElem_append_left hlt, ← hr.cache i hlt]
      exact Function.update_of_ne hne _ _
    · have hi' : i.val = l.length := by omega
      have heq : i = ⟨this.size.toNat, hcache⟩ := Fin.ext (hi'.trans hr.size.symm)
      simp [heq, hr.size]
  · intro hlong
    omega
  · omega

/-- `PushBack` into the heap. -/
theorem pushBack_spilled (hr : Represents heap this l) (hlong : kListCacheSize ≤ l.length)
    (hroom : l.length < maxListSize) (endpoint : Addr) :
    ∃ this' heap', this.pushBack heap endpoint = .ok (this', heap') ∧
      Represents heap' this' (l ++ [endpoint]) ∧
      Heap.Exchange heap heap' this.buffers this'.buffers := by
  have hlen : (l ++ [endpoint]).length = l.length + 1 := List.length_append
  have hcache : ¬ this.size.toNat < kListCacheSize := by
    rw [hr.size]
    exact Nat.not_lt_of_le hlong
  obtain ⟨b, heap₁, hreserve, hholds, hx₁⟩ := reserve_spec hr hlong hroom
  have hdrop : (l.drop kListCacheSize).length = l.length - kListCacheSize := List.length_drop
  have hlt : (l.drop kListCacheSize).length < heapCapacity (l.length - kListCacheSize + 1) := by
    rw [hdrop]
    exact le_heapCapacity _
  obtain ⟨heap₂, hwrite, hholds₂, hx₂⟩ := Heap.write_spec hholds hlt endpoint
  unfold pushBack
  rw [dif_neg hcache]
  refine ⟨{ this with listInHeap := some b, size := this.size + 1 }, heap₂, ?_,
    ⟨hr.size_succ.trans hlen.symm, ?_, ?_, ?_, ?_⟩, ?_⟩
  · simp only [hreserve, ok_bind, hr.listInHeapSize hlong, ← hdrop, hwrite]
    rfl
  · intro i hi
    have hi' : i.val < l.length := i.isLt.trans_le hlong
    rw [List.getElem_append_left hi']
    exact hr.cache i hi'
  · intro hle
    omega
  · intro _
    refine ⟨b, rfl, ?_⟩
    rw [List.drop_append_of_le_length hlong, hlen, Nat.sub_add_comm hlong]
    exact hholds₂
  · omega
  · have hown : buffers { this with listInHeap := some b, size := this.size + 1 } = {b} :=
      buffers_some rfl
    have hlive : ∀ b' ∈ ({b} : Set ℕ), heap₁.Live b' := by rintro b' rfl; exact hholds.live
    rw [hown]
    exact hx₁.trans (hx₂ {b} rfl hlive)

theorem pushBack_spec (hr : Represents heap this l) (hroom : l.length < maxListSize)
    (endpoint : Addr) :
    ∃ this' heap', this.pushBack heap endpoint = .ok (this', heap') ∧
      Represents heap' this' (l ++ [endpoint]) ∧
      Heap.Exchange heap heap' this.buffers this'.buffers := by
  rcases Nat.lt_or_ge l.length kListCacheSize with hshort | hlong
  · obtain ⟨this', hpush, hr', hsame⟩ := pushBack_inline hr hshort endpoint
    have hown : this'.buffers = this.buffers := by simp only [buffers, hsame]
    refine ⟨this', heap, hpush, hr', ?_⟩
    rw [hown]
    exact Heap.Exchange.refl hr.live
  · exact pushBack_spilled hr hlong hroom endpoint

/-- A list of the largest size cannot grow. -/
theorem pushBack_full (hr : Represents heap this l) (hfull : l.length = maxListSize)
    (endpoint : Addr) : this.pushBack heap endpoint = .error .outOfMemory := by
  have hlong : kListCacheSize < l.length := by rw [hfull]; decide
  have hn : (this.size - .ofNat kListCacheSize).toNat = 2 ^ 59 := by
    rw [hr.listInHeapSize hlong.le, hfull]
    exact Nat.add_sub_cancel_left _ _
  have hreserve : this.reserve heap (this.size - .ofNat kListCacheSize) =
      .error .outOfMemory := by
    obtain ⟨old, hold, -⟩ := hr.spilled hlong
    generalize this.size - .ofNat kListCacheSize = n at hn
    have hzero : n ≠ 0 := by
      rintro rfl
      exact absurd hn (by decide)
    have hcapacity : heapCapacity n.toNat = n.toNat :=
      le_antisymm (hn.symm ▸ heapCapacity_le (by decide) le_rfl) (le_heapCapacity _)
    have hdouble : (n <<< 1).toNat = 2 * 2 ^ 59 := by
      rw [toNat_shiftLeft_one (by rw [hn]; decide), hn]
    have halloc : heap.alloc maxEndpoints (2 * 2 ^ 59) = .error .outOfMemory := if_neg (by decide)
    rw [reserve, if_neg hzero, if_pos ((isFull_iff hzero).mpr hcapacity), hold]
    simp only [deref_some, ok_bind, hdouble, halloc]
    rfl
  have hcache : ¬ this.size.toNat < kListCacheSize := by
    rw [hr.size]
    exact Nat.not_lt_of_lt hlong
  rw [pushBack, dif_neg hcache]
  simp only [hreserve]
  rfl

theorem copyCache_eq (hr : Represents heap other l) (i : Fin kListCacheSize)
    (hi : i < l.length) : copyCache other i = some l[i.val] := by
  rw [copyCache, if_pos (by rwa [hr.size]), hr.cache i hi]

/-- What the move constructor makes of its argument, before it empties that. -/
theorem Represents.moved (hr : Represents heap other l) :
    Represents heap ⟨other.size, copyCache other, other.listInHeap⟩ l :=
  { hr with cache := copyCache_eq hr }

theorem copyFrom_spec (hr : Represents heap other l) :
    ∃ this heap', copyFrom heap other = .ok (this, heap') ∧ Represents heap' this l ∧
      Heap.Exchange heap heap' ∅ this.buffers := by
  unfold copyFrom
  by_cases hlong : kListCacheSize < l.length
  · have hn := hr.listInHeapSize hlong.le
    have hbound : l.length - kListCacheSize ≤ 2 ^ 59 := Nat.sub_le_of_le_add (by
      rw [Nat.add_comm]
      exact hr.fits)
    obtain ⟨src, hsrc, hholds⟩ := hr.spilled hlong
    obtain ⟨capacity, hround, hcapacity⟩ := roundUp_eq (hn.trans_le hbound)
    rw [hn] at hcapacity
    have hlen : (l.drop kListCacheSize).length = l.length - kListCacheSize := List.length_drop
    have hfit : heapCapacity (l.length - kListCacheSize) ≤ maxEndpoints :=
      (heapCapacity_le (by decide) hbound).trans (by decide)
    obtain ⟨dst, heap₁, heap₂, halloc, hmemcpy, -, hdst, hx⟩ :=
      Heap.copy_spec hholds (hlen.trans_le (le_heapCapacity _)) hfit
    rw [if_pos (by rwa [hr.size])]
    refine ⟨⟨other.size, copyCache other, some dst⟩, heap₂, ?_,
      ⟨hr.size, copyCache_eq hr, ?_, fun _ => ⟨dst, rfl, hdst⟩, hr.fits⟩, ?_⟩
    · rw [hlen] at hmemcpy
      simp only [hround, ok_bind, hcapacity, halloc, hsrc, deref_some, hn, hmemcpy]
      rfl
    · exact fun hshort => absurd hlong (Nat.not_lt_of_le hshort)
    · have hown : buffers ⟨other.size, copyCache other, some dst⟩ = {dst} := buffers_some rfl
      rw [hown, ← insert_empty_eq]
      exact hx ∅ fun b hb => absurd hb (Set.notMem_empty b)
  · rw [if_neg (by rwa [hr.size])]
    refine ⟨⟨other.size, copyCache other, none⟩, heap, rfl,
      ⟨hr.size, copyCache_eq hr, fun _ => rfl, fun hlt => absurd hlt hlong, hr.fits⟩, ?_⟩
    have hown : buffers ⟨other.size, copyCache other, none⟩ = ∅ := buffers_none rfl
    rw [hown]
    exact Heap.Exchange.refl_empty

end EndpointList

end HyperRpc
