import Udk.OnesComplement
import Udk.NetLib.NetBufferBytes

/-!
# Checksums of net buffers

`NetblockChecksum` adds the words of a byte string and folds the sum to 16 bits, and
`NetbufChecksum` adds the sums of the blocks, with the lanes exchanged for a block that
begins at an odd offset.  Both are the one's complement sum of the words.
-/

namespace Udk
namespace NetLib

open OnesComplement List

/-- The loop of `NetblockChecksum`: the words at `Bulk`, the low byte first, and the
left-over byte. -/
def blockSumLoop : List UInt8 → Nat → Nat
  | low :: high :: bulk, sum => blockSumLoop bulk (add32 sum (low.toNat + high.toNat * 256))
  | [last], sum => add32 sum last.toNat
  | [], sum => sum

/-- The sum is folded until it has 16 bits. -/
def foldSum (sum : Nat) : Nat :=
  if sum / 2 ^ 16 ≠ 0 then foldSum (sum % 2 ^ 16 + sum / 2 ^ 16) else sum
termination_by sum
decreasing_by omega

/-- `NetblockChecksum` of `Len` bytes. -/
def netblockChecksum (bulk : List UInt8) : Nat :=
  foldSum (blockSumLoop bulk 0) % 2 ^ 16

/-- `NetAddChecksum`. -/
def netAddChecksum (checksum1 checksum2 : Nat) : Nat :=
  let sum := checksum1 + checksum2
  (if sum / 2 ^ 16 ≠ 0 then sum % 2 ^ 16 + 1 else sum) % 2 ^ 16

/-- `SwapBytes16`. -/
def swapBytes16 (value : Nat) : Nat :=
  (value <<< 8 ||| value >>> 8) % 2 ^ 16

/-- The loop of `NetbufChecksum`. -/
def checksumLoop (mem : Memory) : List BlockOp → Nat → Nat → Nat
  | [], _, totalSum => totalSum
  | op :: ops, offset, totalSum =>
    if op.size = 0 then checksumLoop mem ops offset totalSum
    else
      let blockSum := netblockChecksum (op.bytes mem)
      let blockSum := if offset % 2 ≠ 0 then swapBytes16 blockSum else blockSum
      checksumLoop mem ops (add32 offset op.size) (netAddChecksum blockSum totalSum)

/-- `NetbufChecksum`. -/
def netbufChecksum (mem : Memory) (nbuf : NetBuf) : Nat :=
  checksumLoop mem nbuf.blockOp 0 0

/-- A byte string as 16-bit words of a little-endian processor, with a zero pad byte. -/
def hostWords : List UInt8 → List Nat
  | low :: high :: bulk => (low.toNat + high.toNat * 256) :: hostWords bulk
  | [last] => [last.toNat + 0 * 256]
  | [] => []

/-- A byte string as 16-bit words in network order, with a zero pad byte. -/
def networkWords : List UInt8 → List Nat
  | high :: low :: bulk => (high.toNat * 256 + low.toNat) :: networkWords bulk
  | [last] => [last.toNat * 256 + 0]
  | [] => []

section Lanes

variable {bulk front back : List UInt8} {odd : Bool} {n r : Nat}

/-- The sum of bytes that go to the low and the high lane of a word in turn. -/
def laneSum : Bool → List UInt8 → Nat
  | _, [] => 0
  | odd, byte :: bulk => (if odd then byte.toNat * 256 else byte.toNat) + laneSum (!odd) bulk

theorem laneSum_le
    (odd : Bool) (bulk : List UInt8) :
    laneSum odd bulk ≤ 65280 * bulk.length := by
  induction bulk generalizing odd with
  | nil => exact le_rfl
  | cons byte bulk ih =>
      have hbyte := byte.toNat_lt
      have hrest := ih (!odd)
      rw [laneSum, length_cons]
      split <;> omega

theorem laneSum_append :
    laneSum odd (front ++ back) =
      laneSum odd front + laneSum (xor odd (decide (front.length % 2 = 1))) back := by
  induction front generalizing odd with
  | nil =>
      rw [nil_append, laneSum, Nat.zero_add, length_nil]
      congr 1
      cases odd <;> rfl
  | cons byte front ih =>
      rw [cons_append, laneSum, ih, laneSum, Nat.add_assoc, length_cons]
      congr 3
      rcases Nat.mod_two_eq_zero_or_one front.length with h | h
      · have h' : (front.length + 1) % 2 = 1 := by omega
        rw [h, h']
        cases odd <;> rfl
      · have h' : (front.length + 1) % 2 = 0 := by omega
        rw [h, h']
        cases odd <;> rfl

theorem sum_hostWords : (hostWords bulk).sum = laneSum false bulk := by
  induction bulk using hostWords.induct with
  | case1 low high bulk ih =>
      rw [hostWords, sum_cons, ih, laneSum, laneSum, if_neg Bool.false_ne_true, Nat.add_assoc]
      rfl
  | case2 last => rfl
  | case3 => rfl

theorem sum_networkWords : (networkWords bulk).sum = laneSum true bulk := by
  induction bulk using networkWords.induct with
  | case1 high low bulk ih =>
      rw [networkWords, sum_cons, ih, laneSum, laneSum, if_pos rfl, Nat.add_assoc]
      rfl
  | case2 last => rw [networkWords, sum_singleton, laneSum, if_pos rfl, laneSum]
  | case3 => rfl

theorem hostWords_le : ∀ w ∈ hostWords bulk, w ≤ 65535 := by
  induction bulk using hostWords.induct with
  | case1 low high bulk ih =>
      have hlow := low.toNat_lt
      have hhigh := high.toNat_lt
      rw [hostWords]
      exact forall_mem_cons.mpr ⟨by omega, ih⟩
  | case2 last =>
      have hlast := last.toNat_lt
      exact forall_mem_singleton.mpr (by omega)
  | case3 => exact forall_mem_nil _

theorem networkWords_le : ∀ w ∈ networkWords bulk, w ≤ 65535 := by
  induction bulk using networkWords.induct with
  | case1 high low bulk ih =>
      have hlow := low.toNat_lt
      have hhigh := high.toNat_lt
      rw [networkWords]
      exact forall_mem_cons.mpr ⟨by omega, ih⟩
  | case2 last =>
      have hlast := last.toNat_lt
      exact forall_mem_singleton.mpr (by omega)
  | case3 => exact forall_mem_nil _

theorem laneSum_exchange
    (odd : Bool) (bulk : List UInt8) :
    256 * laneSum odd bulk ≡ laneSum (!odd) bulk [MOD 65535] ∧
      (laneSum odd bulk = 0 ↔ laneSum (!odd) bulk = 0) := by
  induction bulk generalizing odd with
  | nil => exact ⟨Nat.ModEq.refl _, Iff.rfl⟩
  | cons byte bulk ih =>
      obtain ⟨hmod, hzero⟩ := ih (!odd)
      rw [laneSum, laneSum, Nat.mul_add, Nat.add_eq_zero_iff, Nat.add_eq_zero_iff, hzero]
      refine ⟨Nat.ModEq.add ?_ hmod, and_congr_left' ?_⟩
      · cases odd with
        | false => exact Nat.mul_comm 256 byte.toNat ▸ Nat.ModEq.refl _
        | true =>
            have hmul : 256 * (byte.toNat * 256) = byte.toNat + 65535 * byte.toNat := by omega
            exact hmul ▸ Nat.add_modulus_mul_modEq_iff.mpr (Nat.ModEq.refl _)
      · cases odd with
        | false => exact (Nat.mul_eq_zero.trans (or_iff_left (by decide))).symm
        | true => exact Nat.mul_eq_zero.trans (or_iff_left (by decide))

theorem swapBytes16_eq
    (hle : r ≤ 65535) :
    swapBytes16 r = wrap 65535 (256 * r) := by
  have hhigh : r / 2 ^ 8 < 2 ^ 8 := by omega
  rw [swapBytes16, Nat.shiftRight_eq_div_pow, ← Nat.shiftLeft_add_eq_or_of_lt hhigh,
    Nat.shiftLeft_eq, ← rotate_eq_wrap (d := 256) (by decide) hle]
  omega

theorem swapBytes16_wrap :
    swapBytes16 (wrap 65535 (laneSum odd bulk)) = wrap 65535 (laneSum (!odd) bulk) := by
  obtain ⟨hmod, hzero⟩ := laneSum_exchange odd bulk
  rw [swapBytes16_eq (wrap_le (by decide))]
  refine wrap_congr (by decide) ((wrap_modEq.mul_left 256).trans hmod) ?_
  rw [Nat.mul_eq_zero, or_iff_right (by decide), wrap_eq_zero, hzero]

end Lanes

section Sums

variable {mem : Memory} {nbuf : NetBuf} {ops : List BlockOp} {bulk : List UInt8}
  {odd : Bool} {sum offset a b : Nat}

theorem blockSumLoop_eq
    (hlt : sum + laneSum false bulk < 2 ^ 32) :
    blockSumLoop bulk sum = sum + laneSum false bulk := by
  induction bulk, sum using blockSumLoop.induct with
  | case1 low high bulk sum ih =>
      have hword : laneSum false (low :: high :: bulk) =
          low.toNat + high.toNat * 256 + laneSum false bulk := by
        rw [laneSum, laneSum, if_neg Bool.false_ne_true, Nat.add_assoc]
        rfl
      rw [hword] at hlt ⊢
      have hadd : add32 sum (low.toNat + high.toNat * 256) =
          sum + (low.toNat + high.toNat * 256) := add32_eq (by omega)
      rw [hadd] at ih
      rw [blockSumLoop, hadd, ih (by omega), Nat.add_assoc]
  | case2 last sum =>
      have hbyte : laneSum false [last] = last.toNat := rfl
      rw [hbyte] at hlt ⊢
      rw [blockSumLoop, add32_eq hlt]
  | case3 sum => rfl

theorem foldSum_eq : foldSum sum = wrap 65535 sum := by
  induction sum using foldSum.induct with
  | case1 sum hcarry ih =>
      rw [foldSum, if_pos hcarry, ih]
      exact wrap_fold (by decide)
  | case2 sum hcarry =>
      rw [foldSum, if_neg hcarry, wrap_of_le (by omega)]

theorem netblockChecksum_eq
    (hle : bulk.length ≤ 65535) :
    netblockChecksum bulk = wrap 65535 (laneSum false bulk) := by
  have hsum := laneSum_le false bulk
  have hwrap := wrap_le (m := 65535) (n := laneSum false bulk) (by decide)
  rw [netblockChecksum, blockSumLoop_eq (by omega), Nat.zero_add, foldSum_eq]
  exact Nat.mod_eq_of_lt (by omega)

theorem netAddChecksum_eq
    (ha : a ≤ 65535)
    (hb : b ≤ 65535) :
    netAddChecksum a b = carryAdd 65535 a b := by
  rw [netAddChecksum, carryAdd]
  split <;> split <;> omega

/-- Each block is added in the lanes of its offset. -/
theorem checksumLoop_eq
    (sum : Nat)
    (hle : offset + sizeSum ops ≤ 65535) :
    checksumLoop mem ops offset (wrap 65535 sum) =
      wrap 65535 (sum + laneSum (decide (offset % 2 = 1)) (blockBytes mem ops)) := by
  induction ops generalizing offset sum with
  | nil => rfl
  | cons op ops ih =>
      rw [sizeSum_cons] at hle
      rw [checksumLoop, blockBytes_cons]
      by_cases hsize : op.size = 0
      · have hempty : op.bytes mem = [] := eq_nil_of_length_eq_zero (by
          rw [op.length_bytes, hsize])
        rw [if_pos hsize, ih sum (by omega), hempty, nil_append]
      · have hlength : (op.bytes mem).length = op.size := op.length_bytes
        have hblock : (if offset % 2 ≠ 0 then swapBytes16 (netblockChecksum (op.bytes mem))
            else netblockChecksum (op.bytes mem)) =
              wrap 65535 (laneSum (decide (offset % 2 = 1)) (op.bytes mem)) := by
          rw [netblockChecksum_eq (by omega)]
          rcases Nat.mod_two_eq_zero_or_one offset with h | h
          · rw [h]
            rfl
          · rw [h]
            exact swapBytes16_wrap
        have hparity : xor (decide (offset % 2 = 1)) (decide (op.size % 2 = 1)) =
            decide ((offset + op.size) % 2 = 1) := by
          rw [Nat.add_mod]
          rcases Nat.mod_two_eq_zero_or_one offset with h | h <;>
            rcases Nat.mod_two_eq_zero_or_one op.size with h' | h' <;> rw [h, h'] <;> rfl
        have hadd : add32 offset op.size = offset + op.size := add32_eq (by omega)
        simp only [if_neg hsize, hblock]
        rw [netAddChecksum_eq (wrap_le (by decide)) (wrap_le (by decide)),
          carryAdd_wrap (by decide), hadd, ih _ (by omega), laneSum_append, hlength, hparity]
        congr 1
        omega

end Sums

section Claims

variable {mem : Memory} {nbuf : NetBuf} {bulk : List UInt8}

/-- The checksum of a byte string is the one's complement sum of its words; on the network
it is the sum of the words in network order. -/
theorem netblockChecksum_eq_carrySum
    (hlength : bulk.length ≤ 65535) :
    netblockChecksum bulk = carrySum 65535 (hostWords bulk) ∧
      swapBytes16 (netblockChecksum bulk) = carrySum 65535 (networkWords bulk) := by
  rw [netblockChecksum_eq hlength, swapBytes16_wrap,
    carrySum_eq _ (by decide) hostWords_le, carrySum_eq _ (by decide) networkWords_le,
    sum_hostWords, sum_networkWords]
  exact ⟨rfl, rfl⟩

/-- The checksum of a net buffer is that of its bytes, however they are split. -/
theorem netbufChecksum_eq_flat
    (hok : NetBufOk nbuf)
    (hsize : nbuf.totalSize ≤ 65535) :
    netbufChecksum mem nbuf = netblockChecksum (nbuf.bytes mem) ∧
      netblockChecksum (nbuf.bytes mem) = carrySum 65535 (hostWords (nbuf.bytes mem)) ∧
      swapBytes16 (netblockChecksum (nbuf.bytes mem)) =
        carrySum 65535 (networkWords (nbuf.bytes mem)) := by
  have hlength : (nbuf.bytes mem).length ≤ 65535 := by rw [hok.length_bytes]; exact hsize
  refine ⟨?_, netblockChecksum_eq_carrySum hlength⟩
  have hblocks : 0 + sizeSum nbuf.blockOp ≤ 65535 := by rw [← hok.totalSize_eq]; omega
  have hloop : checksumLoop mem nbuf.blockOp 0 (wrap 65535 0) = _ := checksumLoop_eq 0 hblocks
  rw [Nat.zero_add] at hloop
  rw [netblockChecksum_eq hlength]
  exact hloop

end Claims

/-- An odd block, an empty one, and two bytes that begin at an odd offset. -/
def splitBuffer : NetBuf where
  vector := ⟨false, 64⟩
  totalSize := 3
  blockOp := [⟨0, 16, 0, 1, 1⟩, ⟨16, 32, 20, 20, 0⟩, ⟨32, 48, 40, 42, 2⟩]

theorem splitBuffer_ok : NetBufOk splitBuffer where
  totalSize_eq := rfl
  totalSize_lt := by decide
  blocks op hop := by
    rcases mem_cons.mp hop with rfl | hop
    · exact ⟨by decide, rfl, by decide⟩
    rcases mem_cons.mp hop with rfl | hop
    · exact ⟨by decide, rfl, by decide⟩
    cases mem_singleton.mp hop
    exact ⟨by decide, rfl, by decide⟩
  nonempty := cons_ne_nil _ _
  count := by decide

theorem netbufChecksum_eq_flat_split :
    netbufChecksum (fun addr => addr.toUInt8) splitBuffer = netblockChecksum [0, 40, 41] ∧
      netblockChecksum [0, 40, 41] = carrySum 65535 [10240, 41] ∧
      swapBytes16 (netblockChecksum [0, 40, 41]) = carrySum 65535 [40, 10496] :=
  netbufChecksum_eq_flat splitBuffer_ok (by decide)

end NetLib
end Udk
