import Udk.PiSmmCore.PoolBlocks
import Udk.Runs

/-!
# Runs of the SMM pool services

The recursive allocation hands out a block of its size class, and a free puts the block
back on its list.  In every run of requests whose size with the header does not wrap, the
buffers are as large as requested and the blocks share the space.
-/

namespace Udk
namespace PiSmmCore

open PropertiesTable Span

section Allocation

variable {s s' : PoolState} {hdr levels numberOfPages poolIndex requested size : Nat}
  {poolType : UInt32} {extra : List Span}

theorem PoolOkWith.bounds
    (h : PoolOkWith (⟨hdr, size⟩ :: extra) s) :
    0 < hdr ∧ 0 < size ∧ hdr + size < 2 ^ 64 := by
  obtain ⟨nodes, -, -, hspace⟩ := h.space
  exact hspace.bounds _ List.mem_cons_self

theorem allocateAnyPages_spec
    (h : PoolOk s)
    (hcount : 0 < numberOfPages) :
    (∃ status memory, status ≠ .success ∧
      allocateAnyPages s poolType numberOfPages = some (status, memory, s)) ∨
    ∃ first s', allocateAnyPages s poolType numberOfPages = some (.success, first * 4096, s') ∧
      PoolOkWith [⟨first * 4096, numberOfPages * 4096⟩] s' ∧ s'.live = s.live := by
  obtain ⟨nodes, hmap, hmapOk, hspace⟩ := h.space
  have hrequest : AllocateRequestOk .allocateAnyPages numberOfPages 0 :=
    ⟨hcount, Nat.two_pow_pos 64, fun htype => EfiAllocateType.noConfusion htype⟩
  have hok : AllocateOk nodes .allocateAnyPages poolType numberOfPages 0
      (smmInternalAllocatePages nodes .allocateAnyPages poolType numberOfPages 0) :=
    smmInternalAllocatePages_ok hmapOk hrequest
  simp only [allocateAnyPages, hmap, Option.map_some]
  by_cases hstatus : (smmInternalAllocatePages nodes .allocateAnyPages poolType numberOfPages
      0).status = .success
  · obtain ⟨first, nodes', hmemory, hmap', hallocated, -⟩ := hok.allocated hstatus
    refine Or.inr ⟨first, { s with mSmmMemoryMap := some nodes' }, ?_, ?_, rfl⟩
    · rw [hstatus, hmemory, hmap']
    · exact ⟨⟨nodes', rfl, hallocated.mapOk, hspace.allocate hmapOk hcount hallocated⟩,
        h.free, h.live⟩
  · refine Or.inl ⟨_, (smmInternalAllocatePages nodes .allocateAnyPages poolType numberOfPages
      0).memory, hstatus, ?_⟩
    rw [hok.unchanged hstatus, ← hmap]

/-- A block of a size class has left the lists for a caller. -/
structure TakenBlock (s : PoolState) (poolIndex hdr : Nat) (s' : PoolState) : Prop where
  pool : PoolOkWith [⟨hdr, poolSize poolIndex⟩] s'
  header : s'.headers hdr = ⟨poolSize poolIndex, false⟩
  aligned : hdr % poolSize poolIndex = 0
  live : s'.live = s.live

theorem TakenBlock.split
    (h : TakenBlock s (poolIndex + 1) hdr s')
    (hindex : poolIndex < maxPoolIndex) :
    TakenBlock s poolIndex (add64 hdr (poolSize poolIndex))
      (((s'.setHeader hdr ⟨poolSize poolIndex, true⟩).insertHead poolIndex hdr).setHeader
        (add64 hdr (poolSize poolIndex)) ⟨poolSize poolIndex, false⟩) := by
  have hpool := h.pool
  have haligned := h.aligned
  have hpos : 0 < poolSize poolIndex := by
    rw [poolSize_eq]
    exact Nat.mul_pos (by omega) (Nat.two_pow_pos poolIndex)
  rw [poolSize_succ] at hpool haligned
  have hbounds := hpool.bounds
  have hsecond : add64 hdr (poolSize poolIndex) = hdr + poolSize poolIndex :=
    Nat.mod_eq_of_lt (by omega)
  have halignedHalf : hdr % poolSize poolIndex = 0 :=
    Nat.mod_eq_zero_of_dvd
      (dvd_trans (Dvd.intro_left 2 rfl) (Nat.dvd_of_mod_eq_zero haligned))
  have hheader : (s'.setHeader hdr ⟨poolSize poolIndex, true⟩).headers hdr =
      ⟨poolSize poolIndex, true⟩ := Function.update_self _ _ _
  have hinserted := (hpool.setHeader.split).insertHead hindex hheader halignedHalf
  rw [hsecond]
  constructor
  case pool => exact hinserted.setHeader
  case header => exact Function.update_self _ _ _
  case aligned => rw [Nat.add_mod_right, halignedHalf]
  case live => exact h.live

/-- `InternalAllocPoolByIndex` takes a block of its class, or it has no effect. -/
theorem internalAllocPoolByIndex_spec
    (h : PoolOk s)
    (hlevels : levels ≤ maxPoolIndex) :
    internalAllocPoolByIndex levels s = some (none, s) ∨
    ∃ hdr s', internalAllocPoolByIndex levels s = some (some hdr, s') ∧
      TakenBlock s (maxPoolIndex - levels) hdr s' := by
  induction levels with
  | zero =>
      have hpages : efiSizeToPages (maxPoolSize <<< 1) = 1 := rfl
      rw [internalAllocPoolByIndex, hpages]
      rcases @allocateAnyPages_spec s 1 efiRuntimeServicesData h Nat.one_pos with
        ⟨status, memory, hstatus, heq⟩ | ⟨first, s', heq, hpool, hlive⟩
      · refine Or.inl ?_
        rw [heq]
        cases status with
        | success => exact absurd rfl hstatus
        | invalidParameter => rfl
        | outOfResources => rfl
        | notFound => rfl
      · refine Or.inr ⟨first * 4096, s'.setHeader (first * 4096) ⟨poolSize maxPoolIndex, false⟩,
          ?_, ?_, ?_, ?_, hlive⟩
        · rw [heq]
        · exact hpool.setHeader
        · exact Function.update_self _ _ _
        · exact Nat.mul_mod_left first 4096
  | succ levels ih =>
      have hindex : maxPoolIndex - (levels + 1) < maxPoolIndex := by omega
      have hnext : maxPoolIndex - levels = maxPoolIndex - (levels + 1) + 1 := by omega
      rw [internalAllocPoolByIndex]
      cases hlist : s.mSmmPoolLists (maxPoolIndex - (levels + 1)) with
      | cons hdr rest =>
          have hmem : hdr ∈ s.mSmmPoolLists (maxPoolIndex - (levels + 1)) := by
            rw [hlist]
            exact List.mem_cons_self
          refine Or.inr ⟨hdr, _, rfl, (h.removeFirst hindex hlist).setHeader, ?_, ?_, rfl⟩
          · exact Function.update_self _ _ _
          · exact (h.free _ hindex hdr hmem).2
      | nil =>
          rcases ih (Nat.le_of_succ_le hlevels) with heq | ⟨hdr, s', heq, htaken⟩
          · rw [heq]
            exact Or.inl rfl
          · rw [hnext] at htaken
            have hhalf : (s'.headers hdr).size >>> 1 = poolSize (maxPoolIndex - (levels + 1)) := by
              rw [htaken.header, poolSize_succ, Nat.shiftRight_one]
              exact Nat.mul_div_cancel_left _ Nat.two_pos
            refine Or.inr ⟨_, _, ?_, htaken.split hindex⟩
            rw [heq]
            simp only [hhalf]

theorem poolIndexOf_spec
    (hpos : 0 < size)
    (hmax : size ≤ maxPoolSize) :
    poolIndexOf size < maxPoolIndex ∧ size ≤ poolSize (poolIndexOf size) := by
  -- the classes depend on the number of units of `MIN_POOL_SIZE`, at most 32
  obtain ⟨units, hunits⟩ : ∃ units, (size + minPoolSize - 1) >>> minPoolShift = units := ⟨_, rfl⟩
  have hdiv : units = (size + 63) / 64 := by
    rw [← hunits, Nat.shiftRight_eq_div_pow]
    rfl
  have hmax' : size ≤ 2048 := hmax
  have hlow : 1 ≤ units := by omega
  have hhigh : units ≤ 32 := by omega
  have hclass : ∀ n, 1 ≤ n → n ≤ 32 →
      (if n &&& sub64 n 1 ≠ 0 then add64 (highBitSet32 n) 1 else highBitSet32 n) < 6 ∧
        n ≤ 2 ^ (if n &&& sub64 n 1 ≠ 0 then add64 (highBitSet32 n) 1 else highBitSet32 n) := by
    intro n hn hn'
    interval_cases n <;> exact ⟨by decide, by decide⟩
  have hfits := hclass units hlow hhigh
  have hindex : poolIndexOf size =
      if units &&& sub64 units 1 ≠ 0 then add64 (highBitSet32 units) 1
      else highBitSet32 units := by
    unfold poolIndexOf
    rw [hunits]
  rw [hindex, poolSize_eq]
  refine ⟨hfits.1, ?_⟩
  omega

/-- What an allocation promises: a buffer with room for the request in a new block, or no
effect. -/
structure PoolAllocated (s : PoolState) (requested : Nat) (result : PoolResult) : Prop where
  pool : PoolOk result.state
  served : result.status = .success → ∃ block, result.state.live = block :: s.live ∧
    block.requested = requested ∧ result.buffer = some (block.address + sizeOfPoolHeader) ∧
    block.address + sizeOfPoolHeader + requested ≤ block.address + block.size ∧
    block.address + block.size < 2 ^ 64
  unchanged : result.status ≠ .success → result.state = s

theorem PoolAllocated.refused
    {status : EfiStatus}
    (h : PoolOk s)
    (hstatus : status ≠ .success) :
    PoolAllocated s requested ⟨status, none, s⟩ :=
  ⟨h, fun hsuccess => absurd hsuccess hstatus, fun _ => rfl⟩

theorem PoolAllocated.handOut
    (h : PoolOkWith [⟨hdr, size⟩] s')
    (hlive : s'.live = s.live)
    (hheader : s'.headers hdr = ⟨size, false⟩)
    (hsize : SizeOk hdr size)
    (hfits : requested + sizeOfPoolHeader ≤ size) :
    PoolAllocated s requested ⟨.success, some (add64 hdr sizeOfPoolHeader),
      { s' with live := ⟨hdr, size, requested⟩ :: s'.live }⟩ := by
  have hbounds := h.bounds
  have hbuffer : add64 hdr sizeOfPoolHeader = hdr + sizeOfPoolHeader :=
    Nat.mod_eq_of_lt (by omega)
  constructor
  case pool => exact h.handOut hheader hsize hfits
  case served =>
    intro _
    refine ⟨⟨hdr, size, requested⟩, ?_, rfl, ?_, ?_, hbounds.2.2⟩
    · rw [← hlive]
    · rw [hbuffer]
    · simp only
      omega
  case unchanged => exact fun hstatus => absurd rfl hstatus

/-- A request above `MAX_POOL_SIZE`. -/
theorem allocatePoolPages_spec
    (h : PoolOk s)
    (hsize : size = requested + sizeOfPoolHeader)
    (hlarge : maxPoolSize < size) :
    ∃ result, allocatePoolPages s poolType requested size = some result ∧
      PoolAllocated s requested result := by
  obtain ⟨pages, hpages⟩ : ∃ pages, efiSizeToPages size = pages := ⟨_, rfl⟩
  have hmax : 2048 < size := hlarge
  have hcovers : size ≤ pages * 4096 := by
    rw [← hpages, efiSizeToPages, efiPageSize_eq']
    split_ifs <;> omega
  have hpos : 0 < pages := by omega
  unfold allocatePoolPages
  simp only [hpages]
  rcases @allocateAnyPages_spec s pages poolType h hpos with
    ⟨status, memory, hstatus, heq⟩ | ⟨first, s', heq, hpool, hlive⟩
  · rw [heq, Option.map_some]
    refine ⟨⟨status, none, s⟩, ?_, PoolAllocated.refused h hstatus⟩
    cases status with
    | success => exact absurd rfl hstatus
    | invalidParameter => rfl
    | outOfResources => rfl
    | notFound => rfl
  · rw [heq, Option.map_some]
    have hbounds := hpool.bounds
    have hbytes : efiPagesToSize pages = pages * 4096 := by
      rw [efiPagesToSize, efiPageSize_eq']
      exact Nat.mod_eq_of_lt (lt_of_le_of_lt (Nat.le_add_left _ _) hbounds.2.2)
    refine ⟨_, rfl, ?_⟩
    rw [hbytes]
    refine PoolAllocated.handOut hpool.setHeader hlive (Function.update_self _ _ _) ?_ ?_
    · refine Or.inr ⟨lt_of_lt_of_le hlarge hcovers, Nat.mul_mod_left first 4096,
        Nat.mul_mod_left pages 4096⟩
    · rw [← hsize]
      exact hcovers

theorem allocatePoolBlock_spec
    (h : PoolOk s)
    (hsize : size = requested + sizeOfPoolHeader)
    (hsmall : size ≤ maxPoolSize) :
    ∃ result, allocatePoolBlock s requested size = some result ∧
      PoolAllocated s requested result := by
  have hpos : 0 < size := by
    rw [hsize]
    exact Nat.add_pos_right requested (Nat.succ_pos 15)
  obtain ⟨hindex, hfits⟩ := poolIndexOf_spec hpos hsmall
  have hback : maxPoolIndex - (maxPoolIndex - poolIndexOf size) = poolIndexOf size := by omega
  unfold allocatePoolBlock
  rw [if_neg (not_lt.mpr (le_of_lt hindex))]
  rcases internalAllocPoolByIndex_spec h (Nat.sub_le maxPoolIndex (poolIndexOf size)) with
    heq | ⟨hdr, s', heq, htaken⟩
  · rw [heq, Option.map_some]
    exact ⟨_, rfl, PoolAllocated.refused h (fun hstatus => EfiStatus.noConfusion hstatus)⟩
  · rw [heq, Option.map_some]
    rw [hback] at htaken
    refine ⟨_, rfl, PoolAllocated.handOut htaken.pool htaken.live htaken.header ?_ ?_⟩
    · exact Or.inl ⟨poolIndexOf size, hindex, rfl, htaken.aligned⟩
    · rw [← hsize]
      exact hfits

theorem smmInternalAllocatePool_spec
    (h : PoolOk s)
    (hwrap : requested + sizeOfPoolHeader < 2 ^ 64) :
    ∃ result, smmInternalAllocatePool s poolType requested = some result ∧
      PoolAllocated s requested result := by
  have hsize : add64 requested sizeOfPoolHeader = requested + sizeOfPoolHeader :=
    Nat.mod_eq_of_lt hwrap
  unfold smmInternalAllocatePool
  simp only [hsize]
  split_ifs with htype hlarge
  · exact ⟨_, rfl, PoolAllocated.refused h (fun hstatus => EfiStatus.noConfusion hstatus)⟩
  · exact allocatePoolPages_spec h rfl hlarge
  · exact allocatePoolBlock_spec h rfl (not_lt.mp hlarge)

end Allocation

section Free

variable {s s' : PoolState} {hdr poolIndex size : Nat} {block : LiveBlock}
  {live : List LiveBlock}

theorem PoolOkWith.nodup_addresses
    (h : PoolOk s) :
    (s.live.map LiveBlock.address).Nodup := by
  obtain ⟨nodes, -, -, hspace⟩ := h.space
  rw [List.nil_append] at hspace
  have hclear : (liveBlocks s.live).Pairwise Clear := (List.pairwise_append.mp hspace.clear).1
  have hpos : ∀ block ∈ s.live, 0 < block.size := by
    intro block hblock
    exact (hspace.bounds ⟨block.address, block.size⟩
      (List.mem_append_left _ (List.mem_map.mpr ⟨block, hblock, rfl⟩))).2.1
  refine List.pairwise_map.mpr ((List.pairwise_map.mp hclear).imp_of_mem ?_)
  intro a b ha hb hab heq
  have hposA := hpos a ha
  have hposB := hpos b hb
  simp only [Clear, stop] at hab
  omega

theorem PoolOkWith.release
    (h : PoolOk s)
    (hblock : block ∈ s.live) :
    PoolOkWith [⟨block.address, block.size⟩] (s.release block.address) := by
  have hnodup := PoolOkWith.nodup_addresses h
  have hperm : s.live.Perm (block :: (s.release block.address).live) := by
    have herase : (s.release block.address).live = s.live.erase block := by
      rw [(hnodup.of_map).erase_eq_filter, PoolState.release]
      refine List.filter_congr fun other hother => ?_
      have hiff : other.address = block.address ↔ other = block :=
        ⟨fun heq => List.inj_on_of_nodup_map hnodup hother hblock heq, fun heq => by rw [heq]⟩
      simp only [ne_eq, hiff, bne, decide_not, beq_eq_decide]
    rw [herase]
    exact List.perm_cons_erase hblock
  obtain ⟨nodes, hmap, hmapOk, hspace⟩ := h.space
  constructor
  case space =>
    refine ⟨nodes, hmap, hmapOk, hspace.perm ?_⟩
    exact (hperm.map _).append_right _
  case free => exact h.free
  case live => exact fun other hother => h.live other (List.mem_of_mem_filter hother)

theorem poolSize_bounds
    (hindex : poolIndex < maxPoolIndex) :
    64 ≤ poolSize poolIndex ∧ poolSize poolIndex ≤ maxPoolSize := by
  have hindex' : poolIndex < 6 := hindex
  interval_cases poolIndex <;> exact ⟨by decide, by decide⟩

theorem poolSize_bits
    (hindex : poolIndex < maxPoolIndex) :
    poolSize poolIndex &&& sub64 (poolSize poolIndex) 1 = 0 ∧
      sub64 (poolSize poolIndex) 1 = 2 ^ (poolIndex + 6) - 1 ∧
      sub64 (highBitSet32 (poolSize poolIndex)) minPoolShift = poolIndex := by
  have hindex' : poolIndex < 6 := hindex
  interval_cases poolIndex <;> exact ⟨by decide, by decide, by decide⟩

theorem internalFreePoolByIndex_spec
    (h : PoolOkWith [⟨hdr, poolSize poolIndex⟩] s)
    (hindex : poolIndex < maxPoolIndex)
    (hsize : (s.headers hdr).size = poolSize poolIndex)
    (haligned : hdr % poolSize poolIndex = 0) :
    ∃ s', internalFreePoolByIndex s hdr = some s' ∧ PoolOk s' ∧ s'.live = s.live := by
  obtain ⟨hpower, hmask, hclass⟩ := poolSize_bits hindex
  have hzero : hdr &&& sub64 (poolSize poolIndex) 1 = 0 := by
    have hpow : poolSize poolIndex = 2 ^ (poolIndex + 6) := by
      rw [poolSize_eq, Nat.pow_add, Nat.mul_comm]
    rw [hmask, Nat.and_two_pow_sub_one_eq_mod, ← hpow, haligned]
  have hheader : (s.setHeader hdr ⟨poolSize poolIndex, true⟩).headers hdr =
      ⟨poolSize poolIndex, true⟩ := Function.update_self _ _ _
  unfold internalFreePoolByIndex
  simp only [hsize, hclass]
  rw [if_pos ⟨hpower, hzero, (poolSize_bounds hindex).1, hindex⟩]
  exact ⟨_, rfl, h.setHeader.insertHead hindex hheader haligned, rfl⟩

theorem freePoolPages_spec
    (h : PoolOkWith [⟨hdr, size⟩] s)
    (hsize : (s.headers hdr).size = size)
    (haligned : hdr % 4096 = 0)
    (hpages : size % 4096 = 0) :
    ∃ s', freePoolPages s hdr = some (.success, s') ∧ PoolOk s' ∧ s'.live = s.live := by
  obtain ⟨hstart, hlength, hstop⟩ := h.bounds
  obtain ⟨nodes, hmap, hmapOk, hspace⟩ := h.space
  obtain ⟨first, rfl⟩ : ∃ first, hdr = first * 4096 :=
    ⟨hdr / 4096, (Nat.div_mul_cancel (Nat.dvd_of_mod_eq_zero haligned)).symm⟩
  obtain ⟨count, rfl⟩ : ∃ count, size = count * 4096 :=
    ⟨size / 4096, (Nat.div_mul_cancel (Nat.dvd_of_mod_eq_zero hpages)).symm⟩
  have hcount : efiSizeToPages (count * 4096) = count := by
    rw [efiSizeToPages, efiPageSize_eq', hpages, Nat.mul_div_cancel count (Nat.succ_pos 4095)]
    rfl
  have hfree : FreeOk nodes first count (smmInternalFreePages nodes (first * 4096) count) := by
    refine smmInternalFreePages_ok hmapOk (Nat.pos_of_mul_pos_right hstart)
      (Nat.pos_of_mul_pos_right hlength) ?_
    rw [← Nat.add_mul] at hstop
    exact page_lt_iff.mp hstop
  have hsuccess : (smmInternalFreePages nodes (first * 4096) count).1 = .success := by
    by_contra hrefused
    exact (hfree.refused hrefused).2 hspace.disjoint_pages
  obtain ⟨nodes', hmap', hmapOk', -, hfreed⟩ := hfree.freed hsuccess
  unfold freePoolPages
  rw [hsize, hcount, if_pos ⟨haligned, hpages⟩, hmap, Option.map_some]
  simp only [hsuccess, hmap']
  exact ⟨_, rfl, ⟨⟨nodes', rfl, hmapOk', hspace.release hfreed⟩, h.free, h.live⟩, rfl⟩

theorem smmInternalFreePool_spec
    (h : PoolOk s)
    (hblock : block ∈ s.live) :
    ∃ s', smmInternalFreePool s (some (block.address + sizeOfPoolHeader)) = some (.success, s') ∧
      PoolOk s' ∧ s'.live = (s.release block.address).live := by
  have hreleased := PoolOkWith.release h hblock
  obtain ⟨hheader, hsize, -⟩ := h.live block hblock
  obtain ⟨hstart, -, hstop⟩ := hreleased.bounds
  have hhdr : sub64 (block.address + sizeOfPoolHeader) sizeOfPoolHeader = block.address := by
    unfold sub64
    have hrewrite : block.address + sizeOfPoolHeader + 2 ^ 64 - sizeOfPoolHeader =
        block.address + 2 ^ 64 := by omega
    rw [hrewrite, Nat.add_mod_right]
    exact Nat.mod_eq_of_lt (by omega)
  have hheader' : ((s.release block.address).headers block.address).size = block.size :=
    congrArg PoolHeader.size hheader
  unfold smmInternalFreePool
  simp only [hhdr, hheader]
  rw [if_neg Bool.false_ne_true]
  rcases hsize with ⟨poolIndex, hindex, hclass, haligned⟩ | ⟨hlarge, haligned, hpages⟩
  · have hsmall : ¬ block.size > maxPoolSize := by
      rw [hclass]
      exact not_lt.mpr (poolSize_bounds hindex).2
    rw [if_neg hsmall]
    rw [hclass] at hreleased hheader' haligned
    obtain ⟨s', heq, hpool, hlive⟩ :=
      internalFreePoolByIndex_spec hreleased hindex hheader' haligned
    exact ⟨s', by rw [heq, Option.map_some], hpool, hlive⟩
  · rw [if_pos hlarge]
    exact freePoolPages_spec hreleased hheader' haligned hpages

end Free

section Machine

/-- A call of the pool services, or what other callers of the page services leave of the
free pages. -/
inductive PoolCall where
  | allocatePool (poolType : UInt32) (size : Nat)
  | freePool (buffer : Option Nat)
  | otherPages (nodes : List FreePageList)

/-- No pool has been allocated; the memory holds anything. -/
def PoolState.initial (nodes : List FreePageList) (headers : Nat → PoolHeader) : PoolState where
  mSmmMemoryMap := some nodes
  headers := headers
  mSmmPoolLists _ := []
  live := []

/-- What a call returns; none when an `ASSERT` fails. -/
def performPoolCall (s : PoolState) : PoolCall → Option PoolResult
  | .allocatePool poolType size => smmInternalAllocatePool s poolType size
  | .freePool buffer => (smmInternalFreePool s buffer).map fun result =>
      ⟨result.1, none, result.2⟩
  | .otherPages nodes => some ⟨.success, none, { s with mSmmMemoryMap := some nodes }⟩

/-- The machine as a relation. -/
def PoolStep (s : PoolState) (call : PoolCall) (s' : PoolState) : Prop :=
  ∃ result, performPoolCall s call = some result ∧ result.state = s'

/-- A size does not wrap with the header, a buffer that is freed is held, and the other
callers of the page services keep off the blocks. -/
def PoolCallOk (s : PoolState) : PoolCall → Prop
  | .allocatePool _ size => size + sizeOfPoolHeader < 2 ^ 64
  | .freePool buffer => ∀ address, buffer = some address →
      ∃ block ∈ s.live, address = block.address + sizeOfPoolHeader
  | .otherPages nodes => MapOk nodes ∧
      ∀ b ∈ liveBlocks s.live ++ freeBlocks s.mSmmPoolLists, ∀ x, b.start ≤ x → x < b.stop →
        x / 4096 ∉ freePages nodes

/-- What a call promises. -/
def PoolCallKept (s : PoolState) : PoolCall → PoolResult → Prop
  | .allocatePool _ size, result => PoolAllocated s size result
  | .freePool _, result => PoolOk result.state ∧ (result.status ≠ .success → result.state = s)
  | .otherPages _, result => PoolOk result.state

variable {s s' : PoolState} {call : PoolCall} {nodes : List FreePageList}
  {headers : Nat → PoolHeader} {trace : List (PoolState × PoolCall)}

theorem initial_poolOk
    (hnodes : MapOk nodes) :
    PoolOk (.initial nodes headers) := by
  have hnone : freeBlocks (fun _ => []) = [] :=
    List.flatMap_eq_nil_iff.mpr fun _ _ => rfl
  constructor
  case space =>
    refine ⟨nodes, rfl, hnodes, ?_⟩
    change SpaceOk nodes ([] ++ ([] ++ freeBlocks fun _ => []))
    rw [hnone]
    exact ⟨List.Pairwise.nil, fun b hb => absurd hb List.not_mem_nil,
      fun b hb => absurd hb List.not_mem_nil⟩
  case free => exact fun _ _ address haddress => absurd haddress List.not_mem_nil
  case live => exact fun block hblock => absurd hblock List.not_mem_nil

theorem PoolOkWith.performPoolCall
    (h : PoolOk s)
    (hok : PoolCallOk s call) :
    ∃ result, performPoolCall s call = some result ∧ PoolCallKept s call result := by
  cases call with
  | allocatePool poolType size => exact smmInternalAllocatePool_spec h hok
  | freePool buffer =>
      cases buffer with
      | none => exact ⟨_, rfl, h, fun _ => rfl⟩
      | some address =>
          obtain ⟨block, hblock, rfl⟩ := hok address rfl
          obtain ⟨s', heq, hpool, -⟩ := smmInternalFreePool_spec h hblock
          refine ⟨⟨.success, none, s'⟩, ?_, hpool, fun hstatus => absurd rfl hstatus⟩
          rw [PiSmmCore.performPoolCall, heq, Option.map_some]
  | otherPages nodes' =>
      obtain ⟨nodes, _, -, hspace⟩ := h.space
      refine ⟨_, rfl, ?_, h.free, h.live⟩
      exact ⟨nodes', rfl, hok.1, hspace.clear, hok.2, hspace.bounds⟩

theorem PoolCallKept.pool
    {result : PoolResult}
    (h : PoolCallKept s call result) :
    PoolOk result.state := by
  cases call with
  | allocatePool poolType size => exact PoolAllocated.pool h
  | freePool buffer => exact h.1
  | otherPages nodes => exact h

theorem poolStep_poolOk
    (h : PoolOk s)
    (hok : PoolCallOk s call)
    (hstep : PoolStep s call s') :
    PoolOk s' := by
  obtain ⟨result, heq, rfl⟩ := hstep
  obtain ⟨result', heq', hkept⟩ := PoolOkWith.performPoolCall h hok
  obtain rfl := Option.some_inj.mp (heq.symm.trans heq')
  exact hkept.pool

end Machine

section Runs

variable {s : PoolState} {nodes : List FreePageList} {headers : Nat → PoolHeader}
  {trace : List (PoolState × PoolCall)}

/-- In every run whose requests do not wrap with the header, the blocks are apart, the
lists and headers agree, and the next such call fails no `ASSERT` and does what it
promises. -/
theorem smmPool_blocksOk
    (hnodes : MapOk nodes)
    (hrun : Run PoolStep (.initial nodes headers) trace s)
    (hok : ∀ x ∈ trace, PoolCallOk x.1 x.2) :
    PoolOk s ∧ ∀ call, PoolCallOk s call →
      ∃ result, performPoolCall s call = some result ∧ PoolCallKept s call result := by
  have hpool : PoolOk s := hrun.invariant
    (fun s call s' h hcall hstep => poolStep_poolOk h hcall hstep) hok (initial_poolOk hnodes)
  exact ⟨hpool, fun call hcall => PoolOkWith.performPoolCall hpool hcall⟩

/-- Sixteen free pages, as after the first region. -/
def sixteenPages : List FreePageList :=
  [⟨0x10000, 16⟩]

theorem sixteenPages_mapOk : MapOk sixteenPages := by
  have hnode : NodeOk ⟨0x10000, 16⟩ := by
    refine ⟨rfl, Nat.succ_pos _, ?_⟩
    change 0x10000 + 16 * 4096 < 2 ^ 64
    norm_num
  exact mapOk_singleton hnode (Nat.succ_pos 15)

/-- A state of the pool in which nothing is allocated. -/
def emptyPool : PoolState :=
  .initial sixteenPages fun _ => ⟨0, false⟩

/-- A request for 100 bytes gets the second half of a block of 256 bytes. -/
theorem smmPool_blocksOk_sample :
    ∃ s, Run PoolStep emptyPool [(emptyPool, .allocatePool efiRuntimeServicesData 100)] s ∧
      s.live = [⟨0x1ff80, 128, 100⟩] ∧ PoolOk s := by
  have hstep : ∃ result, smmInternalAllocatePool emptyPool efiRuntimeServicesData 100 =
      some result ∧ result.state.live = [⟨0x1ff80, 128, 100⟩] := ⟨_, rfl, rfl⟩
  obtain ⟨result, heq, hlive⟩ := hstep
  have hrun : Run PoolStep emptyPool
      [(emptyPool, .allocatePool efiRuntimeServicesData 100)] result.state :=
    Run.single ⟨result, heq, rfl⟩
  refine ⟨result.state, hrun, hlive, (smmPool_blocksOk sixteenPages_mapOk hrun ?_).1⟩
  intro x hx
  rw [List.mem_singleton.mp hx]
  change 100 + 16 < 2 ^ 64
  norm_num

/-- A size that wraps with the header is served with the smallest block, or fails the
`ASSERT` on the index of its list. -/
theorem wrappedSize_breaks :
    (∃ s, Run PoolStep emptyPool
        [(emptyPool, .allocatePool efiRuntimeServicesData (2 ^ 64 - 15))] s ∧
      s.live = [⟨0x1ffc0, 64, 2 ^ 64 - 15⟩]) ∧
    performPoolCall emptyPool (.allocatePool efiRuntimeServicesData (2 ^ 64 - 16)) = none := by
  constructor
  · have hstep : ∃ result, smmInternalAllocatePool emptyPool efiRuntimeServicesData
        (2 ^ 64 - 15) = some result ∧ result.state.live = [⟨0x1ffc0, 64, 2 ^ 64 - 15⟩] :=
      ⟨_, rfl, rfl⟩
    obtain ⟨result, heq, hlive⟩ := hstep
    exact ⟨result.state, Run.single ⟨result, heq, rfl⟩, hlive⟩
  · rfl

end Runs

end PiSmmCore
end Udk
