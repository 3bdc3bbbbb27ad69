import Udk.Ip6.Reassembly
import Udk.NetLib.Bucket
import Udk.Runs

/-!
# Runs of the IPv6 reassembly

Fragments of one packet arrive with any allocations failing.  As long as none overlaps a
queued one in part and the allocations for a first fragment and for the whole packet
succeed, the books of the entry are right and every buffer has one owner.
-/

namespace Udk
namespace Ip6

open NetLib Extent Extents List

section Bucket

variable {packet key : Packet} {received : List Packet} {entry entry' : AssembleEntry}
  {alloc : Allocations} {freed : List Nat} {before after bucket : List AssembleEntry}

/-- Two fragments are identified alike. -/
def SameId (a b : Packet) : Prop :=
  a.info.id = b.info.id ∧ a.ip6.sourceAddress = b.ip6.sourceAddress ∧
    a.ip6.destinationAddress = b.ip6.destinationAddress

theorem SameId.isFor
    (h : SameId packet key) :
    AssembleEntry.isFor packet = AssembleEntry.isFor key := by
  obtain ⟨hid, hsrc, hdst⟩ := h
  funext entry
  simp only [AssembleEntry.isFor, hid, hsrc, hdst]

/-- `IP6_ASSEMBLE_HASH` of a fragment. -/
def bucketOf (packet : Packet) : Nat :=
  ip6AssembleHash packet.ip6 packet.info.id

theorem SameId.bucketOf
    (h : SameId packet key) :
    bucketOf packet = bucketOf key := by
  obtain ⟨hid, hsrc, hdst⟩ := h
  simp only [Ip6.bucketOf, ip6AssembleHash, hid, hsrc, hdst]

theorem SameKey.isFor
    (h : SameKey entry' entry) :
    entry'.isFor packet = entry.isFor packet := by
  obtain ⟨hdst, hsrc, hid⟩ := h
  simp only [AssembleEntry.isFor, hdst, hsrc, hid]

theorem create_isFor : (ip6CreateAssembleEntry packet).isFor packet = true := by
  simp only [AssembleEntry.isFor, ip6CreateAssembleEntry, beq_self_eq_true, Bool.and_self]

theorem create_entryOk :
    EntryOk [] (ip6CreateAssembleEntry packet) where
  fragment _ h := absurd h not_mem_nil
  stored _ h := absurd h not_mem_nil
  ordered := ordered_nil
  curLen_eq := rfl
  noHead _ _ h := absurd h not_mem_nil
  head buffer h := by cases h
  packet_eq := rfl
  nodup := nodup_nil

/-- The bucket holds no entry of the packet. -/
def NoEntry (key : Packet) (bucket : List AssembleEntry) : Prop :=
  ∀ entry ∈ bucket, entry.isFor key = false

/-- The bucket of the packet between two calls. -/
def BucketOk (key : Packet) (received : List Packet) (bucket : List AssembleEntry) : Prop :=
  (NoEntry key bucket ∧ received = []) ∨
    ∃ before entry after, bucket = before ++ entry :: after ∧ NoEntry key before ∧
      NoEntry key after ∧ entry.isFor key = true ∧ EntryOk received entry

/-- The entry of the packet in its bucket. -/
def entryIn (key : Packet) (bucket : List AssembleEntry) : Option AssembleEntry :=
  bucket.find? fun entry => entry.isFor key

/-- The buffers that wait in the bucket. -/
def queuedBuffers (key : Packet) (bucket : List AssembleEntry) : List Nat :=
  match entryIn key bucket with
  | some entry => entry.fragments.map Packet.buffer
  | none => []

theorem queuedBuffers_found
    (hnone : NoEntry key before)
    (hentry : entry.isFor key = true) :
    queuedBuffers key (before ++ entry :: after) = entry.fragments.map Packet.buffer := by
  simp only [queuedBuffers, entryIn]
  rw [find?_found hnone hentry]

theorem queuedBuffers_none
    (hnone : NoEntry key bucket) :
    queuedBuffers key bucket = [] := by
  simp only [queuedBuffers, entryIn]
  rw [find?_none hnone]

/-- A fragment is handled without harm: if its entry can be created, it meets the condition
on the entry. -/
def BucketStepOk (bucket : List AssembleEntry) (packet : Packet) (alloc : Allocations) : Prop :=
  match entryIn packet bucket with
  | some entry => StepOk entry packet alloc
  | none => alloc.entry = true → StepOk (ip6CreateAssembleEntry packet) packet alloc

/-- The fragments owned by a packet that is returned. -/
def ownedBuffers : Option NewPacket → List Nat
  | some whole => whole.arg.fragments.map Packet.buffer
  | none => []

/-- What a call leaves of its bucket and of the buffers. -/
structure BucketHandled (key : Packet) (received : List Packet) (bucket : List AssembleEntry)
    (packet : Packet) (freed : List Nat)
    (result : Option NewPacket × List AssembleEntry × List Nat) : Prop where
  kept : result.1 = none → (entryIn key result.2.1).isSome →
    BucketOk key (packet :: received) result.2.1
  gone : (entryIn key result.2.1).isSome = false → BucketOk key [] result.2.1
  whole : ∀ whole, result.1 = some whole → Whole (packet :: received) whole ∧
    entryIn key result.2.1 = none
  buffers : ∃ newly, result.2.2 = newly ++ freed ∧
    (queuedBuffers key result.2.1 ++ (newly ++ ownedBuffers result.1)).Perm
      (packet.buffer :: queuedBuffers key bucket)

/-- What a call does to the entry of the packet, in its bucket. -/
theorem Handled.inBucket
    {outcome : Outcome}
    (h : Handled received entry packet freed outcome)
    (hbefore : NoEntry key before)
    (hafter : NoEntry key after)
    (hentry : entry.isFor key = true)
    (hqueued : queuedBuffers key bucket = entry.fragments.map Packet.buffer) :
    BucketHandled key received bucket packet freed
      (outcome.packet, before ++ (outcome.entry.toList ++ after), outcome.freed) := by
  cases h with
  | kept entry' hpacket hentry' hbooks hkey hbuffers =>
      have hfor : entry'.isFor key = true := by
        rw [hkey.isFor]
        exact hentry
      obtain ⟨newly, hfreed, hperm⟩ := hbuffers
      rw [hpacket, hentry']
      change BucketHandled key received bucket packet freed
        (none, before ++ entry' :: after, outcome.freed)
      have hfind : entryIn key (before ++ entry' :: after) = some entry' :=
        find?_found hbefore hfor
      refine ⟨fun _ _ => Or.inr ⟨before, entry', after, rfl, hbefore, hafter, hfor, hbooks⟩,
        fun hnone => ?_, fun whole hwhole => ?_, newly, hfreed, ?_⟩
      · rw [hfind] at hnone
        exact Bool.noConfusion hnone
      · cases hwhole
      · rw [queuedBuffers_found hbefore hfor, hqueued]
        simpa only [ownedBuffers, append_nil] using hperm
  | returned whole hpacket hentry' hwhole hbuffers =>
      obtain ⟨newly, hfreed, hperm⟩ := hbuffers
      have hnone : NoEntry key (before ++ after) := by
        intro e he
        rcases mem_append.mp he with he | he
        · exact hbefore e he
        · exact hafter e he
      rw [hpacket, hentry']
      change BucketHandled key received bucket packet freed
        (some whole, before ++ after, outcome.freed)
      have hfind : entryIn key (before ++ after) = none := find?_none hnone
      refine ⟨fun hpacket' => ?_, fun _ => Or.inl ⟨hnone, rfl⟩, fun whole' hwhole' => ?_, newly,
        hfreed, ?_⟩
      · cases hpacket'
      · obtain rfl := Option.some_inj.mp hwhole'
        exact ⟨hwhole, hfind⟩
      · rw [queuedBuffers_none hnone, hqueued, nil_append]
        exact perm_append_comm.trans hperm

/-- One more fragment in its bucket. -/
theorem BucketOk.reassemble
    (h : BucketOk key received bucket)
    (hid : SameId packet key)
    (hfragment : FragmentOk packet)
    (hfresh : packet.buffer ∉ queuedBuffers key bucket)
    (hok : BucketStepOk bucket packet alloc) :
    ∃ result, reassembleInBucket bucket packet alloc freed = some result ∧
      BucketHandled key received bucket packet freed result := by
  have hfor := hid.isFor
  unfold BucketStepOk entryIn at hok
  unfold reassembleInBucket
  rw [hfor] at hok ⊢
  rcases h with ⟨hnone, rfl⟩ | ⟨before, entry, after, rfl, hbefore, hafter, hentry, hbooks⟩
  · rw [find?_none hnone] at hok
    rw [dropWhile_none hnone]
    simp only at hok ⊢
    have hempty := queuedBuffers_none hnone
    cases halloc : alloc.entry with
    | false =>
        have hfind : entryIn key bucket = none := find?_none hnone
        refine ⟨_, rfl, ⟨fun _ hsome => ?_, fun _ => Or.inl ⟨hnone, rfl⟩, fun whole hwhole => ?_,
          [packet.buffer], rfl, ?_⟩⟩
        · rw [hfind] at hsome
          exact Bool.noConfusion hsome
        · cases hwhole
        · rw [hempty]
          exact List.Perm.refl _
    | true =>
        obtain ⟨outcome, heq, hhandled⟩ := @assembleInto_ok packet [] _ alloc freed
          create_entryOk hfragment not_mem_nil (hok halloc)
        simp only [Bool.true_eq_false, if_false]
        rw [heq, Option.map_some]
        refine ⟨_, rfl, ?_⟩
        have hcreated : (ip6CreateAssembleEntry packet).isFor key = true := by
          rw [← hfor]
          exact create_isFor
        exact hhandled.inBucket (fun e he => absurd he not_mem_nil) hnone hcreated hempty
  · rw [find?_found hbefore hentry] at hok
    rw [takeWhile_found hbefore hentry, dropWhile_found hbefore hentry]
    rw [queuedBuffers_found hbefore hentry] at hfresh
    obtain ⟨outcome, heq, hhandled⟩ := @assembleInto_ok packet received entry alloc freed
      hbooks hfragment hfresh hok
    simp only
    rw [heq, Option.map_some]
    exact ⟨_, rfl, hhandled.inBucket hbefore hafter hentry (queuedBuffers_found hbefore hentry)⟩

end Bucket

section Machine

/-- The state of the reassembly of one packet. -/
structure ReassembleState where
  assemble : AssembleTable
  /-- The buffers that have been freed. -/
  freed : List Nat
  /-- No field of the source: the buffers that have arrived. -/
  arrived : List Nat
  /-- No field of the source: the fragments received for the entry of the packet. -/
  received : List Packet
  /-- No field of the source: the buffers owned by packets that have been returned. -/
  delivered : List Nat

/-- A fragment that arrives, and the allocations of its call. -/
structure Arrival where
  packet : Packet
  alloc : Allocations

/-- The call for a fragment; none when an `ASSERT` fails. -/
def reassembleMove (key : Packet) (s : ReassembleState) (arrival : Arrival) :
    Option (Option NewPacket × ReassembleState) :=
  (ip6Reassemble s.assemble arrival.packet arrival.alloc s.freed).map fun result =>
    (result.1,
      { assemble := result.2.1
        freed := result.2.2
        arrived := arrival.packet.buffer :: s.arrived
        received :=
          if (entryIn key (result.2.1 (bucketOf key))).isSome then arrival.packet :: s.received
          else []
        delivered := ownedBuffers result.1 ++ s.delivered })

/-- The machine as a relation. -/
def ReassembleStep (key : Packet) (s : ReassembleState) (arrival : Arrival)
    (s' : ReassembleState) : Prop :=
  ∃ result, reassembleMove key s arrival = some (result, s')

/-- A new fragment of the packet, in its own buffer, that is handled without harm. -/
structure ArrivalOk (key : Packet) (s : ReassembleState) (arrival : Arrival) : Prop where
  id : SameId arrival.packet key
  fragment : FragmentOk arrival.packet
  fresh : arrival.packet.buffer ∉ s.arrived
  step : BucketStepOk (s.assemble (bucketOf key)) arrival.packet arrival.alloc

/-- The books are right, and every buffer that has arrived is queued in the entry, has been
freed, or is owned by a packet that was returned, and only one of these, once. -/
structure StateOk (key : Packet) (s : ReassembleState) : Prop where
  bucket : BucketOk key s.received (s.assemble (bucketOf key))
  nodup : s.arrived.Nodup
  owned : s.arrived.Perm
    (queuedBuffers key (s.assemble (bucketOf key)) ++ (s.freed ++ s.delivered))

/-- A call fails no `ASSERT`, keeps the state, and returns whole packets only. -/
def CallOk (key : Packet) (s : ReassembleState) (arrival : Arrival) : Prop :=
  ∃ result s', reassembleMove key s arrival = some (result, s') ∧ StateOk key s' ∧
    ∀ whole, result = some whole → Whole (arrival.packet :: s.received) whole

variable {key : Packet} {s : ReassembleState} {arrival : Arrival} {table : AssembleTable}
  {trace : List (ReassembleState × Arrival)}

theorem StateOk.callOk
    (h : StateOk key s)
    (hok : ArrivalOk key s arrival) :
    CallOk key s arrival := by
  have hhash : ip6AssembleHash arrival.packet.ip6 arrival.packet.info.id = bucketOf key :=
    hok.id.bucketOf
  have hfresh : arrival.packet.buffer ∉ queuedBuffers key (s.assemble (bucketOf key)) :=
    fun hqueued => hok.fresh (h.owned.mem_iff.mpr (mem_append_left _ hqueued))
  obtain ⟨⟨result, bucket', freed'⟩, heq, hhandled⟩ :=
    @BucketOk.reassemble arrival.packet key s.received arrival.alloc s.freed _ h.bucket hok.id
      hok.fragment hfresh hok.step
  obtain ⟨newly, hfreed, hperm⟩ := hhandled.buffers
  have hmove : reassembleMove key s arrival = some (result,
      { assemble := Function.update s.assemble (bucketOf key) bucket'
        freed := freed'
        arrived := arrival.packet.buffer :: s.arrived
        received :=
          if (entryIn key bucket').isSome then arrival.packet :: s.received else []
        delivered := ownedBuffers result ++ s.delivered }) := by
    simp only [reassembleMove, ip6Reassemble, hhash, heq, Option.map_some, Function.update_self]
  refine ⟨result, _, hmove, ?_, fun whole hwhole => (hhandled.whole whole hwhole).1⟩
  constructor
  case bucket =>
    simp only [Function.update_self]
    cases hentry : (entryIn key bucket').isSome with
    | false => exact hhandled.gone hentry
    | true =>
        have hnone : result = none := by
          cases hresult : result with
          | none => rfl
          | some whole =>
              have hgone : entryIn key bucket' = none := (hhandled.whole whole hresult).2
              rw [hgone] at hentry
              exact Bool.noConfusion hentry
        exact hhandled.kept hnone hentry
  case nodup => exact nodup_cons.mpr ⟨hok.fresh, h.nodup⟩
  case owned =>
    simp only [Function.update_self]
    subst hfreed
    have hsplit : (queuedBuffers key bucket' ++ (newly ++ s.freed ++
        (ownedBuffers result ++ s.delivered))).Perm
        (queuedBuffers key bucket' ++ (newly ++ ownedBuffers result) ++
          (s.freed ++ s.delivered)) := by
      rw [append_assoc, append_assoc, append_assoc]
      refine List.Perm.append_left _ (List.Perm.append_left _ ?_)
      rw [← append_assoc, ← append_assoc]
      exact perm_append_comm.append_right _
    refine List.Perm.trans ?_ hsplit.symm
    refine List.Perm.trans ?_ (hperm.symm.append_right _)
    exact h.owned.cons _

end Machine

section Samples

def sampleAddress : Ipv6Address :=
  ⟨0x20, 0, 0, 1⟩

/-- A fragment directly behind the IPv6 header. -/
def sampleFragment (buffer : Nat) (start length : Nat) (lastFrag : Bool) : Packet where
  buffer := buffer
  ip6 := ⟨ip6Fragment, sampleAddress, sampleAddress⟩
  info := ⟨start, start + length, length, 7, 40, 17, lastFrag, 0⟩
  data := List.replicate 48 0 ++ List.replicate length 1

def allAllocations : Allocations :=
  ⟨true, true, true, true⟩

def emptyState : ReassembleState :=
  ⟨fun _ => [], [], [], [], []⟩

theorem sampleFragment_ok
    {buffer start length : Nat} {lastFrag : Bool}
    (hlength : 0 < length)
    (hend : start + length < 2 ^ 31) :
    FragmentOk (sampleFragment buffer start length lastFrag) := by
  refine ⟨Int.natCast_nonneg start, ?_, ?_, ?_, le_refl 40, ?_, ?_⟩
  · change (start : Int) < start + length
    omega
  · change (start : Int) + length < 2 ^ 31
    omega
  · change (length : Int) = start + length - start
    omega
  · change 40 < 2 ^ 16
    norm_num
  · simp only [sampleFragment, length_append, length_replicate]
    change ((48 + length : Nat) : Int) = (40 : Nat) + (8 : Nat) + (length : Int)
    omega

end Samples

end Ip6
end Udk
