import Udk.Ip4.Reassembly
import Udk.NetLib.Bucket

/-!
# Runs of the reassembly

The fragments of one packet pass `Ip4PreProcessPacket` one after the other.  A packet is
returned when they first cover the payload, with the bytes of the payload; in between, the
table has one entry for them, whose books are right.
-/

namespace Udk
namespace Ip4

open NetLib Extent Extents List

section Checked

variable {frame : Frame} {packet : Packet} {payload data data' : List UInt8} {len : Nat}

theorem length_of_trimFront
    (h : trimBytes data len true = some data')
    (hle : len ≤ data.length) :
    data'.length = data.length - len := by
  unfold trimBytes at h
  rw [if_neg (not_lt.mpr hle)] at h
  split at h
  case isTrue => cases h
  case isFalse =>
    obtain rfl := Option.some_inj.mp h
    exact length_drop

/-- What the checks in front of the reassembly ensure for a fragment. -/
theorem checkPacket_fragment
    (h : checkPacket frame = .fragment packet) :
    0 ≤ packet.info.start ∧ packet.info.end_ = packet.info.start + packet.info.length ∧
      packet.info.length = packet.data.length ∧
      (lastFragment packet.ip4.fragment = false ∨ packet.info.start ≠ 0) := by
  unfold checkPacket at h
  simp only at h
  split at h
  case isTrue => cases h
  split at h
  case h_1 => cases h
  case h_2 data _ =>
    split at h
    case isTrue => cases h
    case isFalse hheader =>
      split at h
      case isTrue => cases h
      split at h
      case isTrue => cases h
      split at h
      case isTrue => cases h
      split at h
      case h_1 => cases h
      case h_2 data' hfront =>
        split at h
        case isFalse => cases h
        case isTrue hfragment =>
          unfold checkFragment at h
          split at h
          case isTrue => cases h
          split at h
          case isTrue => cases h
          case isFalse =>
            obtain rfl := PreProcessed.fragment.inj h
            simp only [not_or, not_lt, not_not] at hheader
            obtain ⟨-, -, hle, hlen⟩ := hheader
            have hlength := length_of_trimFront hfront (by rw [← hlen]; exact hle)
            refine ⟨Int.natCast_nonneg _, rfl, ?_, ?_⟩
            · simp only [clipInfoOf]
              omega
            · refine hfragment.imp_left fun hmore => ?_
              simpa only [lastFragment, beq_eq_false_iff_ne] using hmore

/-- The fragment carries a substring of the payload, and has the flag clear exactly if it
ends where the payload does. -/
structure CarriesPart (payload : List UInt8) (packet : Packet) : Prop where
  high : packet.info.end_ ≤ payload.length
  data_eq : packet.data = NetLib.slice payload packet.info.start packet.info.end_
  last_iff : lastFragment packet.ip4.fragment = true ↔ packet.info.end_ = payload.length

theorem CarriesPart.fragmentOf
    (h : CarriesPart payload packet)
    (hcheck : checkPacket frame = .fragment packet) :
    FragmentOf payload packet := by
  obtain ⟨hstart, hend, hlength, hfragment⟩ := checkPacket_fragment hcheck
  exact ⟨⟨hstart, by omega, h.high, by omega, h.data_eq⟩, h.last_iff, hfragment⟩

end Checked

section Table

variable {payload : List UInt8} {packet : Packet} {key head : Ip4Head}
  {received : List Packet} {entry entry' : AssembleEntry} {alloc : Allocations}
  {before after bucket : List AssembleEntry}

/-- Two packets are identified alike. -/
def SameId (a b : Ip4Head) : Prop :=
  a.dst = b.dst ∧ a.src = b.src ∧ a.id = b.id ∧ a.protocol = b.protocol

theorem SameId.isFor
    (h : SameId head key) :
    AssembleEntry.isFor head = AssembleEntry.isFor key := by
  obtain ⟨hdst, hsrc, hid, hprotocol⟩ := h
  funext entry
  simp only [AssembleEntry.isFor, hdst, hsrc, hid, hprotocol]

theorem SameId.hash
    (h : SameId head key) :
    ip4AssembleHash head = ip4AssembleHash key := by
  obtain ⟨hdst, hsrc, hid, hprotocol⟩ := h
  simp only [ip4AssembleHash, hdst, hsrc, hid, hprotocol]

theorem SameKey.isFor
    (h : SameKey entry' entry) :
    entry'.isFor head = entry.isFor head := by
  obtain ⟨hdst, hsrc, hid, hprotocol⟩ := h
  simp only [AssembleEntry.isFor, hdst, hsrc, hid, hprotocol]

theorem create_isFor : (ip4CreateAssembleEntry head).isFor head = true := by
  simp only [AssembleEntry.isFor, ip4CreateAssembleEntry, beq_self_eq_true, Bool.and_self]

theorem create_entryOk
    (hpos : (0 : Int) < payload.length) :
    EntryOk payload [] (ip4CreateAssembleEntry head) where
  list := ⟨fun _ h => absurd h not_mem_nil, ordered_nil, List.Pairwise.nil,
    fun _ => Iff.rfl, fun _ h => absurd h not_mem_nil⟩
  curLen_eq := rfl
  last := fun ⟨_, h, _⟩ => absurd h not_mem_nil
  noLast _ := rfl
  head_iff := ⟨fun h => Bool.noConfusion h, fun ⟨_, h, _⟩ => absurd h not_mem_nil⟩
  info_eq := rfl
  incomplete hcovers := not_held_nil (hcovers 0 (le_refl 0) hpos)

/-- The bucket holds no entry of the packet. -/
def NoEntry (key : Ip4Head) (bucket : List AssembleEntry) : Prop :=
  ∀ entry ∈ bucket, entry.isFor key = false

theorem reassembleInBucket_new
    (hnone : NoEntry packet.ip4 bucket)
    (halloc : alloc.entry = true) :
    reassembleInBucket bucket packet alloc =
      (assembleInto (ip4CreateAssembleEntry packet.ip4) packet alloc.wrap).map fun outcome =>
        outcome.inBucket [] bucket := by
  unfold reassembleInBucket
  rw [dropWhile_none hnone]
  simp only [halloc, Bool.true_eq_false, if_false]

theorem reassembleInBucket_found
    (hnone : NoEntry packet.ip4 before)
    (hentry : entry.isFor packet.ip4 = true) :
    reassembleInBucket (before ++ entry :: after) packet alloc =
      (assembleInto entry packet alloc.wrap).map fun outcome => outcome.inBucket before after := by
  unfold reassembleInBucket
  rw [takeWhile_found hnone hentry, dropWhile_found hnone hentry]

/-- The bucket of the packet between two calls. -/
def BucketOk (payload : List UInt8) (key : Ip4Head) (received : List Packet)
    (bucket : List AssembleEntry) : Prop :=
  (NoEntry key bucket ∧ received = []) ∨
    ∃ before entry after, bucket = before ++ entry :: after ∧ NoEntry key before ∧
      NoEntry key after ∧ entry.isFor key = true ∧ EntryOk payload received entry

/-- The fragments that wait in the bucket. -/
def queuedIn (key : Ip4Head) (bucket : List AssembleEntry) : List Packet :=
  match bucket.find? fun entry => entry.isFor key with
  | some entry => entry.fragments
  | none => []

theorem queuedIn_found
    (hnone : NoEntry key before)
    (hentry : entry.isFor key = true) :
    queuedIn key (before ++ entry :: after) = entry.fragments := by
  simp only [queuedIn]
  rw [find?_found hnone hentry]

theorem queuedIn_new
    (hnone : NoEntry key bucket) :
    queuedIn key bucket = [] := by
  simp only [queuedIn]
  rw [find?_none hnone]

/-- One more fragment in its bucket. -/
theorem BucketOk.reassemble
    (h : BucketOk payload key received bucket)
    (hsmall : payload.length < 2 ^ 32)
    (hid : SameId packet.ip4 key)
    (hfragment : FragmentOf payload packet)
    (hinside : ¬ EndsInside (queuedIn key bucket) packet.info)
    (hempty : ¬ EmptyAgain (queuedIn key bucket) packet.info) :
    ∃ result bucket', reassembleInBucket bucket packet ⟨true, true⟩ = some (result, bucket') ∧
      ((¬ Covers payload (packet :: received) ∧ result = none ∧
          ∃ before entry after, bucket' = before ++ entry :: after ∧ NoEntry key before ∧
            NoEntry key after ∧ entry.isFor key = true ∧
            EntryOk payload (packet :: received) entry) ∨
        (Covers payload (packet :: received) ∧ NoEntry key bucket' ∧
          ∃ packet', result = some packet' ∧ packet'.data = payload)) := by
  have hpos := hfragment.payload_pos
  rcases h with ⟨hnone, rfl⟩ | ⟨before, entry, after, rfl, hbefore, hafter, hentry, hok⟩
  · rw [queuedIn_new hnone] at hinside hempty
    have hnone' : NoEntry packet.ip4 bucket := by
      intro e he
      rw [hid.isFor]
      exact hnone e he
    rw [reassembleInBucket_new hnone' rfl]
    rcases assembleInto_ok (create_entryOk hpos) hsmall hfragment hinside hempty with
      ⟨hcovers, entry', heq, hok', hkey⟩ | ⟨hcovers, packet', hdata, heq⟩
    · rw [heq, Option.map_some]
      refine ⟨none, entry' :: bucket, rfl, Or.inl ⟨hcovers, rfl, [], entry', bucket, rfl, ?_,
        hnone, ?_, hok'⟩⟩
      · exact fun e he => absurd he not_mem_nil
      · rw [← hid.isFor, hkey.isFor]
        exact create_isFor
    · rw [heq, Option.map_some]
      exact ⟨some packet', bucket, rfl, Or.inr ⟨hcovers, hnone, packet', rfl, hdata⟩⟩
  · rw [queuedIn_found hbefore hentry] at hinside hempty
    have hbefore' : NoEntry packet.ip4 before := by
      intro e he
      rw [hid.isFor]
      exact hbefore e he
    have hentry' : entry.isFor packet.ip4 = true := by
      rw [hid.isFor]
      exact hentry
    rw [reassembleInBucket_found hbefore' hentry']
    rcases assembleInto_ok hok hsmall hfragment hinside hempty with
      ⟨hcovers, entry', heq, hok', hkey⟩ | ⟨hcovers, packet', hdata, heq⟩
    · rw [heq, Option.map_some]
      refine ⟨none, _, rfl, Or.inl ⟨hcovers, rfl, before, entry', after, rfl, hbefore, hafter,
        ?_, hok'⟩⟩
      rw [hkey.isFor]
      exact hentry
    · rw [heq, Option.map_some]
      refine ⟨some packet', before ++ after, rfl, Or.inr ⟨hcovers, ?_, packet', rfl, hdata⟩⟩
      intro e he
      rcases mem_append.mp he with he | he
      · exact hbefore e he
      · exact hafter e he

end Table

section Machine

/-- The state of the reassembly. -/
structure ReassembleState where
  assemble : AssembleTable
  /-- No field of the source: the fragments received for the entry of a packet, the last
  one first. -/
  received : List Packet

/-- A frame that arrives, and the allocations while it is processed. -/
structure Arrival where
  frame : Frame
  alloc : Allocations
deriving DecidableEq

/-- The fragment that a frame is taken for. -/
def fragmentOf (frame : Frame) : List Packet :=
  match checkPacket frame with
  | .fragment packet => [packet]
  | _ => []

/-- The fragments for the entry after a call; none when there is no entry any more. -/
def receivedAfter (key : Ip4Head) (s : ReassembleState) (frame : Frame)
    (table : AssembleTable) : List Packet :=
  if (table (ip4AssembleHash key)).any fun entry => entry.isFor key then
    fragmentOf frame ++ s.received
  else []

/-- The call for a frame; none when an `ASSERT` fails. -/
def reassembleMove (key : Ip4Head) (s : ReassembleState) (arrival : Arrival) :
    Option (Option Packet × ReassembleState) :=
  (ip4PreProcessPacket s.assemble arrival.frame arrival.alloc).map fun result =>
    (result.1, ⟨result.2, receivedAfter key s arrival.frame result.2⟩)

/-- The machine as a relation. -/
def ReassembleStep (key : Ip4Head) (s : ReassembleState) (arrival : Arrival)
    (s' : ReassembleState) : Prop :=
  ∃ result, reassembleMove key s arrival = some (result, s')

/-- The fragments that wait for the packet. -/
def ReassembleState.queued (s : ReassembleState) (key : Ip4Head) : List Packet :=
  queuedIn key (s.assemble (ip4AssembleHash key))

/-- A frame with a fragment of the payload that is accepted, does not end inside a
fragment in front of which it brings bytes, and is no empty fragment once more. -/
structure ArrivalOk (payload : List UInt8) (key : Ip4Head) (s : ReassembleState)
    (arrival : Arrival) : Prop where
  check : ∃ packet, checkPacket arrival.frame = .fragment packet ∧ SameId packet.ip4 key ∧
    CarriesPart payload packet ∧ ¬ EndsInside (s.queued key) packet.info ∧
    ¬ EmptyAgain (s.queued key) packet.info
  alloc : arrival.alloc = ⟨true, true⟩

/-- The table between two calls. -/
def StateOk (payload : List UInt8) (key : Ip4Head) (s : ReassembleState) : Prop :=
  BucketOk payload key s.received (s.assemble (ip4AssembleHash key))

/-- A packet is returned exactly when the fragments first cover the payload, with its
bytes. -/
def ReturnsExactly (payload : List UInt8) (key : Ip4Head) (s : ReassembleState)
    (arrival : Arrival) : Prop :=
  ∃ packet result s', checkPacket arrival.frame = .fragment packet ∧
    reassembleMove key s arrival = some (result, s') ∧
    (result.isSome ↔ Covers payload (packet :: s.received)) ∧
    (∀ whole, result = some whole → whole.data = payload) ∧ StateOk payload key s'

variable {payload : List UInt8} {key : Ip4Head} {s s' : ReassembleState} {arrival : Arrival}
  {table : AssembleTable} {trace : List (ReassembleState × Arrival)}

theorem StateOk.returnsExactly
    (h : StateOk payload key s)
    (hsize : payload.length ≤ 65535)
    (hok : ArrivalOk payload key s arrival) :
    ReturnsExactly payload key s arrival := by
  obtain ⟨packet, hcheck, hid, hpart, hinside, hempty⟩ := hok.check
  have hfragment := hpart.fragmentOf hcheck
  obtain ⟨result, bucket', heq, hcases⟩ :=
    BucketOk.reassemble h (by omega) hid hfragment hinside hempty
  have hhash := hid.hash
  have htable : ip4PreProcessPacket s.assemble arrival.frame arrival.alloc =
      some (result, Function.update s.assemble (ip4AssembleHash key) bucket') := by
    unfold ip4PreProcessPacket
    rw [hcheck]
    simp only [ip4Reassemble, hhash, hok.alloc, heq, Option.map_some]
  have hfragments : fragmentOf arrival.frame = [packet] := by
    rw [fragmentOf, hcheck]
  refine ⟨packet, result,
    ⟨Function.update s.assemble (ip4AssembleHash key) bucket', receivedAfter key s arrival.frame
      (Function.update s.assemble (ip4AssembleHash key) bucket')⟩, hcheck, ?_, ?_⟩
  · rw [reassembleMove, htable, Option.map_some]
  · simp only [StateOk, receivedAfter, Function.update_self, hfragments]
    rcases hcases with ⟨hcovers, rfl, before, entry, after, rfl, hbefore, hafter, hentry, hentryOk⟩ |
      ⟨hcovers, hnone, whole, rfl, hdata⟩
    · refine ⟨⟨fun hsome => Bool.noConfusion hsome, fun hcovers' => absurd hcovers' hcovers⟩,
        fun whole hwhole => (Option.some_ne_none whole hwhole.symm).elim, ?_⟩
      have hany : ((before ++ entry :: after).any fun e => e.isFor key) = true :=
        any_eq_true.mpr ⟨entry, mem_append_right _ mem_cons_self, hentry⟩
      rw [if_pos hany]
      exact Or.inr ⟨before, entry, after, rfl, hbefore, hafter, hentry, hentryOk⟩
    · refine ⟨⟨fun _ => hcovers, fun _ => rfl⟩, fun whole' hwhole => ?_, ?_⟩
      · obtain rfl := Option.some_inj.mp hwhole
        exact hdata
      · have hany : ¬ (bucket'.any fun e => e.isFor key) = true := by
          intro hsome
          obtain ⟨e, he, hfor⟩ := any_eq_true.mp hsome
          rw [hnone e he] at hfor
          exact Bool.false_ne_true hfor
        rw [if_neg hany]
        exact Or.inl ⟨hnone, rfl⟩

/-- In every run of fragments of a payload of which none ends inside a queued one, a packet
is returned exactly when they cover the payload, and the books of the entry are right
until then. -/
theorem ip4Reassemble_exact
    (hsize : payload.length ≤ 65535)
    (hnew : NoEntry key (table (ip4AssembleHash key)))
    (hrun : Run (ReassembleStep key) ⟨table, []⟩ trace s)
    (hok : ∀ x ∈ trace, ArrivalOk payload key x.1 x.2) :
    StateOk payload key s ∧
      ∀ arrival, ArrivalOk payload key s arrival → ReturnsExactly payload key s arrival := by
  have hstate : StateOk payload key s := by
    refine hrun.invariant (fun s arrival s' h hok hstep => ?_) hok (Or.inl ⟨hnew, rfl⟩)
    obtain ⟨result, heq⟩ := hstep
    obtain ⟨packet, result', s'', -, heq', -, -, h'⟩ := StateOk.returnsExactly h hsize hok
    obtain ⟨-, rfl⟩ := Prod.mk.inj (Option.some_inj.mp (heq.symm.trans heq'))
    exact h'
  exact ⟨hstate, fun arrival harrival => hstate.returnsExactly hsize harrival⟩

end Machine

section Samples

/-- The header of a fragment of 16 or 24 bytes, from one host to another. -/
def sampleHead (fragment : UInt16) (length : Nat) : Ip4Head where
  headLen := 5
  ver := 4
  totalLen := UInt16.ofNat (20 + length)
  id := 1
  fragment := fragment
  protocol := 17
  checksum := 0
  src := 0x0a000001
  dst := 0x0a000002

/-- The bytes of such a header. -/
def sampleHeadBytes (fragment : UInt16) (length : Nat) : List UInt8 :=
  [0x45, 0, 0, UInt8.ofNat (20 + length), 0, 1, (fragment >>> 8).toUInt8, fragment.toUInt8,
    64, 17, 0, 0, 10, 0, 0, 1, 10, 0, 0, 2]

/-- A payload of 32 bytes. -/
def samplePayload : List UInt8 :=
  (List.range 32).map UInt8.ofNat

/-- The frame with the bytes of the payload from an offset on. -/
def sampleFrame (fragment : UInt16) (offset length : Nat) : Frame where
  head := sampleHead fragment length
  data := sampleHeadBytes fragment length ++ (samplePayload.drop offset).take length
  linkFlag := 0
  headChecksum := 0
  castType := 1
  optionLen := 0
  optionValid := true

/-- The fragment that such a frame is taken for. -/
def samplePacket (fragment : UInt16) (offset length : Nat) : Packet where
  ip4 := sampleHead fragment length
  info := ⟨0, 1, offset, offset + length, length⟩
  data := (samplePayload.drop offset).take length

def sampleArrival (fragment : UInt16) (offset length : Nat) : Arrival :=
  ⟨sampleFrame fragment offset length, ⟨true, true⟩⟩

def emptyTable : ReassembleState :=
  ⟨fun _ => [], []⟩

/-- A last fragment from byte 16 on waits. -/
def lastWaits : ReassembleState :=
  ⟨Function.update (fun _ => []) (ip4AssembleHash (sampleHead 2 16))
    [{ ip4CreateAssembleEntry (sampleHead 2 16) with
        totalLen := 32, curLen := 16, fragments := [samplePacket 2 16 16] }],
    [samplePacket 2 16 16]⟩

theorem lastWaits_step :
    ReassembleStep (sampleHead 2 16) emptyTable (sampleArrival 2 16 16) lastWaits :=
  ⟨none, rfl⟩

theorem lastWaits_carries : CarriesPart samplePayload (samplePacket 2 16 16) :=
  ⟨le_refl 32, rfl, iff_of_true rfl rfl⟩

/-- A second fragment up to the one that waits completes the payload. -/
theorem ip4Reassemble_exact_sample :
    ReturnsExactly samplePayload (sampleHead 2 16) lastWaits (sampleArrival 0x2000 0 16) := by
  have hfirst : ArrivalOk samplePayload (sampleHead 2 16) emptyTable (sampleArrival 2 16 16) := by
    refine ⟨⟨samplePacket 2 16 16, rfl, ⟨rfl, rfl, rfl, rfl⟩, lastWaits_carries, ?_, ?_⟩, rfl⟩
    · rintro ⟨node, hnode, -⟩
      exact not_mem_nil hnode
    · rintro ⟨prev, hprev, -⟩
      cases hprev
  have hsecond : ArrivalOk samplePayload (sampleHead 2 16) lastWaits
      (sampleArrival 0x2000 0 16) := by
    have hpart : CarriesPart samplePayload (samplePacket 0x2000 0 16) := by
      refine ⟨?_, rfl, iff_of_false Bool.false_ne_true ?_⟩
      · change (16 : Int) ≤ 32
        norm_num
      · change (16 : Int) ≠ 32
        norm_num
    refine ⟨⟨samplePacket 0x2000 0 16, rfl, ⟨rfl, rfl, rfl, rfl⟩, hpart, ?_, ?_⟩, rfl⟩
    · rintro ⟨node, hnode, -, hstart, -⟩
      obtain rfl := mem_singleton.mp hnode
      exact lt_irrefl (16 : Int) hstart
    · rintro ⟨prev, hprev, -⟩
      cases hprev
  have hrun := Run.single lastWaits_step
  refine (ip4Reassemble_exact (le_of_lt ?_) ?_ hrun ?_).2 _ hsecond
  · change 32 < 65535
    norm_num
  · exact fun entry hentry => absurd hentry not_mem_nil
  · intro x hx
    rw [mem_singleton.mp hx]
    exact hfirst

/-- A fragment that ends inside the last one is emptied, and the packet that is returned
lacks its bytes. -/
theorem tailTrim_breaks :
    Run (ReassembleStep (sampleHead 2 16)) emptyTable
      [(emptyTable, sampleArrival 2 16 16)] lastWaits ∧
    CarriesPart samplePayload (samplePacket 2 16 16) ∧
    checkPacket (sampleFrame 0x2000 0 24) = .fragment (samplePacket 0x2000 0 24) ∧
    CarriesPart samplePayload (samplePacket 0x2000 0 24) ∧
    ∃ whole s', reassembleMove (sampleHead 2 16) lastWaits (sampleArrival 0x2000 0 24) =
      some (some whole, s') ∧ whole.data = samplePayload.drop 16 := by
  have hpart : CarriesPart samplePayload (samplePacket 0x2000 0 24) := by
    refine ⟨?_, rfl, iff_of_false Bool.false_ne_true ?_⟩
    · change (24 : Int) ≤ 32
      norm_num
    · change (24 : Int) ≠ 32
      norm_num
  exact ⟨Run.single lastWaits_step, lastWaits_carries, rfl, hpart, _, _, rfl, rfl⟩

end Samples

end Ip4
end Udk
