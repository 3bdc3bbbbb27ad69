import Udk.Variable.NvSteps

/-!
# Programming a new record

On an erased area the four steps of `UpdateVariable` leave, one after the other, a
header with an erased state, a header that is valid on its own, and the finished
record.  A scan steps over all but the last, so a new record is either absent or
complete.
-/

namespace Udk
namespace Variable

open List

section Images

variable {authFormat : Bool} {flash header : Bytes} {rs : List Bytes} {m : Nat}

theorem Layout.extend
    (h : Layout authFormat flash header rs (List.replicate m 0xff))
    (js : List Bytes) (tail : Bytes)
    (hlen : js.flatten.length + tail.length = m)
    (hrec : ∀ r ∈ js, IsRecord authFormat r) (hstop : startId tail ≠ variableData) :
    Layout authFormat (header ++ rs.flatten ++ (js.flatten ++ tail)) header (rs ++ js) tail := by
  have hsize := h.size_eq
  have hlength := h.length_eq
  rw [h.eq, storeSize_append _ h.header_length, ← h.eq] at hsize
  refine ⟨by simp, h.header_length, ?_, ?_, hstop⟩
  · rw [append_assoc, storeSize_append _ h.header_length, hsize, hlength]
    simp only [length_append, length_replicate, h.header_length]
    omega
  · intro r hr
    rcases mem_append.mp hr with hr | hr
    · exact h.records r hr
    · exact hrec r hr

theorem startId_replicate (k : Nat) : startId (List.replicate k 0xff) ≠ variableData :=
  startId_erased (fun _ hb => (mem_replicate.mp hb).2)

theorem replicate_split {a b : Nat} (h : a ≤ b) :
    List.replicate b (0xff : UInt8) = List.replicate a 0xff ++ List.replicate (b - a) 0xff := by
  rw [replicate_append_replicate, Nat.add_sub_cancel' h]

variable (h : Layout authFormat flash header rs (List.replicate m 0xff))
include h

/-- A header whose state is still erased, or a part of one, hides nothing and shows nothing. -/
theorem shows_unfinished
    {bs : Bytes} (hbs : bs.length ≤ getVariableHeaderSize authFormat)
    (hm : getVariableHeaderSize authFormat ≤ m)
    (hstate : state (bs ++ List.replicate (m - bs.length) 0xff) = 0xff) :
    Shows authFormat (header ++ rs.flatten ++ (bs ++ List.replicate (m - bs.length) 0xff)) rs := by
  have h32 := headerSize_le authFormat
  by_cases hid : startId (bs ++ List.replicate (m - bs.length) 0xff) = variableData
  · -- The bytes count as a header without name and data.
    have hsplit : bs ++ List.replicate (m - bs.length) 0xff =
        (bs ++ List.replicate (getVariableHeaderSize authFormat - bs.length) 0xff) ++
          List.replicate (m - getVariableHeaderSize authFormat) 0xff := by
      rw [replicate_split (show getVariableHeaderSize authFormat - bs.length ≤ m - bs.length by
        omega), append_assoc, show m - bs.length -
          (getVariableHeaderSize authFormat - bs.length) =
            m - getVariableHeaderSize authFormat by omega]
    generalize hjunk : bs ++ List.replicate (getVariableHeaderSize authFormat - bs.length) 0xff =
      junk at hsplit
    have hlen : junk.length = getVariableHeaderSize authFormat := by
      rw [← hjunk, length_append, length_replicate]
      omega
    rw [hsplit] at hid hstate ⊢
    rw [startId_append _ (by omega)] at hid
    rw [state_append _ (by omega)] at hstate
    have herased : sizesErased authFormat junk = true := by simp [sizesErased, hstate]
    have hrec : IsRecord authFormat junk := by
      refine ⟨hid, ?_⟩
      rw [IsRecord.variableSize_eq, nameSizeOfVariable, dataSizeOfVariable, herased, hlen,
        if_pos rfl, if_pos rfl]
      cases authFormat <;> rfl
    refine ⟨header, [junk], List.replicate (m - getVariableHeaderSize authFormat) 0xff, ?_, ?_⟩
    · have hext := h.extend [junk]
        (List.replicate (m - getVariableHeaderSize authFormat) 0xff)
        (by simp [hlen]; omega) (by simpa using hrec) (startId_replicate _)
      simpa using hext
    · intro r hr
      rw [mem_singleton.mp hr, isLive, hstate]
      rfl
  · have hext := h.extend [] (bs ++ List.replicate (m - bs.length) 0xff)
      (by simp; omega) (by simp) hid
    rw [append_nil] at hext
    exact hext.shows

theorem layout_record
    {r : Bytes} (hr : IsRecord authFormat r) (hm : r.length ≤ m) :
    Layout authFormat (header ++ rs.flatten ++ (r ++ List.replicate (m - r.length) 0xff)) header
      (rs ++ [r]) (List.replicate (m - r.length) 0xff) := by
  have hext := h.extend [r] (List.replicate (m - r.length) 0xff)
    (by simp; omega) (by simpa using hr) (startId_replicate _)
  simpa using hext

theorem shows_dead_record
    {r : Bytes} (hr : IsRecord authFormat r) (hm : r.length ≤ m) (hdead : isLive r = false) :
    Shows authFormat (header ++ rs.flatten ++ (r ++ List.replicate (m - r.length) 0xff)) rs :=
  ⟨header, [r], _, layout_record h hr hm, by simpa using hdead⟩

end Images

section Steps

variable {P : Platform} {flash header : Bytes} {rs : List Bytes} {m : Nat}

/-- The store with the front of a record behind its records, and nothing written behind it. -/
def withFront (header : Bytes) (rs : List Bytes) (m : Nat) (front : Bytes) : Bytes :=
  header ++ rs.flatten ++ (front ++ List.replicate (m - front.length) 0xff)

section

variable {writes : List (Nat × Bytes)}

variable (h : Layout P.authFormat flash header rs (List.replicate m 0xff))
include h

theorem program_behind
    (start bs : Bytes) (hm : start.length + bs.length ≤ m) :
    P.program (withFront header rs m start) (storeHeaderSize + rs.flatten.length + start.length)
      bs = withFront header rs m (start ++ bs) := by
  have hbase : (header ++ rs.flatten ++ start).length =
      storeHeaderSize + rs.flatten.length + start.length := by
    simp only [length_append, h.header_length]
  have hover := overlay_erased P.flashKind (header ++ rs.flatten ++ start) bs
    (m := m - start.length) (by omega)
  rw [hbase] at hover
  rw [withFront, Platform.program, ← append_assoc, hover]
  simp only [withFront, append_assoc, length_append, Nat.sub_sub]

/-- A write behind the front shows what its beginnings show. -/
theorem Chain.behind
    {Q : Bytes → Prop} {last : Bytes}
    {start bs : Bytes} (hm : start.length + bs.length ≤ m) (hne : bs ≠ [])
    (hpart : ∀ n ≤ bs.length, Q (withFront header rs m (start ++ bs.take n)))
    (hrest : Chain P Q (withFront header rs m (start ++ bs)) writes last) :
    Chain P Q (withFront header rs m start)
      ((storeHeaderSize + rs.flatten.length + start.length, bs) :: writes) last := by
  refine Chain.cons hne (fun n hn => ?_) ?_
  · rw [program_behind h start _ (by rw [length_take]; omega)]
    exact hpart n hn.le
  · rwa [program_behind h start bs hm]

theorem program_state
    {start : Bytes} (rest : Bytes) (s : UInt8) (hlen : 2 < start.length) :
    P.program (header ++ rs.flatten ++ (start ++ rest))
        (storeHeaderSize + rs.flatten.length + 2) [s] =
      header ++ rs.flatten ++
        (setState start (P.flashKind.combine (state start) s) ++ rest) := by
  have hbase : (header ++ rs.flatten).length = storeHeaderSize + rs.flatten.length := by
    simp only [length_append, h.header_length]
  have hover := overlay_append P.flashKind.combine (header ++ rs.flatten) start rest [s] 2
    (by simp only [length_singleton]; omega)
  rw [hbase, overlay_state _ _ hlen] at hover
  rw [Platform.program, hover]

/-- A write of the state shows what there is before it. -/
theorem Chain.state
    {Q : Bytes → Prop} {last : Bytes}
    {start rest : Bytes} {s : UInt8} (hlen : 2 < start.length)
    (hbefore : Q (header ++ rs.flatten ++ (start ++ rest)))
    (hrest : Chain P Q (header ++ rs.flatten ++
      (setState start (P.flashKind.combine (Variable.state start) s) ++ rest)) writes last) :
    Chain P Q (header ++ rs.flatten ++ (start ++ rest))
      ((storeHeaderSize + rs.flatten.length + 2, [s]) :: writes) last := by
  refine Chain.cons (cons_ne_nil _ _) (fun n hn => ?_) ?_
  · obtain rfl : n = 0 := Nat.lt_one_iff.mp hn
    rwa [take_zero, program_nil]
  · rwa [program_state h rest s hlen]

end

theorem combine_valid (kind : FlashKind) :
    kind.combine 0xff varHeaderValidOnly = varHeaderValidOnly := by
  cases kind <;> rfl

theorem combine_added (kind : FlashKind) :
    kind.combine varHeaderValidOnly varAdded = varAdded := by
  cases kind <;> rfl

variable (req : UpdateRequest) (old : Option Bytes) (data : Bytes)

/-- The padding behind a record. -/
def recordPad (next : Bytes) : Bytes :=
  List.replicate (headerAlign next.length - next.length) 0xff

/-- The record that an update leaves in flash. -/
def addedRecord (authFormat : Bool) (req : UpdateRequest) (old : Option Bytes) (data : Bytes) :
    Bytes :=
  writtenRecord authFormat req old data varAdded (recordPad (buildVariable authFormat req old data))

theorem recordPad_length (next : Bytes) :
    next.length + (recordPad next).length = headerAlign next.length := by
  have := le_headerAlign next.length
  rw [recordPad, length_replicate]
  omega

theorem addedRecord_length (authFormat : Bool) :
    (addedRecord authFormat req old data).length =
      headerAlign (buildVariable authFormat req old data).length := by
  rw [addedRecord, writtenRecord, length_append, length_set, recordPad_length]

theorem buildVariable_split (authFormat : Bool) :
    ∃ start rest, buildVariable authFormat req old data = start ++ rest ∧
      start.length = getVariableHeaderSize authFormat ∧ state start = 0xff ∧
      rest = req.variableName.bytes ++ data ∧
      ∀ s, s ≠ 0xff → (buildVariable authFormat req old data).length < 2 ^ 32 →
        ∀ more, getVariableHeaderSize authFormat + more.length =
            headerAlign (buildVariable authFormat req old data).length →
          IsRecord authFormat (setState start s ++ more) := by
  refine ⟨buildHeader authFormat 0xff (req.attributes &&& ~~~efiVariableAppendWrite)
      req.monotonicCount (newTimeStamp req old) req.keyIndex
      req.variableName.strSize data.length req.vendorGuid,
    req.variableName.bytes ++ data, ?_, by simp, ?_, rfl, ?_⟩
  · rw [buildVariable, append_assoc]
  · have hstate := state_buildHeader authFormat 0xff
      (req.attributes &&& ~~~efiVariableAppendWrite) req.monotonicCount (newTimeStamp req old)
      req.keyIndex req.variableName.strSize data.length req.vendorGuid []
    rwa [append_nil] at hstate
  · intro s hs hsize more hmore
    rw [buildVariable_length] at hsize hmore
    rw [setState, buildHeader_setState]
    exact isRecord_buildHeader _ _ _ _ _ _ _ _ _ _ hs (storedAttributes_ne req.attributes) hsize
      hmore

variable (h : Layout P.authFormat flash header rs (List.replicate m 0xff))
include h

/-- The header with its state still erased, or a part of it. -/
theorem shows_start
    {start : Bytes} (hstart : start.length = getVariableHeaderSize P.authFormat)
    (hff : state start = 0xff) (hm : start.length ≤ m) (n : Nat) :
    Shows P.authFormat (withFront header rs m (start.take n)) rs := by
  have h32 := headerSize_le P.authFormat
  have htake := length_take_le' n start
  refine shows_unfinished h (by omega) (by omega) ?_
  have hstart2 : start[2]? = some 0xff := by
    rw [state, getD_eq_getElem?_getD, getElem?_eq_getElem (by omega)] at hff
    rw [getElem?_eq_getElem (by omega)]
    exact congrArg some hff
  rw [state, getD_eq_getElem?_getD, getElem?_append, length_take,
    getElem?_take]
  split_ifs with h1
  · rw [hstart2]; rfl
  · omega
  · rw [getElem?_replicate_of_lt (by omega)]
    rfl

/-- A header that is valid on its own, with a part of the name and the data behind it. -/
theorem shows_validOnly
    {start part : Bytes} {size : Nat}
    (hstart : start.length = getVariableHeaderSize P.authFormat) (hm : size ≤ m)
    (hrec : ∀ more, getVariableHeaderSize P.authFormat + more.length = size →
      IsRecord P.authFormat (setState start varHeaderValidOnly ++ more))
    (hpart : start.length + part.length ≤ size) :
    Shows P.authFormat (withFront header rs m (setState start varHeaderValidOnly ++ part)) rs := by
  have h32 := headerSize_le P.authFormat
  have hrep := replicate_split (show size - (start.length + part.length) ≤
    m - (start.length + part.length) by omega)
  have hsub : m - (start.length + part.length) - (size - (start.length + part.length)) =
      m - size := by omega
  have hjunk := hrec (part ++ List.replicate (size - (start.length + part.length)) 0xff)
    (by simp; omega)
  have hlength : (setState start varHeaderValidOnly ++
      (part ++ List.replicate (size - (start.length + part.length)) 0xff)).length = size := by
    simp
    omega
  have hshow := shows_dead_record h hjunk (by omega) (by
    rw [isLive, state_append _ (by simp; omega), state_setState _ (by omega)]
    rfl)
  rw [hlength] at hshow
  rw [withFront, length_append, setState_length, hrep, hsub]
  simpa only [append_assoc] using hshow

/-- The four steps, image by image. -/
theorem chain_recordWrites
    (hsize : (buildVariable P.authFormat req old data).length < 2 ^ 32)
    (hm : headerAlign (buildVariable P.authFormat req old data).length ≤ m) :
    Chain P (fun img => Shows P.authFormat img rs) flash
      (recordWrites P (storeHeaderSize + rs.flatten.length)
        (buildVariable P.authFormat req old data))
      (header ++ rs.flatten ++ (addedRecord P.authFormat req old data ++
        List.replicate (m - (addedRecord P.authFormat req old data).length) 0xff)) := by
  have h32 := headerSize_le P.authFormat
  obtain ⟨start, rest, hnext, hstart, hff, hrest, hrec⟩ :=
    buildVariable_split req old data P.authFormat
  have hle := le_headerAlign (buildVariable P.authFormat req old data).length
  have hnlen : (buildVariable P.authFormat req old data).length =
      getVariableHeaderSize P.authFormat + rest.length := by
    rw [hnext, length_append, hstart]
  have hrestne : rest ≠ [] := by
    rw [hrest]
    simp [Char16Str.bytes]
  have hflash : flash = withFront header rs m [] := by
    rw [h.eq]
    simp [withFront]
  have hvalid : ∀ n, Shows P.authFormat
      (withFront header rs m (setState start varHeaderValidOnly ++ rest.take n)) rs := by
    intro n
    have htake := length_take_le' n rest
    exact shows_validOnly h hstart hm (hrec varHeaderValidOnly (by decide) hsize) (by omega)
  have hbody : (buildVariable P.authFormat req old data).drop
      (getVariableHeaderSize P.authFormat) = rest := by
    rw [hnext, drop_left' hstart]
  have hhead : (buildVariable P.authFormat req old data).take
      (getVariableHeaderSize P.authFormat) = start := by
    rw [hnext, take_left' hstart]
  have hset : setState (setState start varHeaderValidOnly) varAdded = setState start varAdded := by
    simp [setState]
  have hlast : header ++ rs.flatten ++ (setState start varAdded ++ (rest ++
      List.replicate (m - (setState start varHeaderValidOnly ++ rest).length) 0xff)) =
      header ++ rs.flatten ++ (addedRecord P.authFormat req old data ++
        List.replicate (m - (addedRecord P.authFormat req old data).length) 0xff) := by
    rw [addedRecord_length, addedRecord, writtenRecord, recordPad, hnext,
      set_append_left _ _ (by omega), ← hnext, length_append, setState_length, hstart,
      ← hnlen]
    simp only [append_assoc]
    rw [append_cancel_left_eq, append_cancel_left_eq, setState,
      append_cancel_left_eq, append_cancel_left_eq, replicate_append_replicate]
    congr 1
    omega
  have hfull := hvalid rest.length
  rw [take_length, withFront, append_assoc (setState start varHeaderValidOnly)] at hfull
  have hheader := shows_start h hstart hff (by omega) start.length
  rw [take_length] at hheader
  simp only [recordWrites, hbody, hhead]
  rw [hflash]
  refine Chain.behind h (by simp; omega) (fun hnil => ?_)
    (fun n _ => shows_start h hstart hff (by omega) n)
    (Chain.state h (by simp; omega) hheader ?_)
  · rw [hnil, length_nil] at hstart
    omega
  · rw [nil_append, hff, combine_valid, ← hstart, ← @setState_length start varHeaderValidOnly]
    refine Chain.behind h (by simp; omega) hrestne (fun n _ => hvalid n) ?_
    rw [withFront, append_assoc (setState start varHeaderValidOnly)]
    refine Chain.state h (by simp; omega) hfull ?_
    rw [state_setState _ (by omega), combine_added, hset, hlast]
    exact Chain.nil _

end Steps

section Write

variable {P : Platform} {d : Driver} {rs : List Bytes}
variable {req : UpdateRequest} {old : Option Bytes} {data : Bytes} {authFormat : Bool}

theorem NvInv.storeLength_lt (h : NvInv P d rs) : P.storeLength < 2 ^ 32 := by
  obtain ⟨header, junk, tail, hlayout, -⟩ := h.flash
  rw [← h.flash_length, ← hlayout.size_eq]
  exact field_lt _ _ _

theorem addedRecord_isRecord (authFormat : Bool)
    (hsize : (buildVariable authFormat req old data).length < 2 ^ 32) :
    IsRecord authFormat (addedRecord authFormat req old data) :=
  isRecord_writtenRecord _ _ (by decide) hsize (recordPad_length _)

theorem state_addedRecord (authFormat : Bool) :
    state (addedRecord authFormat req old data) = varAdded :=
  state_writtenRecord _ _

theorem recordKey_addedRecord
    (hsize : (buildVariable authFormat req old data).length < 2 ^ 32) :
    recordKey authFormat (addedRecord authFormat req old data) =
      keyOf req.variableName req.vendorGuid :=
  recordKey_writtenRecord _ _ (by decide) hsize

theorem recordValue_addedRecord
    (hsize : (buildVariable authFormat req old data).length < 2 ^ 32) :
    recordValue authFormat (addedRecord authFormat req old data) =
      (req.attributes &&& ~~~efiVariableAppendWrite, data) :=
  recordValue_writtenRecord _ _ (by decide) hsize

theorem liveRecord_addedRecord
    (hsize : (buildVariable authFormat req old data).length < 2 ^ 32)
    (hname : req.variableName.chars ≠ []) (hdata : data ≠ []) :
    LiveRecord authFormat (addedRecord authFormat req old data) where
  hasName := hasName_writtenRecord _ _ (by decide) hsize hname
  data_pos := by
    rw [addedRecord, dataSizeOfVariable_writtenRecord _ _ (by decide) hsize]
    exact length_pos_iff.mpr hdata

theorem copyMem_record
    (req : UpdateRequest) (old : Option Bytes) (data : Bytes)
    {cache header : Bytes} {rsC : List Bytes} {m : Nat}
    (h : Layout authFormat cache header rsC (List.replicate m 0xff))
    (hm : headerAlign (buildVariable authFormat req old data).length ≤ m) :
    copyMem cache (storeHeaderSize + rsC.flatten.length)
        ((buildVariable authFormat req old data).set 2 varAdded) =
      header ++ rsC.flatten ++ (addedRecord authFormat req old data ++
        List.replicate (m - (addedRecord authFormat req old data).length) 0xff) := by
  have hle := le_headerAlign (buildVariable authFormat req old data).length
  have hbase : (header ++ rsC.flatten).length = storeHeaderSize + rsC.flatten.length := by
    simp only [length_append, h.header_length]
  have hover := overlay_erased .rewritable (header ++ rsC.flatten)
    ((buildVariable authFormat req old data).set 2 varAdded)
    (show _ ≤ m by rw [length_set]; omega)
  rw [hbase, append_assoc, ← h.eq] at hover
  rw [addedRecord_length]
  refine hover.trans ?_
  have hrep := replicate_split
    (show headerAlign (buildVariable authFormat req old data).length -
      (buildVariable authFormat req old data).length ≤
        m - (buildVariable authFormat req old data).length by omega)
  have hsub : m - (buildVariable authFormat req old data).length -
      (headerAlign (buildVariable authFormat req old data).length -
        (buildVariable authFormat req old data).length) =
      m - headerAlign (buildVariable authFormat req old data).length := by
    omega
  rw [addedRecord, writtenRecord, recordPad, length_set, hrep, hsub]
  simp only [append_assoc]

/-- The state after a finished record write. -/
theorem NvInv.append (h : NvInv P d rs)
    (herased : Erased d.flash d.nonVolatileLastVariableOffset)
    (hfit : d.nonVolatileLastVariableOffset +
      headerAlign (buildVariable P.authFormat req old data).length ≤ P.storeLength)
    (hname : req.variableName.chars ≠ []) (hdata : data ≠ [])
    {header : Bytes} {m : Nat}
    (hlayout : Layout P.authFormat d.flash header rs (List.replicate m 0xff)) (d' : Driver)
    (hflash : d'.flash = header ++ rs.flatten ++ (addedRecord P.authFormat req old data ++
      List.replicate (m - (addedRecord P.authFormat req old data).length) 0xff))
    (hcache : d'.mNvVariableCache = copyMem d.mNvVariableCache d.nonVolatileLastVariableOffset
      ((buildVariable P.authFormat req old data).set 2 varAdded))
    (hlast : d'.nonVolatileLastVariableOffset = d.nonVolatileLastVariableOffset +
      headerAlign (buildVariable P.authFormat req old data).length) :
    NvInv P d' (rs ++ [addedRecord P.authFormat req old data]) ∧
      Erased d'.flash d'.nonVolatileLastVariableOffset := by
  have hlt := h.storeLength_lt
  have hle := le_headerAlign (buildVariable P.authFormat req old data).length
  have hsize : (buildVariable P.authFormat req old data).length < 2 ^ 32 := by omega
  have hlen := hlayout.length_eq
  rw [h.flash_length, length_replicate] at hlen
  have hrec := addedRecord_isRecord P.authFormat hsize
  have hreclen := addedRecord_length req old data P.authFormat
  have hflat : (rs ++ [addedRecord P.authFormat req old data]).flatten.length =
      rs.flatten.length + headerAlign (buildVariable P.authFormat req old data).length := by
    rw [flatten_append, length_append, flatten_singleton, hreclen]
  have hnew := layout_record hlayout hrec (by rw [hreclen, h.last] at *; omega)
  rw [← hflash] at hnew
  have hcerased := h.erased herased
  obtain ⟨rsC, hshowC, hmirror⟩ := h.cache
  have hlastC : d.nonVolatileLastVariableOffset = storeHeaderSize + rsC.flatten.length := by
    rw [flatten_length_mirror hmirror, h.last]
  rw [hlastC] at hcerased
  obtain ⟨headerC', mC, hlayC⟩ := hshowC.erased hcerased
  have hlenC := hlayC.length_eq
  rw [h.cache_length, length_replicate] at hlenC
  have hcopy := copyMem_record req old data hlayC (by omega)
  rw [← hlastC, ← hcache] at hcopy
  have hnewC := layout_record hlayC hrec (by rw [hreclen]; omega)
  rw [← hcopy] at hnewC
  have herasedOf : ∀ {img hdr : Bytes} {xs : List Bytes} {k : Nat},
      Layout P.authFormat img hdr xs (List.replicate k 0xff) →
      Erased img (storeHeaderSize + xs.flatten.length) := by
    intro img hdr xs k hl b hb
    rw [hl.eq, ← hl.header_length, ← drop_drop, drop_left, drop_left] at hb
    exact (mem_replicate.mp hb).2
  have hlast' : d'.nonVolatileLastVariableOffset = storeHeaderSize +
      (rs ++ [addedRecord P.authFormat req old data]).flatten.length := by
    rw [hlast, hflat, h.last]
    omega
  refine ⟨⟨hnew.shows, ⟨_, hnewC.shows, ?_⟩, ?_, hlast', ?_, ?_, ?_⟩, ?_⟩
  · exact rel_append hmirror (List.Forall₂.cons (Mirrors.refl _) List.Forall₂.nil)
  · intro r hr hlive
    rcases mem_append.mp hr with hr | hr
    · exact h.wellFormed r hr hlive
    · rw [mem_singleton.mp hr]
      exact liveRecord_addedRecord hsize hname hdata
  · intro _
    have hflatC : (rsC ++ [addedRecord P.authFormat req old data]).flatten.length =
        (rs ++ [addedRecord P.authFormat req old data]).flatten.length := by
      simp only [flatten_append, length_append, flatten_length_mirror hmirror]
    rw [hlast', ← hflatC]
    exact herasedOf hnewC
  · rw [hnew.length_eq, hflat, hreclen, length_replicate]
    rw [h.last] at hfit
    omega
  · rw [hcache, copyMem_length, h.cache_length]
  · rw [hlast']
    exact herasedOf hnew

theorem recordWrites_room (P : Platform) (offset : Nat)
    (hend : P.headerLength + offset + (buildVariable P.authFormat req old data).length <
      P.fvLength) :
    ∀ w ∈ recordWrites P offset (buildVariable P.authFormat req old data),
      w.2 ≠ [] ∧ P.headerLength + w.1 + w.2.length < P.fvLength := by
  have h32 := headerSize_le P.authFormat
  have hlen : (buildVariable P.authFormat req old data).length =
      getVariableHeaderSize P.authFormat + req.variableName.strSize + data.length :=
    buildVariable_length ..
  have hname := req.variableName.strSize_eq
  intro w hw
  simp only [recordWrites, mem_cons, not_mem_nil, or_false] at hw
  rcases hw with rfl | rfl | rfl | rfl
  · simp only [← length_pos_iff, length_take]
    omega
  · simp only [← length_pos_iff, length_singleton]
    omega
  · simp only [← length_pos_iff, length_drop]
    omega
  · simp only [← length_pos_iff, length_singleton]
    omega

/-- **Writing a record on an erased area.** -/
theorem NvInv.writeRecord (h : NvInv P d rs)
    (herased : Erased d.flash d.nonVolatileLastVariableOffset)
    (hfit : d.nonVolatileLastVariableOffset +
      headerAlign (buildVariable P.authFormat req old data).length ≤ P.storeLength)
    (hname : req.variableName.chars ≠ []) (hdata : data ≠ []) (hwErr user : Bool) :
    ∃ status d', writeRecord P d (buildVariable P.authFormat req old data) hwErr user =
        (status, d') ∧ SameEnv d d' ∧
      ((status ≠ .success ∧ NvInv P d' rs ∧ SameCounters d d' ∧
          d'.mNvVariableCache = d.mNvVariableCache ∧
          NewImages d d' (fun img => Shows P.authFormat img rs) ∧
          (d.faults.fvb = [] → P.headerLength + d.nonVolatileLastVariableOffset +
            (buildVariable P.authFormat req old data).length < P.fvLength →
            d'.flash = d.flash)) ∨
        (status = .success ∧ NvInv P d' (rs ++ [addedRecord P.authFormat req old data]) ∧
          Erased d'.flash d'.nonVolatileLastVariableOffset ∧
          d'.nonVolatileLastVariableOffset = d.nonVolatileLastVariableOffset +
            headerAlign (buildVariable P.authFormat req old data).length ∧
          d'.totals = totalsWith d
            (headerAlign (buildVariable P.authFormat req old data).length) hwErr user ∧
          NewImages d d' (fun img => Shows P.authFormat img rs ∨
            Shows P.authFormat img (rs ++ [addedRecord P.authFormat req old data])))) := by
  have hlt := h.storeLength_lt
  have hle := le_headerAlign (buildVariable P.authFormat req old data).length
  have herased' := herased
  rw [h.last] at herased'
  obtain ⟨header, m, hlayout⟩ := h.flash.erased herased'
  have hlen := hlayout.length_eq
  rw [h.flash_length, length_replicate] at hlen
  have hlast := h.last
  have hchain := chain_recordWrites req old data hlayout (by omega)
    (by omega)
  rw [← h.last] at hchain
  obtain ⟨status, flash, fvb, history, hseq, hfvb, hflen, new, hnew, hres⟩ :=
    writeSequence_chain P hchain
  rw [Variable.writeRecord, hseq]
  rcases hres with ⟨herr, hshow, hhist⟩ | ⟨rfl, hflash, hhist⟩
  · refine ⟨status, d.programmed flash fvb history, ?_, ?_,
      Or.inl ⟨herr, ?_, ⟨rfl, rfl⟩, rfl, ⟨new, hnew, hhist⟩, ?_⟩⟩
    · simp only [isError_eq_true.mpr herr, if_true]
    · exact ⟨rfl, rfl, rfl, rfl, rfl, rfl, rfl, hfvb, id, rfl⟩
    · exact ⟨hshow, h.cache, h.wellFormed, h.last, fun _ => h.erased herased,
        hflen.trans h.flash_length, h.cache_length⟩
    · intro hnone hend
      have hrefused := writeSequence_refused P hnone (recordWrites_room P _ hend)
        (by rw [hseq]; exact herr)
      rw [hseq] at hrefused
      exact congrArg Driver.flash hrefused
  · simp only [EfiStatus.isError, bne_self_eq_false, Bool.false_eq_true, if_false]
    have happ := h.append herased hfit hname hdata hlayout { (d.programmed flash fvb history).setTotals
        (totalsWith (d.programmed flash fvb history)
          (headerAlign (buildVariable P.authFormat req old data).length) hwErr user) with
        nonVolatileLastVariableOffset := d.nonVolatileLastVariableOffset +
          headerAlign (buildVariable P.authFormat req old data).length
        mNvVariableCache := copyMem d.mNvVariableCache d.nonVolatileLastVariableOffset
          ((buildVariable P.authFormat req old data).set 2 varAdded) }
      hflash rfl rfl
    refine ⟨.success, _, rfl, ?_, Or.inr ⟨rfl, happ.1, happ.2, rfl, rfl, ?_⟩⟩
    · exact ⟨rfl, rfl, rfl, rfl, rfl, rfl, rfl, hfvb, id, rfl⟩
    · refine ⟨new, hnew, ?_⟩
      intro img himg
      rcases hhist img himg with hq | himg'
      · exact Or.inl hq
      · rw [himg', ← hflash]
        exact Or.inr happ.1.flash

end Write

end Variable
end Udk
