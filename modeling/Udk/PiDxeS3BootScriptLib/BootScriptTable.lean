import Udk.PiDxeS3BootScriptLib.BootScriptReplay

/-!
# The table of a boot script

What a call does to the table: it appends the record of the call, within the pages of the table.
-/

namespace Udk
namespace BootScript

open List

section Entries

/-- The opcode, the fields and the data of the record of a call. -/
def Call.entry : Call → Nat × Bytes × Bytes
  | .ioWrite width address count buffer =>
      (ioWriteOpcode, toLE 4 width.code ++ toLE 4 count.toNat ++ toLE 8 address.toNat,
        writeData width count buffer)
  | .ioReadWrite width address data dataMask =>
      (ioReadWriteOpcode, toLE 4 width.code ++ toLE 8 address.toNat,
        maskedData width data dataMask)
  | .memWrite width address count buffer =>
      (memWriteOpcode, toLE 4 width.code ++ toLE 4 count.toNat ++ toLE 8 address.toNat,
        writeData width count buffer)
  | .memReadWrite width address data dataMask =>
      (memReadWriteOpcode, toLE 4 width.code ++ toLE 8 address.toNat,
        maskedData width data dataMask)
  | .pciCfgWrite width address count buffer =>
      (pciConfigWriteOpcode, toLE 4 width.code ++ toLE 4 count.toNat ++ toLE 8 address.toNat,
        writeData width count buffer)
  | .pciCfgReadWrite width address data dataMask =>
      (pciConfigReadWriteOpcode, toLE 4 width.code ++ toLE 8 address.toNat,
        maskedData width data dataMask)
  | .pciCfg2Write width segment address count buffer =>
      (pciConfig2WriteOpcode,
        toLE 4 width.code ++ toLE 4 count.toNat ++ toLE 8 address.toNat ++ toLE 2 segment.toNat,
        writeData width count buffer)
  | .pciCfg2ReadWrite width segment address data dataMask =>
      (pciConfig2ReadWriteOpcode,
        toLE 4 width.code ++ toLE 8 address.toNat ++ toLE 2 segment.toNat,
        maskedData width data dataMask)
  | .smbusExecute smBusAddress operation length buffer =>
      (smbusExecuteOpcode,
        toLE 8 smBusAddress.toNat ++ toLE 4 operation.toNat ++
          toLE 4 (smbusLength smBusAddress operation length buffer),
        peek (buffer.getD fun _ => 0) 0 (smbusLength smBusAddress operation length buffer))
  | .stall duration => (stallOpcode, toLE 8 duration.toNat, [])
  | .dispatch2 entryPoint context =>
      (dispatch2Opcode, toLE 8 entryPoint.toNat ++ toLE 8 context.toNat, [])
  | .memPoll width address bitMask bitValue duration loopTimes =>
      (memPollOpcode,
        toLE 4 width.code ++ toLE 8 address.toNat ++ toLE 8 duration.toNat ++
          toLE 8 loopTimes.toNat,
        maskedData width bitValue bitMask)
  | .information informationLength data =>
      (informationOpcode, toLE 4 informationLength.toNat,
        peek data 0 informationLength.toNat)
  | .dispatch entryPoint => (dispatchOpcode, toLE 8 entryPoint.toNat, [])
  | .ioPoll width address data dataMask delay =>
      (ioPollOpcode, toLE 4 width.code ++ toLE 8 address.toNat ++ toLE 8 delay.toNat,
        maskedData width data dataMask)
  | .pciPoll width address data dataMask delay =>
      (pciConfigPollOpcode, toLE 4 width.code ++ toLE 8 address.toNat ++ toLE 8 delay.toNat,
        maskedData width data dataMask)
  | .pci2Poll width segment address data dataMask delay =>
      (pciConfig2PollOpcode,
        toLE 4 width.code ++ toLE 8 address.toNat ++ toLE 2 segment.toNat ++ toLE 8 delay.toNat,
        maskedData width data dataMask)

variable {plat : Platform} {st : State} {call : Call} {width : LibWidth}

/-- A call checks its arguments and saves its record. -/
theorem save_eq :
    save plat st call =
      if call.verdict = .success then
        saveRecord plat st call.entry.1 call.entry.2.1 call.entry.2.2
      else
        (call.verdict, st) := by
  cases call with
  | smbusExecute smBusAddress operation length buffer =>
      split_ifs with hverdict
      · have hcheck : checkParameters smBusAddress.toNat operation.toNat
            ((length.map UInt64.toNat).getD 0) buffer =
            (.success, smbusLength smBusAddress operation length buffer) := Prod.ext hverdict rfl
        simp only [save, s3BootScriptSaveSmbusExecute, hcheck]
        rfl
      · simp only [save, s3BootScriptSaveSmbusExecute]
        split
        next bufferLength hcheck => exact absurd (congrArg Prod.fst hcheck) hverdict
        next status bufferLength hfail hcheck =>
          exact congrArg (·, st) (congrArg Prod.fst hcheck).symm
  | pciCfgWrite width address count buffer =>
      by_cases h : is64Bit width <;>
        simp [save, s3BootScriptSavePciCfgWrite, Call.verdict, Call.entry, h]
  | pciCfgReadWrite width address data dataMask =>
      by_cases h : is64Bit width <;>
        simp [save, s3BootScriptSavePciCfgReadWrite, Call.verdict, Call.entry, h]
  | pciPoll width address data dataMask delay =>
      by_cases h : is64Bit width <;>
        simp [save, s3BootScriptSavePciPoll, Call.verdict, Call.entry, h]
  | pciCfg2Write width segment address count buffer =>
      by_cases h : segment ≠ 0 ∨ is64Bit width <;>
        simp only [save, s3BootScriptSavePciCfg2Write, Call.verdict, Call.entry, h, if_true,
          if_false] <;> rfl
  | pciCfg2ReadWrite width segment address data dataMask =>
      by_cases h : segment ≠ 0 ∨ is64Bit width <;>
        simp only [save, s3BootScriptSavePciCfg2ReadWrite, Call.verdict, Call.entry, h, if_true,
          if_false] <;> rfl
  | pci2Poll width segment address data dataMask delay =>
      by_cases h : segment ≠ 0 ∨ is64Bit width <;>
        simp only [save, s3BootScriptSavePci2Poll, Call.verdict, Call.entry, h, if_true,
          if_false] <;> rfl
  | _ => rfl

/-- The record of a call. -/
def Call.record (call : Call) : Bytes :=
  toLE 2 call.entry.1 ++ toLE 1 call.size ++ call.entry.2.1 ++ call.entry.2.2

theorem size_pos : 0 < width.size := by
  cases width <;> decide

theorem length_writeData {count : UInt64} {buffer : Memory}
    (hshort : width.size * count.toNat < 256) :
    (writeData width count buffer).length = width.size * count.toNat := by
  rw [writeData, length_peek, ← LibWidth.size, Nat.mod_eq_of_lt (by omega)]

theorem length_maskedData {data dataMask : Memory} :
    (maskedData width data dataMask).length = width.size * 2 := by
  rw [maskedData, length_append, length_peek, length_peek, LibWidth.size]
  omega

theorem length_entry
    (hshort : call.size < 256) :
    3 + call.entry.2.1.length + call.entry.2.2.length = call.size := by
  cases call with
  | ioWrite width address count buffer | memWrite width address count buffer
  | pciCfgWrite width address count buffer | pciCfg2Write width segment address count buffer =>
      simp only [Call.size] at hshort
      simp only [Call.entry, Call.size, length_append, toLE_length,
        length_writeData (show width.size * count.toNat < 256 by omega)]
  | smbusExecute smBusAddress operation length buffer
  | information informationLength information =>
      simp only [Call.entry, Call.size, length_append, toLE_length, length_peek]
  | stall duration | dispatch entryPoint | dispatch2 entryPoint context =>
      simp only [Call.entry, Call.size, length_append, toLE_length, length_nil]
  | _ =>
      simp only [Call.entry, Call.size, length_append, toLE_length, length_maskedData]

theorem length_record
    (hshort : call.size < 256) :
    call.record.length = call.size := by
  have h := length_entry hshort
  simp only [Call.record, length_append, toLE_length]
  omega

theorem size_ge : 7 ≤ call.size := by
  cases call <;> simp only [Call.size] <;> omega

end Entries

section Table

variable {plat : Platform} {st : State} {call : Call} {records : List Bytes}

/-- A table with some records: the pages are counted, and the records lie behind the header. -/
structure TableOk (plat : Platform) (st : State) (records : List Bytes) : Prop where
  base_pos : 0 < st.tableBase
  pages_eq : ∃ boot, st.pages = boot + plat.reserve ∧ boot ≤ 65534 ∧ 2 ∣ boot ∧
    st.tableMemoryPageNumber = st.pages % 2 ^ 16 ∧
    st.tableLength + sizeofTerminate ≤ boot * 4096
  length_eq : st.tableLength = sizeofTableHeader + records.flatten.length
  header : peek st.memory st.tableBase 9 = tableHeader 0
  content : peek st.memory (st.tableBase + sizeofTableHeader) records.flatten.length =
    records.flatten

/-- There is no table, or one with some records. -/
def Holds (plat : Platform) (st : State) (records : List Bytes) : Prop :=
  st.tableBase = 0 ∧ records = [] ∨ TableOk plat st records

theorem bootTimePages_eq {boot : Nat}
    (hpages : st.pages = boot + plat.reserve)
    (hboot : boot ≤ 65534)
    (hnumber : st.tableMemoryPageNumber = st.pages % 2 ^ 16) :
    bootTimePages plat st = boot := by
  have hreserve := plat.reserve_lt
  rw [bootTimePages, hnumber, hpages]
  omega

theorem tableOk_allocate : TableOk plat (allocateTable plat st) [] where
  base_pos := plat.place_pos _
  pages_eq := by
    refine ⟨2, rfl, by decide, by decide, rfl, ?_⟩
    change sizeofTableHeader + sizeofTerminate ≤ 2 * 4096
    decide
  length_eq := rfl
  header := (@written_storeBytes st.memory (plat.place st.allocations) (tableHeader 0)).content
  content := rfl

/-- The table with more pages. -/
theorem TableOk.reallocate {boot : Nat}
    (hok : TableOk plat st records)
    (hpages : st.pages = boot + plat.reserve)
    (hboot : boot + 2 ≤ 65534)
    (heven : 2 ∣ boot)
    (hnumber : st.tableMemoryPageNumber = st.pages % 2 ^ 16)
    (hroom : st.tableLength + sizeofTerminate ≤ boot * 4096) :
    TableOk plat (reallocateTable plat st) records := by
  have hsame := bootTimePages_eq hpages (by omega) hnumber
  have hlength := hok.length_eq
  have hwritten := @written_storeBytes st.memory (plat.place st.allocations)
    (peek st.memory st.tableBase st.tableLength)
  have hcopy := hwritten.content
  rw [length_peek] at hcopy
  constructor
  case base_pos => exact plat.place_pos _
  case pages_eq =>
    refine ⟨boot + 2, ?_, hboot, by omega, ?_, ?_⟩
    · change 2 + bootTimePages plat st + plat.reserve = boot + 2 + plat.reserve
      rw [hsame, Nat.add_comm 2]
    · rfl
    · change st.tableLength + sizeofTerminate ≤ (boot + 2) * 4096
      exact hroom.trans (Nat.mul_le_mul_right _ (by omega))
  case length_eq => exact hlength
  case header =>
    have htake := congrArg (List.take 9) hcopy
    rw [take_peek (by rw [hlength, sizeofTableHeader]; omega),
      take_peek (by rw [hlength, sizeofTableHeader]; omega), hok.header] at htake
    exact htake
  case content =>
    have hdrop := congrArg (List.drop sizeofTableHeader) hcopy
    have hrest : st.tableLength - sizeofTableHeader = records.flatten.length := by
      rw [hlength, Nat.add_sub_cancel_left]
    rw [drop_peek (by omega), drop_peek (by omega), hrest, hok.content] at hdrop
    exact hdrop

/-- A table with the same records and room for one more. -/
structure Roomy (plat : Platform) (st st' : State) (records : List Bytes) (length : Nat) :
    Prop where
  table : TableOk plat st' records
  length_eq : st'.tableLength = st.recordsEnd
  room : ∃ boot, st'.pages = boot + plat.reserve ∧ boot ≤ 65534 ∧ 2 ∣ boot ∧
    st'.tableMemoryPageNumber = st'.pages % 2 ^ 16 ∧
    st'.tableLength + length + sizeofTerminate ≤ boot * 4096
  frame : ∀ a, a < st'.tableBase ∨ st'.tableBase + st'.pages * 4096 ≤ a →
    st'.memory a = st.memory a

theorem length_tableHeader {n : Nat} : (tableHeader n).length = 9 := by
  simp [tableHeader]

theorem frame_allocate {a : Nat}
    (hout : a < (allocateTable plat st).tableBase ∨
      (allocateTable plat st).tableBase + (allocateTable plat st).pages * 4096 ≤ a) :
    (allocateTable plat st).memory a = st.memory a := by
  refine (@written_storeBytes st.memory (plat.place st.allocations) (tableHeader 0)).frame a ?_
  rw [length_tableHeader]
  change a < plat.place st.allocations ∨
    plat.place st.allocations + (2 + plat.reserve) * 4096 ≤ a at hout
  omega

theorem frame_reallocate {boot a : Nat}
    (hsame : bootTimePages plat st = boot)
    (hroom : st.tableLength ≤ boot * 4096)
    (hout : a < (reallocateTable plat st).tableBase ∨
      (reallocateTable plat st).tableBase + (reallocateTable plat st).pages * 4096 ≤ a) :
    (reallocateTable plat st).memory a = st.memory a := by
  refine (@written_storeBytes st.memory (plat.place st.allocations)
    (peek st.memory st.tableBase st.tableLength)).frame a ?_
  rw [length_peek]
  change a < plat.place st.allocations ∨
    plat.place st.allocations + (2 + bootTimePages plat st + plat.reserve) * 4096 ≤ a at hout
  rw [hsame] at hout
  omega

/-- Where an entry goes. -/
theorem getBootTimeEntryAddAddress_eq {length : Nat}
    (hholds : Holds plat st records)
    (hlength : length < 256)
    (hroom : st.recordsEnd + length + sizeofTerminate ≤ 65534 * 4096) :
    ∃ st', Roomy plat st st' records length ∧
      s3BootScriptGetBootTimeEntryAddAddress plat st length =
        (st'.tableBase + st'.tableLength,
          { st' with tableLength := st'.tableLength + length }) := by
  rcases hholds with ⟨hzero, rfl⟩ | hok
  · -- the first table has room for every entry
    have hallocated := @tableOk_allocate plat st
    obtain ⟨boot, _, _, _, hnumber, -⟩ := hallocated.pages_eq
    have hpages' : (allocateTable plat st).pages = 2 + plat.reserve := rfl
    have hsame : bootTimePages plat (allocateTable plat st) = 2 :=
      bootTimePages_eq hpages' (by decide) hnumber
    have hlength' : (allocateTable plat st).tableLength = sizeofTableHeader := rfl
    have hwhole : (sizeofTableHeader + length) % 2 ^ 32 = sizeofTableHeader + length :=
      Nat.mod_eq_of_lt (by rw [sizeofTableHeader]; omega)
    have hfits : sizeofTableHeader + length + sizeofTerminate ≤ 2 * 4096 := by
      rw [sizeofTableHeader, sizeofTerminate]
      omega
    refine ⟨allocateTable plat st, ?_, ?_⟩
    · refine ⟨hallocated, ?_, ⟨2, hpages', by decide, by decide, hnumber, hfits⟩,
        fun a hout => frame_allocate hout⟩
      rw [State.recordsEnd, if_pos hzero, hlength']
    · simp only [s3BootScriptGetBootTimeEntryAddAddress, if_pos hzero, hsame, hlength', hwhole,
        if_neg (Nat.not_lt.mpr hfits)]
  · have hne : st.tableBase ≠ 0 := Nat.ne_of_gt hok.base_pos
    rw [State.recordsEnd, if_neg hne] at hroom
    obtain ⟨boot, hpages, hboot, heven, hnumber, hfits⟩ := hok.pages_eq
    have hsame := bootTimePages_eq hpages hboot hnumber
    have hwhole : (st.tableLength + length) % 2 ^ 32 = st.tableLength + length :=
      Nat.mod_eq_of_lt (by omega)
    by_cases hgrow : boot * 4096 < st.tableLength + length + sizeofTerminate
    · have hlast : boot + 2 ≤ 65534 := by omega
      refine ⟨reallocateTable plat st, ?_, ?_⟩
      · constructor
        case table => exact hok.reallocate hpages hlast heven hnumber hfits
        case length_eq =>
          rw [State.recordsEnd, if_neg hne]
          rfl
        case room =>
          refine ⟨boot + 2, ?_, hlast, by omega, rfl, ?_⟩
          · change 2 + bootTimePages plat st + plat.reserve = boot + 2 + plat.reserve
            rw [hsame, Nat.add_comm 2]
          · change st.tableLength + length + sizeofTerminate ≤ (boot + 2) * 4096
            rw [sizeofTerminate] at hfits ⊢
            omega
        case frame =>
          intro a hout
          refine frame_reallocate hsame (Nat.le_of_add_right_le hfits) ?_
          exact hout
      · simp only [s3BootScriptGetBootTimeEntryAddAddress, if_neg hne, hsame, hwhole, if_pos hgrow]
        rfl
    · refine ⟨st, ?_, ?_⟩
      · refine ⟨hok, ?_, ⟨boot, hpages, hboot, heven, hnumber, Nat.not_lt.mp hgrow⟩, fun a _ => rfl⟩
        rw [State.recordsEnd, if_neg hne]
      · simp only [s3BootScriptGetBootTimeEntryAddAddress, if_neg hne, hsame, hwhole,
          if_neg hgrow]

theorem Roomy.store {st' : State} {record : Bytes}
    (hroomy : Roomy plat st st' records record.length) :
    TableOk plat
      { st' with
        memory := storeBytes st'.memory (st'.tableBase + st'.tableLength) record
        tableLength := st'.tableLength + record.length }
      (records ++ [record]) := by
  obtain ⟨boot, hpages, hboot, heven, hnumber, hfits⟩ := hroomy.room
  have hwritten := @written_storeBytes st'.memory (st'.tableBase + st'.tableLength) record
  have hlength := hroomy.table.length_eq
  have hflat : (records ++ [record]).flatten = records.flatten ++ record := by
    rw [flatten_append, flatten_singleton]
  have hkept : ∀ addr len, addr + len ≤ st'.tableBase + st'.tableLength →
      peek (storeBytes st'.memory (st'.tableBase + st'.tableLength) record) addr len =
        peek st'.memory addr len :=
    fun addr len hle => hwritten.peek_apart fun k hk => Or.inl (by omega)
  constructor
  case base_pos => exact hroomy.table.base_pos
  case pages_eq => exact ⟨boot, hpages, hboot, heven, hnumber, hfits⟩
  case length_eq =>
    rw [hflat, length_append, ← Nat.add_assoc, ← hlength]
  case header =>
    rw [← hroomy.table.header]
    exact hkept st'.tableBase 9 (by rw [hlength, sizeofTableHeader]; omega)
  case content =>
    rw [hflat, length_append, peek_add]
    congr 1
    · exact (hkept (st'.tableBase + sizeofTableHeader) records.flatten.length
        (by rw [hlength, Nat.add_assoc])).trans hroomy.table.content
    · change peek (storeBytes st'.memory (st'.tableBase + st'.tableLength) record)
        (st'.tableBase + sizeofTableHeader + records.flatten.length) record.length = record
      rw [Nat.add_assoc, ← hlength]
      exact hwritten.content

theorem TableOk.records_eq
    (hok : TableOk plat st records) :
    st.records = records.flatten := by
  rw [State.records, if_neg (Nat.ne_of_gt hok.base_pos), hok.length_eq, Nat.add_sub_cancel_left,
    hok.content]

theorem Holds.records_eq
    (hholds : Holds plat st records) :
    st.records = records.flatten := by
  rcases hholds with ⟨hzero, rfl⟩ | hok
  · rw [State.records, if_pos hzero, flatten_nil]
  · exact hok.records_eq

/-- A call that the format can hold appends its record. -/
theorem save_appends
    (hholds : Holds plat st records)
    (hsound : Sound st call)
    (hverdict : call.verdict = .success) :
    (save plat st call).1 = .success ∧
      TableOk plat (save plat st call).2 (records ++ [call.record]) ∧
      (save plat st call).2.recordsEnd = st.recordsEnd + call.record.length ∧
      ∀ a, a < (save plat st call).2.tableBase ∨
          (save plat st call).2.tableBase + (save plat st call).2.pages * 4096 ≤ a →
        (save plat st call).2.memory a = st.memory a := by
  have hlength := length_entry hsound.short
  have hrecord := length_record hsound.short
  have hsize : (3 + call.entry.2.1.length + call.entry.2.2.length) % 256 = call.size := by
    rw [hlength, Nat.mod_eq_of_lt hsound.short]
  obtain ⟨st', hroomy, hplace⟩ :=
    getBootTimeEntryAddAddress_eq hholds hsound.short hsound.room
  have hsave : save plat st call = (.success,
      { st' with
        memory := storeBytes st'.memory (st'.tableBase + st'.tableLength) call.record
        tableLength := st'.tableLength + call.record.length }) := by
    rw [save_eq, if_pos hverdict, saveRecord]
    simp only [hsize, hplace, hrecord]
    rfl
  rw [← hrecord] at hroomy
  have hok := hroomy.store
  rw [hsave]
  refine ⟨rfl, hok, ?_, ?_⟩
  · rw [State.recordsEnd, if_neg (Nat.ne_of_gt hok.base_pos), ← hroomy.length_eq]
  · intro a hout
    obtain ⟨boot, hpages, -, -, -, hfits⟩ := hroomy.room
    rw [← hroomy.frame a hout]
    refine (@written_storeBytes st'.memory (st'.tableBase + st'.tableLength)
      call.record).frame a ?_
    simp only at hout
    omega

end Table

end BootScript
end Udk
