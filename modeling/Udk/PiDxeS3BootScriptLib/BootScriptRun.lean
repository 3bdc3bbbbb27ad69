import Udk.PiDxeS3BootScriptLib.BootScriptDecode

/-!
# Runs of a boot script

Calls that the format can hold are appended one after the other, and the closed table replays the
ones that returned success.
-/

namespace Udk
namespace BootScript

open List

universe u

section Closed

variable {plat : Platform} {st : State} {records : List Bytes}

/-- A closed table. -/
structure Closed (st : State) (records : List Bytes) : Prop where
  base_ne : st.tableBase ≠ 0
  length_eq : st.tableLength = sizeofTableHeader + records.flatten.length
  opcode : fieldAt st.memory st.tableBase 0 2 = tableOpcode
  headerLength : fieldAt st.memory st.tableBase 2 1 = sizeofTableHeader
  tableLength : fieldAt st.memory st.tableBase 5 4 = st.tableLength + sizeofTerminate
  content : peek st.memory (st.tableBase + sizeofTableHeader) records.flatten.length =
    records.flatten
  terminate : fieldAt st.memory (st.tableBase + st.tableLength) 0 2 = terminateOpcode

/-- The table is closed behind its last record. -/
theorem TableOk.closed
    (hok : TableOk plat st records) :
    Closed (s3BootScriptInternalCloseTable st) records := by
  have hne : st.tableBase ≠ 0 := Nat.ne_of_gt hok.base_pos
  have hlength := hok.length_eq
  obtain ⟨boot, -, hboot, -, -, hroom⟩ := hok.pages_eq
  have hend := @written_storeBytes st.memory (st.tableBase + st.tableLength)
    (toLE 2 terminateOpcode ++ toLE 1 sizeofTerminate)
  generalize hmem₁ : storeBytes st.memory (st.tableBase + st.tableLength)
    (toLE 2 terminateOpcode ++ toLE 1 sizeofTerminate) = mem₁ at hend
  have hfield := @written_storeBytes mem₁ (st.tableBase + 5)
    (toLE 4 (st.tableLength + sizeofTerminate))
  generalize hmem₂ : storeBytes mem₁ (st.tableBase + 5)
    (toLE 4 (st.tableLength + sizeofTerminate)) = mem₂ at hfield
  have hclose : s3BootScriptInternalCloseTable st = { st with memory := mem₂ } := by
    rw [s3BootScriptInternalCloseTable, if_neg hne]
    simp only [hmem₁, hmem₂]
  have hlen₁ : (toLE 2 terminateOpcode ++ toLE 1 sizeofTerminate).length = 3 := rfl
  have hlen₂ : (toLE 4 (st.tableLength + sizeofTerminate)).length = 4 := toLE_length _ _
  rw [sizeofTableHeader] at hlength
  -- what neither write touches
  have hkept : ∀ addr len, (addr + len ≤ st.tableBase + 5 ∨
      st.tableBase + 9 ≤ addr ∧ addr + len ≤ st.tableBase + st.tableLength) →
      peek mem₂ addr len = peek st.memory addr len := by
    intro addr len hout
    rw [hfield.peek_apart fun k hk => by rw [hlen₂]; omega,
      hend.peek_apart fun k hk => Or.inl (by omega)]
  have hheader : peek mem₂ st.tableBase 5 = (tableHeader 0).take 5 := by
    rw [hkept st.tableBase 5 (by omega), ← hok.header, take_peek (by decide)]
  rw [hclose]
  constructor
  case base_ne => exact hne
  case length_eq => exact hok.length_eq
  case opcode | headerLength =>
    rw [fieldAt_eq hheader (by decide)]
    decide
  case tableLength =>
    have h := hfield.content
    rw [hlen₂] at h
    rw [fieldAt, h, ofLE_toLE, Nat.mod_eq_of_lt]
    omega
  case content =>
    exact (hkept (st.tableBase + sizeofTableHeader) records.flatten.length
      (by rw [sizeofTableHeader]; omega)).trans hok.content
  case terminate =>
    have h := hend.content
    rw [hlen₁] at h
    have hterm : peek mem₂ (st.tableBase + st.tableLength) 3 =
        toLE 2 terminateOpcode ++ toLE 1 sizeofTerminate := by
      rw [hfield.peek_apart fun k hk => by rw [hlen₂]; omega, h]
    rw [fieldAt_eq hterm (by decide)]
    decide

end Closed

section Loop

variable {σ : Type u} {m : Machine σ} {st : State} {s : σ} {keeps keeps' : σ → Prop}
variable {call : Call} {calls : List Call}

/-- The machine has the closed table in its memory. -/
def Loaded (m : Machine σ) (st : State) (s : σ) : Prop :=
  ∀ k, k < st.tableLength + sizeofTerminate →
    m.memory s (st.tableBase + k) = st.memory (st.tableBase + k)

theorem Loaded.peek_eq {off len : Nat}
    (hloaded : Loaded m st s)
    (hle : off + len ≤ st.tableLength + sizeofTerminate) :
    peek (m.memory s) (st.tableBase + off) len = peek st.memory (st.tableBase + off) len := by
  refine peek_congr fun k hk => ?_
  rw [Nat.add_assoc]
  exact hloaded (off + k) (by omega)

theorem Loaded.fieldAt_eq {base off w : Nat}
    (hloaded : Loaded m st s)
    (hle : base + off + w ≤ st.tableLength + sizeofTerminate) :
    fieldAt (m.memory s) (st.tableBase + base) off w =
      fieldAt st.memory (st.tableBase + base) off w := by
  rw [fieldAt, fieldAt, Nat.add_assoc, hloaded.peek_eq (by omega)]

theorem Quiet.after
    (hquiet : Quiet m keeps s call)
    (hkeeps : keeps s) :
    keeps (perform m s call).2 := by
  have hwrite : ∀ {space width address count buffer},
      QuietWrite m keeps space width address count buffer s →
      keeps (performWrite m space width address count buffer s).2 := by
    intro space width address count buffer h
    rw [performWrite]
    rcases htarget : target space width address with - | a
    · exact hkeeps
    · exact h a htarget count (Nat.le_refl _)
  cases call with
  | ioWrite | memWrite | pciCfgWrite | pciCfg2Write => exact hwrite hquiet
  | _ => exact hquiet

theorem Quiet.mono
    (hquiet : Quiet m keeps s call)
    (himp : ∀ s, keeps s → keeps' s) :
    Quiet m keeps' s call := by
  cases call with
  | ioWrite | memWrite | pciCfgWrite | pciCfg2Write =>
      exact fun a htarget i hi => himp _ (hquiet a htarget i hi)
  | _ => exact himp _ hquiet

/-- A call whose record is executed as the call. -/
structure Decodable (call : Call) : Prop where
  short : call.size < 256
  verdict : call.verdict = .success
  masks : ∀ width, call.maskWidth = some width → ¬ width.isFifo ∧ ¬ width.isFill

/-- The loop from the records of some calls on. -/
theorem executeLoop_records {records : List Bytes} {off fuel : Nat} {status : EfiStatus}
    {masks : Nat × Nat}
    (hclosed : Closed st records)
    (hcalls : ∀ call ∈ calls, Decodable call)
    (hoff : off + (calls.map Call.record).flatten.length = st.tableLength)
    (hrest : peek st.memory (st.tableBase + off) (calls.map Call.record).flatten.length =
      (calls.map Call.record).flatten)
    (hfuel : calls.length < fuel)
    (hloaded : Loaded m st s)
    (hundisturbed : Undisturbed m (Loaded m st) calls s) :
    executeLoop m (st.tableBase + (st.tableLength + sizeofTerminate)) fuel (st.tableBase + off)
        status masks s =
      some (replay m calls s) := by
  induction calls generalizing off fuel status masks s with
  | nil =>
      rcases fuel with - | fuel
      · omega
      rw [map_nil, flatten_nil, length_nil, Nat.add_zero] at hoff
      subst hoff
      have hopcode : fieldAt (m.memory s) (st.tableBase + st.tableLength) 0 2 =
          terminateOpcode := by
        rw [hloaded.fieldAt_eq (by rw [sizeofTerminate]; omega), hclosed.terminate]
      have hentry : executeEntry m (st.tableBase + st.tableLength) s masks = .done .success := by
        rw [executeEntry]
        simp only [hopcode]
        rfl
      rw [executeLoop, if_pos (by rw [sizeofTerminate]; omega)]
      simp only [hentry, replay]
  | cons call calls ih =>
      rcases fuel with - | fuel
      · omega
      obtain ⟨hshort, hverdict, hmasks⟩ := hcalls call mem_cons_self
      have hlength := length_record hshort
      rw [map_cons, flatten_cons] at hrest hoff
      rw [length_append, hlength] at hoff
      rw [length_append, hlength, peek_add] at hrest
      obtain ⟨hthis, hothers⟩ := append_inj hrest (by rw [length_peek, hlength])
      have hrecord : ∀ s, Loaded m st s →
          peek (m.memory s) (st.tableBase + off) call.size = call.record := by
        intro s hs
        rw [hs.peek_eq (by rw [sizeofTerminate]; omega), hthis]
      obtain ⟨hquiet, hnext⟩ := hundisturbed
      have hexecute : ∃ masks', executeEntry m (st.tableBase + off) s masks =
          .next (perform m s call).1 masks' (perform m s call).2 :=
        executeEntry_record hshort hverdict hmasks (hrecord s hloaded) (hquiet.mono hrecord)
      obtain ⟨masks', hentry⟩ := hexecute
      obtain ⟨-, hsize⟩ := header_record hshort (hrecord s hloaded)
      rw [executeLoop, if_pos (by rw [sizeofTerminate]; have := @size_ge call; omega)]
      simp only [hentry, hsize, replay]
      rcases herror : (perform m s call).1.isError with - | -
      · rw [if_neg (by simp), if_neg (by simp), Nat.add_assoc]
        rw [Nat.add_assoc] at hothers
        exact ih (fun c hc => hcalls c (mem_cons_of_mem _ hc)) (by omega) hothers
          (by rw [length_cons] at hfuel; omega) (hquiet.after hloaded) (hnext herror)
      · rw [if_pos rfl, if_pos rfl]

theorem s3BootScriptExecute_closed {fuel : Nat}
    (hclosed : Closed st (calls.map Call.record))
    (hcalls : ∀ call ∈ calls, Decodable call)
    (hfuel : calls.length < fuel)
    (hloaded : Loaded m st s)
    (hundisturbed : Undisturbed m (Loaded m st) calls s) :
    s3BootScriptExecute m fuel st.tableBase s = some (replay m calls s) := by
  have hlength := hclosed.length_eq
  have hheader : ∀ off w, off + w ≤ 13 →
      fieldAt (m.memory s) st.tableBase off w = fieldAt st.memory st.tableBase off w := by
    intro off w hle
    have h := @Loaded.fieldAt_eq σ m st s 0 off w hloaded
      (by rw [hlength, sizeofTableHeader]; omega)
    rwa [Nat.add_zero] at h
  rw [s3BootScriptExecute, if_neg hclosed.base_ne]
  simp only [hheader 0 2 (by decide), hheader 2 1 (by decide), hheader 5 4 (by decide),
    hclosed.opcode, hclosed.headerLength, hclosed.tableLength, ne_eq, not_true_eq_false, if_false]
  exact executeLoop_records hclosed hcalls hlength.symm hclosed.content hfuel hloaded hundisturbed

end Loop

section Run

variable {plat : Platform} {st : State} {memory : Memory} {call : Call} {calls before : List Call}
variable {records : List Bytes}

/-- The format can hold every call that is not refused, at its turn. -/
def AllSound (plat : Platform) (st : State) (calls : List Call) : Prop :=
  ∀ before call after, calls = before ++ call :: after → call.verdict = .success →
    Sound (saveAll plat before st) call

theorem AllSound.tail
    (hsound : AllSound plat st (call :: calls)) :
    AllSound plat (save plat st call).2 calls :=
  fun before c after hcalls hverdict =>
    hsound (call :: before) c after (by rw [hcalls, cons_append]) hverdict

theorem AllSound.prefix {after : List Call}
    (hsound : AllSound plat st (before ++ after)) :
    AllSound plat st before :=
  fun b c a hcalls hverdict =>
    hsound b c (a ++ after) (by rw [hcalls, append_assoc, cons_append]) hverdict

theorem save_refused
    (hverdict : call.verdict ≠ .success) :
    save plat st call = (call.verdict, st) := by
  rw [save_eq, if_neg hverdict]

theorem save_holds
    (hholds : Holds plat st records)
    (hsound : call.verdict = .success → Sound st call) :
    Holds plat (save plat st call).2
        (records ++ if call.verdict = .success then [call.record] else []) ∧
      ((save plat st call).1 = .success ↔ call.verdict = .success) := by
  by_cases hverdict : call.verdict = .success
  · obtain ⟨hstatus, hok, -⟩ := save_appends hholds (hsound hverdict) hverdict
    rw [if_pos hverdict]
    exact ⟨Or.inr hok, iff_of_true hstatus hverdict⟩
  · rw [save_refused hverdict, if_neg hverdict, append_nil]
    exact ⟨hholds, Iff.rfl⟩

theorem saveAll_holds
    (hholds : Holds plat st records)
    (hsound : AllSound plat st calls) :
    Holds plat (saveAll plat calls st)
        (records ++ (successful plat calls st).map Call.record) ∧
      ∀ c ∈ successful plat calls st, Decodable c := by
  induction calls generalizing st records with
  | nil =>
      rw [successful, map_nil, append_nil]
      exact ⟨hholds, fun c hc => absurd hc not_mem_nil⟩
  | cons call calls ih =>
      have hthis := hsound [] call calls rfl
      obtain ⟨hnext, hstatus⟩ := save_holds hholds hthis
      obtain ⟨hlast, hdecodable⟩ := ih hnext hsound.tail
      rw [successful]
      by_cases hverdict : call.verdict = .success
      · simp only [hstatus.mpr hverdict, if_true]
        rw [if_pos hverdict, append_assoc] at hlast
        refine ⟨hlast, fun c hc => ?_⟩
        rcases mem_cons.mp hc with rfl | hc
        · exact ⟨(hthis hverdict).short, hverdict, (hthis hverdict).masks⟩
        · exact hdecodable c hc
      · have hfail : (save plat st call).1 ≠ .success := fun h => hverdict (hstatus.mp h)
        simp only [hfail, if_false]
        rw [if_neg hverdict, append_nil] at hlast
        exact ⟨hlast, hdecodable⟩

theorem Holds.stepOk
    (hholds : Holds plat st records)
    (hsound : call.verdict = .success → Sound st call) :
    StepOk plat st call := by
  by_cases hverdict : call.verdict = .success
  · obtain ⟨hstatus, hok, hend, hframe⟩ := save_appends hholds (hsound hverdict) hverdict
    constructor
    case appends =>
      intro _
      refine ⟨call.record, ?_, ?_, hend⟩
      · rw [← length_pos_iff, length_record (hsound hverdict).short]
        exact Nat.lt_of_lt_of_le (by decide) size_ge
      · rw [hok.records_eq, hholds.records_eq, flatten_append, flatten_singleton]
    case inside => exact fun _ => hframe
    case unchanged => exact fun hne => absurd hstatus hne
  · have hrefused := @save_refused plat st call hverdict
    have hstatus : (save plat st call).1 = call.verdict := congrArg Prod.fst hrefused
    constructor
    case appends | inside => exact fun h => absurd (hstatus.symm.trans h) hverdict
    case unchanged => exact fun _ => congrArg Prod.snd hrefused

/-- Calls that the format can hold are appended within the pages of the table, and the closed
table replays the ones that returned success. -/
theorem boot_script_replays
    (hsound : AllSound plat (State.fresh memory) calls) :
    (∀ before call after, calls = before ++ call :: after →
        StepOk plat (saveAll plat before (State.fresh memory)) call) ∧
      ∀ {σ : Type u} (m : Machine σ) (s : σ),
        (saveAll plat calls (State.fresh memory)).tableBase ≠ 0 →
        Loaded m (s3BootScriptInternalCloseTable (saveAll plat calls (State.fresh memory))) s →
        Undisturbed m
          (Loaded m (s3BootScriptInternalCloseTable (saveAll plat calls (State.fresh memory))))
          (successful plat calls (State.fresh memory)) s →
        ∀ fuel, (successful plat calls (State.fresh memory)).length < fuel →
          s3BootScriptExecute m fuel
              (s3BootScriptInternalCloseTable
                (saveAll plat calls (State.fresh memory))).tableBase s =
            some (replay m (successful plat calls (State.fresh memory)) s) := by
  have hfresh : Holds plat (State.fresh memory) [] := Or.inl ⟨rfl, rfl⟩
  constructor
  · rintro before call after rfl
    exact (saveAll_holds hfresh hsound.prefix).1.stepOk (hsound before call after rfl)
  · intro σ m s hne hloaded hundisturbed fuel hfuel
    obtain ⟨hholds, hdecodable⟩ := saveAll_holds hfresh hsound
    rw [nil_append] at hholds
    rcases hholds with ⟨hzero, -⟩ | hok
    · exact absurd hzero hne
    · exact s3BootScriptExecute_closed hok.closed hdecodable hfuel hloaded hundisturbed

end Run

section Sample

/-- Two reserved pages, and every allocation at its own place. -/
def samplePlatform : Platform where
  reserve := 2
  place := fun n => 0x10000 * (n + 1)
  reserve_lt := by decide
  place_pos := fun n => by omega

/-- A memory without anything in it. -/
def noMemory : Memory := fun _ => 0

/-- A machine that notes its writes, with a memory that stays as it is.  Ports and memory read as
zero. -/
def tracing (memory : Memory) : Machine (List (Space × Nat × Nat × Nat)) where
  memory := fun _ => memory
  read := fun _ _ _ s => (0, s)
  write := fun space size address value s => s ++ [(space, size, address, value)]
  smBus := fun _ _ _ s => (.success, s)
  microSecondDelay := fun _ s => s
  nanoSecondDelay := fun _ s => s
  entryFunc := fun _ _ s => (.success, s)

/-- A write of two ports and a change of a word in memory. -/
def sampleCalls : List Call :=
  [.ioWrite .uint8 0x80 2 fun k => UInt8.ofNat (k + 1),
    .memReadWrite .uint16 0x1000 (fun _ => 0x55) fun _ => 0xFF]

/-- The table of the sample. -/
def sampleTable (calls : List Call) : State :=
  s3BootScriptInternalCloseTable (saveAll samplePlatform calls (State.fresh noMemory))

theorem undisturbed_tracing {st : State} {calls : List Call}
    {s : List (Space × Nat × Nat × Nat)} :
    Undisturbed (tracing st.memory) (Loaded (tracing st.memory) st) calls s := by
  have hkeeps : ∀ s, Loaded (tracing st.memory) st s := fun s k _ => rfl
  induction calls generalizing s with
  | nil => trivial
  | cons call calls ih =>
      refine ⟨?_, fun _ => ih⟩
      cases call
      all_goals first
        | exact hkeeps _
        | exact fun a _ i _ => hkeeps _

theorem boot_script_replays_sample :
    s3BootScriptExecute (tracing (sampleTable sampleCalls).memory) 3
        (sampleTable sampleCalls).tableBase [] =
      some (.success,
        [(.io, 1, 0x80, 1), (.io, 1, 0x81, 2), (.mem, 2, 0x1000, 0x5555)]) := by
  have hsound : AllSound samplePlatform (State.fresh noMemory) sampleCalls := by
    intro before call after hcalls hverdict
    rw [sampleCalls] at hcalls
    rcases before with - | ⟨b, - | ⟨b', before⟩⟩
    · cases hcalls
      exact ⟨by decide, fun width hwidth => (by cases hwidth), by decide +kernel⟩
    · cases hcalls
      refine ⟨by decide, fun width hwidth => ?_, by decide +kernel⟩
      cases hwidth
      decide
    · have hlength := congrArg List.length hcalls
      simp only [length_cons, length_append, length_nil] at hlength
      omega
  have hreplay := (boot_script_replays hsound).2 (tracing (sampleTable sampleCalls).memory) []
    (by decide +kernel) (fun k _ => rfl) undisturbed_tracing 3 (by decide +kernel)
  refine hreplay.trans ?_
  decide +kernel

/-- A write of 237 bytes: its record has 256 bytes, which leaves a length of 0. -/
def longCall : Call :=
  .ioWrite .uint8 0x80 237 fun k => UInt8.ofNat k

/-- The call returns success, but the table gets no record of it and nothing is replayed. -/
theorem boot_script_drops_call :
    (save samplePlatform (State.fresh noMemory) longCall).1 = .success ∧
      ¬ StepOk samplePlatform (State.fresh noMemory) longCall ∧
      s3BootScriptExecute (tracing (sampleTable [longCall]).memory) 2
          (sampleTable [longCall]).tableBase [] = some (.success, []) ∧
      (replay (tracing (sampleTable [longCall]).memory) [longCall] []).2.length = 237 := by
  refine ⟨rfl, ?_, by decide +kernel, by decide +kernel⟩
  intro hok
  obtain ⟨record, hne, -, hend⟩ := hok.appends rfl
  have hsame : (save samplePlatform (State.fresh noMemory) longCall).2.recordsEnd =
      (State.fresh noMemory).recordsEnd := by decide +kernel
  rw [hsame] at hend
  have hpos := length_pos_iff.mpr hne
  omega

end Sample

end BootScript
end Udk
