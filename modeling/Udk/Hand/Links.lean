import Udk.Hand.Calls

/-!
# The links of the handle database

Each interface is on the list of its handle and on the list of its protocol, and on no
other list, and no handle has two interfaces of a protocol.  Here is what each change of
the database does to these links.
-/

namespace Udk
namespace Hand

open Variable List

/-- The links of the database, apart from a handle that may have no interface yet. -/
structure Linked (db : Database) : Prop where
  handleList_nodup : db.handleList.Nodup
  mem_handleList : ∀ h, h ∈ db.handleList ↔ ∃ ih, db.handles.get h = some ih
  protocols_nodup : ∀ h ih, db.handles.get h = some ih → ih.protocols.Nodup
  ofHandle : ∀ h ih p, db.handles.get h = some ih → p ∈ ih.protocols →
    ∃ prot, db.interfaces.get p = some prot ∧ prot.handle = h
  onHandle : ∀ p prot, db.interfaces.get p = some prot →
    ∃ ih, db.handles.get prot.handle = some ih ∧ p ∈ ih.protocols
  entries_nodup : (db.entries.map ProtocolEntry.protocolId).Nodup
  entry_nodup : ∀ e ∈ db.entries, e.protocols.Nodup
  ofEntry : ∀ e ∈ db.entries, ∀ p ∈ e.protocols,
    ∃ prot, db.interfaces.get p = some prot ∧ prot.protocol = e.protocolId
  onEntry : ∀ p prot, db.interfaces.get p = some prot →
    ∃ e ∈ db.entries, e.protocolId = prot.protocol ∧ p ∈ e.protocols
  count : ∀ p prot, db.interfaces.get p = some prot → prot.openListCount = prot.openList.length
  position : ∀ e ∈ db.entries, ∀ n ∈ e.notify, ∀ q, n.position = some q → q ∈ e.protocols

/-- Every handle has an interface. -/
def HandlesUsed (db : Database) : Prop :=
  ∀ h ih, db.handles.get h = some ih → ih.protocols ≠ []

/-- No handle has two interfaces of a protocol. -/
def UniqueProtocols (db : Database) : Prop :=
  ∀ p q prot prot', db.interfaces.get p = some prot → db.interfaces.get q = some prot' →
    prot.handle = prot'.handle → prot.protocol = prot'.protocol → p = q

variable {db db' : Database} {h ih : Nat} {handle : IHandle} {p q : Nat}
  {prot prot' : ProtocolInterface} {e e' : ProtocolEntry} {protocol : Guid} {interface : Nat}
  {f : ProtocolEntry → ProtocolEntry}

section Entries

theorem findEntry_some
    (hfind : db.findEntry protocol = some e) :
    e ∈ db.entries ∧ e.protocolId = protocol :=
  ⟨mem_of_find?_eq_some hfind, by simpa using find?_some hfind⟩

theorem findEntry_none
    (hfind : db.findEntry protocol = none) :
    ∀ e ∈ db.entries, e.protocolId ≠ protocol := by
  intro e he heq
  exact find?_eq_none.mp hfind e he (decide_eq_true heq)

theorem Linked.findEntry
    (hlinked : Linked db)
    (hget : db.interfaces.get p = some prot) :
    ∃ e, db.findEntry prot.protocol = some e := by
  obtain ⟨e, he, hid, -⟩ := hlinked.onEntry p prot hget
  cases hfind : db.findEntry prot.protocol with
  | none => exact absurd hid (findEntry_none hfind e he)
  | some e' => exact ⟨e', rfl⟩

theorem Linked.entry_eq
    (hlinked : Linked db)
    (he : e ∈ db.entries)
    (he' : e' ∈ db.entries)
    (hid : e.protocolId = e'.protocolId) :
    e = e' :=
  inj_on_of_nodup_map hlinked.entries_nodup he he' hid

theorem mem_modifyEntry :
    e' ∈ (db.modifyEntry protocol f).entries ↔
      ∃ e ∈ db.entries, (if e.protocolId = protocol then f e else e) = e' :=
  mem_map

theorem modifyEntry_ids
    (hid : ∀ e, (f e).protocolId = e.protocolId) :
    (db.modifyEntry protocol f).entries.map ProtocolEntry.protocolId =
      db.entries.map ProtocolEntry.protocolId := by
  rw [Database.modifyEntry, map_map]
  refine map_congr_left fun e _ => ?_
  rw [Function.comp_apply]
  by_cases he : e.protocolId = protocol
  · rw [if_pos he, hid]
  · rw [if_neg he]

/-- A change of an entry that leaves its interfaces, in some order, and the positions on
its list. -/
theorem Linked.modifyEntry
    (hlinked : Linked db)
    (hid : ∀ e, (f e).protocolId = e.protocolId)
    (hperm : ∀ e ∈ db.entries, e.protocolId = protocol → (f e).protocols.Perm e.protocols)
    (hposition : ∀ e ∈ db.entries, e.protocolId = protocol →
      ∀ n ∈ (f e).notify, ∀ q, n.position = some q → q ∈ e.protocols) :
    Linked (db.modifyEntry protocol f) := by
  have hmem : ∀ e' ∈ (db.modifyEntry protocol f).entries,
      ∃ e ∈ db.entries, e'.protocolId = e.protocolId ∧ e'.protocols.Perm e.protocols ∧
        ∀ n ∈ e'.notify, ∀ q, n.position = some q → q ∈ e.protocols := by
    intro e' he'
    obtain ⟨e, he, rfl⟩ := mem_modifyEntry.mp he'
    refine ⟨e, he, ?_⟩
    by_cases hp : e.protocolId = protocol
    · rw [if_pos hp]
      exact ⟨hid e, hperm e he hp, hposition e he hp⟩
    · rw [if_neg hp]
      exact ⟨rfl, List.Perm.refl _, hlinked.position e he⟩
  refine ⟨hlinked.handleList_nodup, hlinked.mem_handleList, hlinked.protocols_nodup,
    hlinked.ofHandle, hlinked.onHandle, ?_, ?_, ?_, ?_, hlinked.count, ?_⟩
  case refine_1 =>
    rw [modifyEntry_ids hid]
    exact hlinked.entries_nodup
  case refine_2 =>
    intro e' he'
    obtain ⟨e, he, -, hp, -⟩ := hmem e' he'
    exact hp.nodup_iff.mpr (hlinked.entry_nodup e he)
  case refine_3 =>
    intro e' he' p hp'
    obtain ⟨e, he, hids, hp, -⟩ := hmem e' he'
    obtain ⟨prot, hget, hprot⟩ := hlinked.ofEntry e he p (hp.mem_iff.mp hp')
    exact ⟨prot, hget, hprot.trans hids.symm⟩
  case refine_4 =>
    intro p prot hget
    obtain ⟨e, he, hids, hp⟩ := hlinked.onEntry p prot hget
    refine ⟨_, mem_modifyEntry.mpr ⟨e, he, rfl⟩, ?_⟩
    by_cases hprotocol : e.protocolId = protocol
    · rw [if_pos hprotocol, hid]
      exact ⟨hids, (hperm e he hprotocol).mem_iff.mpr hp⟩
    · rw [if_neg hprotocol]
      exact ⟨hids, hp⟩
  case refine_5 =>
    intro e' he' n hn q hq
    obtain ⟨e, _, -, hp, hpos⟩ := hmem e' he'
    exact hp.mem_iff.mpr (hpos n hn q hq)

/-- A new entry has no interface. -/
theorem Linked.newEntry
    (hlinked : Linked db)
    (hnew : ∀ e ∈ db.entries, e.protocolId ≠ protocol) :
    Linked { db with entries := db.entries ++ [⟨protocol, [], []⟩] } := by
  have hmem : ∀ {e}, e ∈ db.entries ++ [⟨protocol, [], []⟩] → e ∈ db.entries ∨
      e = ⟨protocol, [], []⟩ := by
    intro e he
    rcases mem_append.mp he with he | he
    · exact Or.inl he
    · exact Or.inr (mem_singleton.mp he)
  refine ⟨hlinked.handleList_nodup, hlinked.mem_handleList, hlinked.protocols_nodup,
    hlinked.ofHandle, hlinked.onHandle, ?_, ?_, ?_, ?_, hlinked.count, ?_⟩
  case refine_1 =>
    show (List.map ProtocolEntry.protocolId (db.entries ++ [⟨protocol, [], []⟩])).Nodup
    rw [map_append]
    refine List.Nodup.append hlinked.entries_nodup (nodup_singleton _) ?_
    intro id hid hid'
    obtain ⟨e, he, rfl⟩ := mem_map.mp hid
    exact hnew e he (mem_singleton.mp hid')
  case refine_2 =>
    intro e he
    rcases hmem he with he | rfl
    · exact hlinked.entry_nodup e he
    · exact nodup_nil
  case refine_3 =>
    intro e he p hp
    rcases hmem he with he | rfl
    · exact hlinked.ofEntry e he p hp
    · exact absurd hp not_mem_nil
  case refine_4 =>
    intro p prot hget
    obtain ⟨e, he, hid, hp⟩ := hlinked.onEntry p prot hget
    exact ⟨e, mem_append_left _ he, hid, hp⟩
  case refine_5 =>
    intro e he n hn
    rcases hmem he with he | rfl
    · exact hlinked.position e he n hn
    · exact absurd hn not_mem_nil

end Entries

section Interfaces

/-- A changed open list or interface value leaves the links. -/
theorem Linked.setInterface
    (hlinked : Linked db)
    (hget : db.interfaces.get p = some prot)
    (hhandle : prot'.handle = prot.handle)
    (hprotocol : prot'.protocol = prot.protocol)
    (hcount : prot'.openListCount = prot'.openList.length) :
    Linked { db with interfaces := db.interfaces.set p prot' } := by
  have hold : ∀ {q prot₁}, (db.interfaces.set p prot').get q = some prot₁ →
      ∃ prot₀, db.interfaces.get q = some prot₀ ∧ prot₁.handle = prot₀.handle ∧
        prot₁.protocol = prot₀.protocol := by
    intro q prot₁ hq
    rcases (Heap.get_set_iff hget).mp hq with ⟨rfl, rfl⟩ | ⟨-, hq⟩
    · exact ⟨prot, hget, hhandle, hprotocol⟩
    · exact ⟨prot₁, hq, rfl, rfl⟩
  have hnew : ∀ {q prot₀}, db.interfaces.get q = some prot₀ →
      ∃ prot₁, (db.interfaces.set p prot').get q = some prot₁ ∧ prot₁.handle = prot₀.handle ∧
        prot₁.protocol = prot₀.protocol := by
    intro q prot₀ hq
    by_cases hqp : q = p
    · subst hqp
      rw [hget] at hq
      cases hq
      exact ⟨prot', Heap.get_set_self hget, hhandle, hprotocol⟩
    · exact ⟨prot₀, by rw [Heap.get_set_of_ne hqp, hq], rfl, rfl⟩
  refine ⟨hlinked.handleList_nodup, hlinked.mem_handleList, hlinked.protocols_nodup, ?_, ?_,
    hlinked.entries_nodup, hlinked.entry_nodup, ?_, ?_, ?_, hlinked.position⟩
  case refine_1 =>
    intro h ih q hh hq
    obtain ⟨prot₀, hq, hprot⟩ := hlinked.ofHandle h ih q hh hq
    obtain ⟨prot₁, hq', hsame, -⟩ := hnew hq
    exact ⟨prot₁, hq', hsame.trans hprot⟩
  case refine_2 =>
    intro q prot₁ hq
    obtain ⟨prot₀, hq', hsame, -⟩ := hold hq
    rw [hsame]
    exact hlinked.onHandle q prot₀ hq'
  case refine_3 =>
    intro e he q hq
    obtain ⟨prot₀, hq, hprot⟩ := hlinked.ofEntry e he q hq
    obtain ⟨prot₁, hq', -, hsame⟩ := hnew hq
    exact ⟨prot₁, hq', hsame.trans hprot⟩
  case refine_4 =>
    intro q prot₁ hq
    obtain ⟨prot₀, hq', -, hsame⟩ := hold hq
    rw [hsame]
    exact hlinked.onEntry q prot₀ hq'
  case refine_5 =>
    intro q prot₁ hq
    rcases (Heap.get_set_iff hget).mp hq with ⟨-, rfl⟩ | ⟨-, hq⟩
    · exact hcount
    · exact hlinked.count q prot₁ hq

theorem Linked.findLinked
    (hlinked : Linked db)
    (hget : db.handles.get h = some handle)
    (test : ProtocolInterface → Bool) :
    ∀ ps, (∀ p ∈ ps, p ∈ handle.protocols) →
      (findLinked db.interfaces test ps = some none ∧
        ∀ p ∈ ps, ∀ prot, db.interfaces.get p = some prot → test prot = false) ∨
      ∃ p ∈ ps, ∃ prot, findLinked db.interfaces test ps = some (some p) ∧
        db.interfaces.get p = some prot ∧ prot.handle = h ∧ test prot = true := by
  intro ps hps
  induction ps with
  | nil => exact Or.inl ⟨rfl, fun p hp => absurd hp not_mem_nil⟩
  | cons p ps ih =>
      obtain ⟨prot, hp, hhandle⟩ := hlinked.ofHandle h handle p hget (hps p mem_cons_self)
      rw [Hand.findLinked, hp]
      cases htest : test prot with
      | true =>
          simp only [htest, if_true]
          exact Or.inr ⟨p, mem_cons_self, prot, rfl, hp, hhandle, htest⟩
      | false =>
          simp only [htest, Bool.false_eq_true, if_false]
          rcases ih fun q hq => hps q (mem_cons_of_mem p hq) with
            ⟨hnone, hall⟩ | ⟨q, hq, prot', hsome, hget', hhandle', htest'⟩
          · refine Or.inl ⟨hnone, fun q hq prot' hget' => ?_⟩
            rcases mem_cons.mp hq with rfl | hq
            · rw [hp] at hget'
              cases hget'
              exact htest
            · exact hall q hq prot' hget'
          · exact Or.inr ⟨q, mem_cons_of_mem p hq, prot', hsome, hget', hhandle', htest'⟩

theorem Linked.coreGetProtocolInterface
    (hlinked : Linked db)
    (hget : db.handles.get h = some handle)
    (protocol : Guid) :
    (coreGetProtocolInterface db handle protocol = some none ∧
      ∀ p prot, db.interfaces.get p = some prot → prot.handle = h → prot.protocol ≠ protocol) ∨
    ∃ p prot, coreGetProtocolInterface db handle protocol = some (some p) ∧
      db.interfaces.get p = some prot ∧ prot.handle = h ∧ prot.protocol = protocol := by
  rcases hlinked.findLinked hget (fun prot => prot.protocol = protocol) handle.protocols
    (fun p hp => hp) with ⟨hnone, hall⟩ | ⟨p, -, prot, hsome, hp, hhandle, htest⟩
  · refine Or.inl ⟨hnone, fun p prot hp hhandle => ?_⟩
    obtain ⟨handle', hget', hmem⟩ := hlinked.onHandle p prot hp
    rw [hhandle, hget] at hget'
    cases hget'
    exact of_decide_eq_false (hall p hmem prot hp)
  · exact Or.inr ⟨p, prot, hsome, hp, hhandle, of_decide_eq_true htest⟩

/-- `CoreFindProtocolInterface` finds the interface of the protocol with the given value. -/
theorem Linked.coreFindProtocolInterface
    (hlinked : Linked db)
    (hget : db.handles.get h = some handle)
    (protocol : Guid)
    (interface : Nat) :
    (coreFindProtocolInterface db handle protocol interface = some none ∧
      ∀ p prot, db.interfaces.get p = some prot → prot.handle = h → prot.protocol = protocol →
        prot.interface ≠ interface) ∨
    ∃ p prot, coreFindProtocolInterface db handle protocol interface = some (some p) ∧
      db.interfaces.get p = some prot ∧ prot.handle = h ∧ prot.protocol = protocol ∧
        prot.interface = interface := by
  cases hfind : db.findEntry protocol with
  | none =>
      refine Or.inl ⟨by rw [Hand.coreFindProtocolInterface, hfind], ?_⟩
      intro p prot hp _ hprotocol
      obtain ⟨e, he⟩ := hlinked.findEntry hp
      rw [hprotocol, hfind] at he
      cases he
  | some e =>
      rw [Hand.coreFindProtocolInterface, hfind]
      rcases hlinked.findLinked hget
        (fun prot => prot.interface = interface && prot.protocol = protocol) handle.protocols
        (fun p hp => hp) with ⟨hnone, hall⟩ | ⟨p, -, prot, hsome, hp, hhandle, htest⟩
      · refine Or.inl ⟨hnone, fun p prot hp hhandle hprotocol hinterface => ?_⟩
        obtain ⟨handle', hget', hmem⟩ := hlinked.onHandle p prot hp
        rw [hhandle, hget] at hget'
        cases hget'
        have hfalse := hall p hmem prot hp
        rw [Bool.and_eq_false_iff] at hfalse
        rcases hfalse with hfalse | hfalse
        · exact of_decide_eq_false hfalse hinterface
        · exact of_decide_eq_false hfalse hprotocol
      · rw [Bool.and_eq_true] at htest
        exact Or.inr ⟨p, prot, hsome, hp, hhandle, of_decide_eq_true htest.2,
          of_decide_eq_true htest.1⟩

end Interfaces

section Changes

theorem backLink_mem
    {list : List Nat}
    {a : Nat}
    (hnodup : list.Nodup)
    (hback : backLink p list = some a) :
    a ∈ list.erase p := by
  induction list with
  | nil => cases hback
  | cons b list ih =>
      cases list with
      | nil => cases hback
      | cons c list =>
          have hb := (nodup_cons.mp hnodup).1
          rw [backLink] at hback
          by_cases hc : c = p
          · rw [if_pos hc] at hback
            have hba : b = a := Option.some.inj hback
            have hne : b ≠ p := by
              intro heq
              exact hb (heq.trans hc.symm ▸ mem_cons_self)
            rw [← hba]
            exact (mem_erase_of_ne hne).mpr mem_cons_self
          · rw [if_neg hc] at hback
            have hmem := ih (nodup_cons.mp hnodup).2 hback
            by_cases hbp : b = p
            · rw [hbp, erase_cons_head]
              exact mem_of_mem_erase hmem
            · rw [erase_cons_tail (by rwa [beq_iff_eq])]
              exact mem_cons_of_mem b hmem

/-- An interface taken off its lists and freed. -/
theorem Linked.unlink
    (hlinked : Linked db)
    (hp : db.interfaces.get p = some prot)
    (hh : db.handles.get prot.handle = some handle) :
    Linked (unlinkInterface db prot.handle handle prot.protocol p) := by
  have hmem : ∀ e' ∈ (unlinkInterface db prot.handle handle prot.protocol p).entries,
      ∃ e ∈ db.entries, e'.protocolId = e.protocolId ∧ e'.protocols = e.protocols.erase p ∧
        ∀ n ∈ e'.notify, ∀ q, n.position = some q → q ∈ e'.protocols := by
    intro e' he'
    obtain ⟨e, he, rfl⟩ := mem_modifyEntry.mp he'
    refine ⟨e, he, ?_⟩
    have hnodup := hlinked.entry_nodup e he
    by_cases hprotocol : e.protocolId = prot.protocol
    · rw [if_pos hprotocol]
      refine ⟨rfl, rfl, fun n' hn' q hq => ?_⟩
      obtain ⟨n, hn, rfl⟩ := mem_map.mp hn'
      by_cases hpos : n.position = some p
      · rw [if_pos hpos] at hq
        exact backLink_mem hnodup hq
      · rw [if_neg hpos] at hq
        have hne : q ≠ p := by
          rintro rfl
          exact hpos hq
        exact (mem_erase_of_ne hne).mpr (hlinked.position e he n hn q hq)
    · rw [if_neg hprotocol]
      have hnot : p ∉ e.protocols := by
        intro hmem
        obtain ⟨prot', hp', hid⟩ := hlinked.ofEntry e he p hmem
        rw [hp] at hp'
        cases hp'
        exact hprotocol hid.symm
      exact ⟨rfl, (erase_of_not_mem hnot).symm, hlinked.position e he⟩
  have hnodup := hlinked.protocols_nodup _ _ hh
  refine ⟨hlinked.handleList_nodup, ?_, ?_, ?_, ?_, ?_, ?_, ?_, ?_, ?_, ?_⟩
  case refine_1 =>
    intro h
    rw [show (unlinkInterface db prot.handle handle prot.protocol p).handleList =
      db.handleList from rfl, hlinked.mem_handleList h]
    constructor
    case mp =>
      rintro ⟨ih, hih⟩
      by_cases hsame : h = prot.handle
      · exact ⟨_, (Heap.get_set_iff hh).mpr (Or.inl ⟨hsame, rfl⟩)⟩
      · exact ⟨ih, (Heap.get_set_iff hh).mpr (Or.inr ⟨hsame, hih⟩)⟩
    case mpr =>
      rintro ⟨ih, hih⟩
      rcases (Heap.get_set_iff hh).mp hih with ⟨rfl, -⟩ | ⟨-, hih⟩
      · exact ⟨handle, hh⟩
      · exact ⟨ih, hih⟩
  case refine_2 =>
    intro h ih hih
    rcases (Heap.get_set_iff hh).mp hih with ⟨-, rfl⟩ | ⟨-, hih⟩
    · exact hnodup.erase p
    · exact hlinked.protocols_nodup h ih hih
  case refine_3 =>
    intro h ih q hih hq
    rcases (Heap.get_set_iff hh).mp hih with ⟨rfl, rfl⟩ | ⟨hne, hih⟩
    · obtain ⟨hqp, hq⟩ := (hnodup.mem_erase_iff).mp hq
      obtain ⟨prot', hget, hhandle⟩ := hlinked.ofHandle _ _ q hh hq
      exact ⟨prot', Heap.get_free_iff.mpr ⟨hqp, hget⟩, hhandle⟩
    · obtain ⟨prot', hget, hhandle⟩ := hlinked.ofHandle h ih q hih hq
      refine ⟨prot', Heap.get_free_iff.mpr ⟨?_, hget⟩, hhandle⟩
      rintro rfl
      rw [hp] at hget
      cases hget
      exact hne hhandle.symm
  case refine_4 =>
    intro q prot' hq
    obtain ⟨hqp, hq⟩ := Heap.get_free_iff.mp hq
    obtain ⟨ih, hih, hmem⟩ := hlinked.onHandle q prot' hq
    by_cases hsame : prot'.handle = prot.handle
    · rw [hsame, hh] at hih
      cases hih
      exact ⟨_, (Heap.get_set_iff hh).mpr (Or.inl ⟨hsame, rfl⟩),
        (mem_erase_of_ne hqp).mpr hmem⟩
    · exact ⟨ih, (Heap.get_set_iff hh).mpr (Or.inr ⟨hsame, hih⟩), hmem⟩
  case refine_5 =>
    have hids := @modifyEntry_ids db prot.protocol (fun entry =>
      { entry with
        protocols := entry.protocols.erase p
        notify := entry.notify.map fun notify =>
          if notify.position = some p then
            { notify with position := backLink p entry.protocols }
          else notify }) fun _ => rfl
    exact hids ▸ hlinked.entries_nodup
  case refine_6 =>
    intro e' he'
    obtain ⟨e, he, -, hprotocols, -⟩ := hmem e' he'
    rw [hprotocols]
    exact (hlinked.entry_nodup e he).erase p
  case refine_7 =>
    intro e' he' q hq
    obtain ⟨e, he, hid, hprotocols, -⟩ := hmem e' he'
    rw [hprotocols] at hq
    obtain ⟨hqp, hq⟩ := ((hlinked.entry_nodup e he).mem_erase_iff).mp hq
    obtain ⟨prot', hget, hprotocol⟩ := hlinked.ofEntry e he q hq
    exact ⟨prot', Heap.get_free_iff.mpr ⟨hqp, hget⟩, hprotocol.trans hid.symm⟩
  case refine_8 =>
    intro q prot' hq
    obtain ⟨hqp, hq⟩ := Heap.get_free_iff.mp hq
    obtain ⟨e, he, hid, hmem'⟩ := hlinked.onEntry q prot' hq
    refine ⟨_, mem_modifyEntry.mpr ⟨e, he, rfl⟩, ?_⟩
    by_cases hprotocol : e.protocolId = prot.protocol
    · rw [if_pos hprotocol]
      exact ⟨hid, (mem_erase_of_ne hqp).mpr hmem'⟩
    · rw [if_neg hprotocol]
      exact ⟨hid, hmem'⟩
  case refine_9 => exact fun q prot' hq => hlinked.count q prot' (Heap.get_free_iff.mp hq).2
  case refine_10 =>
    intro e' he'
    obtain ⟨e, _, -, -, hpos⟩ := hmem e' he'
    exact hpos

/-- A new handle. -/
theorem Linked.newHandle
    (hlinked : Linked db) :
    Linked { db with
      handles := db.handles.alloc ⟨[]⟩
      handleList := db.handleList ++ [db.handles.next] } := by
  have hfresh : db.handles.next ∉ db.handleList := by
    intro hmem
    obtain ⟨ih, hih⟩ := (hlinked.mem_handleList _).mp hmem
    exact Nat.lt_irrefl _ (Heap.lt_next hih)
  refine ⟨?_, ?_, ?_, ?_, ?_, hlinked.entries_nodup, hlinked.entry_nodup, hlinked.ofEntry,
    hlinked.onEntry, hlinked.count, hlinked.position⟩
  case refine_1 =>
    refine List.Nodup.append hlinked.handleList_nodup (nodup_singleton _) ?_
    intro h hh hh'
    rw [mem_singleton.mp hh'] at hh
    exact hfresh hh
  case refine_2 =>
    intro h
    show h ∈ db.handleList ++ [db.handles.next] ↔ ∃ ih, (db.handles.alloc ⟨[]⟩).get h = some ih
    rw [mem_append, hlinked.mem_handleList h, mem_singleton]
    constructor
    case mp =>
      rintro (⟨ih, hih⟩ | rfl)
      · exact ⟨ih, Heap.get_alloc_iff.mpr (Or.inr ⟨Nat.ne_of_lt (Heap.lt_next hih), hih⟩)⟩
      · exact ⟨_, Heap.get_alloc_next⟩
    case mpr =>
      rintro ⟨ih, hih⟩
      rcases Heap.get_alloc_iff.mp hih with ⟨rfl, -⟩ | ⟨-, hih⟩
      · exact Or.inr rfl
      · exact Or.inl ⟨ih, hih⟩
  case refine_3 =>
    intro h ih hih
    rcases Heap.get_alloc_iff.mp hih with ⟨-, rfl⟩ | ⟨-, hih⟩
    · exact nodup_nil
    · exact hlinked.protocols_nodup h ih hih
  case refine_4 =>
    intro h ih p hih hp
    rcases Heap.get_alloc_iff.mp hih with ⟨-, rfl⟩ | ⟨-, hih⟩
    · exact absurd hp not_mem_nil
    · exact hlinked.ofHandle h ih p hih hp
  case refine_5 =>
    intro p prot hp
    obtain ⟨ih, hih, hmem⟩ := hlinked.onHandle p prot hp
    exact ⟨ih, Heap.get_alloc_iff.mpr (Or.inr ⟨Nat.ne_of_lt (Heap.lt_next hih), hih⟩), hmem⟩

/-- A new interface of a protocol that its handle does not have. -/
theorem Linked.add
    (hlinked : Linked db)
    (hh : db.handles.get h = some handle)
    (hentry : ∃ e ∈ db.entries, e.protocolId = protocol)
    (interface : Nat) :
    Linked (addInterface db h handle protocol interface) := by
  have hfresh : ∀ {q prot}, db.interfaces.get q = some prot → q ≠ db.interfaces.next :=
    fun hq => Nat.ne_of_lt (Heap.lt_next hq)
  have hofHandle : ∀ h ih, db.handles.get h = some ih → db.interfaces.next ∉ ih.protocols := by
    intro h ih hih hmem
    obtain ⟨prot, hq, -⟩ := hlinked.ofHandle h ih _ hih hmem
    exact hfresh hq rfl
  have hofEntry : ∀ e ∈ db.entries, db.interfaces.next ∉ e.protocols := by
    intro e he hmem
    obtain ⟨prot, hq, -⟩ := hlinked.ofEntry e he _ hmem
    exact hfresh hq rfl
  refine ⟨hlinked.handleList_nodup, ?_, ?_, ?_, ?_, ?_, ?_, ?_, ?_, ?_, ?_⟩
  case refine_1 =>
    intro h'
    rw [show (addInterface db h handle protocol interface).handleList = db.handleList from rfl,
      hlinked.mem_handleList h']
    constructor
    case mp =>
      rintro ⟨ih, hih⟩
      by_cases hsame : h' = h
      · exact ⟨_, (Heap.get_set_iff hh).mpr (Or.inl ⟨hsame, rfl⟩)⟩
      · exact ⟨ih, (Heap.get_set_iff hh).mpr (Or.inr ⟨hsame, hih⟩)⟩
    case mpr =>
      rintro ⟨ih, hih⟩
      rcases (Heap.get_set_iff hh).mp hih with ⟨rfl, -⟩ | ⟨-, hih⟩
      · exact ⟨handle, hh⟩
      · exact ⟨ih, hih⟩
  case refine_2 =>
    intro h' ih hih
    rcases (Heap.get_set_iff hh).mp hih with ⟨-, rfl⟩ | ⟨-, hih⟩
    · exact nodup_cons.mpr ⟨hofHandle h handle hh, hlinked.protocols_nodup h handle hh⟩
    · exact hlinked.protocols_nodup h' ih hih
  case refine_3 =>
    intro h' ih q hih hq
    rcases (Heap.get_set_iff hh).mp hih with ⟨rfl, rfl⟩ | ⟨_, hih⟩
    · rcases mem_cons.mp hq with rfl | hq
      · exact ⟨_, Heap.get_alloc_next, rfl⟩
      · obtain ⟨prot, hget, hhandle⟩ := hlinked.ofHandle _ _ q hh hq
        exact ⟨prot, Heap.get_alloc_iff.mpr (Or.inr ⟨hfresh hget, hget⟩), hhandle⟩
    · obtain ⟨prot, hget, hhandle⟩ := hlinked.ofHandle h' ih q hih hq
      exact ⟨prot, Heap.get_alloc_iff.mpr (Or.inr ⟨hfresh hget, hget⟩), hhandle⟩
  case refine_4 =>
    intro q prot hq
    rcases Heap.get_alloc_iff.mp hq with ⟨rfl, rfl⟩ | ⟨-, hq⟩
    · exact ⟨_, (Heap.get_set_iff hh).mpr (Or.inl ⟨rfl, rfl⟩), mem_cons_self⟩
    · obtain ⟨ih, hih, hmem⟩ := hlinked.onHandle q prot hq
      by_cases hsame : prot.handle = h
      · rw [hsame, hh] at hih
        cases hih
        exact ⟨_, (Heap.get_set_iff hh).mpr (Or.inl ⟨hsame, rfl⟩), mem_cons_of_mem _ hmem⟩
      · exact ⟨ih, (Heap.get_set_iff hh).mpr (Or.inr ⟨hsame, hih⟩), hmem⟩
  case refine_5 =>
    have hids := @modifyEntry_ids db protocol (fun entry =>
      { entry with protocols := entry.protocols ++ [db.interfaces.next] }) fun _ => rfl
    exact hids ▸ hlinked.entries_nodup
  case refine_6 =>
    intro e' he'
    obtain ⟨e, he, rfl⟩ := mem_modifyEntry.mp he'
    by_cases hprotocol : e.protocolId = protocol
    · rw [if_pos hprotocol]
      refine List.Nodup.append (hlinked.entry_nodup e he) (nodup_singleton _) ?_
      intro q hq hq'
      rw [mem_singleton.mp hq'] at hq
      exact hofEntry e he hq
    · rw [if_neg hprotocol]
      exact hlinked.entry_nodup e he
  case refine_7 =>
    intro e' he' q hq
    obtain ⟨e, he, rfl⟩ := mem_modifyEntry.mp he'
    have hold : q ∈ e.protocols → ∃ prot, (addInterface db h handle protocol
        interface).interfaces.get q = some prot ∧ prot.protocol = e.protocolId := by
      intro hq
      obtain ⟨prot, hget, hid⟩ := hlinked.ofEntry e he q hq
      exact ⟨prot, Heap.get_alloc_iff.mpr (Or.inr ⟨hfresh hget, hget⟩), hid⟩
    by_cases hprotocol : e.protocolId = protocol
    · rw [if_pos hprotocol] at hq ⊢
      rcases mem_append.mp hq with hq | hq
      · exact hold hq
      · rw [mem_singleton.mp hq]
        exact ⟨_, Heap.get_alloc_next, hprotocol.symm⟩
    · rw [if_neg hprotocol] at hq ⊢
      exact hold hq
  case refine_8 =>
    intro q prot hq
    rcases Heap.get_alloc_iff.mp hq with ⟨rfl, rfl⟩ | ⟨-, hq⟩
    · obtain ⟨e, he, hid⟩ := hentry
      refine ⟨_, mem_modifyEntry.mpr ⟨e, he, rfl⟩, ?_⟩
      rw [if_pos hid]
      exact ⟨hid, mem_append_right _ (mem_singleton_self _)⟩
    · obtain ⟨e, he, hid, hmem⟩ := hlinked.onEntry q prot hq
      refine ⟨_, mem_modifyEntry.mpr ⟨e, he, rfl⟩, ?_⟩
      by_cases hprotocol : e.protocolId = protocol
      · rw [if_pos hprotocol]
        exact ⟨hid, mem_append_left _ hmem⟩
      · rw [if_neg hprotocol]
        exact ⟨hid, hmem⟩
  case refine_9 =>
    intro q prot hq
    rcases Heap.get_alloc_iff.mp hq with ⟨-, rfl⟩ | ⟨-, hq⟩
    · rfl
    · exact hlinked.count q prot hq
  case refine_10 =>
    intro e' he' n hn q hq
    obtain ⟨e, he, rfl⟩ := mem_modifyEntry.mp he'
    by_cases hprotocol : e.protocolId = protocol
    · rw [if_pos hprotocol] at hn ⊢
      exact mem_append_left _ (hlinked.position e he n hn q hq)
    · rw [if_neg hprotocol] at hn ⊢
      exact hlinked.position e he n hn q hq

/-- A handle without interfaces freed. -/
theorem Linked.freeEmpty
    (hlinked : Linked db)
    (h : Nat) :
    Linked (freeEmptyHandle db h) := by
  rw [freeEmptyHandle]
  by_cases hempty : db.handles.get h = some ⟨[]⟩
  · rw [if_pos hempty]
    refine ⟨hlinked.handleList_nodup.erase h, ?_, ?_, ?_, ?_, hlinked.entries_nodup,
      hlinked.entry_nodup, hlinked.ofEntry, hlinked.onEntry, hlinked.count,
      hlinked.position⟩
    case refine_1 =>
      intro h'
      show h' ∈ db.handleList.erase h ↔ ∃ ih, (db.handles.free h).get h' = some ih
      rw [hlinked.handleList_nodup.mem_erase_iff, hlinked.mem_handleList h']
      constructor
      case mp =>
        rintro ⟨hne, ih, hih⟩
        exact ⟨ih, Heap.get_free_iff.mpr ⟨hne, hih⟩⟩
      case mpr =>
        rintro ⟨ih, hih⟩
        obtain ⟨hne, hih⟩ := Heap.get_free_iff.mp hih
        exact ⟨hne, ih, hih⟩
    case refine_2 =>
      exact fun h' ih hih => hlinked.protocols_nodup h' ih (Heap.get_free_iff.mp hih).2
    case refine_3 =>
      exact fun h' ih p hih => hlinked.ofHandle h' ih p (Heap.get_free_iff.mp hih).2
    case refine_4 =>
      intro p prot hp
      obtain ⟨ih, hih, hmem⟩ := hlinked.onHandle p prot hp
      refine ⟨ih, Heap.get_free_iff.mpr ⟨?_, hih⟩, hmem⟩
      rintro rfl
      rw [hempty] at hih
      cases hih
      exact not_mem_nil hmem
  · rw [if_neg hempty]
    exact hlinked

end Changes

end Hand
end Udk
