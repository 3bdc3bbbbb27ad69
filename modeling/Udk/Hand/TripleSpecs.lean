import Udk.Hand.Triples

/-!
# A single install and a single uninstall

What the calls that do not wait do to the installed triples.
-/

namespace Udk
namespace Hand

open Variable List

variable {db db' db'' : Database} {h p : Nat} {handle : IHandle} {prot prot' : ProtocolInterface}
  {protocol : Guid} {interface : Nat} {pool : Pool} {pair : Pair} {status : Status}
  {coreImage : Nat}

section Uninstall

/-- An interface is gone, and the others are as they were. -/
structure Removed (db db' : Database) (p : Nat) : Prop where
  consistent : Consistent db'
  get : ∀ q prot, db'.interfaces.get q = some prot ↔ q ≠ p ∧ db.interfaces.get q = some prot
  entry : ∀ protocol, HasEntry db protocol → HasEntry db' protocol

theorem findEntry_modifyEntry
    {f : ProtocolEntry → ProtocolEntry}
    (hid : ∀ e, (f e).protocolId = e.protocolId)
    (protocol' : Guid)
    (hentry : HasEntry db protocol) :
    HasEntry (db.modifyEntry protocol' f) protocol := by
  obtain ⟨e, he⟩ := Option.isSome_iff_exists.mp hentry
  rw [HasEntry, Database.findEntry, find?_isSome]
  refine ⟨_, mem_modifyEntry.mpr ⟨e, (findEntry_some he).1, rfl⟩, decide_eq_true ?_⟩
  split
  · exact (hid e).trans (findEntry_some he).2
  · exact (findEntry_some he).2

theorem Consistent.unlink
    (hdb : Consistent db)
    (hp : db.interfaces.get p = some prot)
    (hh : db.handles.get prot.handle = some handle) :
    Removed db (freeEmptyHandle (unlinkInterface db prot.handle handle prot.protocol p)
      prot.handle) p := by
  refine ⟨⟨(hdb.linked.unlink hp hh).freeEmpty _, hdb.used.unlink hh _ _, ?_⟩, ?_, ?_⟩
  case refine_1 =>
    rw [Distinct, unlink_interfaces]
    intro q q' prot₁ prot₂ hq hq'
    exact hdb.distinct q q' prot₁ prot₂ (Heap.get_free_iff.mp hq).2 (Heap.get_free_iff.mp hq').2
  case refine_2 =>
    intro q prot'
    rw [unlink_interfaces]
    exact Heap.get_free_iff
  case refine_3 =>
    intro protocol hentry
    have hunlink : HasEntry (unlinkInterface db prot.handle handle prot.protocol p) protocol :=
      findEntry_modifyEntry (f := fun entry =>
        { entry with
          protocols := entry.protocols.erase p
          notify := entry.notify.map fun notify =>
            if notify.position = some p then
              { notify with position := backLink p entry.protocols }
            else notify }) (fun _ => rfl) prot.protocol hentry
    rw [freeEmptyHandle]
    split
    · exact hunlink
    · exact hunlink

theorem OpenMode.not_byDriver
    {mode : OpenMode}
    (hpassive : mode.isPassive = true) :
    mode.hasByDriver = false := by
  cases mode
  case byDriver | byDriverExclusive => cases hpassive
  all_goals rfl

theorem Consistent.coreFindProtocolInterface
    (hdb : Consistent db)
    (hp : db.interfaces.get p = some prot)
    (hh : db.handles.get prot.handle = some handle) :
    coreFindProtocolInterface db handle prot.protocol prot.interface = some (some p) := by
  rcases hdb.linked.coreFindProtocolInterface hh prot.protocol prot.interface with
    ⟨-, hnone⟩ | ⟨q, prot', hfind, hq, hhandle, hprotocol, hinterface⟩
  · exact absurd rfl (hnone p prot hp rfl rfl)
  · rw [hfind, hdb.distinct q p prot' prot hq hp hhandle hprotocol hinterface]

theorem Consistent.dropPassive
    (hdb : Consistent db)
    (hp : db.interfaces.get p = some prot)
    (hpassive : Passive prot) :
    openListLeft prot = 0 ∧
      Quiet db (dropPassive db p prot) ∧
      (dropPassive db p prot).interfaces =
        db.interfaces.set p { prot with openList := [], openListCount := 0 } := by
  have hkept : (prot.openList.filter fun data => !data.attributes.isPassive) = [] :=
    filter_eq_nil_iff.mpr fun data hdata => by
      rw [hpassive data hdata]
      exact Bool.false_ne_true
  have hleft : openListLeft prot = 0 := by
    rw [openListLeft, hkept, hdb.linked.count p prot hp, length_nil, Nat.sub_zero,
      Nat.sub_self]
  have hquiet : Quiet db { db with
      interfaces := db.interfaces.set p { prot with openList := [], openListCount := 0 } } :=
    hdb.setOpenList hp rfl fun _ _ hdata => absurd hdata not_mem_nil
  have hinterfaces : (Hand.dropPassive db p prot).interfaces =
      db.interfaces.set p { prot with openList := [], openListCount := 0 } := by
    rw [Hand.dropPassive]
    simp only [hkept, hleft]
  refine ⟨hleft, hquiet.trans (hquiet.consistent.same ?_ ?_ dropPassive_handles hinterfaces),
    hinterfaces⟩
  case _ =>
    simp only [Hand.dropPassive, Database.readFreed]
    split
    · rfl
    · rfl
  case _ =>
    simp only [Hand.dropPassive, Database.readFreed]
    split
    · rfl
    · rfl

theorem Consistent.uninstallAtOnce_found
    (hdb : Consistent db)
    (hp : db.interfaces.get p = some prot)
    (hpassive : Passive prot)
    (hprotocol : pair.protocol = prot.protocol)
    (hinterface : pair.interface = prot.interface) :
    ∃ db', uninstallAtOnce db prot.handle pair = some (db', .success) ∧ Removed db db' p := by
  obtain ⟨handle, hh, -⟩ := hdb.linked.onHandle p prot hp
  obtain ⟨hleft, hquiet, hinterfaces⟩ := hdb.dropPassive hp hpassive
  have hfind : prot.openList.find? (fun data => data.attributes.hasByDriver) = none :=
    find?_eq_none.mpr fun data hdata => by
      rw [OpenMode.not_byDriver (hpassive data hdata)]
      exact Bool.false_ne_true
  have hp' : (Hand.dropPassive db p prot).interfaces.get p =
      some { prot with openList := [], openListCount := 0 } := by
    rw [hinterfaces]
    exact Heap.get_set_self hp
  have hh' : (Hand.dropPassive db p prot).handles.get prot.handle = some handle := by
    rw [dropPassive_handles]
    exact hh
  have hremoved := hquiet.consistent.unlink hp' hh'
  refine ⟨_, ?_, hremoved.consistent, fun q prot' => (hremoved.get q prot').trans ?_,
    fun protocol hentry => hremoved.entry protocol (hquiet.entry protocol hentry)⟩
  case refine_1 =>
    have hagain := hquiet.consistent.coreFindProtocolInterface hp' hh'
    simp only [uninstallAtOnce, coreUninstallProtocolInterface, findAndDisconnect,
      coreValidateHandle, readFreed_of_not (not_freed hh), hh, hprotocol, hinterface,
      hdb.coreFindProtocolInterface hp hh, disconnectNext, hp, hfind, disconnected, hleft,
      Nat.lt_irrefl, if_false, uninstallLocked, hh', hagain]
  case refine_2 =>
    refine and_congr_right fun hne => ?_
    rw [hinterfaces, Heap.get_set_of_ne hne]

theorem Consistent.uninstallAtOnce_missing
    (hdb : Consistent db)
    (hnone : ¬ Triple db h pair.protocol pair.interface) :
    ∃ db' status, uninstallAtOnce db h pair = some (db', status) ∧ status.isError = true ∧
      Quiet db db' := by
  cases hh : db.handles.get h with
  | none =>
      refine ⟨_, .invalidParameter, ?_, rfl, hdb.readFreed (db.handles.Freed h)⟩
      simp only [uninstallAtOnce, coreUninstallProtocolInterface, findAndDisconnect,
        coreValidateHandle, readFreed_handles, hh]
  | some handle =>
      rcases hdb.linked.coreFindProtocolInterface hh pair.protocol pair.interface with
        ⟨hfind, -⟩ | ⟨p, prot, -, hp, hhandle, hprotocol, hinterface⟩
      · refine ⟨db, .notFound, ?_, rfl, hdb.refl⟩
        simp only [uninstallAtOnce, coreUninstallProtocolInterface, findAndDisconnect,
          coreValidateHandle, readFreed_of_not (not_freed hh), hh, hfind]
      · exact absurd ⟨p, prot, hp, hhandle, hprotocol, hinterface⟩ hnone

end Uninstall

section Install

variable {result : Option (Database × Status × Nat)}

/-- A triple is there besides the others. -/
structure Added (db db' : Database) (h : Nat) (protocol : Guid) (interface : Nat) : Prop where
  consistent : Consistent db'
  new : ¬ Triple db h protocol interface
  triple_iff : ∀ h' g i, Triple db' h' g i ↔
    Triple db h' g i ∨ (h' = h ∧ g = protocol ∧ i = interface)
  passive : ∀ p prot', db'.interfaces.get p = some prot' → Passive prot' ∨
    ∃ prot, db.interfaces.get p = some prot ∧ prot'.triple = prot.triple ∧
      (Passive prot → Passive prot')
  entry : ∀ g, HasEntry db g → HasEntry db' g

theorem Consistent.insertOpenData
    (hdb : Consistent db)
    (hp : db.interfaces.get p = some prot)
    (agent controller : Nat)
    (pool : Pool) :
    ∃ db' status, insertOpenData db p agent controller .byHandleProtocol pool =
        some (db', .returns status) ∧ Quiet db db' ∧
      (pool.openData = true → status = .success) := by
  rw [Hand.insertOpenData]
  by_cases hagent : agent = 0
  · rw [if_pos hagent]
    exact ⟨db, _, rfl, hdb.refl, fun _ => rfl⟩
  · rw [if_neg hagent]
    by_cases hpool : pool.openData = true
    · rw [if_pos hpool, hp]
      have hquiet : Quiet db { db with
          interfaces := db.interfaces.set p
            { prot with
              openList := prot.openList ++ [⟨db.nextOpen, agent, controller, .byHandleProtocol, 1⟩]
              openListCount := prot.openListCount + 1 } } := by
        refine hdb.setOpenList hp ?_ fun hpassive data hdata => ?_
        case refine_1 =>
          rw [length_append, hdb.linked.count p prot hp]
          rfl
        case refine_2 =>
          rcases mem_append.mp hdata with hold | hnew
          · exact hpassive data hold
          · rw [mem_singleton.mp hnew]
            rfl
      exact ⟨_, _, rfl, hquiet.trans (hquiet.consistent.same rfl rfl rfl rfl), fun _ => rfl⟩
    · rw [if_neg hpool]
      exact ⟨db, _, rfl, hdb.refl, fun h => absurd h hpool⟩

theorem scanOpenList_passive
    {agent controller : Nat}
    (list : List OpenData)
    (byDriver exclusive : Bool) :
    scanOpenList agent controller .byHandleProtocol list byDriver exclusive ≠ .alreadyStarted := by
  induction list generalizing byDriver exclusive with
  | nil =>
      intro hscan
      cases hscan
  | cons data list ih =>
      intro hscan
      rw [scanOpenList] at hscan
      by_cases hstarted : data.attributes.hasByDriver = true ∧ data.agentHandle = agent ∧
          data.attributes = .byHandleProtocol ∧ data.controllerHandle = controller
      · rw [hstarted.2.2.1] at hstarted
        exact Bool.false_ne_true hstarted.1
      · rw [if_neg hstarted] at hscan
        split at hscan
        · cases hscan
        · split at hscan
          · cases hscan
          next scan hnot =>
            exact ih _ _ (by rw [hscan])

/-- `CoreHandleProtocol` only adds a record, and it succeeds on an installed protocol if it has
pool. -/
theorem Consistent.coreOpenProtocol
    (hdb : Consistent db)
    (coreImage h : Nat)
    (protocol : Guid)
    (pool : Pool) :
    ∃ db' status, coreOpenProtocol db h protocol coreImage 0 0x01 pool =
        some (db', .returns status) ∧ Quiet db db' ∧
      (status = .success → ∃ interface, Triple db h protocol interface) ∧
      (pool.openData = true → (∃ interface, Triple db h protocol interface) →
        status = .success) := by
  rw [Hand.coreOpenProtocol, coreValidateHandle]
  cases hh : db.handles.get h with
  | none =>
      refine ⟨_, .invalidParameter, rfl, hdb.readFreed _, Status.noConfusion, fun _ => ?_⟩
      rintro ⟨interface, htriple⟩
      obtain ⟨handle, hh'⟩ := hdb.handle_iff.mpr ⟨protocol, interface, htriple⟩
      rw [hh] at hh'
      cases hh'
  | some handle =>
      rw [readFreed_of_not (not_freed hh)]
      simp only [Option.isSome_some, if_true, OpenMode.ofAttributes, OpenMode.handles,
        validateHandles, reduceCtorEq, false_and, not_false_eq_true, and_true, hh]
      rw [openLocked]
      rcases hdb.linked.coreGetProtocolInterface hh protocol with
        ⟨hnone, hall⟩ | ⟨p, prot, hsome, hp, hhandle, hprotocol⟩
      · refine ⟨db, .unsupported, by simp only [hnone], hdb.refl, Status.noConfusion, fun _ => ?_⟩
        rintro ⟨interface, p, prot, hp, hhandle, hprotocol, -⟩
        exact absurd hprotocol (hall p prot hp hhandle)
      · have hthere : ∃ interface, Triple db h protocol interface :=
          ⟨prot.interface, p, prot, hp, hhandle, hprotocol, rfl⟩
        simp only [hsome, hp]
        cases hscan : scanOpenList coreImage 0 .byHandleProtocol prot.openList false false with
        | alreadyStarted => exact absurd hscan (scanOpenList_passive _ _ _)
        | counted openList =>
            obtain ⟨howner, hlength⟩ := scanOpenList_counted hscan
            refine ⟨_, .success, rfl, hdb.setOpenList hp ?_ ?_, fun _ => hthere,
              fun _ _ => rfl⟩
            case refine_1 => exact (hdb.linked.count p prot hp).trans hlength.symm
            case refine_2 =>
              intro hpassive data hdata
              obtain ⟨old, hold, heq⟩ := mem_owner howner data hdata
              have hattributes : old.attributes = data.attributes := congrArg Prod.fst heq
              rw [← hattributes]
              exact hpassive old hold
        | flags byDriver exclusive =>
            obtain ⟨db', status, hinsert, hquiet, hpool⟩ := hdb.insertOpenData hp coreImage 0 pool
            refine ⟨db', status, ?_, hquiet, fun _ => hthere, fun h _ => hpool h⟩
            simp only [reduceCtorEq, false_and, OpenMode.hasExclusive, Bool.false_eq_true,
              or_self, if_false, hinsert]

theorem Quiet.added
    (hquiet : Quiet db db')
    (hadded : Added db' db'' h protocol interface) :
    Added db db'' h protocol interface := by
  refine ⟨hadded.consistent, fun htriple => hadded.new (hquiet.triple_iff.mpr htriple),
    fun h' g i => (hadded.triple_iff h' g i).trans (or_congr_left hquiet.triple_iff), ?_,
    fun g hentry => hadded.entry g (hquiet.entry g hentry)⟩
  intro p prot'' hget''
  rcases hadded.passive p prot'' hget'' with hpassive | ⟨prot', hget', htriple, hpassive⟩
  · exact Or.inl hpassive
  · obtain ⟨prot, hget, hsame, hpassive'⟩ := hquiet.old hget'
    exact Or.inr ⟨prot, hget, htriple.trans hsame, fun h => hpassive (hpassive' h)⟩

/-- A new interface whose triple is not there yet. -/
theorem Added.ofAdd
    (hlinked : Linked db)
    (hused : ∀ h' ih, db.handles.get h' = some ih → h' ≠ h → ih.protocols ≠ [])
    (hdistinct : Distinct db)
    (hh : db.handles.get h = some handle)
    (hentry : HasEntry db protocol)
    (hnew : ¬ Triple db h protocol interface) :
    Added db (addInterface db h handle protocol interface) h protocol interface := by
  obtain ⟨e, he⟩ := Option.isSome_iff_exists.mp hentry
  have hadd : ∀ g, HasEntry db g → HasEntry (addInterface db h handle protocol interface) g :=
    fun g hg => findEntry_modifyEntry (f := fun entry =>
      { entry with protocols := entry.protocols ++ [db.interfaces.next] }) (fun _ => rfl) protocol hg
  refine ⟨⟨hlinked.add hh ⟨e, findEntry_some he⟩ interface,
    handlesUsed_add hused hh protocol interface, ?_⟩, hnew, fun h' g i => ?_, ?_, hadd⟩
  case refine_1 =>
    intro q q' prot₁ prot₂ hq hq' hhandle hprotocol hinterface
    rcases Heap.get_alloc_iff.mp hq with ⟨rfl, rfl⟩ | ⟨-, hq⟩
    · rcases Heap.get_alloc_iff.mp hq' with ⟨rfl, -⟩ | ⟨-, hq'⟩
      · rfl
      · exact absurd ⟨q', prot₂, hq', hhandle.symm, hprotocol.symm, hinterface.symm⟩ hnew
    · rcases Heap.get_alloc_iff.mp hq' with ⟨rfl, rfl⟩ | ⟨-, hq'⟩
      · exact absurd ⟨q, prot₁, hq, hhandle, hprotocol, hinterface⟩ hnew
      · exact hdistinct q q' prot₁ prot₂ hq hq' hhandle hprotocol hinterface
  case refine_2 =>
    constructor
    case mp =>
      rintro ⟨q, prot, hq, rfl, rfl, rfl⟩
      rcases Heap.get_alloc_iff.mp hq with ⟨-, rfl⟩ | ⟨-, hq⟩
      · exact Or.inr ⟨rfl, rfl, rfl⟩
      · exact Or.inl ⟨q, prot, hq, rfl, rfl, rfl⟩
    case mpr =>
      rintro (⟨q, prot, hq, hmatch⟩ | ⟨rfl, rfl, rfl⟩)
      · have hne : q ≠ db.interfaces.next := Nat.ne_of_lt (Heap.lt_next hq)
        exact ⟨q, prot, Heap.get_alloc_iff.mpr (Or.inr ⟨hne, hq⟩), hmatch⟩
      · exact ⟨_, _, Heap.get_alloc_next, rfl, rfl, rfl⟩
  case refine_3 =>
    intro q prot hq
    rcases Heap.get_alloc_iff.mp hq with ⟨-, rfl⟩ | ⟨-, hq⟩
    · exact Or.inl fun _ hdata => absurd hdata not_mem_nil
    · exact Or.inr ⟨prot, hq, rfl, id⟩

/-- What an install does: it fails, or it adds the triple on the handle, or on a new one; when
the triple is there already and the check could not tell, its assertion fails. -/
def Installs (db : Database) (h : Nat) (pair : Pair)
    (result : Option (Database × Status × Nat)) : Prop :=
  (result = none ∧ Triple db h pair.protocol pair.interface) ∨
    (∃ db' status, result = some (db', status, h) ∧ status.isError = true ∧ Quiet db db') ∨
    ∃ db' h', result = some (db', .success, h') ∧ (h' = h ∨ h = 0) ∧
      Added db db' h' pair.protocol pair.interface

theorem Installs.quiet
    (hquiet : Quiet db db')
    (hinstalls : Installs db' h pair result) :
    Installs db h pair result := by
  rcases hinstalls with ⟨hnone, htriple⟩ | ⟨db'', status, hresult, herror, hafter⟩ |
    ⟨db'', h', hresult, hhandle, hadded⟩
  · exact Or.inl ⟨hnone, hquiet.triple_iff.mp htriple⟩
  · exact Or.inr (Or.inl ⟨db'', status, hresult, herror, hquiet.trans hafter⟩)
  · exact Or.inr (Or.inr ⟨db'', h', hresult, hhandle, hquiet.added hadded⟩)

theorem Consistent.coreFindProtocolEntry
    (hdb : Consistent db)
    (protocol : Guid)
    (pool : Bool) :
    (Hand.coreFindProtocolEntry db protocol pool = none ∧ ¬ HasEntry db protocol) ∨
      ∃ db', Hand.coreFindProtocolEntry db protocol pool = some db' ∧ Quiet db db' ∧
        HasEntry db' protocol := by
  rw [Hand.coreFindProtocolEntry]
  cases hfind : db.findEntry protocol with
  | some e => exact Or.inr ⟨db, rfl, hdb.refl, by rw [HasEntry, hfind]; rfl⟩
  | none =>
      cases pool with
      | false => exact Or.inl ⟨rfl, by rw [HasEntry, hfind]; exact Bool.false_ne_true⟩
      | true =>
          have hentry : ∀ g, HasEntry db g →
              HasEntry { db with entries := db.entries ++ [⟨protocol, [], []⟩] } g := by
            intro g hg
            rw [HasEntry, Database.findEntry, find?_isSome] at hg ⊢
            obtain ⟨e, he, hid⟩ := hg
            exact ⟨e, mem_append_left _ he, hid⟩
          refine Or.inr ⟨_, rfl, ⟨⟨hdb.linked.newEntry (findEntry_none hfind), hdb.used,
            hdb.distinct⟩, rfl, fun _ => rfl, ?_, hentry⟩, ?_⟩
          case refine_1 =>
            intro p prot prot' hget hget'
            rw [hget] at hget'
            cases hget'
            exact id
          case refine_2 =>
            rw [HasEntry, Database.findEntry, find?_isSome]
            exact ⟨_, mem_append_right _ (mem_singleton_self _), decide_eq_true rfl⟩

theorem Consistent.linkNew
    (hdb : Consistent db)
    (hentry : HasEntry db protocol)
    (interface : Nat) :
    ∃ db', linkInterface { db with
          handles := db.handles.alloc ⟨[]⟩
          handleList := db.handleList ++ [db.handles.next] } db.handles.next ⟨[]⟩ protocol
        interface = some (db', .installed db.handles.next) ∧
      Added db db' db.handles.next protocol interface := by
  have hfresh : ∀ g i, ¬ Triple db db.handles.next g i := by
    rintro g i ⟨p, prot, hp, hprot, -⟩
    obtain ⟨ih, hih, -⟩ := hdb.linked.onHandle p prot hp
    exact absurd (hprot ▸ Heap.lt_next hih) (Nat.lt_irrefl _)
  have hadded := Added.ofAdd hdb.linked.newHandle (fun h' ih hih hne => ?_) hdb.distinct
    Heap.get_alloc_next hentry (hfresh protocol interface)
  case _ =>
    refine ⟨_, ?_, hadded.consistent, hfresh _ _, hadded.triple_iff, hadded.passive, hadded.entry⟩
    rw [linkInterface, Hand.coreFindProtocolInterface]
    split
    · rfl
    next hfind =>
      split at hfind
      · exact absurd rfl hfind
      · exact absurd rfl hfind
  case _ =>
    rcases Heap.get_alloc_iff.mp hih with ⟨heq, -⟩ | ⟨-, hih⟩
    · exact absurd heq hne
    · exact hdb.used h' ih hih

/-- The part of an install that owns the lock. -/
theorem Consistent.installLocked
    (hdb : Consistent db)
    (checked : Status)
    (hchecked : checked.isError = true)
    (h : Nat)
    (pair : Pair) :
    Installs db h pair (installResult h
      (installLocked db h pair.protocol pair.interface checked pair.pool)) := by
  rw [Hand.installLocked]
  rcases hdb.coreFindProtocolEntry pair.protocol pair.pool.entry with
    ⟨hnone, -⟩ | ⟨db₁, hsome, hquiet, hentry⟩
  · rw [hnone]
    exact Or.inr (Or.inl ⟨db, checked, rfl, hchecked, hdb.refl⟩)
  · rw [hsome]
    refine Installs.quiet hquiet ?_
    have hdb₁ := hquiet.consistent
    simp only
    by_cases hpool : pair.pool.interface = true
    · rw [if_pos hpool]
      by_cases hzero : h = 0
      · rw [if_pos hzero]
        by_cases hhandle : pair.pool.handle = true
        · rw [if_pos hhandle]
          obtain ⟨db₂, hlink, hadded⟩ := hdb₁.linkNew hentry pair.interface
          refine Or.inr (Or.inr ⟨_, _, ?_, Or.inr hzero, hadded⟩)
          rw [hlink]
          rfl
        · rw [if_neg hhandle]
          exact Or.inr (Or.inl ⟨db₁, .outOfResources, rfl, rfl, hdb₁.refl⟩)
      · rw [if_neg hzero, coreValidateHandle]
        cases hh : db₁.handles.get h with
        | none =>
            refine Or.inr (Or.inl ⟨_, .invalidParameter, ?_, rfl,
              hdb₁.readFreed (db₁.handles.Freed h)⟩)
            simp only [readFreed_handles, hh]
            rfl
        | some handle =>
            rw [readFreed_of_not (not_freed hh)]
            simp only [hh, linkInterface]
            rcases hdb₁.linked.coreFindProtocolInterface hh pair.protocol pair.interface with
              ⟨hfind, hall⟩ | ⟨p, prot, hfind, hp, hmatch⟩
            · rw [hfind]
              refine Or.inr (Or.inr ⟨_, h, rfl, Or.inl rfl, Added.ofAdd hdb₁.linked
                (fun h' ih hih _ => hdb₁.used h' ih hih) hdb₁.distinct hh hentry ?_⟩)
              rintro ⟨p, prot, hp, hhandle, hprotocol, hinterface⟩
              exact hall p prot hp hhandle hprotocol hinterface
            · rw [hfind]
              exact Or.inl ⟨rfl, p, prot, hp, hmatch⟩
    · rw [if_neg hpool]
      exact Or.inr (Or.inl ⟨db₁, .outOfResources, rfl, rfl, hdb₁.refl⟩)

theorem linkInterface_not_waits
    {frame : Frame} :
    linkInterface db h handle protocol interface ≠ some (db', .waits frame) := by
  intro hresult
  rw [linkInterface] at hresult
  split at hresult
  · cases hresult
  · cases hresult

theorem installLocked_not_waits
    {frame : Frame}
    {checked : Status} :
    Hand.installLocked db h protocol interface checked pool ≠ some (db', .waits frame) := by
  intro hresult
  rw [Hand.installLocked] at hresult
  split at hresult
  · cases hresult
  · split at hresult
    · split at hresult
      · split at hresult
        · exact linkInterface_not_waits hresult
        · cases hresult
      · simp only at hresult
        split at hresult
        · cases hresult
        · exact linkInterface_not_waits hresult
    · cases hresult

theorem Consistent.coreInstallProtocolInterface_cases
    (hdb : Consistent db)
    (coreImage : Nat)
    (hzero : h ≠ 0)
    (pair : Pair) :
    ∃ db₁, Quiet db db₁ ∧
      (((∃ i, Triple db h pair.protocol i) ∧
        coreInstallProtocolInterface coreImage db h pair = some (db₁, .invalidParameter, h)) ∨
      ∃ status, status.isError = true ∧
        (pair.pool.openData = true → ¬ ∃ i, Triple db h pair.protocol i) ∧
        coreInstallProtocolInterface coreImage db h pair = installResult h
          (Hand.installLocked db₁ h pair.protocol pair.interface status pair.pool)) := by
  obtain ⟨db₁, status, hopen, hquiet, hthere, hfound⟩ :=
    hdb.coreOpenProtocol coreImage h pair.protocol pair.pool
  refine ⟨db₁, hquiet, ?_⟩
  rw [coreInstallProtocolInterface, coreInstallProtocolInterfaceNotify, if_neg hzero, hopen]
  have hnot : status ≠ .success → pair.pool.openData = true →
      ¬ ∃ i, Triple db h pair.protocol i :=
    fun hstatus hpool htriple => hstatus (hfound hpool htriple)
  cases hcase : status
  case success => exact Or.inl ⟨hthere hcase, rfl⟩
  all_goals exact Or.inr ⟨status, by rw [hcase]; rfl, hnot (by rw [hcase]; exact Status.noConfusion), by
    rw [hcase]⟩

theorem Installs.defined
    (hinstalls : Installs db h pair result)
    (hnot : ¬ Triple db h pair.protocol pair.interface) :
    result ≠ none := by
  rcases hinstalls with ⟨-, htriple⟩ | ⟨db', status, hsome, -⟩ | ⟨db', h', hsome, -⟩
  · exact absurd htriple hnot
  · rw [hsome]
    exact Option.some_ne_none _
  · rw [hsome]
    exact Option.some_ne_none _

theorem Consistent.coreInstallProtocolInterface
    (hdb : Consistent db)
    (coreImage h : Nat)
    (pair : Pair) :
    Installs db h pair (coreInstallProtocolInterface coreImage db h pair) ∧
      (pair.pool.openData = true → coreInstallProtocolInterface coreImage db h pair ≠ none) := by
  by_cases hzero : h = 0
  · have hlocked := hdb.installLocked .outOfResources rfl h pair
    have hresult : Hand.coreInstallProtocolInterface coreImage db h pair = installResult h
        (Hand.installLocked db h pair.protocol pair.interface .outOfResources pair.pool) := by
      rw [Hand.coreInstallProtocolInterface, coreInstallProtocolInterfaceNotify, if_pos hzero,
        hzero]
      split
      next hwaits => exact absurd hwaits installLocked_not_waits
      · rfl
    rw [hresult]
    exact ⟨hlocked, fun _ => hlocked.defined fun htriple => htriple.ne_zero hdb hzero⟩
  · obtain ⟨db₁, hquiet, ⟨-, hresult⟩ | ⟨status, herror, hnot, hresult⟩⟩ :=
      hdb.coreInstallProtocolInterface_cases coreImage hzero pair
    · rw [hresult]
      exact ⟨Or.inr (Or.inl ⟨db₁, _, rfl, rfl, hquiet⟩), fun _ => Option.some_ne_none _⟩
    · have hlocked := (hquiet.consistent.installLocked status herror h pair).quiet hquiet
      rw [hresult]
      exact ⟨hlocked, fun hpool => hlocked.defined fun htriple => hnot hpool ⟨_, htriple⟩⟩

theorem Consistent.coreInstallProtocolInterface_adds
    (hdb : Consistent db)
    (coreImage : Nat)
    (hh : db.handles.get h = some handle)
    (hnone : ∀ i, ¬ Triple db h pair.protocol i)
    (hentry : HasEntry db pair.protocol)
    (hpool : pair.pool.interface = true) :
    ∃ db', Hand.coreInstallProtocolInterface coreImage db h pair = some (db', .success, h) ∧
      Added db db' h pair.protocol pair.interface := by
  obtain ⟨db₁, hquiet, ⟨⟨i, hthere⟩, -⟩ | ⟨status, -, -, hresult⟩⟩ :=
    hdb.coreInstallProtocolInterface_cases coreImage (Heap.ne_zero hh) pair
  · exact absurd hthere (hnone i)
  · have hh₁ : db₁.handles.get h = some handle := by
      rw [hquiet.handles]
      exact hh
    have hentry₁ := hquiet.entry pair.protocol hentry
    have hnew : ¬ Triple db₁ h pair.protocol pair.interface :=
      fun htriple => hnone _ (hquiet.triple_iff.mp htriple)
    obtain ⟨e, he⟩ := Option.isSome_iff_exists.mp hentry₁
    have hfind : Hand.coreFindProtocolInterface db₁ handle pair.protocol pair.interface =
        some none := by
      rcases hquiet.consistent.linked.coreFindProtocolInterface hh₁ pair.protocol
        pair.interface with ⟨hfind, -⟩ | ⟨p, prot, -, hp, hmatch⟩
      · exact hfind
      · exact absurd ⟨p, prot, hp, hmatch⟩ hnew
    refine ⟨_, ?_, hquiet.added (Added.ofAdd hquiet.consistent.linked
      (fun h' ih hih _ => hquiet.consistent.used h' ih hih) hquiet.consistent.distinct hh₁ hentry₁
      hnew)⟩
    rw [hresult, Hand.installLocked, Hand.coreFindProtocolEntry, he]
    simp only [hpool, if_true, if_neg (Heap.ne_zero hh), coreValidateHandle,
      readFreed_of_not (not_freed hh₁), hh₁, linkInterface, hfind, installResult]

theorem Consistent.coreInstallProtocolInterface_fails
    (hdb : Consistent db)
    (coreImage : Nat)
    (hzero : h ≠ 0)
    (hfails : db.handles.get h = none ∨ pair.pool.interface = false) :
    ∃ db' status, Hand.coreInstallProtocolInterface coreImage db h pair = some (db', status, h) ∧
      Quiet db db' := by
  obtain ⟨db₁, hquiet, ⟨-, hresult⟩ | ⟨status, -, -, hresult⟩⟩ :=
    hdb.coreInstallProtocolInterface_cases coreImage hzero pair
  · exact ⟨db₁, _, hresult, hquiet⟩
  · rw [hresult, Hand.installLocked]
    rcases hquiet.consistent.coreFindProtocolEntry pair.protocol pair.pool.entry with
      ⟨hnone, -⟩ | ⟨db₂, hsome, hquiet₂, -⟩
    · rw [hnone]
      exact ⟨db₁, status, rfl, hquiet⟩
    · rw [hsome]
      by_cases hpool : pair.pool.interface = true
      · have hgone : db₂.handles.get h = none := by
          rw [hquiet₂.handles, hquiet.handles]
          exact hfails.resolve_right (by rw [hpool]; exact Bool.noConfusion)
        refine ⟨_, .invalidParameter, ?_, hquiet.trans (hquiet₂.trans
          (hquiet₂.consistent.readFreed (db₂.handles.Freed h)))⟩
        simp only [hpool, if_true, if_neg hzero, coreValidateHandle, readFreed_handles, hgone,
          installResult]
      · simp only [hpool]
        exact ⟨db₂, .outOfResources, rfl, hquiet.trans hquiet₂⟩

end Install

end Hand
end Udk
