import Udk.Hand.MultipleProtocols
import Udk.Hand.HandleRun

/-!
# Installed triples

The handles, protocols and interfaces that are installed, and what a single install and a
single uninstall do to them.
-/

namespace Udk
namespace Hand

open Variable

/-- The interface of the protocol is installed on the handle. -/
def Triple (db : Database) (h : Nat) (protocol : Guid) (interface : Nat) : Prop :=
  ∃ p prot, db.interfaces.get p = some prot ∧ prot.handle = h ∧ prot.protocol = protocol ∧
    prot.interface = interface

/-- No triple is installed twice. -/
def Distinct (db : Database) : Prop :=
  ∀ p q prot prot', db.interfaces.get p = some prot → db.interfaces.get q = some prot' →
    prot.handle = prot'.handle → prot.protocol = prot'.protocol →
    prot.interface = prot'.interface → p = q

/-- The links are right. -/
structure Consistent (db : Database) : Prop where
  linked : Linked db
  used : HandlesUsed db
  distinct : Distinct db

/-- Only records of `CoreHandleProtocol` and the like are open. -/
def Passive (prot : ProtocolInterface) : Prop :=
  ∀ data ∈ prot.openList, data.attributes.isPassive = true

variable {db db' db'' : Database} {h p : Nat} {handle : IHandle} {prot prot' : ProtocolInterface}
  {protocol : Guid} {interface : Nat} {pool : Pool} {pair : Pair} {status : Status}

theorem Linked.congr
    (hlinked : Linked db)
    (hlist : db'.handleList = db.handleList)
    (hentries : db'.entries = db.entries)
    (hhandles : db'.handles = db.handles)
    (hinterfaces : db'.interfaces = db.interfaces) :
    Linked db' := by
  obtain ⟨list, entries, handles, interfaces, o, n, stale⟩ := db
  obtain ⟨list', entries', handles', interfaces', o', n', stale'⟩ := db'
  obtain rfl : list' = list := hlist
  obtain rfl : entries' = entries := hentries
  obtain rfl : handles' = handles := hhandles
  obtain rfl : interfaces' = interfaces := hinterfaces
  obtain ⟨h₁, h₂, h₃, h₄, h₅, h₆, h₇, h₈, h₉, h₁₀, h₁₁⟩ := hlinked
  exact ⟨h₁, h₂, h₃, h₄, h₅, h₆, h₇, h₈, h₉, h₁₀, h₁₁⟩

theorem Consistent.handle_iff
    (hdb : Consistent db) :
    (∃ handle, db.handles.get h = some handle) ↔
      ∃ protocol interface, Triple db h protocol interface := by
  constructor
  case mp =>
    rintro ⟨handle, hh⟩
    obtain ⟨p, hp⟩ := List.exists_mem_of_ne_nil _ (hdb.used h handle hh)
    obtain ⟨prot, hget, hhandle⟩ := hdb.linked.ofHandle h handle p hh hp
    exact ⟨prot.protocol, prot.interface, p, prot, hget, hhandle, rfl, rfl⟩
  case mpr =>
    rintro ⟨protocol, interface, p, prot, hget, rfl, -, -⟩
    obtain ⟨handle, hh, -⟩ := hdb.linked.onHandle p prot hget
    exact ⟨handle, hh⟩

theorem Triple.ne_zero
    (hdb : Consistent db)
    (htriple : Triple db h protocol interface) :
    h ≠ 0 := by
  obtain ⟨handle, hh⟩ := hdb.handle_iff.mpr ⟨protocol, interface, htriple⟩
  exact Heap.ne_zero hh

/-- An entry of the protocol is there. -/
def HasEntry (db : Database) (protocol : Guid) : Prop :=
  (db.findEntry protocol).isSome

theorem Triple.hasEntry
    (hdb : Consistent db)
    (htriple : Triple db h protocol interface) :
    HasEntry db protocol := by
  obtain ⟨p, prot, hget, -, rfl, -⟩ := htriple
  obtain ⟨e, he⟩ := hdb.linked.findEntry hget
  rw [HasEntry, he]
  rfl

section Quiet

/-- What of an interface makes its triple. -/
def ProtocolInterface.triple (prot : ProtocolInterface) : Nat × Guid × Nat :=
  (prot.handle, prot.protocol, prot.interface)

/-- Nothing but passive records and protocol entries has been added. -/
structure Quiet (db db' : Database) : Prop where
  consistent : Consistent db'
  handles : db'.handles = db.handles
  triple : ∀ p, (db'.interfaces.get p).map ProtocolInterface.triple =
    (db.interfaces.get p).map ProtocolInterface.triple
  passive : ∀ p prot prot', db.interfaces.get p = some prot → db'.interfaces.get p = some prot' →
    Passive prot → Passive prot'
  entry : ∀ protocol, HasEntry db protocol → HasEntry db' protocol

theorem Quiet.trans
    (h₁ : Quiet db db')
    (h₂ : Quiet db' db'') :
    Quiet db db'' := by
  refine ⟨h₂.consistent, h₂.handles.trans h₁.handles, fun p => (h₂.triple p).trans (h₁.triple p),
    fun p prot prot'' hget hget'' hpassive => ?_,
    fun protocol hentry => h₂.entry protocol (h₁.entry protocol hentry)⟩
  have hsame := h₁.triple p
  rw [hget] at hsame
  obtain ⟨prot', hget', -⟩ := Option.map_eq_some_iff.mp hsame
  exact h₂.passive p prot' prot'' hget' hget'' (h₁.passive p prot prot' hget hget' hpassive)

theorem Quiet.old
    (hquiet : Quiet db db')
    (hget' : db'.interfaces.get p = some prot') :
    ∃ prot, db.interfaces.get p = some prot ∧ prot'.triple = prot.triple ∧
      (Passive prot → Passive prot') := by
  have hsame := hquiet.triple p
  rw [hget'] at hsame
  obtain ⟨prot, hget, htriple⟩ := Option.map_eq_some_iff.mp hsame.symm
  exact ⟨prot, hget, htriple.symm, hquiet.passive p prot prot' hget hget'⟩

theorem Quiet.triple_iff
    (hquiet : Quiet db db') :
    Triple db' h protocol interface ↔ Triple db h protocol interface := by
  have hone : ∀ {d d' : Database}, (∀ p, (d'.interfaces.get p).map ProtocolInterface.triple =
      (d.interfaces.get p).map ProtocolInterface.triple) →
      Triple d h protocol interface → Triple d' h protocol interface := by
    rintro d d' hsame ⟨p, prot, hget, rfl, rfl, rfl⟩
    have hp := hsame p
    rw [hget] at hp
    obtain ⟨prot', hget', htriple⟩ := Option.map_eq_some_iff.mp hp
    rw [ProtocolInterface.triple, ProtocolInterface.triple, Prod.mk.injEq, Prod.mk.injEq] at htriple
    exact ⟨p, prot', hget', htriple⟩
  exact ⟨hone fun p => (hquiet.triple p).symm, hone hquiet.triple⟩

theorem Consistent.same
    (hdb : Consistent db)
    (hlist : db'.handleList = db.handleList)
    (hentries : db'.entries = db.entries)
    (hhandles : db'.handles = db.handles)
    (hinterfaces : db'.interfaces = db.interfaces) :
    Quiet db db' := by
  refine ⟨⟨hdb.linked.congr hlist hentries hhandles hinterfaces, ?_, ?_⟩, hhandles, ?_, ?_, ?_⟩
  case refine_1 =>
    rw [HandlesUsed, hhandles]
    exact hdb.used
  case refine_2 =>
    rw [Distinct, hinterfaces]
    exact hdb.distinct
  case refine_3 => exact fun p => by rw [hinterfaces]
  case refine_4 =>
    intro p prot prot' hget hget'
    rw [hinterfaces, hget] at hget'
    cases hget'
    exact id
  case refine_5 =>
    intro protocol hentry
    rw [HasEntry, Database.findEntry, hentries]
    exact hentry

theorem Consistent.refl
    (hdb : Consistent db) :
    Quiet db db :=
  hdb.same rfl rfl rfl rfl

theorem Consistent.readFreed
    (hdb : Consistent db)
    (freed : Prop) [Decidable freed] :
    Quiet db (db.readFreed freed) := by
  rw [Database.readFreed]
  split
  · exact hdb.same rfl rfl rfl rfl
  · exact hdb.refl

/-- A new open list with passive records only, where the old one had no others. -/
theorem Consistent.setOpenList
    {openList : List OpenData}
    {openListCount : Nat}
    (hdb : Consistent db)
    (hget : db.interfaces.get p = some prot)
    (hcount : openListCount = openList.length)
    (hpassive : Passive prot → Passive { prot with openList, openListCount }) :
    Quiet db { db with
      interfaces := db.interfaces.set p { prot with openList, openListCount } } := by
  have hsame : ∀ q, ((db.interfaces.set p { prot with openList, openListCount }).get q).map
      ProtocolInterface.triple = (db.interfaces.get q).map ProtocolInterface.triple := by
    intro q
    by_cases hq : q = p
    · rw [hq, Heap.get_set_self hget, hget]
      rfl
    · rw [Heap.get_set_of_ne hq]
  refine ⟨⟨hdb.linked.setInterface hget rfl rfl hcount, hdb.used, ?_⟩, rfl, hsame, ?_,
    fun _ => id⟩
  case refine_1 =>
    have hold : ∀ q prot₁, (db.interfaces.set p { prot with openList, openListCount }).get q =
        some prot₁ → ∃ prot₀, db.interfaces.get q = some prot₀ ∧ prot₀.triple = prot₁.triple := by
      intro q prot₁ hq
      have hmap := hsame q
      rw [hq] at hmap
      exact Option.map_eq_some_iff.mp hmap.symm
    intro q q' prot₁ prot₂ hq hq' hh hp hi
    obtain ⟨old₁, hold₁, heq₁⟩ := hold q prot₁ hq
    obtain ⟨old₂, hold₂, heq₂⟩ := hold q' prot₂ hq'
    have htriple : old₁.triple = old₂.triple := by
      rw [heq₁, heq₂, ProtocolInterface.triple, ProtocolInterface.triple, hh, hp, hi]
    rw [ProtocolInterface.triple, ProtocolInterface.triple, Prod.mk.injEq, Prod.mk.injEq] at htriple
    exact hdb.distinct q q' old₁ old₂ hold₁ hold₂ htriple.1 htriple.2.1 htriple.2.2
  case refine_2 =>
    intro q prot₁ prot₂ hq hq' hpass
    rcases (Heap.get_set_iff hget).mp hq' with ⟨rfl, rfl⟩ | ⟨-, hold⟩
    · rw [hget] at hq
      cases hq
      exact hpassive hpass
    · rw [hq] at hold
      cases hold
      exact hpass

end Quiet

end Hand
end Udk
