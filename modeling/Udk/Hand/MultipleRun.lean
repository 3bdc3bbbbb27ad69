import Udk.Hand.TripleSpecs

/-!
# Lists of protocols are installed and uninstalled

After an error `CoreInstallMultipleProtocolInterfaces` leaves the triples that were there.
`CoreUninstallMultipleProtocolInterfaces` does so unless it has taken the last interface of the
handle, which frees the handle, or has no pool to add an interface again.
-/

namespace Udk
namespace Hand

open Variable List

variable {db₀ db db' : Database} {h h' p : Nat} {handle : IHandle}
  {prot prot' : ProtocolInterface} {protocol : Guid} {interface : Nat} {pair : Pair}
  {pairs : List Pair} {coreImage : Nat} {paths : Nat → DevicePath} {new removed : List (Guid × Nat)}

/-- What a pair installs. -/
def Pair.key (pair : Pair) : Guid × Nat :=
  (pair.protocol, pair.interface)

section DevicePaths

theorem Consistent.coreHandleProtocol
    (hdb : Consistent db)
    (coreImage h : Nat)
    (protocol : Guid)
    (pool : Pool) :
    ∃ db' status interface, coreHandleProtocol coreImage db h protocol pool =
      some (db', status, interface) ∧ Quiet db db' := by
  obtain ⟨db', status, hopen, hquiet, -, -⟩ := hdb.coreOpenProtocol coreImage h protocol pool
  rw [Hand.coreHandleProtocol, hopen]
  cases hh : db.handles.get h with
  | none => exact ⟨db', status, 0, rfl, hquiet⟩
  | some handle =>
      rcases hdb.linked.coreGetProtocolInterface hh protocol with
        ⟨hnone, -⟩ | ⟨p, prot, hsome, hp, -, -⟩
      · exact ⟨db', status, 0, by simp only [hnone], hquiet⟩
      · exact ⟨db', status, prot.interface, by simp only [hsome, hp, Option.map_some], hquiet⟩

theorem Consistent.bestMatch
    (hdb : Consistent db)
    (coreImage : Nat)
    (paths : Nat → DevicePath)
    (source : DevicePath)
    (pair : Pair)
    (handles : List Nat)
    (best : Option Nat) :
    ∃ db' best', bestMatch coreImage paths source pair db handles best = some (db', best') ∧
      Quiet db db' := by
  induction handles generalizing db best with
  | nil => exact ⟨db, best, rfl, hdb.refl⟩
  | cons h handles ih =>
      obtain ⟨db₁, status, interface, hopen, hquiet⟩ := hdb.coreHandleProtocol coreImage h
        devicePathGuid { pair.pool with openData := pair.records h }
      rw [Hand.bestMatch, hopen]
      obtain ⟨db', best', hrest, hquiet'⟩ := ih hquiet.consistent _
      exact ⟨db', best', hrest, hquiet.trans hquiet'⟩

theorem Consistent.devicePathInstalled
    (hdb : Consistent db)
    (coreImage : Nat)
    (paths : Nat → DevicePath)
    (pair : Pair) :
    ∃ db' installed, devicePathInstalled coreImage paths db pair = some (db', installed) ∧
      Quiet db db' := by
  rw [Hand.devicePathInstalled]
  split
  · have hbuffer : ∃ handles, handleBuffer db devicePathGuid pair.buffer = some handles := by
      rw [handleBuffer]
      cases hfind : db.findEntry devicePathGuid with
      | none => exact ⟨[], rfl⟩
      | some entry =>
          obtain ⟨prots, hprots⟩ := mapM_isSome entry.protocols fun p hp => by
            obtain ⟨prot, hget, -⟩ := hdb.linked.ofEntry entry (findEntry_some hfind).1 p hp
            exact ⟨prot, hget⟩
          simp only [linkedInterfaces, hprots, Option.map_some]
          exact ⟨_, rfl⟩
    obtain ⟨handles, hhandles⟩ := hbuffer
    obtain ⟨db', best, hbest, hquiet⟩ :=
      hdb.bestMatch coreImage paths (paths pair.interface) pair handles none
    simp only [hhandles, hbest, Option.map_some]
    exact ⟨db', _, rfl, hquiet⟩
  · exact ⟨db, false, rfl, hdb.refl⟩

end DevicePaths

section Grown

/-- Some triples on one handle have been added, and no driver uses them. -/
structure Grown (db₀ db : Database) (h : Nat) (new : List (Guid × Nat)) : Prop where
  consistent : Consistent db
  triple_iff : ∀ h' g i, Triple db h' g i ↔ Triple db₀ h' g i ∨ (h' = h ∧ (g, i) ∈ new)
  nodup : new.Nodup
  absent : ∀ g i, (g, i) ∈ new → ¬ Triple db₀ h g i
  passive : ∀ p prot, db.interfaces.get p = some prot → prot.handle = h →
    (prot.protocol, prot.interface) ∈ new → Passive prot

theorem Grown.quiet
    (hgrown : Grown db₀ db h new)
    (hquiet : Quiet db db') :
    Grown db₀ db' h new := by
  refine ⟨hquiet.consistent, fun h' g i => hquiet.triple_iff.trans (hgrown.triple_iff h' g i),
    hgrown.nodup, hgrown.absent, fun p prot' hget' hhandle hmem => ?_⟩
  obtain ⟨prot, hget, htriple, hpassive⟩ := hquiet.old hget'
  rw [ProtocolInterface.triple, ProtocolInterface.triple, Prod.mk.injEq, Prod.mk.injEq] at htriple
  refine hpassive (hgrown.passive p prot hget (htriple.1.symm.trans hhandle) ?_)
  rw [← htriple.2.1, ← htriple.2.2]
  exact hmem

theorem Grown.toHandle
    (hgrown : Grown db₀ db h new)
    (hhandle : h' = h ∨ h = 0) :
    Grown db₀ db h' new := by
  rcases hhandle with rfl | rfl
  · exact hgrown
  · have hnew : new = [] := by
      refine eq_nil_iff_forall_not_mem.mpr ?_
      rintro ⟨g, i⟩ hmem
      have htriple := (hgrown.triple_iff 0 g i).mpr (Or.inr ⟨rfl, hmem⟩)
      exact htriple.ne_zero hgrown.consistent rfl
    subst hnew
    refine ⟨hgrown.consistent, fun h'' g i => (hgrown.triple_iff h'' g i).trans ?_, hgrown.nodup,
      fun _ _ hmem => absurd hmem not_mem_nil,
      fun _ _ _ _ hmem => absurd hmem not_mem_nil⟩
    exact or_congr_right ⟨fun h => absurd h.2 not_mem_nil,
      fun h => absurd h.2 not_mem_nil⟩

theorem Grown.added
    (hgrown : Grown db₀ db h new)
    (hadded : Added db db' h protocol interface) :
    Grown db₀ db' h (new ++ [(protocol, interface)]) := by
  have hnot : (protocol, interface) ∉ new := fun hmem =>
    hadded.new ((hgrown.triple_iff h protocol interface).mpr (Or.inr ⟨rfl, hmem⟩))
  refine ⟨hadded.consistent, fun h' g i => ?_, ?_, fun g i hmem => ?_, ?_⟩
  case refine_1 =>
    rw [hadded.triple_iff, hgrown.triple_iff, mem_append, mem_singleton, Prod.mk.injEq]
    constructor
    case mp =>
      rintro ((hold | ⟨hh, hmem⟩) | ⟨hh, hnew⟩)
      · exact Or.inl hold
      · exact Or.inr ⟨hh, Or.inl hmem⟩
      · exact Or.inr ⟨hh, Or.inr hnew⟩
    case mpr =>
      rintro (hold | ⟨hh, hmem | hnew⟩)
      · exact Or.inl (Or.inl hold)
      · exact Or.inl (Or.inr ⟨hh, hmem⟩)
      · exact Or.inr ⟨hh, hnew⟩
  case refine_2 =>
    refine List.Nodup.append hgrown.nodup (nodup_singleton _) ?_
    intro key hkey hkey'
    rw [mem_singleton.mp hkey'] at hkey
    exact hnot hkey
  case refine_3 =>
    rcases mem_append.mp hmem with hmem | hmem
    · exact hgrown.absent g i hmem
    · cases mem_singleton.mp hmem
      exact fun hold => hadded.new ((hgrown.triple_iff h protocol interface).mpr (Or.inl hold))
  case refine_4 =>
    intro p prot' hget' hhandle hmem
    rcases hadded.passive p prot' hget' with hpassive | ⟨prot, hget, htriple, hpassive⟩
    · exact hpassive
    · rw [ProtocolInterface.triple, ProtocolInterface.triple, Prod.mk.injEq,
        Prod.mk.injEq] at htriple
      rw [htriple.1] at hhandle
      rw [htriple.2.1, htriple.2.2] at hmem
      rcases mem_append.mp hmem with hmem | hmem
      · exact hpassive (hgrown.passive p prot hget hhandle hmem)
      · obtain ⟨rfl, rfl⟩ := Prod.mk.inj (mem_singleton.mp hmem)
        exact absurd ⟨p, prot, hget, hhandle, rfl, rfl⟩ hadded.new

theorem Removed.triple_iff
    {g : Guid}
    {i : Nat}
    (hdb : Consistent db)
    (hp : db.interfaces.get p = some prot)
    (hremoved : Removed db db' p) :
    Triple db' h g i ↔ Triple db h g i ∧
      ¬ (h = prot.handle ∧ g = prot.protocol ∧ i = prot.interface) := by
  constructor
  case mp =>
    rintro ⟨q, prot', hq, rfl, rfl, rfl⟩
    obtain ⟨hne, hold⟩ := (hremoved.get q prot').mp hq
    exact ⟨⟨q, prot', hold, rfl, rfl, rfl⟩,
      fun hsame => hne (hdb.distinct q p prot' prot hold hp hsame.1 hsame.2.1 hsame.2.2)⟩
  case mpr =>
    rintro ⟨⟨q, prot', hq, rfl, rfl, rfl⟩, hother⟩
    refine ⟨q, prot', (hremoved.get q prot').mpr ⟨?_, hq⟩, rfl, rfl, rfl⟩
    rintro rfl
    rw [hp] at hq
    cases hq
    exact hother ⟨rfl, rfl, rfl⟩

theorem Grown.takeAway
    (hgrown : Grown db₀ db prot.handle ((prot.protocol, prot.interface) :: new))
    (hp : db.interfaces.get p = some prot)
    (hremoved : Removed db db' p) :
    Grown db₀ db' prot.handle new := by
  obtain ⟨hnot, hnodup⟩ := nodup_cons.mp hgrown.nodup
  refine ⟨hremoved.consistent, fun h' g i => ?_, hnodup,
    fun g i hmem => hgrown.absent g i (mem_cons_of_mem _ hmem),
    fun q prot' hq hhandle hmem => hgrown.passive q prot' ((hremoved.get q prot').mp hq).2 hhandle
      (mem_cons_of_mem _ hmem)⟩
  rw [hremoved.triple_iff hgrown.consistent hp, hgrown.triple_iff, mem_cons, Prod.mk.injEq]
  constructor
  case mp =>
    rintro ⟨hold | ⟨hh, hfirst | hmem⟩, hother⟩
    · exact Or.inl hold
    · exact absurd ⟨hh, hfirst⟩ hother
    · exact Or.inr ⟨hh, hmem⟩
  case mpr =>
    rintro (hold | ⟨hh, hmem⟩)
    · refine ⟨Or.inl hold, ?_⟩
      rintro ⟨rfl, rfl, rfl⟩
      exact hgrown.absent _ _ mem_cons_self hold
    · refine ⟨Or.inr ⟨hh, Or.inr hmem⟩, ?_⟩
      rintro ⟨-, rfl, rfl⟩
      exact hnot hmem

theorem Grown.refl
    (hdb : Consistent db)
    (h : Nat) :
    Grown db db h [] :=
  ⟨hdb, fun _ _ _ => ⟨Or.inl, fun hor => hor.resolve_right fun hmem =>
    absurd hmem.2 not_mem_nil⟩, nodup_nil, fun _ _ hmem => absurd hmem not_mem_nil,
    fun _ _ _ _ hmem => absurd hmem not_mem_nil⟩

end Grown

section Install

variable {status : Status} {count : Nat}

/-- The pairs that are counted have been installed. -/
theorem Grown.installEach
    (hgrown : Grown db₀ db h new)
    (hrun : installEach coreImage paths db h pairs = some (db', h', status, count)) :
    Grown db₀ db' h' (new ++ (pairs.take count).map Pair.key) := by
  induction pairs generalizing db h new count with
  | nil =>
      cases hrun
      rw [take_nil, map_nil, append_nil]
      exact hgrown
  | cons pair pairs ih =>
      rw [Hand.installEach] at hrun
      obtain ⟨db₁, installed, hpath, hquiet⟩ :=
        hgrown.consistent.devicePathInstalled coreImage paths pair
      have hgrown₁ := hgrown.quiet hquiet
      rw [hpath] at hrun
      cases installed with
      | true =>
          cases hrun
          rw [take_zero, map_nil, append_nil]
          exact hgrown₁
      | false =>
          rcases (hgrown₁.consistent.coreInstallProtocolInterface coreImage h pair).1 with
            ⟨hnone, -⟩ | ⟨db₂, failed, hresult, herror, hquiet₂⟩ |
            ⟨db₂, h₂, hresult, hhandle, hadded⟩
          · simp only [hnone] at hrun
            cases hrun
          · simp only [hresult, herror, if_true] at hrun
            cases hrun
            rw [take_zero, map_nil, append_nil]
            exact hgrown₁.quiet hquiet₂
          · simp only [hresult, Status.isError, Bool.false_eq_true, if_false] at hrun
            obtain ⟨⟨db₃, h₃, status₃, count₃⟩, hrest, heq⟩ := Option.map_eq_some_iff.mp hrun
            cases heq
            have hall := ih ((hgrown₁.toHandle hhandle).added hadded) hrest
            rw [append_assoc] at hall
            exact hall

theorem Consistent.installEach_defined
    (hdb : Consistent db)
    (hpool : ∀ pair ∈ pairs, pair.pool.openData = true) :
    installEach coreImage paths db h pairs ≠ none := by
  induction pairs generalizing db h with
  | nil => exact nofun
  | cons pair pairs ih =>
      rw [Hand.installEach]
      obtain ⟨db₁, installed, hpath, hquiet⟩ := hdb.devicePathInstalled coreImage paths pair
      rw [hpath]
      cases installed with
      | true => exact nofun
      | false =>
          obtain ⟨hinstalls, hdefined⟩ :=
            hquiet.consistent.coreInstallProtocolInterface coreImage h pair
          rcases hinstalls with ⟨hnone, -⟩ | ⟨db₂, failed, hresult, herror, -⟩ |
            ⟨db₂, h₂, hresult, -, hadded⟩
          · exact absurd hnone (hdefined (hpool pair mem_cons_self))
          · simp only [hresult, herror, if_true]
            exact nofun
          · simp only [hresult, Status.isError, Bool.false_eq_true, if_false]
            intro hnone
            exact ih hadded.consistent (fun p hp => hpool p (mem_cons_of_mem _ hp))
              (Option.map_eq_none_iff.mp hnone)

theorem Grown.removeEach
    (hgrown : Grown db₀ db h (pairs.map Pair.key)) :
    ∃ db', removeEach db h pairs = some db' ∧ Grown db₀ db' h [] := by
  induction pairs generalizing db with
  | nil => exact ⟨db, rfl, hgrown⟩
  | cons pair pairs ih =>
      obtain ⟨p, prot, hp, rfl, hprotocol, hinterface⟩ :=
        (hgrown.triple_iff h pair.protocol pair.interface).mpr
          (Or.inr ⟨rfl, mem_cons_self⟩)
      have hkey : pair.key = (prot.protocol, prot.interface) := by
        rw [Pair.key, hprotocol, hinterface]
      have hpassive := hgrown.passive p prot hp rfl (by
        rw [← hkey]
        exact mem_cons_self)
      obtain ⟨db₁, hresult, hremoved⟩ := hgrown.consistent.uninstallAtOnce_found hp hpassive
        hprotocol.symm hinterface.symm
      rw [map_cons, hkey] at hgrown
      obtain ⟨db', hrest, hdone⟩ := ih (hgrown.takeAway hp hremoved)
      exact ⟨db', by rw [Hand.removeEach, hresult]; exact hrest, hdone⟩

theorem Consistent.installMultiple
    {db' : Database}
    (hdb : Consistent db)
    (hrun : coreInstallMultipleProtocolInterfaces coreImage paths db h pairs =
      some (db', status, h'))
    (herror : status.isError = true) :
    (∀ k g i, Triple db' k g i ↔ Triple db k g i) ∧ h' = h := by
  rw [coreInstallMultipleProtocolInterfaces] at hrun
  cases heach : installEach coreImage paths db h pairs with
  | none =>
      rw [heach] at hrun
      cases hrun
  | some result =>
      obtain ⟨db₁, h₁, status₁, count⟩ := result
      have hgrown := (Grown.refl hdb h).installEach heach
      rw [nil_append] at hgrown
      obtain ⟨db₂, hremove, hdone⟩ := hgrown.removeEach
      rw [heach] at hrun
      simp only [hremove, Option.map_some] at hrun
      split at hrun
      · cases hrun
        refine ⟨fun k g i => (hdone.triple_iff k g i).trans ?_, rfl⟩
        exact or_iff_left fun hmem => absurd hmem.2 not_mem_nil
      next hsuccess =>
        cases hrun
        exact absurd herror hsuccess

theorem Consistent.installMultiple_defined
    (hdb : Consistent db)
    (hpool : ∀ pair ∈ pairs, pair.pool.openData = true) :
    coreInstallMultipleProtocolInterfaces coreImage paths db h pairs ≠ none := by
  rw [coreInstallMultipleProtocolInterfaces]
  cases heach : installEach coreImage paths db h pairs with
  | none => exact absurd heach (hdb.installEach_defined hpool)
  | some result =>
      obtain ⟨db₁, h₁, status₁, count⟩ := result
      have hgrown := (Grown.refl hdb h).installEach heach
      rw [nil_append] at hgrown
      obtain ⟨db₂, hremove, -⟩ := hgrown.removeEach
      simp only [hremove, Option.map_some]
      split
      · exact nofun
      · exact nofun

end Install

section Shrunk

/-- Some triples of one handle are gone, and no driver uses the others. -/
structure Shrunk (db₀ db : Database) (h : Nat) (removed : List (Guid × Nat)) : Prop where
  consistent : Consistent db
  triple_iff : ∀ h' g i, Triple db h' g i ↔ Triple db₀ h' g i ∧ ¬ (h' = h ∧ (g, i) ∈ removed)
  nodup : removed.Nodup
  present : ∀ g i, (g, i) ∈ removed → Triple db₀ h g i
  passive : ∀ p prot, db.interfaces.get p = some prot → Passive prot
  entry : ∀ g i, (g, i) ∈ removed → HasEntry db g

theorem Shrunk.quiet
    (hshrunk : Shrunk db₀ db h removed)
    (hquiet : Quiet db db') :
    Shrunk db₀ db' h removed := by
  refine ⟨hquiet.consistent, fun h' g i => hquiet.triple_iff.trans (hshrunk.triple_iff h' g i),
    hshrunk.nodup, hshrunk.present, fun p prot' hget' => ?_,
    fun g i hmem => hquiet.entry g (hshrunk.entry g i hmem)⟩
  obtain ⟨prot, hget, -, hpassive⟩ := hquiet.old hget'
  exact hpassive (hshrunk.passive p prot hget)

/-- One more triple is taken away. -/
theorem Shrunk.takeAway
    (hshrunk : Shrunk db₀ db prot.handle removed)
    (hp : db.interfaces.get p = some prot)
    (hremoved : Removed db db' p) :
    Shrunk db₀ db' prot.handle (removed ++ [(prot.protocol, prot.interface)]) := by
  have hthere : Triple db prot.handle prot.protocol prot.interface :=
    ⟨p, prot, hp, rfl, rfl, rfl⟩
  obtain ⟨hthere₀, hnot⟩ := (hshrunk.triple_iff _ _ _).mp hthere
  refine ⟨hremoved.consistent, fun h' g i => ?_, ?_, fun g i hmem => ?_,
    fun q prot' hq => hshrunk.passive q prot' ((hremoved.get q prot').mp hq).2,
    fun g i hmem => hremoved.entry g ?_⟩
  case refine_1 =>
    rw [hremoved.triple_iff hshrunk.consistent hp, hshrunk.triple_iff, mem_append,
      mem_singleton, Prod.mk.injEq]
    constructor
    case mp =>
      rintro ⟨⟨hold, hkeep⟩, hother⟩
      refine ⟨hold, ?_⟩
      rintro ⟨hh, hmem | hlast⟩
      · exact hkeep ⟨hh, hmem⟩
      · exact hother ⟨hh, hlast⟩
    case mpr =>
      rintro ⟨hold, hkeep⟩
      exact ⟨⟨hold, fun hmem => hkeep ⟨hmem.1, Or.inl hmem.2⟩⟩,
        fun hlast => hkeep ⟨hlast.1, Or.inr hlast.2⟩⟩
  case refine_2 =>
    refine List.Nodup.append hshrunk.nodup (nodup_singleton _) ?_
    intro key hkey hkey'
    rw [mem_singleton.mp hkey'] at hkey
    exact hnot ⟨rfl, hkey⟩
  case refine_3 =>
    rcases mem_append.mp hmem with hmem | hmem
    · exact hshrunk.present g i hmem
    · cases mem_singleton.mp hmem
      exact hthere₀
  case refine_4 =>
    rcases mem_append.mp hmem with hmem | hmem
    · exact hshrunk.entry g i hmem
    · cases mem_singleton.mp hmem
      exact hthere.hasEntry hshrunk.consistent

theorem Shrunk.added
    {front back : List (Guid × Nat)}
    (hshrunk : Shrunk db₀ db h (front ++ (protocol, interface) :: back))
    (hadded : Added db db' h protocol interface) :
    Shrunk db₀ db' h (front ++ back) := by
  obtain ⟨hnot, hnodup⟩ := nodup_cons.mp (nodup_middle.mp hshrunk.nodup)
  have hmem : ∀ {key}, key ∈ front ++ (protocol, interface) :: back ↔
      key = (protocol, interface) ∨ key ∈ front ++ back := by
    intro key
    rw [mem_append, mem_cons, mem_append]
    exact or_left_comm
  refine ⟨hadded.consistent, fun h' g i => ?_, hnodup,
    fun g i hkey => hshrunk.present g i (hmem.mpr (Or.inr hkey)), fun p prot' hget' => ?_,
    fun g i hkey => hadded.entry g (hshrunk.entry g i (hmem.mpr (Or.inr hkey)))⟩
  case refine_1 =>
    rw [hadded.triple_iff, hshrunk.triple_iff, hmem, Prod.mk.injEq]
    constructor
    case mp =>
      rintro (⟨hold, hkeep⟩ | ⟨rfl, rfl, rfl⟩)
      · exact ⟨hold, fun hkey => hkeep ⟨hkey.1, Or.inr hkey.2⟩⟩
      · exact ⟨hshrunk.present _ _ (hmem.mpr (Or.inl rfl)), fun hkey => hnot hkey.2⟩
    case mpr =>
      rintro ⟨hold, hkeep⟩
      by_cases hsame : h' = h ∧ g = protocol ∧ i = interface
      · exact Or.inr hsame
      · refine Or.inl ⟨hold, ?_⟩
        rintro ⟨hh, heq | hkey⟩
        · exact hsame ⟨hh, heq⟩
        · exact hkeep ⟨hh, hkey⟩
  case refine_2 =>
    rcases hadded.passive p prot' hget' with hpassive | ⟨prot, hget, -, hpassive⟩
    · exact hpassive
    · exact hpassive (hshrunk.passive p prot hget)

theorem Shrunk.refl
    (hdb : Consistent db)
    (hpassive : ∀ p prot, db.interfaces.get p = some prot → Passive prot)
    (h : Nat) :
    Shrunk db db h [] :=
  ⟨hdb, fun _ _ _ => ⟨fun htriple => ⟨htriple, fun hmem => absurd hmem.2 not_mem_nil⟩,
    And.left⟩, nodup_nil, fun _ _ hmem => absurd hmem not_mem_nil, hpassive,
    fun _ _ hmem => absurd hmem not_mem_nil⟩

theorem Shrunk.restored_iff
    (hshrunk : Shrunk db₀ db h removed) :
    (∀ k g i, Triple db k g i ↔ Triple db₀ k g i) ↔ removed = [] := by
  constructor
  case mp =>
    intro hsame
    refine eq_nil_iff_forall_not_mem.mpr ?_
    rintro ⟨g, i⟩ hmem
    have hthere := (hsame h g i).mpr (hshrunk.present g i hmem)
    exact ((hshrunk.triple_iff h g i).mp hthere).2 ⟨rfl, hmem⟩
  case mpr =>
    rintro rfl k g i
    exact (hshrunk.triple_iff k g i).trans
      (and_iff_left fun hmem => absurd hmem.2 not_mem_nil)

end Shrunk

section Uninstall

theorem Shrunk.uninstallEach
    (hshrunk : Shrunk db₀ db h removed)
    (pairs : List Pair) :
    ∃ db' status count, uninstallEach db h pairs = some (db', status, count) ∧
      Shrunk db₀ db' h (removed ++ (pairs.take count).map Pair.key) ∧ count ≤ pairs.length ∧
      (status.isError = true → ∃ pair, pairs[count]? = some pair ∧
        ¬ Triple db' h pair.protocol pair.interface) := by
  induction pairs generalizing db removed with
  | nil =>
      refine ⟨db, .success, 0, rfl, ?_, Nat.le_refl 0, nofun⟩
      rw [take_nil, map_nil, append_nil]
      exact hshrunk
  | cons pair pairs ih =>
      by_cases hthere : Triple db h pair.protocol pair.interface
      · obtain ⟨p, prot, hp, rfl, hprotocol, hinterface⟩ := hthere
        obtain ⟨db₁, hresult, hremoved⟩ := hshrunk.consistent.uninstallAtOnce_found hp
          (hshrunk.passive p prot hp) hprotocol.symm hinterface.symm
        obtain ⟨db', status, count, hrest, hshrunk', hle, hmissing⟩ :=
          ih (hshrunk.takeAway hp hremoved)
        refine ⟨db', status, count + 1, ?_, ?_, Nat.succ_le_succ hle, hmissing⟩
        case refine_1 =>
          simp only [Hand.uninstallEach, hresult, Status.isError, Bool.false_eq_true, if_false,
            hrest, Option.map_some]
        case refine_2 =>
          rw [append_assoc, hprotocol, hinterface] at hshrunk'
          exact hshrunk'
      · obtain ⟨db', status, hresult, herror, hquiet⟩ :=
          hshrunk.consistent.uninstallAtOnce_missing hthere
        refine ⟨db', status, 0, ?_, ?_, Nat.zero_le _, fun _ => ⟨pair, rfl, ?_⟩⟩
        case refine_1 => simp only [Hand.uninstallEach, hresult, herror, if_true]
        case refine_2 =>
          rw [take_zero, map_nil, append_nil]
          exact hshrunk.quiet hquiet
        case refine_3 => exact fun hafter => hthere (hquiet.triple_iff.mp hafter)

theorem UniqueProtocols.triple
    {i i' : Nat}
    (hunique : UniqueProtocols db)
    (hi : Triple db h protocol i)
    (hi' : Triple db h protocol i') :
    i = i' := by
  obtain ⟨p, prot, hp, rfl, rfl, rfl⟩ := hi
  obtain ⟨q, prot', hq, hhandle, hprotocol, rfl⟩ := hi'
  obtain rfl := hunique p q prot prot' hp hq hhandle.symm hprotocol.symm
  rw [hp] at hq
  cases hq
  rfl

/-- On a handle that is there the pairs with pool for an interface are added again. -/
theorem Shrunk.addEach
    (hunique : UniqueProtocols db₀)
    (coreImage : Nat)
    (failed : List (Guid × Nat))
    (hshrunk : Shrunk db₀ db h (failed ++ pairs.map Pair.key))
    (hh : ∃ handle, db.handles.get h = some handle) :
    ∃ db', addEach coreImage db h pairs = some db' ∧
      Shrunk db₀ db' h (failed ++ (pairs.filter fun pair => !pair.pool.interface).map
        Pair.key) := by
  induction pairs generalizing db failed with
  | nil => exact ⟨db, rfl, hshrunk⟩
  | cons pair pairs ih =>
      obtain ⟨handle, hh⟩ := hh
      have hmem : pair.key ∈ failed ++ (pair :: pairs).map Pair.key :=
        mem_append_right _ mem_cons_self
      cases hpool : pair.pool.interface with
      | true =>
          have hnone : ∀ i, ¬ Triple db h pair.protocol i := by
            intro i hthere
            obtain ⟨hthere₀, hkeep⟩ := (hshrunk.triple_iff _ _ _).mp hthere
            obtain rfl := hunique.triple hthere₀ (hshrunk.present _ _ hmem)
            exact hkeep ⟨rfl, hmem⟩
          obtain ⟨db₁, hresult, hadded⟩ := hshrunk.consistent.coreInstallProtocolInterface_adds
            coreImage hh hnone (hshrunk.entry _ _ hmem) hpool
          have hshrunk₁ := Shrunk.added hshrunk hadded
          have hh₁ : ∃ handle, db₁.handles.get h = some handle :=
            hadded.consistent.handle_iff.mpr
              ⟨pair.protocol, pair.interface, (hadded.triple_iff _ _ _).mpr
                (Or.inr ⟨rfl, rfl, rfl⟩)⟩
          obtain ⟨db', hrest, hdone⟩ := ih failed hshrunk₁ hh₁
          refine ⟨db', by rw [Hand.addEach, hresult]; exact hrest, ?_⟩
          rw [filter_cons, hpool]
          exact hdone
      | false =>
          obtain ⟨db₁, status, hresult, hquiet⟩ :=
            hshrunk.consistent.coreInstallProtocolInterface_fails coreImage (Heap.ne_zero hh)
              (Or.inr hpool)
          have hshrunk₁ : Shrunk db₀ db₁ h ((failed ++ [pair.key]) ++ pairs.map Pair.key) := by
            rw [append_assoc]
            exact hshrunk.quiet hquiet
          obtain ⟨db', hrest, hdone⟩ := ih _ hshrunk₁ ⟨handle, by rw [hquiet.handles]; exact hh⟩
          refine ⟨db', by rw [Hand.addEach, hresult]; exact hrest, ?_⟩
          rw [filter_cons, hpool]
          rw [append_assoc] at hdone
          exact hdone

theorem Consistent.addEach_gone
    (hdb : Consistent db)
    (hzero : h ≠ 0)
    (hgone : db.handles.get h = none)
    (coreImage : Nat)
    (pairs : List Pair) :
    ∃ db', addEach coreImage db h pairs = some db' ∧ Quiet db db' := by
  induction pairs generalizing db with
  | nil => exact ⟨db, rfl, hdb.refl⟩
  | cons pair pairs ih =>
      obtain ⟨db₁, status, hresult, hquiet⟩ :=
        @Consistent.coreInstallProtocolInterface_fails db h pair hdb coreImage hzero (Or.inl hgone)
      obtain ⟨db', hrest, hquiet'⟩ := ih hquiet.consistent (by rw [hquiet.handles]; exact hgone)
      exact ⟨db', by rw [Hand.addEach, hresult]; exact hrest, hquiet.trans hquiet'⟩

/-- Some leading pairs are installed, and the next one is not, or not any more. -/
structure Leading (db : Database) (h : Nat) (pairs : List Pair) (count : Nat) : Prop where
  next : ∃ pair, pairs[count]? = some pair ∧ (Triple db h pair.protocol pair.interface →
    pair.key ∈ (pairs.take count).map Pair.key)
  nodup : ((pairs.take count).map Pair.key).Nodup
  installed : ∀ pair ∈ pairs.take count, Triple db h pair.protocol pair.interface

theorem Leading.le
    {count count' : Nat}
    (hleading : Leading db h pairs count)
    (hleading' : Leading db h pairs count') :
    count' ≤ count := by
  by_contra hlt
  obtain ⟨pair, hget, hnext⟩ := hleading.next
  have htake : pairs.take (count + 1) = pairs.take count ++ [pair] := by
    rw [take_add_one, hget]
    rfl
  have hsub : (pairs.take (count + 1)).Sublist (pairs.take count') :=
    take_sublist_take_left (by omega)
  have hnodup := hleading'.nodup.sublist (hsub.map Pair.key)
  rw [htake, map_append] at hnodup
  rw [htake] at hsub
  have hmem := hnext (hleading'.installed pair
    (hsub.subset (mem_append_right _ (mem_singleton_self pair))))
  exact disjoint_of_nodup_append hnodup hmem (mem_singleton_self _)

/-- No pair is uninstalled before the error, or the handle has an interface besides them and
there is pool to add them again. -/
def Restorable (db : Database) (h : Nat) (pairs : List Pair) : Prop :=
  ∃ count, Leading db h pairs count ∧ (count = 0 ∨
    ((∃ g i, Triple db h g i ∧ (g, i) ∉ (pairs.take count).map Pair.key) ∧
      ∀ pair ∈ pairs.take count, pair.pool.interface = true))

theorem Consistent.uninstallMultiple
    (hdb : Consistent db)
    (hunique : UniqueProtocols db)
    (hpassive : ∀ p prot, db.interfaces.get p = some prot → Passive prot)
    (coreImage h : Nat)
    (pairs : List Pair) :
    ∃ db' status, coreUninstallMultipleProtocolInterfaces coreImage db h pairs =
        some (db', status) ∧
      (status.isError = true →
        ((∀ k g i, Triple db' k g i ↔ Triple db k g i) ↔ Restorable db h pairs)) := by
  obtain ⟨db₁, status, count, heach, hshrunk, hle, hmissing⟩ :=
    (Shrunk.refl hdb hpassive h).uninstallEach pairs
  rw [nil_append] at hshrunk
  rw [coreUninstallMultipleProtocolInterfaces, heach]
  cases herror : status.isError with
  | false => exact ⟨db₁, status, by simp only [herror, Bool.false_eq_true, if_false], fun h => by
      rw [herror] at h
      cases h⟩
  | true =>
      obtain ⟨pair, hget, hgone⟩ := hmissing herror
      have hleading : Leading db h pairs count := by
        refine ⟨⟨pair, hget, fun hthere => ?_⟩, hshrunk.nodup, fun pair hpair => ?_⟩
        case refine_1 =>
          by_contra hnot
          exact hgone ((hshrunk.triple_iff _ _ _).mpr ⟨hthere, fun hmem => hnot hmem.2⟩)
        case refine_2 => exact hshrunk.present _ _ (mem_map_of_mem hpair)
      have hrestorable : Restorable db h pairs ↔ (count = 0 ∨
          ((∃ g i, Triple db h g i ∧ (g, i) ∉ (pairs.take count).map Pair.key) ∧
            ∀ pair ∈ pairs.take count, pair.pool.interface = true)) := by
        constructor
        case mp =>
          rintro ⟨count', hleading', hcondition⟩
          obtain rfl := Nat.le_antisymm (hleading.le hleading') (hleading'.le hleading)
          exact hcondition
        case mpr => exact fun hcondition => ⟨count, hleading, hcondition⟩
      have hlive : (∃ handle, db₁.handles.get h = some handle) ↔
          ∃ g i, Triple db h g i ∧ (g, i) ∉ (pairs.take count).map Pair.key := by
        rw [hshrunk.consistent.handle_iff]
        refine exists_congr fun g => exists_congr fun i => (hshrunk.triple_iff h g i).trans ?_
        exact and_congr_right fun _ => not_congr (and_iff_right rfl)
      simp only [herror, if_true]
      by_cases hzero : count = 0
      · subst hzero
        refine ⟨db₁, status, rfl, fun _ => ?_⟩
        exact iff_of_true (hshrunk.restored_iff.mpr rfl) (hrestorable.mpr (Or.inl rfl))
      · have hnonempty : (pairs.take count).map Pair.key ≠ [] := by
          intro hnil
          have hlength := congrArg List.length hnil
          rw [length_map, length_take_of_le hle] at hlength
          exact hzero hlength
        by_cases hh : ∃ handle, db₁.handles.get h = some handle
        · obtain ⟨db', hadd, hdone⟩ := Shrunk.addEach hunique coreImage [] hshrunk hh
          refine ⟨db', status, by rw [hadd]; rfl, fun _ => ?_⟩
          rw [hdone.restored_iff, nil_append, hrestorable, map_eq_nil_iff,
            filter_eq_nil_iff]
          constructor
          case mp =>
            intro hall
            refine Or.inr ⟨hlive.mp hh, fun pair hpair => ?_⟩
            have hpool := hall pair hpair
            rwa [Bool.not_eq_true', Bool.not_eq_false] at hpool
          case mpr =>
            intro hcondition pair hpair
            rw [(hcondition.resolve_left hzero).2 pair hpair]
            exact nofun
        · have hgone' : db₁.handles.get h = none := by
            cases hcase : db₁.handles.get h with
            | none => rfl
            | some handle => exact absurd ⟨handle, hcase⟩ hh
          obtain ⟨key, hkey⟩ := exists_mem_of_ne_nil _ hnonempty
          obtain ⟨db', hadd, hquiet⟩ := hshrunk.consistent.addEach_gone
            ((hshrunk.present key.1 key.2 hkey).ne_zero hdb) hgone' coreImage (pairs.take count)
          refine ⟨db', status, by rw [hadd]; rfl, fun _ => ?_⟩
          refine iff_of_false ?_ ?_
          case _ => exact fun hsame => hnonempty ((hshrunk.quiet hquiet).restored_iff.mp hsame)
          case _ =>
            intro hcondition
            exact hh (hlive.mpr ((hrestorable.mp hcondition).resolve_left hzero).1)

theorem Consistent.ofUnique
    (hlinked : Linked db)
    (hused : HandlesUsed db)
    (hunique : UniqueProtocols db) :
    Consistent db :=
  ⟨hlinked, hused, fun p q prot prot' hp hq hhandle hprotocol _ =>
    hunique p q prot prot' hp hq hhandle hprotocol⟩

/-- A pair whose allocations succeed. -/
def Pair.plenty (interface : Nat) : Pair :=
  ⟨sampleProtocol, interface, .plenty, true, fun _ => true⟩

end Uninstall

end Hand
end Udk
