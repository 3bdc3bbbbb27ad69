import Udk.OrderedCollection.Insert
import Udk.OrderedCollection.Delete
import Mathlib.Analysis.SpecialFunctions.Log.Base

/-!
# Collections over their life

A collection built by insertions and deletions holds what was inserted and not deleted
since.  The iterators run over it in order, in both directions, and a lookup compares
the key with a logarithmic number of nodes.
-/

namespace Udk
namespace OrderedCollection

open RedBlack List

variable {α κ : Type}

section Find

variable {h : Heap α} {t : RbTree NodeId α} {keyCompare : κ → α → Int} {key : κ} {fuel : Nat}

/-- The key is ordered with the user structures: what is not above a user structure is
below the greater ones. -/
def KeyOrders (compare : α → α → Int) (keyCompare : κ → α → Int) : Prop :=
  ∀ key a b, compare a b < 0 → keyCompare key a ≤ 0 → keyCompare key b < 0

theorem findLoop_examined (keyCompare : κ → α → Int) (key : κ) {p : Ptr} (examined : Nat)
    (hl : Links h p t) (hfuel : t.depth < fuel) :
    ∃ q m, findLoop h keyCompare key fuel t.root examined = .ok (q, examined + m) ∧
      m ≤ t.depth := by
  induction fuel generalizing p t examined with
  | zero => exact absurd hfuel (Nat.not_lt_zero _)
  | succ fuel ih =>
      cases t with
      | nil => exact ⟨none, 0, rfl, Nat.zero_le _⟩
      | node c l i a r =>
          obtain ⟨hi, hll, hlr⟩ := hl
          simp only [RbTree.depth] at hfuel
          simp only [RbTree.root_node, findLoop, Heap.deref_eq hi, ok_bind, RbTree.depth]
          by_cases heq : keyCompare key a = 0
          · exact ⟨some i, 1, by rw [if_pos heq]; rfl, Nat.le_add_left _ _⟩
          · rw [if_neg heq]
            by_cases hlt : keyCompare key a < 0
            · obtain ⟨q, m, hloop, hm⟩ := ih (examined + 1) hll (by omega)
              refine ⟨q, m + 1, ?_, by omega⟩
              rw [if_pos hlt, hloop, Nat.add_assoc, Nat.add_comm 1 m]
            · obtain ⟨q, m, hloop, hm⟩ := ih (examined + 1) hlr (by omega)
              refine ⟨q, m + 1, ?_, by omega⟩
              rw [if_neg hlt, hloop, Nat.add_assoc, Nat.add_comm 1 m]

/-- What a lookup returns: a node that compares equal, and none only if there is none. -/
def Found (keyCompare : κ → α → Int) (key : κ) (nodes : List (NodeId × α)) : Ptr → Prop
  | none => ∀ e ∈ nodes, keyCompare key e.2 ≠ 0
  | some i => ∃ a, (i, a) ∈ nodes ∧ keyCompare key a = 0

theorem Found.extend {nodes before after : List (NodeId × α)} {q : Ptr}
    (h : Found keyCompare key nodes q) (hbefore : ∀ e ∈ before, keyCompare key e.2 ≠ 0)
    (hafter : ∀ e ∈ after, keyCompare key e.2 ≠ 0) :
    Found keyCompare key (before ++ nodes ++ after) q := by
  cases q with
  | none =>
      intro e he
      simp only [mem_append] at he
      rcases he with (he | he) | he
      · exact hbefore e he
      · exact h e he
      · exact hafter e he
  | some i =>
      obtain ⟨a, hmem, hequal⟩ := h
      exact ⟨a, by simp [hmem], hequal⟩

/-- **Lookup in an ordered tree.** -/
theorem findLoop_found {compare : α → α → Int} {p q : Ptr} {examined m : Nat}
    (hk : KeyOrders compare keyCompare) (hl : Links h p t) (hordered : Ordered compare t)
    (hloop : findLoop h keyCompare key fuel t.root examined = .ok (q, m)) :
    Found keyCompare key t.toList q := by
  induction fuel generalizing p t examined with
  | zero => cases hloop
  | succ fuel ih =>
      cases t with
      | nil =>
          cases hloop
          intro e he
          cases he
      | node c l i a r =>
          obtain ⟨hi, hll, hlr⟩ := hl
          rw [Ordered, RbTree.toList, pairwise_append, pairwise_cons] at hordered
          obtain ⟨hordl, ⟨hright, hordr⟩, hleft⟩ := hordered
          simp only [RbTree.root_node, findLoop, Heap.deref_eq hi, ok_bind] at hloop
          by_cases heq : keyCompare key a = 0
          · rw [if_pos heq] at hloop
            cases hloop
            exact ⟨a, by simp [RbTree.toList], heq⟩
          · rw [if_neg heq] at hloop
            by_cases hlt : keyCompare key a < 0
            · rw [if_pos hlt] at hloop
              have hbeyond : ∀ e ∈ (i, a) :: r.toList, keyCompare key e.2 ≠ 0 := by
                intro e he
                rcases mem_cons.mp he with rfl | he
                · exact heq
                · exact (hk key a e.2 (hright e he) hlt.le).ne
              have hfound : Found keyCompare key ([] ++ l.toList ++ (i, a) :: r.toList) q :=
                (ih hll hordl hloop).extend (by simp) hbeyond
              exact hfound
            · rw [if_neg hlt] at hloop
              have hbeyond : ∀ e ∈ l.toList ++ [(i, a)], keyCompare key e.2 ≠ 0 := by
                intro e he
                rcases mem_append.mp he with he | he
                · intro hzero
                  exact hlt (hk key e.2 a (hleft e he (i, a) mem_cons_self) hzero.le)
                · rw [mem_singleton.mp he]
                  exact heq
              have hfound : Found keyCompare key (l.toList ++ [(i, a)] ++ r.toList ++ []) q :=
                (ih hlr hordr hloop).extend hbeyond (by simp)
              simpa [RbTree.toList] using hfound

end Find

section Iterate

variable {h : Heap α} {root : Ptr} {t : RbTree NodeId α} {s : Side} {fuel : Nat}

/-- The nodes an iteration passes until it reaches `NULL`. -/
def iterate (next : Ptr → Except Fault Ptr) : Nat → Ptr → Except Fault (List NodeId)
  | 0, _ => .error .outOfFuel
  | _ + 1, none => .ok []
  | fuel + 1, some i => do
      let more ← iterate next fuel (← next (some i))
      return i :: more

theorem Holds.iterate_from (hh : Holds h root t) {before after : List (NodeId × α)}
    (hsplit : t.listTo s = before ++ after) (hlen : t.toList.length < fuel) {steps : Nat}
    (hsteps : after.length < steps) :
    iterate (OrderedCollection.neighbour h s fuel) steps (first after) = .ok (after.map Prod.fst) := by
  induction after generalizing before steps with
  | nil =>
      obtain ⟨steps, rfl⟩ : ∃ m, steps = m + 1 := ⟨steps - 1, by omega⟩
      rfl
  | cons e after ih =>
      obtain ⟨steps, rfl⟩ : ∃ m, steps = m + 1 := ⟨steps - 1, by omega⟩
      obtain ⟨i, a⟩ := e
      have hsplit' : t.listTo s = (before ++ [(i, a)]) ++ after := by
        simpa using hsplit
      have hrest := ih hsplit' (by simpa using hsteps : after.length < steps)
      simp only [first, head?_cons, Option.map_some, iterate,
        hh.neighbour_of_split hsplit hlen, ok_bind]
      rw [show Option.map Prod.fst after.head? = first after from rfl, hrest]
      rfl

theorem Holds.neighbour_back (hh : Holds h root t) {i j : NodeId} {a : α}
    (hmem : (i, a) ∈ t.toList) (hlen : t.toList.length < fuel)
    (hstep : OrderedCollection.neighbour h s fuel (some i) = .ok (some j)) :
    OrderedCollection.neighbour h s.other fuel (some j) = .ok (some i) := by
  obtain ⟨before, after, hsplit⟩ := append_of_mem (RbTree.mem_listTo.mpr hmem : _ ∈ t.listTo s)
  rw [hh.neighbour_of_split hsplit hlen] at hstep
  cases after with
  | nil => cases hstep
  | cons e after =>
      obtain ⟨k, b⟩ := e
      cases hstep
      have hback : t.listTo s.other = after.reverse ++ (k, b) :: (i, a) :: before.reverse := by
        have hrev : t.listTo s.other = (t.listTo s).reverse := by
          cases s <;> simp [RbTree.listTo, Side.other]
        rw [hrev, hsplit]
        simp
      rw [hh.neighbour_of_split hback hlen]
      rfl

end Iterate

section Life

variable {compare : α → α → Int} {keyCompare : κ → α → Int} {h : Heap α}
variable {tree : Collection α κ} {content : List (NodeId × α)} {fuel : Nat}
  {pcdValidateOrderedCollection : Bool} {t : RbTree NodeId α}

/-- The nodes after an insertion. -/
def contentInserted (result : InsertResult α κ) (userStruct : α) (content : List (NodeId × α)) :
    List (NodeId × α) :=
  match result.status, result.node with
  | .success, some i => (i, userStruct) :: content
  | _, _ => content

/-- The nodes after a deletion. -/
def contentDeleted (i : NodeId) (content : List (NodeId × α)) : List (NodeId × α) :=
  content.filter fun e => e.1 ≠ i

/-- A collection built from `OrderedCollectionInit` on by insertions and deletions, with its
nodes.  An allocation returns memory that is not in use, a deleted node is in the collection,
and between the calls all memory but the nodes may change. -/
inductive Built (compare : α → α → Int) (keyCompare : κ → α → Int) :
    Heap α → Collection α κ → List (NodeId × α) → Prop
  | init {h : Heap α} {tree : Collection α κ} (pcdValidateOrderedCollection : Bool) (fuel : Nat)
      (hfuel : 0 < fuel)
      (hcall : orderedCollectionInit h pcdValidateOrderedCollection fuel true compare keyCompare =
        .ok (some tree)) :
      Built compare keyCompare h tree []
  | insert {h : Heap α} {tree : Collection α κ} {content : List (NodeId × α)}
      {result : InsertResult α κ} (pcdValidateOrderedCollection : Bool) (fuel : Nat)
      (allocatePool : Ptr) (userStruct : α) (hbuilt : Built compare keyCompare h tree content)
      (halloc : ∀ i, allocatePool = some i → h i = none) (hfuel : content.length + 1 < fuel)
      (hcall : orderedCollectionInsert pcdValidateOrderedCollection fuel allocatePool h tree
        userStruct = .ok result) :
      Built compare keyCompare result.heap result.tree
        (contentInserted result userStruct content)
  | delete {h : Heap α} {tree : Collection α κ} {content : List (NodeId × α)}
      {i : NodeId} {a : α} {result : DeleteResult α κ} (pcdValidateOrderedCollection : Bool)
      (fuel : Nat) (hbuilt : Built compare keyCompare h tree content)
      (hmem : (i, a) ∈ content) (hfuel : content.length < fuel)
      (hcall : orderedCollectionDelete pcdValidateOrderedCollection fuel h tree (some i) =
        .ok result) :
      Built compare keyCompare result.heap result.tree (contentDeleted i content)
  | elsewhere {h h' : Heap α} {tree : Collection α κ} {content : List (NodeId × α)}
      (hbuilt : Built compare keyCompare h tree content)
      (hsame : ∀ e ∈ content, h' e.1 = h e.1) :
      Built compare keyCompare h' tree content

/-- A valid tree in memory with the given nodes. -/
structure Keeps (compare : α → α → Int) (keyCompare : κ → α → Int) (h : Heap α)
    (tree : Collection α κ) (content : List (NodeId × α)) (t : RbTree NodeId α) : Prop where
  valid : Valid h tree t
  perm : t.toList.Perm content
  userStructCompare : tree.userStructCompare = compare
  keyCompare : tree.keyCompare = keyCompare

theorem orderedCollectionInit_keeps
    (ho : Orders compare) (hfuel : 0 < fuel)
    (hcall : orderedCollectionInit h pcdValidateOrderedCollection fuel true compare keyCompare =
      .ok (some tree)) : Keeps compare keyCompare h tree [] .nil := by
  have hvalid : Valid h (⟨none, compare, keyCompare⟩ : Collection α κ) .nil := {
    holds := ⟨trivial, rfl, nodup_nil⟩
    isRedBlack := ⟨trivial, ⟨0, rfl⟩, rfl⟩
    ordered := List.Pairwise.nil }
  have htree : tree = ⟨none, compare, keyCompare⟩ := by
    cases pcdValidateOrderedCollection with
    | false =>
        cases hcall
        rfl
    | true =>
        simp only [orderedCollectionInit, if_true, hvalid.validate ho hfuel, ok_bind] at hcall
        cases hcall
        rfl
  subst htree
  exact ⟨hvalid, List.Perm.refl _, rfl, rfl⟩

theorem Keeps.insert {allocatePool : Ptr} {userStruct : α}
    {result : InsertResult α κ} (ho : Orders compare)
    (hk : Keeps compare keyCompare h tree content t)
    (halloc : ∀ i, allocatePool = some i → h i = none) (hfuel : content.length + 1 < fuel)
    (hcall : orderedCollectionInsert pcdValidateOrderedCollection fuel allocatePool h tree
      userStruct = .ok result) :
    ∃ t', Keeps compare keyCompare result.heap result.tree
      (contentInserted result userStruct content) t' := by
  have hlen := hk.perm.length_eq
  obtain ⟨r, hr, houtcome⟩ := orderedCollectionInsert_returns pcdValidateOrderedCollection
    userStruct (hk.userStructCompare ▸ ho) hk.valid halloc
    (by omega : t.toList.length + 1 < fuel)
  obtain rfl : r = result := by
    rw [hcall] at hr
    cases hr
    rfl
  cases houtcome with
  | alreadyStarted i a hmem hequal | outOfResources hnone hnew => exact ⟨t, hk⟩
  | success i hsome hnew result hinserted =>
      obtain ⟨t', hv', before, after, hold, hlist⟩ := hinserted.valid
      refine ⟨t', hv', ?_, hinserted.userStructCompare.trans hk.userStructCompare,
        hinserted.keyCompare.trans hk.keyCompare⟩
      simp only [contentInserted, hinserted.status, hinserted.node]
      rw [hlist]
      exact perm_middle.trans ((hold ▸ hk.perm).cons _)

theorem Keeps.delete {i : NodeId} {a : α}
    {result : DeleteResult α κ} (ho : Orders compare)
    (hk : Keeps compare keyCompare h tree content t) (hmem : (i, a) ∈ content)
    (hfuel : content.length < fuel)
    (hcall : orderedCollectionDelete pcdValidateOrderedCollection fuel h tree (some i) =
      .ok result) :
    ∃ t', Keeps compare keyCompare result.heap result.tree (contentDeleted i content) t' := by
  have hlen := hk.perm.length_eq
  obtain ⟨r, hr, hdeleted⟩ := orderedCollectionDelete_returns pcdValidateOrderedCollection
    (hk.userStructCompare ▸ ho) hk.valid (hk.perm.mem_iff.mpr hmem)
    (by omega : t.toList.length < fuel)
  obtain rfl : r = result := by
    rw [hcall] at hr
    cases hr
    rfl
  obtain ⟨t', hv', before, after, hold, hlist⟩ := hdeleted.valid
  refine ⟨t', hv', ?_, hdeleted.userStructCompare.trans hk.userStructCompare,
    hdeleted.keyCompare.trans hk.keyCompare⟩
  have hnodup := hk.valid.holds.nodup
  rw [RbTree.ids, hold, map_append, map_cons, nodup_middle,
    nodup_cons, ← map_append, ← hlist] at hnodup
  have hothers : t'.toList.filter (fun e => e.1 ≠ i) = t'.toList := by
    rw [filter_eq_self]
    intro e he
    have hne : e.1 ≠ i := by
      rintro rfl
      exact hnodup.1 (mem_map.mpr ⟨e, he, rfl⟩)
    simpa using hne
  have hsplit : t.toList.filter (fun e => e.1 ≠ i) = t'.toList := by
    rw [hold, filter_append, filter_cons_of_neg (by simp), ← filter_append,
      ← hlist, hothers]
  exact hsplit ▸ hk.perm.filter _

theorem Keeps.elsewhere {h' : Heap α}
    (hk : Keeps compare keyCompare h tree content t) (hsame : ∀ e ∈ content, h' e.1 = h e.1) :
    Keeps compare keyCompare h' tree content t := by
  have hids : ∀ i ∈ t.ids, h' i = h i := by
    intro i hi
    obtain ⟨e, he, rfl⟩ := mem_map.mp hi
    exact hsame e (hk.perm.mem_iff.mp he)
  exact { hk with
    valid := { hk.valid with
      holds := ⟨hk.valid.holds.links.congr hids, hk.valid.holds.root_eq, hk.valid.holds.nodup⟩ } }

theorem Built.keeps (ho : Orders compare) (hb : Built compare keyCompare h tree content) :
    ∃ t, Keeps compare keyCompare h tree content t := by
  induction hb with
  | init _ _ hfuel hcall => exact ⟨.nil, orderedCollectionInit_keeps ho hfuel hcall⟩
  | insert _ _ _ _ _ halloc hfuel hcall ih =>
      obtain ⟨t, hk⟩ := ih
      exact hk.insert ho halloc hfuel hcall
  | delete _ _ _ hmem hfuel hcall ih =>
      obtain ⟨t, hk⟩ := ih
      exact hk.delete ho hmem hfuel hcall
  | elsewhere _ hsame ih =>
      obtain ⟨t, hk⟩ := ih
      exact ⟨t, hk.elsewhere hsame⟩

/-- What the iterators and the lookup report of the nodes of a collection. -/
structure Traversed (compare : α → α → Int) (keyCompare : κ → α → Int) (h : Heap α) (fuel : Nat)
    (tree : Collection α κ) (content : List (NodeId × α)) (nodes : List (NodeId × α)) : Prop where
  perm : nodes.Perm content
  once : (nodes.map Prod.fst).Nodup
  increasing : nodes.Pairwise fun p q => compare p.2 q.2 < 0
  forward : ∃ min, orderedCollectionMin h fuel tree = .ok min ∧
    iterate (orderedCollectionNext h fuel) fuel min = .ok (nodes.map Prod.fst)
  backward : ∃ max, orderedCollectionMax h fuel tree = .ok max ∧
    iterate (orderedCollectionPrev h fuel) fuel max = .ok (nodes.map Prod.fst).reverse
  prev_next : ∀ e ∈ content, (∃ g ∈ content, compare e.2 g.2 < 0) →
    ∃ j, orderedCollectionNext h fuel (some e.1) = .ok (some j) ∧
      orderedCollectionPrev h fuel (some j) = .ok (some e.1)
  find : ∀ key, ∃ found examined, orderedCollectionFind h fuel tree key = .ok (found, examined) ∧
    (found.isSome ↔ ∃ e ∈ content, keyCompare key e.2 = 0) ∧
    ∀ i, found = some i → ∃ a, (i, a) ∈ content ∧ keyCompare key a = 0

section Reports

variable {t : RbTree NodeId α}

theorem Keeps.forward (hk : Keeps compare keyCompare h tree content t)
    (hfuel : content.length < fuel) :
    ∃ min, orderedCollectionMin h fuel tree = .ok min ∧
      iterate (orderedCollectionNext h fuel) fuel min = .ok (t.toList.map Prod.fst) := by
  have hlen : t.toList.length < fuel := hk.perm.length_eq ▸ hfuel
  have hmin : orderedCollectionMin h fuel tree = .ok (first (t.listTo .right)) :=
    outermost_spec (s := .right) hk.valid.holds hlen.le
  refine ⟨_, hmin, ?_⟩
  exact hk.valid.holds.iterate_from (s := .right) (nil_append _).symm hlen hlen

theorem Keeps.backward (hk : Keeps compare keyCompare h tree content t)
    (hfuel : content.length < fuel) :
    ∃ max, orderedCollectionMax h fuel tree = .ok max ∧
      iterate (orderedCollectionPrev h fuel) fuel max =
        .ok (t.toList.map Prod.fst).reverse := by
  have hlen : t.toList.length < fuel := hk.perm.length_eq ▸ hfuel
  have hmax : orderedCollectionMax h fuel tree = .ok (first (t.listTo .left)) :=
    outermost_spec (s := .left) hk.valid.holds hlen.le
  refine ⟨_, hmax, ?_⟩
  rw [← map_reverse]
  exact hk.valid.holds.iterate_from (s := .left) (nil_append _).symm hlen
    (by rwa [RbTree.length_listTo])

theorem Keeps.prev_next (ho : Orders compare) (hk : Keeps compare keyCompare h tree content t)
    (hfuel : content.length < fuel) {e g : NodeId × α} (he : e ∈ content) (hg : g ∈ content)
    (hlt : compare e.2 g.2 < 0) :
    ∃ j, orderedCollectionNext h fuel (some e.1) = .ok (some j) ∧
      orderedCollectionPrev h fuel (some j) = .ok (some e.1) := by
  have hlen : t.toList.length < fuel := hk.perm.length_eq ▸ hfuel
  have hmem := hk.perm.mem_iff.mpr he
  obtain ⟨before, after, hsplit⟩ := append_of_mem hmem
  have hright : t.listTo .right = before ++ e :: after := hsplit
  have hnext := hk.valid.holds.neighbour_of_split (i := e.1) (a := e.2) hright hlen
  cases after with
  | nil =>
      exfalso
      have hordered := hk.valid.ordered
      rw [Ordered, hsplit, hk.userStructCompare, pairwise_append] at hordered
      have hgmem := hk.perm.mem_iff.mpr hg
      rw [hsplit, mem_append, mem_singleton] at hgmem
      rcases hgmem with hbefore | rfl
      · have hge := (ho.swap _ _).mp (hordered.2.2 g hbefore e (mem_singleton_self e))
        omega
      · have hself := (ho.swap _ _).mp hlt
        omega
  | cons f after =>
      exact ⟨f.1, hnext, hk.valid.holds.neighbour_back (s := .right) (a := e.2) hmem hlen hnext⟩

theorem Keeps.find (hkey : KeyOrders compare keyCompare)
    (hk : Keeps compare keyCompare h tree content t) (hfuel : content.length < fuel) (key : κ) :
    ∃ found examined, orderedCollectionFind h fuel tree key = .ok (found, examined) ∧
      (found.isSome ↔ ∃ e ∈ content, keyCompare key e.2 = 0) ∧
      ∀ i, found = some i → ∃ a, (i, a) ∈ content ∧ keyCompare key a = 0 := by
  have hlen : t.toList.length < fuel := hk.perm.length_eq ▸ hfuel
  obtain ⟨q, m, hloop, -⟩ := findLoop_examined keyCompare key 0
    hk.valid.holds.links (t.depth_le_length.trans_lt hlen)
  have hfound := findLoop_found hkey hk.valid.holds.links
    (hk.userStructCompare ▸ hk.valid.ordered) hloop
  refine ⟨q, 0 + m, ?_, ?_, ?_⟩
  · rw [orderedCollectionFind, hk.keyCompare, hk.valid.holds.root_eq]
    exact hloop
  · cases q with
    | none =>
        simp only [Option.isSome_none, Bool.false_eq_true, false_iff, not_exists, not_and]
        exact fun e he => hfound e (hk.perm.mem_iff.mpr he)
    | some i =>
        obtain ⟨a, hmem, hequal⟩ := hfound
        simp only [Option.isSome_some, true_iff]
        exact ⟨(i, a), hk.perm.mem_iff.mp hmem, hequal⟩
  · rintro i rfl
    obtain ⟨a, hmem, hequal⟩ := hfound
    exact ⟨a, hk.perm.mem_iff.mp hmem, hequal⟩

end Reports

/-- **Ordered traversal.** -/
theorem collection_traversed (ho : Orders compare) (hkey : KeyOrders compare keyCompare)
    (hb : Built compare keyCompare h tree content) (hfuel : content.length < fuel) :
    ∃ nodes, Traversed compare keyCompare h fuel tree content nodes := by
  obtain ⟨t, hk⟩ := hb.keeps ho
  exact ⟨t.toList, {
    perm := hk.perm
    once := hk.valid.holds.nodup
    increasing := hk.userStructCompare ▸ hk.valid.ordered
    forward := hk.forward hfuel
    backward := hk.backward hfuel
    prev_next := fun e he ⟨g, hg, hlt⟩ => hk.prev_next ho hfuel he hg hlt
    find := hk.find hkey hfuel }⟩

theorem built_sample :
    ∃ (h : Heap Int) (tree : Collection Int Int), tree.root = some 0 ∧
      Built (fun a b => a - b) (fun key a => key - a) h tree [(1, 3), (0, 5)] := by
  have hempty : Built (fun a b : Int => a - b) (fun key a : Int => key - a) (fun _ => none)
      ⟨none, fun a b => a - b, fun key a => key - a⟩ [] :=
    .init true 4 (by decide) rfl
  have hone := hempty.insert true 4 (some 0) 5 (fun _ _ => rfl) (by decide) rfl
  have hfree : ∀ i, some 1 = some i → Function.update (fun _ => none : Heap Int) 0
      (some ⟨5, none, none, none, .black⟩) i = none := by
    intro i hi
    cases hi
    rfl
  exact ⟨_, _, rfl, hone.insert true 4 (some 1) 3 hfree (by decide) rfl⟩

/-- Two nodes, in order and back. -/
theorem collection_traversed_sample :
    ∃ (h : Heap Int) (tree : Collection Int Int) (nodes : List (NodeId × Int)),
      tree.root = some 0 ∧
      Traversed (fun a b => a - b) (fun key a => key - a) h 4 tree [(1, 3), (0, 5)] nodes := by
  obtain ⟨h, tree, hroot, hbuilt⟩ := built_sample
  obtain ⟨nodes, hnodes⟩ := collection_traversed orders_sub
    (fun key a b hlt hle => by omega) hbuilt (by decide : _ < 4)
  exact ⟨h, tree, nodes, hroot, hnodes⟩

/-- **Logarithmic depth.** -/
theorem find_examines_logarithmically (ho : Orders compare)
    (hb : Built compare keyCompare h tree content) (hfuel : content.length < fuel) (key : κ) :
    ∃ found examined, orderedCollectionFind h fuel tree key = .ok (found, examined) ∧
      (examined : ℝ) ≤ 2 * Real.logb 2 (content.length + 1) := by
  obtain ⟨t, hk⟩ := hb.keeps ho
  have hlen : t.toList.length < fuel := hk.perm.length_eq ▸ hfuel
  obtain ⟨q, m, hloop, hm⟩ := findLoop_examined keyCompare key 0
    hk.valid.holds.links (t.depth_le_length.trans_lt hlen)
  refine ⟨q, 0 + m, ?_, ?_⟩
  · rw [orderedCollectionFind, hk.keyCompare, hk.valid.holds.root_eq]
    exact hloop
  · have hpow : 2 ^ m ≤ (content.length + 1) ^ 2 := by
      rw [← hk.perm.length_eq]
      exact (Nat.pow_le_pow_right Nat.two_pos hm).trans hk.valid.isRedBlack.pow_depth_le
    have hreal : (2 : ℝ) ^ (m : ℝ) ≤ ((content.length : ℝ) + 1) ^ 2 := by
      rw [Real.rpow_natCast]
      exact_mod_cast hpow
    have hlog := Real.logb_le_logb_of_le one_lt_two (by positivity) hreal
    rw [Real.logb_rpow two_pos (by norm_num), Real.logb_pow] at hlog
    simpa using hlog

/-- A lookup among two nodes. -/
theorem find_examines_logarithmically_sample :
    ∃ (h : Heap Int) (tree : Collection Int Int) (found : Ptr) (examined : Nat),
      tree.root = some 0 ∧ orderedCollectionFind h 4 tree 3 = .ok (found, examined) ∧
      (examined : ℝ) ≤ 2 * Real.logb 2 (([(1, 3), (0, 5)] : List (NodeId × Int)).length + 1) := by
  obtain ⟨h, tree, hroot, hbuilt⟩ := built_sample
  obtain ⟨found, examined, hfind, hle⟩ := find_examines_logarithmically orders_sub hbuilt
    (by decide : _ < 4) 3
  exact ⟨h, tree, found, examined, hroot, hfind, hle⟩

end Life

end OrderedCollection
end Udk
