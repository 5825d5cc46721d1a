/-
# The extent tree of `btree.c`

The tree is one leaf: nothing calls `btree_split_node`, so no node of another level is ever built,
and an insert that finds the leaf full returns 0 and does nothing.  Keys are ordered by offset
ALONE.  A lookup goes to the first key that is not below the offset and compares the inode number
there and nowhere else.

* `findSlotExtent_eq`: what the bisection finds in a list that is cut at the offset.
* The leaf is the map it is meant to be exactly as long as every insert finds room, an offset that
  no other inode has in the tree, and a length of 32 bits (`ExtentFits`).
-/
import AetherFs.Device
import AetherFs.Lib.Machine
import AetherFs.Lib.Search

namespace AetherFs

open Lib

/-! ## 1. The source -/

/-- `struct aetherfs_btree_key`. -/
structure BtreeKey where
  ino : Nat
  offset : Nat
  value : Nat
  len : Nat
deriving DecidableEq, Repr

/-- `struct aetherfs_btree_node`; `bn_count` is the number of keys. -/
structure BtreeNode where
  level : Nat
  keys : List BtreeKey
deriving DecidableEq, Repr

/-- `AETHERFS_BTREE_DEF_ORDER`. -/
abbrev btreeOrder : Nat := 32

/-- `aetherfs_btree_create`. -/
def btreeCreate (nodeSize : Nat) : Except Errno BtreeNode :=
  if nodeSize = 0 then .error .EINVAL else .ok ⟨0, []⟩

/-- `btree_find_slot_extent`. -/
def findSlotExtent (keys : List BtreeKey) (lblock : Nat) : Nat :=
  bisect (fun mid => match keys[mid]? with
    | some key => decide (key.offset < lblock)
    | none => false) keys.length

/-- The key at the slot, if it is the one that is looked for. -/
def keyAt (keys : List BtreeKey) (ino lblock : Nat) : Option BtreeKey :=
  match keys[findSlotExtent keys lblock]? with
  | some key => if key.ino = ino ∧ key.offset = lblock then some key else none
  | none => none

/-- `aetherfs_btree_insert_extent`, which returns 0 whatever it does. -/
def btreeInsertExtent (node : BtreeNode) (ino lblock pblock blocks : Nat) : BtreeNode :=
  if node.level = 0 ∧ node.keys.length < btreeOrder then
    let slot := findSlotExtent node.keys lblock
    { node with keys :=
        node.keys.take slot ++ ⟨ino, lblock, pblock, blocks % 2 ^ 32⟩ :: node.keys.drop slot }
  else node

/-- `aetherfs_btree_lookup_extent`.  The loop never leaves the root: where the root is no leaf and
does not have the key, the loop does not end. -/
def btreeLookupExtent (node : BtreeNode) (ino lblock : Nat) : Option (Except Errno (Nat × Nat)) :=
  match keyAt node.keys ino lblock with
  | some key => some (.ok (key.value, key.len))
  | none => if node.level = 0 then some (.error .ENOENT) else none

/-- `aetherfs_btree_delete_extent`. -/
def btreeDeleteExtent (node : BtreeNode) (ino lblock : Nat) : Except Errno BtreeNode :=
  match keyAt node.keys ino lblock with
  | some _ => .ok { node with keys := node.keys.eraseIdx (findSlotExtent node.keys lblock) }
  | none => .error .ENOENT

/-! ## 2. Runs against a map -/

/-- The tree, and what the inserts that have not been deleted say it holds. -/
structure ExtentMachine where
  node : BtreeNode
  live : Nat × Nat → Option (Nat × Nat)

inductive ExtentCall
  | insert (ino lblock pblock blocks : Nat)
  | delete (ino lblock : Nat)

/-- An insert is live until a delete of its pair returns 0. -/
def extentStep (m : ExtentMachine) : ExtentCall → ExtentMachine
  | .insert ino lblock pblock blocks =>
    ⟨btreeInsertExtent m.node ino lblock pblock blocks,
      Function.update m.live (ino, lblock) (some (pblock, blocks))⟩
  | .delete ino lblock =>
    match btreeDeleteExtent m.node ino lblock with
    | .ok node => ⟨node, Function.update m.live (ino, lblock) none⟩
    | .error _ => m

/-- No pair is inserted while it is present. -/
def ExtentValid (m : ExtentMachine) : ExtentCall → Prop
  | .insert ino lblock _ _ => m.live (ino, lblock) = none
  | .delete _ _ => True

/-- Every lookup says what the map says. -/
def ExtentRefines (m : ExtentMachine) : Prop :=
  ∀ ino lblock, btreeLookupExtent m.node ino lblock = some (match m.live (ino, lblock) with
    | some v => .ok v
    | none => .error .ENOENT)

/-- There is room, the offset is new, and the length is not cut. -/
def ExtentFits (m : ExtentMachine) : ExtentCall → Prop
  | .insert _ lblock _ blocks => m.node.keys.length < btreeOrder ∧
      (∀ key ∈ m.node.keys, key.offset ≠ lblock) ∧ blocks < 2 ^ 32
  | .delete _ _ => True

/-! ## 3. The slot -/

section Slot

variable {front back : List BtreeKey} {lblock : Nat}

/-- A list of keys cut where the offset belongs. -/
structure CutAt (lblock : Nat) (front back : List BtreeKey) : Prop where
  front_lt : ∀ key ∈ front, key.offset < lblock
  le_back : ∀ key ∈ back, lblock ≤ key.offset

/-- **The bisection finds the cut.** -/
theorem findSlotExtent_eq (h : CutAt lblock front back) :
    findSlotExtent (front ++ back) lblock = front.length := by
  refine bisect_eq (by simp) fun i hi => ?_
  rw [List.getElem?_eq_getElem hi]
  by_cases hfront : i < front.length
  · rw [List.getElem_append_left hfront]
    have hlt := h.front_lt _ (List.getElem_mem hfront)
    exact iff_of_true (decide_eq_true hlt) hfront
  · rw [List.getElem_append_right (Nat.not_lt.mp hfront)]
    have hle := h.le_back _ (List.getElem_mem (l := back) (n := i - front.length)
      (by rw [List.length_append] at hi; omega))
    exact iff_of_false (by simp only [decide_eq_true_eq]; omega) hfront

theorem keyAt_eq (h : CutAt lblock front back) (ino : Nat) : keyAt (front ++ back) ino lblock =
    match back with
    | key :: _ => if key.ino = ino ∧ key.offset = lblock then some key else none
    | [] => none := by
  rw [keyAt, findSlotExtent_eq h, List.getElem?_append_right (le_refl _), Nat.sub_self]
  cases back with
  | nil => rfl
  | cons key back => rfl

theorem exists_cut {keys : List BtreeKey} (h : keys.Pairwise fun a b => a.offset < b.offset)
    (lblock : Nat) : ∃ front back, keys = front ++ back ∧ CutAt lblock front back := by
  induction keys with
  | nil => exact ⟨[], [], rfl, fun _ hk => absurd hk List.not_mem_nil,
      fun _ hk => absurd hk List.not_mem_nil⟩
  | cons key keys ih =>
    obtain ⟨hhead, htail⟩ := List.pairwise_cons.mp h
    by_cases hlt : key.offset < lblock
    · obtain ⟨front, back, rfl, hcut⟩ := ih htail
      exact ⟨key :: front, back, rfl, List.forall_mem_cons.mpr ⟨hlt, hcut.front_lt⟩, hcut.le_back⟩
    · refine ⟨[], key :: keys, rfl, fun _ hk => absurd hk List.not_mem_nil, ?_⟩
      refine List.forall_mem_cons.mpr ⟨Nat.not_lt.mp hlt, fun key' hk => ?_⟩
      exact (Nat.not_lt.mp hlt).trans (hhead key' hk).le

/-- Where the slot's key is the one that is looked for, the cut is in front of it. -/
theorem exists_cut_at {keys : List BtreeKey} (h : keys.Pairwise fun a b => a.offset < b.offset)
    {ino : Nat} {key : BtreeKey} (hkey : keyAt keys ino lblock = some key) :
    ∃ front rest, keys = front ++ key :: rest ∧ CutAt lblock front (key :: rest) ∧
      key.ino = ino ∧ key.offset = lblock := by
  obtain ⟨front, back, rfl, hcut⟩ := exists_cut h lblock
  rw [keyAt_eq hcut] at hkey
  cases back with
  | nil => exact absurd hkey (by simp)
  | cons head rest =>
    simp only at hkey
    split at hkey
    · rename_i hmatch
      obtain rfl := Option.some.inj hkey
      exact ⟨front, rest, rfl, hcut, hmatch⟩
    · exact absurd hkey (by simp)

/-- **In a sorted leaf the slot holds the key there is.** -/
theorem keyAt_eq_some {keys : List BtreeKey} (h : keys.Pairwise fun a b => a.offset < b.offset)
    {ino : Nat} {key : BtreeKey} : keyAt keys ino lblock = some key ↔
      key ∈ keys ∧ key.ino = ino ∧ key.offset = lblock := by
  constructor
  · intro hkey
    obtain ⟨front, rest, rfl, -, hmatch⟩ := exists_cut_at h hkey
    exact ⟨List.mem_append_right _ List.mem_cons_self, hmatch⟩
  · intro ⟨hmem, hino, hoff⟩
    obtain ⟨front, back, rfl, hcut⟩ := exists_cut h lblock
    obtain ⟨-, hback, -⟩ := List.pairwise_append.mp h
    rw [keyAt_eq hcut]
    rcases List.mem_append.mp hmem with hmem | hmem
    · have := hcut.front_lt key hmem
      omega
    · cases back with
      | nil => exact absurd hmem List.not_mem_nil
      | cons head rest =>
        rcases List.mem_cons.mp hmem with rfl | hrest
        · exact if_pos ⟨hino, hoff⟩
        · have hlt := (List.pairwise_cons.mp hback).1 key hrest
          have hle := hcut.le_back head List.mem_cons_self
          omega

/-- Of a sorted leaf, what is left beside a key are the keys with other offsets. -/
theorem mem_beside {key key' : BtreeKey} {rest : List BtreeKey}
    (h : (front ++ key :: rest).Pairwise fun a b => a.offset < b.offset) :
    key' ∈ front ++ rest ↔ key' ∈ front ++ key :: rest ∧ key'.offset ≠ key.offset := by
  obtain ⟨-, hback, hcross⟩ := List.pairwise_append.mp h
  constructor
  · intro hmem
    rcases List.mem_append.mp hmem with hmem | hmem
    · have := hcross key' hmem key List.mem_cons_self
      exact ⟨List.mem_append_left _ hmem, by omega⟩
    · have := (List.pairwise_cons.mp hback).1 key' hmem
      exact ⟨List.mem_append_right _ (List.mem_cons_of_mem _ hmem), by omega⟩
  · intro ⟨hmem, hne⟩
    rcases List.mem_append.mp hmem with hmem | hmem
    · exact List.mem_append_left _ hmem
    · rcases List.mem_cons.mp hmem with rfl | hmem
      · exact absurd rfl hne
      · exact List.mem_append_right _ hmem

end Slot

/-! ## 4. The steps -/

/-- The leaf is sorted by offset without a repetition, and holds what is live. -/
structure ExtentInv (m : ExtentMachine) : Prop where
  leaf : m.node.level = 0
  sorted : m.node.keys.Pairwise fun a b => a.offset < b.offset
  holds : ∀ ino lblock v, m.live (ino, lblock) = some v ↔
    ∃ key ∈ m.node.keys, key.ino = ino ∧ key.offset = lblock ∧ (key.value, key.len) = v

section Steps

variable {m : ExtentMachine}

theorem ExtentInv.refines (h : ExtentInv m) : ExtentRefines m := by
  intro ino lblock
  rw [btreeLookupExtent]
  cases hk : keyAt m.node.keys ino lblock with
  | some key =>
    obtain ⟨hmem, hino, hoff⟩ := (keyAt_eq_some h.sorted).mp hk
    rw [(h.holds ino lblock _).mpr ⟨key, hmem, hino, hoff, rfl⟩]
  | none =>
    cases hl : m.live (ino, lblock) with
    | some v =>
      obtain ⟨key, hmem, hino, hoff, -⟩ := (h.holds ino lblock v).mp hl
      rw [(keyAt_eq_some h.sorted).mpr ⟨hmem, hino, hoff⟩] at hk
      exact absurd hk (by simp)
    | none => exact if_pos h.leaf

theorem insert_keys {node : BtreeNode} {front back : List BtreeKey} {lblock : Nat}
    (hleaf : node.level = 0) (hkeys : node.keys = front ++ back) (hcut : CutAt lblock front back)
    (hroom : node.keys.length < btreeOrder) (ino pblock blocks : Nat) :
    (btreeInsertExtent node ino lblock pblock blocks).keys =
      front ++ ⟨ino, lblock, pblock, blocks % 2 ^ 32⟩ :: back := by
  rw [btreeInsertExtent, if_pos ⟨hleaf, hroom⟩]
  simp only [hkeys, findSlotExtent_eq hcut, List.take_left, List.drop_left]

theorem insert_level (node : BtreeNode) (ino lblock pblock blocks : Nat) :
    (btreeInsertExtent node ino lblock pblock blocks).level = node.level := by
  rw [btreeInsertExtent]
  split
  · rfl
  · rfl

/-- **The step: an insert that fits.** -/
theorem extentInv_insert (h : ExtentInv m) {ino lblock pblock blocks : Nat}
    (hfits : ExtentFits m (.insert ino lblock pblock blocks)) :
    ExtentInv (extentStep m (.insert ino lblock pblock blocks)) := by
  obtain ⟨hroom, hnew, hlen⟩ := hfits
  obtain ⟨front, back, hkeys, hcut⟩ := exists_cut h.sorted lblock
  have hafter := insert_keys h.leaf hkeys hcut hroom ino pblock blocks
  rw [Nat.mod_eq_of_lt hlen] at hafter
  have hsorted := h.sorted
  have hholds := h.holds
  rw [hkeys] at hsorted hnew hholds
  obtain ⟨hfront, hback, hcross⟩ := List.pairwise_append.mp hsorted
  have hsorted' : (front ++ ⟨ino, lblock, pblock, blocks⟩ :: back).Pairwise
      fun a b => a.offset < b.offset := by
    refine List.pairwise_append.mpr ⟨hfront, List.pairwise_cons.mpr ⟨fun key hk => ?_, hback⟩, ?_⟩
    · exact lt_of_le_of_ne (hcut.le_back key hk) (hnew key (List.mem_append_right _ hk)).symm
    · intro a ha b hb
      rcases List.mem_cons.mp hb with rfl | hb
      · exact hcut.front_lt a ha
      · exact hcross a ha b hb
  refine ⟨(insert_level ..).trans h.leaf, ?_, fun ino' lblock' v => ?_⟩
  · simp only [extentStep, hafter]
    exact hsorted'
  · simp only [extentStep, hafter, Function.update_apply]
    split
    · rename_i hpair
      obtain ⟨rfl, rfl⟩ := Prod.mk.inj hpair
      constructor
      · intro hv
        obtain rfl := Option.some.inj hv
        exact ⟨_, List.mem_append_right _ List.mem_cons_self, rfl, rfl, rfl⟩
      · rintro ⟨key, hmem, hino, hoff, rfl⟩
        rcases List.mem_append.mp hmem with hmem | hmem
        · exact absurd hoff (hnew key (List.mem_append_left _ hmem))
        · rcases List.mem_cons.mp hmem with rfl | hmem
          · rfl
          · exact absurd hoff (hnew key (List.mem_append_right _ hmem))
    · rename_i hpair
      rw [hholds ino' lblock' v]
      constructor
      · rintro ⟨key, hmem, hrest⟩
        exact ⟨key, ((mem_beside hsorted').mp hmem).1, hrest⟩
      · rintro ⟨key, hmem, hino, hoff, hv⟩
        refine ⟨key, ?_, hino, hoff, hv⟩
        rcases List.mem_append.mp hmem with hmem | hmem
        · exact List.mem_append_left _ hmem
        · rcases List.mem_cons.mp hmem with rfl | hmem
          · exact absurd (Prod.ext hino.symm hoff.symm) hpair
          · exact List.mem_append_right _ hmem

/-- **The step: a delete.** -/
theorem extentInv_delete (h : ExtentInv m) (ino lblock : Nat) :
    ExtentInv (extentStep m (.delete ino lblock)) := by
  rw [extentStep, btreeDeleteExtent]
  cases hk : keyAt m.node.keys ino lblock with
  | none => exact h
  | some key =>
    obtain ⟨front, rest, hkeys, hcut, rfl, rfl⟩ := exists_cut_at h.sorted hk
    have hholds := h.holds
    have hsorted := h.sorted
    rw [hkeys] at hholds hsorted
    have hafter : m.node.keys.eraseIdx (findSlotExtent m.node.keys key.offset) = front ++ rest := by
      rw [hkeys, findSlotExtent_eq hcut, List.eraseIdx_append_of_length_le (le_refl _),
        Nat.sub_self]
      rfl
    refine ⟨h.leaf, ?_, fun ino' lblock' v => ?_⟩
    · simp only [hafter]
      exact hsorted.sublist ((List.Sublist.refl front).append (List.sublist_cons_self key rest))
    · simp only [hafter, Function.update_apply, mem_beside hsorted]
      split
      · rename_i hpair
        obtain ⟨rfl, rfl⟩ := Prod.mk.inj hpair
        refine iff_of_false (by simp) ?_
        rintro ⟨key', ⟨-, hne⟩, -, hoff, -⟩
        exact hne hoff
      · rename_i hpair
        rw [hholds ino' lblock' v]
        constructor
        · rintro ⟨key', hmem, hino, hoff, hv⟩
          refine ⟨key', ⟨hmem, fun hsame => hpair ?_⟩, hino, hoff, hv⟩
          -- a key of the same offset would be the deleted one
          obtain ⟨-, hback, hcross⟩ := List.pairwise_append.mp hsorted
          rcases List.mem_append.mp hmem with hmem | hmem
          · have := hcross key' hmem key List.mem_cons_self
            omega
          · rcases List.mem_cons.mp hmem with rfl | hmem
            · exact Prod.ext hino.symm hoff.symm
            · have := (List.pairwise_cons.mp hback).1 key' hmem
              omega
        · rintro ⟨key', ⟨hmem, -⟩, hrest⟩
          exact ⟨key', hmem, hrest⟩

/-- **The step back: an insert after which all lookups are right has fitted.** -/
theorem extentFits_of_refines (h : ExtentInv m) {ino lblock pblock blocks : Nat}
    (hvalid : m.live (ino, lblock) = none)
    (hs : ExtentRefines (extentStep m (.insert ino lblock pblock blocks))) :
    ExtentFits m (.insert ino lblock pblock blocks) := by
  have hself := hs ino lblock
  simp only [extentStep, Function.update_self] at hself
  have hroom : m.node.keys.length < btreeOrder := by
    by_contra hfull
    rw [btreeInsertExtent, if_neg fun hcond => hfull hcond.2, h.refines ino lblock, hvalid] at hself
    exact absurd hself (by simp)
  obtain ⟨front, back, hkeys, hcut⟩ := exists_cut h.sorted lblock
  have hafter := insert_keys h.leaf hkeys hcut hroom ino pblock blocks
  have hcut' : CutAt lblock front (⟨ino, lblock, pblock, blocks % 2 ^ 32⟩ :: back) :=
    ⟨hcut.front_lt, List.forall_mem_cons.mpr ⟨le_refl _, hcut.le_back⟩⟩
  refine ⟨hroom, fun key hmem hoff => ?_, ?_⟩
  · -- the older key of that offset is behind the new one, where no lookup sees it
    subst hoff
    have hold : m.live (key.ino, key.offset) = some (key.value, key.len) :=
      (h.holds _ _ _).mpr ⟨key, hmem, rfl, rfl, rfl⟩
    have hne : key.ino ≠ ino := by
      rintro rfl
      rw [hvalid] at hold
      exact absurd hold (by simp)
    have hlook := hs key.ino key.offset
    simp only [extentStep, Function.update_apply, btreeLookupExtent, hafter, keyAt_eq hcut',
      Prod.mk.injEq, hne, hne.symm, false_and, if_false, hold, insert_level, h.leaf] at hlook
    exact absurd hlook (by simp)
  · simp only [btreeLookupExtent, hafter, keyAt_eq hcut', and_self, if_true] at hself
    have hlen : blocks % 2 ^ 32 = blocks :=
      (Prod.mk.inj (Except.ok.inj (Option.some.inj hself))).2
    omega

end Steps

/-- **The extent tree against its map, exactly.**  From an empty tree, a run in which no pair is
inserted while present keeps every lookup right as long as, and only as long as, every insert finds
room in the one leaf, an offset no key has, and a length below 2^32.  The memory behind the 24 bytes
of the slab object, where the keys are, is taken to be the leaf's own. -/
theorem extent_tree_refines_iff {nodeSize : Nat} {node : BtreeNode}
    (hcreate : btreeCreate nodeSize = .ok node) (calls : List ExtentCall)
    (hvalid : Along extentStep ExtentValid ⟨node, fun _ => none⟩ calls) :
    (∀ m ∈ states extentStep ⟨node, fun _ => none⟩ calls, ExtentRefines m) ↔
      Along extentStep ExtentFits ⟨node, fun _ => none⟩ calls := by
  have hnode : node = ⟨0, []⟩ := by
    rw [btreeCreate, ite_error_eq_ok] at hcreate
    exact (Except.ok.inj hcreate.2).symm
  have hstart : ExtentInv ⟨node, fun _ => none⟩ := by
    rw [hnode]
    exact ⟨rfl, List.Pairwise.nil, fun _ _ _ => by simp⟩
  refine states_good_iff (fun m hm => hm.refines) (fun m c hm hv hok => ?_) (fun m c hm hv hs => ?_)
    calls _ hstart hvalid
  · cases c with
    | insert ino lblock pblock blocks => exact extentInv_insert hm hok
    | delete ino lblock => exact extentInv_delete hm ino lblock
  · cases c with
    | insert ino lblock pblock blocks => exact extentFits_of_refines hm hv hs
    | delete ino lblock => trivial

/-- Extents of two inodes, and the first of them removed. -/
def twoExtents : List ExtentCall := [.insert 17 0 8 4, .insert 18 9 20 3, .delete 17 0]

theorem extent_tree_refines_two :
    Along extentStep ExtentValid ⟨⟨0, []⟩, fun _ => none⟩ twoExtents ∧
      ∀ m ∈ states extentStep ⟨⟨0, []⟩, fun _ => none⟩ twoExtents, ExtentRefines m := by
  have hvalid : Along extentStep ExtentValid ⟨⟨0, []⟩, fun _ => none⟩ twoExtents :=
    ⟨rfl, rfl, trivial, trivial⟩
  have hcreate : btreeCreate 4096 = .ok ⟨0, []⟩ := rfl
  refine ⟨hvalid, (extent_tree_refines_iff hcreate _ hvalid).mpr ⟨?_, ?_, trivial, trivial⟩⟩
  · exact ⟨by decide, by decide, by norm_num⟩
  · exact ⟨by decide, by decide, by norm_num⟩

/-- Two inodes with an extent at the same offset. -/
def sharedOffset : List ExtentCall := [.insert 17 0 8 1, .insert 18 0 9 1]

theorem shared_offset_hides_extent :
    Along extentStep ExtentValid ⟨⟨0, []⟩, fun _ => none⟩ sharedOffset ∧
      (sharedOffset.foldl extentStep ⟨⟨0, []⟩, fun _ => none⟩).live (17, 0) = some (8, 1) ∧
      btreeLookupExtent (sharedOffset.foldl extentStep ⟨⟨0, []⟩, fun _ => none⟩).node 17 0
        = some (.error .ENOENT) :=
  ⟨⟨rfl, rfl, trivial⟩, rfl, rfl⟩

end AetherFs
