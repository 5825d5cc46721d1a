/-
# The metadata tree of `btree.c`

`aetherfs_btree_insert_metadata` and `aetherfs_btree_lookup_metadata` keep a block, a size and flags
under an inode number.  Keys are ordered by the inode number, and a key that is inserted goes IN FRONT
of those with its number: an insert is an update, the older keys stay behind it and take up room.
Nothing deletes them.  When there are 32 keys, an insert does nothing and returns 0.

So the tree is the map of the last inserts exactly as long as each insert finds room or has nothing
new to say: 32 updates of ONE file fill it.

The node is the bytes of `Kernel.BtreeNode`; the list of its keys is a sorted map of `Lib.Search`.
-/
import AetherFs.Kernel.BtreeNode
import AetherFs.Lib.Machine

namespace AetherFs.BtreeBytes

open AetherFs AetherFs.Lib

/-! ## 1. The source -/

def kFlags (e : Key) : Nat := le32 e 28

/-- What is kept under an inode number. -/
@[ext] structure Metadata where
  block : UInt64
  size : UInt32
  flags : UInt32
deriving DecidableEq

/-- The slot has a key of the inode. -/
def HasIno (m : Memory) (ino : UInt64) : Prop :=
  findSlotIno m ino < bnCount m ∧ kIno (recordAt (bnData m) (findSlotIno m ino)) = ino.toNat

instance (m : Memory) (ino : UInt64) : Decidable (HasIno m ino) :=
  inferInstanceAs (Decidable (_ ∧ _))

/-- `aetherfs_btree_lookup_metadata`.  The loop never leaves the root: where the root is no leaf and
does not have the key, the loop does not end. -/
def btreeLookupMetadata (m : Memory) (ino : UInt64) : Option (Except Errno (Nat × Nat × Nat)) :=
  let key : Key := recordAt (bnData m) (findSlotIno m ino)
  if HasIno m ino then some (.ok (kValue key, kLen key, kFlags key))
  else if bnLevel m = 0 then some (.error .ENOENT)
  else none

/-! ## 2. Runs against a map -/

/-- The node, and what the inserts say it holds. -/
structure MetaMachine where
  node : Memory
  map : UInt64 → Option Metadata

/-- An insert. -/
structure MetaCall where
  ino : UInt64
  data : Metadata

def metaStep (m : MetaMachine) (c : MetaCall) : MetaMachine where
  node := btreeInsertMetadata m.node c.ino c.data.block c.data.size c.data.flags
  map := Function.update m.map c.ino (some c.data)

@[simp] theorem metaStep_map (m : MetaMachine) (c : MetaCall) :
    (metaStep m c).map = Function.update m.map c.ino (some c.data) := rfl

/-- Every lookup says what the map says. -/
def MetaRefines (m : MetaMachine) : Prop :=
  ∀ ino, btreeLookupMetadata m.node ino = some (match m.map ino with
    | some data => .ok (data.block.toNat, data.size.toNat, data.flags.toNat)
    | none => .error .ENOENT)

/-- There is room, or nothing changes. -/
def MetaFits (m : MetaMachine) (c : MetaCall) : Prop :=
  bnCount m.node < btreeOrder ∨ m.map c.ino = some c.data

/-! ## 3. The node as a sorted map -/

section Node

variable {m : Memory}

/-- A leaf that is not overfull, with its keys ordered by inode number. -/
structure InoLeaf (m : Memory) : Prop where
  level : bnLevel m = 0
  count_le : bnCount m ≤ btreeOrder
  sorted : (nodeKeys m).Pairwise fun a b => kIno a ≤ kIno b

/-- The key a lookup goes by: the first of those with the number. -/
def firstKey (m : Memory) (ino : UInt64) : Option Key :=
  (nodeKeys m).find? fun e => decide (kIno e = ino.toNat)

theorem InoLeaf.slot (h : InoLeaf m) (ino : UInt64) :
    findSlotIno m ino = placeOf kIno (nodeKeys m) ino.toNat := by
  rw [findSlotIno, findSlot, ← nodeKeys_length, placeOf]
  refine bisect_findIdx (le_key_mono h.sorted ino.toNat) fun i hi => ?_
  rw [nodeKeys_getElem hi, ← decide_not]
  exact decide_eq_decide.mpr Nat.not_le.symm

/-- **A lookup finds the first key of the inode.** -/
theorem InoLeaf.lookup (h : InoLeaf m) (ino : UInt64) :
    btreeLookupMetadata m ino = some (match firstKey m ino with
      | some e => .ok (kValue e, kLen e, kFlags e)
      | none => .error .ENOENT) := by
  have hat : firstKey m ino
      = ((nodeKeys m)[findSlotIno m ino]?).filter fun e => decide (kIno e = ino.toNat) := by
    rw [firstKey, ← find_of_sorted h.sorted ino.toNat, h.slot, placeOf, List.find?_eq_getElem?_findIdx]
  have hfirst : firstKey m ino = if HasIno m ino then some (recordAt (bnData m) (findSlotIno m ino))
      else none := by
    rw [hat]
    by_cases hslot : findSlotIno m ino < bnCount m
    · rw [List.getElem?_eq_getElem (by rwa [nodeKeys_length]), nodeKeys_getElem, Option.filter]
      by_cases hino : kIno (recordAt (bnData m) (findSlotIno m ino)) = ino.toNat
      · rw [if_pos (decide_eq_true hino), if_pos ⟨hslot, hino⟩]
      · rw [if_neg (by simpa using hino), if_neg fun hhas => hino hhas.2]
    · rw [List.getElem?_eq_none (by rw [nodeKeys_length]; omega), if_neg fun hhas => hslot hhas.1]
      rfl
  rw [btreeLookupMetadata, hfirst]
  by_cases hhas : HasIno m ino
  · rw [if_pos hhas, if_pos hhas]
  · rw [if_neg hhas, if_neg hhas, if_pos h.level]

theorem metadataKey_fields (ino : UInt64) (data : Metadata) (e : Key) :
    kIno (metadataKey ino data.block data.size data.flags e) = ino.toNat ∧
      kValue (metadataKey ino data.block data.size data.flags e) = data.block.toNat ∧
      kLen (metadataKey ino data.block data.size data.flags e) = data.size.toNat ∧
      kFlags (metadataKey ino data.block data.size data.flags e) = data.flags.toNat := by
  have hwide : ∀ x : UInt64, x.toNat % 256 ^ 8 = x.toNat := fun x => Nat.mod_eq_of_lt x.toNat_lt
  have hshort : ∀ x : UInt32, x.toNat % 256 ^ 4 = x.toNat := fun x => Nat.mod_eq_of_lt x.toNat_lt
  simp (disch := decide) only [kIno, kValue, kLen, kFlags, metadataKey, sealKey, getLE_putLE_self,
    getLE_putLE_of_disjoint, hwide, hshort, and_self]

/-- **An insert where there is room** puts its key in front of those with its number. -/
theorem InoLeaf.insert (h : InoLeaf m) (hroom : bnCount m < btreeOrder) (ino : UInt64)
    (data : Metadata) : ∃ e : Key, kIno e = ino.toNat ∧
      (kValue e, kLen e, kFlags e) = (data.block.toNat, data.size.toNat, data.flags.toNat) ∧
      InoLeaf (btreeInsertMetadata m ino data.block data.size data.flags) ∧
      ∀ ino', firstKey (btreeInsertMetadata m ino data.block data.size data.flags) ino'
        = if ino' = ino then some e else firstKey m ino' := by
  obtain ⟨hino, hvalue, hlen, hflags⟩ :=
    metadataKey_fields ino data (recordAt (bnData m) (findSlotIno m ino))
  have hslot := findSlot_le m kIno ino.toNat
  have hkeys := insertKey_keys hslot hroom (metadataKey ino data.block data.size data.flags)
  have hinsert : nodeKeys (btreeInsertMetadata m ino data.block data.size data.flags)
      = insertAt (nodeKeys m) (placeOf kIno (nodeKeys m) (kIno (metadataKey ino data.block data.size
          data.flags (recordAt (bnData m) (findSlotIno m ino)))))
        (metadataKey ino data.block data.size data.flags
          (recordAt (bnData m) (findSlotIno m ino))) := by
    rw [btreeInsertMetadata, if_pos ⟨h.level, hroom⟩, hino, ← h.slot]
    exact hkeys
  refine ⟨_, hino, by rw [hvalue, hlen, hflags], ⟨?_, ?_, ?_⟩, fun ino' => ?_⟩
  · rw [btreeInsertMetadata, if_pos ⟨h.level, hroom⟩]
    exact (bnLevel_insertKey _ _).trans h.level
  · rw [btreeInsertMetadata, if_pos ⟨h.level, hroom⟩, bnCount_insertKey _ hroom]
    exact hroom
  · rw [hinsert]
    exact insertAt_sorted h.sorted _
  · rw [firstKey, hinsert, find_insertAt, hino]
    by_cases hsame : ino' = ino
    · rw [if_pos hsame, if_pos (by rw [hsame])]
    · rw [if_neg hsame, if_neg fun heq => hsame (UInt64.toNat_inj.mp heq)]
      rfl

end Node

/-! ## 4. The steps -/

section Steps

variable {m : MetaMachine}

/-- The node is sorted, and under every number its first key is what the map says. -/
structure MetaInv (m : MetaMachine) : Prop where
  leaf : InoLeaf m.node
  first : ∀ ino, (firstKey m.node ino).map (fun e => (kValue e, kLen e, kFlags e))
    = (m.map ino).map fun data => (data.block.toNat, data.size.toNat, data.flags.toNat)

theorem MetaInv.refines (h : MetaInv m) : MetaRefines m := by
  intro ino
  have hfirst := h.first ino
  rw [h.leaf.lookup]
  cases hkey : firstKey m.node ino with
  | none =>
    rw [hkey] at hfirst
    cases hmap : m.map ino with
    | none => rfl
    | some data =>
      rw [hmap] at hfirst
      cases hfirst
  | some e =>
    rw [hkey] at hfirst
    cases hmap : m.map ino with
    | none =>
      rw [hmap] at hfirst
      cases hfirst
    | some data =>
      rw [hmap] at hfirst
      exact congrArg (fun v => some (Except.ok v)) (Option.some.inj hfirst)

theorem metaStep_full (hfull : ¬ bnCount m.node < btreeOrder) (c : MetaCall) :
    (metaStep m c).node = m.node :=
  if_neg fun h => hfull h.2

/-- **The step.** -/
theorem metaInv_step (h : MetaInv m) {c : MetaCall} (hfits : MetaFits m c) : MetaInv (metaStep m c) := by
  by_cases hroom : bnCount m.node < btreeOrder
  · obtain ⟨e, -, hdata, hleaf, hfirst⟩ := h.leaf.insert hroom c.ino c.data
    refine ⟨hleaf, fun ino => ?_⟩
    change (firstKey (btreeInsertMetadata m.node c.ino c.data.block c.data.size c.data.flags) ino).map _
      = _
    rw [hfirst]
    by_cases hino : ino = c.ino
    · rw [if_pos hino, hino, metaStep_map, Function.update_self]
      exact congrArg some hdata
    · rw [if_neg hino, h.first, metaStep_map, Function.update_of_ne hino]
  · have hsame := hfits.resolve_left hroom
    refine ⟨?_, fun ino => ?_⟩
    · rw [metaStep_full hroom]
      exact h.leaf
    · rw [metaStep_full hroom, h.first, metaStep_map, ← hsame, Function.update_eq_self]

/-- **The step back**: an insert that changes something, into a full node, is not found. -/
theorem metaFits_of_refines (h : MetaInv m) {c : MetaCall} (hs : MetaRefines (metaStep m c)) :
    MetaFits m c := by
  by_cases hroom : bnCount m.node < btreeOrder
  · exact Or.inl hroom
  · right
    have hnow := hs c.ino
    have hbefore := h.refines c.ino
    rw [metaStep_full hroom, hbefore, metaStep_map, Function.update_self] at hnow
    cases hmap : m.map c.ino with
    | none =>
      rw [hmap] at hnow
      exact absurd hnow (by simp)
    | some data =>
      rw [hmap] at hnow
      obtain ⟨hblock, hsize, hflags⟩ : data.block.toNat = c.data.block.toNat ∧
          data.size.toNat = c.data.size.toNat ∧ data.flags.toNat = c.data.flags.toNat := by
        simpa using hnow
      exact congrArg some (Metadata.ext (UInt64.toNat_inj.mp hblock) (UInt32.toNat_inj.mp hsize)
        (UInt32.toNat_inj.mp hflags))

end Steps

/-- **The metadata tree, exactly.**  From a node just created, a run of inserts keeps every lookup
right as long as, and only as long as, each insert finds fewer than 32 keys, or says what is there.
The memory behind the slab object is taken to be the node's own. -/
theorem metadata_tree_refines_iff {heap : Option Memory} {nodeSize : Nat} {node : Memory}
    (hnew : btreeCreate heap nodeSize = .ok node) (calls : List MetaCall) :
    (∀ m ∈ states metaStep ⟨node, fun _ => none⟩ calls, MetaRefines m) ↔
      Along metaStep MetaFits ⟨node, fun _ => none⟩ calls := by
  have hstart : MetaInv ⟨node, fun _ => none⟩ := by
    obtain ⟨hlevel, hcount⟩ := created_leaf hnew
    have hkeys : nodeKeys node = [] := by
      rw [nodeKeys, hcount, records_zero]
    refine ⟨⟨hlevel, hcount.le.trans (Nat.zero_le _), ?_⟩, fun ino => ?_⟩
    · rw [hkeys]
      exact List.Pairwise.nil
    · rw [firstKey, hkeys]
      rfl
  exact states_good_iff (fun m hm => hm.refines) (fun m c hm _ hok => metaInv_step hm hok)
    (fun m c hm _ hs => metaFits_of_refines hm hs) calls _ hstart
    (along_of_forall (fun _ _ => trivial) calls _)

/-- A file's metadata, and an update of it. -/
def twoUpdates : List MetaCall := [⟨17, 100, 512, 0⟩, ⟨17, 101, 512, 1⟩]

theorem metadata_tree_refines_update : btreeCreate (some fun _ => 0) 4096 = .ok newNode ∧
    ∀ m ∈ states metaStep ⟨newNode, fun _ => none⟩ twoUpdates, MetaRefines m := by
  refine ⟨newNode_created, (metadata_tree_refines_iff newNode_created twoUpdates).mpr ?_⟩
  exact ⟨Or.inl (by decide +kernel), Or.inl (by decide +kernel), trivial⟩

end AetherFs.BtreeBytes
