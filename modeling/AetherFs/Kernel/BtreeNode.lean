/-
# The btree node in memory

`Btree` has a leaf as a list of keys.  In `btree.c` it is a header of 24 bytes and an array of keys
of 40 bytes behind it: an insert moves the keys from its slot on up by one and writes into the gap,
a delete moves them down, and two functions of `invariants.c` keep a sum over 4092 bytes of it all.

* The functions are functions on the list of keys (`insertKey_keys`, `removeKey_keys`), and those
  of the extents are the ones of `Btree` (`insertExtent_model`, `deleteExtent_model`).
* Extent nodes stay sorted: the bisection finds the first key that is not below the offset because
  the keys are sorted, and they stay sorted because the new key goes there (`SortedLeaf`).
* The sum does NOT stay fresh.  `aetherfs_btree_insert_extent` stores a sum that was taken with the
  old sum still in its field, where the verifier has a zero; the other two do not touch the sum at
  all.  What each of them needs of the node for the sum to be right is `KeepsFresh`.
-/
import AetherFs.Format
import AetherFs.Lib.Records
import AetherFs.Kernel.Btree
import AetherFs.Kernel.Checksum

namespace AetherFs.BtreeBytes

open Lib

/-! ## 1. Keys -/

/-- `struct aetherfs_btree_key`. -/
inductive KeyField
  | ino | offset | value | len | flags | checksum
deriving DecidableEq

def keyDecl : Decl KeyField :=
  [(.ino, .u64), (.offset, .u64), (.value, .u64), (.len, .u32), (.flags, .u32), (.checksum, .u32)]

/-- The bytes of a key, with the four that pad it. -/
abbrev Key := Bytes 40

example : naturalSize keyDecl = 40 ∧ offsetOf (natural keyDecl) .checksum = 32 := by decide

section Fields

variable (e : Key)

def kIno : Nat := le64 e 0
def kOffset : Nat := le64 e 8
def kValue : Nat := le64 e 16
def kLen : Nat := le32 e 24

end Fields

/-- What `Btree` keeps of a key. -/
def Key.toBtreeKey (e : Key) : BtreeKey := ⟨kIno e, kOffset e, kValue e, kLen e⟩

/-- The sum of a key is taken over 36 bytes, its own field among them. -/
def sealKey (e : Key) : Key := put32 e 32 (hashed (byteAt e) 0 (40 - 4))

/-- The fields `aetherfs_btree_insert_extent` stores, over what was there. -/
def extentKey (ino lblock pblock blocks : UInt64) (e : Key) : Key :=
  let e := put64 e 0 ino.toNat
  let e := put64 e 8 lblock.toNat
  let e := put64 e 16 pblock.toNat
  sealKey (put32 e 24 blocks.toNat)

/-- The fields `aetherfs_btree_insert_metadata` stores, over what was there. -/
def metadataKey (ino block : UInt64) (size flags : UInt32) (e : Key) : Key :=
  let e := put64 e 0 ino.toNat
  let e := put64 e 8 0
  let e := put64 e 16 block.toNat
  let e := put32 e 24 size.toNat
  sealKey (put32 e 28 flags.toNat)

/-! ## 2. The node -/

section Node

variable (m : Memory)

def bnLevel : Nat := getLE m 8 4
def bnCount : Nat := getLE m 12 4

/-- `bn_data`. -/
def bnData : Memory := fun a => m (24 + a)

/-- The first `bn_count` keys. -/
def nodeKeys : List Key := records (bnData m) 0 (bnCount m)

/-- The node after a change of `bn_data`. -/
def setData (f : Memory → Memory) : Memory := fun a => if a < 24 then m a else f (bnData m) (a - 24)

/-- The bisection of `btree_find_slot_ino` and `btree_find_slot_extent`.  Positions are `int`s; a
node has at most 32 keys. -/
def findSlot (field : Key → Nat) (x : Nat) : Nat :=
  bisect (fun mid => decide (field (recordAt (bnData m) mid) < x)) (bnCount m)

/-- `btree_find_slot_ino`. -/
def findSlotIno (ino : UInt64) : Nat := findSlot m kIno ino.toNat

/-- `btree_find_slot_extent`. -/
def findSlotExtent (lblock : UInt64) : Nat := findSlot m kOffset lblock.toNat

/-- What the two inserts share: the keys from the slot on move up, `key` is written into the gap,
and the count goes up. -/
def insertKey (slot : Nat) (key : Key → Key) : Memory :=
  let m' := setData m fun data =>
    let data := moveBytes data (40 * (slot + 1)) (40 * slot) (40 * (bnCount m - slot))
    setRecord data slot (key (recordAt data slot))
  setLE m' 12 4 (bnCount m' + 1)

/-- The keys behind the slot move down, and the count goes down. -/
def removeKey (slot : Nat) : Memory :=
  let m' := setData m fun data =>
    moveBytes data (40 * slot) (40 * (slot + 1)) (40 * (bnCount m - slot - 1))
  setLE m' 12 4 (bnCount m' - 1)

/-- `btree_checksum_node`. -/
def btreeChecksumNode (size : Nat) : Nat := hashed m 0 (size - 4)

end Node

/-- `btree_alloc_node`.  The objects of the cache are as large as the structure WITHOUT its keys:
of the memory at the node, 24 bytes are zeroed, and 24 are the node's.  The memory behind them, where
the keys go, is taken to be its own here and in all that follows: nothing else writes there. -/
def btreeAllocNode (heap : Memory) : Memory :=
  let node : Memory := fun a => if a < 24 then 0 else heap a
  setLE (setLE (setLE node 8 4 0) 12 4 0) 16 4 0

/-- `aetherfs_btree_create`; `heap` is the memory the allocator found, if it found some. -/
def btreeCreate (heap : Option Memory) (nodeSize : Nat) : Except Errno Memory :=
  if nodeSize = 0 then .error .EINVAL
  else match heap with
    | none => .error .ENOMEM
    | some heap => .ok (setLE (setLE (btreeAllocNode heap) 8 4 0) 12 4 0)

/-- `aetherfs_btree_insert_extent`, which returns 0 whatever it does. -/
def btreeInsertExtent (m : Memory) (ino lblock pblock blocks : UInt64) : Memory :=
  if bnLevel m = 0 ∧ bnCount m < btreeOrder then
    let m := insertKey m (findSlotExtent m lblock) (extentKey ino lblock pblock blocks)
    setLE m 16 4 (btreeChecksumNode m 4096)
  else m

/-- `aetherfs_btree_insert_metadata`, which returns 0 whatever it does. -/
def btreeInsertMetadata (m : Memory) (ino block : UInt64) (size flags : UInt32) : Memory :=
  if bnLevel m = 0 ∧ bnCount m < btreeOrder then
    insertKey m (findSlotIno m ino) (metadataKey ino block size flags)
  else m

/-- The slot has the key that is looked for. -/
def Matches (m : Memory) (ino lblock : UInt64) : Prop :=
  findSlotExtent m lblock < bnCount m ∧
    kIno (recordAt (bnData m) (findSlotExtent m lblock)) = ino.toNat ∧
    kOffset (recordAt (bnData m) (findSlotExtent m lblock)) = lblock.toNat

instance (m : Memory) (ino lblock : UInt64) : Decidable (Matches m ino lblock) :=
  inferInstanceAs (Decidable (_ ∧ _))

/-- `aetherfs_btree_delete_extent`. -/
def btreeDeleteExtent (m : Memory) (ino lblock : UInt64) : Except Errno Memory :=
  if ¬ Matches m ino lblock then .error .ENOENT
  else .ok (removeKey m (findSlotExtent m lblock))

/-! ## 3. The array as a list -/

section Array

variable {m : Memory}

@[simp] theorem bnData_setData (f : Memory → Memory) : bnData (setData m f) = f (bnData m) := by
  funext a
  simp [bnData, setData]

theorem bnData_setLE {off w : Nat} (v : Nat) (h : off + w ≤ 24) :
    bnData (setLE m off w v) = bnData m := by
  funext a
  exact setLE_of_out m v (Or.inr (by omega))

theorem getLE_setData {off w : Nat} (f : Memory → Memory) (h : off + w ≤ 24) :
    getLE (setData m f) off w = getLE m off w :=
  getLE_congr fun _ _ ha => if_pos (Nat.lt_of_lt_of_le ha h)

theorem bnCount_setCount {n : Nat} (h : n ≤ btreeOrder) : bnCount (setLE m 12 4 n) = n := by
  rw [bnCount, getLE_setLE_self]
  exact Nat.mod_eq_of_lt (Nat.lt_of_le_of_lt h (by decide))

theorem nodeKeys_length (m : Memory) : (nodeKeys m).length = bnCount m := records_length _ _ _

theorem nodeKeys_split {slot : Nat} (h : slot ≤ bnCount m) : nodeKeys m =
    records (bnData m) 0 slot ++ records (bnData m) slot (bnCount m - slot) := by
  rw [nodeKeys]
  conv_lhs => rw [← Nat.add_sub_cancel' h, records_append, Nat.zero_add]

theorem nodeKeys_take {slot : Nat} (h : slot ≤ bnCount m) :
    (nodeKeys m).take slot = records (bnData m) 0 slot := by
  rw [nodeKeys_split h, List.take_left' (records_length _ _ _)]

theorem nodeKeys_drop {slot : Nat} (h : slot ≤ bnCount m) :
    (nodeKeys m).drop slot = records (bnData m) slot (bnCount m - slot) := by
  rw [nodeKeys_split h, List.drop_left' (records_length _ _ _)]

theorem nodeKeys_getElem {i : Nat} (h : i < (nodeKeys m).length) :
    (nodeKeys m)[i] = recordAt (bnData m) i := by
  simp [nodeKeys, records]

/-- The record that is about to be overwritten is the one the slot had. -/
theorem recordAt_slot (m : Memory) (slot count : Nat) :
    (recordAt (moveBytes (bnData m) (40 * (slot + 1)) (40 * slot) (40 * count)) slot : Key)
      = recordAt (bnData m) slot := by
  rw [recordAt_move, if_neg (by omega)]

theorem bnCount_insertKey (slot : Nat) (hroom : bnCount m < btreeOrder) (key : Key → Key) :
    bnCount (insertKey m slot key) = bnCount m + 1 := by
  have hcount : bnCount (setData m fun data =>
      let data := moveBytes data (40 * (slot + 1)) (40 * slot) (40 * (bnCount m - slot))
      setRecord data slot (key (recordAt data slot))) = bnCount m := getLE_setData _ (by decide)
  rw [insertKey, hcount, bnCount_setCount hroom]

theorem bnLevel_insertKey (slot : Nat) (key : Key → Key) :
    bnLevel (insertKey m slot key) = bnLevel m := by
  rw [insertKey, bnLevel, getLE_setLE_of_disjoint _ _ (by decide), getLE_setData _ (by decide)]
  rfl

/-- **An insert inserts.** -/
theorem insertKey_keys {slot : Nat} (hslot : slot ≤ bnCount m) (hroom : bnCount m < btreeOrder)
    (key : Key → Key) : nodeKeys (insertKey m slot key) =
      (nodeKeys m).take slot ++ key (recordAt (bnData m) slot) :: (nodeKeys m).drop slot := by
  have hdata : bnData (insertKey m slot key) =
      setRecord (moveBytes (bnData m) (40 * (slot + 1)) (40 * slot) (40 * (bnCount m - slot))) slot
        (key (recordAt (bnData m) slot)) := by
    rw [insertKey, bnData_setLE _ (by decide), bnData_setData]
    simp only [recordAt_slot]
  rw [nodeKeys, bnCount_insertKey _ hroom, hdata, nodeKeys_take hslot, nodeKeys_drop hslot,
    show bnCount m + 1 = slot + (bnCount m - slot + 1) by omega]
  exact records_open (bnData m) slot (bnCount m - slot) _

theorem bnCount_removeKey (slot : Nat) (hfull : bnCount m ≤ btreeOrder) :
    bnCount (removeKey m slot) = bnCount m - 1 := by
  have hcount : bnCount (setData m fun data =>
      moveBytes data (40 * slot) (40 * (slot + 1)) (40 * (bnCount m - slot - 1))) = bnCount m :=
    getLE_setData _ (by decide)
  rw [removeKey, hcount, bnCount_setCount (by omega)]

theorem bnLevel_removeKey (slot : Nat) : bnLevel (removeKey m slot) = bnLevel m := by
  rw [removeKey, bnLevel, getLE_setLE_of_disjoint _ _ (by decide), getLE_setData _ (by decide)]
  rfl

/-- **A delete deletes.** -/
theorem removeKey_keys {slot : Nat} (hslot : slot < bnCount m) (hfull : bnCount m ≤ btreeOrder) :
    nodeKeys (removeKey m slot) = (nodeKeys m).eraseIdx slot := by
  have hdata : bnData (removeKey m slot) =
      moveBytes (bnData m) (40 * slot) (40 * (slot + 1)) (40 * (bnCount m - slot - 1)) := by
    rw [removeKey, bnData_setLE _ (by decide), bnData_setData]
  obtain ⟨hfront, hbehind⟩ := @records_close 40 (bnData m) slot (bnCount m - slot - 1)
  rw [nodeKeys, bnCount_removeKey slot hfull, hdata, List.eraseIdx_eq_take_drop_succ,
    nodeKeys_take hslot.le, nodeKeys_drop hslot,
    show bnCount m - 1 = slot + (bnCount m - slot - 1) by omega, records_append, Nat.zero_add, hfront,
    hbehind, Nat.sub_sub]

theorem nodeKeys_setSum (v : Nat) : nodeKeys (setLE m 16 4 v) = nodeKeys m := by
  have hcount : bnCount (setLE m 16 4 v) = bnCount m := getLE_setLE_of_disjoint m v (by decide)
  rw [nodeKeys, hcount, bnData_setLE v (by decide)]
  rfl

theorem findSlot_le (m : Memory) (field : Key → Nat) (x : Nat) : findSlot m field x ≤ bnCount m :=
  bisect_le _

end Array

/-! ## 4. Nodes of extents -/

/-- The node as `Btree` has it. -/
def toBtreeNode (m : Memory) : BtreeNode := ⟨bnLevel m, (nodeKeys m).map Key.toBtreeKey⟩

section Extents

variable {m : Memory}

@[simp] theorem extentKey_toBtreeKey (ino lblock pblock blocks : UInt64) (e : Key) :
    (extentKey ino lblock pblock blocks e).toBtreeKey
      = ⟨ino.toNat, lblock.toNat, pblock.toNat, blocks.toNat % 2 ^ 32⟩ := by
  have hwide : ∀ x : UInt64, x.toNat % 256 ^ 8 = x.toNat := fun x => Nat.mod_eq_of_lt x.toNat_lt
  simp (disch := decide) only [Key.toBtreeKey, kIno, kOffset, kValue, kLen, extentKey, sealKey,
    getLE_putLE_self, getLE_putLE_of_disjoint, hwide]
  rfl

theorem kOffset_extentKey (ino lblock pblock blocks : UInt64) (e : Key) :
    kOffset (extentKey ino lblock pblock blocks e) = lblock.toNat :=
  congrArg BtreeKey.offset (extentKey_toBtreeKey ino lblock pblock blocks e)

theorem insertExtent_room (hlevel : bnLevel m = 0) (hroom : bnCount m < btreeOrder)
    (ino lblock pblock blocks : UInt64) :
    bnLevel (btreeInsertExtent m ino lblock pblock blocks) = 0 ∧
      bnCount (btreeInsertExtent m ino lblock pblock blocks) = bnCount m + 1 ∧
      nodeKeys (btreeInsertExtent m ino lblock pblock blocks) =
        (nodeKeys m).take (findSlotExtent m lblock) ++ extentKey ino lblock pblock blocks
          (recordAt (bnData m) (findSlotExtent m lblock)) ::
            (nodeKeys m).drop (findSlotExtent m lblock) := by
  rw [btreeInsertExtent, if_pos ⟨hlevel, hroom⟩]
  refine ⟨?_, ?_, ?_⟩
  · rw [bnLevel, getLE_setLE_of_disjoint _ _ (by decide)]
    exact (bnLevel_insertKey _ _).trans hlevel
  · rw [bnCount, getLE_setLE_of_disjoint _ _ (by decide)]
    exact bnCount_insertKey _ hroom _
  · rw [nodeKeys_setSum]
    exact insertKey_keys (findSlot_le _ _ _) hroom _

theorem deleteExtent_eq_ok {m' : Memory} {ino lblock : UInt64} :
    btreeDeleteExtent m ino lblock = .ok m' ↔
      Matches m ino lblock ∧ m' = removeKey m (findSlotExtent m lblock) := by
  rw [btreeDeleteExtent, ite_error_eq_ok, not_not, Except.ok.injEq]
  exact and_congr_right fun _ => eq_comm

/-- The slot is the slot of the list. -/
theorem findSlotExtent_model (m : Memory) (lblock : UInt64) :
    findSlotExtent m lblock = AetherFs.findSlotExtent (toBtreeNode m).keys lblock.toNat := by
  rw [findSlotExtent, findSlot, AetherFs.findSlotExtent, toBtreeNode, List.length_map,
    nodeKeys_length]
  refine bisect_congr fun i hi => ?_
  rw [← nodeKeys_length] at hi
  rw [List.getElem?_map, List.getElem?_eq_getElem hi, nodeKeys_getElem hi]
  rfl

/-- **`aetherfs_btree_insert_extent` on the bytes is the insert on the list.** -/
theorem insertExtent_model (m : Memory) (ino lblock pblock blocks : UInt64) :
    toBtreeNode (btreeInsertExtent m ino lblock pblock blocks) =
      AetherFs.btreeInsertExtent (toBtreeNode m) ino.toNat lblock.toNat pblock.toNat blocks.toNat := by
  have hcond : (toBtreeNode m).level = 0 ∧ (toBtreeNode m).keys.length < btreeOrder ↔
      bnLevel m = 0 ∧ bnCount m < btreeOrder := by
    rw [toBtreeNode, List.length_map, nodeKeys_length]
  by_cases hroom : bnLevel m = 0 ∧ bnCount m < btreeOrder
  · obtain ⟨hlevel, -, hkeys⟩ := insertExtent_room hroom.1 hroom.2 ino lblock pblock blocks
    rw [AetherFs.btreeInsertExtent, if_pos (hcond.mpr hroom), ← findSlotExtent_model, toBtreeNode,
      hlevel, hkeys, List.map_append, List.map_cons, extentKey_toBtreeKey, List.map_take,
      List.map_drop]
    simp only [toBtreeNode, hroom.1]
  · rw [AetherFs.btreeInsertExtent, if_neg fun h => hroom (hcond.mp h), btreeInsertExtent,
      if_neg hroom]

/-- **`aetherfs_btree_delete_extent` on the bytes is the delete on the list.** -/
theorem deleteExtent_model (hfull : bnCount m ≤ btreeOrder) (ino lblock : UInt64) :
    (btreeDeleteExtent m ino lblock).map toBtreeNode =
      AetherFs.btreeDeleteExtent (toBtreeNode m) ino.toNat lblock.toNat := by
  rw [btreeDeleteExtent, AetherFs.btreeDeleteExtent, keyAt, ← findSlotExtent_model]
  by_cases hslot : findSlotExtent m lblock < bnCount m
  · have hin : findSlotExtent m lblock < (nodeKeys m).length := by rwa [nodeKeys_length]
    rw [toBtreeNode, List.getElem?_map, List.getElem?_eq_getElem hin, nodeKeys_getElem hin]
    simp only [Option.map_some, Matches, hslot, true_and, Key.toBtreeKey, ite_not]
    split
    · rw [Except.map, toBtreeNode, bnLevel_removeKey, removeKey_keys hslot hfull, List.eraseIdx_map]
    · rfl
  · have hout : (nodeKeys m).length ≤ findSlotExtent m lblock := by
      rw [nodeKeys_length]
      exact Nat.not_lt.mp hslot
    rw [toBtreeNode, List.getElem?_map, List.getElem?_eq_none hout,
      if_pos fun hmatch => hslot hmatch.1]
    rfl

/-- The invariant: a leaf that is not overfull, with its keys in order. -/
structure SortedLeaf (m : Memory) : Prop where
  level : bnLevel m = 0
  count_le : bnCount m ≤ btreeOrder
  sorted : (nodeKeys m).Pairwise fun a b => kOffset a ≤ kOffset b

theorem SortedLeaf.mono (h : SortedLeaf m) (x : Nat) : (nodeKeys m).Pairwise fun a b =>
    decide (x ≤ kOffset a) = true → decide (x ≤ kOffset b) = true := by
  refine h.sorted.imp fun hab ha => ?_
  rw [decide_eq_true_eq] at ha ⊢
  exact ha.trans hab

/-- **The bisection finds the first key that is not below the offset.** -/
theorem SortedLeaf.slot (h : SortedLeaf m) (lblock : UInt64) :
    findSlotExtent m lblock = (nodeKeys m).findIdx fun e => decide (lblock.toNat ≤ kOffset e) := by
  rw [findSlotExtent, findSlot, ← nodeKeys_length]
  refine bisect_findIdx (h.mono lblock.toNat) fun i hi => ?_
  rw [nodeKeys_getElem hi, ← decide_not]
  exact decide_eq_decide.mpr Nat.not_le.symm

/-- **The step: an insert keeps the order.** -/
theorem SortedLeaf.insertExtent (h : SortedLeaf m) (ino lblock pblock blocks : UInt64) :
    SortedLeaf (btreeInsertExtent m ino lblock pblock blocks) := by
  by_cases hroom : bnCount m < btreeOrder
  · obtain ⟨hlevel, hcount, hkeys⟩ := insertExtent_room h.level hroom ino lblock pblock blocks
    refine ⟨hlevel, hcount ▸ hroom, ?_⟩
    rw [hkeys, h.slot]
    have hbelow : ∀ a ∈ (nodeKeys m).take ((nodeKeys m).findIdx fun e =>
        decide (lblock.toNat ≤ kOffset e)), kOffset a < lblock.toNat := by
      intro a ha
      have hnot := not_mem_take_findIdx ha
      exact Nat.not_le.mp (of_decide_eq_false hnot)
    have habove : ∀ b ∈ (nodeKeys m).drop ((nodeKeys m).findIdx fun e =>
        decide (lblock.toNat ≤ kOffset e)), lblock.toNat ≤ kOffset b := by
      intro b hb
      have hin := mem_drop_findIdx (h.mono lblock.toNat) hb
      exact of_decide_eq_true hin
    refine List.pairwise_append.mpr ⟨h.sorted.sublist (List.take_sublist _ _),
      List.pairwise_cons.mpr ⟨fun b hb => ?_, h.sorted.sublist (List.drop_sublist _ _)⟩,
      fun a ha b hb => ?_⟩
    · rw [kOffset_extentKey]
      exact habove b hb
    · rcases List.mem_cons.mp hb with rfl | hb
      · rw [kOffset_extentKey]
        exact (hbelow a ha).le
      · exact (hbelow a ha).le.trans (habove b hb)
  · rw [btreeInsertExtent, if_neg fun hboth => hroom hboth.2]
    exact h

/-- **The step: a delete keeps the order.** -/
theorem SortedLeaf.deleteExtent (h : SortedLeaf m) {m' : Memory} {ino lblock : UInt64}
    (hok : btreeDeleteExtent m ino lblock = .ok m') : SortedLeaf m' := by
  obtain ⟨⟨hslot, -⟩, rfl⟩ := deleteExtent_eq_ok.mp hok
  refine ⟨(bnLevel_removeKey _).trans h.level, ?_, ?_⟩
  · rw [bnCount_removeKey _ h.count_le]
    exact (Nat.sub_le _ _).trans h.count_le
  · rw [removeKey_keys hslot h.count_le]
    exact h.sorted.sublist (List.eraseIdx_sublist _ _)

end Extents

/-! ## 5. Runs -/

inductive NodeCall
  | insertExtent (ino lblock pblock blocks : UInt64)
  | insertMetadata (ino block : UInt64) (size flags : UInt32)
  | deleteExtent (ino lblock : UInt64)

/-- A delete that fails leaves the node alone. -/
def nodeStep (m : Memory) : NodeCall → Memory
  | .insertExtent ino lblock pblock blocks => btreeInsertExtent m ino lblock pblock blocks
  | .insertMetadata ino block size flags => btreeInsertMetadata m ino block size flags
  | .deleteExtent ino lblock =>
    match btreeDeleteExtent m ino lblock with
    | .ok m' => m'
    | .error _ => m

/-- The calls on a node of extents. -/
def NodeCall.OnExtents : NodeCall → Prop
  | .insertMetadata _ _ _ _ => False
  | _ => True

/-- **The run: from a sorted leaf every run of calls on extents stays in sorted leaves.** -/
theorem SortedLeaf.run {m m' : Memory} (h : SortedLeaf m) {calls : List NodeCall}
    (hcalls : ∀ c ∈ calls, c.OnExtents) (hm' : m' ∈ states nodeStep m calls) : SortedLeaf m' := by
  refine run_inv_mem (fun {s} hs c hc => ?_) calls h hcalls hm'
  cases c with
  | insertExtent ino lblock pblock blocks => exact hs.insertExtent ino lblock pblock blocks
  | insertMetadata ino block size flags => exact hc.elim
  | deleteExtent ino lblock =>
    rw [nodeStep]
    split
    · rename_i hok
      exact hs.deleteExtent hok
    · exact hs

theorem create_eq_ok {heap : Option Memory} {nodeSize : Nat} {node : Memory} :
    btreeCreate heap nodeSize = .ok node ↔ nodeSize ≠ 0 ∧ ∃ mem, heap = some mem ∧
      node = setLE (setLE (btreeAllocNode mem) 8 4 0) 12 4 0 := by
  unfold btreeCreate
  rw [ite_error_eq_ok]
  cases heap with
  | none => simp
  | some mem => simp [eq_comm]

theorem created_leaf {heap : Option Memory} {nodeSize : Nat} {node : Memory}
    (h : btreeCreate heap nodeSize = .ok node) :
    bnLevel node = 0 ∧ bnCount node = 0 := by
  obtain ⟨-, mem, -, rfl⟩ := create_eq_ok.mp h
  constructor
  · rw [bnLevel, getLE_setLE_of_disjoint _ _ (by decide), getLE_setLE_self, Nat.zero_mod]
  · rw [bnCount, getLE_setLE_self, Nat.zero_mod]

/-- What a node of extents promises. -/
structure ExtentNode (m : Memory) : Prop where
  count_le : bnCount m ≤ 32
  sorted : (nodeKeys m).Pairwise fun a b => kOffset a ≤ kOffset b
  /-- The slot is the least whose key is not below the offset, or the number of the keys. -/
  slot : ∀ lblock : UInt64,
    findSlotExtent m lblock = (nodeKeys m).findIdx fun e => decide (lblock.toNat ≤ kOffset e)
  /-- An insert into a node that is not full adds the new key and keeps the others. -/
  insert : ∀ ino lblock pblock blocks : UInt64, bnCount m < 32 →
    ∃ slot new, new.toBtreeKey
        = ⟨ino.toNat, lblock.toNat, pblock.toNat, blocks.toNat % 2 ^ 32⟩ ∧
      nodeKeys (btreeInsertExtent m ino lblock pblock blocks)
        = (nodeKeys m).take slot ++ new :: (nodeKeys m).drop slot
  /-- A delete that succeeds removes one key that matches, and keeps the others. -/
  delete : ∀ (ino lblock : UInt64) (m' : Memory), btreeDeleteExtent m ino lblock = .ok m' →
    ∃ slot key, (nodeKeys m)[slot]? = some key ∧ kIno key = ino.toNat ∧
      kOffset key = lblock.toNat ∧ nodeKeys m' = (nodeKeys m).eraseIdx slot

theorem SortedLeaf.extentNode {m : Memory} (h : SortedLeaf m) : ExtentNode m where
  count_le := h.count_le
  sorted := h.sorted
  slot := h.slot
  insert ino lblock pblock blocks hroom := by
    obtain ⟨-, -, hkeys⟩ := insertExtent_room h.level hroom ino lblock pblock blocks
    exact ⟨_, _, extentKey_toBtreeKey ino lblock pblock blocks _, hkeys⟩
  delete ino lblock m' hok := by
    obtain ⟨⟨hslot, hino, hoff⟩, rfl⟩ := deleteExtent_eq_ok.mp hok
    have hin : findSlotExtent m lblock < (nodeKeys m).length := by rwa [nodeKeys_length]
    refine ⟨findSlotExtent m lblock, recordAt (bnData m) (findSlotExtent m lblock), ?_, hino, hoff,
      removeKey_keys hslot h.count_le⟩
    rw [List.getElem?_eq_getElem hin, nodeKeys_getElem hin]

/-- **Extent nodes stay sorted and bounded**, in every run of inserts and deletes from a new node,
whatever their arguments, as long as nothing else writes behind the 24 bytes of the slab object. -/
theorem extent_nodes_stay_sorted {heap : Option Memory} {nodeSize : Nat} {node : Memory}
    (hcreate : btreeCreate heap nodeSize = .ok node) {calls : List NodeCall}
    (hcalls : ∀ c ∈ calls, c.OnExtents) {m : Memory} (hm : m ∈ states nodeStep node calls) :
    ExtentNode m := by
  obtain ⟨hlevel, hcount⟩ := created_leaf hcreate
  have hempty : nodeKeys node = [] := by rw [nodeKeys, hcount, records_zero]
  have hstart : SortedLeaf node :=
    ⟨hlevel, hcount ▸ Nat.zero_le _, hempty ▸ List.Pairwise.nil⟩
  exact (hstart.run hcalls hm).extentNode

theorem shared_offset_sorted : ∃ node, btreeCreate (some fun _ => 0) 4096 = .ok node ∧
    ExtentNode ([.insertExtent 17 0 8 4, .insertExtent 18 0 9 1, .deleteExtent 18 0].foldl
      nodeStep node) := by
  refine ⟨_, rfl, @extent_nodes_stay_sorted (some fun _ => 0) 4096 _ rfl _ ?_ _
    (foldl_mem_states _ _)⟩
  simp [NodeCall.OnExtents]

/-! ## 6. The sum -/

/-- The sum of the node verifies. -/
def Fresh (m : Memory) : Prop := (verifyBtreeNodeChecksum 4096 m).1 = .ok ()

/-- The four bytes of a count. -/
def countBytes (n : Nat) : List UInt8 := bytesFrom (setLE (fun _ => 0) 0 4 n) 0 4

/-- The difference two nodes have, from `bn_count` on: the counts, the sum and the reserved bytes,
which are not part of it, and the keys. -/
def nodeEdit (count count' : Nat) (keys keys' : List Key) : List UInt8 :=
  List.zipWith (· ^^^ ·) (countBytes count) (countBytes count') ++ List.replicate 8 0 ++
    List.zipWith (· ^^^ ·) (keys.flatMap toList) (keys'.flatMap toList)

/-- A difference the sum does not see. -/
def Unseen (count count' : Nat) (keys keys' : List Key) : Prop :=
  kernelRegister 0#32 (nodeEdit count count' keys keys') = 0#32

instance (count count' : Nat) (keys keys' : List Key) : Decidable (Unseen count count' keys keys') :=
  inferInstanceAs (Decidable (_ = _))

/-- What a call must find for the sum to be right after it. -/
def KeepsFresh (m : Memory) : NodeCall → Prop
  -- the old sum is hashed into the new one, and must leave no trace
  | .insertExtent _ _ _ _ => btreeOrder ≤ bnCount m ∨ kernelRegister 0#32 (bytesFrom m 16 4) = 0#32
  -- the others keep the old sum, and their change must leave no trace
  | .insertMetadata ino block size flags => btreeOrder ≤ bnCount m ∨
      Unseen (bnCount m) (bnCount m + 1) (nodeKeys m ++ [recordAt (bnData m) (bnCount m)])
        ((nodeKeys m).take (findSlotIno m ino) ++ metadataKey ino block size flags
          (recordAt (bnData m) (findSlotIno m ino)) :: (nodeKeys m).drop (findSlotIno m ino))
  | .deleteExtent ino lblock => ¬ Matches m ino lblock ∨
      Unseen (bnCount m) (bnCount m - 1) (nodeKeys m)
        ((nodeKeys m).eraseIdx (findSlotExtent m lblock) ++ [recordAt (bnData m) (bnCount m - 1)])

section Sum

variable {m m' : Memory}

theorem fresh_iff : Fresh m ↔ getLE m 16 4 = hashed (setLE m 16 4 0) 0 4092 := by
  have hoff : offsetOf (natural btreeNodeDecl) .checksum = 16 := by decide
  have hlen : subU64 4096 4 = 4092 := by decide
  rw [Fresh, verifyBtreeNodeChecksum, hoff, hlen, verifyZeroed]
  simp only [ite_eq_left_iff, reduceCtorEq, imp_false, not_not]

theorem countBytes_bnCount (m : Memory) : countBytes (bnCount m) = bytesFrom m 12 4 := by
  refine List.map_congr_left fun i hi => ?_
  have hlt := List.mem_range.mp hi
  rw [setLE, if_pos (by omega), Nat.zero_add, Nat.sub_zero, bnCount, getLE_digit m hlt]

/-- The hashed bytes of a node from `bn_count` on, as far as `n` keys. -/
theorem hashed_part (m : Memory) (n : Nat) : bytesFrom (setLE m 16 4 0) 12 (4 + 8 + 40 * n) =
    countBytes (bnCount m) ++ bytesFrom (setLE m 16 4 0) 16 8 ++
      (records (bnData m) 0 n : List Key).flatMap toList := by
  have hdata : bytesFrom (setLE m 16 4 0) 24 (40 * n) = bytesFrom (bnData m) 0 (40 * n) := by
    refine List.map_congr_left fun i _ => ?_
    rw [setLE_of_out m 0 (Or.inr (by omega)), Nat.zero_add, bnData]
  rw [bytesFrom_append, bytesFrom_append, bytesFrom_setLE_of_disjoint m 0 (Or.inl (by decide)),
    countBytes_bnCount, hdata, bytesFrom_records]

theorem zipWith_xor_self : ∀ l : List UInt8,
    List.zipWith (· ^^^ ·) l l = List.replicate l.length 0
  | [] => rfl
  | b :: l => by
    rw [List.zipWith_cons_cons, UInt8.xor_self, zipWith_xor_self l, List.length_cons,
      List.replicate_succ]

/-- **A change of the count and of the first `n` keys, with the sum left alone**, leaves the sum right
exactly when the sum does not see it. -/
theorem fresh_edit_iff {n : Nat} (hn : n ≤ 33) (hfresh : Fresh m)
    (hhead : ∀ a, a < 12 ∨ (16 ≤ a ∧ a < 24) → m' a = m a)
    (hdata : ∀ a, 40 * n ≤ a → bnData m' a = bnData m a) :
    Fresh m' ↔ Unseen (bnCount m) (bnCount m') (records (bnData m) 0 n) (records (bnData m') 0 n) := by
  have hsum : getLE m' 16 4 = getLE m 16 4 := getLE_congr fun a h1 h2 => hhead a (by omega)
  have hlength : ∀ x : Memory, ((records (bnData x) 0 n : List Key).flatMap toList).length = 40 * n := by
    intro x
    rw [← bytesFrom_records, bytesFrom_length]
  have hmiddle : bytesFrom (setLE m' 16 4 0) 16 8 = bytesFrom (setLE m 16 4 0) 16 8 := by
    refine bytesFrom_congr fun i hi => ?_
    simp only [setLE, hhead (16 + i) (by omega)]
  have hout : ∀ i, i < 4092 → i < 12 ∨ 12 + (4 + 8 + 40 * n) ≤ i →
      setLE m 16 4 0 (0 + i) = setLE m' 16 4 0 (0 + i) := by
    intro i _ hi
    simp only [setLE, Nat.zero_add]
    refine if_congr Iff.rfl rfl ?_
    rcases hi with hi | hi
    · exact (hhead i (Or.inl hi)).symm
    · have := hdata (i - 24) (by omega)
      simp only [bnData, Nat.add_sub_cancel' (show 24 ≤ i by omega)] at this
      exact this.symm
  rw [fresh_iff] at hfresh
  rw [fresh_iff, hsum, hfresh, hashed_window_iff (k := 12) (w := 4 + 8 + 40 * n) (by omega) hout,
    hashed_part, hashed_part, hmiddle, List.zipWith_append, List.zipWith_append, zipWith_xor_self]
  · rw [bytesFrom_length]
    rfl
  · simp [countBytes, bytesFrom_length]
  · simp [countBytes, bytesFrom_length]

/-- Outside the count and the first keys, an insert changes nothing. -/
theorem insertKey_frame {slot : Nat} (hslot : slot ≤ bnCount m) (key : Key → Key) :
    (∀ a, a < 12 ∨ (16 ≤ a ∧ a < 24) → insertKey m slot key a = m a) ∧
      ∀ a, 40 * (bnCount m + 1) ≤ a → bnData (insertKey m slot key) a = bnData m a := by
  constructor
  · intro a ha
    rw [insertKey, setLE_of_out _ _ (by omega), setData, if_pos (by omega)]
  · intro a ha
    rw [insertKey, bnData_setLE _ (by decide), bnData_setData]
    simp only [setRecord, moveBytes]
    rw [if_neg (by omega), if_neg (by omega)]

/-- Outside the count and the first keys, a delete changes nothing. -/
theorem removeKey_frame {slot : Nat} (hslot : slot < bnCount m) :
    (∀ a, a < 12 ∨ (16 ≤ a ∧ a < 24) → removeKey m slot a = m a) ∧
      ∀ a, 40 * (bnCount m - 1) ≤ a → bnData (removeKey m slot) a = bnData m a := by
  constructor
  · intro a ha
    rw [removeKey, setLE_of_out _ _ (by omega), setData, if_pos (by omega)]
  · intro a ha
    rw [removeKey, bnData_setLE _ (by decide), bnData_setData]
    exact if_neg (by omega)

/-- The step: an insert of metadata into a node with room. -/
theorem fresh_insertKey_iff {slot : Nat} (hslot : slot ≤ bnCount m) (hroom : bnCount m < btreeOrder)
    (hfresh : Fresh m) (key : Key → Key) : Fresh (insertKey m slot key) ↔
      Unseen (bnCount m) (bnCount m + 1) (nodeKeys m ++ [recordAt (bnData m) (bnCount m)])
        ((nodeKeys m).take slot ++ key (recordAt (bnData m) slot) :: (nodeKeys m).drop slot) := by
  obtain ⟨hhead, hdata⟩ := insertKey_frame hslot key
  have hcount := bnCount_insertKey slot hroom key
  have hnew := insertKey_keys hslot hroom key
  rw [nodeKeys, hcount] at hnew
  rw [fresh_edit_iff (Nat.succ_le_succ (Nat.le_of_lt hroom)) hfresh hhead hdata, hcount, hnew,
    records_snoc, Nat.zero_add, nodeKeys]

theorem fresh_removeKey_iff {slot : Nat} (hslot : slot < bnCount m) (hfull : bnCount m ≤ btreeOrder)
    (hfresh : Fresh m) : Fresh (removeKey m slot) ↔
      Unseen (bnCount m) (bnCount m - 1) (nodeKeys m)
        ((nodeKeys m).eraseIdx slot ++ [recordAt (bnData m) (bnCount m - 1)]) := by
  obtain ⟨hhead, hdata⟩ := removeKey_frame hslot
  have hcount := bnCount_removeKey slot hfull
  have hnew := removeKey_keys hslot hfull
  rw [nodeKeys, hcount] at hnew
  -- the last record stays where it is
  have hlast : (recordAt (bnData (removeKey m slot)) (bnCount m - 1) : Key)
      = recordAt (bnData m) (bnCount m - 1) := recordAt_congr fun a ha _ => hdata a ha
  have hall : (records (bnData (removeKey m slot)) 0 (bnCount m) : List Key)
      = (nodeKeys m).eraseIdx slot ++ [recordAt (bnData m) (bnCount m - 1)] := by
    conv_lhs => rw [show bnCount m = bnCount m - 1 + 1 by omega]
    rw [records_snoc, Nat.zero_add, hnew, hlast]
  rw [fresh_edit_iff (Nat.le_succ_of_le hfull) hfresh hhead
    (fun a ha => hdata a (by omega)), hcount, hall, nodeKeys]

/-- The step: an insert of an extent into a node with room.  Whether the sum was right before plays
no part. -/
theorem fresh_insertExtent_iff (hlevel : bnLevel m = 0) (hroom : bnCount m < btreeOrder)
    (ino lblock pblock blocks : UInt64) : Fresh (btreeInsertExtent m ino lblock pblock blocks) ↔
      kernelRegister 0#32 (bytesFrom m 16 4) = 0#32 := by
  have hslot : findSlotExtent m lblock ≤ bnCount m := findSlot_le _ _ _
  obtain ⟨hhead, -⟩ := insertKey_frame hslot (extentKey ino lblock pblock blocks)
  have hold : bytesFrom (insertKey m (findSlotExtent m lblock) (extentKey ino lblock pblock blocks))
      16 4 = bytesFrom m 16 4 := bytesFrom_congr fun i hi => hhead _ (by omega)
  have hzeroed := @hashed_zeroed_iff
    (insertKey m (findSlotExtent m lblock) (extentKey ino lblock pblock blocks)) 0 16 4092 (by decide)
  rw [Nat.zero_add, show min 4 (4092 - 16) = 4 by decide, hold] at hzeroed
  rw [btreeInsertExtent, if_pos ⟨hlevel, hroom⟩, fresh_iff, getLE_setLE_self, setLE_setLE,
    btreeChecksumNode, Nat.mod_eq_of_lt (hashed_lt _ _ _)]
  exact hzeroed

/-- The invariant: a leaf that is not overfull, with a sum that verifies. -/
structure FreshLeaf (m : Memory) : Prop where
  level : bnLevel m = 0
  count_le : bnCount m ≤ btreeOrder
  fresh : Fresh m

theorem nodeStep_full (hfull : ¬ bnCount m < btreeOrder) :
    (∀ ino lblock pblock blocks, nodeStep m (.insertExtent ino lblock pblock blocks) = m) ∧
      ∀ ino block size flags, nodeStep m (.insertMetadata ino block size flags) = m :=
  ⟨fun _ _ _ _ => if_neg fun h => hfull h.2, fun _ _ _ _ => if_neg fun h => hfull h.2⟩

theorem nodeStep_delete (m : Memory) (ino lblock : UInt64) : nodeStep m (.deleteExtent ino lblock)
    = if Matches m ino lblock then removeKey m (findSlotExtent m lblock) else m := by
  by_cases hmatch : Matches m ino lblock
  · rw [nodeStep, deleteExtent_eq_ok.mpr ⟨hmatch, rfl⟩, if_pos hmatch]
  · rw [nodeStep, btreeDeleteExtent, if_pos hmatch, if_neg hmatch]

theorem nodeStep_leaf (hlevel : bnLevel m = 0) (hcount : bnCount m ≤ btreeOrder) (c : NodeCall) :
    bnLevel (nodeStep m c) = 0 ∧ bnCount (nodeStep m c) ≤ btreeOrder := by
  cases c with
  | insertExtent ino lblock pblock blocks =>
    by_cases hroom : bnCount m < btreeOrder
    · obtain ⟨hlevel', hcount', -⟩ := insertExtent_room hlevel hroom ino lblock pblock blocks
      exact ⟨hlevel', hcount' ▸ hroom⟩
    · rw [(nodeStep_full hroom).1]
      exact ⟨hlevel, hcount⟩
  | insertMetadata ino block size flags =>
    by_cases hroom : bnCount m < btreeOrder
    · rw [nodeStep, btreeInsertMetadata, if_pos ⟨hlevel, hroom⟩, bnLevel_insertKey,
        bnCount_insertKey _ hroom]
      exact ⟨hlevel, hroom⟩
    · rw [(nodeStep_full hroom).2]
      exact ⟨hlevel, hcount⟩
  | deleteExtent ino lblock =>
    rw [nodeStep_delete]
    split
    · rw [bnLevel_removeKey, bnCount_removeKey _ hcount]
      exact ⟨hlevel, (Nat.sub_le _ _).trans hcount⟩
    · exact ⟨hlevel, hcount⟩

/-- **The step**: after a call on a leaf whose sum is right, it is right exactly when the call has
found what it needs. -/
theorem nodeStep_fresh_iff (h : FreshLeaf m) (c : NodeCall) :
    Fresh (nodeStep m c) ↔ KeepsFresh m c := by
  cases c with
  | insertExtent ino lblock pblock blocks =>
    by_cases hroom : bnCount m < btreeOrder
    · rw [KeepsFresh, or_iff_right (Nat.not_le.mpr hroom)]
      exact fresh_insertExtent_iff h.level hroom ino lblock pblock blocks
    · rw [(nodeStep_full hroom).1]
      exact iff_of_true h.fresh (Or.inl (Nat.not_lt.mp hroom))
  | insertMetadata ino block size flags =>
    by_cases hroom : bnCount m < btreeOrder
    · rw [KeepsFresh, or_iff_right (Nat.not_le.mpr hroom), nodeStep, btreeInsertMetadata,
        if_pos ⟨h.level, hroom⟩]
      exact fresh_insertKey_iff (findSlot_le _ _ _) hroom h.fresh _
    · rw [(nodeStep_full hroom).2]
      exact iff_of_true h.fresh (Or.inl (Nat.not_lt.mp hroom))
  | deleteExtent ino lblock =>
    rw [nodeStep_delete]
    split
    · rename_i hmatch
      rw [KeepsFresh, or_iff_right (not_not.mpr hmatch)]
      exact fresh_removeKey_iff hmatch.1 h.count_le h.fresh
    · rename_i hmatch
      exact iff_of_true h.fresh (Or.inl hmatch)

theorem FreshLeaf.step (h : FreshLeaf m) {c : NodeCall} (hkeeps : KeepsFresh m c) :
    FreshLeaf (nodeStep m c) := by
  obtain ⟨hlevel, hcount⟩ := nodeStep_leaf h.level h.count_le c
  exact ⟨hlevel, hcount, (nodeStep_fresh_iff h c).mpr hkeeps⟩

theorem computed_frame (m : Memory) : bnLevel (computeBtreeNodeChecksum 4096 m).2 = bnLevel m ∧
    bnCount (computeBtreeNodeChecksum 4096 m).2 = bnCount m ∧
    bnData (computeBtreeNodeChecksum 4096 m).2 = bnData m := by
  have hoff : offsetOf (natural btreeNodeDecl) .checksum = 16 := by decide
  rw [computeBtreeNodeChecksum, hoff, storeChecksum]
  refine ⟨?_, ?_, ?_⟩
  · rw [bnLevel, getLE_setLE_of_disjoint _ _ (by decide), getLE_setLE_of_disjoint _ _ (by decide)]
    rfl
  · rw [bnCount, getLE_setLE_of_disjoint _ _ (by decide), getLE_setLE_of_disjoint _ _ (by decide)]
    rfl
  · rw [bnData_setLE _ (by decide), bnData_setLE _ (by decide)]

theorem computed_leaf (hlevel : bnLevel m = 0) (hcount : bnCount m ≤ btreeOrder) :
    FreshLeaf (computeBtreeNodeChecksum 4096 m).2 := by
  obtain ⟨hlevel', hcount', -⟩ := computed_frame m
  have hverify := (verifyZeroed_agrees (offsetOf (natural btreeNodeDecl) .checksum) (subU64 4096 4)
    .EUCLEAN m).2
  exact ⟨hlevel'.trans hlevel, hcount'.le.trans hcount, congrArg Prod.fst hverify⟩

end Sum

/-- **Fresh sums, exactly.**  From a new node whose sum has been stored, the sum verifies in every
state of a run exactly when every call of it finds what `KeepsFresh` says: an insert of an extent a
full node or an old sum that hashes to nothing, an insert of metadata a full node or a change that
hashes to nothing, and a delete no key or a change that hashes to nothing.  The memory behind the
slab object is taken to be the node's own. -/
theorem node_sums_fresh_iff {heap : Option Memory} {nodeSize : Nat} {node : Memory}
    (hcreate : btreeCreate heap nodeSize = .ok node) (calls : List NodeCall) :
    (∀ m ∈ states nodeStep (computeBtreeNodeChecksum 4096 node).2 calls,
        (verifyBtreeNodeChecksum 4096 m).1 = .ok ()) ↔
      Along nodeStep KeepsFresh (computeBtreeNodeChecksum 4096 node).2 calls := by
  obtain ⟨hlevel, hcount⟩ := created_leaf hcreate
  exact states_good_iff (fun m hm => hm.fresh) (fun m c hm _ hkeeps => hm.step hkeeps)
    (fun m c hm _ hfresh => (nodeStep_fresh_iff hm c).mp hfresh) calls _
    (computed_leaf hlevel (hcount ▸ Nat.zero_le _)) (along_of_forall (fun _ _ => trivial) calls _)

/-- A new node, in memory that was zero but for the byte 99 at 91. -/
def tracelessNode : Memory :=
  setLE (setLE (btreeAllocNode fun a => if a = 91 then 99 else 0) 8 4 0) 12 4 0

/-- The sum of this node hashes to nothing: the first insert of an extent keeps it right. -/
theorem node_sums_fresh_insert :
    btreeCreate (some fun a => if a = 91 then 99 else 0) 4096 = .ok tracelessNode ∧
    bnCount (nodeStep (computeBtreeNodeChecksum 4096 tracelessNode).2 (.insertExtent 17 0 8 4)) = 1 ∧
    ∀ m ∈ states nodeStep (computeBtreeNodeChecksum 4096 tracelessNode).2 [.insertExtent 17 0 8 4],
      (verifyBtreeNodeChecksum 4096 m).1 = .ok () := by
  have hcreate : btreeCreate (some fun a => if a = 91 then 99 else 0) 4096 = .ok tracelessNode := rfl
  obtain ⟨hlevel, hcount⟩ := created_leaf hcreate
  obtain ⟨hlevel', hcount', -⟩ := computed_frame tracelessNode
  have hempty := hcount'.trans hcount
  refine ⟨hcreate, ?_, (node_sums_fresh_iff hcreate _).mpr ⟨Or.inr (by decide +kernel), trivial⟩⟩
  obtain ⟨-, hone, -⟩ :=
    insertExtent_room (hlevel'.trans hlevel) (hempty ▸ by decide) 17 0 8 4
  exact hone.trans (congrArg (· + 1) hempty)

/-- A new node, in memory that was zero. -/
def newNode : Memory := setLE (setLE (btreeAllocNode fun _ => 0) 8 4 0) 12 4 0

theorem newNode_created : btreeCreate (some fun _ => 0) 4096 = .ok newNode := rfl

/-- The first insert of metadata makes the sum wrong. -/
theorem first_metadata_unsummed : btreeCreate (some fun _ => 0) 4096 = .ok newNode ∧
    (verifyBtreeNodeChecksum 4096
      (nodeStep (computeBtreeNodeChecksum 4096 newNode).2 (.insertMetadata 17 8 1 0))).1
        ≠ .ok () := by
  obtain ⟨hlevel, hcount⟩ := created_leaf newNode_created
  obtain ⟨-, hcount', hdata⟩ := computed_frame newNode
  have hzero : (recordAt (bnData newNode) 0 : Key) = zeros 40 := by
    rw [newNode, bnData_setLE _ (by decide), bnData_setLE _ (by decide), btreeAllocNode,
      bnData_setLE _ (by decide), bnData_setLE _ (by decide), bnData_setLE _ (by decide)]
    funext k
    simp [recordAt, bnData, zeros]
  have hslot : findSlotIno (computeBtreeNodeChecksum 4096 newNode).2 17 = 0 := by
    rw [findSlotIno, findSlot, hcount', hcount]
    rfl
  have hseen : ¬ Unseen 0 1 [zeros 40] [metadataKey 17 8 1 0 (zeros 40)] := by decide +kernel
  refine ⟨newNode_created, fun hfresh => ?_⟩
  have hkeeps := (nodeStep_fresh_iff (computed_leaf hlevel (hcount ▸ Nat.zero_le _)) _).mp hfresh
  rw [KeepsFresh, hcount', hcount, hslot, nodeKeys, hcount', hcount, hdata, hzero] at hkeeps
  rcases hkeeps with hfull | hunseen
  · exact absurd hfull (by decide)
  · exact hseen hunseen

end AetherFs.BtreeBytes
