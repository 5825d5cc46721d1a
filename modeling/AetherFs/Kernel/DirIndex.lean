/-
# The hashed directory index of `dir_idx.c`

A directory's index block names one leaf, and the leaf's header says how many entries it has.
`aetherfs_dir_htree_insert` takes a leaf whose type is 0 for one that was never used and resets its
count; but `DIR_INDEX_HASH`, the type it writes, IS 0.  So each insert starts the leaf anew and
writes the first entry over (`leafInsert_holds`).  `aetherfs_dir_htree_delete` counts an entry less
and leaves the leaf as it is.

* `LeafHolds`: the leaf after an insert, byte by byte where a lookup reads it.
* Along every run the index is the map it is meant to be exactly until the second insert or the
  first delete that succeeds, or until an insert cannot read the index block again (`DirFits`).
-/
import AetherFs.Device
import AetherFs.Kernel.Checksum
import AetherFs.Lib.Machine

namespace AetherFs

open Lib

/-! ## 1. The source

The index block is a `struct aetherfs_dir_htree`: `h_root_block` at 0, `h_depth` at 8, `h_entries`
at 12, `h_hash_seed` at 16, `h_type` at 20, `h_ordered_root` at 24, `h_split_threshold` at 32.  A
leaf is a `struct aetherfs_dir_leaf`: `dl_type` at 0, `dl_count` at 4, `dl_checksum` at 12,
`dl_next_leaf` at 16, the entries from 24 on; of an entry, `dhe_hash` at 0, `dhe_ino` at 8,
`dhe_namelen` at 16, `dhe_flags` at 18, `dhe_checksum` at 20, `dhe_name` at 24. -/

/-- `DIR_INDEX_HASH`. -/
abbrev dirIndexHash : Nat := 0

/-- `AETHERFS_DIR_LEAF_ENTRIES`. -/
abbrev dirLeafEntries : Nat := 128

/-- `dir_hash_seed`. -/
abbrev dirHashSeed : BitVec 32 := 0x12345678#32

/-- `aetherfs_hash_name`; the kernel is built with unsigned `char`. -/
def hashName (name : List UInt8) : BitVec 32 :=
  let hash := name.foldl (fun (hash : BitVec 32) (c : UInt8) =>
    let hash := (hash <<< 5) + hash + c.toBitVec.setWidth 32
    hash ^^^ (hash >>> 16)) dirHashSeed
  ((hash >>> 11) ^^^ (hash <<< 5)) &&& 0xFFFF#32

/-- The index block of a directory and the leaf it names. -/
structure DirIndex where
  index : Memory
  leaf : Memory

/-- `aetherfs_dir_index_init`, on what `sb_bread` gives. -/
def dirIndexInit (index : Memory) : Memory :=
  let index := setLE (setLE (setLE index 0 8 0) 8 4 0) 12 4 0
  let index := setLE (setLE index 16 4 dirHashSeed.toNat) 20 4 dirIndexHash
  setLE (setLE index 24 8 0) 32 4 dirLeafEntries

/-- What the block layer and the allocator answer during an insert: the index block, a block for
the leaf, the leaf, a block for another leaf, and the index block once more. -/
structure InsertEnv where
  readIndex : Bool
  block : Nat
  getLeaf : Bool
  next : Nat
  reread : Bool

/-- The index block once it names a leaf. -/
def indexRooted (index : Memory) (block : Nat) : Memory :=
  if getLE index 0 8 = 0 then setLE (setLE index 0 8 block) 8 4 0 else index

/-- The leaf, as an insert starts to use it. -/
def leafOpen (leaf : Memory) : Memory :=
  if getLE leaf 0 4 = 0 then setLE (setLE (setLE leaf 0 4 dirIndexHash) 4 4 0) 16 8 0 else leaf

/-- The leaf once there is room: where it is full it is told of another one and EMPTIED. -/
def leafRoom (leaf : Memory) (next : Nat) : Except Errno Memory :=
  if getLE leaf 4 4 ≥ dirLeafEntries then
    if next = 0 then .error .ENOSPC
    else .ok (setLE (setLE (setLE leaf 16 8 next) 0 4 dirIndexHash) 4 4 0)
  else .ok leaf

/-- The entry and the header as an insert writes them; blocks are 4096 bytes. -/
def leafAppend (leaf : Memory) (name : List UInt8) (ino type : Nat) : Memory :=
  let entrySize := 24 + name.length
  let entry := 24 + getLE leaf 4 4 * entrySize
  let leaf := setLE leaf entry 4 (hashName name).toNat
  let leaf := setLE leaf (entry + 8) 8 ino
  let leaf := setLE leaf (entry + 16) 2 name.length
  let leaf := setLE leaf (entry + 18) 2 type
  let leaf := setLE leaf (entry + 20) 4 (hashed leaf entry (entrySize - 4))
  let leaf := setBytes leaf (entry + 24) name
  let leaf := setLE leaf 4 4 (getLE leaf 4 4 + 1)
  setLE leaf 12 4 (hashed leaf 0 4092)

/-- `aetherfs_dir_htree_insert`. -/
def dirHtreeInsert (env : InsertEnv) (dir : DirIndex) (name : List UInt8) (ino type : Nat) :
    Except Errno Unit × DirIndex :=
  if ino = 0 then (.error .EINVAL, dir)
  else if name.length > 255 then (.error .ENAMETOOLONG, dir)
  else if env.readIndex = false then (.error .EIOERR, dir)
  else if getLE dir.index 0 8 = 0 ∧ env.block = 0 then (.error .ENOSPC, dir)
  else
    let index := indexRooted dir.index env.block
    if env.getLeaf = false then (.error .EIOERR, ⟨index, dir.leaf⟩)
    else match leafRoom (leafOpen dir.leaf) env.next with
      | .error e => (.error e, ⟨index, leafOpen dir.leaf⟩)
      | .ok leaf =>
        (.ok (), ⟨if env.reread then setLE index 12 4 (getLE index 12 4 + 1) else index,
          leafAppend leaf name ino type⟩)

/-- The inode number of an entry, if it is the one that is looked for. -/
def entryIno (leaf : Memory) (entry : Nat) (name : List UInt8) : Option Nat :=
  if getLE leaf entry 4 = (hashName name).toNat ∧ getLE leaf (entry + 16) 2 = name.length ∧
      bytesFrom leaf (entry + 24) name.length = name then some (getLE leaf (entry + 8) 8)
  else none

/-- `aetherfs_dir_htree_lookup`, which takes entries to be 32 bytes long. -/
def dirHtreeLookup (readIndex getLeaf : Bool) (dir : DirIndex) (name : List UInt8) :
    Except Errno Nat :=
  if readIndex = false then .error .EIOERR
  else if getLE dir.index 0 8 = 0 then .error .ENOENT
  else if getLeaf = false then .error .EIOERR
  else match (List.range (getLE dir.leaf 4 4)).findSome?
      fun i => entryIno dir.leaf (24 + i * 32) name with
    | some ino => .ok ino
    | none => .error .ENOENT

/-- `aetherfs_dir_htree_delete`: the lookup's two reads, and the index block once more. -/
def dirHtreeDelete (readIndex getLeaf reread : Bool) (dir : DirIndex) (name : List UInt8) :
    Except Errno Unit × DirIndex :=
  match dirHtreeLookup readIndex getLeaf dir name with
  | .error e => (.error e, dir)
  | .ok _ =>
    if reread = false then (.error .EIOERR, dir)
    else (.ok (), ⟨setLE dir.index 12 4 (getLE dir.index 12 4 + (2 ^ 32 - 1)), dir.leaf⟩)

/-! ## 2. Runs against a map -/

/-- The index, the names that are in it, and all that ever were. -/
structure DirMachine where
  dir : DirIndex
  live : List (List UInt8 × Nat)
  used : List (List UInt8)

inductive DirCall
  | insert (env : InsertEnv) (name : List UInt8) (ino type : Nat)
  | delete (readIndex getLeaf reread : Bool) (name : List UInt8)

/-- A name is in the index from an insert of it that returns 0 to a delete that does. -/
def dirStep (m : DirMachine) : DirCall → DirMachine
  | .insert env name ino type =>
    match dirHtreeInsert env m.dir name ino type with
    | (.ok _, dir) => ⟨dir, (name, ino) :: m.live, name :: m.used⟩
    | (.error _, dir) => { m with dir := dir }
  | .delete readIndex getLeaf reread name =>
    match dirHtreeDelete readIndex getLeaf reread m.dir name with
    | (.ok _, dir) => { m with dir := dir, live := m.live.filter fun e => e.1 ≠ name }
    | (.error _, dir) => { m with dir := dir }

/-- Names are of 1 to 255 bytes and inserted once; the numbers are 64 bits wide. -/
def DirValid (m : DirMachine) : DirCall → Prop
  | .insert env name ino _ => 1 ≤ name.length ∧ name.length ≤ 255 ∧ name ∉ m.used ∧
      ino < 2 ^ 64 ∧ env.block < 2 ^ 64
  | .delete _ _ _ _ => True

/-- Every lookup says what the map says, and `h_entries` is its size. -/
structure DirRefines (m : DirMachine) : Prop where
  lookup : ∀ name, dirHtreeLookup true true m.dir name = match m.live.lookup name with
    | some ino => .ok ino
    | none => .error .ENOENT
  entries : getLE m.dir.index 12 4 = m.live.length

/-- It is the first insert that succeeds, and the index block could be read again; and no delete
succeeds. -/
def DirFits (m : DirMachine) : DirCall → Prop
  | .insert env name ino type => (dirHtreeInsert env m.dir name ino type).1 = .ok () →
      m.live = [] ∧ env.reread = true
  | .delete readIndex getLeaf reread name =>
      (dirHtreeDelete readIndex getLeaf reread m.dir name).1 ≠ .ok ()

/-! ## 3. The leaf -/

/-- The leaf has one entry, of this name and inode number. -/
structure LeafHolds (leaf : Memory) (name : List UInt8) (ino : Nat) : Prop where
  type : getLE leaf 0 4 = 0
  count : getLE leaf 4 4 = 1
  hash : getLE leaf 24 4 = (hashName name).toNat
  ino : getLE leaf 32 8 = ino
  namelen : getLE leaf 40 2 = name.length
  name : bytesFrom leaf 48 name.length = name

section Leaf

variable {leaf : Memory} {name : List UInt8} {ino : Nat}

theorem leafOpen_type (h : getLE leaf 0 4 = 0) : getLE (leafOpen leaf) 0 4 = 0 := by
  rw [leafOpen, if_pos h, getLE_setLE_of_disjoint _ _ (by omega),
    getLE_setLE_of_disjoint _ _ (by omega), getLE_setLE_self]
  rfl

theorem leafOpen_count (h : getLE leaf 0 4 = 0) : getLE (leafOpen leaf) 4 4 = 0 := by
  rw [leafOpen, if_pos h, getLE_setLE_of_disjoint _ _ (by omega), getLE_setLE_self]
  rfl

/-- What was written last before the sums stays: they lie in the header and in front of the
name. -/
theorem leafAppend_holds {type : Nat} (htype : getLE leaf 0 4 = 0) (hcount : getLE leaf 4 4 = 0)
    (hname : name.length ≤ 255) (hino : ino < 2 ^ 64) :
    LeafHolds (leafAppend leaf name ino type) name ino := by
  have hhash : (hashName name).toNat < 256 ^ 4 := (hashName name).isLt
  unfold leafAppend
  simp only [hcount, Nat.zero_mul, Nat.add_zero]
  refine ⟨?_, ?_, ?_, ?_, ?_, ?_⟩
  · simp (disch := omega) only [getLE_setLE_of_disjoint, getLE_setBytes_of_disjoint]
    exact htype
  · simp (disch := omega) only [getLE_setLE_of_disjoint, getLE_setBytes_of_disjoint,
      getLE_setLE_self, hcount]
    rfl
  · simp (disch := omega) only [getLE_setLE_of_disjoint, getLE_setBytes_of_disjoint,
      getLE_setLE_self]
    exact Nat.mod_eq_of_lt hhash
  · simp (disch := omega) only [getLE_setLE_of_disjoint, getLE_setBytes_of_disjoint,
      getLE_setLE_self]
    exact Nat.mod_eq_of_lt (by omega)
  · simp (disch := omega) only [getLE_setLE_of_disjoint, getLE_setBytes_of_disjoint,
      getLE_setLE_self]
    exact Nat.mod_eq_of_lt (by omega)
  · simp (disch := omega) only [bytesFrom_setLE_of_disjoint, bytesFrom_setBytes_self]

/-- **Every insert starts the leaf anew.** -/
theorem leafInsert_holds (type next : Nat) (htype : getLE leaf 0 4 = 0)
    (hname : name.length ≤ 255) (hino : ino < 2 ^ 64) : ∃ leaf', leafRoom (leafOpen leaf) next = .ok leaf' ∧
      LeafHolds (leafAppend leaf' name ino type) name ino := by
  refine ⟨leafOpen leaf, ?_, leafAppend_holds (leafOpen_type htype) (leafOpen_count htype) hname
    hino⟩
  rw [leafRoom, leafOpen_count htype]
  rfl

theorem LeafHolds.lookup (h : LeafHolds leaf name ino) {index : Memory}
    (hroot : getLE index 0 8 ≠ 0) (name' : List UInt8) :
    dirHtreeLookup true true ⟨index, leaf⟩ name' =
      if name' = name then .ok ino else .error .ENOENT := by
  have hentry : entryIno leaf 24 name' = if name' = name then some ino else none := by
    rw [entryIno, h.hash, h.namelen, h.ino]
    by_cases hn : name' = name
    · rw [hn, if_pos rfl, if_pos ⟨rfl, rfl, h.name⟩]
    · rw [if_neg hn, if_neg]
      rintro ⟨-, hlen, hbytes⟩
      rw [← hlen, h.name] at hbytes
      exact hn hbytes.symm
  rw [dirHtreeLookup, if_neg (by simp), if_neg hroot, if_neg (by simp), h.count]
  simp only [List.range_one, List.findSome?_cons, List.findSome?_nil, Nat.zero_mul, Nat.add_zero,
    hentry]
  by_cases hn : name' = name
  · simp only [if_pos hn]
  · simp only [if_neg hn]

end Leaf

/-! ## 4. The steps -/

section Index

variable {index : Memory} {block : Nat}

theorem indexRooted_entries (index : Memory) (block : Nat) :
    getLE (indexRooted index block) 12 4 = getLE index 12 4 := by
  rw [indexRooted]
  split
  · rw [getLE_setLE_of_disjoint _ _ (by omega), getLE_setLE_of_disjoint _ _ (by omega)]
  · rfl

theorem indexRooted_root (hblock : block < 2 ^ 64) (h : ¬ (getLE index 0 8 = 0 ∧ block = 0)) :
    getLE (indexRooted index block) 0 8 ≠ 0 := by
  rw [indexRooted]
  split
  · rename_i hzero
    rw [getLE_setLE_of_disjoint _ _ (by omega), getLE_setLE_self, Nat.mod_eq_of_lt (by omega)]
    exact fun hb => h ⟨hzero, hb⟩
  · assumption

end Index

/-- What an insert that fails may have done. -/
structure Untouched (dir dir' : DirIndex) : Prop where
  leaf : dir'.leaf = dir.leaf
  entries : getLE dir'.index 12 4 = getLE dir.index 12 4
  root : getLE dir.index 0 8 ≠ 0 → getLE dir'.index 0 8 ≠ 0

/-- What an insert that succeeds has done. -/
structure Inserted (env : InsertEnv) (name : List UInt8) (ino : Nat) (dir dir' : DirIndex) :
    Prop where
  leaf : LeafHolds dir'.leaf name ino
  root : getLE dir'.index 0 8 ≠ 0
  entries : getLE dir'.index 12 4 =
    if env.reread then (getLE dir.index 12 4 + 1) % 2 ^ 32 else getLE dir.index 12 4

/-- **The two ends of an insert** into a leaf of type 0. -/
theorem dirHtreeInsert_cases {env : InsertEnv} {dir : DirIndex} {name : List UInt8} {ino : Nat}
    (type : Nat) (htype : getLE dir.leaf 0 4 = 0) (hname : name.length ≤ 255) (hino : ino < 2 ^ 64)
    (hblock : env.block < 2 ^ 64) :
    (∃ e dir', dirHtreeInsert env dir name ino type = (.error e, dir') ∧ Untouched dir dir') ∨
      ∃ dir', dirHtreeInsert env dir name ino type = (.ok (), dir') ∧
        Inserted env name ino dir dir' := by
  rw [dirHtreeInsert]
  split
  · exact Or.inl ⟨_, _, rfl, rfl, rfl, id⟩
  · rw [if_neg (Nat.not_lt.mpr hname)]
    split
    · exact Or.inl ⟨_, _, rfl, rfl, rfl, id⟩
    · split
      · exact Or.inl ⟨_, _, rfl, rfl, rfl, id⟩
      · rename_i hroom
        have hroot := indexRooted_root hblock hroom
        have hentries := indexRooted_entries dir.index env.block
        split
        · exact Or.inl ⟨_, _, rfl, rfl, hentries, fun _ => hroot⟩
        · obtain ⟨leaf', hleaf, hholds⟩ := leafInsert_holds type env.next htype hname hino
          rw [hleaf]
          refine Or.inr ⟨_, rfl, hholds, ?_, ?_⟩
          · simp only
            split
            · rw [getLE_setLE_of_disjoint _ _ (by omega)]
              exact hroot
            · exact hroot
          · simp only
            split
            · rw [getLE_setLE_self, hentries, show (256 : Nat) ^ 4 = 2 ^ 32 by norm_num]
            · exact hentries

/-- A directory that has gone well has no name in it, or one. -/
inductive DirInv (m : DirMachine) : Prop
  | empty (live : m.live = []) (entries : getLE m.dir.index 12 4 = 0)
      (type : getLE m.dir.leaf 0 4 = 0) (count : getLE m.dir.leaf 4 4 = 0)
  | one (name : List UInt8) (ino : Nat) (live : m.live = [(name, ino)]) (used : name ∈ m.used)
      (entries : getLE m.dir.index 12 4 = 1) (root : getLE m.dir.index 0 8 ≠ 0)
      (leaf : LeafHolds m.dir.leaf name ino)

section Steps

variable {m : DirMachine}

theorem DirInv.type (h : DirInv m) : getLE m.dir.leaf 0 4 = 0 := by
  cases h with
  | empty _ _ type _ => exact type
  | one _ _ _ _ _ _ leaf => exact leaf.type

theorem lookup_empty {dir : DirIndex} (hcount : getLE dir.leaf 4 4 = 0) (name : List UInt8) :
    dirHtreeLookup true true dir name = .error .ENOENT := by
  rw [dirHtreeLookup, if_neg (by simp)]
  split
  · rfl
  · rw [if_neg (by simp), hcount]
    rfl

theorem DirInv.refines (h : DirInv m) : DirRefines m := by
  cases h with
  | empty live entries _ count =>
    refine ⟨fun name => ?_, ?_⟩
    · rw [lookup_empty count, live]
      rfl
    · rw [entries, live]
      rfl
  | one name ino live _ entries root leaf =>
    refine ⟨fun name' => ?_, ?_⟩
    · rw [leaf.lookup root, live, List.lookup_cons]
      by_cases hn : name' = name
      · rw [if_pos hn, hn, beq_self_eq_true]
      · rw [if_neg hn, beq_eq_false_iff_ne.mpr hn]
        rfl
    · rw [entries, live]
      rfl

theorem DirInv.untouched (h : DirInv m) {dir' : DirIndex} (hd : Untouched m.dir dir') :
    DirInv { m with dir := dir' } := by
  cases h with
  | empty live entries type count =>
    refine .empty live (hd.entries.trans entries) ?_ ?_
    · rw [hd.leaf]
      exact type
    · rw [hd.leaf]
      exact count
  | one name ino live used entries root leaf =>
    refine .one name ino live used (hd.entries.trans entries) (hd.root root) ?_
    rw [hd.leaf]
    exact leaf

/-- **The step: the first insert.** -/
theorem dirInv_insert (h : DirInv m) {env : InsertEnv} {name : List UInt8} {ino type : Nat}
    (hvalid : DirValid m (.insert env name ino type)) (hfits : DirFits m (.insert env name ino type)) :
    DirInv (dirStep m (.insert env name ino type)) := by
  obtain ⟨-, hname, -, hino, hblock⟩ := hvalid
  rw [dirStep]
  rcases dirHtreeInsert_cases type h.type hname hino hblock with
    ⟨e, dir', hr, hd⟩ | ⟨dir', hr, hd⟩
  · rw [hr]
    exact h.untouched hd
  · obtain ⟨hlive, hreread⟩ := hfits (by rw [hr])
    rw [hr]
    have hentries := hd.entries
    rw [if_pos hreread, h.refines.entries, hlive] at hentries
    refine .one name ino ?_ List.mem_cons_self hentries hd.root hd.leaf
    simp only [hlive]

theorem dirHtreeDelete_error {readIndex getLeaf reread : Bool} {dir : DirIndex} {name : List UInt8}
    (h : (dirHtreeDelete readIndex getLeaf reread dir name).1 ≠ .ok ()) :
    ∃ e, dirHtreeDelete readIndex getLeaf reread dir name = (.error e, dir) := by
  rw [dirHtreeDelete] at h ⊢
  split
  · exact ⟨_, rfl⟩
  · rename_i ino hl
    rw [hl] at h
    simp only at h
    split
    · exact ⟨_, rfl⟩
    · rename_i hreread
      rw [if_neg hreread] at h
      exact absurd rfl h

/-- A delete that succeeds has found the name, and leaves the leaf as it is. -/
theorem dirHtreeDelete_ok {readIndex getLeaf reread : Bool} {dir : DirIndex} {name : List UInt8}
    (h : (dirHtreeDelete readIndex getLeaf reread dir name).1 = .ok ()) :
    ∃ index ino, dirHtreeDelete readIndex getLeaf reread dir name = (.ok (), ⟨index, dir.leaf⟩) ∧
      getLE index 0 8 = getLE dir.index 0 8 ∧ dirHtreeLookup true true dir name = .ok ino := by
  rw [dirHtreeDelete] at h ⊢
  split
  · rename_i e hl
    rw [hl] at h
    exact absurd h (by simp)
  · rename_i ino hl
    rw [hl] at h
    simp only at h
    split
    · rename_i hreread
      rw [if_pos hreread] at h
      exact absurd h (by simp)
    · refine ⟨_, ino, rfl, getLE_setLE_of_disjoint _ _ (by omega), ?_⟩
      -- the reads have succeeded
      rw [dirHtreeLookup] at hl ⊢
      cases readIndex with
      | false => exact absurd hl (by simp)
      | true =>
        cases getLeaf with
        | false =>
          rw [if_neg (by simp)] at hl
          split at hl
          · exact absurd hl (by simp)
          · exact absurd hl (by simp)
        | true => exact hl

/-- **The step back: an insert** after which the index is right was the first. -/
theorem dirFits_insert (h : DirInv m) {env : InsertEnv} {name : List UInt8} {ino type : Nat}
    (hvalid : DirValid m (.insert env name ino type))
    (hs : DirRefines (dirStep m (.insert env name ino type))) :
    DirFits m (.insert env name ino type) := by
  obtain ⟨-, hname, hnew, hino, hblock⟩ := hvalid
  intro hok
  rcases dirHtreeInsert_cases type h.type hname hino hblock with
    ⟨e, dir', hr, hd⟩ | ⟨dir', hr, hd⟩
  · rw [hr] at hok
    exact absurd hok (by simp)
  · rw [dirStep, hr] at hs
    have hlive : m.live = [] := by
      cases h with
      | empty live _ _ _ => exact live
      | one name₀ ino₀ live used _ _ _ =>
        -- the name that was there is gone
        have hne : name₀ ≠ name := fun hn => hnew (hn ▸ used)
        have hgone := hs.lookup name₀
        rw [hd.leaf.lookup hd.root, if_neg hne, live, List.lookup_cons,
          beq_eq_false_iff_ne.mpr hne, List.lookup_cons_self] at hgone
        exact absurd hgone (by simp)
    refine ⟨hlive, ?_⟩
    have hentries := hs.entries
    rw [hd.entries, h.refines.entries, hlive] at hentries
    cases hreread : env.reread with
    | true => rfl
    | false =>
      rw [hreread] at hentries
      exact absurd hentries (by simp)

/-- **The step back: a delete** after which the index is right has failed. -/
theorem dirFits_delete (h : DirInv m) {readIndex getLeaf reread : Bool} {name : List UInt8}
    (hs : DirRefines (dirStep m (.delete readIndex getLeaf reread name))) :
    DirFits m (.delete readIndex getLeaf reread name) := by
  intro hok
  obtain ⟨index, ino, hr, hroot, hfound⟩ := dirHtreeDelete_ok hok
  rw [dirStep, hr] at hs
  cases h with
  | empty _ _ _ count =>
    rw [lookup_empty count] at hfound
    exact absurd hfound (by simp)
  | one name₀ ino₀ live _ _ root leaf =>
    have hroot' : getLE index 0 8 ≠ 0 := by rwa [hroot]
    have hstill := leaf.lookup hroot' name
    rw [leaf.lookup root] at hfound
    split at hfound
    · rename_i hn
      -- the deleted name is found still
      have hgone := hs.lookup name
      rw [hstill, if_pos hn, live, hn] at hgone
      simp only [List.filter_cons, ne_eq, not_true, decide_false, Bool.false_eq_true, if_false,
        List.filter_nil, List.lookup_nil] at hgone
      exact absurd hgone (by simp)
    · exact absurd hfound (by simp)

end Steps

/-- A directory after `aetherfs_dir_index_init`, whose leaf will be a zeroed block. -/
def dirStart (index : Memory) : DirMachine := ⟨⟨dirIndexInit index, fun _ => 0⟩, [], []⟩

theorem getLE_zero_memory (off w : Nat) : getLE (fun _ => 0) off w = 0 := by
  have h := getLE_of_digits (fun _ => 0) 0 w off fun i _ => by simp
  rw [h, Nat.zero_mod]

theorem dirInv_start (index : Memory) : DirInv (dirStart index) := by
  refine .empty rfl ?_ (getLE_zero_memory 0 4) (getLE_zero_memory 4 4)
  simp (disch := omega) only [dirStart, dirIndexInit, getLE_setLE_of_disjoint, getLE_setLE_self]
  rfl

/-- **The directory index, exactly.**  From an index just initialised, a run of inserts of distinct
names and of deletes keeps every lookup and `h_entries` right as long as, and only as long as, at
most one insert succeeds, that one can read the index block again, and no delete succeeds. -/
theorem dir_index_refines_iff (index : Memory) (calls : List DirCall)
    (hvalid : Along dirStep DirValid (dirStart index) calls) :
    (∀ m ∈ states dirStep (dirStart index) calls, DirRefines m) ↔
      Along dirStep DirFits (dirStart index) calls := by
  refine states_good_iff (fun m hm => hm.refines) (fun m c hm hv hok => ?_) (fun m c hm hv hs => ?_)
    calls _ (dirInv_start index) hvalid
  · cases c with
    | insert env name ino type => exact dirInv_insert hm hv hok
    | delete readIndex getLeaf reread name =>
      obtain ⟨e, hr⟩ := dirHtreeDelete_error hok
      rw [dirStep, hr]
      exact hm
  · cases c with
    | insert env name ino type => exact dirFits_insert hm hv hs
    | delete readIndex getLeaf reread name => exact dirFits_delete hm hs

/-- Everything can be read, and the allocator has block 9. -/
def calmInsert : InsertEnv := ⟨true, 9, true, 10, true⟩

theorem dir_index_refines_first :
    Along dirStep DirValid (dirStart fun _ => 0) [.insert calmInsert [97] 17 1] ∧
      ∀ m ∈ states dirStep (dirStart fun _ => 0) [.insert calmInsert [97] 17 1], DirRefines m := by
  have hvalid : Along dirStep DirValid (dirStart fun _ => 0) [.insert calmInsert [97] 17 1] :=
    ⟨⟨by decide, by decide, List.not_mem_nil, by norm_num, by norm_num [calmInsert]⟩, trivial⟩
  exact ⟨hvalid, (dir_index_refines_iff _ _ hvalid).mpr ⟨fun _ => ⟨rfl, rfl⟩, trivial⟩⟩

/-- Names `a` and `b`, one after the other. -/
def twoNames : List DirCall := [.insert calmInsert [97] 17 1, .insert calmInsert [98] 18 1]

theorem second_name_overwrites :
    Along dirStep DirValid (dirStart fun _ => 0) twoNames ∧
      (twoNames.foldl dirStep (dirStart fun _ => 0)).live = [([98], 18), ([97], 17)] ∧
      dirHtreeLookup true true (twoNames.foldl dirStep (dirStart fun _ => 0)).dir [97]
        = .error .ENOENT := by
  have hlive : (twoNames.foldl dirStep (dirStart fun _ => 0)).live = [([98], 18), ([97], 17)] := by
    decide +kernel
  have hused : [98] ∉ (dirStep (dirStart fun _ => 0) (.insert calmInsert [97] 17 1)).used := by
    decide +kernel
  refine ⟨⟨⟨by decide, by decide, List.not_mem_nil, by norm_num, by norm_num [calmInsert]⟩,
    ⟨by decide, by decide, hused, by norm_num, by norm_num [calmInsert]⟩, trivial⟩, hlive, ?_⟩
  decide +kernel

end AetherFs
