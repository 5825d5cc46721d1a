/-
# What `mkfs` writes

The `aetherfs_init_*` functions of `mkfs.c`, as the structures they fill in.  A field that is
stored can be read back, and a sealed structure carries its checksum; each encoder therefore
gets one lemma that lists its fields, and no later proof looks inside an encoder.

The directory is the one structure with a layout of its own: records of varying length, each
with a one-byte checksum over its header and name.  `HasEntry` says what a record holds, and
`dirWalk_entry` is one turn of the directory walk over such a record.
-/
import AetherFs.Image.Boot

namespace AetherFs

open Lib

/-! ## 1. Options and surroundings -/

/-- `struct aetherfs_mkfs_options`, the fields `aetherfs_run_mkfs` reads. -/
structure MkfsOptions where
  blocks : Nat
  blockSize : Nat
  mode : Nat
  force : Bool

/-- What a run takes from its surroundings: whether the path existed, sixteen random bytes, the
clock, and who is running. -/
structure MkfsEnv where
  existed : Bool
  urandom : Except Fail (Bytes 16)
  now : Nat
  uid : Nat
  gid : Nat

/-- `aetherfs_mode_features`. -/
def modeFeatures (mode : Nat) : Nat :=
  if mode = appendMode then fAppend
  else if mode = overwriteMode then 0
  else fCow

/-- `aetherfs_min_u32`. -/
def minU32 (left right : Nat) : Nat := if left < right then left else right

/-- The version and variant bits `aetherfs_fill_uuid` forces. -/
def fillUuid (uuid : Bytes 16) : Bytes 16 := fun i =>
  if i.val = 6 then (uuid i &&& 0x0F) ||| 0x40
  else if i.val = 8 then (uuid i &&& 0x3F) ||| 0x80
  else uuid i

/-- `(uint32_t)((blocks + AETHERFS_BLOCKS_PER_AG - 1) / AETHERFS_BLOCKS_PER_AG)`. -/
def agCount (blocks : Nat) : Nat := addU64 blocks (blocksPerAg - 1) / blocksPerAg % 2 ^ 32

/-! ## 2. Encoders -/

/-- `aetherfs_init_super`. -/
def initSuper (options : MkfsOptions) (blocks : Nat) : Super :=
  let s : Super := put32 (zeros 256) 0 aetherfsMagic
  let s := put32 s 4 aetherfsVersion
  let s := put32 s 8 options.blockSize
  let s := put64 s 12 blocks
  let s := put64 s 20 (subU64 blocks dataStartBlock)
  let s := put32 s 28 (minU32 (blocks % 2 ^ 32) blocksPerAg)
  let s := put32 s 32 (agCount blocks)
  let s := put32 s 36 1
  let s := put16 s 40 options.mode
  let s := put16 s 42 (modeFeatures options.mode)
  let s := put32 s 64 1
  let s := put32 s 68 1
  let s := put64 s 72 checkpointRootBlock
  let s := put64 s 136 journalBlock
  let s := put64 s 144 rootInodeBlock
  let s := put32 s 152 1
  let s := put32 s 156 maxInodes
  let s := put64 s 160 inodeBitmapBlock
  let s := put64 s 168 0
  let s := put64 s 176 freeExtentBlock
  let s := put64 s 184 0
  sealAt s 44

/-- The superblock as it is written: with its uuid, and sealed again. -/
def bootstrapSuper (options : MkfsOptions) (blocks : Nat) (uuid : Bytes 16) : Super :=
  sealAt (overlay (initSuper options blocks) 48 (fillUuid uuid)) 44

/-- `aetherfs_init_root_inode`. -/
def initRootInode (env : MkfsEnv) : Inode :=
  let i : Inode := put16 (zeros 512) 0 0o040755
  let i := put16 i 2 2
  let i := put32 i 4 env.uid
  let i := put32 i 8 env.gid
  let i := put64 i 12 defBlockSize
  let i := put64 i 20 1
  let i := put64 i 28 env.now
  let i := put64 i 36 env.now
  let i := put64 i 44 env.now
  let i := put64 i 52 rootDirBlock
  let i := put32 i 60 2
  let i := put32 i 64 fCow
  let i := put64 i 84 rootIno
  sealAt i 100

/-- `aetherfs_init_journal`. -/
def initJournal : IntentLog :=
  let j : IntentLog := put64 (zeros 48) 0 journalBlock
  let j := put64 j 8 journalBlock
  let j := put64 j 16 journalBlock
  let j := put64 j 24 journalBlock
  sealJournal j

/-- `aetherfs_bitmap_set`. -/
def bitmapSet (b : BitmapBlock) (bit : Nat) : BitmapBlock :=
  putLE b (16 + bit / 8) 1 ((bbBits b (bit / 8)).toNat ||| 2 ^ (bit % 8))

/-- `aetherfs_init_inode_bitmap`. -/
def initInodeBitmap : BitmapBlock :=
  let b : BitmapBlock := put32 (zeros 4096) 4 maxInodes
  let b := bitmapSet b 0
  let b := put32 b 8 1
  sealAt b 0

/-- A free list of one extent. -/
def freeNode (start len : Nat) : ExtentNode :=
  let n : ExtentNode := put32 (zeros 4096) 8 1
  let n := put64 n 24 start
  let n := put64 n 40 len
  sealAt n 12

/-- `aetherfs_init_free_extents`. -/
def initFreeExtents (blocks : Nat) : ExtentNode :=
  freeNode dataStartBlock (subU64 blocks dataStartBlock)

/-- `aetherfs_init_checkpoint_root`. -/
def initCheckpointRoot (super : Super) (blocks : Nat) : CheckpointRoot :=
  let r : CheckpointRoot := put32 (zeros 4096) 0 checkpointRootMagic
  let r := put32 r 4 checkpointRootVersion
  let r := put32 r 12 (sGeneration super)
  let r := put32 r 16 (sAgCount super)
  let r := put32 r 20 2
  let r := put64 r 24 superblockBlock
  let r := put64 r 32 (sRootInode super)
  let r := put64 r 40 rootDirBlock
  let r := put64 r 48 (sJournalAddr super)
  let r := put64 r 56 (sMetaTree super)
  let r := put64 r 64 (sFreeTree super)
  let r := put64 r 72 (sMetaTree super)
  let r := put64 r 80 (sExtentTree super)
  let r := put64 r 88 (sSnapTree super)
  let r := put64 r 96 (sScrubJournal super)
  let r := put64 r 104 (sHealthJournal super)
  let r := put64 r 112 superblockBlock
  let r := put64 r 120 checkpointRootBlock
  let r := put64 r 128 dataStartBlock
  let r := put64 r 136 blocks
  sealAt r 8

/-- The header and the name of a directory record. -/
def putDirEntry (block : Block) (off ino recLen fileType : Nat) (name : List UInt8) : Block :=
  let b := put64 block off ino
  let b := put16 b (off + 8) recLen
  let b := put16 b (off + 10) name.length
  let b := putLE b (off + 12) 1 fileType
  let b := putLE b (off + 13) 1 0
  overlay b (off + 14) (fun i : Fin name.length => name.get i)

/-- One directory record: header and name, then the checksum byte over them. -/
def initDirEntry (block : Block) (off ino recLen fileType : Nat) (name : List UInt8) : Block :=
  let b := putDirEntry block off ino recLen fileType name
  putLE b (off + 13) 1 (direntChecksum (byteAt b) off)

/-- `aetherfs_init_root_dir`. -/
def initRootDir : Block :=
  let dotLen := dirRecLen 1
  let b := initDirEntry (zeros 4096) 0 rootIno dotLen ftDir [46]
  initDirEntry b dotLen rootIno (defBlockSize - dotLen) ftDir [46, 46]

/-! ## 3. Their fields -/

theorem bootstrapSuper_fields (options : MkfsOptions) {blocks : Nat} (uuid : Bytes 16)
    (hsize : options.blockSize = 4096) (hb : blocks < 2 ^ 64) :
    let s := bootstrapSuper options blocks uuid
    sMagic s = aetherfsMagic ∧ sVersion s = aetherfsVersion ∧ sBlocksize s = defBlockSize ∧
      sBlocksCount s = blocks ∧ sFreeBlocks s = subU64 blocks dataStartBlock ∧
      sAgCount s = agCount blocks ∧ sDeviceCount s = 1 ∧ sCheckpoint0 s = checkpointRootBlock ∧
      sJournalAddr s = journalBlock ∧ sRootInode s = rootInodeBlock ∧ sGeneration s = 1 ∧
      sInodesCount s = maxInodes ∧ sMetaTree s = inodeBitmapBlock ∧ sExtentTree s = 0 ∧
      sFreeTree s = freeExtentBlock ∧ sSnapTree s = 0 ∧ sScrubJournal s = 0 ∧ sHealthJournal s = 0 := by
  simp only [sMagic, sVersion, sBlocksize, sBlocksCount, sFreeBlocks, sAgCount, sDeviceCount,
    sCheckpoint0, sJournalAddr, sRootInode, sGeneration, sInodesCount, sMetaTree, sExtentTree,
    sFreeTree, sSnapTree, sScrubJournal, sHealthJournal, bootstrapSuper, initSuper, le32, le64,
    put16, put32, put64]
  simp (disch := decide) only [getLE_sealAt, getLE_overlay_of_disjoint, getLE_putLE_of_disjoint,
    getLE_putLE_self, getLE_zeros, hsize]
  simp [agCount, aetherfsMagic, aetherfsVersion, checkpointRootBlock, journalBlock, rootInodeBlock,
    maxInodes, inodeBitmapBlock, freeExtentBlock, dataStartBlock, subU64]
  omega

theorem initRootInode_fields (env : MkfsEnv) :
    iMode (initRootInode env) = 0o040755 ∧ iExtentRoot (initRootInode env) = rootDirBlock := by
  simp only [iMode, iExtentRoot, initRootInode, le16, le64, put16, put32, put64]
  simp (disch := decide) only [getLE_sealAt, getLE_putLE_of_disjoint, getLE_putLE_self]
  decide

theorem initJournal_outstanding : ilOutstanding initJournal = 0 := by
  simp only [ilOutstanding, initJournal, sealJournal, le32, put32, put64]
  simp (disch := decide) only [getLE_putLE_of_disjoint, getLE_zeros]

theorem freeNode_fields {start len : Nat} (hs : start < 2 ^ 64) (hl : len < 2 ^ 64) :
    enNext (freeNode start len) = 0 ∧ enCount (freeNode start len) = 1 ∧
      ePstart (enExtent (freeNode start len) 0) = start ∧
      eLen (enExtent (freeNode start len) 0) = len := by
  simp only [enNext, enCount, ePstart, eLen, enExtent, le32, le64]
  simp (disch := decide) only [getLE_slice]
  simp only [freeNode, put32, put64, Nat.mul_zero, Nat.add_zero, Nat.reduceAdd]
  simp (disch := decide) only [getLE_sealAt, getLE_putLE_of_disjoint, getLE_putLE_self, getLE_zeros]
  exact ⟨trivial, by norm_num, Nat.mod_eq_of_lt hs, Nat.mod_eq_of_lt hl⟩

theorem initFreeExtents_fields (blocks : Nat) (h8 : 8 ≤ blocks) (hb : blocks < 2 ^ 64) :
    enNext (initFreeExtents blocks) = 0 ∧ enCount (initFreeExtents blocks) = 1 ∧
      ePstart (enExtent (initFreeExtents blocks) 0) = 8 ∧
      eLen (enExtent (initFreeExtents blocks) 0) = blocks - 8 := by
  have hsub : subU64 blocks dataStartBlock = blocks - 8 := by
    simp only [subU64, dataStartBlock]
    omega
  rw [initFreeExtents, hsub]
  exact freeNode_fields (by norm_num) (by omega)

theorem initCheckpointRoot_fields (super : Super) {blocks : Nat} (hb : blocks < 2 ^ 64) :
    let r := initCheckpointRoot super blocks
    crMagic r = checkpointRootMagic ∧ crVersion r = checkpointRootVersion ∧
      crGeneration r = sGeneration super ∧ crAgCount r = sAgCount super ∧ crRegionCount r = 2 ∧
      crSuperBlock r = superblockBlock ∧ crRootInodeBlock r = sRootInode super ∧
      crRootDirBlock r = rootDirBlock ∧
      crJournalBlock r = sJournalAddr super ∧ crInodeBitmapBlock r = sMetaTree super ∧
      crFreeSpaceRoot r = sFreeTree super ∧ crMetadataTreeRoot r = sMetaTree super ∧
      crExtentTreeRoot r = sExtentTree super ∧ crSnapshotRoot r = sSnapTree super ∧
      crScrubJournal r = sScrubJournal super ∧ crHealthJournal r = sHealthJournal super ∧
      crMetadataRegionStart r = superblockBlock ∧ crMetadataRegionEnd r = checkpointRootBlock ∧
      crDataRegionStart r = dataStartBlock ∧ crDataRegionEnd r = blocks ∧ crSpecialMetadataRoot r = 0 ∧ crCacheRoot r = 0 ∧
      crParityRoot r = 0 := by
  have h32 : ∀ off, le32 super off % 256 ^ 4 = le32 super off := fun off =>
    Nat.mod_eq_of_lt (le32_lt super off)
  have h64 : ∀ off, le64 super off % 256 ^ 8 = le64 super off := fun off =>
    Nat.mod_eq_of_lt (le64_lt super off)
  simp only [crMagic, crVersion, crGeneration, crAgCount, crRegionCount, crSuperBlock,
    crRootInodeBlock, crRootDirBlock, crJournalBlock, crInodeBitmapBlock, crFreeSpaceRoot,
    crMetadataTreeRoot, crExtentTreeRoot, crSnapshotRoot, crScrubJournal, crHealthJournal,
    crMetadataRegionStart, crMetadataRegionEnd, crDataRegionStart, crDataRegionEnd,
    crSpecialMetadataRoot, crCacheRoot, crParityRoot, initCheckpointRoot, put32, put64]
  simp (disch := decide) only [le32, le64, getLE_sealAt, getLE_putLE_of_disjoint,
    getLE_putLE_self, getLE_zeros]
  simp only [sGeneration, sAgCount, sRootInode, sJournalAddr, sMetaTree, sFreeTree, sExtentTree,
    sSnapTree, sScrubJournal, sHealthJournal, h32, h64]
  simp [checkpointRootMagic, checkpointRootVersion, superblockBlock, rootDirBlock,
    checkpointRootBlock, dataStartBlock]
  omega

/-! ## 4. The bitmap -/

section Bitmap

variable {b : BitmapBlock} {first : Nat}

/-- A bitmap with nothing beyond its first byte. -/
structure FirstByte (b : BitmapBlock) (first : Nat) : Prop where
  head : (bbBits b 0).toNat = first
  tail : ∀ i, 0 < i → bbBits b i = 0

theorem FirstByte.count (h : FirstByte b first) :
    imageBitmapCountSet b = (setBits 8 first).length % 2 ^ 32 := by
  have hrest : ((List.range 4079).map fun i => (setBits 8 (bbBits b (i + 1)).toNat).length).sum
      = 0 := by
    refine List.sum_eq_zero fun x hx => ?_
    obtain ⟨i, -, rfl⟩ := List.mem_map.mp hx
    rw [h.tail (i + 1) (by omega)]
    rfl
  rw [imageBitmapCountSet, bitmapBytes, List.range_succ_eq_map, List.map_cons, List.sum_cons,
    List.map_map, h.head]
  exact congrArg (fun x => ((setBits 8 first).length + x) % 2 ^ 32) hrest

theorem FirstByte.test (h : FirstByte b first) (i : Nat) :
    imageBitmapTest b i = (decide (i < 8) && first.testBit i) := by
  rw [imageBitmapTest]
  by_cases hi : i < 8
  · rw [Nat.div_eq_of_lt hi, Nat.mod_eq_of_lt hi, h.head]
    simp [hi]
  · rw [h.tail (i / 8) (by omega)]
    simp [hi]

theorem initInodeBitmap_firstByte : FirstByte initInodeBitmap 1 := by
  have hbyte : ∀ i, 12 ≤ i → byteAt initInodeBitmap i = if i = 16 then 1 else 0 := by
    intro i hi
    simp only [initInodeBitmap, sealAt, put32, bitmapSet]
    rw [byteAt_putLE_of_out _ _ (by omega), byteAt_putLE_of_out _ _ (by omega),
      byteAt_putLE _ _ (by norm_num)]
    by_cases h16 : i = 16
    · subst h16
      rw [if_pos (by norm_num), if_pos rfl, bbBits, byteAt_putLE_of_out _ _ (by norm_num)]
      simp
    · rw [if_neg (by omega), if_neg h16, byteAt_putLE_of_out _ _ (by omega), byteAt_zeros]
  constructor
  · rw [bbBits, hbyte _ (by omega)]
    rfl
  · intro i hi
    rw [bbBits, hbyte _ (by omega), if_neg (by omega)]

theorem initInodeBitmap_fields :
    bbTotalBits initInodeBitmap = maxInodes ∧ bbSetBits initInodeBitmap = 1 := by
  simp only [bbTotalBits, bbSetBits, initInodeBitmap, bitmapSet, le32, put32]
  simp (disch := decide) only [getLE_sealAt, getLE_putLE_of_disjoint, getLE_putLE_self]
  decide

end Bitmap

/-! ## 5. Directory records -/

section Dir

variable {m m' : Nat → UInt8} {off ino recLen : Nat} {name : List UInt8}

/-- The record at `off` has this inode number, length and name, and its checksum is right. -/
structure HasEntry (m : Nat → UInt8) (off ino recLen : Nat) (name : List UInt8) : Prop where
  ino : dirIno m off = ino
  recLen : dirRec m off = recLen
  nameLen : dirNameLen m off = name.length
  name : ∀ i (h : i < name.length), m (off + 14 + i) = name[i]
  sum : dirChecksum m off = direntChecksum m off

/-- The checksum byte itself is not covered. -/
theorem direntChecksum_congr {len : Nat} (hlen : dirNameLen m off = len)
    (heq : ∀ i, off ≤ i → i < off + 14 + len → i ≠ off + 13 → m' i = m i) :
    direntChecksum m' off = direntChecksum m off := by
  have hlen' : getLE m' (off + 10) 2 = getLE m (off + 10) 2 :=
    getLE_congr fun i h1 h2 => heq i (by omega) (by omega) (by omega)
  have hl : getLE m (off + 10) 2 = len := hlen
  simp only [direntChecksum, hlen', hl]
  split
  · rfl
  · refine congrArg (fun l => crc32cData l % 256) (List.map_congr_left fun i hi => ?_)
    have hi' := List.mem_range.mp hi
    simp only [dirEntryBaseSize] at hi'
    split
    · rfl
    · exact heq (off + i) (by omega) (by omega) (by omega)

theorem HasEntry.congr (h : HasEntry m off ino recLen name)
    (heq : ∀ i, off ≤ i → i < off + 14 + name.length → m' i = m i) :
    HasEntry m' off ino recLen name where
  ino := (getLE_congr fun i h1 h2 => heq i h1 (by omega)).trans h.ino
  recLen := (getLE_congr fun i h1 h2 => heq i (by omega) (by omega)).trans h.recLen
  nameLen := (getLE_congr fun i h1 h2 => heq i (by omega) (by omega)).trans h.nameLen
  name i hi := (heq _ (by omega) (by omega)).trans (h.name i hi)
  sum := by
    rw [direntChecksum_congr h.nameLen fun i h1 h2 _ => heq i h1 h2, ← h.sum, dirChecksum,
      dirChecksum, heq _ (by omega) (by omega)]

/-- **A record reads back.** -/
theorem initDirEntry_has (block : Block) (fileType : Nat) (hfit : off + 14 + name.length ≤ 4096)
    (hino : ino < 2 ^ 64) (hrec : recLen < 2 ^ 16) :
    HasEntry (byteAt (initDirEntry block off ino recLen fileType name)) off ino recLen name := by
  have hlen : name.length % 256 ^ 2 = name.length := Nat.mod_eq_of_lt (by omega)
  rw [initDirEntry]
  generalize hb : putDirEntry block off ino recLen fileType name = b
  have hnameLen : dirNameLen (byteAt b) off = name.length := by
    rw [← hb, dirNameLen, putDirEntry]
    simp (disch := omega) only [getLE_overlay_of_disjoint, getLE_putLE_of_disjoint,
      getLE_putLE_self, put16, hlen]
  have hother : ∀ i, i ≠ off + 13 →
      byteAt (putLE b (off + 13) 1 (direntChecksum (byteAt b) off)) i = byteAt b i :=
    fun i hi => byteAt_putLE_of_out _ _ (by omega)
  refine ⟨?_, ?_, ?_, fun i hi => ?_, ?_⟩
  · rw [dirIno, getLE_putLE_of_disjoint _ _ _ _ _ _ (by omega), ← hb, putDirEntry]
    simp (disch := omega) only [getLE_overlay_of_disjoint, getLE_putLE_of_disjoint,
      getLE_putLE_self, put16, put64]
    exact Nat.mod_eq_of_lt hino
  · rw [dirRec, getLE_putLE_of_disjoint _ _ _ _ _ _ (by omega), ← hb, putDirEntry]
    simp (disch := omega) only [getLE_overlay_of_disjoint, getLE_putLE_of_disjoint,
      getLE_putLE_self, put16]
    exact Nat.mod_eq_of_lt hrec
  · rw [dirNameLen, getLE_putLE_of_disjoint _ _ _ _ _ _ (by omega)]
    exact hnameLen
  · rw [hother _ (by omega), ← hb, putDirEntry, byteAt_overlay _ _ (by omega), if_pos (by omega),
      show off + 14 + i - (off + 14) = i by omega, byteAt_lt _ hi]
    rfl
  · rw [direntChecksum_congr hnameLen fun i _ _ h3 => hother i h3, dirChecksum,
      byteAt_putLE _ _ (by omega), if_pos (by omega), Nat.sub_self, Nat.pow_zero, Nat.div_one,
      UInt8.toNat_ofNat']
    refine Nat.mod_eq_of_lt ?_
    rw [direntChecksum]
    split
    · norm_num
    · exact Nat.mod_lt _ (by norm_num)

/-- Writing one record leaves the bytes outside it alone. -/
theorem byteAt_initDirEntry_of_out (block : Block) (fileType : Nat) {i : Nat}
    (h : i < off ∨ off + 14 + name.length ≤ i) :
    byteAt (initDirEntry block off ino recLen fileType name) i = byteAt block i := by
  simp only [initDirEntry, putDirEntry, put16, put64]
  rw [byteAt_putLE_of_out _ _ (by omega), byteAt_overlay_of_out _ _ (by omega),
    byteAt_putLE_of_out _ _ (by omega), byteAt_putLE_of_out _ _ (by omega),
    byteAt_putLE_of_out _ _ (by omega), byteAt_putLE_of_out _ _ (by omega),
    byteAt_putLE_of_out _ _ (by omega)]

/-- What the walk makes of a record, from its inode number and name. -/
def nameEntry (s : DirScan) (ino : Nat) (name : List UInt8) : Except Fail DirScan :=
  if ino = 0 then .ok s
  else if name = [46] then do
    failIf (ino ≠ rootIno) .EINVAL
    .ok { s with sawDot := true }
  else if name = [46, 46] then do
    failIf (ino ≠ rootIno) .EINVAL
    .ok { s with sawDotdot := true }
  else do
    failIf (ino < rootIno ∨ ino ≥ rootIno + maxInodes) .EINVAL
    failIf (ino - rootIno ∈ s.refs) .EEXIST
    .ok { s with refs := s.refs ++ [ino - rootIno] }

theorem HasEntry.isDot_iff (h : HasEntry m off ino recLen name) : isDot m off ↔ name = [46] := by
  rw [isDot, h.nameLen]
  constructor
  · rintro ⟨hlen, hbyte⟩
    obtain ⟨c, rfl⟩ := List.length_eq_one_iff.mp hlen
    have := h.name 0 (by simp)
    simp only [Nat.add_zero, List.getElem_cons_zero] at this
    rw [← this, hbyte]
  · rintro rfl
    exact ⟨rfl, h.name 0 (by simp)⟩

theorem HasEntry.isDotdot_iff (h : HasEntry m off ino recLen name) :
    isDotdot m off ↔ name = [46, 46] := by
  rw [isDotdot, h.nameLen]
  constructor
  · rintro ⟨hlen, hbyte, hbyte'⟩
    obtain ⟨c, d, rfl⟩ := List.length_eq_two.mp hlen
    have h0 := h.name 0 (by simp)
    have h1 := h.name 1 (by simp)
    simp only [Nat.add_zero, List.getElem_cons_zero, List.getElem_cons_succ] at h0 h1
    rw [← h0, ← h1, hbyte, show off + 14 + 1 = off + 15 by omega, hbyte']
  · rintro rfl
    exact ⟨rfl, h.name 0 (by simp), h.name 1 (by simp)⟩

/-- **One turn of the walk**, over a record that fits. -/
theorem dirWalk_entry (h : HasEntry m off ino recLen name) (hroom : 14 + name.length ≤ recLen)
    (h4 : recLen % 4 = 0) (hend : off + recLen ≤ 4096) (hname : name.length ≤ 255)
    (s : DirScan) :
    dirWalk m off s = nameEntry s ino name >>= dirWalk m (off + recLen) := by
  have hand : recLen &&& 3 = 0 := by
    rw [show (3 : Nat) = 2 ^ 2 - 1 by norm_num, Nat.and_two_pow_sub_one_eq_mod]
    exact h4
  have hok : ¬ dirBadLength m off := by
    simp only [dirBadLength, h.recLen, hand, defBlockSize]
    omega
  have hentry : dirEntry m off s = nameEntry s ino name := by
    simp only [dirEntry, h.ino, h.recLen, h.nameLen, h.sum, ne_eq, not_true_eq_false, and_false,
      h.isDot_iff, h.isDotdot_iff]
    rw [failIf_of_not (by simp only [dirEntryBaseSize, maxNamelen]; omega),
      failIf_of_not not_false]
    rfl
  rw [dirWalk, if_pos (by simp only [defBlockSize]; omega), if_neg hok, hentry, h.recLen]

theorem dirWalk_end (s : DirScan) : dirWalk m 4096 s = .ok s := by
  rw [dirWalk, if_neg (by simp)]

/-- The walk over the two dots at the front of a directory. -/
theorem dirWalk_dots (hdot : HasEntry m 0 16 16 [46]) (hdotdot : HasEntry m 16 16 recLen [46, 46])
    (hroom : 16 ≤ recLen) (h4 : recLen % 4 = 0) (hend : 16 + recLen ≤ 4096) :
    dirWalk m 0 ⟨[], false, false⟩ = dirWalk m (16 + recLen) ⟨[], true, true⟩ := by
  rw [dirWalk_entry hdot (by simp) (by norm_num) (by norm_num) (by simp)]
  rw [nameEntry, if_neg (by norm_num), if_pos rfl, failIf_of_not (by simp [rootIno]), ok_bind,
    ok_bind, Nat.zero_add]
  rw [dirWalk_entry hdotdot hroom h4 hend (by simp)]
  rw [nameEntry, if_neg (by norm_num), if_neg (by simp), if_pos rfl,
    failIf_of_not (by simp [rootIno]), ok_bind, ok_bind]

/-- The two records written at the front of a block. -/
theorem dots_entries {d : Block} {len : Nat} (hlen : len < 2 ^ 16) (hm : ∀ i, i < 32 →
      m i = byteAt (initDirEntry (initDirEntry d 0 16 16 ftDir [46]) 16 16 len ftDir [46, 46]) i) :
    HasEntry m 0 16 16 [46] ∧ HasEntry m 16 16 len [46, 46] := by
  constructor
  · refine (initDirEntry_has d ftDir (by simp) (by norm_num) (by norm_num)).congr fun i _ h2 => ?_
    simp only [List.length_singleton] at h2
    rw [hm i (by omega), byteAt_initDirEntry_of_out _ _ (by omega)]
  · refine (initDirEntry_has (initDirEntry d 0 16 16 ftDir [46]) ftDir (by simp) (by norm_num)
      hlen).congr fun i _ h2 => ?_
    simp only [List.length_cons, List.length_nil] at h2
    exact hm i (by omega)

theorem initRootDir_entries (hm : ∀ i, i < 4096 → m i = byteAt initRootDir i) :
    HasEntry m 0 16 16 [46] ∧ HasEntry m 16 16 4080 [46, 46] :=
  dots_entries (by norm_num) fun i hi => hm i (by omega)

/-- **The walk over it**, whatever lies behind the block. -/
theorem initRootDir_walk (hm : ∀ i, i < 4096 → m i = byteAt initRootDir i) :
    dirWalk m 0 ⟨[], false, false⟩ = .ok ⟨[], true, true⟩ := by
  obtain ⟨hdot, hdotdot⟩ := initRootDir_entries hm
  rw [dirWalk_dots hdot hdotdot (by norm_num) (by norm_num) (by norm_num)]
  exact dirWalk_end _

end Dir

end AetherFs
