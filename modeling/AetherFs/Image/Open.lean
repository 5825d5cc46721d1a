/-
# Opening and loading an image

`aetherfs_image_open` looks for a pool label in block 0 of one file and synthesises one when
there is none; `aetherfs_image_load` then reads the fixed metadata blocks into the structure,
checking each as it goes.  `imageLoad_iff` says once what a successful load is (`Loads`), in
both directions.

An opened image has one member, and on one member every layout is the identity
(`opened_home`): logical block `b` is read from member block `b`.  So whether two logical blocks
can share bytes is decided by one product, `b * 4096` in 64 bits, and the last section is exact
about it: reads are apart unless the label promises more than `2 ^ 52` blocks AND the map serves
block `2 ^ 52`.  Nothing in the label check excludes that: `pl_logical_blocks` is compared with
no device.
-/
import AetherFs.Image.Single
import AetherFs.Pool.Redundancy

namespace AetherFs

open Lib

/-! ## 1. Opening -/

/-- The member `aetherfs_member_open_path` fills in. -/
def fileMember (f : ByteFile) : Member ByteFile where
  dev := f
  isBlockDevice := f.kind = .blockDevice
  sizeBytes := f.size
  blocks := f.size / defBlockSize

/-- `aetherfs_member_open_path` of a file that exists. -/
def memberOpenPath (f : ByteFile) : Except Fail (Member ByteFile) := do
  failIf (f.kind = .other) .EINVAL
  .ok (fileMember f)

/-- `aetherfs_member_read_pool_label`: `none` when the magic is missing. -/
def memberReadPoolLabel {δ : Type} [BlockDev δ] (member : Member δ) :
    Except Fail (Option PoolLabel) := do
  let block ← BlockDev.read member.dev poolLabelBlock
  let label : PoolLabel := slice block 0 824
  if plMagic label ≠ poolMagic then .ok none
  else do
    poolLabelValidate label
    .ok (some label)

/-- `aetherfs_image_open`.  `beyond` is whatever lies behind the caller's structure. -/
def imageOpen (f : ByteFile) (writable : Bool) (beyond : Nat → UInt8) :
    Except Fail (Image ByteFile) := do
  let member ← memberOpenPath f
  let present ← memberReadPoolLabel member
  match present with
  | some label => do
    failIf (plMemberCount label ≠ 1) .EXDEV
    .ok (openedImage writable label (plLogicalBlocks label) 1 (fun _ => member) beyond)
  | none =>
    .ok (openedImage writable (singleLabel member.blocks) member.blocks 1 (fun _ => member) beyond)

/-- The bytes where a label would be. -/
def labelOf (f : ByteFile) : PoolLabel := slice (f.blockAt 0) 0 824

/-- The image an open hands out over the file: with its own label, or with a synthesised one. -/
def openedFile (f : ByteFile) (writable : Bool) (beyond : Nat → UInt8) : Image ByteFile :=
  let label := if plMagic (labelOf f) = poolMagic then labelOf f
    else singleLabel (f.size / defBlockSize)
  let blocks := if plMagic (labelOf f) = poolMagic then plLogicalBlocks (labelOf f)
    else f.size / defBlockSize
  openedImage writable label blocks 1 (fun _ => fileMember f) beyond

theorem openedFile_of_label {f : ByteFile} (h : plMagic (labelOf f) = poolMagic)
    (writable : Bool) (beyond : Nat → UInt8) : openedFile f writable beyond =
      openedImage writable (labelOf f) (plLogicalBlocks (labelOf f)) 1 (fun _ => fileMember f)
        beyond := by
  rw [openedFile, if_pos h, if_pos h]

theorem openedFile_of_none {f : ByteFile} (h : plMagic (labelOf f) ≠ poolMagic)
    (writable : Bool) (beyond : Nat → UInt8) : openedFile f writable beyond =
      openedImage writable (singleLabel (f.size / 4096)) (f.size / 4096) 1 (fun _ => fileMember f)
        beyond := by
  rw [openedFile, if_neg h, if_neg h]

theorem memberReadPoolLabel_file {f : ByteFile} {o : Option PoolLabel} :
    memberReadPoolLabel (fileMember f) = .ok o ↔ 4096 ≤ f.size ∧
      ((plMagic (labelOf f) ≠ poolMagic ∧ o = none) ∨ (plMagic (labelOf f) = poolMagic ∧
        poolLabelValidate (labelOf f) = .ok () ∧ o = some (labelOf f))) := by
  have hread : ∀ x, BlockDev.read (fileMember f).dev poolLabelBlock = .ok x ↔
      4096 ≤ f.size ∧ x = f.blockAt 0 := fun x => by
    change f.readAll (ByteFile.offsetOf 0) = .ok x ↔ _
    rw [ByteFile.readAll_eq_ok, ByteFile.offsetOf_of_lt (by norm_num), Nat.zero_mul, Nat.zero_add]
  rw [memberReadPoolLabel, bind_eq_ok]
  constructor
  · rintro ⟨x, hx, h⟩
    obtain ⟨hsize, rfl⟩ := (hread x).mp hx
    refine ⟨hsize, ?_⟩
    simp only at h
    split at h
    · rename_i hmagic
      exact Or.inl ⟨hmagic, (Except.ok.inj h).symm⟩
    · rename_i hmagic
      obtain ⟨_, hvalid, h⟩ := bind_eq_ok.mp h
      exact Or.inr ⟨not_not.mp hmagic, hvalid, (Except.ok.inj h).symm⟩
  · rintro ⟨hsize, ⟨hmagic, rfl⟩ | ⟨hmagic, hvalid, rfl⟩⟩
    · exact ⟨_, (hread _).mpr ⟨hsize, rfl⟩, if_pos hmagic⟩
    · exact ⟨_, (hread _).mpr ⟨hsize, rfl⟩, (if_neg (not_not.mpr hmagic)).trans
        (bind_eq_ok.mpr ⟨(), hvalid, rfl⟩)⟩

/-- **What open accepts, and what it returns.** -/
theorem imageOpen_iff {f : ByteFile} {writable : Bool} {beyond : Nat → UInt8}
    {img : Image ByteFile} : imageOpen f writable beyond = .ok img ↔
      f.kind ≠ .other ∧ 4096 ≤ f.size ∧ (plMagic (labelOf f) = poolMagic →
        poolLabelValidate (labelOf f) = .ok () ∧ plMemberCount (labelOf f) = 1) ∧
      img = openedFile f writable beyond := by
  rw [imageOpen, memberOpenPath, bind_assoc, failIf_bind_ok, ok_bind, bind_eq_ok]
  refine and_congr_right fun _ => ?_
  unfold openedFile
  constructor
  · rintro ⟨o, ho, h⟩
    obtain ⟨hsize, ⟨hmagic, rfl⟩ | ⟨hmagic, hvalid, rfl⟩⟩ := memberReadPoolLabel_file.mp ho
    · refine ⟨hsize, fun h => absurd h hmagic, ?_⟩
      rw [if_neg hmagic, if_neg hmagic]
      exact (Except.ok.inj h).symm
    · obtain ⟨hcount, h⟩ := failIf_bind_ok.mp h
      refine ⟨hsize, fun _ => ⟨hvalid, not_not.mp hcount⟩, ?_⟩
      rw [if_pos hmagic, if_pos hmagic]
      exact (Except.ok.inj h).symm
  · rintro ⟨hsize, hlabel, rfl⟩
    by_cases hmagic : plMagic (labelOf f) = poolMagic
    · obtain ⟨hvalid, hcount⟩ := hlabel hmagic
      rw [if_pos hmagic, if_pos hmagic]
      exact ⟨_, memberReadPoolLabel_file.mpr ⟨hsize, Or.inr ⟨hmagic, hvalid, rfl⟩⟩,
        failIf_bind_ok.mpr ⟨not_not.mpr hcount, rfl⟩⟩
    · rw [if_neg hmagic, if_neg hmagic]
      exact ⟨_, memberReadPoolLabel_file.mpr ⟨hsize, Or.inl ⟨hmagic, rfl⟩⟩, rfl⟩

/-! ## 2. Loading -/

section Load

variable {δ : Type}

/-- `aetherfs_image_validate_super`. -/
def imageValidateSuper (img : Image δ) : Except Fail Unit := do
  let super := img.super
  failIf (sMagic super ≠ aetherfsMagic) .EINVAL
  failIf (sVersion super ≠ aetherfsVersion) .EINVAL
  failIf (sBlocksize super ≠ defBlockSize) .EINVAL
  failIf (sChecksum super ≠ superChecksum super) .EILSEQ
  failIf (sBlocksCount super < bootstrapBlocks) .EINVAL
  failIf (sBlocksCount super ≠ plLogicalBlocks img.poolLabel) .EINVAL
  failIf (sDeviceCount super ≠ img.memberCount) .EINVAL
  failIf (sCheckpoint0 super ≠ checkpointRootBlock) .EINVAL
  failIf (sInodesCount super ≠ maxInodes) .EINVAL
  failIf (sMetaTree super ≠ inodeBitmapBlock) .EINVAL
  failIf (sExtentTree super ≠ 0) .EINVAL
  failIf (sFreeTree super ≠ freeExtentBlock) .EINVAL
  failIf (sSnapTree super ≠ 0) .EINVAL

/-- `aetherfs_image_validate_checkpoint_root`. -/
def imageValidateCheckpointRoot (img : Image δ) : Except Fail Unit := do
  let root := img.checkpointRoot
  let super := img.super
  failIf (crMagic root ≠ checkpointRootMagic) .EINVAL
  failIf (crVersion root ≠ checkpointRootVersion) .EINVAL
  failIf (crChecksum root ≠ checkpointRootChecksum root) .EILSEQ
  failIf (crGeneration root ≠ sGeneration super) .EINVAL
  failIf (crAgCount root ≠ sAgCount super) .EINVAL
  failIf (crRegionCount root ≠ 2) .EINVAL
  failIf (crSuperBlock root ≠ superblockBlock) .EINVAL
  failIf (crRootInodeBlock root ≠ sRootInode super) .EINVAL
  failIf (crRootDirBlock root ≠ rootDirBlock) .EINVAL
  failIf (crJournalBlock root ≠ sJournalAddr super) .EINVAL
  failIf (crInodeBitmapBlock root ≠ sMetaTree super) .EINVAL
  failIf (crFreeSpaceRoot root ≠ sFreeTree super) .EINVAL
  failIf (crMetadataTreeRoot root ≠ sMetaTree super) .EINVAL
  failIf (crExtentTreeRoot root ≠ sExtentTree super) .EINVAL
  failIf (crSnapshotRoot root ≠ sSnapTree super) .EINVAL
  failIf (crScrubJournal root ≠ sScrubJournal super) .EINVAL
  failIf (crHealthJournal root ≠ sHealthJournal super) .EINVAL
  failIf (crMetadataRegionStart root ≠ superblockBlock) .EINVAL
  failIf (crMetadataRegionEnd root ≠ checkpointRootBlock) .EINVAL
  failIf (crDataRegionStart root ≠ dataStartBlock) .EINVAL
  failIf (crDataRegionEnd root ≠ img.blocks) .EINVAL
  failIf (crSpecialMetadataRoot root ≠ 0 ∨ crCacheRoot root ≠ 0 ∨ crParityRoot root ≠ 0) .EINVAL

theorem imageValidateSuper_congr (img img' : Image δ) (hs : img'.super = img.super)
    (hl : img'.poolLabel = img.poolLabel) (hc : img'.memberCount = img.memberCount) :
    imageValidateSuper img' = imageValidateSuper img := by
  unfold imageValidateSuper
  rw [hs, hl, hc]

theorem imageValidateCheckpointRoot_congr (img img' : Image δ)
    (hr : img'.checkpointRoot = img.checkpointRoot) (hs : img'.super = img.super)
    (hb : img'.blocks = img.blocks) :
    imageValidateCheckpointRoot img' = imageValidateCheckpointRoot img := by
  unfold imageValidateCheckpointRoot
  rw [hr, hs, hb]

/-- `aetherfs_image_bitmap_count_set`, in 32 bits. -/
def imageBitmapCountSet (bitmap : BitmapBlock) : Nat :=
  ((List.range bitmapBytes).map fun i => (setBits 8 (bbBits bitmap i).toNat).length).sum % 2 ^ 32

/-- `aetherfs_image_bitmap_test`. -/
def imageBitmapTest (bitmap : BitmapBlock) (bit : Nat) : Bool :=
  (bbBits bitmap (bit / 8)).toNat.testBit (bit % 8)

theorem imageBitmapTest_lt {bitmap : BitmapBlock} {bit : Nat}
    (h : imageBitmapTest bitmap bit = true) : bit < maxInodes := by
  by_contra hge
  simp only [maxInodes, Nat.not_lt] at hge
  rw [imageBitmapTest, bbBits, byteAt_ge _ (by omega)] at h
  exact absurd h (by simp)

/-- `aetherfs_image_validate_bitmap`. -/
def imageValidateBitmap (bitmap : BitmapBlock) (expectedBits : Nat) : Except Fail Unit := do
  failIf (bbTotalBits bitmap ≠ expectedBits) .EINVAL
  failIf (bbChecksum bitmap ≠ bitmapChecksum bitmap) .EILSEQ
  failIf (bbSetBits bitmap ≠ imageBitmapCountSet bitmap) .EILSEQ

/-- `aetherfs_read_extent_node` over a block reader. -/
def readExtentNode (rd : Nat → Except Fail Block) (blocknr : Nat) : Except Fail ExtentNode := do
  let node ← rd blocknr
  failIf (enChecksum node ≠ extentNodeChecksum node) .EILSEQ
  failIf (enCount node > extentLogMax) .EINVAL
  .ok node

/-- The inodes a block holds; the rest of the in-memory table stays as it was. -/
def tableOf (block : Block) (old : Nat → Inode) (index : Nat) : Inode :=
  if index < 8 then slice block (512 * index) 512 else old index

variable [BlockDev δ]

/-- `aetherfs_image_load`. -/
def imageLoad (img : Image δ) : Except Fail (Image δ) := do
  let block ← imageReadBlock img superblockBlock
  let img := { img with super := slice block 0 256 }
  imageValidateSuper img
  let img := { img with blocks := sBlocksCount img.super }
  let block ← imageReadBlock img (sCheckpoint0 img.super)
  let img := { img with checkpointRoot := block }
  imageValidateCheckpointRoot img
  let block ← imageReadBlock img (crJournalBlock img.checkpointRoot)
  let img := { img with journal := slice block 0 48 }
  failIf (ilChecksum img.journal ≠ journalChecksum img.journal) .EILSEQ
  let block ← imageReadBlock img (crInodeBitmapBlock img.checkpointRoot)
  let img := { img with inodeBitmap := block }
  imageValidateBitmap img.inodeBitmap maxInodes
  let block ← readExtentNode (imageReadBlock img) (crFreeSpaceRoot img.checkpointRoot)
  let img := { img with freeExtents := block }
  let block ← imageReadBlock img (crRootInodeBlock img.checkpointRoot)
  let img := { img with inodeTable := tableOf block img.inodeTable }
  let block ← imageReadBlock img (crRootDirBlock img.checkpointRoot)
  .ok { img with rootDir := block }

/-- `img'` is what a successful load makes of `img`. -/
structure Loads (img img' : Image δ) : Prop where
  frame : img' = { img with
    blocks := sBlocksCount img'.super, super := img'.super,
    checkpointRoot := img'.checkpointRoot, journal := img'.journal,
    inodeBitmap := img'.inodeBitmap, freeExtents := img'.freeExtents,
    inodeTable := img'.inodeTable, rootDir := img'.rootDir }
  readSuper : ∃ b, imageReadBlock img superblockBlock = .ok b ∧ img'.super = slice b 0 256
  superOk : imageValidateSuper img' = .ok ()
  readRoot : imageReadBlock img (sCheckpoint0 img'.super) = .ok img'.checkpointRoot
  rootOk : imageValidateCheckpointRoot img' = .ok ()
  readJournal : ∃ b, imageReadBlock img (crJournalBlock img'.checkpointRoot) = .ok b ∧
    img'.journal = slice b 0 48
  journalOk : ilChecksum img'.journal = journalChecksum img'.journal
  readBitmap : imageReadBlock img (crInodeBitmapBlock img'.checkpointRoot) = .ok img'.inodeBitmap
  bitmapOk : imageValidateBitmap img'.inodeBitmap maxInodes = .ok ()
  readFree : readExtentNode (imageReadBlock img) (crFreeSpaceRoot img'.checkpointRoot)
    = .ok img'.freeExtents
  readTable : ∃ b, imageReadBlock img (crRootInodeBlock img'.checkpointRoot) = .ok b ∧
    img'.inodeTable = tableOf b img.inodeTable
  readDir : imageReadBlock img (crRootDirBlock img'.checkpointRoot) = .ok img'.rootDir

theorem Loads.kept {img img' : Image δ} (h : Loads img img') :
    img'.poolLabel = img.poolLabel ∧ img'.memberCount = img.memberCount ∧
      img'.members = img.members ∧ img'.blocks = sBlocksCount img'.super := by
  rw [h.frame]
  exact ⟨rfl, rfl, rfl, rfl⟩

/-- **What a successful load is.** -/
theorem imageLoad_iff {img img' : Image δ} : imageLoad img = .ok img' ↔ Loads img img' := by
  -- what is loaded on the way does not change where the next block is read from
  have same : ∀ blocks root super journal bitmap free table dir,
      imageReadBlock { img with
        blocks := blocks, checkpointRoot := root, super := super, journal := journal,
        inodeBitmap := bitmap, freeExtents := free, inodeTable := table, rootDir := dir }
        = imageReadBlock img :=
    fun _ _ _ _ _ _ _ _ => funext (imageReadBlock_congr img _ rfl rfl rfl)
  unfold imageLoad
  simp only [bind_eq_ok, failIf_eq_ok, not_not, same]
  constructor
  · rintro ⟨sb, h1, _, h2, cr, h3, _, h4, jb, h5, _, h6, bm, h7, _, h8, fe, h9, it, h10, rd, h11, h⟩
    obtain rfl := Except.ok.inj h
    refine ⟨rfl, ⟨sb, h1, rfl⟩, ?_, h3, ?_, ⟨jb, h5, rfl⟩, h6, h7, h8, h9, ⟨it, h10, rfl⟩, h11⟩
    · simpa only [imageValidateSuper] using h2
    · simpa only [imageValidateCheckpointRoot] using h4
  · rintro ⟨hframe, ⟨sb, h1, hsuper⟩, h2, h3, h4, ⟨jb, h5, hjournal⟩, h6, h7, h8, h9,
      ⟨it, h10, htable⟩, h11⟩
    rw [hsuper] at hframe h3
    have h2' := (imageValidateSuper_congr img' { img with super := slice sb 0 256 } hsuper.symm
      (by rw [hframe]) (by rw [hframe])).trans h2
    have h4' := (imageValidateCheckpointRoot_congr img'
      { img with super := slice sb 0 256, blocks := sBlocksCount (slice sb 0 256),
                 checkpointRoot := img'.checkpointRoot } rfl hsuper.symm (by rw [hframe])).trans h4
    refine ⟨sb, h1, (), h2', _, h3, (), h4', jb, h5, (), hjournal ▸ h6, _, h7, (), h8, _, h9,
      it, h10, _, h11, ?_⟩
    rw [hframe, hjournal, htable]

end Load

/-! ## 3. Do two blocks share bytes? -/

/-- The byte offset at which a logical block is read. -/
def readOffset (img : Image ByteFile) (b : Nat) : Except Fail Nat :=
  (home img b).map fun mc => ByteFile.offsetOf mc.2

/-- Distinct blocks of the image that can be read are read from disjoint byte ranges. -/
def ReadsApart (img : Image ByteFile) : Prop :=
  ∀ b b' x x' o o', b < img.blocks → b' < img.blocks → b ≠ b' →
    imageReadBlock img b = .ok x → imageReadBlock img b' = .ok x' →
    readOffset img b = .ok o → readOffset img b' = .ok o' → o + 4096 ≤ o' ∨ o' + 4096 ≤ o

/-- The product `member_block * 4096` of every block the map admits fits in 64 bits. -/
def OffsetsFit (img : Image ByteFile) : Prop :=
  ∀ b m c, b < img.blocks → home img b = .ok (m, c) → c * 4096 < 2 ^ 64

theorem openedFile_blocks_lt (f : ByteFile) (writable : Bool) (beyond : Nat → UInt8) :
    (openedFile f writable beyond).blocks < 2 ^ 64 := by
  simp only [openedFile, openedImage_blocks, defBlockSize]
  split
  · exact le64_lt _ _
  · have := f.size_lt
    omega

/-- A block that is mapped below the wrap is kept at its own number. -/
theorem opened_home {img : Image ByteFile} (hc : img.memberCount = 1)
    (hbl : img.blocks < 2 ^ 64)
    (hfit : ¬ (2 ^ 52 < img.blocks ∧ ∃ p, poolMapDataBlock img (2 ^ 52) = .ok p))
    {b m c : Nat} (hb : b < img.blocks) (hh : home img b = .ok (m, c)) :
    c = b ∧ b < 2 ^ 52 := by
  rcases home_single hc (Nat.lt_trans hb hbl) with ⟨hs, h⟩ | ⟨-, e, h⟩
  · rw [h] at hh
    obtain ⟨-, rfl⟩ := Prod.mk.inj (Except.ok.inj hh)
    refine ⟨rfl, ?_⟩
    by_contra hge
    refine hfit ⟨by omega, _, single_map_of_lt hc (by norm_num) (by norm_num) ?_⟩
    rcases hs with h8 | hlt
    · omega
    · omega
  · rw [h] at hh
    exact absurd hh (by simp)

/-- A regular file of sixteen blocks that is empty but for a label. -/
def labelledFile (label : PoolLabel) : ByteFile :=
  (ByteFile.zeroed 65536 ByteFile.sixteenBlocks_lt).store 0 (overlay (zeros 4096) 0 label) 65536
    ByteFile.sixteenBlocks_lt

theorem labelOf_labelledFile (label : PoolLabel) : labelOf (labelledFile label) = label := by
  have hblock : (labelledFile label).blockAt 0 = overlay (zeros 4096) 0 label := by
    funext i
    have hi := i.isLt
    simp only [labelledFile, ByteFile.store, ByteFile.blockAt]
    rw [if_pos (by omega), if_pos (by omega), Nat.zero_add, Nat.sub_zero, byteAt_fin]
  rw [labelOf, hblock, slice_overlay_self _ _ _ (by norm_num)]

/-- A mirror of one member whose label promises `logical` blocks is opened as it stands. -/
theorem mirrorFile_open {n : Nat} (h8 : 8 ≤ n) (hn : n < 2 ^ 64) :
    ∃ img, imageOpen (labelledFile (uniformLabel 1 1 1 1 1 n 16)) true (fun _ => 0) = .ok img ∧
      img.blocks = n ∧ ∀ b, poolMapDataBlock img b = .ok ⟨0, 2 ^ 32 - 1, b⟩ := by
  obtain ⟨h1, -, h3, h4, -, -, -, -, -, -, h11, -⟩ := uniformLabel_fields 1 1 1 1 1 n 16
    (by norm_num) (by norm_num) (by norm_num) (by norm_num) (by norm_num) hn
  have hlabel := labelOf_labelledFile (uniformLabel 1 1 1 1 1 n 16)
  have himg := openedFile_of_label (by rw [hlabel, h1]) true (fun _ => 0)
  refine ⟨_, imageOpen_iff.mpr ⟨FileKind.noConfusion, ?_, ?_, himg.symm⟩, ?_, fun b => ?_⟩
  · change 4096 ≤ 65536
    norm_num
  · rw [hlabel]
    exact fun _ => ⟨uniformLabel_validate 1 1 1 1 1 n 16 (by norm_num) (by norm_num)
      (by norm_num) (by norm_num) (by norm_num) (by norm_num) h8 hn (by norm_num) (by norm_num),
      h4⟩
  · rw [openedImage_blocks, hlabel, h11]
  · rw [poolMapDataBlock_mirror (by rw [poolProfile, openedImage_poolLabel, hlabel, h3]),
      poolMapMirror, poolDataMask_single (openedImage_memberCount ..)]
    rfl

/-- Blocks 0 and `2 ^ 52`, if they are served, are both read at offset 0. -/
theorem opened_reads_at_zero {img : Image ByteFile} {f : ByteFile} (hc : img.memberCount = 1)
    (hdev : (img.members 0).dev = f) (hsize : 4096 ≤ f.size) {b : Nat} (hb : b = 0 ∨ b = 2 ^ 52)
    (hs : Served img b) :
    imageReadBlock img b = .ok (f.blockAt 0) ∧ readOffset img b = .ok 0 := by
  have hb64 : b < 2 ^ 64 := by omega
  have hzero : ByteFile.offsetOf b = 0 := by
    rw [ByteFile.offsetOf_eq]
    rcases hb with rfl | rfl <;> norm_num
  refine ⟨(single_read_eq_ok hc hb64).mpr ⟨hs, ?_⟩, ?_⟩
  · rw [hdev]
    exact ByteFile.readAll_eq_ok.mpr ⟨by omega, by rw [hzero]⟩
  · rcases home_single hc hb64 with ⟨-, h⟩ | ⟨h, -⟩
    · rw [readOffset, h]
      exact congrArg Except.ok hzero
    · exact absurd hs h

/-- **When no two blocks share bytes.**  Both readings of the question have one answer: unless
the label promises more than `2 ^ 52` blocks and the map serves number `2 ^ 52`. -/
theorem imageOpen_reads_apart_iff {f : ByteFile} {writable : Bool} {beyond : Nat → UInt8}
    {img : Image ByteFile} (hopen : imageOpen f writable beyond = .ok img) :
    (ReadsApart img ↔ ¬ (2 ^ 52 < img.blocks ∧ ∃ p, poolMapDataBlock img (2 ^ 52) = .ok p)) ∧
    (OffsetsFit img ↔ ¬ (2 ^ 52 < img.blocks ∧ ∃ p, poolMapDataBlock img (2 ^ 52) = .ok p)) := by
  obtain ⟨-, hsize, -, rfl⟩ := imageOpen_iff.mp hopen
  have hc : (openedFile f writable beyond).memberCount = 1 := rfl
  have hdev : ((openedFile f writable beyond).members 0).dev = f := rfl
  have hbl := openedFile_blocks_lt f writable beyond
  generalize openedFile f writable beyond = img at hc hdev hbl
  refine ⟨⟨fun hapart => ?_, fun hfit => ?_⟩, ⟨fun hfits => ?_, fun hfit => ?_⟩⟩
  · -- blocks 0 and 2 ^ 52 are both read at offset 0
    rintro ⟨hlt, p, hp⟩
    have hserved : Served img (2 ^ 52) :=
      Or.inr (single_map_of_ok hc (by norm_num) (by norm_num) hp).1
    have hserved0 : Served img 0 := Or.inl (by norm_num)
    obtain ⟨hr, ho⟩ := opened_reads_at_zero hc hdev hsize (Or.inl rfl) hserved0
    obtain ⟨hr', ho'⟩ := opened_reads_at_zero hc hdev hsize (Or.inr rfl) hserved
    have := hapart 0 (2 ^ 52) _ _ _ _ (by omega) hlt (by norm_num) hr hr' ho ho'
    omega
  · intro b b' x x' o o' hb hb' hne _ _ ho ho'
    have hoffset : ∀ {b o}, b < img.blocks → readOffset img b = .ok o →
        o = b * 4096 := by
      intro b o hb ho
      unfold readOffset at ho
      cases hh : home img b with
      | error e => rw [hh] at ho; exact absurd ho (by simp [Except.map])
      | ok mc =>
        obtain ⟨m, c⟩ := mc
        obtain ⟨rfl, hlt⟩ := opened_home hc hbl hfit hb hh
        rw [hh] at ho
        rw [← ByteFile.offsetOf_of_lt hlt]
        exact (Except.ok.inj ho).symm
    rw [hoffset hb ho, hoffset hb' ho']
    omega
  · rintro ⟨hlt, p, hp⟩
    have := hfits (2 ^ 52) p.memberIndex p.memberBlock hlt (home_data (by norm_num) hp)
    rw [(single_map_of_ok hc (by norm_num) (by norm_num) hp).2] at this
    omega
  · intro b m c hb hh
    obtain ⟨rfl, hlt⟩ := opened_home hc hbl hfit hb hh
    omega

theorem mirrorFile_reads_apart : ∃ img,
    imageOpen (labelledFile (uniformLabel 1 1 1 1 1 24 16)) true (fun _ => 0) = .ok img ∧
      ReadsApart img ∧ OffsetsFit img := by
  obtain ⟨img, hopen, hblocks, -⟩ := mirrorFile_open (n := 24) (by norm_num) (by norm_num)
  have hno : ¬ (2 ^ 52 < img.blocks ∧ ∃ p, poolMapDataBlock img (2 ^ 52) = .ok p) := fun h => by
    rw [hblocks] at h
    exact absurd h.1 (by norm_num)
  obtain ⟨h1, h2⟩ := imageOpen_reads_apart_iff hopen
  exact ⟨img, hopen, h1.mpr hno, h2.mpr hno⟩

/-- **Two blocks, one range.**  A label that promises `2 ^ 52 + 16` blocks on a file of sixteen
is accepted, and block `2 ^ 52` is then the label block. -/
theorem mirrorFile_reads_alias : ∃ img,
    imageOpen (labelledFile (uniformLabel 1 1 1 1 1 (2 ^ 52 + 16) 16)) true (fun _ => 0)
      = .ok img ∧ 2 ^ 52 < img.blocks ∧
      (∃ x, imageReadBlock img 0 = .ok x ∧ imageReadBlock img (2 ^ 52) = .ok x) ∧
      readOffset img 0 = .ok 0 ∧ readOffset img (2 ^ 52) = .ok 0 := by
  obtain ⟨img, hopen, hblocks, hmap⟩ := mirrorFile_open (n := 2 ^ 52 + 16) (by norm_num)
    (by norm_num)
  obtain ⟨-, hsize, -, himg⟩ := imageOpen_iff.mp hopen
  have hc : img.memberCount = 1 := by rw [himg]; rfl
  have hdev : (img.members 0).dev = labelledFile (uniformLabel 1 1 1 1 1 (2 ^ 52 + 16) 16) := by
    rw [himg]
    rfl
  have hserved : Served img (2 ^ 52) :=
    Or.inr (single_map_of_ok hc (by norm_num) (by norm_num) (hmap _)).1
  obtain ⟨hr, ho⟩ := opened_reads_at_zero hc hdev hsize (Or.inl rfl) (Or.inl (by norm_num))
  obtain ⟨hr', ho'⟩ := opened_reads_at_zero hc hdev hsize (Or.inr rfl) hserved
  exact ⟨img, hopen, by omega, ⟨_, hr, hr'⟩, ho, ho'⟩

end AetherFs
