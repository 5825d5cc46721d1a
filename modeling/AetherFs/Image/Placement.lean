/-
# Where the metadata is

`aetherfs_image_load` reads seven blocks.  Five of the addresses are forced: the superblock by
the caller, the checkpoint root, the inode bitmap, the free list and the root directory by
comparison with constants.  The journal and the inode block are NOT: `cr_journal_block` is
compared with `s_journal_addr`, `cr_root_inode_block` with `s_root_inode`, and those two with
nothing.

So the seven blocks are distinct and below the data region exactly when the two free addresses
are two different ones of 0, 2 and 4, and a metadata block can be owned
by a file or by the free list exactly when one of the two points into the data region.  The last
section has a volume that scrubs clean while its journal lies in the first free block.
-/
import AetherFs.Image.Coverage

namespace AetherFs

open Lib

/-! ## 1. The seven addresses -/

section Places

variable {δ : Type} [BlockDev δ]

/-- The blocks `aetherfs_image_load` reads, in the order in which it does. -/
def metadataBlocks (img : Image δ) : List Nat :=
  [superblockBlock, sCheckpoint0 img.super, crJournalBlock img.checkpointRoot,
    crInodeBitmapBlock img.checkpointRoot, crFreeSpaceRoot img.checkpointRoot,
    crRootInodeBlock img.checkpointRoot, crRootDirBlock img.checkpointRoot]

theorem metadataBlocks_eq {img0 img : Image δ} (h : imageLoad img0 = .ok img) :
    metadataBlocks img = [1, 7, sJournalAddr img.super, 5, 6, sRootInode img.super, 3] := by
  have hl := imageLoad_iff.mp h
  obtain ⟨h7, hj, h5, h6, hi, h3, -⟩ := boot_places hl.superOk hl.rootOk
  rw [metadataBlocks, h7, hj, h5, h6, hi, h3]

/-- The data region starts behind all seven, and no two of them are the same. -/
def MetadataPlaced (img : Image δ) : Prop :=
  (metadataBlocks img).Nodup ∧ ∀ b ∈ metadataBlocks img, b < dataStartBlock

/-- No metadata block is claimed by a file or by the free list. -/
def MetadataUnclaimed (img : Image δ) : Prop :=
  ∀ b ∈ metadataBlocks img, ∀ o, ¬ Owns img o b

/-- **When metadata stays clear of everything else.**  The first part is about any image that
loads, the second about those that also scrub clean. -/
theorem metadata_placed_iff {img0 img : Image δ} (hload : imageLoad img0 = .ok img) :
    (MetadataPlaced img ↔ sRootInode img.super ≠ sJournalAddr img.super ∧
      sRootInode img.super ∈ [0, 2, 4] ∧ sJournalAddr img.super ∈ [0, 2, 4]) ∧
    ∀ rep, imageValidate img = .ok rep → (MetadataUnclaimed img ↔
      (sRootInode img.super < 8 ∨ img.blocks ≤ sRootInode img.super) ∧
      (sJournalAddr img.super < 8 ∨ img.blocks ≤ sJournalAddr img.super)) := by
  rw [MetadataPlaced, MetadataUnclaimed, metadataBlocks_eq hload]
  generalize sRootInode img.super = i
  generalize sJournalAddr img.super = j
  refine ⟨?_, fun rep hval => ?_⟩
  · simp only [List.forall_mem_cons, List.not_mem_nil, false_implies, implies_true, and_true]
    simp only [List.nodup_cons, List.mem_cons, List.not_mem_nil, or_false, not_or,
      List.nodup_nil, and_true, not_false_eq_true, dataStartBlock]
    omega
  · obtain ⟨refs, ts, free, hscrub, -⟩ := imageValidate_iff.mp hval
    obtain ⟨-, tiles, ht, hp⟩ := slots_tile hload hscrub
    constructor
    · intro hun
      have hout : ∀ b ∈ [1, 7, j, 5, 6, i, 3], b < 8 ∨ img.blocks ≤ b := fun b hb => by
        by_contra hin
        obtain ⟨x, -, -, howns⟩ := exists_owner ht hp (b := b) (by omega) (by omega)
        exact hun b hb _ howns
      exact ⟨hout i (by simp), hout j (by simp)⟩
    · rintro ⟨hi, hj⟩ b hb o howns
      have := howns.within ht hp
      simp only [List.mem_cons, List.not_mem_nil, or_false] at hb
      omega

/-- Where `mkfs` puts them they are in place. -/
theorem oneFile_metadata_placed : ∃ img0 img rep,
    imageLoad (δ := ByteFile) img0 = .ok img ∧ imageValidate img = .ok rep ∧
      MetadataPlaced img ∧ MetadataUnclaimed img := by
  obtain ⟨-, hload, ⟨hi, hj⟩, rep, hval⟩ := oneFile_validates (n := 16) (m := 1) false (fun _ => 0)
    (fun _ => zeros 4096) (by norm_num) (by norm_num) (by decide)
  obtain ⟨hplaced, hclaimed⟩ := metadata_placed_iff hload
  refine ⟨_, _, rep, hload, hval, hplaced.mpr ?_, (hclaimed rep hval).mpr ?_⟩
  · rw [hi, hj]
    decide
  · rw [hi, hj]
    omega

end Places

/-! ## 2. A journal in free space -/

section Moved

/-- The superblock and the checkpoint root of a volume whose journal is in block `addr`. -/
def movedSuper (n addr : Nat) : Super :=
  sealAt (put64 (setFreeBlocks (volumeSuper n) (n - 8)) 136 addr) 44

def movedRoot (n addr : Nat) : CheckpointRoot :=
  sealAt (put64 (initCheckpointRoot (volumeSuper n) n) 48 addr) 8

/-- A volume without files, with a second journal in block 8 that the superblock points to. -/
def movedBlocks (n k : Nat) : Block :=
  if k = 1 then overlay (zeros 4096) 0 (movedSuper n 8)
  else if k = 7 then movedRoot n 8
  else if k = 8 then overlay (zeros 4096) 0 initJournal
  else if k < 8 then volumeBoot n 1 8 (zeros 512) k
  else zeros 4096

def movedFile (n : Nat) (hn : n < 2 ^ 51) : ByteFile := .ofBlocks n (movedBlocks n) hn

variable {n : Nat} (hn : n < 2 ^ 51) (writable : Bool) (beyond : Nat → UInt8)

theorem movedFile_block {k : Nat} (hk : k < n) :
    (movedFile n hn).blockAt (k * 4096) = movedBlocks n k := ByteFile.blockAt_ofBlocks _ _ hk

theorem movedFile_plain (hlt : 8 < n) : PlainFile (movedFile n hn) n := by
  refine ⟨FileKind.noConfusion, rfl, by omega, ?_⟩
  have hzero : labelOf (movedFile n hn) = zeros 824 := by
    have : (movedFile n hn).blockAt 0 = zeros 4096 := by
      rw [← Nat.zero_mul 4096, movedFile_block hn (by omega)]
      rfl
    rw [labelOf, this, slice_zeros]
  rw [hzero, plMagic, le32, getLE_zeros]
  decide

/-- The loaded volume: everything but the superblock and the checkpoint root is as it was. -/
def movedImage : Image ByteFile :=
  loadedImage (plainImage (movedFile n hn) n writable beyond) (movedBlocks n)

theorem movedImage_super : (movedImage hn writable beyond).super = movedSuper n 8 :=
  slice_overlay_self _ _ _ (by norm_num)

theorem movedImage_root : (movedImage hn writable beyond).checkpointRoot = movedRoot n 8 := rfl

theorem movedSuper_differs (n addr : Nat) :
    DiffersOnly superHoles (movedSuper n addr) (setFreeBlocks (volumeSuper n) (n - 8)) :=
  (differsOnly_sealAt _ (by decide)).trans (differsOnly_putLE _ _ (by decide))

theorem movedRoot_differs (n addr : Nat) :
    DiffersOnly rootHoles (movedRoot n addr) (initCheckpointRoot (volumeSuper n) n) :=
  (differsOnly_sealAt _ (by decide)).trans (differsOnly_putLE _ _ (by decide))

theorem moved_addresses (n : Nat) {addr : Nat} (h : addr < 2 ^ 64) :
    sJournalAddr (movedSuper n addr) = addr ∧ crJournalBlock (movedRoot n addr) = addr ∧
      sRootInode (movedSuper n addr) = sRootInode (setFreeBlocks (volumeSuper n) (n - 8)) ∧
      crRootInodeBlock (movedRoot n addr)
        = crRootInodeBlock (initCheckpointRoot (volumeSuper n) n) := by
  simp only [sJournalAddr, crJournalBlock, sRootInode, crRootInodeBlock, movedSuper, movedRoot,
    le64, put64]
  simp (disch := decide) only [getLE_sealAt, getLE_putLE_self, getLE_putLE_of_disjoint]
  exact ⟨Nat.mod_eq_of_lt h, Nat.mod_eq_of_lt h, trivial, trivial⟩

theorem movedImage_blocks : (movedImage hn writable beyond).blocks = n := by
  have hblocks := volumeImage_blocks n 1 8 (zeros 512) (danglingFile n hn) writable beyond
    (by omega)
  have hsuper := volumeImage_super n 1 8 (zeros 512) (danglingFile n hn) writable beyond
  have hcount : sBlocksCount (setFreeBlocks (volumeSuper n) (n - 8)) = n := hsuper ▸ hblocks
  change sBlocksCount (movedImage hn writable beyond).super = n
  rw [movedImage_super]
  exact (movedSuper_differs n 8 12 8 (by decide)).trans hcount

theorem movedFile_load (hlt : 8 < n) :
    imageLoad (plainImage (movedFile n hn) n writable beyond)
      = .ok (movedImage hn writable beyond) := by
  have hplain := movedFile_plain hn hlt
  have hread : ∀ {b k}, b = k → k < n →
      imageReadBlock (plainImage (movedFile n hn) n writable beyond) b = .ok (movedBlocks n k) := by
    rintro b k rfl hk
    rw [plainImage_read hplain writable beyond hk, movedFile_block hn hk]
  obtain ⟨-, hload, hi2, -⟩ := (danglingFile_volume hn hlt).load writable beyond
  have hl := imageLoad_iff.mp hload
  have hsuper := volumeImage_super n 1 8 (zeros 512) (danglingFile n hn) writable beyond
  obtain ⟨-, -, -, -, hi, -⟩ := boot_places hl.superOk hl.rootOk
  obtain ⟨a1, a2, a3, a4⟩ := @moved_addresses n 8 (by norm_num)
  have hsame : DiffersOnly superHoles (movedImage hn writable beyond).super
      (volumeImage (danglingFile n hn) n 1 8 (zeros 512) writable beyond).super := by
    rw [movedImage_super, hsuper]
    exact movedSuper_differs n 8
  have hsuperOk : imageValidateSuper (movedImage hn writable beyond) = .ok () := by
    refine imageValidateSuper_of_differs hl.superOk rfl rfl ?_ hsame
    rw [movedImage_super]
    exact super_sealed _
  have hrootOk : imageValidateCheckpointRoot (movedImage hn writable beyond) = .ok () := by
    refine imageValidateCheckpointRoot_of_differs hl.rootOk ?_ (checkpointRoot_sealed _) hsame
      (movedRoot_differs n 8) ?_ ?_
    · rw [movedImage_blocks, volumeImage_blocks n 1 8 _ _ _ _ (by omega)]
    · rw [movedImage_super, movedImage_root, a3, a4, ← hsuper]
      exact hi
    · rw [movedImage_super, movedImage_root, a1, a2]
  obtain ⟨h7, -, h5, h6, hi', h3, -⟩ := boot_places hsuperOk hrootOk
  have h2 : crRootInodeBlock (movedImage hn writable beyond).checkpointRoot = 2 := by
    rw [movedImage_root, a4]
    exact hi.trans hi2
  obtain ⟨-, hsum, hcount⟩ := readExtentNode_iff.mp hl.readFree
  refine imageLoad_iff.mpr ⟨rfl, ⟨_, @hread 1 1 rfl (by omega), rfl⟩, hsuperOk, hread h7 (by omega),
    hrootOk, ⟨_, hread a2 hlt, rfl⟩, hl.journalOk, hread h5 (by omega), hl.bitmapOk,
    readExtentNode_iff.mpr ⟨hread h6 (by omega), hsum, hcount⟩, ⟨_, hread h2 (by omega), rfl⟩,
    hread h3 (by omega)⟩

/-- Scrub reads neither of the two records, except for the free count and one address. -/
theorem movedImage_scrubbed (hlt : 8 < n) :
    Scrubbed (movedImage hn writable beyond) [1]
      (fewTallies 2 fun i => if i = 0 then { Tally.none with directories := 1 } else .none)
      (tailOf 8 n) := by
  have hvol := danglingFile_scrubbed writable beyond hn hlt
  have hblocks := volumeImage_blocks n 1 8 (zeros 512) (danglingFile n hn) writable beyond
    (by omega)
  have hroot : crRootDirBlock (movedImage hn writable beyond).checkpointRoot
      = crRootDirBlock (volumeImage (danglingFile n hn) n 1 8 (zeros 512) writable
        beyond).checkpointRoot := movedRoot_differs n 8 40 8 (by decide)
  have hfree : sFreeBlocks (movedImage hn writable beyond).super
      = sFreeBlocks (volumeImage (danglingFile n hn) n 1 8 (zeros 512) writable beyond).super := by
    rw [movedImage_super, volumeImage_super, movedSuper, sFreeBlocks, le64, put64]
    simp (disch := decide) only [getLE_sealAt, getLE_putLE_of_disjoint]
    rfl
  have hsize : (movedImage hn writable beyond).blocks
      = (volumeImage (danglingFile n hn) n 1 8 (zeros 512) writable beyond).blocks := by
    rw [movedImage_blocks, hblocks]
  have hinode : ∀ rd, checkInode rd (volumeImage (danglingFile n hn) n 1 8 (zeros 512) writable
      beyond) [1] 1 = .ok .none := fun rd => by
    refine checkInode_iff.mpr (Or.inl ⟨?_, ?_, rfl⟩)
    · rw [volumeImage_bitmap, (byteBitmap_firstByte (by norm_num)).test]
      rfl
    · rw [volumeImage_inode_one]
      exact getLE_zeros _ _ _
  refine hvol.transfer ?_ ?_ ?_ ?_ ?_ ?_ hsize ?_ hroot hfree ?_
  · exact loadedImage_memberCount _ _
  · exact loadedImage_memberCount _ _
  · rw [movedImage, volumeImage, loadedImage_poolProfile, loadedImage_poolProfile]
    rfl
  · rfl
  · rfl
  · funext i
    rw [dirMemory, dirMemory]
    rfl
  · rfl
  · refine (volumeImage_inodes n 1 8 (zeros 512) (danglingFile n hn) writable beyond (by omega)
      (Or.inl rfl) (hinode (imageReadBlock (movedImage hn writable beyond)))).imp fun i t h => ?_
    have htable : (movedImage hn writable beyond).inodeTable i
        = (volumeImage (danglingFile n hn) n 1 8 (zeros 512) writable beyond).inodeTable i := rfl
    exact (checkInode_congr _ htable rfl hsize hroot [1]).trans h

/-- **A volume that scrubs clean, with its journal in the free list.** -/
theorem movedJournal_is_free : ∃ img0 img rep,
    imageOpen (movedFile 32 (by norm_num)) false (fun _ => 0) = .ok img0 ∧
      imageLoad img0 = .ok img ∧ imageValidate img = .ok rep ∧
      crJournalBlock img.checkpointRoot = 8 ∧ Owns img (.free 0) 8 ∧
      ¬ MetadataPlaced img ∧ ¬ MetadataUnclaimed img := by
  have hn : 32 < 2 ^ 51 := by norm_num
  have hload := movedFile_load hn false (fun _ => 0) (by norm_num)
  have hval := imageValidate_iff.mpr ⟨_, _, _, movedImage_scrubbed hn false (fun _ => 0)
    (by norm_num), rfl⟩
  have hjournal : crJournalBlock (movedImage hn false fun _ => 0).checkpointRoot = 8 :=
    (moved_addresses 32 (by norm_num)).2.1
  have hmem : 8 ∈ metadataBlocks (movedImage hn false fun _ => 0) := by
    rw [metadataBlocks, hjournal]
    simp
  have howns : Owns (movedImage hn false fun _ => 0) (.free 0) 8 := by
    obtain ⟨-, e2, e3, e4⟩ := @freeNode_fields 8 24 (by norm_num) (by norm_num)
    have hnode : (movedImage hn false fun _ => 0).freeExtents = freeNode 8 24 := rfl
    refine ⟨enExtent (freeNode 8 24) 0, ?_, by rw [e3], by rw [e3, e4]; norm_num⟩
    rw [hnode, enExtents_one e2]
    rfl
  exact ⟨_, _, _, plainFile_open (movedFile_plain hn (by norm_num)) false _, hload, hval, hjournal,
    howns, fun h => absurd (h.2 8 hmem) (by norm_num), fun h => h 8 hmem _ howns⟩

end Moved

end AetherFs
