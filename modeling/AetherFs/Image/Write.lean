/-
# Writing the metadata back

The four writers of `image.c` put the superblock, the journal, the inode table and the free list
where the FORMAT has them: blocks 1, 4, 2 and 6.  The loader looks for the journal and for the
inodes where the SUPERBLOCK says.  And while the table in memory has 32640 entries, a block has
eight.

The last section is what these two gaps cost.  After four successful writes, a fresh open and
load gives back what was in memory exactly when the free list has at most 102 extents, every
inode from index 8 on is zero, and the two addresses are 4 and 2, as `mkfs` writes them, or lead to
blocks that hold the journal and the eight inodes anyway (`BlockAt`).
-/
import AetherFs.Image.Volume

namespace AetherFs

open Lib

/-! ## 1. The writers -/

section Writers

variable {δ : Type} [BlockDev δ]

/-- `aetherfs_image_write_super`. -/
def imageWriteSuper : EStateM Fail (Image δ) Unit := fun img =>
  let img := { img with super := sealAt img.super 44 }
  imageWriteBlock superblockBlock (overlay (zeros 4096) 0 img.super) img

/-- `aetherfs_image_write_journal`. -/
def imageWriteJournal : EStateM Fail (Image δ) Unit := fun img =>
  let img := { img with journal := sealJournal img.journal }
  imageWriteBlock journalBlock (overlay (zeros 4096) 0 img.journal) img

/-- The first 4096 bytes of the inode table: as many inodes as fit. -/
def inodeTableBlock (table : Nat → Inode) : Block :=
  fun i => byteAt (table (i.val / 512)) (i.val % 512)

/-- `aetherfs_image_write_inode_table`. -/
def imageWriteInodeTable : EStateM Fail (Image δ) Unit := fun img =>
  imageWriteBlock rootInodeBlock (inodeTableBlock img.inodeTable) img

/-- `aetherfs_image_write_free_extents`. -/
def imageWriteFreeExtents : EStateM Fail (Image δ) Unit := fun img =>
  let img := { img with freeExtents := sealAt img.freeExtents 12 }
  imageWriteBlock freeExtentBlock img.freeExtents img

/-- The four of them. -/
def writeMetadata : EStateM Fail (Image δ) Unit := do
  imageWriteSuper
  imageWriteJournal
  imageWriteInodeTable
  imageWriteFreeExtents

end Writers

theorem eq_inodeTableBlock_iff {table : Nat → Inode} {block : Block} :
    block = inodeTableBlock table ↔ ∀ i, i < 8 → slice block (512 * i) 512 = table i := by
  have hbyte : ∀ k, k < 4096 →
      byteAt (inodeTableBlock table) k = byteAt (table (k / 512)) (k % 512) := fun k hk => by
    rw [byteAt_lt _ hk, inodeTableBlock]
  constructor
  · rintro rfl i hi
    refine bytes_ext fun j hj => ?_
    rw [byteAt_slice _ hj, hbyte _ (by omega), show (512 * i + j) / 512 = i by omega,
      show (512 * i + j) % 512 = j by omega]
  · intro h
    refine bytes_ext fun k hk => ?_
    rw [hbyte k hk, ← h (k / 512) (by omega), byteAt_slice _ (Nat.mod_lt _ (by norm_num)),
      Nat.div_add_mod]

/-! ## 2. What they leave in the file -/

section Effect

variable {img img' : Image ByteFile}

/-- `img'` is `img` with block `b` of its file replaced. -/
def Rewrote (img img' : Image ByteFile) (b : Nat) (buf : Block) : Prop :=
  ∃ f', f'.kind = (img.members 0).dev.kind ∧
    f'.size = max (img.members 0).dev.size (b * 4096 + 4096) ∧
    f'.blocksOf = Function.update (img.members 0).dev.blocksOf b buf ∧ img' = img.setDev 0 f'

/-- The step: a bootstrap block is written. -/
theorem boot_write_ok {b : Nat} {buf : Block} (h : imageWriteBlock b buf img = .ok () img')
    (hb : b < 8) (hc : img.memberCount = 1) : Rewrote img img' b buf := by
  obtain ⟨f', hw, rfl⟩ := single_write_ok hc (by omega) (Or.inl hb) h
  rw [Nat.mod_eq_of_lt (by omega)] at hw
  obtain ⟨hk, hs, hblocks⟩ := ByteFile.writeAll_blocks hw
  exact ⟨f', hk, hs, hblocks, rfl⟩

theorem imageWriteSuper_ok (h : imageWriteSuper img = .ok () img') (hc : img.memberCount = 1) :
    Rewrote { img with super := sealAt img.super 44 } img' 1
      (overlay (zeros 4096) 0 (sealAt img.super 44)) :=
  boot_write_ok (b := 1) h (by norm_num) hc

theorem imageWriteJournal_ok (h : imageWriteJournal img = .ok () img') (hc : img.memberCount = 1) :
    Rewrote { img with journal := sealJournal img.journal } img' 4
      (overlay (zeros 4096) 0 (sealJournal img.journal)) :=
  boot_write_ok (b := 4) h (by norm_num) hc

theorem imageWriteInodeTable_ok (h : imageWriteInodeTable img = .ok () img')
    (hc : img.memberCount = 1) : Rewrote img img' 2 (inodeTableBlock img.inodeTable) :=
  boot_write_ok (b := 2) h (by norm_num) hc

theorem imageWriteFreeExtents_ok (h : imageWriteFreeExtents img = .ok () img')
    (hc : img.memberCount = 1) : Rewrote { img with freeExtents := sealAt img.freeExtents 12 } img' 6
      (sealAt img.freeExtents 12) :=
  boot_write_ok (b := 6) h (by norm_num) hc

/-- The image in memory after the writers have sealed its records. -/
def Image.sealed (img : Image ByteFile) : Image ByteFile :=
  { img with
    super := sealAt img.super 44
    journal := sealJournal img.journal
    freeExtents := sealAt img.freeExtents 12 }

/-- The blocks of the file after the four writes. -/
def writtenBlocks (img : Image ByteFile) : Nat → Block :=
  Function.update (Function.update (Function.update (Function.update
    (img.members 0).dev.blocksOf 1 (overlay (zeros 4096) 0 (sealAt img.super 44)))
    4 (overlay (zeros 4096) 0 (sealJournal img.journal)))
    2 (inodeTableBlock img.inodeTable))
    6 (sealAt img.freeExtents 12)

/-- **The run**: four blocks of the file are replaced, and three records in memory are sealed. -/
theorem writeMetadata_ok (hc : img.memberCount = 1) (h : writeMetadata img = .ok () img') :
    ∃ f', f'.kind = (img.members 0).dev.kind ∧
      f'.size = max (img.members 0).dev.size 28672 ∧ f'.blocksOf = writtenBlocks img ∧
      img' = img.sealed.setDev 0 f' := by
  obtain ⟨_, s1, h1, h⟩ := estate_bind_ok.mp h
  obtain ⟨_, s2, h2, h⟩ := estate_bind_ok.mp h
  obtain ⟨_, s3, h3, h4⟩ := estate_bind_ok.mp h
  obtain ⟨f1, k1, z1, b1, rfl⟩ := imageWriteSuper_ok h1 hc
  obtain ⟨f2, k2, z2, b2, rfl⟩ := imageWriteJournal_ok h2 hc
  obtain ⟨f3, k3, z3, b3, rfl⟩ := imageWriteInodeTable_ok h3 hc
  obtain ⟨f4, k4, z4, b4, rfl⟩ := imageWriteFreeExtents_ok h4 hc
  simp only [Image.setDev, Function.update_self] at k1 k2 k3 k4 z1 z2 z3 z4 b1 b2 b3 b4
  refine ⟨f4, k4.trans (k3.trans (k2.trans k1)), ?_, ?_, ?_⟩
  · rw [z4, z3, z2, z1]
    omega
  · rw [b4, b3, b2, b1]
    rfl
  · simp only [Image.setDev, Image.sealed, Function.update_self, Function.update_idem]

/-- One regular file, open for writing. -/
structure WritableFile (img : Image ByteFile) : Prop where
  count : img.memberCount = 1
  writable : img.writable = true
  kind : (img.members 0).dev.kind = .regular

theorem Rewrote.writableFile {b : Nat} {buf : Block} (hr : Rewrote img img' b buf)
    (h : WritableFile img) : WritableFile img' := by
  obtain ⟨f', hk, -, -, rfl⟩ := hr
  refine ⟨h.count, h.writable, ?_⟩
  rw [setDev_dev]
  exact hk.trans h.kind

theorem boot_write_total (h : WritableFile img) {b : Nat} (hb : b < 8) (buf : Block) :
    ∃ img', imageWriteBlock b buf img = .ok () img' := by
  obtain ⟨f', hw⟩ := ByteFile.writeAll_total h.kind (o := b * 4096) (by omega) buf
  refine ⟨img.setDev 0 f', ?_⟩
  rw [single_write h.count h.writable (by omega) (Or.inl hb), imageWritePhysicalMember,
    if_neg (by rw [h.count]; norm_num), ByteFile.write_def, ByteFile.offsetOf_of_lt (by omega), hw]

theorem imageWriteSuper_total (h : WritableFile img) :
    ∃ img', imageWriteSuper img = .ok () img' ∧ WritableFile img' := by
  have h' : WritableFile { img with super := sealAt img.super 44 } :=
    ⟨h.count, h.writable, h.kind⟩
  obtain ⟨img', hw⟩ : ∃ img', imageWriteSuper img = .ok () img' :=
    boot_write_total (b := 1) h' (by norm_num) _
  exact ⟨img', hw, (imageWriteSuper_ok hw h.count).writableFile h'⟩

theorem imageWriteJournal_total (h : WritableFile img) :
    ∃ img', imageWriteJournal img = .ok () img' ∧ WritableFile img' := by
  have h' : WritableFile { img with journal := sealJournal img.journal } :=
    ⟨h.count, h.writable, h.kind⟩
  obtain ⟨img', hw⟩ : ∃ img', imageWriteJournal img = .ok () img' :=
    boot_write_total (b := 4) h' (by norm_num) _
  exact ⟨img', hw, (imageWriteJournal_ok hw h.count).writableFile h'⟩

theorem imageWriteInodeTable_total (h : WritableFile img) :
    ∃ img', imageWriteInodeTable img = .ok () img' ∧ WritableFile img' := by
  obtain ⟨img', hw⟩ : ∃ img', imageWriteInodeTable img = .ok () img' :=
    boot_write_total (b := 2) h (by norm_num) _
  exact ⟨img', hw, (imageWriteInodeTable_ok hw h.count).writableFile h⟩

theorem imageWriteFreeExtents_total (h : WritableFile img) :
    ∃ img', imageWriteFreeExtents img = .ok () img' ∧ WritableFile img' := by
  have h' : WritableFile { img with freeExtents := sealAt img.freeExtents 12 } :=
    ⟨h.count, h.writable, h.kind⟩
  obtain ⟨img', hw⟩ : ∃ img', imageWriteFreeExtents img = .ok () img' :=
    boot_write_total (b := 6) h' (by norm_num) _
  exact ⟨img', hw, (imageWriteFreeExtents_ok hw h.count).writableFile h'⟩

theorem writeMetadata_total (h : WritableFile img) : ∃ img', writeMetadata img = .ok () img' := by
  obtain ⟨s1, w1, h1⟩ := imageWriteSuper_total h
  obtain ⟨s2, w2, h2⟩ := imageWriteJournal_total h1
  obtain ⟨s3, w3, h3⟩ := imageWriteInodeTable_total h2
  obtain ⟨s4, w4, -⟩ := imageWriteFreeExtents_total h3
  exact ⟨s4, estate_bind_ok.mpr ⟨(), s1, w1, estate_bind_ok.mpr ⟨(), s2, w2,
    estate_bind_ok.mpr ⟨(), s3, w3, w4⟩⟩⟩⟩

end Effect

/-! ## 3. Opening the file again -/

section Again

variable {f f' : ByteFile} {writable writable' : Bool} {beyond beyond' : Nat → UInt8}

theorem labelOf_congr (h0 : f'.blocksOf 0 = f.blocksOf 0) : labelOf f' = labelOf f := by
  simp only [ByteFile.blocksOf, Nat.zero_mul] at h0
  rw [labelOf, labelOf, h0]

theorem openedFile_poolLabel_congr (hs : f'.size = f.size) (h0 : f'.blocksOf 0 = f.blocksOf 0) :
    (openedFile f' writable' beyond').poolLabel = (openedFile f writable beyond).poolLabel := by
  simp only [openedFile, openedImage_poolLabel, labelOf_congr h0, hs]

theorem imageOpen_congr {img0 : Image ByteFile} (hopen : imageOpen f writable beyond = .ok img0)
    (hk : f'.kind ≠ .other) (hs : f'.size = f.size) (h0 : f'.blocksOf 0 = f.blocksOf 0) :
    imageOpen f' writable' beyond' = .ok (openedFile f' writable' beyond') := by
  obtain ⟨-, hsize, hlabel, -⟩ := imageOpen_iff.mp hopen
  refine imageOpen_iff.mpr ⟨hk, hs ▸ hsize, ?_, rfl⟩
  rw [labelOf_congr h0]
  exact hlabel

/-- The same blocks can be read, with what the new file has there. -/
theorem openedFile_read_congr (hs : f'.size = f.size) (h0 : f'.blocksOf 0 = f.blocksOf 0) {b : Nat}
    (hb : b < 2 ^ 64) {x : Block} :
    imageReadBlock (openedFile f' writable' beyond') b = .ok x ↔
      (∃ y, imageReadBlock (openedFile f writable beyond) b = .ok y) ∧
        x = f'.blocksOf (b % 2 ^ 52) := by
  have hserved : Served (openedFile f' writable' beyond') b
      ↔ Served (openedFile f writable beyond) b := by
    refine served_congr (openedFile_poolLabel_congr hs h0) fun _ => ?_
    change f'.size / 4096 = f.size / 4096
    rw [hs]
  have hdev : ((openedFile f' writable' beyond').members 0).dev = f' := rfl
  have hdev' : ((openedFile f writable beyond).members 0).dev = f := rfl
  rw [single_read_file rfl hb, hserved, hdev, hs]
  constructor
  · rintro ⟨hserv, hin, hx⟩
    exact ⟨⟨_, (single_read_file rfl hb).mpr ⟨hserv, hin, rfl⟩⟩, hx⟩
  · rintro ⟨⟨y, hy⟩, hx⟩
    obtain ⟨hserv, hin, -⟩ := (single_read_file rfl hb).mp hy
    exact ⟨hserv, hdev' ▸ hin, hx⟩

end Again

/-! ## 4. Round trip -/

section RoundTrip

/-- The change in memory: a free count, a journal, a table and a free list. -/
def Image.changed {δ : Type} (img : Image δ) (free : Nat) (journal : IntentLog)
    (table : Nat → Inode) (extents : ExtentNode) : Image δ :=
  { img with
    super := put64 img.super 20 free
    journal := journal
    inodeTable := table
    freeExtents := extents }

/-- Two images with the same superblock, journal, free list and inodes. -/
structure SameMetadata {δ : Type} (a b : Image δ) : Prop where
  super : a.super = b.super
  journal : a.journal = b.journal
  freeExtents : a.freeExtents = b.freeExtents
  inodes : ∀ i, i < maxInodes → a.inodeTable i = b.inodeTable i

variable {f : ByteFile} {writable : Bool} {beyond beyond' : Nat → UInt8}
  {img0 img img' : Image ByteFile} {free : Nat} {journal : IntentLog} {table : Nat → Inode}
  {extents : ExtentNode}

theorem loaded_size (hopen : imageOpen f writable beyond = .ok img0)
    (hload : imageLoad img0 = .ok img) : 32768 ≤ f.size := by
  obtain ⟨-, -, -, rfl⟩ := imageOpen_iff.mp hopen
  have hl := imageLoad_iff.mp hload
  have h7 := hl.readRoot
  rw [(boot_places hl.superOk hl.rootOk).1] at h7
  have hin := ((single_read_file rfl (by norm_num)).mp h7).2.1
  exact hin

theorem writeMetadata_file (hopen : imageOpen f true beyond = .ok img0)
    (hload : imageLoad img0 = .ok img)
    (hwrite : writeMetadata (img.changed free journal table extents) = .ok () img') :
    ∃ f', f'.kind = f.kind ∧ f'.size = f.size ∧
      f'.blocksOf = writtenBlocks (img.changed free journal table extents) ∧
      img' = (img.changed free journal table extents).sealed.setDev 0 f' := by
  obtain ⟨hc, hm, -, -⟩ := loaded_file hopen hload
  have hsize := loaded_size hopen hload
  have hc' : (img.changed free journal table extents).memberCount = 1 := hc
  have hdev : ((img.changed free journal table extents).members 0).dev = f := by
    rw [Image.changed, hm 0, fileMember]
  obtain ⟨f', hk, hs, hblocks, himg⟩ := writeMetadata_ok hc' hwrite
  rw [hdev] at hk hs
  refine ⟨f', hk, ?_, hblocks, himg⟩
  rw [hs]
  exact Nat.max_eq_left (Nat.le_trans (by norm_num) hsize)

/-- `P` of the block at an address: one of the four that are written, or one from before. -/
def BlockAt (img : Image ByteFile) (address : Nat) (P : Block → Prop) : Prop :=
  (address = 1 ∧ P (overlay (zeros 4096) 0 (sealAt img.super 44))) ∨
  (address = 2 ∧ P (inodeTableBlock img.inodeTable)) ∨
  (address = 4 ∧ P (overlay (zeros 4096) 0 (sealJournal img.journal))) ∨
  (address = 6 ∧ P (sealAt img.freeExtents 12)) ∨
  (address ∉ [1, 2, 4, 6] ∧ P ((img.members 0).dev.blocksOf address))

/-- The conditions, on the change, the two addresses and the blocks there. -/
structure ReadsBack (img : Image ByteFile) (journalAddr rootInode : Nat) : Prop where
  count : enCount img.freeExtents ≤ 102
  tail : ∀ i, 8 ≤ i → i < maxInodes → img.inodeTable i = zeros 512
  journal : journalAddr % 2 ^ 52 = 4 ∨
    BlockAt img (journalAddr % 2 ^ 52) fun b => slice b 0 48 = sealJournal img.journal
  inodes : rootInode % 2 ^ 52 = 2 ∨
    BlockAt img (rootInode % 2 ^ 52) fun b => b = inodeTableBlock img.inodeTable

theorem writtenBlocks_iff (img : Image ByteFile) (address : Nat) (P : Block → Prop) :
    P (writtenBlocks img address) ↔ BlockAt img address P := by
  simp only [writtenBlocks, BlockAt, Function.update_apply]
  by_cases h6 : address = 6
  · simp [h6]
  by_cases h2 : address = 2
  · simp [h2]
  by_cases h4 : address = 4
  · simp [h4]
  by_cases h1 : address = 1
  · simp [h1]
  · simp [h1, h2, h4, h6]

theorem journal_written_iff (img : Image ByteFile) (address : Nat) :
    slice (writtenBlocks img address) 0 48 = sealJournal img.journal ↔
      address = 4 ∨ BlockAt img address fun b => slice b 0 48 = sealJournal img.journal := by
  rw [← writtenBlocks_iff img address fun b => slice b 0 48 = sealJournal img.journal]
  refine ⟨Or.inr, ?_⟩
  rintro (rfl | h)
  · exact slice_overlay_self _ _ _ (by norm_num)
  · exact h

theorem inodes_written_iff (img : Image ByteFile) (address : Nat) :
    writtenBlocks img address = inodeTableBlock img.inodeTable ↔
      address = 2 ∨ BlockAt img address fun b => b = inodeTableBlock img.inodeTable := by
  rw [← writtenBlocks_iff img address fun b => b = inodeTableBlock img.inodeTable]
  refine ⟨Or.inr, ?_⟩
  rintro (rfl | h)
  · rfl
  · exact h

section Reload

variable {f' : ByteFile}

theorem written_kept (hopen : imageOpen f true beyond = .ok img0) (hload : imageLoad img0 = .ok img)
    (hblocks : f'.blocksOf = writtenBlocks (img.changed free journal table extents)) {k : Nat}
    (h1 : k ≠ 1) (h2 : k ≠ 2) (h4 : k ≠ 4) (h6 : k ≠ 6) : f'.blocksOf k = f.blocksOf k := by
  have hfile : (img.changed free journal table extents).members 0 = fileMember f :=
    (loaded_file hopen hload).2.1 0
  rw [hblocks, writtenBlocks, Function.update_of_ne h6, Function.update_of_ne h2,
    Function.update_of_ne h4, Function.update_of_ne h1, hfile, fileMember]

/-- A load that gives back the metadata has read it where the superblock says. -/
theorem readsBack_of_load {fresh : Image ByteFile}
    (hblocks : f'.blocksOf = writtenBlocks (img.changed free journal table extents))
    (hload' : imageLoad (openedFile f' writable beyond') = .ok fresh)
    (hsame : SameMetadata fresh ((img.changed free journal table extents).sealed.setDev 0 f')) :
    ReadsBack (img.changed free journal table extents) (sJournalAddr img.super)
      (sRootInode img.super) := by
  have same := setFreeBlocks_differs img.super free
  have hl' := imageLoad_iff.mp hload'
  obtain ⟨-, hj, -, -, hi, -⟩ := boot_places hl'.superOk hl'.rootOk
  have hsuper : fresh.super = setFreeBlocks img.super free := hsame.super
  rw [hsuper] at hj hi
  have hj' : crJournalBlock fresh.checkpointRoot = sJournalAddr img.super :=
    hj.trans (same 136 8 (by decide))
  have hi' : crRootInodeBlock fresh.checkpointRoot = sRootInode img.super :=
    hi.trans (same 144 8 (by decide))
  obtain ⟨jb, hjb, hjournal⟩ := hl'.readJournal
  obtain ⟨ib, hib, htable⟩ := hl'.readTable
  obtain ⟨-, -, hcount⟩ := readExtentNode_iff.mp hl'.readFree
  have haddr : sJournalAddr img.super < 2 ^ 64 ∧ sRootInode img.super < 2 ^ 64 :=
    ⟨le64_lt _ _, le64_lt _ _⟩
  rw [hj'] at hjb
  rw [hi'] at hib
  have hjb' : jb = f'.blocksOf (sJournalAddr img.super % 2 ^ 52) :=
    ((single_read_file rfl haddr.1).mp hjb).2.2
  have hib' : ib = f'.blocksOf (sRootInode img.super % 2 ^ 52) :=
    ((single_read_file rfl haddr.2).mp hib).2.2
  have hinode : ∀ i, i < maxInodes → fresh.inodeTable i = table i := hsame.inodes
  refine ⟨?_, fun i h8 hi => ?_, ?_, ?_⟩
  · have hfree : fresh.freeExtents = sealAt extents 12 := hsame.freeExtents
    rw [hfree, enCount, le32, getLE_sealAt _ _ _ _ (by norm_num)] at hcount
    exact hcount
  · have := hinode i hi
    rw [htable, tableOf, if_neg (by omega)] at this
    exact this.symm
  · have hjournal' : fresh.journal = sealJournal journal := hsame.journal
    rw [← journal_written_iff, ← hblocks, ← hjb', ← hjournal, hjournal']
    rfl
  · rw [← inodes_written_iff, ← hblocks, ← hib']
    refine eq_inodeTableBlock_iff.mpr fun i hi => ?_
    have := hinode i (Nat.lt_trans hi (by norm_num))
    rw [htable, tableOf, if_pos hi] at this
    exact this

/-- The image a load hands out when the file holds the metadata of `img`. -/
def Image.reloaded (img : Image ByteFile) (f' : ByteFile) (writable : Bool)
    (beyond : Nat → UInt8) : Image ByteFile :=
  { openedFile f' writable beyond with
    blocks := sBlocksCount img.super
    super := img.super
    checkpointRoot := img.checkpointRoot
    journal := img.journal
    inodeBitmap := img.inodeBitmap
    freeExtents := img.freeExtents
    inodeTable := tableOf (inodeTableBlock img.inodeTable) fun _ => zeros 512
    rootDir := img.rootDir }

/-- The superblock and the checkpoint root pass again: only the free count has changed. -/
theorem reloaded_valid {img0 : Image ByteFile} (hl : Loads img0 img)
    (hlabel : (openedFile f' writable beyond').poolLabel = img.poolLabel)
    (hcount : img.memberCount = 1) :
    imageValidateSuper ((img.changed free journal table extents).sealed.reloaded f' writable
        beyond') = .ok () ∧
      imageValidateCheckpointRoot ((img.changed free journal table extents).sealed.reloaded f'
        writable beyond') = .ok () := by
  have same := setFreeBlocks_differs img.super free
  obtain ⟨-, hj, -, -, hi, -⟩ := boot_places hl.superOk hl.rootOk
  refine ⟨imageValidateSuper_of_differs hl.superOk hlabel hcount.symm (super_sealed _)
    (same.mono (by decide)), imageValidateCheckpointRoot_of_differs hl.rootOk
      ((same 12 8 (by decide)).trans hl.kept.2.2.2.symm) ?_ (same.mono (by decide)) (.refl _ _)
      (hi.trans (same 144 8 (by decide)).symm) (hj.trans (same 136 8 (by decide)).symm)⟩
  have hroot := hl.rootOk
  simp only [imageValidateCheckpointRoot, failIf_bind_ok, not_not] at hroot
  exact hroot.2.2.1

/-- And where the two addresses lead to what was written, there is such a load: it does not mind
that the table in memory was longer. -/
theorem load_of_written (hopen : imageOpen f true beyond = .ok img0)
    (hload : imageLoad img0 = .ok img) (hs : f'.size = f.size)
    (hblocks : f'.blocksOf = writtenBlocks (img.changed free journal table extents))
    (hcount : enCount extents ≤ 102)
    (hlog : sJournalAddr img.super % 2 ^ 52 = 4 ∨ BlockAt (img.changed free journal table extents)
      (sJournalAddr img.super % 2 ^ 52) fun b => slice b 0 48 = sealJournal journal)
    (hino : sRootInode img.super % 2 ^ 52 = 2 ∨ BlockAt (img.changed free journal table extents)
      (sRootInode img.super % 2 ^ 52) fun b => b = inodeTableBlock table) :
    imageLoad (openedFile f' writable beyond')
      = .ok ((img.changed free journal table extents).sealed.reloaded f' writable beyond') := by
  have hlog := (journal_written_iff (img.changed free journal table extents) _).mpr hlog
  have hino := (inodes_written_iff (img.changed free journal table extents) _).mpr hino
  have hkept := @written_kept _ _ _ _ _ _ _ _ _ hopen hload hblocks
  have h0 := @hkept 0 (by decide) (by decide) (by decide) (by decide)
  obtain ⟨-, -, -, rfl⟩ := imageOpen_iff.mp hopen
  have hl := imageLoad_iff.mp hload
  obtain ⟨h7, hj, h5, h6, hi, h3, -⟩ := boot_places hl.superOk hl.rootOk
  obtain ⟨klabel, kcount, -⟩ := hl.kept
  have same := setFreeBlocks_differs img.super free
  have hread : ∀ {b y}, b < 2 ^ 64 → imageReadBlock (openedFile f true beyond) b = .ok y →
      imageReadBlock (openedFile f' writable beyond') b = .ok (f'.blocksOf (b % 2 ^ 52)) :=
    fun hb hy => (openedFile_read_congr hs h0 hb).mpr ⟨⟨_, hy⟩, rfl⟩
  have hunread : ∀ {b x} (k : Nat), b = k → k = 3 ∨ k = 5 ∨ k = 7 →
      imageReadBlock (openedFile f true beyond) b = .ok x →
      imageReadBlock (openedFile f' writable beyond') b = .ok x := by
    rintro b x k rfl hk hx
    rw [hread (by omega) hx, Nat.mod_eq_of_lt (by omega), hkept (by omega) (by omega) (by omega)
      (by omega)]
    obtain ⟨-, -, rfl⟩ := (single_read_file rfl (by omega)).mp hx
    rw [Nat.mod_eq_of_lt (by omega)]
    rfl
  obtain ⟨_, hb1, -⟩ := hl.readSuper
  obtain ⟨_, hbj, -⟩ := hl.readJournal
  obtain ⟨_, hbi, -⟩ := hl.readTable
  obtain ⟨hb6, -, -⟩ := readExtentNode_iff.mp hl.readFree
  have hlabel : (openedFile f' writable beyond').poolLabel = img.poolLabel :=
    (openedFile_poolLabel_congr hs h0).trans klabel.symm
  obtain ⟨hsuperOk, hrootOk⟩ := reloaded_valid hl hlabel kcount
  have hsuper : imageReadBlock (openedFile f' writable beyond') superblockBlock
      = .ok (overlay (zeros 4096) 0 (setFreeBlocks img.super free)) := by
    rw [hread (by norm_num) hb1, hblocks]
    rfl
  have hroot : imageReadBlock (openedFile f' writable beyond')
      (sCheckpoint0 (setFreeBlocks img.super free)) = .ok img.checkpointRoot := by
    have h72 : sCheckpoint0 (setFreeBlocks img.super free) = sCheckpoint0 img.super :=
      same 72 8 (by decide)
    rw [h72]
    exact hunread 7 h7 (by simp) hl.readRoot
  have hjournal : imageReadBlock (openedFile f' writable beyond') (crJournalBlock img.checkpointRoot)
      = .ok (writtenBlocks (img.changed free journal table extents)
        (sJournalAddr img.super % 2 ^ 52)) := by
    rw [← hblocks, ← hj]
    exact hread (le64_lt _ _) hbj
  have hfree : imageReadBlock (openedFile f' writable beyond') (crFreeSpaceRoot img.checkpointRoot)
      = .ok (sealAt extents 12) := by
    rw [h6] at hb6 ⊢
    rw [hread (by norm_num) hb6, hblocks]
    rfl
  have hinodes : imageReadBlock (openedFile f' writable beyond')
      (crRootInodeBlock img.checkpointRoot) = .ok (inodeTableBlock table) := by
    rw [hi, hread (hi ▸ le64_lt _ _) (hi ▸ hbi), hblocks]
    exact congrArg _ hino
  have hcount' : enCount (sealAt extents 12) ≤ 102 := by
    rw [enCount, le32, getLE_sealAt _ _ _ _ (by norm_num)]
    exact hcount
  exact imageLoad_iff.mpr ⟨rfl, ⟨_, hsuper, (slice_overlay_self _ _ _ (by norm_num)).symm⟩,
    hsuperOk, hroot, hrootOk, ⟨_, hjournal, hlog.symm⟩, ilChecksum_sealJournal _,
    hunread 5 h5 (by simp) hl.readBitmap, hl.bitmapOk,
    readExtentNode_iff.mpr ⟨hfree, extentNode_sealed _, hcount'⟩, ⟨_, hinodes, rfl⟩,
    hunread 3 h3 (by simp) hl.readDir⟩

end Reload

theorem oneFile_writable : ∃ f : ByteFile, ∃ img0 img : Image ByteFile,
    imageOpen f true (fun _ => 0) = .ok img0 ∧ imageLoad img0 = .ok img ∧ WritableFile img ∧
    sRootInode img.super = 2 ∧ sJournalAddr img.super = 4 ∧ enCount img.freeExtents ≤ 102 ∧
    ∀ i, 8 ≤ i → img.inodeTable i = zeros 512 := by
  obtain ⟨hopen, hload, ⟨hi, hj⟩, -⟩ := oneFile_validates (n := 16) (m := 1) true (fun _ => 0)
    (fun _ => zeros 4096) (by norm_num) (by norm_num) (by decide)
  have hl := imageLoad_iff.mp hload
  obtain ⟨-, -, hcount⟩ := readExtentNode_iff.mp hl.readFree
  obtain ⟨b, -, htable⟩ := hl.readTable
  refine ⟨_, _, _, hopen, hload, ⟨rfl, rfl, rfl⟩, hi, hj, hcount, fun i hi => ?_⟩
  rw [htable, tableOf, if_neg (by omega)]
  rfl

/-- **Writing the metadata and loading it back.** -/
theorem metadata_round_trip_iff (hopen : imageOpen f true beyond = .ok img0)
    (hload : imageLoad img0 = .ok img)
    (hwrite : writeMetadata (img.changed free journal table extents) = .ok () img') :
    (∃ fresh0 fresh, imageOpen (img'.members 0).dev writable beyond' = .ok fresh0 ∧
      imageLoad fresh0 = .ok fresh ∧ SameMetadata fresh img') ↔
    ReadsBack (img.changed free journal table extents) (sJournalAddr img.super)
      (sRootInode img.super) := by
  obtain ⟨f', hk, hs, hblocks, rfl⟩ := writeMetadata_file hopen hload hwrite
  have h0 := written_kept hopen hload hblocks (k := 0) (by decide) (by decide) (by decide)
    (by decide)
  rw [setDev_dev]
  constructor
  · rintro ⟨fresh0, fresh, hopen', hload', hsame⟩
    obtain ⟨-, -, -, rfl⟩ := imageOpen_iff.mp hopen'
    exact readsBack_of_load hblocks hload' hsame
  · intro h
    refine ⟨_, _, imageOpen_congr hopen (hk ▸ (imageOpen_iff.mp hopen).1) hs h0,
      load_of_written hopen hload hs hblocks h.count h.journal h.inodes, rfl, rfl, rfl, fun i hi => ?_⟩
    change tableOf (inodeTableBlock table) (fun _ => zeros 512) i = table i
    rw [tableOf]
    split
    · exact eq_inodeTableBlock_iff.mp rfl i ‹_›
    · exact (h.tail i (by omega) hi).symm

/-- Writing back what was loaded, with another free count, is read back. -/
theorem oneFile_round_trip : ∃ img img' fresh0 fresh : Image ByteFile,
    writeMetadata (img.changed 7 img.journal img.inodeTable img.freeExtents) = .ok () img' ∧
    imageOpen (img'.members 0).dev false (fun _ => 0) = .ok fresh0 ∧
    imageLoad fresh0 = .ok fresh ∧ SameMetadata fresh img' := by
  obtain ⟨f, img0, img, hopen, hload, hw, hi, hj, hcount, htail⟩ := oneFile_writable
  have hw' : WritableFile (img.changed 7 img.journal img.inodeTable img.freeExtents) :=
    ⟨hw.count, hw.writable, hw.kind⟩
  obtain ⟨img', hwrite⟩ := writeMetadata_total hw'
  have hback : ∃ fresh0 fresh, imageOpen (img'.members 0).dev false (fun _ => 0) = .ok fresh0 ∧
      imageLoad fresh0 = .ok fresh ∧ SameMetadata fresh img' :=
    (metadata_round_trip_iff hopen hload hwrite).mpr
      ⟨hcount, fun i h8 _ => htail i h8, Or.inl (by omega), Or.inl (by omega)⟩
  obtain ⟨fresh0, fresh, h1, h2, h3⟩ := hback
  exact ⟨img, img', fresh0, fresh, hwrite, h1, h2, h3⟩

/-- **Inode 8 does not survive.**  It is written to no block, and the fresh load has zeros. -/
theorem inodeEight_lost : ∃ f : ByteFile, ∃ img0 img img' fresh0 fresh : Image ByteFile,
    imageOpen f true (fun _ => 0) = .ok img0 ∧ imageLoad img0 = .ok img ∧
    writeMetadata (img.changed (sFreeBlocks img.super) img.journal
      (Function.update img.inodeTable 8 (fileInode 1 9)) img.freeExtents) = .ok () img' ∧
    imageOpen (img'.members 0).dev true (fun _ => 0) = .ok fresh0 ∧
    imageLoad fresh0 = .ok fresh ∧ iMode (img'.inodeTable 8) = 0o100644 ∧
    fresh.inodeTable 8 = zeros 512 ∧ ¬ SameMetadata fresh img' := by
  obtain ⟨f, img0, img, hopen, hload, hw, hi, hj, hcount, -⟩ := oneFile_writable
  have hw' : WritableFile (img.changed (sFreeBlocks img.super) img.journal
      (Function.update img.inodeTable 8 (fileInode 1 9)) img.freeExtents) :=
    ⟨hw.count, hw.writable, hw.kind⟩
  obtain ⟨img', hwrite⟩ := writeMetadata_total hw'
  obtain ⟨f', hk, hs, hblocks, rfl⟩ := writeMetadata_file hopen hload hwrite
  have h0 := written_kept hopen hload hblocks (k := 0) (by decide) (by decide) (by decide)
    (by decide)
  have hmode : iMode (Function.update img.inodeTable 8 (fileInode 1 9) 8) = 0o100644 := by
    rw [Function.update_self]
    exact (@fileInode_fields 1 9 (by norm_num) (by norm_num)).1
  have hload' : imageLoad (openedFile f' true fun _ => 0) = .ok _ :=
    load_of_written hopen hload hs hblocks hcount (Or.inl (by omega)) (Or.inl (by omega))
  refine ⟨f, img0, img, _, _, _, hopen, hload, hwrite, ?_, hload', hmode, rfl, fun hsame => ?_⟩
  · rw [setDev_dev]
    exact imageOpen_congr hopen (hk ▸ (imageOpen_iff.mp hopen).1) hs h0
  · have hzero : zeros 512 = Function.update img.inodeTable 8 (fileInode 1 9) 8 :=
      hsame.inodes 8 (by norm_num)
    rw [← hzero, iMode, le16, getLE_zeros] at hmode
    exact absurd hmode (by norm_num)

end RoundTrip

end AetherFs
