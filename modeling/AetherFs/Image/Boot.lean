/-
# The seven metadata blocks

The format fixes where the metadata is: superblock in block 1, inodes in 2, root directory in 3,
journal in 4, inode bitmap in 5, free extents in 6, checkpoint root in 7.  The loader reads four
of those places out of the blocks themselves and checks them against constants, except that the
inode block and the journal are wherever the superblock says.  With the values `mkfs` writes
there, a load is a function of seven blocks: `loadedImage img boot`, accepted exactly when
`BootOk` (`imageLoad_boot`).

`plainFile_open` is the other half, for a file with nothing in block 0: the open synthesises a
label, and from then on reading block `k` is reading block `k` of the file.
-/
import AetherFs.Image.Validate

namespace AetherFs

open Lib

section Boot

variable {δ : Type}

/-! ## 1. Loading from seven blocks -/

/-- The image with the metadata of `boot`. -/
def loadedImage (img : Image δ) (boot : Nat → Block) : Image δ :=
  { img with
    blocks := sBlocksCount (slice (boot 1) 0 256)
    super := slice (boot 1) 0 256
    checkpointRoot := boot 7
    journal := slice (boot 4) 0 48
    inodeBitmap := boot 5
    freeExtents := boot 6
    inodeTable := tableOf (boot 2) img.inodeTable
    rootDir := boot 3 }

section Loaded

variable (img : Image δ) (boot : Nat → Block)

theorem loadedImage_blocks :
    (loadedImage img boot).blocks = sBlocksCount (slice (boot 1) 0 256) := rfl

theorem loadedImage_super : (loadedImage img boot).super = slice (boot 1) 0 256 := rfl

theorem loadedImage_journal : (loadedImage img boot).journal = slice (boot 4) 0 48 := rfl

theorem loadedImage_checkpointRoot : (loadedImage img boot).checkpointRoot = boot 7 := rfl

theorem loadedImage_inodeBitmap : (loadedImage img boot).inodeBitmap = boot 5 := rfl

theorem loadedImage_freeExtents : (loadedImage img boot).freeExtents = boot 6 := rfl

theorem loadedImage_rootDir : (loadedImage img boot).rootDir = boot 3 := rfl

theorem loadedImage_memberCount : (loadedImage img boot).memberCount = img.memberCount := by
  rw [loadedImage]

theorem loadedImage_poolLabel : (loadedImage img boot).poolLabel = img.poolLabel := by
  rw [loadedImage]

theorem loadedImage_members : (loadedImage img boot).members = img.members := by
  rw [loadedImage]

theorem loadedImage_poolProfile : poolProfile (loadedImage img boot) = poolProfile img := by
  rw [poolProfile, loadedImage_poolLabel, poolProfile]

end Loaded

/-- The checks of the loader, over the seven blocks. -/
structure BootOk (img : Image δ) (boot : Nat → Block) : Prop where
  superOk : imageValidateSuper (loadedImage img boot) = .ok ()
  rootInode : sRootInode (slice (boot 1) 0 256) = 2
  journalAddr : sJournalAddr (slice (boot 1) 0 256) = 4
  rootOk : imageValidateCheckpointRoot (loadedImage img boot) = .ok ()
  journalOk : ilChecksum (slice (boot 4) 0 48) = journalChecksum (slice (boot 4) 0 48)
  bitmapOk : imageValidateBitmap (boot 5) maxInodes = .ok ()
  freeSum : enChecksum (boot 6) = extentNodeChecksum (boot 6)
  freeCount : enCount (boot 6) ≤ 102

/-- Of the image they see the label and the number of members. -/
theorem BootOk.congr {img img' : Image δ} {boot : Nat → Block} (h : BootOk img boot)
    (hl : img'.poolLabel = img.poolLabel) (hc : img'.memberCount = img.memberCount) :
    BootOk img' boot := by
  refine ⟨?_, h.rootInode, h.journalAddr, ?_, h.journalOk, h.bitmapOk, h.freeSum, h.freeCount⟩
  · rw [imageValidateSuper_congr (loadedImage img boot) (loadedImage img' boot) rfl hl hc]
    exact h.superOk
  · rw [imageValidateCheckpointRoot_congr (loadedImage img boot) (loadedImage img' boot) rfl rfl rfl]
    exact h.rootOk

/-- What the super and checkpoint checks fix: the places of the other blocks, and the size. -/
theorem boot_places {img : Image δ} (hs : imageValidateSuper img = .ok ())
    (hr : imageValidateCheckpointRoot img = .ok ()) :
    sCheckpoint0 img.super = 7 ∧ crJournalBlock img.checkpointRoot = sJournalAddr img.super ∧
      crInodeBitmapBlock img.checkpointRoot = 5 ∧ crFreeSpaceRoot img.checkpointRoot = 6 ∧
      crRootInodeBlock img.checkpointRoot = sRootInode img.super ∧
      crRootDirBlock img.checkpointRoot = 3 ∧ 8 ≤ sBlocksCount img.super ∧
      sBlocksCount img.super = plLogicalBlocks img.poolLabel := by
  simp only [imageValidateSuper, failIf_bind_ok, failIf_eq_ok, not_not] at hs
  simp only [imageValidateCheckpointRoot, failIf_bind_ok, not_not] at hr
  obtain ⟨-, -, -, -, h8, hlabel, -, h7, -, hmeta, -, hfree, -⟩ := hs
  obtain ⟨-, -, -, -, -, -, -, hino, hdir, hjrn, hbm, hfs, -⟩ := hr
  refine ⟨h7, hjrn, hbm.trans hmeta, hfs.trans hfree, hino, hdir, ?_, hlabel⟩
  simp only [bootstrapBlocks, dataStartBlock] at h8
  omega

/-! What the two checks compare, they compare field by field, so a record that differs from an
accepted one only in fields they do not read is accepted too.  The fields of the superblock they
leave alone are the free count, the checksum, and the two addresses `s_journal_addr` and
`s_root_inode`, which need only be repeated in the checkpoint root. -/

/-- The fields of the superblock that the checks leave open. -/
def superHoles : List (Nat × Nat) := [(20, 8), (44, 4), (136, 8), (144, 8)]

/-- The fields of the checkpoint root that follow the superblock's two addresses. -/
def rootHoles : List (Nat × Nat) := [(8, 4), (32, 8), (48, 8)]

theorem imageValidateSuper_of_differs {img img' : Image δ} (h : imageValidateSuper img = .ok ())
    (hl : img'.poolLabel = img.poolLabel) (hc : img'.memberCount = img.memberCount)
    (hsum : sChecksum img'.super = superChecksum img'.super)
    (same : DiffersOnly superHoles img'.super img.super) : imageValidateSuper img' = .ok () := by
  simp only [imageValidateSuper, failIf_bind_ok, failIf_eq_ok, not_not] at h ⊢
  obtain ⟨s1, s2, s3, -, s5, s6, s7, s8, s9, s10, s11, s12, s13⟩ := h
  have hcount : sBlocksCount img'.super = sBlocksCount img.super := same 12 8 (by decide)
  rw [hl, hc, hcount]
  exact ⟨(same 0 4 (by decide)).trans s1, (same 4 4 (by decide)).trans s2,
    (same 8 4 (by decide)).trans s3, hsum, s5, s6, (same 36 4 (by decide)).trans s7,
    (same 72 8 (by decide)).trans s8, (same 156 4 (by decide)).trans s9,
    (same 160 8 (by decide)).trans s10, (same 168 8 (by decide)).trans s11,
    (same 176 8 (by decide)).trans s12, (same 184 8 (by decide)).trans s13⟩

theorem imageValidateCheckpointRoot_of_differs {img img' : Image δ}
    (h : imageValidateCheckpointRoot img = .ok ()) (hb : img'.blocks = img.blocks)
    (hsum : crChecksum img'.checkpointRoot = checkpointRootChecksum img'.checkpointRoot)
    (same : DiffersOnly superHoles img'.super img.super)
    (sameRoot : DiffersOnly rootHoles img'.checkpointRoot img.checkpointRoot)
    (hinode : crRootInodeBlock img'.checkpointRoot = sRootInode img'.super)
    (hjournal : crJournalBlock img'.checkpointRoot = sJournalAddr img'.super) :
    imageValidateCheckpointRoot img' = .ok () := by
  simp only [imageValidateCheckpointRoot, failIf_bind_ok, failIf_eq_ok, not_not, not_or] at h ⊢
  obtain ⟨r1, r2, -, r4, r5, r6, r7, -, r9, -, r11, r12, r13, r14, r15, r16, r17, r18, r19, r20,
    r21, r22, r23, r24⟩ := h
  have kept : ∀ {off w v}, (∀ h ∈ rootHoles, off + w ≤ h.1 ∨ h.1 + h.2 ≤ off) →
      getLE (byteAt img.checkpointRoot) off w = v → getLE (byteAt img'.checkpointRoot) off w = v :=
    fun hout hv => (sameRoot _ _ hout).trans hv
  have ofSuper : ∀ {off w off'}, (∀ h ∈ rootHoles, off + w ≤ h.1 ∨ h.1 + h.2 ≤ off) →
      (∀ h ∈ superHoles, off' + w ≤ h.1 ∨ h.1 + h.2 ≤ off') →
      getLE (byteAt img.checkpointRoot) off w = getLE (byteAt img.super) off' w →
      getLE (byteAt img'.checkpointRoot) off w = getLE (byteAt img'.super) off' w :=
    fun hr hs hv => (sameRoot _ _ hr).trans (hv.trans (same _ _ hs).symm)
  rw [hb]
  exact ⟨kept (by decide) r1, kept (by decide) r2, hsum, ofSuper (by decide) (by decide) r4,
    ofSuper (by decide) (by decide) r5, kept (by decide) r6, kept (by decide) r7, hinode,
    kept (by decide) r9, hjournal, ofSuper (by decide) (by decide) r11,
    ofSuper (by decide) (by decide) r12, ofSuper (by decide) (by decide) r13,
    ofSuper (by decide) (by decide) r14, ofSuper (by decide) (by decide) r15,
    ofSuper (by decide) (by decide) r16, ofSuper (by decide) (by decide) r17,
    kept (by decide) r18, kept (by decide) r19, kept (by decide) r20, kept (by decide) r21,
    kept (by decide) r22, kept (by decide) r23, kept (by decide) r24⟩

/-- The superblock with another free count, sealed again. -/
def setFreeBlocks (s : Super) (free : Nat) : Super := sealAt (put64 s 20 free) 44

theorem sFreeBlocks_setFreeBlocks (s : Super) {free : Nat} (h : free < 2 ^ 64) :
    sFreeBlocks (setFreeBlocks s free) = free := by
  simp only [sFreeBlocks, setFreeBlocks, le64, put64]
  simp (disch := decide) only [getLE_sealAt, getLE_putLE_self]
  exact Nat.mod_eq_of_lt h

theorem setFreeBlocks_differs (s : Super) (free : Nat) :
    DiffersOnly [(20, 8), (44, 4)] (setFreeBlocks s free) s :=
  (differsOnly_sealAt _ (by decide)).trans (differsOnly_putLE _ _ (by decide))

/-- **What may change under the checks of the loader**: the free count, the journal, the bitmap
and the free list, each with its own checksum. -/
theorem BootOk.update {img : Image δ} {boot boot' : Nat → Block} (h : BootOk img boot)
    {free : Nat} (h1 : slice (boot' 1) 0 256 = setFreeBlocks (slice (boot 1) 0 256) free)
    (h4 : ilChecksum (slice (boot' 4) 0 48) = journalChecksum (slice (boot' 4) 0 48))
    (h5 : imageValidateBitmap (boot' 5) maxInodes = .ok ())
    (h6 : enChecksum (boot' 6) = extentNodeChecksum (boot' 6)) (h6' : enCount (boot' 6) ≤ 102)
    (h7 : boot' 7 = boot 7) : BootOk img boot' := by
  have same := setFreeBlocks_differs (slice (boot 1) 0 256) free
  rw [← h1] at same
  have hsum : sChecksum (slice (boot' 1) 0 256) = superChecksum (slice (boot' 1) 0 256) := by
    rw [h1]
    exact super_sealed _
  have hholes : DiffersOnly superHoles (slice (boot' 1) 0 256) (slice (boot 1) 0 256) :=
    same.mono (by decide)
  have hinode : sRootInode (slice (boot' 1) 0 256) = sRootInode (slice (boot 1) 0 256) :=
    same 144 8 (by decide)
  have hjournal : sJournalAddr (slice (boot' 1) 0 256) = sJournalAddr (slice (boot 1) 0 256) :=
    same 136 8 (by decide)
  have hroot : crChecksum (boot 7) = checkpointRootChecksum (boot 7) := by
    have := h.rootOk
    simp only [imageValidateCheckpointRoot, failIf_bind_ok, not_not] at this
    exact this.2.2.1
  obtain ⟨-, hj, -, -, hi, -⟩ := boot_places h.superOk h.rootOk
  refine ⟨imageValidateSuper_of_differs h.superOk rfl rfl hsum hholes, hinode.trans h.rootInode,
    hjournal.trans h.journalAddr, imageValidateCheckpointRoot_of_differs h.rootOk
      (same 12 8 (by decide)) ?_ hholes ?_ ?_ ?_, h4, h5, h6, h6'⟩
  · rw [loadedImage_checkpointRoot, h7]
    exact hroot
  · rw [loadedImage_checkpointRoot, loadedImage_checkpointRoot, h7]
    exact DiffersOnly.refl _ _
  · rw [loadedImage_checkpointRoot, h7]
    exact hi.trans hinode.symm
  · rw [loadedImage_checkpointRoot, h7]
    exact hj.trans hjournal.symm

variable [BlockDev δ]

theorem loadedImage_read (img : Image δ) (boot : Nat → Block) :
    imageReadBlock (loadedImage img boot) = imageReadBlock img :=
  funext (imageReadBlock_congr img _ (loadedImage_poolLabel img boot)
    (loadedImage_memberCount img boot) (loadedImage_members img boot))

/-- **A load is a function of seven blocks**, where the superblock names the usual places. -/
theorem imageLoad_boot {img img' : Image δ} {boot : Nat → Block}
    (hread : ∀ k, 1 ≤ k → k < 8 → imageReadBlock img k = .ok (boot k)) :
    BootOk img boot ∧ img' = loadedImage img boot ↔
      imageLoad img = .ok img' ∧ sRootInode img'.super = 2 ∧ sJournalAddr img'.super = 4 := by
  rw [imageLoad_iff]
  constructor
  · rintro ⟨h, rfl⟩
    obtain ⟨h7, hj, h5, h6, hi, h3, -⟩ := boot_places h.superOk h.rootOk
    have hat : ∀ {k b}, b = k → 1 ≤ k → k < 8 → imageReadBlock img b = .ok (boot k) :=
      fun hb h1 h8 => (congrArg (imageReadBlock img) hb).trans (hread _ h1 h8)
    have hfree := readExtentNode_iff.mpr ⟨hat h6 (by norm_num) (by norm_num), h.freeSum,
      h.freeCount⟩
    exact ⟨⟨rfl, ⟨_, hat rfl (by norm_num) (by norm_num), rfl⟩, h.superOk,
      hat h7 (by norm_num) (by norm_num), h.rootOk,
      ⟨_, hat (hj.trans h.journalAddr) (by norm_num) (by norm_num), rfl⟩, h.journalOk,
      hat h5 (by norm_num) (by norm_num), h.bitmapOk, hfree,
      ⟨_, hat (hi.trans h.rootInode) (by norm_num) (by norm_num), rfl⟩,
      hat h3 (by norm_num) (by norm_num)⟩, h.rootInode, h.journalAddr⟩
  · rintro ⟨h, hi2, hj4⟩
    obtain ⟨h7, hj, h5, h6, hi, h3, -⟩ := boot_places h.superOk h.rootOk
    have hsame : ∀ {k b}, 1 ≤ k → k < 8 → imageReadBlock img k = .ok b → b = boot k := by
      intro k b h1 h8 hb
      rw [hread k h1 h8] at hb
      exact (Except.ok.inj hb).symm
    obtain ⟨b1, hb1, hsuper⟩ := h.readSuper
    obtain ⟨b4, hb4, hjournal⟩ := h.readJournal
    obtain ⟨b2, hb2, htable⟩ := h.readTable
    obtain ⟨hb6, hsum, hcount⟩ := readExtentNode_iff.mp h.readFree
    rw [hsame (by norm_num) (by norm_num) hb1] at hsuper
    rw [hj, hj4] at hb4
    rw [hi, hi2] at hb2
    rw [hsame (by norm_num) (by norm_num) hb4] at hjournal
    rw [hsame (by norm_num) (by norm_num) hb2] at htable
    have h7' := hsame (by norm_num) (by norm_num) (h7 ▸ h.readRoot)
    have h5' := hsame (by norm_num) (by norm_num) (h5 ▸ h.readBitmap)
    have h6' := hsame (by norm_num) (by norm_num) (h6 ▸ hb6)
    have h3' := hsame (by norm_num) (by norm_num) (h3 ▸ h.readDir)
    have himg : img' = loadedImage img boot := by
      rw [h.frame, loadedImage, hsuper, hjournal, htable, h7', h5', h6', h3']
    refine ⟨⟨himg ▸ h.superOk, hsuper ▸ hi2, hsuper ▸ hj4, himg ▸ h.rootOk, hjournal ▸ h.journalOk,
      h5' ▸ h.bitmapOk, h6' ▸ hsum, h6' ▸ hcount⟩, himg⟩

theorem imageLoad_withDevs {img img' : Image δ} {devs : Nat → δ} (h : imageLoad img = .ok img')
    (hi2 : sRootInode img'.super = 2) (hj4 : sJournalAddr img'.super = 4)
    (hread : ∀ k, 1 ≤ k → k < 8 → imageReadBlock (img.withDevs devs) k = imageReadBlock img k) :
    imageLoad (img.withDevs devs) = .ok (img'.withDevs devs) := by
  have hl := imageLoad_iff.mp h
  obtain ⟨h7, hj, h5, h6, hi, h3, -⟩ := boot_places hl.superOk hl.rootOk
  have hat : ∀ {k b}, b = k → 1 ≤ k → k < 8 →
      imageReadBlock (img.withDevs devs) b = imageReadBlock img b :=
    fun hb h1 h8 => by rw [hb, hread _ h1 h8]
  obtain ⟨b1, hb1, hsuper⟩ := hl.readSuper
  obtain ⟨b4, hb4, hjournal⟩ := hl.readJournal
  obtain ⟨b2, hb2, htable⟩ := hl.readTable
  obtain ⟨hb6, hsum, hcount⟩ := readExtentNode_iff.mp hl.readFree
  refine imageLoad_iff.mpr ⟨?_, ⟨b1, (hat rfl (by decide) (by decide)).trans hb1, hsuper⟩,
    hl.superOk, (hat h7 (by decide) (by decide)).trans hl.readRoot, hl.rootOk,
    ⟨b4, (hat (hj.trans hj4) (by decide) (by decide)).trans hb4, hjournal⟩, hl.journalOk,
    (hat h5 (by decide) (by decide)).trans hl.readBitmap, hl.bitmapOk,
    readExtentNode_iff.mpr ⟨(hat h6 (by decide) (by decide)).trans hb6, hsum, hcount⟩,
    ⟨b2, (hat (hi.trans hi2) (by decide) (by decide)).trans hb2, htable⟩,
    (hat h3 (by decide) (by decide)).trans hl.readDir⟩
  exact congrArg (Image.withDevs · devs) hl.frame

/-- With one member there is nothing to compare: only the parity profile is refused. -/
theorem single_redundancy {img : Image δ} (hc : img.memberCount = 1) (used : List Interval) :
    validatePoolRedundancy img used = .ok () ↔ poolProfile img ≠ poolProfileParity := by
  have hcount : maskCount 1 = 1 := by decide
  have hboot : validateBootstrapReplicas img = .ok () := by
    refine forEach_eq_ok.mpr fun b _ => ?_
    simp only [poolRoleMask_single hc, hcount, Nat.le_refl, if_true]
  rw [validatePoolRedundancy, hboot, ok_bind]
  simp only [validateMirrorData, validateParity, poolDataMask_single hc, hcount, Nat.le_refl,
    if_true]
  split
  · rename_i h
    rw [h]
    exact ⟨fun _ => by decide, fun _ => rfl⟩
  · split
    · rename_i h
      exact ⟨fun h' => absurd h' (by simp), fun h' => absurd h h'⟩
    · rename_i h
      exact ⟨fun _ => h, fun _ => rfl⟩

/-- **What a scrub depends on**: of the superblock and the checkpoint root, only the free count
and the address of the root directory. -/
theorem Scrubbed.transfer {img img' : Image δ} {refs : List Nat} {ts : List Tally}
    {free : List Interval} (h : Scrubbed img refs ts free) (hc : img.memberCount = 1)
    (hc' : img'.memberCount = 1) (hp : poolProfile img' = poolProfile img)
    (hj : img'.journal = img.journal) (hm : img'.inodeBitmap = img.inodeBitmap)
    (hd : dirMemory img' = dirMemory img) (hb : img'.blocks = img.blocks)
    (hf : img'.freeExtents = img.freeExtents)
    (hr : crRootDirBlock img'.checkpointRoot = crRootDirBlock img.checkpointRoot)
    (hs : sFreeBlocks img'.super = sFreeBlocks img.super)
    (hin : List.Forall₂ (fun i t => checkInode (imageReadBlock img') img' refs i = .ok t)
      (List.range maxInodes) ts) : Scrubbed img' refs ts free := by
  refine ⟨hj ▸ h.clean, hm ▸ h.rootBit, hd ▸ h.dir, hin, ?_, ?_, hs.trans h.freeCount, ?_⟩
  · rw [← h.freeList]
    unfold checkFree
    rw [hf, hb]
  · rw [hr, hb]
    exact h.covered
  · rw [single_redundancy hc', hp]
    exact (single_redundancy hc _).mp h.redundant

end Boot

/-! ## 2. Files without a label -/

section Plain

variable {f : ByteFile} {n : Nat}

/-- A file of `n` whole blocks with nothing in the first. -/
structure PlainFile (f : ByteFile) (n : Nat) : Prop where
  kind : f.kind ≠ .other
  size : f.size = n * 4096
  large : 8 ≤ n
  unlabelled : plMagic (labelOf f) ≠ poolMagic

/-- The image an open hands out for it. -/
def plainImage (f : ByteFile) (n : Nat) (writable : Bool) (beyond : Nat → UInt8) :
    Image ByteFile :=
  openedImage writable (singleLabel n) n 1 (fun _ => fileMember f) beyond

theorem PlainFile.lt (h : PlainFile f n) : n < 2 ^ 51 := by
  have := f.size_lt
  have := h.size
  omega

theorem plainFile_open (h : PlainFile f n) (writable : Bool) (beyond : Nat → UInt8) :
    imageOpen f writable beyond = .ok (plainImage f n writable beyond) := by
  have := h.large
  refine imageOpen_iff.mpr ⟨h.kind, by rw [h.size]; omega, fun hm => absurd hm h.unlabelled, ?_⟩
  rw [openedFile_of_none h.unlabelled, h.size, Nat.mul_div_cancel _ (by norm_num)]
  rfl

theorem plainImage_served (h : PlainFile f n) (writable : Bool) (beyond : Nat → UInt8) {k : Nat}
    (hk : k < n) : Served (plainImage f n writable beyond) k := by
  have hn := h.lt
  have h8 := h.large
  obtain ⟨-, -, h3, -, -, -, -, -, -, -, -, -, h13, h14, -⟩ :=
    singleLabel_fields n (by omega)
  have hprof : poolProfile (plainImage f n writable beyond) = 0 := h3
  have hcap : poolMemberDataBlocks (plainImage f n writable beyond) 0 = n - 8 := by
    have hl : (plainImage f n writable beyond).poolLabel = singleLabel n := rfl
    simp only [poolMemberDataBlocks, poolMemberTotalBlocks, hl, h13, h14, subU64, dataStartBlock]
    rw [if_neg (by omega : ¬ n = 0)]
    split <;> omega
  refine Or.inr ?_
  rw [singleBound, if_pos (Or.inl hprof), hcap]
  omega

/-- **Reading the image is reading the file.** -/
theorem plainImage_read (h : PlainFile f n) (writable : Bool) (beyond : Nat → UInt8) {k : Nat}
    (hk : k < n) :
    imageReadBlock (plainImage f n writable beyond) k = .ok (f.blockAt (k * 4096)) := by
  have hn := h.lt
  refine (single_read_eq_ok rfl (by omega)).mpr ⟨plainImage_served h writable beyond hk, ?_⟩
  refine ByteFile.readAll_eq_ok.mpr ?_
  rw [ByteFile.offsetOf_of_lt (by omega)]
  exact ⟨by show k * 4096 + 4096 ≤ f.size; rw [h.size]; omega, rfl⟩

end Plain

theorem loaded_file {f : ByteFile} {writable : Bool} {beyond : Nat → UInt8}
    {img0 img : Image ByteFile} (hopen : imageOpen f writable beyond = .ok img0)
    (hload : imageLoad img0 = .ok img) :
    img.memberCount = 1 ∧ (∀ m, img.members m = fileMember f) ∧ img.writable = writable ∧
      img.beyond = beyond := by
  obtain ⟨-, -, -, rfl⟩ := imageOpen_iff.mp hopen
  rw [(imageLoad_iff.mp hload).frame]
  exact ⟨rfl, fun _ => rfl, rfl, rfl⟩

/-! ## 3. Few inodes

A bitmap with nothing set from inode `k` on lets the inode loop run out over free inodes. -/

section Few

/-- The tallies of the first `k` inodes, and of as many free ones as remain. -/
def fewTallies (k : Nat) (t : Nat → Tally) : List Tally :=
  (List.range k).map t ++ List.replicate (maxInodes - k) .none

theorem few_inodes {δ : Type} {img : Image δ} {rd : Nat → Except Fail Block} {refs : List Nat}
    {k : Nat} {t : Nat → Tally} (hk : k ≤ maxInodes)
    (hin : ∀ i, i < k → checkInode rd img refs i = .ok (t i))
    (hout : ∀ i, k ≤ i → imageBitmapTest img.inodeBitmap i = false ∧
      iMode (img.inodeTable i) = 0) :
    List.Forall₂ (fun i t => checkInode rd img refs i = .ok t) (List.range maxInodes)
      (fewTallies k t) := by
  have hsplit : List.range maxInodes
      = List.range k ++ (List.range (maxInodes - k)).map (k + ·) := by
    rw [← List.range_add, Nat.add_sub_cancel' hk]
  have hnone : List.replicate (maxInodes - k) Tally.none
      = (List.range (maxInodes - k)).map fun _ => .none := by simp
  rw [hsplit, fewTallies, hnone]
  refine List.rel_append ?_ ?_
  · rw [List.forall₂_map_right_iff, List.forall₂_same]
    exact fun i hi => hin i (List.mem_range.mp hi)
  · rw [List.forall₂_map_left_iff, List.forall₂_map_right_iff, List.forall₂_same]
    exact fun i _ => checkInode_iff.mpr (Or.inl ⟨(hout _ (by omega)).1, (hout _ (by omega)).2, rfl⟩)

theorem fewTallies_used (k : Nat) (t : Nat → Tally) :
    (fewTallies k t).flatMap Tally.used = (List.range k).flatMap fun i => (t i).used := by
  simp [fewTallies, List.flatMap_append, List.flatMap_replicate, List.flatMap_map, Tally.none]

theorem fewTallies_sum (k : Nat) (t : Nat → Tally) {g : Tally → Nat} (hg : g .none = 0) :
    ((fewTallies k t).map g).sum = ((List.range k).map fun i => g (t i)).sum := by
  simp [fewTallies, hg, Function.comp_def]

end Few

/-! ## 4. Images whose free space is a tail

What `mkfs` and `rebalance` leave behind: the used blocks tile `[8, next)`, and one free extent
has the rest. -/

section Tail

variable {δ : Type}

theorem enExtents_one {n : ExtentNode} (h : enCount n = 1) : enExtents n = [enExtent n 0] := by
  rw [enExtents, h]
  rfl

/-- The free space is `[next, blocks)`, in one extent or in none, and is counted. -/
structure FreeTail (img : Image δ) (next : Nat) : Prop where
  ge : 8 ≤ next
  le : next ≤ img.blocks
  lt : img.blocks < 2 ^ 64
  last : enNext img.freeExtents = 0
  one : next < img.blocks → enCount img.freeExtents = 1 ∧
    ePstart (enExtent img.freeExtents 0) = next ∧
    eLen (enExtent img.freeExtents 0) = img.blocks - next
  none : next = img.blocks → enCount img.freeExtents = 0
  count : sFreeBlocks img.super = img.blocks - next

/-- That space as a list of intervals. -/
def tailOf (next blocks : Nat) : List Interval :=
  if next < blocks then [⟨next, blocks - next⟩] else []

theorem tailOf_tiles {next blocks : Nat} (h : next ≤ blocks) :
    Tiles next blocks (tailOf next blocks) := by
  unfold tailOf
  split
  · exact ⟨rfl, by simp only; omega, by simp only [Tiles]; omega⟩
  · exact Nat.le_antisymm h (by omega)

theorem totalLen_tailOf {next blocks : Nat} (h : next ≤ blocks) :
    totalLen (tailOf next blocks) = blocks - next := by
  have := (tailOf_tiles h).totalLen
  omega

theorem FreeTail.checkFree {img : Image δ} {next : Nat} (h : FreeTail img next) :
    checkFree img = .ok (tailOf next img.blocks) := by
  have h8 := h.ge
  have hlt := h.lt
  rw [checkFree_iff, tailOf]
  refine ⟨h.last, ?_⟩
  split
  · rename_i hfree
    obtain ⟨hcount, hstart, hlen⟩ := h.one hfree
    rw [enExtents_one hcount, walkFree_cons_iff, hstart, hlen, hcount]
    exact ⟨by norm_num, by omega, h8, by simp only [addU64]; omega, [], rfl, rfl⟩
  · have hcount := h.none (Nat.le_antisymm h.le (by omega))
    rw [enExtents, hcount]
    exact ⟨by norm_num, rfl⟩

variable [BlockDev δ]

/-- **Packed images scrub clean**: tiles, then the tail. -/
theorem scrubbed_of_tiles {img : Image δ} {refs : List Nat} {ts : List Tally} {next : Nat}
    (hc : img.memberCount = 1) (hp : poolProfile img ≠ poolProfileParity)
    (hroot : crRootDirBlock img.checkpointRoot = 3) (hclean : ilOutstanding img.journal = 0)
    (hbit : imageBitmapTest img.inodeBitmap 0 = true)
    (hdir : dirWalk (dirMemory img) 0 ⟨[], false, false⟩ = .ok ⟨refs, true, true⟩)
    (hinodes : List.Forall₂ (fun i t => checkInode (imageReadBlock img) img refs i = .ok t)
      (List.range maxInodes) ts)
    (htiles : Tiles 8 next (ts.flatMap Tally.used)) (htail : FreeTail img next) :
    Scrubbed img refs ts (tailOf next img.blocks) := by
  have hle := htail.le
  have hlt := htail.lt
  refine ⟨hclean, hbit, hdir, hinodes, htail.checkFree, ?_, ?_, (single_redundancy hc _).mpr hp⟩
  · exact coverage_accepted (by omega) (htiles.append (tailOf_tiles hle)) List.perm_append_comm hlt
  · rw [htail.count, totalLen_tailOf hle, Nat.mod_eq_of_lt (by omega)]

end Tail

end AetherFs
