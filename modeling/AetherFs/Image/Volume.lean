/-
# A volume with one name in it

The smallest file systems that say something about files: what `mkfs` writes, with a third
directory record `a` for inode 17, a second inode (index 1), an inode bitmap of one byte, and
the free space `[next, n)`.  Whether inode 17 is allocated, and what it describes, is left open:
`VolumeFile.scrubbed` is that the volume scrubs clean as soon as index 1 passes the inode loop and
what it uses tiles `[8, next)`.

Three ways to fill it follow: a file of any length in one piece (`oneFile`), a file without
blocks (`emptyFile`), and no inode at all behind the name (`danglingFile`).
-/
import AetherFs.Mkfs.Run
import AetherFs.Rebalance.Encode

namespace AetherFs

open Lib

/-! ## 1. The blocks -/

/-- An inode bitmap whose first byte is `bits`. -/
def byteBitmap (bits : Nat) : BitmapBlock :=
  let b : BitmapBlock := put32 (zeros 4096) 4 maxInodes
  let b := putLE b 16 1 bits
  let b := put32 b 8 (setBits 8 bits).length
  sealAt b 0

/-- The records ".", ".." and "a". -/
def volumeDir : Block :=
  let b := initDirEntry (zeros 4096) 0 rootIno 16 ftDir [46]
  let b := initDirEntry b 16 rootIno 16 ftDir [46, 46]
  initDirEntry b 32 17 4064 1 [97]

/-- The same with another inode behind "a". -/
def nameDir (ino : Nat) : Block :=
  let b := initDirEntry (zeros 4096) 0 rootIno 16 ftDir [46]
  let b := initDirEntry b 16 rootIno 16 ftDir [46, 46]
  initDirEntry b 32 ino 4064 1 [97]

theorem volumeDir_eq : volumeDir = nameDir 17 := rfl

/-- A regular file of `blocks` whole blocks, rooted at `root`. -/
def fileInode (blocks root : Nat) : Inode :=
  let i : Inode := put16 (zeros 512) 0 0o100644
  let i := put64 i 12 (blocks * 4096)
  let i := put64 i 20 blocks
  let i := put64 i 52 root
  sealAt i 100

section Volume

variable (n bits next : Nat) (inode : Inode)

/-- The superblock `mkfs` writes for `n` blocks. -/
def volumeSuper : Super := bootstrapSuper ⟨n, 4096, 0, false⟩ n (zeros 16)

/-- The eight bootstrap blocks. -/
def volumeBoot : Nat → Block
  | 1 => overlay (zeros 4096) 0 (setFreeBlocks (volumeSuper n) (n - next))
  | 2 => overlay (overlay (zeros 4096) 0 (initRootInode ⟨false, .ok (zeros 16), 0, 0, 0⟩)) 512 inode
  | 3 => volumeDir
  | 4 => overlay (zeros 4096) 0 initJournal
  | 5 => byteBitmap bits
  | 6 => freeNode next (n - next)
  | 7 => initCheckpointRoot (volumeSuper n) n
  | _ => zeros 4096

end Volume

/-! ## 2. Their fields -/

theorem byteBitmap_firstByte {bits : Nat} (hbits : bits < 256) :
    FirstByte (byteBitmap bits) bits := by
  have hbyte : ∀ i, 12 ≤ i → byteAt (byteBitmap bits) i = if i = 16 then UInt8.ofNat bits else 0 := by
    intro i hi
    simp only [byteBitmap, sealAt, put32]
    rw [byteAt_putLE_of_out _ _ (by omega), byteAt_putLE_of_out _ _ (by omega),
      byteAt_putLE _ _ (by norm_num)]
    by_cases h16 : i = 16
    · subst h16
      simp
    · rw [if_neg (by omega), if_neg h16, byteAt_putLE_of_out _ _ (by omega), byteAt_zeros]
  constructor
  · rw [bbBits, hbyte _ (by omega), if_pos rfl, UInt8.toNat_ofNat']
    exact Nat.mod_eq_of_lt hbits
  · intro i hi
    rw [bbBits, hbyte _ (by omega), if_neg (by omega)]

theorem byteBitmap_valid {bits : Nat} (hbits : bits < 256) :
    imageValidateBitmap (byteBitmap bits) maxInodes = .ok () := by
  have hcount : (setBits 8 bits).length < 2 ^ 32 := by
    have : (setBits 8 bits).length ≤ 8 :=
      (List.length_filter_le _ _).trans (Nat.le_of_eq List.length_range)
    omega
  simp only [imageValidateBitmap, failIf_bind_ok, failIf_eq_ok, not_not]
  refine ⟨?_, bitmap_sealed _, ?_⟩
  · simp only [bbTotalBits, byteBitmap, le32, put32]
    simp (disch := decide) only [getLE_sealAt, getLE_putLE_of_disjoint, getLE_putLE_self]
    norm_num
  · rw [(byteBitmap_firstByte hbits).count]
    simp only [bbSetBits, byteBitmap, le32, put32]
    simp (disch := decide) only [getLE_sealAt, getLE_putLE_self]
    norm_num

theorem fileInode_fields {blocks root : Nat} (hb : blocks * 4096 < 2 ^ 64) (hr : root < 2 ^ 64) :
    iMode (fileInode blocks root) = 0o100644 ∧ iSize (fileInode blocks root) = blocks * 4096 ∧
      iBlocks (fileInode blocks root) = blocks ∧ iExtentRoot (fileInode blocks root) = root := by
  simp only [iMode, iSize, iBlocks, iExtentRoot, fileInode, le16, le64, put16, put64]
  simp (disch := decide) only [getLE_sealAt, getLE_putLE_of_disjoint, getLE_putLE_self]
  exact ⟨by norm_num, Nat.mod_eq_of_lt hb, Nat.mod_eq_of_lt (by omega), Nat.mod_eq_of_lt hr⟩

section Dir

variable {m : Nat → UInt8}

theorem nameDir_entries {ino : Nat} (hino : ino < 2 ^ 64)
    (hm : ∀ i, i < 4096 → m i = byteAt (nameDir ino) i) :
    HasEntry m 0 16 16 [46] ∧ HasEntry m 16 16 16 [46, 46] ∧ HasEntry m 32 ino 4064 [97] := by
  rw [← and_assoc]
  constructor
  · refine dots_entries (d := zeros 4096) (by norm_num) fun i hi => ?_
    rw [hm i (by omega), nameDir, byteAt_initDirEntry_of_out _ _ (by omega)]
  · refine (initDirEntry_has (initDirEntry (initDirEntry (zeros 4096) 0 16 16 ftDir [46]) 16 16 16
      ftDir [46, 46]) 1 (by simp) hino (by norm_num)).congr fun i _ h2 => ?_
    simp only [List.length_singleton] at h2
    rw [hm i (by omega), nameDir]

theorem nameDir_walk {ino : Nat} (hge : 16 ≤ ino) (hlt : ino < 16 + maxInodes)
    (hm : ∀ i, i < 4096 → m i = byteAt (nameDir ino) i) :
    dirWalk m 0 ⟨[], false, false⟩ = .ok ⟨[ino - 16], true, true⟩ := by
  have hrange : ¬ (ino < rootIno ∨ ino ≥ rootIno + maxInodes) := by
    simp only [rootIno]
    omega
  have h64 : ino < 2 ^ 64 := by
    simp only [maxInodes] at hlt
    omega
  obtain ⟨hdot, hdotdot, ha⟩ := nameDir_entries h64 hm
  rw [dirWalk_dots hdot hdotdot (by norm_num) (by norm_num) (by norm_num)]
  rw [dirWalk_entry ha (by simp) (by norm_num) (by norm_num) (by simp)]
  rw [nameEntry, if_neg (by omega), if_neg (by simp), if_neg (by simp), failIf_of_not hrange,
    ok_bind, failIf_of_not (by simp), ok_bind, ok_bind]
  exact dirWalk_end _

end Dir

/-! ## 3. Loading and scrubbing -/

section Scrub

variable {n bits next : Nat} {inode : Inode} {f : ByteFile}

/-- A file whose first eight blocks are those of the volume. -/
structure VolumeFile (f : ByteFile) (n bits next : Nat) (inode : Inode) : Prop where
  kind : f.kind = .regular
  size : f.size = n * 4096
  ge : 8 ≤ next
  lt : next < n
  bits_ok : bits = 1 ∨ bits = 3
  boot : ∀ k, k < 8 → f.blockAt (k * 4096) = volumeBoot n bits next inode k

theorem VolumeFile.bits_lt (h : VolumeFile f n bits next inode) : bits < 256 := by
  rcases h.bits_ok with rfl | rfl <;> norm_num

theorem VolumeFile.plain (h : VolumeFile f n bits next inode) : PlainFile f n := by
  have := h.ge
  have := h.lt
  refine ⟨by rw [h.kind]; simp, h.size, by omega, ?_⟩
  have hzero : labelOf f = zeros 824 := by
    have : f.blockAt 0 = zeros 4096 := h.boot 0 (by norm_num)
    rw [labelOf, this, slice_zeros]
  rw [hzero, plMagic, le32, getLE_zeros]
  decide

/-- The loaded volume. -/
def volumeImage (f : ByteFile) (n bits next : Nat) (inode : Inode) (writable : Bool)
    (beyond : Nat → UInt8) : Image ByteFile :=
  loadedImage (plainImage f n writable beyond) (volumeBoot n bits next inode)

theorem volumeBoot_ok (f : ByteFile) (inode : Inode) (writable : Bool) (beyond : Nat → UInt8)
    (hbits : bits < 256) (hge : 8 ≤ next) (hlt : next < n) (hn : n < 2 ^ 51) :
    BootOk (plainImage f n writable beyond) (volumeBoot n bits next inode) := by
  have hlabel : plLogicalBlocks (plainImage f n writable beyond).poolLabel = n := by
    obtain ⟨-, -, -, -, -, -, -, -, -, -, h, -⟩ := singleLabel_fields n (by omega)
    exact h
  have hboot : BootOk (plainImage f n writable beyond)
      (bootBlocks ⟨n, 4096, 0, false⟩ ⟨false, .ok (zeros 16), 0, 0, 0⟩ n (zeros 16)) :=
    bootBlocks_ok rfl hlabel rfl (by omega) (by omega)
  have hslice : slice (volumeBoot n bits next inode 1) 0 256
      = setFreeBlocks (volumeSuper n) (n - next) := slice_overlay_self _ _ _ (by norm_num)
  have hslice' : slice (bootBlocks ⟨n, 4096, 0, false⟩ ⟨false, .ok (zeros 16), 0, 0, 0⟩ n
      (zeros 16) 1) 0 256 = volumeSuper n := slice_overlay_self _ _ _ (by norm_num)
  have hjournal : slice (volumeBoot n bits next inode 4) 0 48 = initJournal :=
    slice_overlay_self _ _ _ (by norm_num)
  have h5 : volumeBoot n bits next inode 5 = byteBitmap bits := by rw [volumeBoot]
  have h6 : volumeBoot n bits next inode 6 = freeNode next (n - next) := by rw [volumeBoot]
  have h7 : volumeBoot n bits next inode 7 = bootBlocks ⟨n, 4096, 0, false⟩
      ⟨false, .ok (zeros 16), 0, 0, 0⟩ n (zeros 16) 7 := by rw [volumeBoot, bootBlocks, volumeSuper]
  refine hboot.update (hslice.trans (by rw [hslice'])) ?_ ?_ ?_ ?_ h7
  · rw [hjournal]
    exact ilChecksum_sealJournal _
  · rw [h5]
    exact byteBitmap_valid hbits
  · rw [h6]
    exact extentNode_sealed _
  · rw [h6, (freeNode_fields (by omega) (by omega)).2.1]
    norm_num

theorem VolumeFile.load (h : VolumeFile f n bits next inode) (writable : Bool)
    (beyond : Nat → UInt8) :
    imageOpen f writable beyond = .ok (plainImage f n writable beyond) ∧
      imageLoad (plainImage f n writable beyond) = .ok (volumeImage f n bits next inode writable beyond) ∧
      sRootInode (volumeImage f n bits next inode writable beyond).super = 2 ∧
      sJournalAddr (volumeImage f n bits next inode writable beyond).super = 4 := by
  have hplain := h.plain
  have := hplain.large
  have hread : ∀ k, 1 ≤ k → k < 8 → imageReadBlock (plainImage f n writable beyond) k
      = .ok (volumeBoot n bits next inode k) := fun k _ hk => by
    rw [plainImage_read hplain writable beyond (by omega), h.boot k hk]
  refine ⟨plainFile_open hplain writable beyond, ?_⟩
  rw [volumeImage]
  exact (imageLoad_boot hread).mp
    ⟨volumeBoot_ok f inode writable beyond h.bits_lt h.ge h.lt hplain.lt, rfl⟩

theorem VolumeFile.read (h : VolumeFile f n bits next inode) (writable : Bool)
    (beyond : Nat → UInt8) {k : Nat} (hk : k < n) :
    imageReadBlock (volumeImage f n bits next inode writable beyond) k
      = .ok (f.blockAt (k * 4096)) := by
  rw [volumeImage, loadedImage_read]
  exact plainImage_read h.plain writable beyond hk

section Image

variable (f n bits next inode) (writable : Bool) (beyond : Nat → UInt8)

theorem volumeImage_inode_one :
    (volumeImage f n bits next inode writable beyond).inodeTable 1 = inode := by
  rw [volumeImage, loadedImage]
  exact slice_overlay_self _ _ _ (by norm_num)

theorem volumeImage_inode_zero : (volumeImage f n bits next inode writable beyond).inodeTable 0
    = initRootInode ⟨false, .ok (zeros 16), 0, 0, 0⟩ := by
  rw [volumeImage, loadedImage]
  change slice (overlay (overlay (zeros 4096) 0 _) 512 inode) 0 512 = _
  rw [slice_overlay_of_disjoint _ _ _ _ _ (by norm_num) (by norm_num),
    slice_overlay_self _ _ _ (by norm_num)]

theorem volumeImage_bitmap :
    (volumeImage f n bits next inode writable beyond).inodeBitmap = byteBitmap bits := by
  rw [volumeImage, loadedImage_inodeBitmap, volumeBoot]

theorem volumeImage_super : (volumeImage f n bits next inode writable beyond).super
    = setFreeBlocks (volumeSuper n) (n - next) := by
  rw [volumeImage, loadedImage_super, volumeBoot, slice_overlay_self _ _ _ (by norm_num)]

theorem volumeImage_free :
    (volumeImage f n bits next inode writable beyond).freeExtents = freeNode next (n - next) := by
  rw [volumeImage, loadedImage_freeExtents, volumeBoot]

theorem volumeImage_dir (i : Nat) (hi : i < 4096) :
    dirMemory (volumeImage f n bits next inode writable beyond) i = byteAt volumeDir i := by
  rw [dirMemory, if_pos hi, volumeImage, loadedImage_rootDir, volumeBoot]

theorem volumeImage_walk :
    dirWalk (dirMemory (volumeImage f n bits next inode writable beyond)) 0 ⟨[], false, false⟩
      = .ok ⟨[1], true, true⟩ :=
  @nameDir_walk _ 17 (by norm_num) (by norm_num)
    fun i hi => volumeDir_eq ▸ volumeImage_dir n bits next inode f writable beyond i hi

theorem volumeImage_rootDirBlock (hn : n < 2 ^ 64) :
    crRootDirBlock (volumeImage f n bits next inode writable beyond).checkpointRoot = 3 := by
  obtain ⟨-, -, -, -, -, -, -, h, -⟩ := initCheckpointRoot_fields (volumeSuper n) hn
  rw [volumeImage, loadedImage_checkpointRoot, volumeBoot]
  exact h

theorem volumeImage_blocks (hn : n < 2 ^ 64) :
    (volumeImage f n bits next inode writable beyond).blocks = n := by
  obtain ⟨-, -, -, h, -⟩ := bootstrapSuper_fields ⟨n, 4096, 0, false⟩ (zeros 16) rfl hn
  rw [volumeImage, loadedImage_blocks, volumeBoot, slice_overlay_self _ _ _ (by norm_num)]
  exact (setFreeBlocks_differs _ _ 12 8 (by decide)).trans h

theorem volumeImage_tail (hge : 8 ≤ next) (hlt : next < n) (hn : n < 2 ^ 51) :
    FreeTail (volumeImage f n bits next inode writable beyond) next := by
  have hblocks := volumeImage_blocks n bits next inode f writable beyond (by omega)
  obtain ⟨e1, e2, e3, e4⟩ := @freeNode_fields next (n - next) (by omega) (by omega)
  refine ⟨hge, by omega, by omega, ?_, fun _ => ?_, fun h => by omega, ?_⟩
  · rw [volumeImage_free, e1]
  · rw [volumeImage_free, hblocks]
    exact ⟨e2, e3, e4⟩
  · rw [volumeImage_super, sFreeBlocks_setFreeBlocks _ (by omega), hblocks]

theorem volumeImage_memberCount :
    (volumeImage f n bits next inode writable beyond).memberCount = 1 := by
  rw [volumeImage, loadedImage_memberCount]
  rfl

theorem volumeImage_profile (hn : n < 2 ^ 64) :
    poolProfile (volumeImage f n bits next inode writable beyond) ≠ poolProfileParity := by
  rw [volumeImage, loadedImage_poolProfile]
  obtain ⟨-, -, h, -⟩ := singleLabel_fields n hn
  change plProfile (singleLabel n) ≠ 3
  rw [h]
  norm_num

theorem volumeImage_clean :
    ilOutstanding (volumeImage f n bits next inode writable beyond).journal = 0 := by
  rw [volumeImage, loadedImage_journal, volumeBoot, slice_overlay_self _ _ _ (by norm_num),
    initJournal_outstanding]

/-- Every other inode of the volume: the root directory, and free ones. -/
theorem volumeImage_inodes (hn : n < 2 ^ 64) (hbits : bits = 1 ∨ bits = 3) {t : Tally}
    {rd : Nat → Except Fail Block} (hinode : checkInode rd
      (volumeImage f n bits next inode writable beyond) [1] 1 = .ok t) :
    List.Forall₂ (fun i t => checkInode rd
        (volumeImage f n bits next inode writable beyond) [1] i = .ok t) (List.range maxInodes)
      (fewTallies 2 fun i => if i = 0 then { Tally.none with directories := 1 } else t) := by
  have htest : ∀ i, imageBitmapTest (byteBitmap bits) i = (decide (i < 8) && bits.testBit i) :=
    (byteBitmap_firstByte (by omega)).test
  obtain ⟨i1, i2⟩ := initRootInode_fields ⟨false, .ok (zeros 16), 0, 0, 0⟩
  refine few_inodes (by norm_num) (fun i hi => ?_) fun i hi => ⟨?_, ?_⟩
  · rcases (by omega : i = 0 ∨ i = 1) with rfl | rfl
    · refine checkInode_iff.mpr (Or.inr ⟨?_, ?_⟩)
      · rw [volumeImage_bitmap, htest]
        rcases hbits with rfl | rfl <;> rfl
      · rw [volumeImage_inode_zero, volumeImage_rootDirBlock n bits next inode f writable beyond hn]
        exact ⟨inode_sealed _, Or.inl ⟨by rw [i1]; decide, rfl, i2, rfl⟩⟩
    · exact hinode
  · rw [volumeImage_bitmap, htest]
    have h4 : 2 ^ 2 ≤ 2 ^ i := Nat.pow_le_pow_right (by norm_num) hi
    rw [Nat.testBit_lt_two_pow (by omega), Bool.and_false]
  · rw [volumeImage, loadedImage]
    change iMode (tableOf (overlay (overlay (zeros 4096) 0 _) 512 inode) (fun _ => zeros 512) i) = 0
    rw [tableOf]
    split
    · rw [slice_overlay_of_disjoint _ _ _ _ _ (by norm_num) (by omega),
        slice_overlay_of_disjoint _ _ _ _ _ (by norm_num) (by omega), slice_zeros]
      exact getLE_zeros _ _ _
    · exact getLE_zeros _ _ _

theorem volumeImage_root_dir :
    sIsDir (iMode ((volumeImage f n bits next inode writable beyond).inodeTable 0)) := by
  rw [volumeImage_inode_zero, (initRootInode_fields ⟨false, .ok (zeros 16), 0, 0, 0⟩).1]
  decide

theorem volumeImage_file (hbits : bits = 1 ∨ bits = 3) {i : Nat}
    (hbit : imageBitmapTest (volumeImage f n bits next inode writable beyond).inodeBitmap i = true)
    (hreg : sIsReg (iMode ((volumeImage f n bits next inode writable beyond).inodeTable i))) :
    i = 1 := by
  rw [volumeImage_bitmap, (byteBitmap_firstByte (by omega)).test, Bool.and_eq_true,
    decide_eq_true_eq] at hbit
  have hsmall : i < 2 := by
    by_contra hge
    have hpow : 2 ^ 2 ≤ 2 ^ i := Nat.pow_le_pow_right (by norm_num) (Nat.not_lt.mp hge)
    rw [Nat.testBit_lt_two_pow (by omega)] at hbit
    exact absurd hbit.2 (by simp)
  rcases (by omega : i = 0 ∨ i = 1) with rfl | rfl
  · exact absurd (volumeImage_root_dir n bits next inode f writable beyond) hreg.not_dir
  · rfl

end Image

/-- **The volume scrubs clean** when its second inode does and what that uses is `[8, next)`. -/
theorem VolumeFile.scrubbed (h : VolumeFile f n bits next inode) (writable : Bool)
    (beyond : Nat → UInt8) {t : Tally}
    (hinode : checkInode (imageReadBlock (volumeImage f n bits next inode writable beyond))
      (volumeImage f n bits next inode writable beyond) [1] 1 = .ok t)
    (htiles : Tiles 8 next t.used) :
    Scrubbed (volumeImage f n bits next inode writable beyond) [1]
      (fewTallies 2 fun i => if i = 0 then { Tally.none with directories := 1 } else t)
      (tailOf next n) := by
  have hn := h.plain.lt
  have hge := h.ge
  have hlt := h.lt
  have hblocks := volumeImage_blocks n bits next inode f writable beyond (by omega)
  have hbit : imageBitmapTest (volumeImage f n bits next inode writable beyond).inodeBitmap 0
      = true := by
    rw [volumeImage_bitmap, (byteBitmap_firstByte h.bits_lt).test]
    rcases h.bits_ok with rfl | rfl <;> rfl
  have hused : Tiles 8 next ((fewTallies 2 fun i =>
      if i = 0 then { Tally.none with directories := 1 } else t).flatMap Tally.used) := by
    rw [fewTallies_used]
    simpa [List.range_succ, Tally.none] using htiles
  have hscrub := scrubbed_of_tiles (volumeImage_memberCount n bits next inode f writable beyond)
    (volumeImage_profile n bits next inode f writable beyond (by omega))
    (volumeImage_rootDirBlock n bits next inode f writable beyond (by omega))
    (volumeImage_clean n bits next inode f writable beyond) hbit
    (volumeImage_walk n bits next inode f writable beyond)
    (volumeImage_inodes n bits next inode f writable beyond (by omega) h.bits_ok hinode) hused
    (volumeImage_tail n bits next inode f writable beyond hge hlt hn)
  rw [hblocks] at hscrub
  exact hscrub

end Scrub

/-! ## 4. Three volumes -/

section Samples

variable {n m : Nat} {data : Nat → Block} (writable : Bool) (beyond : Nat → UInt8)

/-- A file of `m` blocks in one piece, from block 8 on. -/
def oneFileBlocks (n m : Nat) (data : Nat → Block) (k : Nat) : Block :=
  if k < 8 then volumeBoot n 3 (8 + span m) (fileInode m 8) k
  else if k = 8 then newExtents 9 (9 + m) m
  else if k < 9 + m then data (k - 9)
  else if k < 9 + m + csumBlocks m then chainBlock data m (9 + m) (k - (9 + m))
  else zeros 4096

def oneFile (n m : Nat) (data : Nat → Block) (hn : n < 2 ^ 51) : ByteFile :=
  .ofBlocks n (oneFileBlocks n m data) hn

theorem oneFile_volume (hn : n < 2 ^ 51) (hlt : 8 + span m < n) :
    VolumeFile (oneFile n m data hn) n 3 (8 + span m) (fileInode m 8) where
  kind := rfl
  size := rfl
  ge := Nat.le_add_right _ _
  lt := hlt
  bits_ok := Or.inr rfl
  boot k hk := by
    rw [oneFile, ByteFile.blockAt_ofBlocks _ _ (by omega), oneFileBlocks, if_pos hk]

/-- The loaded volume. -/
def oneFileImage (n m : Nat) (data : Nat → Block) (hn : n < 2 ^ 51) (writable : Bool)
    (beyond : Nat → UInt8) : Image ByteFile :=
  volumeImage (oneFile n m data hn) n 3 (8 + span m) (fileInode m 8) writable beyond

theorem oneFile_compact (hn : n < 2 ^ 51) (hlt : 8 + span m < n) :
    CompactFile (imageReadBlock (oneFileImage n m data hn writable beyond)) 8 m data := by
  have hread : ∀ k, k < n → imageReadBlock (oneFileImage n m data hn writable beyond) k
      = .ok (oneFileBlocks n m data k) := fun k hk => by
    rw [oneFileImage, (oneFile_volume hn hlt).read writable beyond hk, oneFile,
      ByteFile.blockAt_ofBlocks _ _ hk]
  have hspan : span m = 1 + m + csumBlocks m := rfl
  refine ⟨?_, fun i hi => ?_, fun j hj => ?_⟩
  · rw [hread 8 (by omega), oneFileBlocks, if_neg (by omega), if_pos rfl]
  · rw [hread _ (by omega), oneFileBlocks, if_neg (by omega), if_neg (by omega), if_pos (by omega)]
    congr 2
    omega
  · rw [hread _ (by omega), oneFileBlocks, if_neg (by omega), if_neg (by omega), if_neg (by omega),
      if_pos (by omega)]
    congr 2
    omega

/-- **The volume with one file scrubs clean.** -/
theorem oneFile_scrubbed (hn : n < 2 ^ 51) (hm : 0 < m) (hlt : 8 + span m < n) :
    Scrubbed (oneFileImage n m data hn writable beyond) [1]
      (fewTallies 2 fun i => if i = 0 then { Tally.none with directories := 1 }
        else ⟨compactUsed 8 m, 1, 0, m⟩) (tailOf (8 + span m) n) := by
  have hvol : VolumeFile (oneFile n m data hn) n 3 (8 + span m) (fileInode m 8) :=
    oneFile_volume hn hlt
  have hspan : span m = 1 + m + csumBlocks m := rfl
  obtain ⟨i1, i2, i3, i4⟩ := @fileInode_fields m 8 (by omega) (by norm_num)
  refine hvol.scrubbed writable beyond (checkInode_iff.mpr (Or.inr ⟨?_, ?_⟩))
    (compactUsed_tiles 8 hm)
  · rw [volumeImage_bitmap, (byteBitmap_firstByte (by norm_num)).test]
    rfl
  · rw [volumeImage_inode_one, volumeImage_blocks _ _ _ _ _ _ _ (by omega)]
    refine ⟨inode_sealed _, Or.inr ⟨by rw [i1]; decide, List.mem_singleton.mpr rfl, m, _, ?_, rfl⟩⟩
    refine (oneFile_compact writable beyond hn hlt).checkFile hm (by norm_num) (by omega) (by omega)
      i4 i3 ?_
    rw [i2]
    simp only [badSize, defBlockSize, mulU64]
    omega

theorem oneFileImage_blocks (hn : n < 2 ^ 51) :
    (oneFileImage n m data hn writable beyond).blocks = n :=
  volumeImage_blocks _ _ _ _ _ _ _ (by omega)

theorem oneFile_validates (data : Nat → Block) (hn : n < 2 ^ 51) (hm : 0 < m)
    (hlt : 8 + span m < n) :
    imageOpen (oneFile n m data hn) writable beyond
        = .ok (plainImage (oneFile n m data hn) n writable beyond) ∧
      imageLoad (plainImage (oneFile n m data hn) n writable beyond)
        = .ok (oneFileImage n m data hn writable beyond) ∧
      (sRootInode (oneFileImage n m data hn writable beyond).super = 2 ∧
        sJournalAddr (oneFileImage n m data hn writable beyond).super = 4) ∧
      ∃ rep, imageValidate (oneFileImage n m data hn writable beyond) = .ok rep := by
  obtain ⟨hopen, hload, hplaces⟩ := (oneFile_volume hn hlt).load writable beyond
  exact ⟨hopen, hload, hplaces, _, imageValidate_iff.mpr ⟨_, _, _,
    oneFile_scrubbed writable beyond hn hm hlt, rfl⟩⟩

/-- A file without blocks: its extent node is empty. -/
def emptyFileBlocks (n k : Nat) : Block :=
  if k < 8 then volumeBoot n 3 9 (fileInode 0 8) k
  else if k = 8 then sealAt (zeros 4096) 12
  else zeros 4096

def emptyFile (n : Nat) (hn : n < 2 ^ 51) : ByteFile := .ofBlocks n (emptyFileBlocks n) hn

theorem emptyFile_volume (hn : n < 2 ^ 51) (hlt : 9 < n) :
    VolumeFile (emptyFile n hn) n 3 9 (fileInode 0 8) where
  kind := rfl
  size := rfl
  ge := by norm_num
  lt := hlt
  bits_ok := Or.inr rfl
  boot k hk := by
    rw [emptyFile, ByteFile.blockAt_ofBlocks _ _ (by omega), emptyFileBlocks, if_pos hk]

/-- A file without blocks passes as long as it keeps its extent node. -/
theorem emptyNode_checkFile {rd : Nat → Except Fail Block} {blocks : Nat} (h8 : 8 < blocks)
    (hnode : rd 8 = .ok (sealAt (zeros 4096) 12)) :
    checkFile rd blocks (fileInode 0 8) = .ok (0, [⟨8, 1⟩]) := by
  obtain ⟨-, i2, i3, i4⟩ := @fileInode_fields 0 8 (by norm_num) (by norm_num)
  have hnext : enNext (sealAt (zeros 4096) 12) = 0 :=
    (getLE_sealAt _ _ _ _ (by norm_num)).trans (getLE_zeros _ _ _)
  have hcount : enCount (sealAt (zeros 4096) 12) = 0 :=
    (getLE_sealAt _ _ _ _ (by norm_num)).trans (getLE_zeros _ _ _)
  refine checkFile_iff.mpr ⟨by omega, by omega, _, [], readExtentNode_iff.mpr ⟨i4.symm ▸ hnode,
    extentNode_sealed _, by rw [hcount]; norm_num⟩, hnext, ?_, i3.symm, ?_, by rw [i4]⟩
  · rw [enExtents, hcount]
    rfl
  · rw [i2]
    simp [badSize]

/-- **An empty file scrubs clean.** -/
theorem emptyFile_scrubbed (hn : n < 2 ^ 51) (hlt : 9 < n) :
    Scrubbed (volumeImage (emptyFile n hn) n 3 9 (fileInode 0 8) writable beyond) [1]
      (fewTallies 2 fun i => if i = 0 then { Tally.none with directories := 1 }
        else ⟨[⟨8, 1⟩], 1, 0, 0⟩) (tailOf 9 n) := by
  have hvol := emptyFile_volume hn hlt
  obtain ⟨i1, -⟩ := @fileInode_fields 0 8 (by norm_num) (by norm_num)
  have hnode : imageReadBlock (volumeImage (emptyFile n hn) n 3 9 (fileInode 0 8) writable beyond) 8
      = .ok (sealAt (zeros 4096) 12) := by
    rw [hvol.read writable beyond (by omega), emptyFile, ByteFile.blockAt_ofBlocks _ _ (by omega),
      emptyFileBlocks, if_neg (by omega), if_pos rfl]
  refine hvol.scrubbed writable beyond (checkInode_iff.mpr (Or.inr ⟨?_, ?_⟩))
    ⟨rfl, Nat.one_pos, rfl⟩
  · rw [volumeImage_bitmap, (byteBitmap_firstByte (by norm_num)).test]
    rfl
  · rw [volumeImage_inode_one, volumeImage_blocks _ _ _ _ _ _ _ (by omega)]
    refine ⟨inode_sealed _, Or.inr ⟨by rw [i1]; decide, List.mem_singleton.mpr rfl, 0, _, ?_, rfl⟩⟩
    exact emptyNode_checkFile (by omega) hnode

/-- Nothing behind the name: inode 17 is free. -/
def danglingFile (n : Nat) (hn : n < 2 ^ 51) : ByteFile :=
  .ofBlocks n (fun k => if k < 8 then volumeBoot n 1 8 (zeros 512) k else zeros 4096) hn

theorem danglingFile_volume (hn : n < 2 ^ 51) (hlt : 8 < n) :
    VolumeFile (danglingFile n hn) n 1 8 (zeros 512) where
  kind := rfl
  size := rfl
  ge := by norm_num
  lt := hlt
  bits_ok := Or.inl rfl
  boot k hk := by
    rw [danglingFile, ByteFile.blockAt_ofBlocks _ _ (by omega), if_pos hk]

/-- **Scrub does not mind the name.** -/
theorem danglingFile_scrubbed (hn : n < 2 ^ 51) (hlt : 8 < n) :
    Scrubbed (volumeImage (danglingFile n hn) n 1 8 (zeros 512) writable beyond) [1]
      (fewTallies 2 fun i => if i = 0 then { Tally.none with directories := 1 } else .none)
      (tailOf 8 n) := by
  refine (danglingFile_volume hn hlt).scrubbed writable beyond (checkInode_iff.mpr (Or.inl
    ⟨?_, ?_, rfl⟩)) rfl
  · rw [volumeImage_bitmap, (byteBitmap_firstByte (by norm_num)).test]
    rfl
  · rw [volumeImage_inode_one]
    exact getLE_zeros _ _ _

end Samples

end AetherFs
