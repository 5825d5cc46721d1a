/-
# Names and inodes

Scrub checks the namespace in two passes.  The directory walk collects the inode indices that
records name and refuses a second name for one of them; the inode loop refuses an allocated
file that no record names.  Neither pass asks whether what a record names is THERE: the walk
runs before the loop and looks at no bitmap, and the loop skips an inode whose bit is clear.

`namedIndices` lists what the live records name, by following the record lengths and nothing
else.  `dirWalk_names` is that a successful walk collects this list, without repetition, and
`Scrubbed.allocated` is the direction the inode loop enforces.  The other direction is the
condition of the equivalence in §2, and `danglingFile` is a volume that lacks it.

The same two passes are all there is to make inode 0 a DIRECTORY: it is one unless a record
names it as a file.  `rootFile` is a volume on which one does.
-/
import AetherFs.Image.Coverage

namespace AetherFs

open Lib

/-! ## 1. Records -/

section Records

variable (m : Nat → UInt8)

/-- The offsets of the records from `offset` on. -/
def dirRecords (offset : Nat) : List Nat :=
  if offset < defBlockSize ∧ 0 < dirRec m offset then
    offset :: dirRecords (offset + dirRec m offset)
  else []
termination_by defBlockSize - offset
decreasing_by omega

/-- A record in use that is neither "." nor "..". -/
def LiveName (offset : Nat) : Prop :=
  dirIno m offset ≠ 0 ∧ ¬ isDot m offset ∧ ¬ isDotdot m offset

instance (offset : Nat) : Decidable (LiveName m offset) := inferInstanceAs (Decidable (_ ∧ _))

/-- The live records of a directory from `offset` on. -/
def liveNames (offset : Nat) : List Nat := (dirRecords m offset).filter fun o => LiveName m o

/-- The inode index a record names. -/
def dirIndex (offset : Nat) : Nat := dirIno m offset - rootIno

end Records

section Walk

variable {m : Nat → UInt8}

/-- **What one record does to the scan.** -/
theorem dirEntry_cases {offset : Nat} {s s' : DirScan} (h : dirEntry m offset s = .ok s') :
    (¬ LiveName m offset ∧ (dirIno m offset ≠ 0 → dirIndex m offset = 0) ∧ s'.refs = s.refs) ∨
      (LiveName m offset ∧ dirIndex m offset ∉ s.refs ∧
        s'.refs = s.refs ++ [dirIndex m offset]) := by
  obtain ⟨-, h⟩ := failIf_bind_ok.mp h
  obtain ⟨-, h⟩ := failIf_bind_ok.mp h
  split at h
  · rename_i hzero
    obtain rfl := Except.ok.inj h
    exact Or.inl ⟨fun hlive => hlive.1 hzero, fun hino => absurd hzero hino, rfl⟩
  · rename_i hino
    split at h
    · rename_i hdot
      obtain ⟨hroot, h⟩ := failIf_bind_ok.mp h
      obtain rfl := Except.ok.inj h
      exact Or.inl ⟨fun hlive => hlive.2.1 hdot, fun _ => by rw [dirIndex]; omega, rfl⟩
    · rename_i hdot
      split at h
      · rename_i hdotdot
        obtain ⟨hroot, h⟩ := failIf_bind_ok.mp h
        obtain rfl := Except.ok.inj h
        exact Or.inl ⟨fun hlive => hlive.2.2 hdotdot, fun _ => by rw [dirIndex]; omega, rfl⟩
      · rename_i hdotdot
        obtain ⟨-, h⟩ := failIf_bind_ok.mp h
        obtain ⟨hfresh, h⟩ := failIf_bind_ok.mp h
        obtain rfl := Except.ok.inj h
        exact Or.inr ⟨⟨hino, hdot, hdotdot⟩, hfresh, rfl⟩

theorem dirWalk_cases {offset : Nat} {s s' : DirScan} (h : dirWalk m offset s = .ok s') :
    (defBlockSize ≤ offset ∧ s' = s) ∨ (offset < defBlockSize ∧ 0 < dirRec m offset ∧
      ∃ mid, dirEntry m offset s = .ok mid ∧
        dirWalk m (offset + dirRec m offset) mid = .ok s') := by
  rw [dirWalk] at h
  split at h
  · rename_i hlt
    split at h
    · exact absurd h (by simp)
    · rename_i hok
      obtain ⟨mid, hmid, h⟩ := bind_eq_ok.mp h
      simp only [dirBadLength, not_or] at hok
      exact Or.inr ⟨hlt, Nat.pos_of_ne_zero hok.1, mid, hmid, h⟩
  · rename_i hge
    exact Or.inl ⟨Nat.not_lt.mp hge, (Except.ok.inj h).symm⟩

/-- **A successful walk collects the live names**, each of them once; any other record in use
names the root directory. -/
theorem dirWalk_names (k : Nat) : ∀ {offset : Nat} {s s' : DirScan}, defBlockSize - offset = k →
    dirWalk m offset s = .ok s' → s.refs.Nodup →
      s'.refs = s.refs ++ (liveNames m offset).map (dirIndex m) ∧ s'.refs.Nodup ∧
        ∀ o ∈ dirRecords m offset, dirIno m o ≠ 0 → LiveName m o ∨ dirIndex m o = 0 := by
  induction k using Nat.strong_induction_on with
  | _ k ih =>
    intro offset s s' hk h hnodup
    rw [liveNames, dirRecords]
    rcases dirWalk_cases h with ⟨hge, rfl⟩ | ⟨hlt, hpos, mid, hmid, hrest⟩
    · rw [if_neg (by omega)]
      exact ⟨(List.append_nil _).symm, hnodup, by simp⟩
    · rw [if_pos ⟨hlt, hpos⟩]
      have htail := ih (defBlockSize - (offset + dirRec m offset)) (by omega) rfl hrest
      rcases dirEntry_cases hmid with ⟨hdead, hdot, hrefs⟩ | ⟨hlive, hfresh, hrefs⟩
      · rw [List.filter_cons_of_neg (by simpa using hdead)]
        rw [hrefs] at htail
        obtain ⟨hall, hnd, hdots⟩ := htail hnodup
        exact ⟨hall, hnd, List.forall_mem_cons.mpr ⟨fun hino => Or.inr (hdot hino), hdots⟩⟩
      · obtain ⟨hall, hnd, hdots⟩ := htail (by
          rw [hrefs]
          exact List.nodup_append.mpr ⟨hnodup, List.nodup_singleton _, fun a ha b hb => by
            rw [List.mem_singleton.mp hb]
            exact fun hab => hfresh (hab ▸ ha)⟩)
        rw [List.filter_cons_of_pos (by simpa using hlive), List.map_cons]
        refine ⟨?_, hnd, List.forall_mem_cons.mpr ⟨fun _ => Or.inl hlive, hdots⟩⟩
        rw [hall, hrefs, List.append_assoc, List.singleton_append]
        rfl

end Walk

/-! ## 2. Both directions -/

section Sound

variable {δ : Type}

/-- The inode indices the live records of the root directory name, in order. -/
def namedIndices (img : Image δ) : List Nat :=
  (liveNames (dirMemory img) 0).map (dirIndex (dirMemory img))

/-- **The namespace is sound**: the names and the allocated files are the same, each file has one
name, and no record in use, "." and ".." included, names an inode that is not allocated. -/
structure NamespaceSound (img : Image δ) : Prop where
  exact : ∀ i, i ∈ namedIndices img ↔ RegularAt img i
  once : (namedIndices img).Nodup
  allocated : ∀ o ∈ dirRecords (dirMemory img) 0, dirIno (dirMemory img) o ≠ 0 →
    imageBitmapTest img.inodeBitmap (dirIndex (dirMemory img) o) = true

variable [BlockDev δ] {img : Image δ} {refs : List Nat} {ts : List Tally} {free : List Interval}

theorem Scrubbed.names (h : Scrubbed img refs ts free) :
    refs = namedIndices img ∧ (namedIndices img).Nodup ∧
      ∀ o ∈ dirRecords (dirMemory img) 0, dirIno (dirMemory img) o ≠ 0 →
        dirIndex (dirMemory img) o ∈ namedIndices img ∨ dirIndex (dirMemory img) o = 0 := by
  obtain ⟨hrefs, hnodup, hdots⟩ := dirWalk_names _ rfl h.dir List.nodup_nil
  have hnamed : refs = namedIndices img := hrefs
  refine ⟨hnamed, hnamed ▸ hnodup, fun o ho hino => ?_⟩
  refine (hdots o ho hino).imp_left fun hlive => ?_
  exact List.mem_map_of_mem (List.mem_filter.mpr ⟨ho, decide_eq_true hlive⟩)

/-- What the inode loop knows about an allocated inode: the directory, or a file with a name. -/
theorem Scrubbed.allocated (h : Scrubbed img refs ts free) {i : Nat} (hi : i < maxInodes)
    (hbit : imageBitmapTest img.inodeBitmap i = true) :
    sIsDir (iMode (img.inodeTable i)) ∨ (sIsReg (iMode (img.inodeTable i)) ∧ i ∈ refs) := by
  obtain ⟨t, ht⟩ := forall₂_left h.inodes (List.mem_range.mpr hi)
  rcases checkInode_iff.mp ht with ⟨hclear, -⟩ | ⟨-, -, ⟨hdir, -⟩ | ⟨hreg, href, -⟩⟩
  · rw [hbit] at hclear
    exact absurd hclear (by simp)
  · exact Or.inl hdir
  · exact Or.inr ⟨hreg, href⟩

/-- **Scrub enforces one direction.**  On an image that scrubs clean the namespace is sound
exactly when every name other than "." and ".." is the name of an allocated inode that is not a
directory. -/
theorem namespace_sound_iff {rep : ScrubReport} (hval : imageValidate img = .ok rep) :
    NamespaceSound img ↔ ∀ i ∈ namedIndices img, imageBitmapTest img.inodeBitmap i = true ∧
      ¬ sIsDir (iMode (img.inodeTable i)) := by
  obtain ⟨refs, ts, free, h, -⟩ := imageValidate_iff.mp hval
  obtain ⟨hrefs, hnodup, hrecords⟩ := h.names
  subst hrefs
  constructor
  · intro hsound i hi
    obtain ⟨-, hbit, hreg⟩ := (hsound.exact i).mp hi
    exact ⟨hbit, sIsReg.not_dir hreg⟩
  · intro hnames
    refine ⟨fun i => ⟨fun hi => ?_, fun hr => ?_⟩, hnodup, fun o ho hino => ?_⟩
    · obtain ⟨hbit, hdir⟩ := hnames i hi
      have hlt := imageBitmapTest_lt hbit
      exact ⟨hlt, hbit, ((h.allocated hlt hbit).resolve_left hdir).1⟩
    · exact ((h.allocated hr.1 hr.2.1).resolve_left hr.2.2.not_dir).2
    · rcases hrecords o ho hino with hin | hzero
      · exact (hnames _ hin).1
      · rw [hzero]
        exact h.rootBit

theorem oneFile_namespace_sound : ∃ img rep,
    imageValidate (δ := ByteFile) img = .ok rep ∧ namedIndices img = [1] ∧
      NamespaceSound img := by
  have hscrub := @oneFile_scrubbed 16 1 (fun _ => zeros 4096) false (fun _ => 0) (by norm_num)
    (by norm_num) (by decide)
  have hnamed := hscrub.names.1.symm
  have hval := imageValidate_iff.mpr ⟨_, _, _, hscrub, rfl⟩
  refine ⟨_, _, hval, hnamed, (namespace_sound_iff hval).mpr fun i hi => ?_⟩
  rw [hnamed] at hi
  obtain rfl := List.mem_singleton.mp hi
  have hmode := (@fileInode_fields 1 8 (by norm_num) (by norm_num)).1
  rw [oneFileImage, volumeImage_bitmap, volumeImage_inode_one, hmode,
    (byteBitmap_firstByte (by norm_num)).test]
  exact ⟨rfl, by decide⟩

/-- A volume that scrubs clean although its only name leads nowhere. -/
theorem danglingFile_namespace_unsound : ∃ f img0 img rep,
    imageOpen f false (fun _ => 0) = .ok img0 ∧ imageLoad img0 = .ok img ∧
      imageValidate img = .ok rep ∧ namedIndices img = [1] ∧
      imageBitmapTest img.inodeBitmap 1 = false ∧ ¬ NamespaceSound img := by
  have hscrub := @danglingFile_scrubbed 16 false (fun _ => 0) (by norm_num) (by norm_num)
  obtain ⟨hopen, hload, -⟩ := (danglingFile_volume (n := 16) (by norm_num) (by norm_num)).load
    false fun _ => 0
  have hnamed := hscrub.names.1.symm
  have hclear : imageBitmapTest (volumeImage (danglingFile 16 (by norm_num)) 16 1 8 (zeros 512)
      false fun _ => 0).inodeBitmap 1 = false := by
    rw [volumeImage_bitmap, (byteBitmap_firstByte (by norm_num)).test]
    rfl
  refine ⟨_, _, _, _, hopen, hload, imageValidate_iff.mpr ⟨_, _, _, hscrub, rfl⟩, hnamed, hclear,
    fun hsound => ?_⟩
  obtain ⟨-, hbit, -⟩ := (hsound.exact 1).mp (by rw [hnamed]; exact List.mem_singleton.mpr rfl)
  rw [hclear] at hbit
  exact absurd hbit (by simp)

end Sound

/-! ## 3. The root directory

No test asks whether inode 0 is a directory.  Its bit must be set, so the inode loop takes it for
a directory or for a file; a file must have a name, and the directory walk lets a record other
than "." and ".." name inode 16. -/

section Root

variable {δ : Type}

/-- **There is a root directory**: inode 0 is a directory and lies in the block the checkpoint
root gives, no other inode is one, and the report counts it. -/
structure RootDirectory (img : Image δ) (rep : ScrubReport) : Prop where
  dir : sIsDir (iMode (img.inodeTable 0))
  place : iExtentRoot (img.inodeTable 0) = crRootDirBlock img.checkpointRoot
  only : ∀ i, i < maxInodes → sIsDir (iMode (img.inodeTable i)) → i = 0
  counted : rep.directories = 1

theorem checkInode_dir {rd : Nat → Except Fail Block} {img : Image δ} {refs : List Nat}
    {index : Nat} {t : Tally} (h : checkInode rd img refs index = .ok t)
    (hdir : sIsDir (iMode (img.inodeTable index))) :
    index = 0 ∧ iExtentRoot (img.inodeTable index) = crRootDirBlock img.checkpointRoot := by
  rcases checkInode_iff.mp h with ⟨-, hmode, -⟩ | ⟨-, -, ⟨-, h0, hroot, -⟩ | ⟨hreg, -⟩⟩
  · rw [hmode] at hdir
    exact absurd hdir (by decide)
  · exact ⟨h0, hroot⟩
  · exact absurd hdir hreg.not_dir

theorem checkInode_directories {rd : Nat → Except Fail Block} {img : Image δ} {refs : List Nat}
    {index : Nat} {t : Tally} (h : checkInode rd img refs index = .ok t) :
    t.directories = if sIsDir (iMode (img.inodeTable index)) then 1 else 0 := by
  rcases checkInode_iff.mp h with ⟨-, hmode, rfl⟩ | ⟨-, -, ⟨hdir, -, -, rfl⟩ | ⟨hreg, -, n, used,
    -, rfl⟩⟩
  · rw [hmode]
    rfl
  · rw [if_pos hdir]
  · rw [if_neg hreg.not_dir]

variable [BlockDev δ] {img : Image δ} {refs : List Nat} {ts : List Tally} {free : List Interval}

theorem Scrubbed.only_dir (h : Scrubbed img refs ts free) {i : Nat} (hi : i < maxInodes)
    (hdir : sIsDir (iMode (img.inodeTable i))) :
    i = 0 ∧ iExtentRoot (img.inodeTable i) = crRootDirBlock img.checkpointRoot := by
  obtain ⟨t, ht⟩ := forall₂_left h.inodes (List.mem_range.mpr hi)
  exact checkInode_dir ht hdir

theorem Scrubbed.directories (h : Scrubbed img refs ts free) :
    (ts.map Tally.directories).sum = if sIsDir (iMode (img.inodeTable 0)) then 1 else 0 := by
  rw [map_eq_of_forall₂ h.inodes fun i t ht => checkInode_directories ht]
  have hsplit : List.range maxInodes = 0 :: (List.range 32639).map Nat.succ :=
    List.range_succ_eq_map
  have hrest : (((List.range 32639).map Nat.succ).map fun i =>
      if sIsDir (iMode (img.inodeTable i)) then 1 else 0).sum = 0 := by
    refine List.sum_eq_zero fun x hx => ?_
    obtain ⟨j, hj, rfl⟩ := List.mem_map.mp hx
    obtain ⟨i, hi, rfl⟩ := List.mem_map.mp hj
    have hlt := List.mem_range.mp hi
    refine if_neg fun hdir => ?_
    exact Nat.succ_ne_zero i (h.only_dir (by simp only [maxInodes]; omega) hdir).1
  rw [hsplit, List.map_cons, List.sum_cons, hrest, Nat.add_zero]

/-- **Scrub asks for a directory only behind a missing name.**  On an image that scrubs clean
there is a root directory exactly when no record other than "." and ".." names inode 16 as a
regular file. -/
theorem root_directory_iff {rep : ScrubReport} (hval : imageValidate img = .ok rep) :
    RootDirectory img rep ↔
      (0 ∈ namedIndices img → ¬ sIsReg (iMode (img.inodeTable 0))) := by
  obtain ⟨refs, ts, free, h, rfl⟩ := imageValidate_iff.mp hval
  constructor
  · intro hroot _ hreg
    exact hreg.not_dir hroot.dir
  · intro hnamed
    have hdir : sIsDir (iMode (img.inodeTable 0)) := by
      rcases h.allocated (by norm_num) h.rootBit with hdir | ⟨hreg, href⟩
      · exact hdir
      · rw [h.names.1] at href
        exact absurd hreg (hnamed href)
    refine ⟨hdir, (h.only_dir (by norm_num) hdir).2, fun i hi hd => (h.only_dir hi hd).1, ?_⟩
    rw [reportOf, h.directories, if_pos hdir]

theorem oneFile_root_directory : ∃ img rep,
    imageValidate (δ := ByteFile) img = .ok rep ∧ RootDirectory img rep := by
  have hscrub := @oneFile_scrubbed 16 1 (fun _ => zeros 4096) false (fun _ => 0) (by norm_num)
    (by norm_num) (by decide)
  have hnamed := hscrub.names.1.symm
  have hval := imageValidate_iff.mpr ⟨_, _, _, hscrub, rfl⟩
  refine ⟨_, _, hval, (root_directory_iff hval).mpr fun h0 => ?_⟩
  rw [hnamed] at h0
  exact absurd h0 (by simp)

/-- A volume whose inode 0 is an empty regular file with the name "a". -/
def rootFileBlocks (k : Nat) : Block :=
  if k = 2 then overlay (zeros 4096) 0 (fileInode 0 8)
  else if k = 3 then nameDir 16
  else if k = 8 then sealAt (zeros 4096) 12
  else volumeBoot 16 1 9 (zeros 512) k

def rootFile : ByteFile := .ofBlocks 16 rootFileBlocks (by norm_num)

theorem rootFile_plain : PlainFile rootFile 16 := by
  refine ⟨by decide, rfl, by norm_num, ?_⟩
  have hfront : rootFile.blockAt (0 * 4096) = zeros 4096 :=
    ByteFile.blockAt_ofBlocks rootFileBlocks (by norm_num) (by norm_num)
  rw [Nat.zero_mul] at hfront
  rw [labelOf, hfront, slice_zeros, plMagic, le32, getLE_zeros]
  decide

/-- The loaded volume. -/
def rootFileImage : Image ByteFile :=
  loadedImage (plainImage rootFile 16 false fun _ => 0) rootFileBlocks

theorem rootFile_read {k : Nat} (hk : k < 16) :
    imageReadBlock rootFileImage k = .ok (rootFileBlocks k) := by
  rw [rootFileImage, loadedImage_read, plainImage_read rootFile_plain false _ hk, rootFile,
    ByteFile.blockAt_ofBlocks _ _ hk]

theorem rootFile_load : imageOpen rootFile false (fun _ => 0)
      = .ok (plainImage rootFile 16 false fun _ => 0) ∧
    imageLoad (plainImage rootFile 16 false fun _ => 0) = .ok rootFileImage := by
  have hok := @volumeBoot_ok 16 1 9 rootFile (zeros 512) false (fun _ => 0) (by norm_num)
    (by norm_num) (by norm_num) (by norm_num)
  have hok' : BootOk (plainImage rootFile 16 false fun _ => 0) rootFileBlocks :=
    ⟨hok.superOk, hok.rootInode, hok.journalAddr, hok.rootOk, hok.journalOk, hok.bitmapOk,
      hok.freeSum, hok.freeCount⟩
  refine ⟨plainFile_open rootFile_plain false _, ((imageLoad_boot fun k _ hk => ?_).mp
    ⟨hok', rfl⟩).1⟩
  have hread := rootFile_read (show k < 16 by omega)
  rwa [rootFileImage, loadedImage_read] at hread

theorem rootFile_table (i : Nat) : rootFileImage.inodeTable i
    = if i = 0 then fileInode 0 8 else zeros 512 := by
  have htable : rootFileImage.inodeTable i
      = tableOf (overlay (zeros 4096) 0 (fileInode 0 8)) (fun _ => zeros 512) i := rfl
  rw [htable, tableOf]
  split
  · by_cases hi : i = 0
    · subst hi
      exact slice_overlay_self _ _ _ (by norm_num)
    · rw [if_neg hi, slice_overlay_of_disjoint _ _ _ _ _ (by norm_num) (by omega), slice_zeros]
  · rw [if_neg (by omega)]

theorem rootFile_scrubbed : Scrubbed rootFileImage [0]
    (fewTallies 1 fun _ => ⟨[⟨8, 1⟩], 1, 0, 0⟩) (tailOf 9 16) := by
  have hbitmap : rootFileImage.inodeBitmap = byteBitmap 1 := rfl
  have htest : ∀ i, imageBitmapTest rootFileImage.inodeBitmap i
      = (decide (i < 8) && Nat.testBit 1 i) := by
    rw [hbitmap]
    exact (byteBitmap_firstByte (by norm_num)).test
  have htail := volumeImage_tail 16 1 9 (zeros 512) rootFile false (fun _ => 0) (by norm_num)
    (by norm_num) (by norm_num)
  have htail' : FreeTail rootFileImage 9 :=
    ⟨htail.ge, htail.le, htail.lt, htail.last, htail.one, htail.none, htail.count⟩
  have hblocks : rootFileImage.blocks = 16 :=
    volumeImage_blocks 16 1 9 (zeros 512) rootFile false (fun _ => 0) (by norm_num)
  have hinodes : List.Forall₂ (fun i t => checkInode (imageReadBlock rootFileImage) rootFileImage
      [0] i = .ok t) (List.range maxInodes) (fewTallies 1 fun _ => ⟨[⟨8, 1⟩], 1, 0, 0⟩) := by
    refine few_inodes (by norm_num) (fun i hi => ?_) fun i hi => ⟨?_, ?_⟩
    · obtain rfl : i = 0 := by omega
      refine checkInode_iff.mpr (Or.inr ⟨by rw [htest]; rfl, ?_⟩)
      rw [rootFile_table, if_pos rfl, (@fileInode_fields 0 8 (by norm_num) (by norm_num)).1]
      refine ⟨inode_sealed _, Or.inr ⟨by decide, List.mem_singleton.mpr rfl, 0, _, ?_, rfl⟩⟩
      exact emptyNode_checkFile (by rw [hblocks]; norm_num) (rootFile_read (by norm_num))
    · rw [htest, Nat.testBit_lt_two_pow (Nat.one_lt_two_pow (by omega)), Bool.and_false]
    · rw [rootFile_table, if_neg (by omega)]
      exact getLE_zeros _ _ _
  have hused : Tiles 8 9
      ((fewTallies 1 fun _ => (⟨[⟨8, 1⟩], 1, 0, 0⟩ : Tally)).flatMap Tally.used) := by
    rw [fewTallies_used]
    exact ⟨rfl, Nat.one_pos, rfl⟩
  have hscrub : Scrubbed rootFileImage [0] _ (tailOf 9 rootFileImage.blocks) := scrubbed_of_tiles
    (volumeImage_memberCount 16 1 9 (zeros 512) rootFile false fun _ => 0)
    (volumeImage_profile 16 1 9 (zeros 512) rootFile false (fun _ => 0) (by norm_num))
    (volumeImage_rootDirBlock 16 1 9 (zeros 512) rootFile false (fun _ => 0) (by norm_num))
    (volumeImage_clean 16 1 9 (zeros 512) rootFile false fun _ => 0) (by rw [htest]; rfl)
    (nameDir_walk (le_refl 16) (by norm_num) fun i hi => if_pos hi) hinodes hused htail'
  rwa [hblocks] at hscrub

/-- A volume that opens, loads and scrubs clean without a root directory. -/
theorem rootFile_no_root_directory : ∃ f img0 img rep,
    imageOpen f false (fun _ => 0) = .ok img0 ∧ imageLoad img0 = .ok img ∧
      imageValidate img = .ok rep ∧ sIsReg (iMode (img.inodeTable 0)) ∧ rep.directories = 0 ∧
      ¬ RootDirectory img rep := by
  have hdirs := rootFile_scrubbed.directories
  have hreg : sIsReg (iMode (rootFileImage.inodeTable 0)) := by
    rw [rootFile_table, if_pos rfl, (@fileInode_fields 0 8 (by norm_num) (by norm_num)).1]
    decide
  rw [if_neg hreg.not_dir] at hdirs
  exact ⟨rootFile, _, _, _, rootFile_load.1, rootFile_load.2,
    imageValidate_iff.mpr ⟨_, _, _, rootFile_scrubbed, rfl⟩, hreg, hdirs,
    fun hroot => hreg.not_dir hroot.dir⟩

end Root

end AetherFs
