/-
# The volume that comes out

`packedBlocks` says what is in the compacted volume, block by block.  Here it is looked at as a
file system: any image that is opened over these blocks (`HoldsPacked`) loads, and what it loads is
`packedImage`.

Its directory, bitmap and checkpoint root are those of the source, its inodes differ in the extent
root and the checksum, its free space is a tail, and its files are the files of the source
(`files_packedImage`).  Scrub accepts it (`packedImage_validate`) under one condition that
compaction does not establish by itself: NO FILE IS EMPTY.
-/
import AetherFs.Rebalance.Source

namespace AetherFs

open Lib

/-! ## 1. Loading it -/

/-- A clean image whose metadata is in the usual places. -/
structure Standard (source : Image ByteFile) (boot : Nat → Block) : Prop where
  clean : Clean source
  loaded : ∃ opened, BootOk opened boot ∧ source = loadedImage opened boot

/-- An image that has been opened over the compacted volume. -/
structure HoldsPacked (source : Image ByteFile) (boot : Nat → Block) (opened : Image ByteFile) :
    Prop where
  single : opened.memberCount = 1
  label : opened.poolLabel = source.poolLabel
  table : ∀ i, 8 ≤ i → opened.inodeTable i = zeros 512
  reads : ∀ b, b < (packed (files source) boot).next →
    imageReadBlock opened b = .ok (packedBlocks (files source) boot source.blocks b)

/-- What is loaded from it. -/
def packedImage (source : Image ByteFile) (boot : Nat → Block) (opened : Image ByteFile) :
    Image ByteFile := loadedImage opened (packedBlocks (files source) boot source.blocks)

section Tail

variable {next blocks : Nat}

theorem tailNode_fields (hle : next ≤ blocks) (hb : blocks < 2 ^ 64) :
    enNext (tailNode next blocks) = 0 ∧
      (next < blocks → enCount (tailNode next blocks) = 1 ∧
        ePstart (enExtent (tailNode next blocks) 0) = next ∧
        eLen (enExtent (tailNode next blocks) 0) = blocks - next) ∧
      (next = blocks → enCount (tailNode next blocks) = 0) := by
  rw [tailNode]
  split
  · obtain ⟨hnext, hfields⟩ := @freeNode_fields next (blocks - next) (by omega) (by omega)
    exact ⟨hnext, fun _ => hfields, fun heq => by omega⟩
  · refine ⟨?_, fun hlt => by omega, fun _ => ?_⟩
    · simp only [enNext, le64, put32]
      simp (disch := decide) only [getLE_sealAt, getLE_putLE_of_disjoint, getLE_zeros]
    · simp only [enCount, le32, put32]
      simp (disch := decide) only [getLE_sealAt, getLE_putLE_self]
      norm_num

theorem tailNode_few (hle : next ≤ blocks) (hb : blocks < 2 ^ 64) :
    enCount (tailNode next blocks) ≤ 102 := by
  obtain ⟨-, hone, hnone⟩ := tailNode_fields hle hb
  rcases Nat.lt_or_eq_of_le hle with hlt | heq
  · rw [(hone hlt).1]
    norm_num
  · rw [hnone heq]
    norm_num

theorem tailNode_sealed (next blocks : Nat) :
    enChecksum (tailNode next blocks) = extentNodeChecksum (tailNode next blocks) := by
  rw [tailNode]
  split
  · exact extentNode_sealed _
  · exact extentNode_sealed _

end Tail

section Fields

variable {source opened : Image ByteFile} {boot : Nat → Block}

theorem Standard.table (h : Standard source boot) : source.inodeTable = (unpacked boot).table := by
  obtain ⟨img, -, hsrc⟩ := h.loaded
  have hfew := h.clean.few
  funext i
  change source.inodeTable i = tableOf (boot 2) (fun _ => zeros 512) i
  by_cases hi : i < 8
  · rw [hsrc, loadedImage, tableOf, if_pos hi]
    exact if_pos hi
  · rw [hfew i (Nat.not_lt.mp hi), tableOf, if_neg hi]

theorem Standard.super (h : Standard source boot) : source.super = slice (boot 1) 0 256 := by
  obtain ⟨img, -, hsrc⟩ := h.loaded
  rw [hsrc, loadedImage_super]

theorem Standard.journal (h : Standard source boot) : source.journal = slice (boot 4) 0 48 := by
  obtain ⟨img, -, hsrc⟩ := h.loaded
  rw [hsrc, loadedImage_journal]

theorem Standard.blocks (h : Standard source boot) :
    source.blocks = sBlocksCount (slice (boot 1) 0 256) := by
  obtain ⟨img, -, hsrc⟩ := h.loaded
  rw [hsrc, loadedImage_blocks]

/-- Where compaction ends: inside the image, and inside what the label serves. -/
theorem Standard.fits (h : Standard source boot) :
    (packed (files source) boot).next ≤ source.blocks ∧
      ∀ b, b < (packed (files source) boot).next → Served source b := by
  rw [packed]
  exact h.clean.fits rfl (by norm_num)

theorem Standard.files_none (h : Standard source boot) {i : Nat} (hi : 8 ≤ i) :
    files source i = none := by
  rw [files, if_neg]
  intro hr
  exact absurd (h.clean.regular_lt hr.2) (Nat.not_lt.mpr hi)

variable (h : Standard source boot) (opened)

theorem packedImage_super : (packedImage source boot opened).super
    = setFreeBlocks (slice (boot 1) 0 256) (source.blocks - (packed (files source) boot).next) := by
  rw [packedImage, loadedImage_super]
  exact slice_overlay_self _ _ _ (by norm_num)

theorem packedImage_journal :
    (packedImage source boot opened).journal = cleanJournal (slice (boot 4) 0 48) := by
  rw [packedImage, loadedImage_journal]
  exact slice_overlay_self _ _ _ (by norm_num)

theorem packedImage_freeExtents : (packedImage source boot opened).freeExtents
    = tailNode (packed (files source) boot).next source.blocks := by
  rw [packedImage, loadedImage_freeExtents]
  rfl

include h

theorem packedImage_blocks : (packedImage source boot opened).blocks = source.blocks := by
  have hsuper : slice (packedBlocks (files source) boot source.blocks 1) 0 256 = setFreeBlocks
      (slice (boot 1) 0 256) (source.blocks - (packed (files source) boot).next) :=
    packedImage_super opened
  rw [packedImage, loadedImage_blocks, hsuper, h.blocks]
  exact setFreeBlocks_differs _ _ 12 8 (by decide)

theorem packedImage_kept :
    (packedImage source boot opened).inodeBitmap = source.inodeBitmap ∧
      (packedImage source boot opened).rootDir = source.rootDir ∧
      (packedImage source boot opened).checkpointRoot = source.checkpointRoot := by
  obtain ⟨img, -, hsrc⟩ := h.loaded
  have hkept : ∀ b, b = 3 ∨ b = 5 ∨ b = 7 →
      packedBlocks (files source) boot source.blocks b = boot b := fun b hb =>
    packedBlocks_kept (by omega) (by omega) (by omega) (by omega) (by omega)
  refine ⟨(hkept 5 (by norm_num)).trans ?_, (hkept 3 (by norm_num)).trans ?_,
    (hkept 7 (by norm_num)).trans ?_⟩
  · rw [hsrc, loadedImage_inodeBitmap]
  · rw [hsrc, loadedImage_rootDir]
  · rw [hsrc, loadedImage_checkpointRoot]

/-- **Its free space is a tail.** -/
theorem packedImage_freeTail :
    FreeTail (packedImage source boot opened) (packed (files source) boot).next := by
  have hle := h.fits.1
  have hlt := h.clean.lt
  obtain ⟨hlast, hone, hnone⟩ := tailNode_fields hle hlt
  have hfree := @packedImage_freeExtents source opened boot
  refine ⟨packed_next_ge, ?_, ?_, ?_, ?_, ?_, ?_⟩
  · rw [packedImage_blocks opened h]
    exact hle
  · rw [packedImage_blocks opened h]
    exact hlt
  · rw [hfree, hlast]
  · rw [packedImage_blocks opened h, hfree]
    exact hone
  · rw [packedImage_blocks opened h, hfree]
    exact hnone
  · rw [packedImage_super, packedImage_blocks opened h, sFreeBlocks_setFreeBlocks _ (by omega)]

theorem HoldsPacked.bootOk (hH : HoldsPacked source boot opened) :
    BootOk opened (packedBlocks (files source) boot source.blocks) := by
  obtain ⟨img, hok, hsrc⟩ := h.loaded
  have hcount : img.memberCount = 1 := by
    have hsingle := h.clean.single
    rwa [hsrc, loadedImage_memberCount] at hsingle
  have hlabel : img.poolLabel = source.poolLabel := by rw [hsrc, loadedImage_poolLabel]
  have hbitmap : packedBlocks (files source) boot source.blocks 5 = boot 5 :=
    packedBlocks_kept (by norm_num) (by norm_num) (by norm_num) (by norm_num) (by norm_num)
  have hjournal : slice (packedBlocks (files source) boot source.blocks 4) 0 48
      = cleanJournal (slice (boot 4) 0 48) := packedImage_journal opened
  have hroot : packedBlocks (files source) boot source.blocks 7 = boot 7 :=
    packedBlocks_kept (by norm_num) (by norm_num) (by norm_num) (by norm_num) (by norm_num)
  refine (hok.congr (hH.label.trans hlabel.symm) (hH.single.trans hcount.symm)).update
    (packedImage_super opened) ?_ ?_ (tailNode_sealed _ _) (tailNode_few h.fits.1 h.clean.lt) hroot
  · rw [hjournal]
    exact ilChecksum_sealJournal _
  · rw [hbitmap]
    exact hok.bitmapOk

/-- **It loads.** -/
theorem HoldsPacked.load (hH : HoldsPacked source boot opened) :
    imageLoad opened = .ok (packedImage source boot opened) ∧
      sRootInode (packedImage source boot opened).super = 2 ∧
      sJournalAddr (packedImage source boot opened).super = 4 := by
  refine (imageLoad_boot fun k _ hk => ?_).mp ⟨hH.bootOk opened h, rfl⟩
  exact hH.reads k (Nat.lt_of_lt_of_le hk packed_next_ge)

end Fields

/-! ## 2. Its inodes -/

section Inodes

variable {source opened : Image ByteFile} {boot : Nat → Block} {index : Nat}

theorem setExtentRoot_differs (inode : Inode) (root : Nat) :
    DiffersOnly [(52, 8), (100, 4)] (setExtentRoot inode root) inode :=
  (differsOnly_sealAt _ (by decide)).trans (differsOnly_putLE _ _ (by decide))

theorem iExtentRoot_setExtentRoot (inode : Inode) {root : Nat} (h : root < 2 ^ 64) :
    iExtentRoot (setExtentRoot inode root) = root := by
  simp only [iExtentRoot, setExtentRoot, le64, put64]
  simp (disch := decide) only [getLE_sealAt, getLE_putLE_self]
  exact Nat.mod_eq_of_lt h

/-- A file keeps its inode, except that it is rooted at its new place. -/
theorem packedImage_inode (h : Standard source boot) (hH : HoldsPacked source boot opened) (index : Nat) :
    (packedImage source boot opened).inodeTable index = match files source index with
      | none => source.inodeTable index
      | some data => setExtentRoot (source.inodeTable index)
          (newRoot (files source) (unpacked boot) index data) := by
  have htable : (packedImage source boot opened).inodeTable index
      = (packed (files source) boot).table index := by
    rw [← tableOf_packed (fun i hi => h.files_none hi) index]
    change tableOf (inodeTableBlock (packed (files source) boot).table) opened.inodeTable index = _
    rw [tableOf, tableOf]
    split
    · rfl
    · rename_i hge
      exact hH.table index (Nat.not_lt.mp hge)
  rw [htable, h.table, packed]
  by_cases hi : 1 ≤ index ∧ index ≤ maxInodes - 1
  · exact placed_table hi.1 hi.2
  · have hnone : files source index = none := by
      rw [files, if_neg]
      rintro ⟨h1, hlt, -⟩
      exact hi ⟨h1, Nat.le_sub_one_of_lt hlt⟩
    rw [hnone, placed_table_other (by omega)]

theorem packedImage_differs (h : Standard source boot) (hH : HoldsPacked source boot opened)
    (index : Nat) : DiffersOnly [(52, 8), (100, 4)]
      ((packedImage source boot opened).inodeTable index) (source.inodeTable index) := by
  rw [packedImage_inode h hH]
  cases files source index with
  | none => exact DiffersOnly.refl _ _
  | some data => exact setExtentRoot_differs _ _

theorem packedImage_regular (h : Standard source boot) (hH : HoldsPacked source boot opened) :
    RegularAt (packedImage source boot opened) index ↔ RegularAt source index := by
  have hmode : iMode ((packedImage source boot opened).inodeTable index)
      = iMode (source.inodeTable index) := packedImage_differs h hH index 0 2 (by decide)
  rw [RegularAt, RegularAt, hmode, (packedImage_kept opened h).1]

/-! ## 3. Its files -/

theorem packedImage_file (h : Standard source boot) (hH : HoldsPacked source boot opened)
    {data : List Block} (hdata : files source index = some data) (hpos : 0 < data.length) :
    ∃ root, 8 ≤ root ∧ root + span data.length ≤ source.blocks ∧
      root = rootOf (files source) (unpacked boot) index ∧
      iExtentRoot ((packedImage source boot opened).inodeTable index) = root ∧
      CompactFile (imageReadBlock (packedImage source boot opened)) root data.length
        fun i => data.getD i (zeros 4096) := by
  obtain ⟨h1, hr, -⟩ := files_eq_some.mp hdata
  have hK : index ≤ maxInodes - 1 := Nat.le_sub_one_of_lt hr.1
  obtain ⟨hend, hcontent⟩ := @placed_file (files source) (unpacked boot) _ _ _ h1 hK hdata hpos
  rw [← packed] at hend hcontent
  have h8 : 8 ≤ rootOf (files source) (unpacked boot) index :=
    @placed_next_mono (files source) (unpacked boot) 0 (index - 1) (Nat.zero_le _)
  have hle := h.fits.1
  have hlt := h.clean.lt
  refine ⟨_, h8, hend.trans hle, rfl, ?_, compactFile_of_fileBlock fun k hk => ?_⟩
  · rw [packedImage_inode h hH, hdata]
    simp only [newRoot, if_neg (Nat.pos_iff_ne_zero.mp hpos)]
    exact iExtentRoot_setExtentRoot _ (by omega)
  · rw [packedImage, loadedImage_read, hH.reads _ (by omega), packedBlocks_other (by omega)
      (by omega) (by omega) (by omega), hcontent k hk]

/-- A file in one piece is the list of its blocks. -/
theorem CompactFile.fileData {img : Image ByteFile} {root : Nat} {data : List Block}
    (h : CompactFile (imageReadBlock img) root data.length fun i => data.getD i (zeros 4096))
    (hroot : iExtentRoot (img.inodeTable index) = root)
    (hend : root + 1 + data.length < 2 ^ 64) : fileData img index = .ok data := by
  obtain ⟨-, hcount, -, hstart, -, hlen⟩ := @newExtents_fields (root + 1) (root + 1 + data.length)
    data.length (by omega) (by omega) (by omega)
  have hext : fileExtents img index
      = [enExtent (newExtents (root + 1) (root + 1 + data.length) data.length) 0] := by
    rw [fileExtents, hroot, h.node]
    exact enExtents_one hcount
  have haddrs : fileAddrs (fileExtents img index)
      = (List.range data.length).map fun k => root + 1 + k := by
    rw [hext, fileAddrs, List.flatMap_singleton, hstart, hlen]
  rw [AetherFs.fileData, haddrs, mapM_eq_ok, List.forall₂_map_left_iff, List.forall₂_iff_get]
  refine ⟨List.length_range, fun i hi hi' => ?_⟩
  rw [List.get_eq_getElem, List.getElem_range, h.body i hi', List.get_eq_getElem,
    List.getD_eq_getElem _ _ hi']

theorem packedImage_data (h : Standard source boot) (hH : HoldsPacked source boot opened)
    {data : List Block} (hdata : files source index = some data) (hpos : 0 < data.length) :
    fileData (packedImage source boot opened) index = .ok data := by
  obtain ⟨root, -, hend, -, hroot, hfile⟩ := packedImage_file h hH hdata hpos
  have hspan : span data.length = 1 + data.length + csumBlocks data.length := rfl
  have hlt := h.clean.lt
  exact hfile.fileData hroot (by omega)

/-- **Compaction keeps the files.** -/
theorem files_packedImage (h : Standard source boot) (hH : HoldsPacked source boot opened)
    (hpos : ∀ i data, files source i = some data → 0 < data.length) :
    files (packedImage source boot opened) = files source := by
  funext i
  cases hdata : files source i with
  | some data =>
    obtain ⟨h1, hr, -⟩ := files_eq_some.mp hdata
    exact files_eq_some.mpr ⟨h1, (packedImage_regular h hH).mpr hr,
      packedImage_data h hH hdata (hpos i data hdata)⟩
  | none =>
    refine if_neg ?_
    rintro ⟨h1, hr⟩
    obtain ⟨data, hok, -⟩ := h.clean.data ((packedImage_regular h hH).mp hr)
    have hsome := files_eq_some.mpr ⟨h1, (packedImage_regular h hH).mp hr, hok⟩
    rw [hdata] at hsome
    exact absurd hsome (by simp)

end Inodes

/-! ## 4. Scrub -/

section Tiles

variable (fs : Nat → Option (List Block)) (p : Placed)

/-- What a file uses. -/
def placedUsed (index : Nat) : List Interval :=
  match fs index with
  | none => []
  | some data => compactUsed (rootOf fs p index) data.length

variable {fs p}

theorem placed_tiles (hpos : ∀ i data, fs i = some data → 0 < data.length) (k : Nat) :
    Tiles p.next (placed fs p k).next ((List.range' 1 k).flatMap (placedUsed fs p)) := by
  induction k with
  | zero => rfl
  | succ k ih =>
    rw [List.range'_1_concat, List.flatMap_append, List.flatMap_singleton, Nat.add_comm 1 k, placed,
      place, placedUsed]
    refine ih.append ?_
    cases hdata : fs (k + 1) with
    | none => rfl
    | some data =>
      have hlen := hpos (k + 1) data hdata
      simp only [if_neg (Nat.pos_iff_ne_zero.mp hlen)]
      exact compactUsed_tiles _ hlen

/-- What scrub counts for an inode. -/
def placedTally (fs : Nat → Option (List Block)) (p : Placed) (index : Nat) : Tally :=
  if index = 0 then { Tally.none with directories := 1 }
  else match fs index with
    | none => .none
    | some data => ⟨compactUsed (rootOf fs p index) data.length, 1, 0, data.length⟩

theorem placedTally_tiles (hpos : ∀ i data, fs i = some data → 0 < data.length) (K : Nat) :
    Tiles p.next (placed fs p K).next
      (((List.range (K + 1)).map (placedTally fs p)).flatMap Tally.used) := by
  have hused : ∀ i ∈ List.range' 1 K, (placedTally fs p i).used = placedUsed fs p i := by
    intro i hi
    have h1 : i ≠ 0 := Nat.one_le_iff_ne_zero.mp (List.mem_range'_1.mp hi).1
    rw [placedTally, if_neg h1, placedUsed]
    cases fs i with
    | none => rfl
    | some data => rfl
  rw [List.range_eq_range', List.range'_succ, List.map_cons, List.flatMap_cons, List.flatMap_map,
    Nat.zero_add, List.flatMap_congr hused]
  exact placed_tiles hpos K

end Tiles

section Scrub

variable {source opened : Image ByteFile} {boot : Nat → Block}

theorem ilOutstanding_cleanJournal (j : IntentLog) : ilOutstanding (cleanJournal j) = 0 := by
  simp only [ilOutstanding, cleanJournal, sealJournal, le32, put32]
  simp (disch := decide) only [getLE_putLE_of_disjoint, getLE_putLE_self]
  norm_num

theorem packedImage_dirMemory (h : Standard source boot) (hbeyond : opened.beyond = source.beyond) :
    dirMemory (packedImage source boot opened) = dirMemory source := by
  funext i
  rw [dirMemory, dirMemory, (packedImage_kept opened h).2.1, ← hbeyond]
  rfl

/-- An inode passes again, unless it is an empty file's. -/
theorem packedImage_inodes (h : Standard source boot) (hH : HoldsPacked source boot opened)
    {refs : List Nat} {ts : List Tally} {free : List Interval} (hs : Scrubbed source refs ts free)
    (h0 : ¬ RegularAt source 0) {i : Nat} (hi : i < maxInodes)
    (hpos : ∀ data, files source i = some data → 0 < data.length) :
    checkInode (imageReadBlock (packedImage source boot opened)) (packedImage source boot opened)
      refs i = .ok (placedTally (files source) (unpacked boot) i) := by
  have hino := packedImage_inode h hH i
  have hdiff := packedImage_differs h hH i
  obtain ⟨hbitmap, -, hroot⟩ := packedImage_kept opened h
  obtain ⟨t, ht⟩ := forall₂_left hs.inodes (List.mem_range.mpr hi)
  have hnone : ¬ RegularAt source i → files source i = none := fun hr =>
    if_neg fun hboth => hr hboth.2
  refine checkInode_iff.mpr ?_
  rw [hbitmap, hroot, packedImage_blocks opened h]
  rcases checkInode_iff.mp ht with ⟨hbit, hmode, -⟩ | ⟨hbit, hsum, ⟨hdir, rfl, hext, -⟩ |
    ⟨hreg, href, n, used, hfile, -⟩⟩
  · have hne : i ≠ 0 := by
      rintro rfl
      rw [hs.rootBit] at hbit
      exact absurd hbit (by simp)
    have hfiles := hnone fun hr => by simp [hr.2.1] at hbit
    refine Or.inl ⟨hbit, (hdiff 0 2 (by decide)).trans hmode, ?_⟩
    rw [placedTally, if_neg hne, hfiles]
  · rw [hnone h0] at hino
    rw [hino]
    exact Or.inr ⟨hbit, hsum, Or.inl ⟨hdir, rfl, hext, rfl⟩⟩
  · have hr : RegularAt source i := ⟨hi, hbit, hreg⟩
    have h1 : 1 ≤ i := by
      rcases Nat.eq_zero_or_pos i with rfl | h1
      · exact absurd hr h0
      · exact h1
    obtain ⟨data, hok, hlen, -⟩ := h.clean.data hr
    have hdata := files_eq_some.mpr ⟨h1, hr, hok⟩
    have hdpos := hpos data hdata
    obtain ⟨root, h8, hend, rfl, hextent, hcompact⟩ := packedImage_file h hH hdata hdpos
    have hblocks : iBlocks ((packedImage source boot opened).inodeTable i) = data.length :=
      (hdiff 20 8 (by decide)).trans hlen.symm
    have hsize : iSize ((packedImage source boot opened).inodeTable i)
        = iSize (source.inodeTable i) := hdiff 12 8 (by decide)
    obtain ⟨-, -, node, rest, -, -, -, hn, hbad, -⟩ := checkFile_iff.mp hfile
    have hcheck := hcompact.checkFile hdpos h8 hend h.clean.lt hextent hblocks
      (by rw [hsize, hlen, ← hn]; exact hbad)
    refine Or.inr ⟨hbit, ?_, Or.inr ⟨?_, href, _, _, hcheck, ?_⟩⟩
    · rw [hino, hdata]
      exact inode_sealed _
    · rw [show iMode ((packedImage source boot opened).inodeTable i) = iMode (source.inodeTable i)
        from hdiff 0 2 (by decide)]
      exact hreg
    · rw [placedTally, if_neg (Nat.one_le_iff_ne_zero.mp h1), hdata]

/-- The tallies of the inode loop, which tile what is in front of the free space. -/
theorem packedImage_tallies (h : Standard source boot) (hH : HoldsPacked source boot opened)
    {refs : List Nat} {ts : List Tally} {free : List Interval} (hs : Scrubbed source refs ts free)
    (h0 : ¬ RegularAt source 0) (hpos : ∀ i data, files source i = some data → 0 < data.length) :
    ∃ ts', List.Forall₂ (fun i t => checkInode (imageReadBlock (packedImage source boot opened))
        (packedImage source boot opened) refs i = .ok t) (List.range maxInodes) ts' ∧
      Tiles 8 (packed (files source) boot).next (ts'.flatMap Tally.used) := by
  -- the list has a name, so that nothing tries to compute it
  obtain ⟨ts', hts'⟩ : ∃ ts', ts' = (List.range maxInodes).map
    (placedTally (files source) (unpacked boot)) := ⟨_, rfl⟩
  have hall : ∀ K, maxInodes = K + 1 → Tiles 8 (placed (files source) (unpacked boot) K).next
      (ts'.flatMap Tally.used) := by
    intro K hK
    rw [hts', hK]
    exact @placedTally_tiles (files source) (unpacked boot) hpos K
  refine ⟨ts', ?_, ?_⟩
  · rw [hts', List.forall₂_map_right_iff, List.forall₂_same]
    exact fun i hi => packedImage_inodes h hH hs h0 (List.mem_range.mp hi) (hpos i)
  · rw [packed]
    exact hall (maxInodes - 1) (by norm_num)

/-- **Scrub accepts the compacted volume**, as long as no file is empty. -/
theorem packedImage_validate (h : Standard source boot) (hH : HoldsPacked source boot opened)
    (hbeyond : opened.beyond = source.beyond) (h0 : ¬ RegularAt source 0)
    (hpos : ∀ i data, files source i = some data → 0 < data.length) :
    ∃ rep, imageValidate (packedImage source boot opened) = .ok rep := by
  obtain ⟨refs, ts, free, hs⟩ := h.clean.scrub
  obtain ⟨hbitmap, -, hroot⟩ := packedImage_kept opened h
  have hprof : poolProfile (packedImage source boot opened) = poolProfile source := by
    rw [packedImage, loadedImage_poolProfile, poolProfile, hH.label]
    rfl
  have hdir := packedImage_dirMemory h hbeyond
  have hdirBlock : crRootDirBlock (packedImage source boot opened).checkpointRoot = 3 := by
    obtain ⟨img, hok, hsrc⟩ := h.loaded
    obtain ⟨-, -, -, -, -, h3, -⟩ := boot_places hok.superOk hok.rootOk
    rw [hroot, hsrc]
    exact h3
  obtain ⟨ts', hinodes, htiles⟩ := packedImage_tallies h hH hs h0 hpos
  have hscrub : Scrubbed (packedImage source boot opened) refs ts'
      (tailOf (packed (files source) boot).next (packedImage source boot opened).blocks) := by
    refine scrubbed_of_tiles hH.single ?_ hdirBlock ?_ ?_ ?_ hinodes htiles
      (packedImage_freeTail opened h)
    · rw [hprof]
      exact (single_redundancy h.clean.single _).mp hs.redundant
    · rw [packedImage_journal]
      exact ilOutstanding_cleanJournal _
    · rw [hbitmap]
      exact hs.rootBit
    · rw [hdir]
      exact hs.dir
  exact ⟨_, imageValidate_iff.mpr ⟨refs, _, _, hscrub, rfl⟩⟩

/-- The inode of an empty file is rooted at block 0. -/
theorem packedImage_empty_root (h : Standard source boot) (hH : HoldsPacked source boot opened) {i : Nat}
    {data : List Block} (hdata : files source i = some data) (hempty : data.length = 0) :
    iExtentRoot ((packedImage source boot opened).inodeTable i) = 0 := by
  rw [packedImage_inode h hH, hdata]
  simp only [newRoot, if_pos hempty]
  exact iExtentRoot_setExtentRoot _ (by norm_num)

/-- Scrub refuses the inode. -/
theorem packedImage_empty (h : Standard source boot) (hH : HoldsPacked source boot opened)
    {refs : List Nat} {ts : List Tally} {free : List Interval} (hs : Scrubbed source refs ts free)
    {i : Nat} {data : List Block} (hdata : files source i = some data) (hempty : data.length = 0) :
    checkInode (imageReadBlock (packedImage source boot opened)) (packedImage source boot opened)
      refs i = .error (.check .EINVAL) := by
  obtain ⟨-, hr, -⟩ := files_eq_some.mp hdata
  obtain ⟨-, hbit, hreg⟩ := (packedImage_regular h hH).mpr hr
  have hroot := packedImage_empty_root h hH hdata hempty
  have hsum : iChecksum ((packedImage source boot opened).inodeTable i)
      = inodeChecksum ((packedImage source boot opened).inodeTable i) := by
    rw [packedImage_inode h hH, hdata]
    exact inode_sealed _
  have href : i ∈ refs := by
    obtain ⟨t, ht⟩ := forall₂_left hs.inodes (List.mem_range.mpr hr.1)
    rcases checkInode_iff.mp ht with ⟨hclear, -⟩ | ⟨-, -, hdir | ⟨-, hmem, -⟩⟩
    · rw [hr.2.1] at hclear
      exact absurd hclear (by simp)
    · exact absurd hdir.1 hr.2.2.not_dir
    · exact hmem
  have hmode : iMode ((packedImage source boot opened).inodeTable i) ≠ 0 := fun hzero => by
    rw [hzero] at hreg
    exact absurd hreg (by decide)
  rw [checkInode]
  simp only
  rw [if_neg (by simp [hbit]), failIf_of_not hmode, ok_bind, failIf_of_not (not_not.mpr hsum),
    ok_bind, if_neg hreg.not_dir, failIf_of_not (not_or.mpr ⟨not_not.mpr hreg, not_not.mpr href⟩),
    ok_bind, checkFile, failIf_of (Or.inl (by rw [hroot]; norm_num)), error_bind, error_bind]

/-- **And with it the volume.** -/
theorem packedImage_refused (h : Standard source boot) (hH : HoldsPacked source boot opened)
    (hbeyond : opened.beyond = source.beyond) (h0 : ¬ RegularAt source 0) {i : Nat}
    {data : List Block} (hdata : files source i = some data) (hempty : data.length = 0) :
    imageValidate (packedImage source boot opened) = .error (.check .EINVAL) := by
  obtain ⟨refs, ts, free, hs⟩ := h.clean.scrub
  have hdir : imageValidateRootDir (packedImage source boot opened) = .ok refs := by
    refine imageValidateRootDir_iff.mpr ?_
    rw [packedImage_dirMemory h hbeyond]
    exact hs.dir
  have hwalk : walkInodes (imageReadBlock (packedImage source boot opened))
      (packedImage source boot opened) refs = .error (.check .EINVAL) := by
    obtain ⟨-, hr, -⟩ := files_eq_some.mp hdata
    refine foldlM_accumulate_error (fun j hj => ?_)
      ⟨i, List.mem_range.mpr hr.1, packedImage_empty h hH hs hdata hempty⟩
    by_cases hpos : ∀ d, files source j = some d → 0 < d.length
    · exact Or.inl ⟨_, packedImage_inodes h hH hs h0 (List.mem_range.mp hj) hpos⟩
    · simp only [not_forall, Nat.not_lt] at hpos
      obtain ⟨d, hd, hzero⟩ := hpos
      exact Or.inr (packedImage_empty h hH hs hd (Nat.le_zero.mp hzero))
  have hclean : ¬ ilOutstanding (packedImage source boot opened).journal ≠ 0 := by
    rw [packedImage_journal]
    exact not_not.mpr (ilOutstanding_cleanJournal _)
  have hbit : ¬ imageBitmapTest (packedImage source boot opened).inodeBitmap 0 = false := by
    rw [(packedImage_kept opened h).1, hs.rootBit]
    simp
  rw [imageValidate, failIf_of_not hclean, ok_bind, failIf_of_not hbit, ok_bind, hdir, ok_bind,
    hwalk, error_bind]

/-! ## 5. What acceptance says

The converse: where scrub has accepted the compacted volume, no file is empty, inode 0 is no
file, and the volume is itself one that can be compacted. -/

/-- An empty file is rooted at block 0, which scrub refuses. -/
theorem packedImage_pos (h : Standard source boot) (hH : HoldsPacked source boot opened)
    {rep : ScrubReport} (hval : imageValidate (packedImage source boot opened) = .ok rep) (i : Nat)
    (data : List Block) (hdata : files source i = some data) : 0 < data.length := by
  obtain ⟨refs, ts, free, hs, -⟩ := imageValidate_iff.mp hval
  by_contra hzero
  obtain ⟨-, hr, -⟩ := files_eq_some.mp hdata
  obtain ⟨used, hfile⟩ := hs.file ((packedImage_regular h hH).mpr hr)
  obtain ⟨h8, -⟩ := checkFile_iff.mp hfile
  rw [packedImage_empty_root h hH hdata (Nat.eq_zero_of_not_pos hzero)] at h8
  exact absurd h8 (by norm_num)

theorem packedImage_standard (h : Standard source boot) (hH : HoldsPacked source boot opened)
    {rep : ScrubReport} (hval : imageValidate (packedImage source boot opened) = .ok rep) :
    Standard (packedImage source boot opened)
      (packedBlocks (files source) boot source.blocks) := by
  obtain ⟨refs, ts, free, hs, -⟩ := imageValidate_iff.mp hval
  obtain ⟨hload, -⟩ := hH.load opened h
  obtain ⟨-, htile⟩ := slots_tile hload hs
  refine ⟨⟨hH.single, ⟨refs, ts, free, hs⟩, htile, ?_, ?_, fun i hi => ?_⟩, opened,
    hH.bootOk opened h, rfl⟩
  · rw [packedImage_blocks opened h]
    exact h.clean.ge
  · rw [packedImage_blocks opened h]
    exact h.clean.lt
  · rw [packedImage_inode h hH, h.files_none hi]
    exact h.clean.few i hi

theorem packedImage_root (h : Standard source boot) (hH : HoldsPacked source boot opened)
    {rep : ScrubReport} (hval : imageValidate (packedImage source boot opened) = .ok rep) :
    ¬ RegularAt source 0 := by
  have hfiles := files_packedImage h hH (packedImage_pos h hH hval)
  have htail := packedImage_freeTail opened h
  rw [← packedImage_regular h hH]
  refine (packedImage_standard h hH hval).clean.root_not_regular htail
    (p := unpacked boot) rfl ?_
  rw [hfiles, packed]

end Scrub

end AetherFs
