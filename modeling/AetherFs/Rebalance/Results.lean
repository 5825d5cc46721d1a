/-
# What rebalancing does, and where it stops

Three statements about whole runs, each read off `runRebalance_ends`.

A run that succeeds keeps every file: the same blocks in the same order, the same inodes but for
the extent root and the checksum, the same names.  A second run on what came out succeeds too and
changes NOTHING, down to the last byte of the file.

The third is where the compactor and scrub disagree.  Scrub accepts a regular file without blocks
as long as it has an extent node; the compactor drops the node and writes the extent root 0; and
scrub, asked again at the end of the run, refuses that.  So a run on a clean volume succeeds
exactly when no file in it is empty.
-/
import AetherFs.Rebalance.Build

namespace AetherFs

open Lib

/-! ## 1. Which runs succeed -/

section Succeed

variable {E : Fail → Prop} {host : Host} {f : ByteFile} {source : Image ByteFile}

/-- What the build has handed over has no empty file, and inode 0 is none. -/
theorem Compacted.sound {boot : Nat → Block} {size : Nat} {target : Image ByteFile}
    {report : ScrubReport} (hc : Compacted source boot size target report)
    (h : Standard source boot) : ¬ RegularAt source 0 ∧
      ∀ i data, files source i = some data → 0 < data.length := by
  obtain ⟨opened, hH, -, rfl⟩ := hc.loaded
  exact ⟨packedImage_root h hH hc.valid, packedImage_pos h hH hc.valid⟩

/-- The files that are not empty, by their inodes. -/
theorem Standard.pos_iff {boot : Nat → Block} (h : Standard source boot) :
    (∀ i data, files source i = some data → 0 < data.length) ↔
      ∀ index, 1 ≤ index → RegularAt source index → 0 < iBlocks (source.inodeTable index) := by
  constructor
  · intro hpos index h1 hr
    obtain ⟨data, hdata, hlen, -⟩ := h.clean.data hr
    rw [← hlen]
    exact hpos index data (files_eq_some.mpr ⟨h1, hr, hdata⟩)
  · intro hpos i data hfile
    obtain ⟨h1, hr, hdata⟩ := files_eq_some.mp hfile
    obtain ⟨data', hdata', hlen, -⟩ := h.clean.data hr
    obtain rfl := Except.ok.inj (hdata'.symm.trans hdata)
    rw [hlen]
    exact hpos i h1 hr

/-- A host on which no call fails and some directory has room. -/
structure Calm (host : Host) : Prop where
  deny : ∀ c, host.deny c = none
  space : ∃ dir ∈ tempDirs .regular, host.hasSpace dir = true

theorem Calm.allowed (hc : Calm host) {final : Nat} (hlt : final < 2 ^ 51) :
    Allowed E host final where
  denied c e hd := by
    rw [hc.deny c] at hd
    exact absurd hd (by simp)
  full hfull := by
    obtain ⟨dir, hdir, hspace⟩ := hc.space
    rw [hfull dir hdir] at hspace
    exact absurd hspace (by simp)
  long hge := absurd hge (Nat.not_le.mpr hlt)

theorem Rebalanceable.not_refused {beyond : Nat → UInt8} (h : Rebalanceable f beyond source)
    (h0 : ¬ RegularAt source 0) (hpos : ∀ i data, files source i = some data → 0 < data.length)
    (e : Fail) : ¬ Refused source f.blocksOf e := by
  rintro ⟨opened, hH, hbeyond, herr⟩
  obtain ⟨rep, hval⟩ := packedImage_validate h.standard hH hbeyond h0 hpos
  rw [herr] at hval
  exact absurd hval (by simp)

/-- On a calm host, a volume without empty files is compacted. -/
theorem Rebalanceable.succeeds (h : Rebalanceable f host.beyond source) (hc : Calm host)
    (hlt : (packed (files source) f.blocksOf).next < 2 ^ 51) (h0 : ¬ RegularAt source 0)
    (hpos : ∀ i data, files source i = some data → 0 < data.length) :
    ∃ report disk', runRebalance host ⟨f, none⟩ = .ok report disk' ∧
      ∃ target, Compacted source f.blocksOf f.size target report ∧
        disk'.path = (target.members 0).dev :=
  (runRebalance_ends (E := fun _ => False) h (hc.allowed hlt)
    fun e he => h.not_refused h0 hpos e he).total

/-- Nothing fails here. -/
def calmHost : Host where
  deny _ := none
  torn _ f := f
  short _ := false
  neverShort _ := rfl
  hasSpace _ := true
  beyond _ := 0

theorem calmHost_calm : Calm calmHost := ⟨fun _ => rfl, .source, by decide, rfl⟩

/-- A volume with one name in it can be compacted as soon as it scrubs clean. -/
theorem volume_rebalanceable {n bits next : Nat} {inode : Inode}
    (hvol : VolumeFile f n bits next inode) {refs : List Nat} {ts : List Tally}
    {free : List Interval} {beyond : Nat → UInt8}
    (hs : Scrubbed (volumeImage f n bits next inode false beyond) refs ts free) :
    Rebalanceable f beyond (volumeImage f n bits next inode false beyond) ∧
      ¬ RegularAt (volumeImage f n bits next inode false beyond) 0 ∧
      (packed (files (volumeImage f n bits next inode false beyond)) f.blocksOf).next < 2 ^ 51 := by
  obtain ⟨hopen, hload, hroot, hjournal⟩ := hvol.load false beyond
  have h : Rebalanceable f beyond (volumeImage f n bits next inode false beyond) :=
    ⟨hvol.kind, ⟨_, hopen, hload⟩, hroot, hjournal, _, imageValidate_iff.mpr ⟨_, _, _, hs, rfl⟩⟩
  have hlt := hvol.plain.lt
  have hle := h.standard.fits.1
  rw [volumeImage_blocks n bits next inode f false beyond (by omega)] at hle
  refine ⟨h, fun hr => hr.2.2.not_dir (volumeImage_root_dir n bits next inode f false beyond), ?_⟩
  omega

section Sample

variable {n m : Nat} {data : Nat → Block}

theorem oneFile_rebalanceable (beyond : Nat → UInt8) (hn : n < 2 ^ 51) (hm : 0 < m)
    (hlt : 8 + span m < n) :
    Rebalanceable (oneFile n m data hn) beyond (oneFileImage n m data hn false beyond) :=
  (volume_rebalanceable (oneFile_volume hn hlt) (oneFile_scrubbed false beyond hn hm hlt)).1

/-- A volume with one file that is not empty is compacted. -/
theorem oneFile_succeeds (hn : n < 2 ^ 51) (hm : 0 < m) (hlt : 8 + span m < n) :
    ∃ report disk', runRebalance calmHost ⟨oneFile n m data hn, none⟩ = .ok report disk' := by
  obtain ⟨h, h0, hnext⟩ := volume_rebalanceable (@oneFile_volume n m data hn hlt)
    (oneFile_scrubbed false calmHost.beyond hn hm hlt)
  have hpos : ∀ index, 1 ≤ index → RegularAt (oneFileImage n m data hn false calmHost.beyond) index →
      0 < iBlocks ((oneFileImage n m data hn false calmHost.beyond).inodeTable index) := by
    intro index _ hr
    have hspan : span m = 1 + m + csumBlocks m := rfl
    obtain rfl := volumeImage_file _ _ _ _ _ _ _ (Or.inr rfl) hr.2.1 hr.2.2
    rw [oneFileImage, volumeImage_inode_one, (fileInode_fields (by omega) (by norm_num)).2.2.1]
    exact hm
  obtain ⟨report, disk', hrun, -⟩ :=
    h.succeeds calmHost_calm hnext h0 (h.standard.pos_iff.mpr hpos)
  exact ⟨report, disk', hrun⟩

end Sample

end Succeed

/-! ## 2. Files are kept -/

section Keep

variable {host : Host} {f : ByteFile} {source : Image ByteFile}

/-- `img` has the files and the names of `source`, and its free space starts at `next`. -/
structure Preserved (source img : Image ByteFile) (next : Nat) : Prop where
  data : ∀ index, 1 ≤ index → RegularAt source index → ∃ data,
    fileData source index = .ok data ∧ fileData img index = .ok data ∧
      data.length = iBlocks (source.inodeTable index)
  inodes : ∀ index,
    DiffersOnly [(52, 8), (100, 4)] (img.inodeTable index) (source.inodeTable index)
  rootDir : img.rootDir = source.rootDir
  inodeBitmap : img.inodeBitmap = source.inodeBitmap
  checkpointRoot : img.checkpointRoot = source.checkpointRoot
  free : FreeTail img next

theorem packedImage_preserved {boot : Nat → Block} {opened : Image ByteFile}
    (h : Standard source boot) (hH : HoldsPacked source boot opened)
    (hpos : ∀ i data, files source i = some data → 0 < data.length) :
    Preserved source (packedImage source boot opened) (packed (files source) boot).next := by
  obtain ⟨hbitmap, hrootDir, hroot⟩ := packedImage_kept opened h
  refine ⟨fun index h1 hr => ?_, packedImage_differs h hH, hrootDir, hbitmap, hroot,
    packedImage_freeTail opened h⟩
  obtain ⟨data, hdata, hlen, -⟩ := h.clean.data hr
  have hfile : files source index = some data := files_eq_some.mpr ⟨h1, hr, hdata⟩
  exact ⟨data, hdata, packedImage_data h hH hfile (hpos index data hfile), hlen⟩

/-- **Rebalancing keeps every file.**  Where the run on a clean volume returns 0, the file it
leaves can be opened and loaded by anyone, and what is loaded has the same files, inodes and names;
its free space starts at the `next_block` of the run. -/
theorem rebalance_preserves (h : Rebalanceable f host.beyond source) {report : ScrubReport}
    {disk' : Disk} (hrun : runRebalance host ⟨f, none⟩ = .ok report disk') :
    ∃ built disk1, buildTarget host ⟨f, none⟩ = .ok built disk1 ∧
      ∀ writable beyond, ∃ opened img, imageOpen disk'.path writable beyond = .ok opened ∧
        imageLoad opened = .ok img ∧ Preserved source img built.next := by
  rcases runRebalance_regular host h.regular with ⟨e, d, herr, -⟩ | ⟨built, disk1, hb, -, hok⟩
  · rw [herr] at hrun
    exact absurd hrun (by simp)
  · rw [hok] at hrun
    obtain ⟨-, rfl⟩ := EStateM.Result.ok.inj hrun
    have hends : Ends (fun _ => True) (buildTarget host ⟨f, none⟩) fun built disk =>
        built.next = (packed (files source) f.blocksOf).next ∧
          Compacted source f.blocksOf f.size built.target built.report ∧
          built.source.isBlockDevice = false ∧ disk.temp = some (built.target.members 0).dev :=
      buildTarget_ends h ⟨fun _ _ _ => trivial, fun _ => trivial, fun _ => trivial⟩
        fun _ _ => trivial
    obtain ⟨hnext, hdone, -⟩ := hends.of_ok hb
    obtain ⟨-, hpos⟩ := hdone.sound h.standard
    refine ⟨built, disk1, hb, fun writable beyond => ?_⟩
    rw [unlinkTemp_path]
    obtain ⟨hopen, hH⟩ := hdone.file.reopen h writable beyond
    refine ⟨_, _, hopen, (hH.load _ h.standard).1, ?_⟩
    rw [hnext]
    exact packedImage_preserved h.standard hH hpos

/-- A run on a volume with one file. -/
theorem rebalance_preserves_oneFile : ∃ report disk',
    runRebalance calmHost ⟨oneFile 16 1 (fun _ => zeros 4096) (by norm_num), none⟩
      = .ok report disk' ∧
    ∃ built disk1, buildTarget calmHost ⟨oneFile 16 1 (fun _ => zeros 4096) (by norm_num), none⟩
        = .ok built disk1 ∧
      ∀ writable beyond, ∃ opened img, imageOpen disk'.path writable beyond = .ok opened ∧
        imageLoad opened = .ok img ∧ Preserved (oneFileImage 16 1 (fun _ => zeros 4096)
          (by norm_num) false calmHost.beyond) img built.next := by
  obtain ⟨report, disk', hrun⟩ := @oneFile_succeeds 16 1 (fun _ => zeros 4096) (by norm_num)
    (by norm_num) (by decide)
  exact ⟨report, disk', hrun, rebalance_preserves
    (oneFile_rebalanceable calmHost.beyond (by norm_num) (by norm_num) (by decide)) hrun⟩

/-! ## 3. Empty files -/

/-- What a run that returns 0 has made of the volume. -/
theorem Rebalanceable.compacted (h : Rebalanceable f host.beyond source) {report : ScrubReport}
    {disk' : Disk} (hrun : runRebalance host ⟨f, none⟩ = .ok report disk') :
    ∃ target, Compacted source f.blocksOf f.size target report ∧
      disk'.path = (target.members 0).dev := by
  have hends : Ends (fun _ => True) (runRebalance host ⟨f, none⟩) fun report disk =>
      ∃ target, Compacted source f.blocksOf f.size target report ∧
        disk.path = (target.members 0).dev :=
    runRebalance_ends h ⟨fun _ _ _ => trivial, fun _ => trivial, fun _ => trivial⟩
      fun _ _ => trivial
  exact hends.of_ok hrun

/-- **Where compaction and scrub disagree.**  A clean volume whose inode 0 is a directory, on a
host where no system call fails: the run returns 0 exactly when no file is empty. -/
theorem rebalance_succeeds_iff (h : Rebalanceable f host.beyond source)
    (hdir : sIsDir (iMode (source.inodeTable 0))) (hdeny : ∀ c, host.deny c = none)
    (hsys : ∀ e disk', runRebalance host ⟨f, none⟩ ≠ .error (.sys e) disk') :
    (∃ report disk', runRebalance host ⟨f, none⟩ = .ok report disk') ↔
      ∀ index, 1 ≤ index → RegularAt source index → 0 < iBlocks (source.inodeTable index) := by
  rw [← h.standard.pos_iff]
  constructor
  · rintro ⟨report, disk', hrun⟩
    obtain ⟨target, hdone, -⟩ := h.compacted hrun
    exact (hdone.sound h.standard).2
  · intro hpos
    have hends : Ends (fun e => ∃ x, e = .sys x) (runRebalance host ⟨f, none⟩) fun report disk =>
        ∃ target, Compacted source f.blocksOf f.size target report ∧
          disk.path = (target.members 0).dev := by
      refine runRebalance_ends h ⟨fun c e hd => ?_, fun _ => ⟨_, rfl⟩, fun _ => ⟨_, rfl⟩⟩
        fun e he => absurd he (h.not_refused (fun hr => hr.2.2.not_dir hdir) hpos e)
      rw [hdeny c] at hd
      exact absurd hd (by simp)
    cases hrun : runRebalance host ⟨f, none⟩ with
    | ok report disk' => exact ⟨report, disk', rfl⟩
    | error e disk' =>
      obtain ⟨x, rfl⟩ := hends.of_error hrun
      exact absurd hrun (hsys x disk')

/-- A volume with one file that has a block. -/
theorem rebalance_succeeds_oneFile :
    (∃ report disk', runRebalance calmHost
        ⟨oneFile 16 1 (fun _ => zeros 4096) (by norm_num), none⟩ = .ok report disk') ↔
      ∀ index, 1 ≤ index → RegularAt (oneFileImage 16 1 (fun _ => zeros 4096) (by norm_num) false
          calmHost.beyond) index →
        0 < iBlocks ((oneFileImage 16 1 (fun _ => zeros 4096) (by norm_num) false
          calmHost.beyond).inodeTable index) := by
  refine rebalance_succeeds_iff
    (oneFile_rebalanceable calmHost.beyond (by norm_num) (by norm_num) (by decide))
    (volumeImage_root_dir _ _ _ _ _ _ _) (fun _ => rfl) fun e disk' herr => ?_
  obtain ⟨report, d, hrun⟩ := @oneFile_succeeds 16 1 (fun _ => zeros 4096) (by norm_num)
    (by norm_num) (by decide)
  rw [hrun] at herr
  exact absurd herr (by simp)

/-- **A clean volume that cannot be compacted**: one regular file, without blocks.  It opens, loads
and scrubs clean, inode 0 is the root directory, no call fails, and the run ends in `EINVAL`. -/
theorem emptyFile_refused : ∃ source,
    Rebalanceable (emptyFile 16 (by norm_num)) calmHost.beyond source ∧
    sIsDir (iMode (source.inodeTable 0)) ∧
    ∃ disk', runRebalance calmHost ⟨emptyFile 16 (by norm_num), none⟩
      = .error (.check .EINVAL) disk' := by
  have hvol := emptyFile_volume (n := 16) (by norm_num) (by norm_num)
  obtain ⟨h, h0, hnext⟩ := volume_rebalanceable hvol
    (emptyFile_scrubbed false calmHost.beyond (by norm_num) (by norm_num))
  refine ⟨_, h, volumeImage_root_dir _ _ _ _ _ _ _, ?_⟩
  have hr : RegularAt (volumeImage (emptyFile 16 (by norm_num)) 16 3 9 (fileInode 0 8) false
      calmHost.beyond) 1 := by
    refine ⟨by norm_num, ?_, ?_⟩
    · rw [volumeImage_bitmap, (byteBitmap_firstByte (by norm_num)).test]
      rfl
    · rw [volumeImage_inode_one, (fileInode_fields (by norm_num) (by norm_num)).1]
      decide
  obtain ⟨data, hdata, hlen, -⟩ := h.standard.clean.data hr
  rw [volumeImage_inode_one, (fileInode_fields (by norm_num) (by norm_num)).2.2.1] at hlen
  have hfile := files_eq_some.mpr ⟨Nat.le_refl 1, hr, hdata⟩
  have hends := runRebalance_ends (E := fun e => e = .check .EINVAL) h
    (calmHost_calm.allowed hnext) ?_
  · cases hrun : runRebalance calmHost ⟨emptyFile 16 (by norm_num), none⟩ with
    | ok report disk' =>
      obtain ⟨target, hdone, -⟩ := hends.of_ok hrun
      have hpos := (hdone.sound h.standard).2 1 data hfile
      omega
    | error e disk' =>
      obtain rfl := hends.of_error hrun
      exact ⟨disk', rfl⟩
  · rintro e ⟨opened, hH, hbeyond, herr⟩
    rw [packedImage_refused h.standard hH hbeyond h0 hfile hlen] at herr
    exact (Except.error.inj herr).symm

end Keep

/-! ## 4. Running it again -/

section Again

variable {host : Host} {f f' : ByteFile} {opened source : Image ByteFile}

/-- What a run that returns 0 has seen on the way: a clean source, and room for a new file. -/
theorem runRebalance_seen {report : ScrubReport} {disk' : Disk} (hreg : f.kind = .regular)
    (hrun : runRebalance host ⟨f, none⟩ = .ok report disk')
    (hopen : imageOpen f false host.beyond = .ok opened) (hload : imageLoad opened = .ok source) :
    (∃ rep, imageValidate source = .ok rep) ∧
      ∃ dir ∈ tempDirs f.kind, host.hasSpace dir = true := by
  rcases runRebalance_regular host hreg with ⟨e, d, herr, -⟩ | ⟨built, disk1, hb, -, -⟩
  · rw [herr] at hrun
    exact absurd hrun (by simp)
  obtain ⟨begun, _, hbegin, -⟩ := estate_bind_ok.mp hb
  obtain ⟨opened', rep, _, _, _, _, _, hopen', hload', hval, h6, -⟩ := beginTarget_inv hbegin
  obtain rfl := Except.ok.inj (hopen.symm.trans hopen')
  rw [← Except.ok.inj (hload.symm.trans hload')] at hval
  refine ⟨⟨rep, hval⟩, ?_⟩
  obtain ⟨kind, d7, h7, h⟩ := estate_bind_ok.mp h6
  obtain ⟨hkind, rfl⟩ := Host.read_ok h7
  obtain rfl := Except.ok.inj hkind
  cases hfind : (tempDirs f.kind).find? host.hasSpace with
  | none =>
    simp only [hfind] at h
    exact absurd h (by simp [throw, throwThe, MonadExceptOf.throw, EStateM.throw])
  | some dir => exact ⟨dir, List.mem_of_find?_eq_some hfind, List.find?_some hfind⟩

/-- The volume that came out can be compacted, and its compaction is itself. -/
theorem Compacted.again {target : Image ByteFile} {report : ScrubReport}
    (hc : Compacted source f.blocksOf f.size target report)
    (h : Rebalanceable f host.beyond source) (hf : f' = (target.members 0).dev) :
    ∃ source', Rebalanceable f' host.beyond source' ∧ ¬ RegularAt source' 0 ∧
      files source' = files source ∧ source'.blocks = source.blocks := by
  obtain ⟨h0, hpos⟩ := hc.sound h.standard
  have hp : PackedFile source f.blocksOf f.size f' := hf ▸ hc.file
  obtain ⟨hopen, hH⟩ := hp.reopen h false host.beyond
  obtain ⟨hload, hroot, hjournal⟩ := hH.load _ h.standard
  have hbeyond : (openedFile f' false host.beyond).beyond = source.beyond := by
    rw [h.boot.2]
    rfl
  refine ⟨_, ⟨hp.kind, ⟨_, hopen, hload⟩, hroot, hjournal,
    packedImage_validate h.standard hH hbeyond h0 hpos⟩, ?_, files_packedImage h.standard hH hpos,
    packedImage_blocks _ h.standard⟩
  rw [packedImage_regular h.standard hH]
  exact h0

/-- **Rebalancing twice is rebalancing once.**  After a run that returns 0, with no call denied, a
second run returns 0 and leaves the very same file. -/
theorem rebalance_idempotent (hreg : f.kind = .regular)
    (hopen : imageOpen f false host.beyond = .ok opened) (hload : imageLoad opened = .ok source)
    (hroot : sRootInode source.super = 2) (hjournal : sJournalAddr source.super = 4)
    (hdeny : ∀ c, host.deny c = none) {report : ScrubReport} {disk' : Disk}
    (hrun : runRebalance host ⟨f, none⟩ = .ok report disk') :
    ∃ report' disk'', runRebalance host ⟨disk'.path, none⟩ = .ok report' disk'' ∧
      disk''.path = disk'.path := by
  obtain ⟨hval, hspace⟩ := runRebalance_seen hreg hrun hopen hload
  have h : Rebalanceable f host.beyond source :=
    ⟨hreg, ⟨opened, hopen, hload⟩, hroot, hjournal, hval⟩
  obtain ⟨target, hdone, hpath⟩ := h.compacted hrun
  obtain ⟨-, hpos⟩ := hdone.sound h.standard
  have hp : PackedFile source f.blocksOf f.size disk'.path := hpath ▸ hdone.file
  obtain ⟨source', h', h0', hfiles, hblocks⟩ := hdone.again h hpath
  have hnext : (packed (files source') disk'.path.blocksOf).next
      = (packed (files source) f.blocksOf).next := by
    rw [hfiles]
    exact packed_next_congr _ _
  have hlt := disk'.path.size_lt
  have hsize : (packed (files source) f.blocksOf).next * 4096 ≤ disk'.path.size := by
    rw [hp.size]
    exact Nat.le_max_right _ _
  obtain ⟨report', disk'', hrun', target', hdone', hpath'⟩ := h'.succeeds ⟨hdeny, hreg ▸ hspace⟩
    (by rw [hnext]; omega) h0' (hfiles ▸ hpos)
  refine ⟨report', disk'', hrun', ByteFile.ext_blocks ?_ ?_ ?_⟩
  · rw [hpath', hdone'.file.kind, hp.kind]
  · rw [hpath', hdone'.file.size, hnext]
    exact Nat.max_eq_left hsize
  · rw [hpath', hdone'.file.blocks, hfiles, hblocks, hp.blocks]
    exact packedBlocks_again fun i hi => h.standard.files_none hi

/-- A volume with one file, compacted twice. -/
theorem rebalance_idempotent_oneFile : ∃ report disk' report' disk'',
    runRebalance calmHost ⟨oneFile 16 1 (fun _ => zeros 4096) (by norm_num), none⟩
      = .ok report disk' ∧
    runRebalance calmHost ⟨disk'.path, none⟩ = .ok report' disk'' ∧ disk''.path = disk'.path := by
  obtain ⟨report, disk', hrun⟩ := @oneFile_succeeds 16 1 (fun _ => zeros 4096) (by norm_num)
    (by norm_num) (by decide)
  obtain ⟨hopen, hload, ⟨hroot, hjournal⟩, -⟩ := oneFile_validates (n := 16) (m := 1) false
    calmHost.beyond (fun _ => zeros 4096) (by norm_num) (by norm_num) (by decide)
  obtain ⟨report', disk'', hrun', hsame⟩ :=
    rebalance_idempotent rfl hopen hload hroot hjournal (fun _ => rfl) hrun
  exact ⟨report, disk', report', disk'', hrun, hrun', hsame⟩

end Again

end AetherFs
