/-
# Rebalancing again and again

What `aetherfs rebalance` leaves when it is run any number of times on one file, on hosts that deny
any calls, tear any write and have anything behind an image in memory.  A run that fails leaves the
file (`runRebalance_regular`), and a run on what a successful run has left changes nothing.  So a
clean volume goes through at most TWO states, whatever is done to it: it is what it was until the
first run that returns 0, and from then on it is one and the same compacted volume, with the files
of the first (`rebalance_history`).

What lies behind an image in memory may decide whether a run succeeds, since the directory walk can
read it, but not what comes out (`files_any`).
-/
import AetherFs.Lib.Machine
import AetherFs.Rebalance.Results

namespace AetherFs

open Lib

/-! ## 1. A history -/

/-- The file after a run, whatever it returned. -/
def rebalanced (f : ByteFile) (host : Host) : ByteFile :=
  (finalState (runRebalance host ⟨f, none⟩)).path

/-- The run fails. -/
def RunFails (f : ByteFile) (host : Host) : Prop :=
  ∃ e disk', runRebalance host ⟨f, none⟩ = .error e disk'

/-! ## 2. Other memory behind the image -/

section Memory

variable {f : ByteFile} {beyond : Nat → UInt8} {source : Image ByteFile}

/-- The same volume, loaded by a process with other memory behind the image. -/
def otherMemory (source : Image ByteFile) (beyond : Nat → UInt8) : Image ByteFile :=
  { source with beyond := beyond }

theorem read_any (source : Image ByteFile) (beyond : Nat → UInt8) :
    imageReadBlock (otherMemory source beyond) = imageReadBlock source :=
  funext (imageReadBlock_congr source _ rfl rfl rfl)

theorem fileData_any (source : Image ByteFile) (beyond : Nat → UInt8) :
    fileData (otherMemory source beyond) = fileData source := by
  funext index
  rw [fileData, fileData, fileExtents, fileExtents, read_any]
  rfl

theorem files_any (source : Image ByteFile) (beyond : Nat → UInt8) :
    files (otherMemory source beyond) = files source := by
  funext index
  rw [files, files, fileData_any]
  rfl

/-- It opens and loads there too, and only the memory behind it is another. -/
theorem Rebalanceable.other (h : Rebalanceable f beyond source) (beyond' : Nat → UInt8) :
    imageOpen f false beyond' = .ok (openedFile f false beyond') ∧
      imageLoad (openedFile f false beyond') = .ok (otherMemory source beyond') := by
  obtain ⟨hkind, hsize, hlabel, -⟩ := imageOpen_iff.mp h.opens
  obtain ⟨hboot, hsource⟩ := h.boot
  have hfront : ∀ k, 1 ≤ k → k < 8 →
      imageReadBlock (openedFile f false beyond') k = .ok (f.blocksOf k) :=
    fun k _ hk => Rebalanceable.front h.large false hk
  refine ⟨imageOpen_iff.mpr ⟨hkind, hsize, hlabel, rfl⟩, ?_⟩
  refine ((imageLoad_boot hfront).mp ⟨hboot.congr rfl rfl, ?_⟩).1
  rw [hsource]
  rfl

end Memory

/-! ## 3. One run -/

section Run

variable {host : Host} {f g : ByteFile} {beyond : Nat → UInt8} {source : Image ByteFile}

/-- **What a run that returns 0 leaves**: the compacted volume of the source, which has no empty
file.  It does not depend on the host. -/
theorem Rebalanceable.packed_of_ok (h : Rebalanceable f beyond source) {report : ScrubReport}
    {disk' : Disk} (hrun : runRebalance host ⟨f, none⟩ = .ok report disk') :
    PackedFile source f.blocksOf f.size disk'.path ∧
      Rebalanceable f host.beyond (otherMemory source host.beyond) ∧
      ∀ i data, files source i = some data → 0 < data.length := by
  obtain ⟨hopen, hload⟩ := h.other host.beyond
  obtain ⟨hval, -⟩ := runRebalance_seen h.regular hrun hopen hload
  have h' : Rebalanceable f host.beyond (otherMemory source host.beyond) :=
    ⟨h.regular, ⟨_, hopen, hload⟩, h.rootInode, h.journalAddr, hval⟩
  obtain ⟨target, hdone, hpath⟩ := h'.compacted hrun
  obtain ⟨-, hpos⟩ := hdone.sound h'.standard
  have hfile := hdone.file
  rw [← hpath] at hfile
  rw [files_any] at hpos
  refine ⟨⟨hfile.kind, ?_, ?_⟩, h', hpos⟩
  · rw [hfile.size, files_any]
  · rw [hfile.blocks, files_any]
    rfl

theorem PackedFile.unique {boot : Nat → Block} {size : Nat} (hf : PackedFile source boot size f)
    (hg : PackedFile source boot size g) : f = g :=
  ByteFile.ext_blocks (hf.kind.trans hg.kind.symm) (hf.size.trans hg.size.symm)
    (hf.blocks.trans hg.blocks.symm)

/-- **A run on it that returns 0 leaves it.** -/
theorem PackedFile.fixed (hp : PackedFile source f.blocksOf f.size g)
    (h : Rebalanceable f beyond source)
    (hpos : ∀ i data, files source i = some data → 0 < data.length) {report : ScrubReport}
    {disk' : Disk} (hrun : runRebalance host ⟨g, none⟩ = .ok report disk') : disk'.path = g := by
  have hh := h.standard
  obtain ⟨hopen, hH⟩ := hp.reopen h false host.beyond
  obtain ⟨hload, hroot, hjournal⟩ := hH.load _ hh
  obtain ⟨hval, -⟩ := runRebalance_seen hp.kind hrun hopen hload
  have h' : Rebalanceable g host.beyond (packedImage source f.blocksOf (openedFile g false host.beyond)) :=
    ⟨hp.kind, ⟨_, hopen, hload⟩, hroot, hjournal, hval⟩
  obtain ⟨hagain, -, -⟩ := h'.packed_of_ok hrun
  have hfiles := files_packedImage hh hH hpos
  have hblocks := packedImage_blocks (openedFile g false host.beyond) hh
  have hnext : (packed (files source) g.blocksOf).next = (packed (files source) f.blocksOf).next :=
    packed_next_congr _ _
  refine ByteFile.ext_blocks (hagain.kind.trans hp.kind.symm) ?_ ?_
  · rw [hagain.size, hfiles, hnext]
    refine Nat.max_eq_left ?_
    rw [hp.size]
    exact Nat.le_max_right _ _
  · rw [hagain.blocks, hfiles, hblocks, hp.blocks]
    exact packedBlocks_again fun i hi => hh.files_none hi

theorem rebalanced_cases (host : Host) (hreg : f.kind = .regular) :
    (RunFails f host ∧ rebalanced f host = f) ∨
      ∃ report disk', runRebalance host ⟨f, none⟩ = .ok report disk' ∧ rebalanced f host = disk'.path := by
  rw [rebalanced]
  rcases runRebalance_regular host hreg with ⟨e, disk', herr, hpath⟩ | ⟨built, disk1, -, -, hok⟩
  · rw [herr]
    exact Or.inl ⟨⟨e, disk', herr⟩, hpath⟩
  · rw [hok]
    exact Or.inr ⟨_, _, rfl, rfl⟩

/-- From the compacted volume no history leads away. -/
theorem PackedFile.history (hp : PackedFile source f.blocksOf f.size g)
    (h : Rebalanceable f beyond source)
    (hpos : ∀ i data, files source i = some data → 0 < data.length) (hosts : List Host) :
    hosts.foldl rebalanced g = g := by
  induction hosts with
  | nil => rfl
  | cons host hosts ih =>
    have hstep : rebalanced g host = g := by
      rcases rebalanced_cases host hp.kind with ⟨-, hkeep⟩ | ⟨report, disk', hrun, hpath⟩
      · exact hkeep
      · rw [hpath]
        exact hp.fixed h hpos hrun
    rw [List.foldl_cons, hstep, ih]

theorem PackedFile.preserved (hp : PackedFile source f.blocksOf f.size g)
    (h : Rebalanceable f beyond source)
    (hpos : ∀ i data, files source i = some data → 0 < data.length) (writable : Bool)
    (beyond' : Nat → UInt8) : ∃ opened img, imageOpen g writable beyond' = .ok opened ∧
      imageLoad opened = .ok img ∧ Preserved source img (packed (files source) f.blocksOf).next := by
  obtain ⟨hopen, hH⟩ := hp.reopen h writable beyond'
  exact ⟨_, _, hopen, (hH.load _ h.standard).1, packedImage_preserved h.standard hH hpos⟩

end Run

/-! ## 4. Any history -/

/-- **A clean volume has two states.**  There is one file the volume becomes with the first run that
returns 0, on whatever host; until then it is what it was, and from then on it stays that file,
whatever later runs return.  Anyone can open and load it, and its files are those of the first. -/
theorem rebalance_history {f : ByteFile} {beyond : Nat → UInt8} {source : Image ByteFile}
    (h : Rebalanceable f beyond source) : ∃ g : ByteFile, ∀ hosts : List Host,
      (Along rebalanced RunFails f hosts ∧ hosts.foldl rebalanced f = f) ∨
      (¬ Along rebalanced RunFails f hosts ∧ hosts.foldl rebalanced f = g ∧
        ∀ writable beyond', ∃ opened img, imageOpen g writable beyond' = .ok opened ∧
          imageLoad opened = .ok img ∧
          Preserved source img (packed (files source) f.blocksOf).next) := by
  -- the file some host makes of it, if there is such a host
  by_cases hany : ∃ host report disk', runRebalance host ⟨f, none⟩ = .ok report disk'
  · obtain ⟨host₀, report₀, disk₀, hrun₀⟩ := hany
    obtain ⟨hp, -, hpos⟩ := h.packed_of_ok hrun₀
    refine ⟨disk₀.path, fun hosts => ?_⟩
    induction hosts with
    | nil => exact Or.inl ⟨trivial, rfl⟩
    | cons host hosts ih =>
      rw [List.foldl_cons]
      rcases rebalanced_cases host h.regular with ⟨hfail, hkeep⟩ | ⟨report, disk', hrun, hpath⟩
      · rw [hkeep]
        rcases ih with ⟨hall, heq⟩ | ⟨hnot, hrest⟩
        · exact Or.inl ⟨⟨hfail, hkeep.symm ▸ hall⟩, heq⟩
        · exact Or.inr ⟨fun hall => hnot (hkeep ▸ hall.2), hrest⟩
      · have hg : rebalanced f host = disk₀.path :=
          hpath.trans ((h.packed_of_ok hrun).1.unique hp)
        rw [hg, hp.history h hpos]
        refine Or.inr ⟨?_, rfl, hp.preserved h hpos⟩
        rintro ⟨⟨e, d, herr⟩, -⟩
        rw [hrun] at herr
        exact absurd herr (by simp)
  · refine ⟨f, fun hosts => Or.inl ?_⟩
    induction hosts with
    | nil => exact ⟨trivial, rfl⟩
    | cons host hosts ih =>
      rcases rebalanced_cases host h.regular with ⟨hfail, hkeep⟩ | ⟨report, disk', hrun, -⟩
      · rw [List.foldl_cons, hkeep]
        exact ⟨⟨hfail, hkeep.symm ▸ ih.1⟩, ih.2⟩
      · exact absurd ⟨host, report, disk', hrun⟩ hany

/-- A volume with one file, compacted, and then run on where `rename` fails. -/
theorem rebalance_history_oneFile : ∃ g : ByteFile,
    [calmHost, crossDevice].foldl rebalanced
      (oneFile 16 1 (fun _ => zeros 4096) (by norm_num)) = g ∧
    ∀ writable beyond, ∃ opened img, imageOpen g writable beyond = .ok opened ∧
      imageLoad opened = .ok img ∧ Preserved (oneFileImage 16 1 (fun _ => zeros 4096)
        (by norm_num) false calmHost.beyond) img (packed (files (oneFileImage 16 1
          (fun _ => zeros 4096) (by norm_num) false calmHost.beyond))
          (oneFile 16 1 (fun _ => zeros 4096) (by norm_num)).blocksOf).next := by
  have h := @oneFile_rebalanceable 16 1 (fun _ => zeros 4096) calmHost.beyond (by norm_num)
    (by norm_num) (by decide)
  obtain ⟨g, hg⟩ := rebalance_history h
  obtain ⟨report, disk', hrun⟩ := @oneFile_succeeds 16 1 (fun _ => zeros 4096) (by norm_num)
    (by norm_num) (by decide)
  rcases hg [calmHost, crossDevice] with ⟨⟨⟨e, d, herr⟩, -⟩, -⟩ | ⟨-, heq, hfound⟩
  · rw [hrun] at herr
    exact absurd herr (by simp)
  · exact ⟨g, heq, hfound⟩

end AetherFs
