/-
# The run, from end to end

`Fill` has the loops and `Packed` the volume they write; here the two are put together along
`aetherfs_run_rebalance`: copy the eight blocks in front to a new file, open and load it, fill it,
load it again, validate it, and put it in place of the source.

`runRebalance_ends` is the outcome.  The only failures are those of the host and a refusal by the
last validation, and a run that succeeds leaves a `PackedFile`.  Everything the results say about
rebalancing is read off it.
-/
import AetherFs.Rebalance.Fill
import AetherFs.Rebalance.Packed

namespace AetherFs

open Lib

/-! ## 1. Filling the target -/

/-- A file with the compacted volume in it. -/
structure PackedFile (source : Image ByteFile) (boot : Nat → Block) (size : Nat) (f : ByteFile) :
    Prop where
  kind : f.kind = .regular
  size : f.size = max size ((packed (files source) boot).next * 4096)
  blocks : f.blocksOf = packedBlocks (files source) boot source.blocks

/-- What a finished build hands over: an image loaded from such a file, and accepted. -/
structure Compacted (source : Image ByteFile) (boot : Nat → Block) (size : Nat)
    (target : Image ByteFile) (report : ScrubReport) : Prop where
  loaded : ∃ opened, HoldsPacked source boot opened ∧ opened.beyond = source.beyond ∧
    target = packedImage source boot opened
  file : PackedFile source boot size (target.members 0).dev
  valid : imageValidate target = .ok report

section Fill

variable {E : Fail → Prop} {host : Host} {source T : Image ByteFile} {boot : Nat → Block}

/-- The target before the loop: the source's metadata over a copy of the eight blocks. -/
structure Fresh (source : Image ByteFile) (boot : Nat → Block) (T : Image ByteFile) : Prop where
  single : T.memberCount = 1
  writable : T.writable = true
  label : T.poolLabel = source.poolLabel
  beyond : T.beyond = source.beyond
  memberBlocks : (T.members 0).blocks = (source.members 0).blocks
  kind : (T.members 0).dev.kind = .regular
  large : 32768 ≤ (T.members 0).dev.size
  content : (T.members 0).dev.blocksOf = reserved boot
  blocks : T.blocks = source.blocks
  super : T.super = source.super
  journal : T.journal = source.journal
  inodeBitmap : T.inodeBitmap = source.inodeBitmap
  table : T.inodeTable = source.inodeTable

/-- With its free list cleared, it is where compaction starts. -/
theorem Fresh.start (hT : Fresh source boot T) (h : Standard source boot) :
    AtTarget { T with freeExtents := zeros 4096 } (unpacked boot).table (unpacked boot).content
      (unpacked boot).next { T with freeExtents := zeros 4096 } := by
  have hnext : (unpacked boot).next = 8 := rfl
  have hlarge := hT.large
  refine ⟨(T.members 0).dev, hT.kind, ?_, hT.content, ?_⟩
  · rw [hnext]
    simp only
    omega
  · rw [← h.table, ← hT.table, Image.holding, Image.setDev]
    simp only [Function.update_eq_self]

theorem Fresh.ready (hT : Fresh source boot T) (h : Standard source boot)
    (hA : Allowed E host (packed (files source) boot).next) :
    Ready E host { T with freeExtents := zeros 4096 } (packed (files source) boot).next := by
  obtain ⟨hle, hserved⟩ := h.fits
  refine ⟨hT.single, hT.writable, fun b hb => ?_, Nat.lt_of_le_of_lt hle h.clean.lt, hA⟩
  exact (served_congr hT.label fun _ => hT.memberBlocks).mpr (hserved b hb)

/-- **The target holds the compacted volume** when its metadata has been written. -/
theorem AtTarget.holds {top : Nat} {X img : Image ByteFile} (hR : Ready E host X top)
    (h : Standard source boot) (htop : top = (packed (files source) boot).next)
    (hl : X.poolLabel = source.poolLabel)
    (hat : AtTarget X (packed (files source) boot).table
      (packedBlocks (files source) boot source.blocks) top img) : HoldsPacked source boot img := by
  have hreads : ∀ b, b < top → imageReadBlock img b
      = .ok (packedBlocks (files source) boot source.blocks b) := fun b hb => hat.read hR hb hb
  obtain ⟨f, -, -, -, rfl⟩ := hat
  refine ⟨hR.single, hl, fun i hi => ?_, fun b hb => hreads b (htop ▸ hb)⟩
  change (packed (files source) boot).table i = zeros 512
  rw [← tableOf_packed (fun i hi => h.files_none hi) i, tableOf, if_neg (Nat.not_lt.mpr hi)]

theorem Host.read_cases {σ α : Type} {c : Call} {x : σ → Except Fail α} {s : σ}
    {Q : α → σ → Prop} (hd : ∀ e, host.deny c = some e → E e) (he : ∀ e, x s = .error e → E e)
    (hq : ∀ a, x s = .ok a → Q a s) : Ends E (host.read c x s) Q :=
  Host.call_ends hd (Ends.liftRead_cases he hq)

/-- The failures of the last validation. -/
def Refused (source : Image ByteFile) (boot : Nat → Block) (e : Fail) : Prop :=
  ∃ opened, HoldsPacked source boot opened ∧ opened.beyond = source.beyond ∧
    imageValidate (packedImage source boot opened) = .error e

theorem checkTarget_ends {X img : Image ByteFile} {top : Nat} (hR : Ready E host X top)
    (h : Standard source boot) (htop : top = (packed (files source) boot).next)
    (hl : X.poolLabel = source.poolLabel) (hbeyond : X.beyond = source.beyond)
    (hbad : ∀ e, Refused source boot e → E e)
    (hat : AtTarget X (packed (files source) boot).table
      (packedBlocks (files source) boot source.blocks) top img) :
    Ends E (checkTarget host img) fun report target =>
      Compacted source boot (X.members 0).dev.size target report := by
  have hH := AtTarget.holds hR h htop hl hat
  have hb : img.beyond = source.beyond := by
    obtain ⟨f, -, -, -, rfl⟩ := hat
    exact hbeyond
  have hfile : PackedFile source boot (X.members 0).dev.size
      ((packedImage source boot img).members 0).dev := by
    obtain ⟨f, hk, hsize, hc, rfl⟩ := hat
    rw [packedImage, loadedImage_members, holding_dev]
    exact ⟨hk, htop ▸ hsize, hc⟩
  refine Host.read_bind (hR.allowed.denied _) (hH.load img h).1 ?_
  refine Ends.bind (Q := fun _ s => s = packedImage source boot img) (Ends.ok rfl) ?_
  rintro _ _ rfl
  refine Host.read_cases (hR.allowed.denied _) (fun e he => hbad e ⟨img, hH, hb, he⟩) ?_
  exact fun report hval => ⟨⟨img, hH, hb, rfl⟩, hfile, hval⟩

/-- **The target is filled with the compacted volume.** -/
theorem Fresh.fillTarget_ends (hT : Fresh source boot T) (h : Standard source boot)
    (hA : Allowed E host (packed (files source) boot).next)
    (hbad : ∀ e, Refused source boot e → E e) :
    Ends E (fillTarget host source T) fun out target =>
      out.1 = (packed (files source) boot).next ∧
        Compacted source boot (T.members 0).dev.size target out.2 := by
  obtain ⟨T1, hT1⟩ : ∃ T1, T1 = { T with freeExtents := zeros 4096 } := ⟨_, rfl⟩
  have hR := hT.ready h hA
  have hstart := hT.start h
  rw [← hT1] at hR hstart
  have hsame : SameFiles source T1 := by
    rw [hT1]
    exact ⟨hT.inodeBitmap, hT.blocks⟩
  have hle : (packed (files source) boot).next ≤ T1.blocks := hsame.blocks ▸ h.fits.1
  have hloop := compactInodes_ends (K := maxInodes - 1) h.clean hR hsame hle
    (fun j => by rw [h.table]) (by norm_num) (Nat.le_refl _) hstart
  rw [← packed] at hloop
  obtain ⟨hfree, hsuper, hjournal⟩ := @finishTarget_sealed T1 boot
    (packed (files source) boot).next (by rw [hT1]) (by rw [hT1, ← h.super]; exact hT.super)
    (by rw [hT1, ← h.journal]; exact hT.journal) hle (hsame.blocks ▸ h.clean.lt)
  unfold fillTarget
  refine Ends.bind (Q := fun _ s => s = T1) (Ends.ok hT1.symm) ?_
  intro _ s hs
  rw [hs]
  refine Ends.bind hloop ?_
  rintro next img ⟨rfl, f, hk, hsize, hc, rfl⟩
  refine Ends.bind (Q := fun _ s => AtTarget (finishTarget (packed (files source) boot).next T1)
    (packed (files source) boot).table (packed (files source) boot).content
    (packed (files source) boot).next s) (Ends.ok ⟨f, hk, hsize, hc, rfl⟩) ?_
  intro _ s hat
  have hR' : Ready E host (finishTarget (packed (files source) boot).next T1)
      (packed (files source) boot).next := hR.congr rfl rfl rfl rfl
  refine Ends.bind (writeTarget_ends hR' packed_next_ge packed_next_ge hat) ?_
  intro _ s hat
  rw [hfree, hsuper, hjournal, hsame.blocks] at hat
  have hR'' : Ready E host (finishTarget (packed (files source) boot).next T1).sealed
      (packed (files source) boot).next := hR'.congr rfl rfl rfl rfl
  refine Ends.bind (checkTarget_ends hR'' h rfl ?_ ?_ hbad hat) ?_
  · rw [Image.sealed, finishTarget, hT1]
    exact hT.label
  · rw [Image.sealed, finishTarget, hT1]
    exact hT.beyond
  · intro report target hdone
    rw [Image.sealed, finishTarget, hT1] at hdone
    exact Ends.pure ⟨rfl, hdone⟩

end Fill

/-! ## 2. The temporary file -/

section Temp

variable {E : Fail → Prop} {host : Host} {α : Type}

theorem onTemp_ends {x : EStateM Fail ByteFile α} {path g : ByteFile} {Q : α → ByteFile → Prop}
    (h : Ends E (x g) Q) : Ends E (onTemp x ⟨path, some g⟩) fun a disk =>
      ∃ g', disk = ⟨path, some g'⟩ ∧ Q a g' := by
  unfold onTemp
  simp only
  cases hx : x g with
  | ok a g' => exact Ends.ok ⟨g', rfl, h.of_ok hx⟩
  | error e g' => exact Ends.error (h.of_error hx)

theorem onTarget_ends {x : EStateM Fail (Image ByteFile) α} {target : Image ByteFile} {disk : Disk}
    {Q : α → Image ByteFile → Prop} (h : Ends E (x target) Q) :
    Ends E (onTarget target x disk) fun r disk' =>
      Q r.1 r.2 ∧ disk'.temp = some (r.2.members 0).dev := by
  unfold onTarget
  cases hx : x target with
  | ok a target' => exact Ends.ok ⟨h.of_ok hx, rfl⟩
  | error e target' => exact Ends.error (h.of_error hx)

theorem makeTempPath_ends {final : Nat} (hA : Allowed E host final) {f : ByteFile}
    (hreg : f.kind = .regular) :
    Ends E (makeTempPath host ⟨f, none⟩) fun _ disk => disk = ⟨f, some .empty⟩ := by
  refine Host.read_bind (hA.denied _) rfl ?_
  rw [hreg]
  cases hfind : (tempDirs .regular).find? host.hasSpace with
  | none =>
    refine Ends.error (hA.full fun dir hdir => ?_)
    simpa using List.find?_eq_none.mp hfind dir hdir
  | some dir => exact Host.call_ends (hA.denied _) (Ends.ok rfl)

theorem putBlock_update {f : ByteFile} (hk : f.kind = .regular) {b : Nat} (hb : b < 8)
    {block : Block} : Ends E (putBlock b block f) fun _ f' => f'.kind = .regular ∧
      f'.size = max f.size (b * 4096 + 4096) ∧ f'.blocksOf = Function.update f.blocksOf b block := by
  obtain ⟨f', hwrite⟩ := ByteFile.writeAll_total hk (o := b * 4096) (by omega) block
  obtain ⟨hk', hsize, hblocks⟩ := ByteFile.writeAll_blocks hwrite
  have hoff : ByteFile.offsetOf b = b * 4096 := ByteFile.offsetOf_of_lt (by omega)
  rw [putBlock_of_write (hoff.symm ▸ hwrite)]
  exact Ends.ok ⟨hk'.trans hk, hsize, hblocks⟩

theorem reserved_eq_patch (boot : Nat → Block) :
    reserved boot = patch (fun _ => zeros 4096) boot 0 8 := by
  funext b
  exact if_congr (by simp) rfl rfl

/-- **The blocks in front are copied.** -/
theorem copyReservedBlocks_ends {final : Nat} (hA : Allowed E host final)
    {source : Image ByteFile} {boot : Nat → Block} {g : ByteFile}
    (hread : ∀ b, b < 8 → imageReadBlock source b = .ok (boot b)) (hk : g.kind = .regular)
    (hsize : 32768 ≤ g.size) (hg : g.blocksOf = fun _ => zeros 4096) :
    Ends E (copyReservedBlocks host source g) fun _ g' => g'.kind = .regular ∧
      g'.size = g.size ∧ g'.blocksOf = reserved boot := by
  have hloop : Ends E ((List.range dataStartBlock).foldlM (copyReserved host source) false g)
      fun returned g' => returned = false ∧ ∃ k m, k + m = 8 ∧
      ([] : List Nat) = List.range' k m ∧ g'.kind = .regular ∧ g'.size = g.size ∧
      g'.blocksOf = patch (fun _ => zeros 4096) boot 0 k := by
    refine Ends.foldlM (fun l (returned : Bool) (g' : ByteFile) => returned = false ∧
      ∃ k m, k + m = 8 ∧ l = List.range' k m ∧ g'.kind = .regular ∧ g'.size = g.size ∧
      g'.blocksOf = patch (fun _ => zeros 4096) boot 0 k) ?_
      ⟨rfl, 0, 8, rfl, by rw [← List.range_eq_range'], hk, rfl, by rw [patch_empty, hg]⟩
    rintro b l _ g' ⟨rfl, k, m, hkm, hl, hk', hs', hb'⟩
    cases m with
    | zero => exact absurd hl (by simp)
    | succ m =>
      rw [List.range'_succ] at hl
      obtain ⟨rfl, rfl⟩ := List.cons.inj hl
      rw [copyReserved, if_neg (by simp), host.neverShort]
      refine Host.read_bind (hA.denied _) (hread b (by omega)) ?_
      refine (Host.call_ends (hA.denied _) (putBlock_update hk' (by omega))).bind ?_
      rintro _ g'' ⟨hk'', hs'', hb''⟩
      refine Ends.pure ⟨rfl, b + 1, m, by omega, rfl, hk'', ?_, ?_⟩
      · rw [hs'', hs']
        omega
      · rw [hb'', hb', patch_snoc _ _ (Nat.zero_le b)]
  refine hloop.bind ?_
  rintro _ g' ⟨-, k, m, hkm, hl, hk', hs', hb'⟩
  cases m with
  | zero =>
    obtain rfl : k = 8 := by omega
    exact Ends.pure ⟨hk', hs', hb'.trans (reserved_eq_patch boot).symm⟩
  | succ m => exact absurd hl (by simp [List.range'_succ])

end Temp

/-! ## 3. What a run starts from -/

/-- A regular file with a clean image in it, whose metadata is in the places `mkfs` chooses. -/
structure Rebalanceable (f : ByteFile) (beyond : Nat → UInt8) (source : Image ByteFile) : Prop where
  regular : f.kind = .regular
  loaded : ∃ opened, imageOpen f false beyond = .ok opened ∧ imageLoad opened = .ok source
  rootInode : sRootInode source.super = 2
  journalAddr : sJournalAddr source.super = 4
  valid : ∃ rep, imageValidate source = .ok rep

namespace Rebalanceable

variable {f g : ByteFile} {beyond : Nat → UInt8} {source : Image ByteFile}

theorem opens (h : Rebalanceable f beyond source) :
    imageOpen f false beyond = .ok (openedFile f false beyond) := by
  obtain ⟨opened, hopen, -⟩ := h.loaded
  rw [hopen, (imageOpen_iff.mp hopen).2.2.2]

theorem loads (h : Rebalanceable f beyond source) :
    imageLoad (openedFile f false beyond) = .ok source := by
  obtain ⟨opened, hopen, hload⟩ := h.loaded
  rwa [← (imageOpen_iff.mp hopen).2.2.2]

theorem large (h : Rebalanceable f beyond source) : 32768 ≤ f.size := loaded_size h.opens h.loads

/-- The blocks in front can be read through any image of the file. -/
theorem front (hsize : 32768 ≤ g.size) (writable : Bool) {b : Nat} (hb : b < 8) :
    imageReadBlock (openedFile g writable beyond) b = .ok (g.blocksOf b) := by
  refine (single_read_file rfl (by omega)).mpr ⟨Or.inl hb, ?_, ?_⟩
  · rw [Nat.mod_eq_of_lt (by omega)]
    change b * 4096 + 4096 ≤ g.size
    omega
  · rw [Nat.mod_eq_of_lt (by omega)]
    rfl

theorem boot (h : Rebalanceable f beyond source) : BootOk (openedFile f false beyond) f.blocksOf ∧
    source = loadedImage (openedFile f false beyond) f.blocksOf :=
  (imageLoad_boot fun _ _ hk => front h.large false hk).mpr ⟨h.loads, h.rootInode, h.journalAddr⟩

theorem standard (h : Rebalanceable f beyond source) : Standard source f.blocksOf := by
  obtain ⟨rep, hval⟩ := h.valid
  exact ⟨clean_of_validate h.opens h.loads hval, _, h.boot⟩

theorem reads (h : Rebalanceable f beyond source) {b : Nat} (hb : b < 8) :
    imageReadBlock source b = .ok (f.blocksOf b) := by
  rw [h.boot.2, loadedImage_read]
  exact front h.large false hb

/-- The new file opens and loads with the metadata of the source. -/
theorem fresh (h : Rebalanceable f beyond source) (hk : g.kind = .regular) (hs : g.size = f.size)
    (hg : g.blocksOf = reserved f.blocksOf) :
    imageOpen g true beyond = .ok (openedFile g true beyond) ∧
      imageLoad (openedFile g true beyond)
        = .ok (loadedImage (openedFile g true beyond) f.blocksOf) ∧
      Fresh source f.blocksOf (loadedImage (openedFile g true beyond) f.blocksOf) := by
  have hfront : ∀ b, b < 8 → g.blocksOf b = f.blocksOf b := fun b hb => by
    rw [hg, reserved, if_pos hb]
  have hlabel : (openedFile g true beyond).poolLabel = (openedFile f false beyond).poolLabel :=
    openedFile_poolLabel_congr hs (hfront 0 (by norm_num))
  have hlarge : 32768 ≤ g.size := hs ▸ h.large
  obtain ⟨hok, hsrc⟩ := h.boot
  refine ⟨imageOpen_congr h.opens (by rw [hk]; simp) hs (hfront 0 (by norm_num)), ?_, ?_⟩
  · refine ((imageLoad_boot fun k _ hk8 => ?_).mp ⟨hok.congr hlabel rfl, rfl⟩).1
    rw [← hfront k hk8]
    exact front hlarge true hk8
  · rw [hsrc]
    refine ⟨rfl, rfl, hlabel, rfl, ?_, hk, hlarge, hg, rfl, rfl, rfl, rfl, rfl⟩
    change g.size / 4096 = f.size / 4096
    rw [hs]

end Rebalanceable

/-! ## 4. The run -/

section Run

variable {E : Fail → Prop} {host : Host} {f : ByteFile} {source : Image ByteFile}

theorem blocksOf_zeroed {size : Nat} (hs : size < 2 ^ 63) :
    (ByteFile.zeroed size hs).blocksOf = fun _ => zeros 4096 :=
  funext fun _ => ByteFile.blockAt_zeroed hs _

/-- **The build**: it fails with the host, or where the last validation refuses. -/
theorem buildTarget_ends (h : Rebalanceable f host.beyond source)
    (hA : Allowed E host (packed (files source) f.blocksOf).next)
    (hbad : ∀ e, Refused source f.blocksOf e → E e) :
    Ends E (buildTarget host ⟨f, none⟩) fun built disk =>
      built.next = (packed (files source) f.blocksOf).next ∧
        Compacted source f.blocksOf f.size built.target built.report ∧
        built.source.isBlockDevice = false ∧ disk.temp = some (built.target.members 0).dev := by
  obtain ⟨rep, hval⟩ := h.valid
  have hlarge := h.large
  have hblk : source.isBlockDevice = false := by
    rw [h.boot.2]
    exact decide_eq_false (by rw [h.regular]; simp)
  have hbytes : source.sizeBytes = f.size := by
    rw [h.boot.2]
    rfl
  unfold buildTarget beginTarget
  simp only [bind_assoc, pure_bind]
  refine Host.read_bind (hA.denied _) rfl (Host.read_bind (hA.denied _) h.opens ?_)
  refine refuseIf_bind (show ¬ f.size = 0 by omega) ?_
  refine Host.read_bind (hA.denied _) h.loads (Host.read_bind (hA.denied _) hval ?_)
  refine (makeTempPath_ends hA h.regular).bind ?_
  rintro _ _ rfl
  refine Ends.bind (Q := fun _ disk => disk = ⟨f, some .empty⟩)
    (Host.call_ends (hA.denied _) (Ends.ok rfl)) ?_
  rintro _ _ rfl
  refine Ends.bind (Q := fun _ disk => disk = ⟨f, some (.zeroed f.size f.size_lt)⟩)
    (Host.call_ends (hA.denied _) ?_) ?_
  · rw [hbytes]
    refine (onTemp_ends (Q := fun _ g => g = .zeroed f.size f.size_lt) ?_).mono ?_
    · rw [truncateFile, dif_pos f.size_lt]
      exact Ends.ok rfl
    · rintro _ _ ⟨g, rfl, rfl⟩
      rfl
  rintro _ _ rfl
  have hzeroed : 32768 ≤ (ByteFile.zeroed f.size f.size_lt).size := hlarge
  refine (onTemp_ends (copyReservedBlocks_ends hA (fun b hb => h.reads hb) rfl hzeroed
    (blocksOf_zeroed f.size_lt))).bind ?_
  rintro _ _ ⟨g, rfl, hk, hs, hg⟩
  obtain ⟨hopen, hload, hfresh⟩ := h.fresh hk hs hg
  refine Host.read_bind (hA.denied _) hopen (Host.read_bind (hA.denied _) hload ?_)
  refine (onTarget_ends (hfresh.fillTarget_ends h.standard hA hbad)).bind ?_
  rintro ⟨out, target⟩ disk ⟨⟨hnext, hdone⟩, htemp⟩
  have hsize : ((loadedImage (openedFile g true host.beyond) f.blocksOf).members 0).dev.size
      = f.size := hs
  rw [hsize] at hdone
  exact Ends.pure ⟨hnext, hdone, hblk, htemp⟩

/-- **The run**: where it succeeds, the file at `path` is the compacted volume. -/
theorem runRebalance_ends (h : Rebalanceable f host.beyond source)
    (hA : Allowed E host (packed (files source) f.blocksOf).next)
    (hbad : ∀ e, Refused source f.blocksOf e → E e) :
    Ends E (runRebalance host ⟨f, none⟩) fun report disk =>
      ∃ target, Compacted source f.blocksOf f.size target report ∧
        disk.path = (target.members 0).dev := by
  have hboth : Ends E ((buildTarget host >>= installTarget host) ⟨f, none⟩) fun report disk =>
      ∃ target, Compacted source f.blocksOf f.size target report ∧
        disk.path = (target.members 0).dev := by
    refine (buildTarget_ends h hA hbad).bind ?_
    rintro built disk ⟨-, hdone, hblk, htemp⟩
    rw [installTarget, if_neg (by simp [hblk])]
    refine Ends.bind (Q := fun _ disk => disk.path = (built.target.members 0).dev)
      (Host.call_ends (hA.denied _) ?_) fun _ disk hpath => Ends.pure ⟨_, hdone, hpath⟩
    rw [renameTemp, htemp]
    exact Ends.ok rfl
  unfold runRebalance
  cases hrun : (buildTarget host >>= installTarget host) ⟨f, none⟩ with
  | ok report disk =>
    obtain ⟨target, hdone, hpath⟩ := hboth.of_ok hrun
    exact Ends.ok ⟨target, hdone, (unlinkTemp_path host disk).trans hpath⟩
  | error e disk => exact Ends.error (hboth.of_error hrun)

end Run

/-! ## 5. Opening what came out

The file may have GROWN: a label can promise more blocks than the file has, as long as none of
them is needed.  Without a label the file stays as long as it was, because the number of blocks is
then taken from its size. -/

section Reopen

variable {f f' : ByteFile} {beyond beyond' : Nat → UInt8} {source : Image ByteFile}

theorem PackedFile.front (hp : PackedFile source f.blocksOf f.size f') :
    f'.blocksOf 0 = f.blocksOf 0 := by
  rw [hp.blocks]
  exact packedBlocks_kept (by norm_num) (by norm_num) (by norm_num) (by norm_num) (by norm_num)

theorem PackedFile.size_of_none (hp : PackedFile source f.blocksOf f.size f')
    (h : Rebalanceable f beyond source) (hnone : plMagic (labelOf f) ≠ poolMagic) :
    f'.size = f.size := by
  obtain ⟨hok, hsrc⟩ := h.boot
  obtain ⟨-, -, -, -, -, -, -, hcount⟩ := boot_places hok.superOk hok.rootOk
  have hlt := f.size_lt
  obtain ⟨-, -, -, -, -, -, -, -, -, -, hlogical, -⟩ := singleLabel_fields (f.size / 4096) (by omega)
  have hblocks : source.blocks = f.size / 4096 := by
    rw [hsrc]
    refine hcount.trans ?_
    rw [loadedImage_poolLabel, openedFile_of_none hnone, openedImage_poolLabel, hlogical]
  have hle := h.standard.fits.1
  rw [hp.size]
  omega

theorem PackedFile.label (hp : PackedFile source f.blocksOf f.size f')
    (h : Rebalanceable f beyond source) (writable : Bool) (beyond' : Nat → UInt8) :
    (openedFile f' writable beyond').poolLabel = source.poolLabel := by
  rw [h.boot.2, loadedImage_poolLabel]
  by_cases hmagic : plMagic (labelOf f) = poolMagic
  · have hmagic' : plMagic (labelOf f') = poolMagic := by rwa [labelOf_congr hp.front]
    rw [openedFile_of_label hmagic, openedFile_of_label hmagic', openedImage_poolLabel,
      openedImage_poolLabel, labelOf_congr hp.front]
  · exact openedFile_poolLabel_congr (hp.size_of_none h hmagic) hp.front

/-- **The compacted volume can be opened again**, by anyone. -/
theorem PackedFile.reopen (hp : PackedFile source f.blocksOf f.size f')
    (h : Rebalanceable f beyond source) (writable : Bool) (beyond' : Nat → UInt8) :
    imageOpen f' writable beyond' = .ok (openedFile f' writable beyond') ∧
      HoldsPacked source f.blocksOf (openedFile f' writable beyond') := by
  obtain ⟨hkind, hsize, hlabel, -⟩ := imageOpen_iff.mp h.opens
  have hlarge : f.size ≤ f'.size ∧ (packed (files source) f.blocksOf).next * 4096 ≤ f'.size := by
    rw [hp.size]
    exact ⟨Nat.le_max_left _ _, Nat.le_max_right _ _⟩
  have hlt := f'.size_lt
  have hmembers : pmTotalBlocks source.poolLabel 0 = 0 →
      ((openedFile f' writable beyond').members 0).blocks = (source.members 0).blocks := by
    intro hzero
    by_cases hmagic : plMagic (labelOf f) = poolMagic
    · obtain ⟨hvalid, hcount⟩ := hlabel hmagic
      have hcap := (labelOk_of_validate hvalid).capacity 0 (by rw [hcount]; norm_num)
      rw [h.boot.2, loadedImage_poolLabel, openedFile_of_label hmagic, openedImage_poolLabel]
        at hzero
      omega
    · rw [h.boot.2]
      change f'.size / 4096 = f.size / 4096
      rw [hp.size_of_none h hmagic]
  refine ⟨imageOpen_iff.mpr ⟨by rw [hp.kind]; simp, by omega, ?_, rfl⟩, rfl, hp.label h _ _,
    fun _ _ => rfl, fun b hb => ?_⟩
  · rw [labelOf_congr hp.front]
    exact hlabel
  · have hmod : b % 2 ^ 52 = b := Nat.mod_eq_of_lt (by omega)
    refine (single_read_file rfl (by omega)).mpr ⟨?_, ?_, ?_⟩
    · exact (served_congr (hp.label h _ _) hmembers).mpr (h.standard.fits.2 b hb)
    · rw [hmod]
      change b * 4096 + 4096 ≤ f'.size
      omega
    · rw [hmod, ← hp.blocks]
      rfl

end Reopen

end AetherFs
