/-
# What a scrubbed file is

Three nested loops check a file: over its extents, over the checksum blocks of an extent's chain,
over the sums in a checksum block.  Each carries a cursor in 64 bits, and what the cursors add up
to is compared with `i_blocks` and `i_size`.  This module reads a byte string off that: the
extents cut `[0, i_blocks)` into pieces, the chain of an extent ends and has one sum for every
block of it (`ChainCovers`), and the size ends in the last block.

Nothing is assumed of the image but its size, so the root-directory block the checkpoint root
names may be ANY number, and the sweep does not quite tile: one extent may go all the way round
the 64-bit numbers behind it (`Scrubbed.used_tiles`).  It is not an extent of a file, since a
chain long enough to cover it does not fit in the image (`Scrubbed.file_tiles`).

The last section adds up the report of a scrub: its three counters come from three places, and
on a LOADED image they agree.
-/
import AetherFs.Image.Coverage

namespace AetherFs

open Lib

/-! ## 1. Chains -/

section Chain

variable {rd : Nat → Except Fail Block} {blocks pstart len : Nat}

/-- **The checksum blocks from block `c` on**, to the first one whose `cb_next` is 0. -/
inductive NextChain (rd : Nat → Except Fail Block) : Nat → List ChecksumBlock → Prop
  | last {c : Nat} {sums : ChecksumBlock} (hread : rd c = .ok sums) (hnext : cbNext sums = 0) :
    NextChain rd c [sums]
  | link {c : Nat} {sums : ChecksumBlock} {rest : List ChecksumBlock} (hread : rd c = .ok sums)
    (hnext : cbNext sums ≠ 0) (hrest : NextChain rd (cbNext sums) rest) :
    NextChain rd c (sums :: rest)

/-- All sums of a chain, in order. -/
def chainSums (chain : List ChecksumBlock) : List Nat :=
  chain.flatMap fun sums => (List.range (cbEntries sums)).map (cbSum sums)

/-- **The chain from `c` covers the `n` blocks from `start`**: it ends, every block of it has
between 1 and 1020 sums, there are `n` of them, and the `k`-th is that of the `k`-th block. -/
structure ChainCovers (rd : Nat → Except Fail Block) (start n c : Nat)
    (chain : List ChecksumBlock) : Prop where
  linked : NextChain rd c chain
  entries : ∀ sums ∈ chain, 1 ≤ cbEntries sums ∧ cbEntries sums ≤ 1020
  total : (chain.map cbEntries).sum = n
  sums : ∀ k, k < n → ∃ block, rd (start + k) = .ok block ∧
    (chainSums chain)[k]? = some (crc32cData (toList block))

theorem getElem?_sums (sums : ChecksumBlock) {k : Nat} (hk : k < cbEntries sums) :
    ((List.range (cbEntries sums)).map (cbSum sums))[k]? = some (cbSum sums k) := by
  rw [List.getElem?_map, List.getElem?_range hk, Option.map_some]

theorem LinkOk.covers {start n c : Nat} {sums : ChecksumBlock} (h : LinkOk rd start n c sums)
    (hfit : start + cbEntries sums ≤ 2 ^ 64) {k : Nat} (hk : k < cbEntries sums) :
    ∃ block, rd (start + k) = .ok block ∧ cbSum sums k = crc32cData (toList block) := by
  obtain ⟨block, hread, hsum⟩ := h.sums_match k hk
  rw [addU64, Nat.mod_eq_of_lt (by omega)] at hread
  exact ⟨block, hread, hsum.symm⟩

theorem ChainCovers.cons {start n c : Nat} {sums : ChecksumBlock} {chain : List ChecksumBlock}
    (hlink : LinkOk rd start (cbEntries sums + n) c sums)
    (hfit : start + cbEntries sums ≤ 2 ^ 64) (hnext : cbNext sums ≠ 0)
    (h : ChainCovers rd (start + cbEntries sums) n (cbNext sums) chain) :
    ChainCovers rd start (cbEntries sums + n) c (sums :: chain) where
  linked := .link hlink.read hnext h.linked
  entries := List.forall_mem_cons.mpr ⟨⟨hlink.entries_pos, hlink.entries_le⟩, h.entries⟩
  total := by rw [List.map_cons, List.sum_cons, h.total]
  sums k hk := by
    rw [chainSums, List.flatMap_cons]
    by_cases hfirst : k < cbEntries sums
    · obtain ⟨block, hread, hsum⟩ := hlink.covers hfit hfirst
      refine ⟨block, hread, ?_⟩
      rw [List.getElem?_append_left (by simpa using hfirst), getElem?_sums sums hfirst, hsum]
    · obtain ⟨block, hread, hsum⟩ := h.sums (k - cbEntries sums) (by omega)
      refine ⟨block, ?_, ?_⟩
      · rwa [show start + cbEntries sums + (k - cbEntries sums) = start + k by omega] at hread
      · rw [List.getElem?_append_right (by simpa using Nat.not_lt.mp hfirst), List.length_map,
          List.length_range]
        exact hsum

theorem chainCovers_last {start c : Nat} {sums : ChecksumBlock}
    (hlink : LinkOk rd start (cbEntries sums) c sums)
    (hfit : start + cbEntries sums ≤ 2 ^ 64) (hnext : cbNext sums = 0) :
    ChainCovers rd start (cbEntries sums) c [sums] where
  linked := .last hlink.read hnext
  entries := List.forall_mem_singleton.mpr ⟨hlink.entries_pos, hlink.entries_le⟩
  total := by simp
  sums k hk := by
    obtain ⟨block, hread, hsum⟩ := hlink.covers hfit hk
    refine ⟨block, hread, ?_⟩
    rw [chainSums, List.flatMap_singleton, getElem?_sums sums hk, hsum]

/-- **A walk that succeeds has followed a chain that covers the extent**, where the addresses of
its blocks do not wrap. -/
theorem csumWalk_covers (hfit : pstart + len ≤ 2 ^ 64) (rest : Nat) :
    ∀ {validated c : Nat} {chain : List Nat}, len - validated = rest → validated < len →
    csumWalk rd blocks pstart len validated c = .ok chain →
    ∃ sums, ChainCovers rd (pstart + validated) rest c sums := by
  induction rest using Nat.strong_induction_on with
  | _ rest ih =>
    intro validated c chain hrest hv h
    obtain ⟨sums, hlink, htail⟩ := (csumWalk_iff hv).mp h
    have hpos := hlink.entries_pos
    have hle := hlink.entries_fit
    rw [addU64, Nat.mod_eq_of_lt (by omega), hrest] at hlink
    rcases htail with ⟨hlt, h8, -, rest', hwalk, -⟩ | ⟨heq, hnext, -⟩
    · obtain ⟨chain', hcovers⟩ := ih (rest - cbEntries sums) (by omega) (by omega) hlt hwalk
      rw [← Nat.add_assoc] at hcovers
      have hsplit : rest = cbEntries sums + (rest - cbEntries sums) := by omega
      rw [hsplit] at hlink ⊢
      exact ⟨_, hcovers.cons hlink (by omega) (by omega)⟩
    · have hall : rest = cbEntries sums := by omega
      rw [hall] at hlink ⊢
      exact ⟨_, chainCovers_last hlink (by omega) hnext⟩

/-- A chain of `c` blocks has at most `1020 * c` sums. -/
theorem csumWalk_length (rest : Nat) : ∀ {validated c : Nat} {chain : List Nat},
    len - validated = rest → csumWalk rd blocks pstart len validated c = .ok chain →
      rest ≤ 1020 * chain.length := by
  induction rest using Nat.strong_induction_on with
  | _ rest ih =>
    intro validated c chain hrest h
    by_cases hv : validated < len
    · obtain ⟨sums, hlink, htail⟩ := (csumWalk_iff hv).mp h
      have hpos := hlink.entries_pos
      have hle := hlink.entries_le
      rcases htail with ⟨hlt, -, -, rest', hwalk, rfl⟩ | ⟨heq, -, rfl⟩
      · have hih := ih (rest - cbEntries sums) (by omega) (by omega) hwalk
        rw [List.length_cons]
        omega
      · rw [List.length_singleton]
        omega
    · omega

end Chain

/-! ## 2. Extents in the file -/

section Logical

variable {rd : Nat → Except Fail Block} {blocks : Nat}

/-- The part of the file an extent describes. -/
def logicalInterval (e : Extent) : Interval := ⟨eLstart e, eLen e⟩

theorem walkExtents_total {es : List Extent} {cursor total : Nat} {used : List Interval}
    (hc : cursor < 2 ^ 64) (h : walkExtents rd blocks es cursor = .ok (total, used)) :
    total = (cursor + (es.map eLen).sum) % 2 ^ 64 := by
  induction es generalizing cursor used with
  | nil =>
    rw [walkExtents] at h
    obtain ⟨rfl, -⟩ := Prod.mk.inj (Except.ok.inj h)
    exact (Nat.mod_eq_of_lt hc).symm
  | cons e es ih =>
    obtain ⟨first, rest, -, hrest, -⟩ := walkExtents_cons_iff.mp h
    rw [ih (Nat.mod_lt _ (by norm_num)) hrest, List.map_cons, List.sum_cons]
    omega

/-- **The extents cut the file into pieces**, where the cursor does not wrap. -/
theorem walkExtents_logical {es : List Extent} {cursor total : Nat} {used : List Interval}
    (h : walkExtents rd blocks es cursor = .ok (total, used))
    (hfit : cursor + (es.map eLen).sum < 2 ^ 64) :
    Tiles cursor total (es.map logicalInterval) := by
  induction es generalizing cursor used with
  | nil =>
    rw [walkExtents] at h
    exact (Prod.mk.inj (Except.ok.inj h)).1
  | cons e es ih =>
    obtain ⟨first, rest, hfirst, hrest, -⟩ := walkExtents_cons_iff.mp h
    obtain ⟨hok, -⟩ := checkExtent_iff.mp hfirst
    rw [List.map_cons, List.sum_cons] at hfit
    rw [addU64, Nat.mod_eq_of_lt (by omega)] at hrest
    have htail := ih hrest (by omega)
    exact ⟨hok.lstart, hok.len_pos, htail⟩

theorem blocks_of_size {n size : Nat} (h : ¬ badSize n size) (hn : n * 4096 < 2 ^ 64) :
    n = (size + 4095) / 4096 := by
  have hmul : ∀ m, m ≤ n → mulU64 m defBlockSize = m * 4096 := fun m hm => by
    simp only [mulU64, defBlockSize]
    omega
  rw [badSize, hmul n (Nat.le_refl n), hmul (n - 1) (Nat.sub_le n 1)] at h
  omega

end Logical

/-! ## 3. Where the blocks of the files are -/

section Used

variable {δ : Type} [BlockDev δ] {img : Image δ} {refs : List Nat} {ts : List Tally}
  {free : List Interval} {index : Nat}

omit [BlockDev δ] in
theorem used_subperm_coverageOf {root : Nat} {free used : List Interval}
    (hused : ∀ iv ∈ used, 8 ≤ iv.start) : used.Subperm (coverageOf root free used) := by
  have hself : used.filter (fun iv => decide (dataStartBlock ≤ iv.start)) = used :=
    List.filter_eq_self.mpr fun iv hiv => decide_eq_true (hused iv hiv)
  have hsort : used.Subperm (sortIntervals (⟨root, 1⟩ :: used)) :=
    (List.sublist_cons_self _ _).subperm.trans (sortIntervals_perm _).symm.subperm
  have hfilter := hsort.filter fun iv => decide (dataStartBlock ≤ iv.start)
  rw [hself] at hfilter
  exact hfilter.trans (List.sublist_append_right _ _).subperm

omit [BlockDev δ] in
theorem mem_coverageOf {root : Nat} {free used : List Interval} {iv : Interval}
    (h : iv ∈ coverageOf root free used) : iv = ⟨root, 1⟩ ∨ iv ∈ free ∨ iv ∈ used := by
  rcases List.mem_append.mp h with h | h
  · exact Or.inr (Or.inl h)
  · rcases List.mem_cons.mp (mem_sortIntervals.mp (List.mem_of_mem_filter h)) with rfl | h
    · exact Or.inl rfl
    · exact Or.inr (Or.inr h)

/-- **What the files use is part of a tiling**, but for an extent that goes all the way round. -/
theorem Scrubbed.used_tiles (h : Scrubbed img refs ts free) (h8 : 8 ≤ img.blocks)
    (hb : img.blocks < 2 ^ 64) : ∃ tiles, Tiles 8 img.blocks tiles ∧
      ((ts.flatMap Tally.used).filter fun iv => decide (iv.start < img.blocks)).Subperm tiles ∧
      ∀ iv ∈ ts.flatMap Tally.used, img.blocks ≤ iv.start →
        iv = ⟨img.blocks + 1, 2 ^ 64 - 1⟩ := by
  obtain ⟨-, hsane⟩ := walkFree_intervals (checkFree_iff.mp h.freeList).2.2
  obtain ⟨-, hsane'⟩ := h.used_intervals hb
  have hsub := (used_subperm_coverageOf fun iv hiv => (hsane' iv hiv).1).trans
    (sortIntervals_perm (coverageOf (crRootDirBlock img.checkpointRoot) free
      (ts.flatMap Tally.used))).symm.subperm
  obtain ⟨tiles, ht, hall⟩ := sweep_tiles_or (by norm_num) hb (sortIntervals_pairwise _) h8
    (fun iv hiv => (mem_coverageOf (mem_sortIntervals.mp hiv)).imp_right fun hiv => by
      have hs : Sane img.blocks iv := hiv.elim (hsane iv) fun hiv => (hsane' iv hiv).2
      exact ⟨hs.len_pos, hs.len_lt, hs.end_le⟩) h.covered
  have hin : ∀ iv ∈ tiles, iv.start < img.blocks := fun iv hiv => by
    have := ht.within iv hiv
    omega
  refine ⟨tiles, ht, ?_, fun iv hiv hge => ?_⟩
  · have hfilter := hsub.filter fun iv => decide (iv.start < img.blocks)
    rcases hall with heq | ⟨-, heq⟩
    · rw [heq] at hfilter
      exact hfilter.trans List.filter_sublist.subperm
    · rw [heq, List.filter_append] at hfilter
      have hlast : [(⟨img.blocks, 1⟩ : Interval), ⟨img.blocks + 1, 2 ^ 64 - 1⟩].filter
          (fun iv => decide (iv.start < img.blocks)) = [] := by simp
      rw [hlast, List.append_nil] at hfilter
      exact hfilter.trans List.filter_sublist.subperm
  · have hmem := hsub.subset hiv
    rcases hall with heq | ⟨hroom, heq⟩
    · rw [heq] at hmem
      exact absurd (hin iv hmem) (Nat.not_lt.mpr hge)
    · rw [heq] at hmem
      rcases List.mem_append.mp hmem with hmem | hmem
      · exact absurd (hin iv hmem) (Nat.not_lt.mpr hge)
      · rcases List.mem_cons.mp hmem with rfl | hmem
        · -- the cell at the end of the image is not one of a file
          have hend := (hsane' _ hiv).2.end_le
          rw [Nat.mod_eq_of_lt hroom] at hend
          exact absurd hend (Nat.not_succ_le_self _)
        · exact List.mem_singleton.mp hmem

/-- The intervals of a file, behind its extent root, are among those the scrub collected. -/
theorem Scrubbed.file_sublist (h : Scrubbed img refs ts free) (hb : img.blocks < 2 ^ 64)
    (hr : RegularAt img index) :
    ((fileExtents img index).flatMap (extentIntervals (imageReadBlock img))).Sublist
      (ts.flatMap Tally.used) := by
  have hone : [index].Sublist (List.range maxInodes) :=
    List.singleton_sublist.mpr (List.mem_range.mpr hr.1)
  have hslots := (hone.flatMap (fileSlots img)).map Prod.snd
  rw [List.flatMap_singleton, fileSlots_intervals hr] at hslots
  rw [(h.used_intervals hb).1]
  exact (List.sublist_cons_self _ _).trans hslots

theorem Scrubbed.extent (h : Scrubbed img refs ts free) (hr : RegularAt img index) {e : Extent}
    (he : e ∈ fileExtents img index) : ∃ cursor used,
      checkExtent (imageReadBlock img) img.blocks cursor e = .ok used := by
  obtain ⟨used, hwalk⟩ := h.extents hr
  exact walkExtents_mem hwalk he

/-- The chain of an extent is as long as it must be, and lies in the image. -/
theorem Scrubbed.chain (h : Scrubbed img refs ts free) (hr : RegularAt img index) {e : Extent}
    (he : e ∈ fileExtents img index) : eLen e ≤ 1020 * (extentChain img e).length ∧
      ∀ c ∈ extentChain img e, c < img.blocks := by
  obtain ⟨cursor, used, hcheck⟩ := h.extent hr he
  obtain ⟨hok, chain, hchain, -⟩ := checkExtent_iff.mp hcheck
  obtain ⟨rfl, hin⟩ := csumWalk_chain (eLen e) (Nat.sub_zero _) hok.csum_ge hok.csum_lt hchain
  exact ⟨csumWalk_length (eLen e) (Nat.sub_zero _) hchain, fun c hc => (hin c hc).2⟩

/-- A file that passes has its extent root in the data region, so there is one. -/
theorem Scrubbed.blocks_gt (h : Scrubbed img refs ts free) (hr : RegularAt img index) :
    8 < img.blocks := by
  obtain ⟨used, hfile⟩ := h.file hr
  obtain ⟨hge, hlt, -⟩ := checkFile_iff.mp hfile
  omega

/-- **The extents of a file and their chains are part of a tiling of the data region**, in an
image of fewer than 2^51 blocks. -/
theorem Scrubbed.file_tiles (h : Scrubbed img refs ts free) (hb : img.blocks < 2 ^ 51)
    (hr : RegularAt img index) : ∃ tiles, Tiles 8 img.blocks tiles ∧
      ((fileExtents img index).flatMap (extentIntervals (imageReadBlock img))).Subperm tiles := by
  have h8 := h.blocks_gt hr
  obtain ⟨tiles, ht, hsub, hround⟩ := h.used_tiles (Nat.le_of_lt h8) (by omega)
  have hfile := h.file_sublist (by omega) hr
  have hpart : ∀ {l : List Interval}, l.Sublist (ts.flatMap Tally.used) →
      (∀ iv ∈ l, iv.start < img.blocks) → l.Subperm tiles := fun {l} hl hin => by
    have hself : l.filter (fun iv => decide (iv.start < img.blocks)) = l :=
      List.filter_eq_self.mpr fun iv hiv => decide_eq_true (hin iv hiv)
    rw [← hself]
    exact (hl.filter _).subperm.trans hsub
  refine ⟨tiles, ht, hpart hfile fun iv hiv => ?_⟩
  by_contra hge
  have hlong := hround iv (hfile.subset hiv) (Nat.not_lt.mp hge)
  obtain ⟨e, he, hive⟩ := List.mem_flatMap.mp hiv
  rcases List.mem_cons.mp hive with rfl | hive
  · -- its chain alone would not fit
    obtain ⟨hlen, hin⟩ := h.chain hr he
    have hone := (List.singleton_sublist.mpr he).flatMap (extentIntervals (imageReadBlock img))
    rw [List.flatMap_singleton] at hone
    have hchain : ((extentChain img e).map fun c => (⟨c, 1⟩ : Interval)).Sublist
        (ts.flatMap Tally.used) := ((List.sublist_cons_self _ _).trans hone).trans hfile
    have hfit := totalLen_le_of_subperm (hpart hchain fun iv hiv => by
      obtain ⟨c, hc, rfl⟩ := List.mem_map.mp hiv
      exact hin c hc)
    have hsum := ht.totalLen
    rw [totalLen_ones] at hfit
    have hround' : eLen e = 2 ^ 64 - 1 := congrArg Interval.len hlong
    omega
  · obtain ⟨c, -, rfl⟩ := List.mem_map.mp hive
    exact absurd (congrArg Interval.len hlong) (by norm_num)

/-- So no address of a data block wraps. -/
theorem Scrubbed.extent_within (h : Scrubbed img refs ts free) (hb : img.blocks < 2 ^ 51)
    (hr : RegularAt img index) {e : Extent} (he : e ∈ fileExtents img index) :
    ePstart e + eLen e ≤ img.blocks := by
  obtain ⟨tiles, ht, hsub⟩ := h.file_tiles hb hr
  have hmem : extentInterval e
      ∈ (fileExtents img index).flatMap (extentIntervals (imageReadBlock img)) :=
    List.mem_flatMap.mpr ⟨e, he, List.mem_cons_self⟩
  exact (ht.within _ (hsub.subset hmem)).2.1

omit [BlockDev δ] in
theorem totalLen_extentIntervals (rd : Nat → Except Fail Block) (es : List Extent) :
    totalLen (es.flatMap (extentIntervals rd)) = (es.map eLen).sum +
      (es.flatMap fun e => chainOf rd (eLen e) (eCsumStart e)).length := by
  rw [totalLen_flatMap, List.length_flatMap, ← List.sum_map_add]
  refine congrArg List.sum (List.map_congr_left fun e _ => ?_)
  rw [extentIntervals, totalLen_cons, totalLen_ones]
  rfl

theorem Scrubbed.file_length (h : Scrubbed img refs ts free) (hb : img.blocks < 2 ^ 51)
    (hr : RegularAt img index) : ((fileExtents img index).map eLen).sum ≤ img.blocks - 8 := by
  obtain ⟨tiles, ht, hsub⟩ := h.file_tiles hb hr
  have hle := totalLen_le_of_subperm hsub
  rw [totalLen_extentIntervals] at hle
  have hsum := ht.totalLen
  omega

/-- `i_blocks` is the sum of the extents' lengths where that does not wrap. -/
theorem Scrubbed.file_blocks (h : Scrubbed img refs ts free) (hr : RegularAt img index)
    (hfit : ((fileExtents img index).map eLen).sum < 2 ^ 64) :
    iBlocks (img.inodeTable index) = ((fileExtents img index).map eLen).sum := by
  obtain ⟨used, hwalk⟩ := h.extents hr
  have htotal := walkExtents_total (by norm_num) hwalk
  rwa [Nat.zero_add, Nat.mod_eq_of_lt hfit] at htotal

end Used

/-! ## 4. Files as byte strings -/

section Defined

variable {δ : Type} [BlockDev δ] {img : Image δ} {index : Nat}

/-- **A file is a well-defined byte string**: its extents, in order, cut `[0, i_blocks)` into
pieces; the chain of each covers it; and the size ends in the last block. -/
structure FileDefined (img : Image δ) (index : Nat) : Prop where
  extents : ∃ node, imageReadBlock img (iExtentRoot (img.inodeTable index)) = .ok node ∧
    Tiles 0 (iBlocks (img.inodeTable index)) ((enExtents node).map logicalInterval) ∧
    ∀ e ∈ enExtents node, ∃ chain,
      ChainCovers (imageReadBlock img) (ePstart e) (eLen e) (eCsumStart e) chain
  size : iBlocks (img.inodeTable index) = (iSize (img.inodeTable index) + 4095) / 4096

/-- **Every file that a scrub passes is a well-defined byte string.** -/
theorem scrubbed_file_defined {rep : ScrubReport} (hb : img.blocks * 4096 < 2 ^ 63)
    (hval : imageValidate img = .ok rep) (hr : RegularAt img index) : FileDefined img index := by
  obtain ⟨refs, ts, free, h, -⟩ := imageValidate_iff.mp hval
  have hb51 : img.blocks < 2 ^ 51 := by omega
  obtain ⟨used, hfile⟩ := h.file hr
  obtain ⟨-, -, node, rest, hnode, -, hwalk, -, hsize, -⟩ := checkFile_iff.mp hfile
  have hread := (readExtentNode_iff.mp hnode).1
  have hext : fileExtents img index = enExtents node := by rw [fileExtents, hread]
  have hlength := h.file_length hb51 hr
  have hblocks := h.file_blocks hr (by omega)
  have hle : iBlocks (img.inodeTable index) ≤ img.blocks := by omega
  have hsmall : iBlocks (img.inodeTable index) * 4096 < 2 ^ 64 :=
    (Nat.mul_le_mul_right 4096 hle).trans_lt (hb.trans (by norm_num))
  rw [hext] at hlength
  refine ⟨⟨node, hread, walkExtents_logical hwalk (by omega), fun e he => ?_⟩,
    blocks_of_size hsize hsmall⟩
  rw [← hext] at he
  obtain ⟨cursor, first, hcheck⟩ := h.extent hr he
  obtain ⟨hok, chain, hchain, -⟩ := checkExtent_iff.mp hcheck
  have hwithin := h.extent_within hb51 hr he
  obtain ⟨sums, hcovers⟩ :=
    csumWalk_covers (by omega) (eLen e) (Nat.sub_zero _) hok.len_pos hchain
  exact ⟨sums, hcovers⟩

theorem oneFile_defined : ∃ img rep, img.blocks = 16 ∧
    imageValidate (δ := ByteFile) img = .ok rep ∧ RegularAt img 1 ∧ FileDefined img 1 := by
  have hscrub := @oneFile_scrubbed 16 1 (fun _ => zeros 4096) false (fun _ => 0) (by norm_num)
    (by norm_num) (by decide)
  have hval := imageValidate_iff.mpr ⟨_, _, _, hscrub, rfl⟩
  have hblocks := @oneFileImage_blocks 16 1 (fun _ => zeros 4096) false (fun _ => 0) (by norm_num)
  have hr : RegularAt (oneFileImage 16 1 (fun _ => zeros 4096) (by norm_num) false fun _ => 0) 1 := by
    have hmode := (@fileInode_fields 1 8 (by norm_num) (by norm_num)).1
    refine ⟨by norm_num, ?_, ?_⟩
    · rw [oneFileImage, volumeImage_bitmap, (byteBitmap_firstByte (by norm_num)).test]
      rfl
    · rw [oneFileImage, volumeImage_inode_one, hmode]
      decide
  exact ⟨_, _, hblocks, hval, hr, scrubbed_file_defined (by rw [hblocks]; norm_num) hval hr⟩

end Defined

/-! ## 5. The report adds up -/

section Report

variable {δ : Type} [BlockDev δ] {img : Image δ} {refs : List Nat} {ts : List Tally}
  {free : List Interval} {index : Nat}

/-- The regular files of an image. -/
def regularFiles (img : Image δ) : List Nat :=
  (List.range maxInodes).filter fun i => RegularAt img i

/-- The checksum blocks of a file. -/
def chainBlocks (img : Image δ) (index : Nat) : List Nat :=
  (fileExtents img index).flatMap (extentChain img)

omit [BlockDev δ] in
theorem sum_regularFiles (f : Nat → Nat) :
    ((List.range maxInodes).map fun i => if RegularAt img i then f i else 0).sum
      = ((regularFiles img).map f).sum := by
  rw [List.sum_map_ite, regularFiles]
  simp

omit [BlockDev δ] in
theorem checkInode_counts {rd : Nat → Except Fail Block} {t : Tally}
    (h : checkInode rd img refs index = .ok t) :
    t.files + t.directories = (if imageBitmapTest img.inodeBitmap index = true then 1 else 0) ∧
      t.dataBlocks = if RegularAt img index then iBlocks (img.inodeTable index) else 0 := by
  rcases checkInode_iff.mp h with ⟨hbit, -, rfl⟩ | ⟨hbit, -, ⟨hdir, -, -, rfl⟩ | ⟨hreg, -, n, used,
    hfile, rfl⟩⟩
  · rw [if_neg (by simp [hbit]), if_neg (by simp [RegularAt, hbit])]
    exact ⟨rfl, rfl⟩
  · rw [if_pos hbit, if_neg fun hr => hr.2.2.not_dir hdir]
    exact ⟨rfl, rfl⟩
  · obtain ⟨-, -, node, rest, -, -, -, hn, -⟩ := checkFile_iff.mp hfile
    rw [if_pos hbit, if_pos ⟨imageBitmapTest_lt hbit, hbit, hreg⟩]
    exact ⟨rfl, hn⟩

/-- The stored count is the number of allocated inodes, once the loader has compared it. -/
theorem imageBitmapCountSet_eq (b : BitmapBlock) : imageBitmapCountSet b
    = ((List.range maxInodes).filter fun i => imageBitmapTest b i = true).length := by
  have hlen : ((List.range maxInodes).filter fun i => imageBitmapTest b i = true).length < 2 ^ 32 := by
    refine (List.length_filter_le _ _).trans_lt ?_
    rw [List.length_range]
    norm_num
  rw [imageBitmapCountSet, sum_setBits fun i => (bbBits b i).toNat]
  refine Eq.trans ?_ (Nat.mod_eq_of_lt hlen)
  refine congrArg (fun l : List Nat => l.length % 2 ^ 32) (List.filter_congr fun i _ => ?_)
  rw [imageBitmapTest, Bool.decide_eq_true]

/-- Every allocated inode is counted once, as a file or as a directory. -/
theorem Scrubbed.counts (h : Scrubbed img refs ts free) :
    (ts.map Tally.files).sum + (ts.map Tally.directories).sum
      = imageBitmapCountSet img.inodeBitmap := by
  rw [← List.sum_map_add, map_eq_of_forall₂ h.inodes fun i t ht => (checkInode_counts ht).1,
    List.sum_map_ite, imageBitmapCountSet_eq]
  simp

theorem Scrubbed.dataBlocks (h : Scrubbed img refs ts free) : (ts.map Tally.dataBlocks).sum
    = ((regularFiles img).map fun i => iBlocks (img.inodeTable i)).sum := by
  rw [map_eq_of_forall₂ h.inodes fun i t ht => (checkInode_counts ht).2, sum_regularFiles]

theorem totalLen_fileSlots (hr : RegularAt img index) :
    totalLen ((fileSlots img index).map Prod.snd)
      = 1 + (((fileExtents img index).map eLen).sum + (chainBlocks img index).length) := by
  rw [fileSlots_intervals hr, totalLen_cons, totalLen_extentIntervals]
  rfl

/-- **What the files use**: an extent root, their blocks, their chains. -/
theorem Scrubbed.totalLen_used (h : Scrubbed img refs ts free) (hb : img.blocks < 2 ^ 64)
    (hfit : totalLen (ts.flatMap Tally.used) < 2 ^ 64) : totalLen (ts.flatMap Tally.used)
      = ((regularFiles img).map fun i => iBlocks (img.inodeTable i)).sum
        + (regularFiles img).length + ((regularFiles img).flatMap (chainBlocks img)).length := by
  have hused := (h.used_intervals hb).1
  rw [List.map_flatMap] at hused
  have hfile : ∀ i ∈ List.range maxInodes, totalLen ((fileSlots img i).map Prod.snd)
      = if RegularAt img i then iBlocks (img.inodeTable i) + 1 + (chainBlocks img i).length
        else 0 := by
    intro i _
    split
    · rename_i hr
      have hle := totalLen_le_of_subperm (h.file_sublist hb hr).subperm
      rw [totalLen_extentIntervals] at hle
      rw [totalLen_fileSlots hr, h.file_blocks hr (by omega)]
      omega
    · rename_i hr
      rw [fileSlots, if_neg hr]
      rfl
  rw [hused, totalLen_flatMap, List.map_congr_left hfile, sum_regularFiles, List.sum_map_add,
    List.sum_map_add, List.length_flatMap]
  simp

/-- **The report adds up.**  On an image that has been loaded, every allocated inode is a file or
the directory, `data_blocks` is the sum of the files' `i_blocks`, and with the free blocks, the
extent roots and the checksum blocks it accounts for the whole data region. -/
theorem scrub_report_adds_up {img0 img : Image δ} {rep : ScrubReport}
    (hload : imageLoad img0 = .ok img) (hval : imageValidate img = .ok rep) :
    rep.files + rep.directories = rep.inodesUsed ∧
    rep.dataBlocks = ((regularFiles img).map fun i => iBlocks (img.inodeTable i)).sum ∧
    rep.dataBlocks + rep.freeBlocks + (regularFiles img).length
      + ((regularFiles img).flatMap (chainBlocks img)).length = img.blocks - 8 := by
  obtain ⟨refs, ts, free, h, rfl⟩ := imageValidate_iff.mp hval
  obtain ⟨hb, tiles, ht, hp⟩ := slots_tile hload h
  have hbitmap := (imageLoad_iff.mp hload).bitmapOk
  simp only [imageValidateBitmap, failIf_bind_ok, failIf_eq_ok, not_not] at hbitmap
  have hall := ht.totalLen
  rw [← totalLen_perm hp, h.slots_intervals hb, totalLen_append] at hall
  have hused := h.totalLen_used hb (by omega)
  have hdata : (ts.map Tally.dataBlocks).sum % 2 ^ 64
      = ((regularFiles img).map fun i => iBlocks (img.inodeTable i)).sum := by
    rw [h.dataBlocks]
    exact Nat.mod_eq_of_lt (by omega)
  have hfree : totalLen free % 2 ^ 64 = totalLen free := Nat.mod_eq_of_lt (by omega)
  refine ⟨?_, hdata, ?_⟩
  · exact h.counts.trans hbitmap.2.2.symm
  · simp only [reportOf, hdata, hfree]
    omega

theorem oneFile_report_adds_up : ∃ img0 img rep,
    imageLoad (δ := ByteFile) img0 = .ok img ∧ imageValidate img = .ok rep ∧
    rep.files + rep.directories = rep.inodesUsed ∧
    rep.dataBlocks = ((regularFiles img).map fun i => iBlocks (img.inodeTable i)).sum ∧
    rep.dataBlocks + rep.freeBlocks + (regularFiles img).length
      + ((regularFiles img).flatMap (chainBlocks img)).length = img.blocks - 8 := by
  obtain ⟨-, hload, -, rep, hval⟩ := oneFile_validates (n := 16) (m := 1) false (fun _ => 0)
    (fun _ => zeros 4096) (by norm_num) (by norm_num) (by decide)
  exact ⟨_, _, rep, hload, hval, scrub_report_adds_up hload hval⟩

end Report

end AetherFs
