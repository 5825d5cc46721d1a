/-
# Silent corruption of a data block

One data block of a file is overwritten by a block that differs from it inside four consecutive
bytes.  Scrub reads it through its place in the checksum chain, and the checksum tells the two
apart, so the scrub ends in `EILSEQ`; the question is what else could happen first.  Nothing:
the block is the data of one file position and of nothing else, so every other read of the walk
returns what it returned before.

The argument is one statement per level of the walk, from the chain to the inode loop, of one
shape: OVER THE TAMPERED READER, a part of the walk that succeeded before ends in `EILSEQ` when
it covers the block, and is unchanged when it does not (`csumWalk_tampered`, ...,
`walkInodes_tampered`).
-/
import AetherFs.Image.Coverage

namespace AetherFs

open Lib

/-! ## 1. Bursts -/

/-- Two blocks that differ only inside four consecutive bytes. -/
def BurstOf (a b : Block) : Prop :=
  a ≠ b ∧ ∃ p, ∀ i, i < p ∨ p + 4 ≤ i → byteAt a i = byteAt b i

/-- **The checksum separates them.** -/
theorem BurstOf.crc_ne {a b : Block} (h : BurstOf a b) :
    crc32cData (toList a) ≠ crc32cData (toList b) := by
  obtain ⟨hne, p, hsame⟩ := h
  have hget : ∀ i, i < p ∨ p + 4 ≤ i → (toList a)[i]? = (toList b)[i]? := by
    intro i hi
    rw [toList_getElem?, toList_getElem?, hsame i hi]
  have hlists : toList a ≠ toList b := fun heq => hne (List.ofFn_injective heq)
  obtain ⟨pre, mid, mid', post, ha, hb, hmid, hfour⟩ := exists_window (by simp) hget
  rw [ha, hb] at hlists ⊢
  intro hcrc
  refine crc32c_burst_ne _ pre post mid mid' hmid hfour ?_ (BitVec.eq_of_toNat_eq hcrc)
  rintro rfl
  exact hlists rfl

/-! ## 2. The walk over the tampered reader -/

/-- Two readers that differ in one block below `blocks`, to which the checksum gives different
values. -/
structure Tampered (rd rd' : Nat → Except Fail Block) (blocks b : Nat) : Prop where
  lt : blocks < 2 ^ 64
  agree : ∀ c, c < blocks → c ≠ b → rd' c = rd c
  differ : ∃ old new, rd b = .ok old ∧ rd' b = .ok new ∧
    crc32cData (toList new) ≠ crc32cData (toList old)

section Tampered

variable {rd rd' : Nat → Except Fail Block} {blocks b : Nat}

/-- What becomes of a part of the walk: an error when it covers the block, else what it was. -/
def tampered {α : Type} (p : Prop) [Decidable p] (x : α) : Except Fail α :=
  if p then .error (.check .EILSEQ) else .ok x

theorem checkSum_tampered (ht : Tampered rd rd' blocks b) {sums : ChecksumBlock} {start i : Nat}
    (hlt : start + i < blocks) (h : checkSum rd sums start i = .ok ()) :
    checkSum rd' sums start i = tampered (start + i = b) () := by
  have hb := ht.lt
  have hblock : addU64 start i = start + i := Nat.mod_eq_of_lt (by omega)
  obtain ⟨block, hread, hsum⟩ := checkSum_iff.mp h
  rw [hblock] at hread
  unfold tampered
  split
  · rename_i heq
    obtain ⟨old, new, hold, hnew, hcrc⟩ := ht.differ
    rw [heq, hold] at hread
    obtain rfl := Except.ok.inj hread
    rw [checkSum, hblock, heq, hnew, ok_bind, failIf_of (by rw [← hsum]; exact hcrc)]
  · rename_i hne
    refine checkSum_iff.mpr ⟨block, ?_, hsum⟩
    rw [hblock, ht.agree _ hlt hne, hread]

/-- One checksum block: its sums are checked in order, up to the tampered block. -/
theorem checkSums_tampered (ht : Tampered rd rd' blocks b) {sums : ChecksumBlock} {start n : Nat}
    (hlt : start + n ≤ blocks)
    (h : ∀ i, i < n → checkSum rd sums start i = .ok ()) :
    forEach (checkSum rd' sums start) (List.range n) = tampered (start ≤ b ∧ b < start + n) () := by
  have hone : ∀ i, i < n → checkSum rd' sums start i = tampered (start + i = b) () :=
    fun i hi => checkSum_tampered ht (by omega) (h i hi)
  rw [tampered]
  split
  · rename_i hin
    have hsplit : List.range n = List.range (b - start) ++ (b - start) ::
        (List.range (n - (b - start) - 1)).map (fun i => b - start + (i + 1)) := by
      rw [show n = (b - start) + ((n - (b - start) - 1) + 1) by omega, List.range_add,
        List.range_succ_eq_map]
      simp [Function.comp_def]
    rw [hsplit]
    refine forEach_error (fun i hi => ?_) ?_
    · have := List.mem_range.mp hi
      rw [hone i (by omega), tampered, if_neg (by omega)]
    · rw [hone _ (by omega), tampered, if_pos (by omega)]
  · rename_i hout
    refine forEach_eq_ok.mpr fun i hi => ?_
    have := List.mem_range.mp hi
    rw [hone i this, tampered, if_neg (by omega)]

/-- **The chain.** -/
theorem csumWalk_tampered (ht : Tampered rd rd' blocks b) {pstart len : Nat}
    (hend : pstart + len ≤ blocks) (rest : Nat) :
    ∀ {validated c : Nat} {chain : List Nat}, len - validated = rest → validated ≤ len →
      c < blocks → csumWalk rd blocks pstart len validated c = .ok chain → b ∉ chain →
      csumWalk rd' blocks pstart len validated c
        = tampered (pstart + validated ≤ b ∧ b < pstart + len) chain := by
  have hb := ht.lt
  induction rest using Nat.strong_induction_on with
  | _ rest ih =>
    intro validated c chain hrest hle hc h hnot
    by_cases hv : validated < len
    · obtain ⟨sums, hlink, htail⟩ := (csumWalk_iff hv).mp h
      have hpos := hlink.entries_pos
      have hfit := hlink.entries_fit
      have hcb : c ≠ b := by
        rintro rfl
        rcases htail with ⟨-, -, -, rest', -, rfl⟩ | ⟨-, -, rfl⟩ <;> simp at hnot
      have hstart : addU64 pstart validated = pstart + validated := Nat.mod_eq_of_lt (by omega)
      have hsums : forEach (checkSum rd' sums (pstart + validated)) (List.range (cbEntries sums))
          = tampered (pstart + validated ≤ b ∧ b < pstart + validated + cbEntries sums) () := by
        refine checkSums_tampered ht (by omega) fun i hi => checkSum_iff.mpr ?_
        rw [← hstart]
        exact hlink.sums_match i hi
      have hread : readChecksumBlock rd' c = .ok sums := readChecksumBlock_iff.mpr
        ⟨(ht.agree c hc hcb).trans hlink.read, hlink.sealed, hlink.entries_le⟩
      rw [csumWalk, if_pos hv, hread, ok_bind,
        if_neg (by have := hlink.entries_le; simp only [checksumsPerBlock]; omega), hstart, hsums]
      by_cases hin : pstart + validated ≤ b ∧ b < pstart + validated + cbEntries sums
      · rw [tampered, if_pos hin, error_bind, tampered, if_pos (by omega)]
      · rw [tampered, if_neg hin, ok_bind]
        rcases htail with ⟨hlt, h8, hnext, rest', hwalk, rfl⟩ | ⟨heq, h0, rfl⟩
        · rw [if_pos hlt, failIf_of_not (by simp only [dataStartBlock]; omega), ok_bind,
            ih (rest - cbEntries sums) (by omega) (by omega) (by omega) hnext hwalk
              (fun hmem => hnot (List.mem_cons_of_mem _ hmem)), tampered, tampered]
          by_cases hin' : pstart + (validated + cbEntries sums) ≤ b ∧ b < pstart + len
          · rw [if_pos hin', if_pos (by omega), error_bind]
          · rw [if_neg hin', if_neg (by omega), ok_bind]
        · rw [if_neg (by omega), failIf_of_not (not_not.mpr h0), ok_bind, tampered,
            if_neg (by omega)]
    · rw [csumWalk, if_neg hv] at h ⊢
      rw [tampered, if_neg (by omega), h]

/-- One extent: its data has no end past the image, and its chain does not meet the block. -/
def ExtentClear (rd : Nat → Except Fail Block) (blocks b : Nat) (e : Extent) : Prop :=
  ePstart e + eLen e ≤ blocks ∧ b ∉ chainOf rd (eLen e) (eCsumStart e)

theorem checkExtent_tampered (ht : Tampered rd rd' blocks b) {cursor : Nat} {e : Extent}
    {used : List Interval} (hclear : ExtentClear rd blocks b e)
    (h : checkExtent rd blocks cursor e = .ok used) :
    checkExtent rd' blocks cursor e = tampered ((extentInterval e).Has b) used := by
  obtain ⟨hok, chain, hchain, hused⟩ := checkExtent_iff.mp h
  obtain ⟨hvisit, -⟩ := csumWalk_chain (eLen e) (Nat.sub_zero _) hok.csum_ge hok.csum_lt hchain
  have hwalk := csumWalk_tampered ht hclear.1 (eLen e) (Nat.sub_zero _) (Nat.zero_le _) hok.csum_lt
    hchain (hvisit ▸ hclear.2)
  have hbounds : ¬ (eLen e = 0 ∨ eLstart e ≠ cursor ∨ ePstart e < dataStartBlock ∨
      addU64 (ePstart e) (eLen e) > blocks ∨ eCsumStart e < dataStartBlock ∨
      eCsumStart e ≥ blocks) := (failIf_bind_ok.mp h).1
  have hhas : (extentInterval e).Has b ↔ ePstart e + 0 ≤ b ∧ b < ePstart e + eLen e := Iff.rfl
  rw [checkExtent, failIf_of_not hbounds, ok_bind, hwalk, tampered, tampered]
  by_cases hin : (extentInterval e).Has b
  · rw [if_pos (hhas.mp hin), if_pos hin, error_bind]
  · rw [if_neg (fun h => hin (hhas.mpr h)), if_neg hin, ok_bind, hused]

/-- **The extents of a file.** -/
theorem walkExtents_tampered (ht : Tampered rd rd' blocks b) {es : List Extent}
    {cursor total : Nat} {used : List Interval} (hclear : ∀ e ∈ es, ExtentClear rd blocks b e)
    (h : walkExtents rd blocks es cursor = .ok (total, used)) :
    walkExtents rd' blocks es cursor
      = tampered (∃ e ∈ es, (extentInterval e).Has b) (total, used) := by
  induction es generalizing cursor used with
  | nil =>
    rw [walkExtents] at h ⊢
    rw [tampered, if_neg (by simp), h]
  | cons e es ih =>
    obtain ⟨first, rest, hfirst, hrest, rfl⟩ := walkExtents_cons_iff.mp h
    have htail := ih (fun x hx => hclear x (List.mem_cons_of_mem _ hx)) hrest
    rw [walkExtents, checkExtent_tampered ht (hclear e List.mem_cons_self) hfirst, htail, tampered,
      tampered, tampered]
    by_cases hhead : (extentInterval e).Has b
    · rw [if_pos hhead, error_bind, if_pos ⟨e, List.mem_cons_self, hhead⟩]
    · rw [if_neg hhead, ok_bind]
      by_cases hin : ∃ x ∈ es, (extentInterval x).Has b
      · rw [if_pos hin, error_bind, if_pos]
        obtain ⟨x, hx, hxb⟩ := hin
        exact ⟨x, List.mem_cons_of_mem _ hx, hxb⟩
      · rw [if_neg hin, ok_bind, if_neg]
        rintro ⟨x, hx, hxb⟩
        rcases List.mem_cons.mp hx with rfl | hx
        · exact hhead hxb
        · exact hin ⟨x, hx, hxb⟩

theorem checkFile_tampered (ht : Tampered rd rd' blocks b) {inode : Inode} {n : Nat}
    {used : List Interval} {node : ExtentNode} (hroot : iExtentRoot inode ≠ b)
    (hnode : rd (iExtentRoot inode) = .ok node)
    (hclear : ∀ e ∈ enExtents node, ExtentClear rd blocks b e)
    (h : checkFile rd blocks inode = .ok (n, used)) :
    checkFile rd' blocks inode
      = tampered (∃ e ∈ enExtents node, (extentInterval e).Has b) (n, used) := by
  obtain ⟨hge, hlt, node', rest, hread, hnext, hwalk, hblocks, hsize, hused⟩ := checkFile_iff.mp h
  obtain ⟨hread', hsum, hcount⟩ := readExtentNode_iff.mp hread
  rw [hnode] at hread'
  obtain rfl := Except.ok.inj hread'
  have hnode' : readExtentNode rd' (iExtentRoot inode) = .ok node :=
    readExtentNode_iff.mpr ⟨(ht.agree _ hlt hroot).trans hnode, hsum, hcount⟩
  rw [checkFile, failIf_of_not (by simp only [dataStartBlock]; omega), ok_bind, hnode', ok_bind,
    failIf_of_not (not_not.mpr hnext), ok_bind, walkExtents_tampered ht hclear hwalk, tampered,
    tampered]
  by_cases hin : ∃ e ∈ enExtents node, (extentInterval e).Has b
  · rw [if_pos hin, if_pos hin, error_bind]
  · rw [if_neg hin, if_neg hin, ok_bind]
    simp only
    rw [failIf_of_not (not_not.mpr hblocks), ok_bind, failIf_of_not hsize, ok_bind, hused]

/-- A loop over parts of the walk, one of which covers the block. -/
theorem foldlM_tampered {α : Type} {g : α → Except Fail Tally} {P : α → Prop}
    [DecidablePred P] {l : List α} {acc : Tally} (hone : ∀ a ∈ l, ∃ t, g a = tampered (P a) t)
    (hex : ∃ a ∈ l, P a) :
    l.foldlM (fun acc a => (g a).map acc.add) acc = .error (.check .EILSEQ) := by
  refine foldlM_accumulate_error (fun a ha => ?_) ?_
  · obtain ⟨t, ht⟩ := hone a ha
    rw [ht, tampered]
    split
    · exact Or.inr rfl
    · exact Or.inl ⟨t, rfl⟩
  · obtain ⟨a, ha, hP⟩ := hex
    obtain ⟨t, ht⟩ := hone a ha
    exact ⟨a, ha, by rw [ht, tampered, if_pos hP]⟩

end Tampered

/-! ## 3. The whole image -/

section Image

variable {δ : Type} [BlockDev δ] {img : Image δ} {refs : List Nat} {b : Nat}

/-- The block is data of a file. -/
def DataBlock (img : Image δ) (b : Nat) : Prop :=
  ∃ index, RegularAt img index ∧ ∃ e ∈ fileExtents img index, (extentInterval e).Has b

/-- The block is no extent root and in no chain, and no extent of a file wraps. -/
structure OnlyData (img : Image δ) (b : Nat) : Prop where
  roots : ∀ index, RegularAt img index → iExtentRoot (img.inodeTable index) ≠ b
  extents : ∀ index, RegularAt img index → ∀ e ∈ fileExtents img index,
    ExtentClear (imageReadBlock img) img.blocks b e

/-- **Data is only data**: this is where the partition of the data region comes in. -/
theorem Scrubbed.onlyData {ts : List Tally} {free : List Interval} (h : Scrubbed img refs ts free)
    (hroot : crRootDirBlock img.checkpointRoot = 3) (h8 : 8 ≤ img.blocks)
    (hb : img.blocks < 2 ^ 64) (hdata : DataBlock img b) : OnlyData img b ∧ 8 ≤ b ∧ b < img.blocks := by
  obtain ⟨tiles, ht, hp⟩ := h.tiles hroot h8 hb
  rw [← h.slots_intervals hb] at hp
  have hfile : ∀ {index y}, RegularAt img index → y ∈ fileSlots img index → y ∈ slots img :=
    fun {index y} hr hy => List.mem_append_right _
      (List.mem_flatMap.mpr ⟨index, List.mem_range.mpr hr.1, hy⟩)
  have hext : ∀ {index e}, RegularAt img index → e ∈ fileExtents img index → ∃ n,
      ∀ y ∈ extentSlots img index (e, n), y ∈ slots img := fun {index e} hr he => by
    obtain ⟨n, hn⟩ := List.getElem?_of_mem he
    refine ⟨n, fun y hy => hfile hr ?_⟩
    rw [fileSlots, if_pos hr]
    exact List.mem_cons_of_mem _ (List.mem_flatMap.mpr
      ⟨(e, n), List.mk_mem_zipIdx_iff_getElem?.mpr hn, hy⟩)
  obtain ⟨index, hr, x, hx, hxb⟩ := hdata
  obtain ⟨n, hn⟩ := hext hr hx
  have hself := hn (.extent index n, extentInterval x) List.mem_cons_self
  have hin : ∀ y ∈ slots img, 8 ≤ y.2.start ∧ y.2.start + y.2.len ≤ img.blocks := fun y hy =>
    have hw := ht.within y.2 (hp.mem_iff.mp (List.mem_map_of_mem hy))
    ⟨hw.1, hw.2.1⟩
  refine ⟨⟨fun j hj heq => ?_, fun j hj e he => ⟨?_, fun hmem => ?_⟩⟩, ?_, ?_⟩
  · have hslot : (Slot.extentRoot j, Interval.mk (iExtentRoot (img.inodeTable j)) 1)
        ∈ slots img := hfile hj (by rw [fileSlots, if_pos hj]; exact List.mem_cons_self)
    have := slots_unique ht hp hself hslot hxb ⟨Nat.le_of_eq heq, by simp only; omega⟩
    simp at this
  · obtain ⟨k, hk⟩ := hext hj he
    exact (hin (.extent j k, extentInterval e) (hk _ List.mem_cons_self)).2
  · obtain ⟨k, hk⟩ := hext hj he
    obtain ⟨i, hi⟩ := List.getElem?_of_mem hmem
    have hslot := hk (.link j k i, ⟨b, 1⟩) (List.mem_cons_of_mem _ (List.mem_map.mpr
      ⟨(b, i), List.mk_mem_zipIdx_iff_getElem?.mpr hi, rfl⟩))
    have := slots_unique ht hp hself hslot hxb ⟨Nat.le_refl _, Nat.lt_succ_self _⟩
    simp at this
  · exact Nat.le_trans (hin _ hself).1 hxb.1
  · exact Nat.lt_of_lt_of_le hxb.2 (hin _ hself).2

theorem checkInode_tampered {rd' : Nat → Except Fail Block}
    (ht : Tampered (imageReadBlock img) rd' img.blocks b) (honly : OnlyData img b) {index : Nat}
    (hindex : index < maxInodes) {t : Tally}
    (h : checkInode (imageReadBlock img) img refs index = .ok t) :
    checkInode rd' img refs index = tampered
      (RegularAt img index ∧ ∃ e ∈ fileExtents img index, (extentInterval e).Has b) t := by
  rcases checkInode_iff.mp h with hfree | ⟨hbit, hsum, hdir | ⟨hreg, href, n, used, hfile, rfl⟩⟩
  · have hout : ¬ RegularAt img index := fun hr => by simp [hr.2.1] at hfree
    rw [tampered, if_neg fun hr => hout hr.1]
    exact checkInode_iff.mpr (Or.inl hfree)
  · rw [tampered, if_neg fun hr => hr.1.2.2.not_dir hdir.1]
    exact checkInode_iff.mpr (Or.inr ⟨hbit, hsum, Or.inl hdir⟩)
  · have hr : RegularAt img index := ⟨hindex, hbit, hreg⟩
    obtain ⟨-, -, node, -, hread, -⟩ := checkFile_iff.mp hfile
    have hnode := (readExtentNode_iff.mp hread).1
    have hext : fileExtents img index = enExtents node := by
      rw [fileExtents, hnode]
    have hbad := checkFile_tampered ht (honly.roots index hr) hnode
      (fun e he => honly.extents index hr e (hext ▸ he)) hfile
    have hmode : iMode (img.inodeTable index) ≠ 0 := fun h0 => by
      rw [h0] at hreg
      exact absurd hreg (by decide)
    rw [checkInode]
    simp only
    rw [if_neg (by simp [hbit]), failIf_of_not hmode, ok_bind, failIf_of_not (not_not.mpr hsum),
      ok_bind, if_neg hreg.not_dir, failIf_of_not (not_or.mpr ⟨not_not.mpr hreg, not_not.mpr href⟩),
      ok_bind, hbad, tampered, tampered, hext]
    by_cases hin : ∃ e ∈ enExtents node, (extentInterval e).Has b
    · rw [if_pos hin, if_pos ⟨hr, hin⟩, error_bind]
    · rw [if_neg hin, if_neg fun h => hin h.2, ok_bind]

/-- **The inode loop over the tampered reader ends in `EILSEQ`.** -/
theorem walkInodes_tampered {ts : List Tally} {free : List Interval}
    {rd' : Nat → Except Fail Block} (h : Scrubbed img refs ts free)
    (ht : Tampered (imageReadBlock img) rd' img.blocks b) (honly : OnlyData img b)
    (hdata : DataBlock img b) : walkInodes rd' img refs = .error (.check .EILSEQ) := by
  rw [walkInodes]
  refine @foldlM_tampered _ _ (fun index => RegularAt img index ∧
    ∃ e ∈ fileExtents img index, (extentInterval e).Has b) _ _ _ (fun i hi => ?_) ?_
  · obtain ⟨t, hit⟩ := forall₂_left h.inodes hi
    exact ⟨t, checkInode_tampered ht honly (List.mem_range.mp hi) hit⟩
  · obtain ⟨index, hr, hext⟩ := hdata
    exact ⟨index, List.mem_range.mpr hr.1, hr, hext⟩

theorem Scrubbed.data_read {ts : List Tally} {free : List Interval} (h : Scrubbed img refs ts free)
    (hb : img.blocks < 2 ^ 64) (honly : OnlyData img b) (hdata : DataBlock img b) :
    ∃ block, imageReadBlock img b = .ok block := by
  obtain ⟨index, hr, e, he, hge, hlt⟩ := hdata
  obtain ⟨used, hwalk⟩ := h.extents hr
  obtain ⟨cursor, first, hfirst⟩ := walkExtents_mem hwalk he
  obtain ⟨-, chain, hchain, -⟩ := checkExtent_iff.mp hfirst
  have hend := (honly.extents index hr e he).1
  obtain ⟨block, hread⟩ := csumWalk_reads _ rfl hchain (b - ePstart e) (Nat.zero_le _)
    (by simp only [extentInterval] at hge hlt; omega)
  refine ⟨block, ?_⟩
  rw [← hread]
  congr 1
  simp only [extentInterval] at hge hlt
  simp only [addU64]
  omega

/-- The scrub over tampered devices. -/
theorem imageValidate_tampered {ts : List Tally} {free : List Interval} {devs : Nat → δ}
    (h : Scrubbed img refs ts free)
    (ht : Tampered (imageReadBlock img) (imageReadBlock (img.withDevs devs)) img.blocks b)
    (honly : OnlyData img b) (hdata : DataBlock img b) :
    imageValidate (img.withDevs devs) = .error (.check .EILSEQ) := by
  have hdir : imageValidateRootDir (img.withDevs devs) = .ok refs :=
    imageValidateRootDir_iff.mpr h.dir
  have hwalk : walkInodes (imageReadBlock (img.withDevs devs)) (img.withDevs devs) refs
      = .error (.check .EILSEQ) :=
    -- the inode loop asks the image for its metadata only
    (walkInodes_tampered h ht honly hdata : walkInodes _ img refs = _)
  have hclean : ¬ ilOutstanding (img.withDevs devs).journal ≠ 0 := not_not.mpr h.clean
  have hbit : ¬ imageBitmapTest (img.withDevs devs).inodeBitmap 0 = false := by
    rw [show (img.withDevs devs).inodeBitmap = img.inodeBitmap from rfl, h.rootBit]
    simp
  rw [imageValidate, failIf_of_not hclean, ok_bind, failIf_of_not hbit, ok_bind,
    hdir, ok_bind, hwalk, error_bind]

end Image

/-! ## 4. The modified file -/

/-- The file with block `b` replaced. -/
def tamperedFile (f : ByteFile) (b : Nat) (new : Block) : ByteFile :=
  f.store (b * 4096) new f.size f.size_lt

theorem tamperedFile_open {f : ByteFile} {b : Nat} {new : Block} (h8 : 8 ≤ b) {writable : Bool}
    {beyond : Nat → UInt8} {img : Image ByteFile} (h : imageOpen f writable beyond = .ok img) :
    imageOpen (tamperedFile f b new) writable beyond
      = .ok (img.withDevs fun _ => tamperedFile f b new) := by
  have hlabel : labelOf (tamperedFile f b new) = labelOf f := by
    rw [labelOf, labelOf, tamperedFile, ByteFile.blockAt_store_ne _ _ (Nat.le_refl _) (by omega)]
  obtain ⟨hkind, hsize, hvalid, rfl⟩ := imageOpen_iff.mp h
  refine imageOpen_iff.mpr ⟨hkind, hsize, hlabel ▸ hvalid, ?_⟩
  simp only [openedFile, hlabel]
  rfl

section Reader

variable {f : ByteFile} {img : Image ByteFile} {b : Nat} {new : Block}

theorem tamperedFile_read_ne (hc : img.memberCount = 1) (hdev : (img.members 0).dev = f)
    {k : Nat} (hk : k < 2 ^ 51) (hne : k ≠ b) :
    imageReadBlock (img.withDevs fun _ => tamperedFile f b new) k = imageReadBlock img k := by
  refine single_read_withDevs hc (by omega) ?_
  rw [hdev, ByteFile.read_def, ByteFile.read_def, ByteFile.offsetOf_of_lt (by omega),
    ByteFile.readAll, ByteFile.readAll, tamperedFile,
    ByteFile.blockAt_store_ne _ _ (Nat.le_refl _) (by omega)]
  rfl

theorem tamperedFile_reader (hc : img.memberCount = 1) (hdev : (img.members 0).dev = f)
    (hsize : img.blocks * 4096 < 2 ^ 63) (hlt : b < img.blocks) {old : Block}
    (hold : imageReadBlock img b = .ok old) (hburst : BurstOf new (f.blockAt (b * 4096))) :
    Tampered (imageReadBlock img) (imageReadBlock (img.withDevs fun _ => tamperedFile f b new))
      img.blocks b := by
  have hoff : ByteFile.offsetOf b = b * 4096 := ByteFile.offsetOf_of_lt (by omega)
  obtain ⟨hserved, hread⟩ := (single_read_eq_ok hc (by omega)).mp hold
  rw [hdev, ByteFile.read_def, hoff] at hread
  obtain ⟨hfits, rfl⟩ := ByteFile.readAll_eq_ok.mp hread
  refine ⟨by omega, fun k hk hne => tamperedFile_read_ne hc hdev (by omega) hne, _, new,
    hold, ?_, hburst.crc_ne⟩
  have hc' : (img.withDevs fun _ => tamperedFile f b new).memberCount = 1 := hc
  refine (single_read_eq_ok hc' (by omega)).mpr ⟨served_withDevs.mpr hserved, ?_⟩
  change (tamperedFile f b new).readAll _ = _
  rw [hoff]
  exact ByteFile.readAll_eq_ok.mpr ⟨hfits, (ByteFile.blockAt_store_self _ _ hfits).symm⟩

end Reader

/-- **Silent corruption of a data block is found**: the modified file opens and loads as before,
and its scrub ends in `EILSEQ`. -/
theorem tampered_data_detected {f : ByteFile} {writable : Bool} {beyond : Nat → UInt8}
    {img0 img : Image ByteFile} {rep : ScrubReport} {b : Nat} {new : Block}
    (hopen : imageOpen f writable beyond = .ok img0) (hload : imageLoad img0 = .ok img)
    (hval : imageValidate img = .ok rep) (hroot : sRootInode img.super = 2)
    (hjournal : sJournalAddr img.super = 4) (hsize : img.blocks * 4096 < 2 ^ 63)
    (hdata : DataBlock img b) (hburst : BurstOf new (f.blockAt (b * 4096))) :
    ∃ img0' img', imageOpen (tamperedFile f b new) writable beyond = .ok img0' ∧
      imageLoad img0' = .ok img' ∧ imageValidate img' = .error (.check .EILSEQ) := by
  have hl := imageLoad_iff.mp hload
  obtain ⟨-, -, -, -, -, hdir, h8, -⟩ := boot_places hl.superOk hl.rootOk
  have h8' : 8 ≤ img.blocks := by
    rw [hl.frame]
    exact h8
  obtain ⟨refs, ts, free, hs, -⟩ := imageValidate_iff.mp hval
  obtain ⟨honly, hb8, hlt⟩ := hs.onlyData hdir h8' (by omega) hdata
  obtain ⟨old, hold⟩ := hs.data_read (by omega) honly hdata
  obtain ⟨hc, hmembers, -, -⟩ := loaded_file hopen hload
  have ht := tamperedFile_reader hc (by rw [hmembers]; rfl) hsize hlt hold hburst
  obtain ⟨-, -, -, himg0⟩ := imageOpen_iff.mp hopen
  have hc0 : img0.memberCount = 1 := by rw [himg0]; rfl
  have hdev0 : (img0.members 0).dev = f := by rw [himg0]; rfl
  exact ⟨_, _, tamperedFile_open hb8 hopen, imageLoad_withDevs hload hroot hjournal fun k _ hk =>
    tamperedFile_read_ne hc0 hdev0 (by omega) (by omega),
    imageValidate_tampered hs ht honly hdata⟩

theorem oneFile_data {n m i : Nat} {data : Nat → Block} {hn : n < 2 ^ 51} (writable : Bool)
    (beyond : Nat → UInt8) (hlt : 8 + span m < n) (hi : i < m) :
    DataBlock (oneFileImage n m data hn writable beyond) (9 + i) := by
  have hspan : span m = 1 + m + csumBlocks m := rfl
  obtain ⟨i1, -, -, i4⟩ := @fileInode_fields m 8 (by omega) (by norm_num)
  have hinode : (oneFileImage n m data hn writable beyond).inodeTable 1 = fileInode m 8 :=
    volumeImage_inode_one ..
  obtain ⟨-, hcount, -, hstart, -, hlen⟩ := @newExtents_fields 9 (9 + m) m (by norm_num)
    (by omega) (by omega)
  refine ⟨1, ⟨by decide, ?_, ?_⟩, enExtent (newExtents 9 (9 + m) m) 0, ?_, ?_⟩
  · rw [oneFileImage, volumeImage_bitmap, (byteBitmap_firstByte (by norm_num)).test]
    rfl
  · rw [hinode, i1]
    decide
  · rw [fileExtents, hinode, i4, (oneFile_compact writable beyond hn hlt).node]
    simp only
    rw [enExtents_one hcount]
    exact List.mem_singleton.mpr rfl
  · rw [extentInterval, hstart, hlen]
    exact ⟨Nat.le_add_right _ _, by simp only; omega⟩

theorem oneFile_tamper_detected : ∃ img0 img,
    imageOpen (tamperedFile (oneFile 16 1 (fun _ => zeros 4096) (by norm_num)) 9
      (putLE (zeros 4096) 0 4 1)) false (fun _ => 0) = .ok img0 ∧ imageLoad img0 = .ok img ∧
      imageValidate img = .error (.check .EILSEQ) := by
  obtain ⟨hopen, hload, ⟨hroot, hjournal⟩, rep, hval⟩ := oneFile_validates (n := 16) (m := 1) false
    (fun _ => 0) (fun _ => zeros 4096) (by norm_num) (by norm_num) (by decide)
  refine tampered_data_detected hopen hload hval hroot hjournal ?_
    (@oneFile_data 16 1 0 _ _ false _ (by decide) (by norm_num)) ?_
  · rw [oneFileImage_blocks]
    norm_num
  · rw [oneFile, ByteFile.blockAt_ofBlocks _ _ (by norm_num), oneFileBlocks, if_neg (by norm_num),
      if_neg (by norm_num), if_pos (by norm_num)]
    refine ⟨fun h => ?_, 0, fun i hi => ?_⟩
    · have := congrArg (fun b => getLE (byteAt b) 0 4) h
      rw [getLE_putLE_self _ _ _ _ (by norm_num), getLE_zeros] at this
      exact absurd this (by norm_num)
    · exact byteAt_putLE_of_out _ _ hi

end AetherFs
