/-
# What compaction can rely on

A file, seen from outside, is the list of its data blocks in logical order: `fileData`.  This
module reads off a clean scrub what the compactor takes for granted about it.

* Every data block of a file can be read, and there are `i_blocks` of them (`Clean.data`).
* Every block that a file occupies can be read, so the label serves it (`Clean.used_served`); and
  laid out in one piece, a file never takes MORE blocks than it takes now (`span_le_slots`), since
  a checksum block has at most 1020 sums and every extent has a chain of its own.  Therefore all
  files laid out one behind the other end inside the image, and inside what the label serves
  (`Clean.fits`).
-/
import AetherFs.Image.Files
import AetherFs.Rebalance.Compact

namespace AetherFs

open Lib

/-! ## 1. Files as lists of blocks -/

section Files

variable {δ : Type} [BlockDev δ]

/-- The addresses of the data blocks of a list of extents. -/
def fileAddrs (es : List Extent) : List Nat :=
  es.flatMap fun e => (List.range (eLen e)).map fun k => ePstart e + k

/-- The data blocks of a file, in logical order. -/
def fileData (img : Image δ) (index : Nat) : Except Fail (List Block) :=
  (fileAddrs (fileExtents img index)).mapM (imageReadBlock img)

/-- The files the compactor moves. -/
def files (img : Image δ) (index : Nat) : Option (List Block) :=
  if 1 ≤ index ∧ RegularAt img index then (fileData img index).toOption else none

theorem files_eq_some {img : Image δ} {index : Nat} {data : List Block} :
    files img index = some data ↔
      1 ≤ index ∧ RegularAt img index ∧ fileData img index = .ok data := by
  rw [files]
  split
  · rename_i h
    cases hdata : fileData img index with
    | error e => simp [Except.toOption]
    | ok d => simp [Except.toOption, h.1, h.2]
  · rename_i h
    refine iff_of_false (by simp) fun h' => h ⟨h'.1, h'.2.1⟩

theorem fileAddrs_length (es : List Extent) : (fileAddrs es).length = (es.map eLen).sum := by
  rw [fileAddrs, List.length_flatMap]
  simp only [List.length_map, List.length_range]

theorem mem_fileAddrs {es : List Extent} {a : Nat} :
    a ∈ fileAddrs es ↔ ∃ e ∈ es, ∃ k, k < eLen e ∧ ePstart e + k = a := by
  simp only [fileAddrs, List.mem_flatMap, List.mem_map, List.mem_range]

end Files

/-! ## 2. What the walks have seen -/

section Walks

variable {rd : Nat → Except Fail Block} {blocks pstart len : Nat}

theorem csumWalk_chain_reads (rest : Nat) : ∀ {validated c : Nat} {chain : List Nat},
    len - validated = rest → csumWalk rd blocks pstart len validated c = .ok chain →
      ∀ x ∈ chain, ∃ block, rd x = .ok block := by
  induction rest using Nat.strong_induction_on with
  | _ rest ih =>
    intro validated c chain hrest h x hx
    by_cases hv : validated < len
    · obtain ⟨sums, hlink, htail⟩ := (csumWalk_iff hv).mp h
      have hpos := hlink.entries_pos
      rcases htail with ⟨hlt, -, -, rest', hwalk, rfl⟩ | ⟨-, -, rfl⟩
      · rcases List.mem_cons.mp hx with rfl | hx
        · exact ⟨sums, hlink.read⟩
        · exact ih (rest - cbEntries sums) (by omega) (by omega) hwalk x hx
      · rw [List.mem_singleton.mp hx]
        exact ⟨sums, hlink.read⟩
    · rw [csumWalk, if_neg hv] at h
      obtain rfl := Except.ok.inj h
      exact absurd hx List.not_mem_nil

/-- What is known of an extent that has been walked. -/
structure WalkedExtent (rd : Nat → Except Fail Block) (e : Extent) : Prop where
  data : ∀ k, k < eLen e → ∃ block, rd (addU64 (ePstart e) k) = .ok block
  chain : ∀ c ∈ chainOf rd (eLen e) (eCsumStart e), ∃ block, rd c = .ok block
  sums : eLen e ≤ 1020 * (chainOf rd (eLen e) (eCsumStart e)).length

theorem checkExtent_walked {cursor : Nat} {e : Extent} {used : List Interval}
    (h : checkExtent rd blocks cursor e = .ok used) : WalkedExtent rd e := by
  obtain ⟨hok, chain, hchain, -⟩ := checkExtent_iff.mp h
  obtain ⟨rfl, -⟩ := csumWalk_chain (eLen e) (Nat.sub_zero _) hok.csum_ge hok.csum_lt hchain
  exact ⟨fun k hk => csumWalk_reads (eLen e) (Nat.sub_zero _) hchain k (Nat.zero_le k) hk,
    csumWalk_chain_reads (eLen e) (Nat.sub_zero _) hchain,
    csumWalk_length (eLen e) (Nat.sub_zero _) hchain⟩

end Walks

/-! ## 3. Clean images -/

/-- An image of one file that has been opened, loaded and scrubbed clean. -/
structure Clean (img : Image ByteFile) : Prop where
  single : img.memberCount = 1
  scrub : ∃ refs ts free, Scrubbed img refs ts free
  tile : ∃ tiles, Tiles 8 img.blocks tiles ∧ ((slots img).map Prod.snd).Perm tiles
  ge : 8 ≤ img.blocks
  lt : img.blocks < 2 ^ 64
  few : ∀ i, 8 ≤ i → img.inodeTable i = zeros 512

theorem clean_of_validate {f : ByteFile} {writable : Bool} {beyond : Nat → UInt8}
    {img0 img : Image ByteFile} {rep : ScrubReport}
    (hopen : imageOpen f writable beyond = .ok img0) (hload : imageLoad img0 = .ok img)
    (hval : imageValidate img = .ok rep) : Clean img := by
  obtain ⟨refs, ts, free, hscrub, -⟩ := imageValidate_iff.mp hval
  obtain ⟨hlt, htile⟩ := slots_tile hload hscrub
  have hl := imageLoad_iff.mp hload
  obtain ⟨-, -, -, -, -, -, h8, -⟩ := boot_places hl.superOk hl.rootOk
  refine ⟨(loaded_file hopen hload).1, ⟨refs, ts, free, hscrub⟩, htile, ?_, hlt, fun i hi => ?_⟩
  · rw [hl.kept.2.2.2]
    exact h8
  · obtain ⟨b, -, htable⟩ := hl.readTable
    obtain ⟨-, -, -, rfl⟩ := imageOpen_iff.mp hopen
    rw [htable, tableOf, if_neg (Nat.not_lt.mpr hi)]
    rfl

namespace Clean

variable {img : Image ByteFile} {index : Nat}

/-- A table has one block's worth of files. -/
theorem regular_lt (h : Clean img) (hr : RegularAt img index) : index < 8 := by
  by_contra hge
  have hmode := hr.2.2
  rw [h.few index (Nat.not_lt.mp hge), iMode, le16, getLE_zeros] at hmode
  exact absurd hmode (by decide)

theorem walked (h : Clean img) (hr : RegularAt img index) {e : Extent}
    (he : e ∈ fileExtents img index) : WalkedExtent (imageReadBlock img) e := by
  obtain ⟨refs, ts, free, hscrub⟩ := h.scrub
  obtain ⟨used, hwalk⟩ := hscrub.extents hr
  obtain ⟨start, first, hfirst⟩ := walkExtents_mem hwalk he
  exact checkExtent_walked hfirst

theorem owned_within (h : Clean img) {o : Owner} {b : Nat} (ho : Owns img o b) :
    8 ≤ b ∧ b < img.blocks := by
  obtain ⟨tiles, ht, hp⟩ := h.tile
  exact ho.within ht hp

theorem addr_within (h : Clean img) (hr : RegularAt img index) {e : Extent}
    (he : e ∈ fileExtents img index) {k : Nat} (hk : k < eLen e) :
    8 ≤ ePstart e + k ∧ ePstart e + k < img.blocks := by
  obtain ⟨n, hn⟩ := List.mem_iff_getElem?.mp he
  exact @owned_within _ h (.data index n k) _ ⟨hr, e, hn, hk, rfl⟩

theorem addr_reads (h : Clean img) (hr : RegularAt img index) {a : Nat}
    (ha : a ∈ fileAddrs (fileExtents img index)) : ∃ block, imageReadBlock img a = .ok block := by
  obtain ⟨e, he, k, hk, rfl⟩ := mem_fileAddrs.mp ha
  obtain ⟨block, hblock⟩ := (h.walked hr he).data k hk
  have hlt := (h.addr_within hr he hk).2
  refine ⟨block, ?_⟩
  rwa [addU64, Nat.mod_eq_of_lt (Nat.lt_trans hlt h.lt)] at hblock

/-! ## 4. How much room the files take -/

/-- The intervals the files of some inodes occupy. -/
def usedBy (img : Image ByteFile) (is : List Nat) : List Interval :=
  (is.flatMap (fileSlots img)).map Prod.snd

theorem apart (h : Clean img) {is : List Nat} (his : is.Sublist (List.range maxInodes)) :
    (usedBy img is).Pairwise Interval.Apart := by
  obtain ⟨tiles, ht, hp⟩ := h.tile
  have hall : ((slots img).map Prod.snd).Pairwise Interval.Apart :=
    (hp.pairwise_iff fun hab => hab.symm).mpr ht.apart
  refine hall.sublist (List.Sublist.map _ ?_)
  exact (his.flatMap _).trans (List.sublist_append_right _ _)

/-- **Every block of a file can be read.** -/
theorem used_reads (h : Clean img) {iv : Interval} (hr : RegularAt img index)
    (hiv : iv ∈ (fileSlots img index).map Prod.snd) {b : Nat} (hb : iv.Has b) :
    ∃ block, imageReadBlock img b = .ok block := by
  rw [fileSlots_intervals hr] at hiv
  rcases List.mem_cons.mp hiv with rfl | hiv
  · obtain ⟨refs, ts, free, hscrub⟩ := h.scrub
    obtain ⟨used, hfile⟩ := hscrub.file hr
    obtain ⟨-, -, node, rest, hnode, -⟩ := checkFile_iff.mp hfile
    obtain rfl : b = iExtentRoot (img.inodeTable index) := by
      simp only [Interval.Has] at hb
      omega
    exact ⟨node, (readExtentNode_iff.mp hnode).1⟩
  · obtain ⟨e, he, hiv⟩ := List.mem_flatMap.mp hiv
    rcases List.mem_cons.mp hiv with rfl | hiv
    · refine h.addr_reads hr (mem_fileAddrs.mpr ⟨e, he, b - ePstart e, ?_, ?_⟩)
      · simp only [Interval.Has, extentInterval] at hb
        omega
      · exact Nat.add_sub_cancel' hb.1
    · obtain ⟨c, hc, rfl⟩ := List.mem_map.mp hiv
      obtain rfl : b = c := by
        simp only [Interval.Has] at hb
        omega
      exact (h.walked hr he).chain b hc

/-- The blocks of the data region that the label serves. -/
def room (img : Image ByteFile) : Nat := min img.blocks (singleBound img)

theorem used_served (h : Clean img) {is : List Nat} (his : is.Sublist (List.range maxInodes))
    {iv : Interval} (hiv : iv ∈ usedBy img is) {b : Nat} (hb : iv.Has b) :
    8 ≤ b ∧ b < room img := by
  obtain ⟨x, hx, rfl⟩ := List.mem_map.mp hiv
  obtain ⟨i, hi, hx⟩ := List.mem_flatMap.mp hx
  have hslot : x ∈ slots img :=
    List.mem_append_right _ (List.mem_flatMap.mpr ⟨i, his.subset hi, hx⟩)
  obtain ⟨h8, hlt⟩ := h.owned_within (owns_of_slot hslot hb)
  have hr : RegularAt img i := by
    by_contra hr
    rw [fileSlots, if_neg hr] at hx
    exact absurd hx List.not_mem_nil
  obtain ⟨block, hread⟩ := h.used_reads hr (List.mem_map_of_mem hx) hb
  obtain ⟨hserved, -⟩ := (single_read_eq_ok h.single (Nat.lt_trans hlt h.lt)).mp hread
  refine ⟨h8, Nat.lt_min.mpr ⟨hlt, hserved.resolve_left (Nat.not_lt.mpr h8)⟩⟩

/-- **There is room for what is there.** -/
theorem totalLen_usedBy_le (h : Clean img) {is : List Nat}
    (his : is.Sublist (List.range maxInodes)) : totalLen (usedBy img is) ≤ room img - 8 :=
  totalLen_le_of_apart (h.apart his) fun _ hiv _ hb => h.used_served his hiv hb

/-- A file has as many data blocks as its extents say. -/
theorem data (h : Clean img) (hr : RegularAt img index) : ∃ data, fileData img index = .ok data ∧
    data.length = iBlocks (img.inodeTable index) ∧
    data.length = ((fileExtents img index).map eLen).sum := by
  obtain ⟨data, hdata, hlen⟩ := mapM_total fun a => h.addr_reads hr
  rw [fileAddrs_length] at hlen
  refine ⟨data, hdata, ?_, hlen⟩
  obtain ⟨refs, ts, free, hscrub⟩ := h.scrub
  have hfit : ((fileExtents img index).map eLen).sum < 2 ^ 64 := by
    have his : [index].Sublist (List.range maxInodes) :=
      List.singleton_sublist.mpr (List.mem_range.mpr hr.1)
    have hle := h.totalLen_usedBy_le his
    have hone : usedBy img [index] = (fileSlots img index).map Prod.snd := by
      rw [usedBy, List.flatMap_singleton]
    rw [hone, totalLen_fileSlots hr] at hle
    have hroom : room img ≤ img.blocks := Nat.min_le_left _ _
    have hlt := h.lt
    omega
  rw [hlen, hscrub.file_blocks hr hfit]

/-- **Laid out in one piece, a file takes no more blocks than it takes now.** -/
theorem span_le_slots (h : Clean img) (hr : RegularAt img index) {data : List Block}
    (hdata : fileData img index = .ok data) :
    span data.length ≤ totalLen ((fileSlots img index).map Prod.snd) := by
  obtain ⟨data', hdata', -, hlen⟩ := h.data hr
  obtain rfl := Except.ok.inj (hdata'.symm.trans hdata)
  have hchain : ((fileExtents img index).map eLen).sum
      ≤ 1020 * (chainBlocks img index).length := by
    rw [chainBlocks, List.length_flatMap, ← List.sum_map_mul_left]
    exact List.sum_le_sum fun e he => (h.walked hr he).sums
  rw [totalLen_fileSlots hr, hlen, span, csumBlocks]
  omega

/-! ## 5. All files, one behind the other -/

theorem named_sublist {k : Nat} (hk : k < maxInodes) :
    (List.range' 1 k).Sublist (List.range maxInodes) := by
  rw [List.range_eq_range', show maxInodes = 1 + (maxInodes - 1) by norm_num,
    ← List.range'_append_1, Nat.zero_add]
  refine List.Sublist.trans ?_ (List.sublist_append_right _ _)
  exact List.range'_sublist_right.mpr (Nat.le_sub_one_of_lt hk)

theorem usedBy_succ (k : Nat) : usedBy img (List.range' 1 (k + 1))
    = usedBy img (List.range' 1 k) ++ (fileSlots img (k + 1)).map Prod.snd := by
  rw [usedBy, List.range'_1_concat, List.flatMap_append, List.map_append,
    List.flatMap_singleton, Nat.add_comm 1 k]
  rfl

theorem placed_le (h : Clean img) (p : Placed) (k : Nat) :
    (placed (files img) p k).next ≤ p.next + totalLen (usedBy img (List.range' 1 k)) := by
  induction k with
  | zero => exact Nat.le_add_right _ _
  | succ k ih =>
    rw [usedBy_succ, totalLen_append, placed, place]
    cases hfile : files img (k + 1) with
    | none =>
      simp only
      omega
    | some data =>
      obtain ⟨-, hr, hdata⟩ := files_eq_some.mp hfile
      have hspan := h.span_le_slots hr hdata
      simp only
      split
      · simp only
        omega
      · simp only
        omega

/-- **Compaction stays inside the image and inside what the label serves.** -/
theorem fits (h : Clean img) {p : Placed} (hp : p.next = 8) {k : Nat} (hk : k < maxInodes) :
    (placed (files img) p k).next ≤ img.blocks ∧
      ∀ b, b < (placed (files img) p k).next → Served img b := by
  have hnext := h.placed_le p k
  have hroom := h.totalLen_usedBy_le (named_sublist hk)
  have hge := h.ge
  have hmin : room img ≤ img.blocks ∧ room img ≤ singleBound img :=
    ⟨Nat.min_le_left _ _, Nat.min_le_right _ _⟩
  rw [hp] at hnext
  refine ⟨by omega, fun b hb => ?_⟩
  by_cases h8 : b < 8
  · exact Or.inl h8
  · exact Or.inr (by omega)

theorem usedBy_range (K : Nat) : usedBy img (List.range (K + 1))
    = (fileSlots img 0).map Prod.snd ++ usedBy img (List.range' 1 K) := by
  rw [usedBy, usedBy, List.range_eq_range', List.range'_succ, List.flatMap_cons, List.map_append]

/-- **Where the files with a name fill all that is not free, inode 0 is no file**: there is no
block left for it. -/
theorem root_not_regular (h : Clean img) {next : Nat} (htail : FreeTail img next) {p : Placed}
    (hp : p.next = 8) (hnext : next = (placed (files img) p (maxInodes - 1)).next) :
    ¬ RegularAt img 0 := by
  intro hr
  obtain ⟨refs, ts, free, hscrub⟩ := h.scrub
  obtain ⟨tiles, htiles, hperm⟩ := h.tile
  have hfree : free = tailOf next img.blocks :=
    Except.ok.inj (hscrub.freeList.symm.trans htail.checkFree)
  have hused : ts.flatMap Tally.used = usedBy img (List.range (maxInodes - 1 + 1)) := by
    rw [Nat.sub_add_cancel (by norm_num)]
    exact (hscrub.used_intervals h.lt).1
  have htotal := totalLen_perm hperm
  rw [hscrub.slots_intervals h.lt, hused, usedBy_range, totalLen_append, totalLen_append, hfree,
    totalLen_tailOf htail.le, totalLen_fileSlots hr] at htotal
  have hsum := htiles.totalLen
  have hplaced := h.placed_le p (maxInodes - 1)
  rw [← hnext, hp] at hplaced
  have hge := htail.ge
  have hle := htail.le
  omega

end Clean

end AetherFs
