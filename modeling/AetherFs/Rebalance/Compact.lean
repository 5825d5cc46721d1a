/-
# Compaction as a function

What `rebalance` is for, without the loops, the calls and the failures.  A file system is a
function `files` from inode indices to contents, an inode table, and what its blocks hold.
Compaction goes through the indices in order and lays out each file behind the previous one:
extent node, data, checksum chain.  `placed files p k` is the state after indices `1, .., k`.

Three things about it are used below.  A file that has been laid out stays where it is
(`placed_file`); where it is laid out, and what is written there, depends on the contents of the
files and NOT on the inode table (`placed_congr`); and the result can be compacted again without
any change (`placed_again`).  `packedBlocks` puts the four metadata blocks in front, and
`packedBlocks_again` is that statement for the whole volume.

An empty file is given the extent root 0 and no block.  That is what the source does, and it is
the one thing scrub does not accept.
-/
import AetherFs.Rebalance.Run

namespace AetherFs

open Lib

/-! ## 1. One file -/

section File

/-- `c`, with `g` in its place on `[lo, hi)`. -/
def patch (c g : Nat → Block) (lo hi b : Nat) : Block := if lo ≤ b ∧ b < hi then g b else c b

theorem patch_empty (c g : Nat → Block) (lo : Nat) : patch c g lo lo = c :=
  funext fun _ => if_neg (by omega)

theorem patch_snoc (c g : Nat → Block) {lo hi : Nat} (h : lo ≤ hi) :
    Function.update (patch c g lo hi) hi (g hi) = patch c g lo (hi + 1) := by
  funext b
  by_cases hb : b = hi
  · rw [hb, Function.update_self, patch, if_pos (by omega)]
  · rw [Function.update_of_ne hb, patch, patch]
    exact if_congr (by omega) rfl rfl

theorem patch_cons (c g : Nat → Block) {lo hi : Nat} (h : lo < hi) :
    Function.update (patch c g (lo + 1) hi) lo (g lo) = patch c g lo hi := by
  funext b
  by_cases hb : b = lo
  · rw [hb, Function.update_self, patch, if_pos (by omega)]
  · rw [Function.update_of_ne hb, patch, patch]
    exact if_congr (by omega) rfl rfl

/-- Block `k` of a file laid out at `root`. -/
def fileBlock (root : Nat) (data : List Block) (k : Nat) : Block :=
  if k = 0 then newExtents (root + 1) (root + 1 + data.length) data.length
  else if k ≤ data.length then data.getD (k - 1) (zeros 4096)
  else chainBlock (fun i => data.getD i (zeros 4096)) data.length (root + 1 + data.length)
    (k - 1 - data.length)

/-- The blocks after a file has been laid out at `root`. -/
def putFile (c : Nat → Block) (root : Nat) (data : List Block) : Nat → Block :=
  patch c (fun b => fileBlock root data (b - root)) root (root + span data.length)

theorem compactFile_of_fileBlock {rd : Nat → Except Fail Block} {root : Nat} {data : List Block}
    (h : ∀ k, k < span data.length → rd (root + k) = .ok (fileBlock root data k)) :
    CompactFile rd root data.length fun i => data.getD i (zeros 4096) := by
  have hspan : span data.length = 1 + data.length + csumBlocks data.length := rfl
  refine ⟨?_, fun i hi => ?_, fun j hj => ?_⟩
  · exact h 0 (by omega)
  · rw [Nat.add_assoc, h (1 + i) (by omega), fileBlock, if_neg (by omega), if_pos (by omega),
      Nat.add_sub_cancel_left]
  · rw [Nat.add_assoc, Nat.add_assoc, h (1 + (data.length + j)) (by omega), fileBlock,
      if_neg (by omega), if_neg (by omega)]
    congr 2
    omega

end File

/-! ## 2. All files -/

/-- The state of a compaction: the first block that is still free, the inodes, the blocks. -/
structure Placed where
  next : Nat
  table : Nat → Inode
  content : Nat → Block

section Place

variable (files : Nat → Option (List Block)) (p : Placed)

/-- Inode `index` is dealt with. -/
def place (p : Placed) (index : Nat) : Placed :=
  match files index with
  | none => p
  | some data =>
    if data.length = 0 then
      { p with table := Function.update p.table index (setExtentRoot (p.table index) 0) }
    else
      { next := p.next + span data.length
        table := Function.update p.table index (setExtentRoot (p.table index) p.next)
        content := putFile p.content p.next data }

/-- The state after inodes `1, .., k`. -/
def placed : Nat → Placed
  | 0 => p
  | k + 1 => place files (placed k) (k + 1)

/-- Where file `index` begins. -/
def rootOf (index : Nat) : Nat := (placed files p (index - 1)).next

/-- The extent root its inode is given. -/
def newRoot (index : Nat) (data : List Block) : Nat :=
  if data.length = 0 then 0 else rootOf files p index

variable {files p}

theorem place_next_le (q : Placed) (index : Nat) : q.next ≤ (place files q index).next := by
  unfold place
  split
  · exact Nat.le_refl _
  · split
    · exact Nat.le_refl _
    · exact Nat.le_add_right _ _

theorem placed_next_mono {k k' : Nat} (h : k ≤ k') :
    (placed files p k).next ≤ (placed files p k').next := by
  induction h with
  | refl => exact Nat.le_refl _
  | step _ ih => exact ih.trans (place_next_le _ _)

theorem place_content_below (q : Placed) (index : Nat) {b : Nat} (hb : b < q.next) :
    (place files q index).content b = q.content b := by
  unfold place
  split
  · rfl
  · split
    · rfl
    · exact if_neg (by omega)

/-- **What has been laid out stays.** -/
theorem placed_content_below {k k' : Nat} (h : k ≤ k') {b : Nat}
    (hb : b < (placed files p k).next) :
    (placed files p k').content b = (placed files p k).content b := by
  induction h with
  | refl => rfl
  | step hk ih =>
    rw [← ih]
    exact place_content_below _ _ (Nat.lt_of_lt_of_le hb (placed_next_mono hk))

theorem place_table_ne (q : Placed) {index j : Nat} (h : j ≠ index) :
    (place files q index).table j = q.table j := by
  unfold place
  split
  · rfl
  · split
    · exact Function.update_of_ne h _ _
    · exact Function.update_of_ne h _ _

/-- The root directory, and what is still to come, keep their inodes. -/
theorem placed_table_other {k j : Nat} (h : j = 0 ∨ k < j) :
    (placed files p k).table j = p.table j := by
  induction k with
  | zero => rfl
  | succ k ih =>
    rw [placed, place_table_ne _ (by omega)]
    exact ih (by omega)

theorem placed_table_done {k j : Nat} (h : j ≤ k) :
    (placed files p k).table j = (placed files p j).table j := by
  induction h with
  | refl => rfl
  | step hk ih =>
    rw [placed, place_table_ne _ (Nat.ne_of_lt (Nat.lt_succ_of_le hk))]
    exact ih

/-- **The inode of a file that has been laid out.** -/
theorem placed_table {k j : Nat} (h1 : 1 ≤ j) (hk : j ≤ k) :
    (placed files p k).table j = match files j with
      | none => p.table j
      | some data => setExtentRoot (p.table j) (newRoot files p j data) := by
  obtain ⟨i, rfl⟩ : ∃ i, j = i + 1 := ⟨j - 1, by omega⟩
  have hold : (placed files p i).table (i + 1) = p.table (i + 1) :=
    placed_table_other (Or.inr (Nat.lt_succ_self i))
  rw [placed_table_done hk, placed, place]
  cases files (i + 1) with
  | none => exact hold
  | some data =>
    simp only [newRoot, rootOf, Nat.add_sub_cancel]
    split
    · rw [← hold]
      exact Function.update_self _ _ _
    · rw [← hold]
      exact Function.update_self _ _ _

/-- **The blocks of a file that has been laid out.** -/
theorem placed_file {k j : Nat} {data : List Block} (h1 : 1 ≤ j) (hk : j ≤ k)
    (hdata : files j = some data) (hpos : 0 < data.length) :
    rootOf files p j + span data.length ≤ (placed files p k).next ∧
      ∀ i, i < span data.length →
        (placed files p k).content (rootOf files p j + i) = fileBlock (rootOf files p j) data i := by
  obtain ⟨n, rfl⟩ : ∃ n, j = n + 1 := ⟨j - 1, by omega⟩
  have hstep : placed files p (n + 1) = ⟨(placed files p n).next + span data.length,
      Function.update (placed files p n).table (n + 1)
        (setExtentRoot ((placed files p n).table (n + 1)) (placed files p n).next),
      putFile (placed files p n).content (placed files p n).next data⟩ := by
    rw [placed, place, hdata]
    exact if_neg (by omega)
  have hroot : rootOf files p (n + 1) = (placed files p n).next := rfl
  have hnext : (placed files p (n + 1)).next = (placed files p n).next + span data.length := by
    rw [hstep]
  refine ⟨?_, fun i hi => ?_⟩
  · rw [hroot, ← hnext]
    exact placed_next_mono hk
  · rw [placed_content_below hk (by rw [hroot, hnext]; omega), hstep, hroot]
    simp only [putFile, patch]
    rw [if_pos (by omega), Nat.add_sub_cancel_left]

/-! ## 3. The inode table does not matter -/

/-- Where files go, and what is written there, is decided by their contents alone. -/
theorem placed_congr {q : Placed} (hn : q.next = p.next) (k : Nat) :
    (placed files q k).next = (placed files p k).next ∧
      ∀ b, q.content b = p.content b → (placed files q k).content b = (placed files p k).content b := by
  induction k with
  | zero => exact ⟨hn, fun _ h => h⟩
  | succ k ih =>
    rw [placed, placed, place, place]
    cases files (k + 1) with
    | none => exact ih
    | some data =>
      simp only
      split
      · exact ih
      · refine ⟨congrArg (· + span data.length) ih.1, fun b hb => ?_⟩
        simp only [putFile, patch, ih.1, ih.2 b hb]

theorem setExtentRoot_again (inode : Inode) (root : Nat) :
    setExtentRoot (setExtentRoot inode root) root = setExtentRoot inode root := by
  refine sealAt_congr ?_
  rw [setExtentRoot, sealAt, put64, put32, putLE_comm _ _ _ (by norm_num), putLE_putLE,
    putLE_comm _ _ _ (by norm_num), putLE_putLE]

/-- **Compacting again changes nothing**: over the inodes of the result, the same files are laid
out in the same way, and their inodes stay. -/
theorem placed_again {q : Placed} {K : Nat} (hn : q.next = p.next)
    (ht : ∀ j, q.table j = (placed files p K).table j) (j : Nat) :
    (placed files q K).table j = (placed files p K).table j := by
  by_cases hj : 1 ≤ j ∧ j ≤ K
  · have hroot : rootOf files q j = rootOf files p j := (placed_congr hn (j - 1)).1
    rw [placed_table hj.1 hj.2, ht j, placed_table hj.1 hj.2]
    cases files j with
    | none => rfl
    | some data => simp only [newRoot, hroot, setExtentRoot_again]
  · rw [placed_table_other (by omega), ht j]

end Place

/-! ## 4. The whole volume -/

section Packed

/-- The free list of a volume that is packed up to `next`. -/
def tailNode (next blocks : Nat) : ExtentNode :=
  if next < blocks then freeNode next (blocks - next) else sealAt (put32 (zeros 4096) 8 0) 12

/-- The journal with nothing outstanding. -/
def cleanJournal (j : IntentLog) : IntentLog := sealJournal (put32 j 36 0)

/-- The eight blocks in front, and nothing behind them. -/
def reserved (boot : Nat → Block) (b : Nat) : Block := if b < 8 then boot b else zeros 4096

variable (files : Nat → Option (List Block)) (boot : Nat → Block) (blocks : Nat)

/-- Where compaction starts. -/
def unpacked : Placed := ⟨8, tableOf (boot 2) fun _ => zeros 512, reserved boot⟩

/-- Where it ends. -/
def packed : Placed := placed files (unpacked boot) (maxInodes - 1)

/-- The volume that comes out, block by block. -/
def packedBlocks : Nat → Block :=
  Function.update (Function.update (Function.update (Function.update (packed files boot).content
    2 (inodeTableBlock (packed files boot).table))
    6 (tailNode (packed files boot).next blocks))
    1 (overlay (zeros 4096) 0
      (setFreeBlocks (slice (boot 1) 0 256) (blocks - (packed files boot).next))))
    4 (overlay (zeros 4096) 0 (cleanJournal (slice (boot 4) 0 48)))

variable {files boot blocks}

theorem packedBlocks_other {b : Nat} (h1 : b ≠ 1) (h2 : b ≠ 2) (h4 : b ≠ 4) (h6 : b ≠ 6) :
    packedBlocks files boot blocks b = (packed files boot).content b := by
  rw [packedBlocks, Function.update_of_ne h4, Function.update_of_ne h1, Function.update_of_ne h6,
    Function.update_of_ne h2]

theorem packed_next_ge : 8 ≤ (packed files boot).next :=
  placed_next_mono (p := unpacked boot) (Nat.zero_le (maxInodes - 1))

theorem packedBlocks_kept {b : Nat} (hb : b < 8) (h1 : b ≠ 1) (h2 : b ≠ 2) (h4 : b ≠ 4)
    (h6 : b ≠ 6) : packedBlocks files boot blocks b = boot b := by
  have hplaced := @placed_content_below files (unpacked boot) 0 (maxInodes - 1) (Nat.zero_le _) b hb
  rw [packedBlocks_other h1 h2 h4 h6, packed, hplaced]
  exact if_pos hb

theorem tableOf_packed (h8 : ∀ i, 8 ≤ i → files i = none) (j : Nat) :
    tableOf (inodeTableBlock (packed files boot).table) (fun _ => zeros 512) j
      = (packed files boot).table j := by
  rw [tableOf]
  split
  · rename_i hj
    exact eq_inodeTableBlock_iff.mp rfl j hj
  · rename_i hj
    by_cases hk : j ≤ maxInodes - 1
    · rw [packed, placed_table (by omega) hk, h8 j (by omega)]
      exact (if_neg hj).symm
    · rw [packed, placed_table_other (by omega)]
      exact (if_neg hj).symm

theorem setFreeBlocks_again (s : Super) (free : Nat) :
    setFreeBlocks (setFreeBlocks s free) free = setFreeBlocks s free := by
  refine sealAt_congr ?_
  rw [setFreeBlocks, sealAt, put64, put32, putLE_comm _ _ _ (by norm_num), putLE_putLE,
    putLE_comm _ _ _ (by norm_num), putLE_putLE]

theorem cleanJournal_again (j : IntentLog) : cleanJournal (cleanJournal j) = cleanJournal j := by
  have hput : put32 (cleanJournal j) 36 0
      = put32 (put32 j 36 0) 40 (journalChecksum (put32 j 36 0)) := by
    simp only [cleanJournal, sealJournal, put32]
    rw [putLE_comm _ _ _ (by norm_num), putLE_putLE]
  rw [cleanJournal, hput, sealJournal_put32, cleanJournal]

/-- Where compaction ends does not depend on what is in front. -/
theorem packed_next_congr (boot boot' : Nat → Block) :
    (packed files boot').next = (packed files boot).next := by
  have hstart : (unpacked boot').next = (unpacked boot).next := rfl
  rw [packed, packed]
  exact (placed_congr hstart _).1

/-- **The volume that comes out is packed.** -/
theorem packedBlocks_again (h8 : ∀ i, 8 ≤ i → files i = none) :
    packedBlocks files (packedBlocks files boot blocks) blocks = packedBlocks files boot blocks := by
  have hb1 : packedBlocks files boot blocks 1 = overlay (zeros 4096) 0
      (setFreeBlocks (slice (boot 1) 0 256) (blocks - (packed files boot).next)) := rfl
  have hb2 : packedBlocks files boot blocks 2 = inodeTableBlock (packed files boot).table := rfl
  have hb4 : packedBlocks files boot blocks 4
      = overlay (zeros 4096) 0 (cleanJournal (slice (boot 4) 0 48)) := rfl
  have hstart : (unpacked (packedBlocks files boot blocks)).next = (unpacked boot).next := rfl
  have hnext : (packed files (packedBlocks files boot blocks)).next = (packed files boot).next :=
    packed_next_congr _ _
  have htable : (packed files (packedBlocks files boot blocks)).table = (packed files boot).table := by
    funext j
    rw [packed, packed]
    refine placed_again hstart (fun i => ?_) j
    rw [← packed, ← tableOf_packed h8 i, ← hb2]
    rfl
  funext b
  by_cases h1 : b = 1
  · subst h1
    rw [hb1, packedBlocks, hnext, hb1, slice_overlay_self _ _ _ (by norm_num), setFreeBlocks_again]
    rfl
  by_cases h2 : b = 2
  · subst h2
    rw [hb2, ← htable]
    rfl
  by_cases h4 : b = 4
  · subst h4
    rw [hb4, packedBlocks, Function.update_self, hb4, slice_overlay_self _ _ _ (by norm_num),
      cleanJournal_again]
  by_cases h6 : b = 6
  · subst h6
    have hb6 : ∀ boot, packedBlocks files boot blocks 6
        = tailNode (packed files boot).next blocks := fun _ => rfl
    rw [hb6, hb6, hnext]
  rw [packedBlocks_other h1 h2 h4 h6, packedBlocks_other h1 h2 h4 h6]
  rw [packed, packed]
  refine (placed_congr hstart _).2 b ?_
  change reserved _ b = reserved _ b
  unfold reserved
  split
  · rename_i hb
    exact packedBlocks_kept hb h1 h2 h4 h6
  · rfl

end Packed

end AetherFs
