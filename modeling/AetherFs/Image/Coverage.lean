/-
# The data region is partitioned

Scrub establishes that no block is allocated twice and none is lost, but it never says so: it
collects intervals from four sources into two lists, sorts them, and walks a cursor.  This
module says what the four sources are -- free extents, extent roots, file extents, checksum
chains -- and reads the partition off the walk.

`Owns img o b` is the statement's vocabulary: owner `o` claims block `b`, in NATURAL arithmetic,
with the chains followed by `chainOf`, a definition that shares nothing with the validator's
loop.  `slots img` lists every claim with its interval.  Three facts carry the result:

* the intervals of `slots` are the intervals the scrub collected, in the same order
  (`Scrubbed.slots_intervals`);
* those intervals tile `[8, blocks)` (`Scrubbed.tiles`): none of them wraps, since a wrapped
  interval does not survive the sweep;
* two members of a tiling that share a block are the same member, so two owners of a block are
  the same owner.
-/
import AetherFs.Image.Volume

namespace AetherFs

open Lib

/-! ## 1. Chains -/

/-- The checksum blocks that cover `n` data blocks, following `cb_next` from block `c`. -/
def chainOf (rd : Nat → Except Fail Block) (n c : Nat) : List Nat :=
  if n = 0 then []
  else match rd c with
    | .error _ => []
    | .ok sums =>
      if cbEntries sums = 0 ∨ n ≤ cbEntries sums then [c]
      else c :: chainOf rd (n - cbEntries sums) (cbNext sums)
termination_by n
decreasing_by omega

section Chain

variable {rd : Nat → Except Fail Block} {blocks pstart len : Nat}

/-- **The walk visits the chain**, and every block of it lies in the data region. -/
theorem csumWalk_chain (rest : Nat) : ∀ {validated c : Nat} {chain : List Nat},
    len - validated = rest → 8 ≤ c → c < blocks →
    csumWalk rd blocks pstart len validated c = .ok chain →
    chain = chainOf rd rest c ∧ ∀ x ∈ chain, 8 ≤ x ∧ x < blocks := by
  induction rest using Nat.strong_induction_on with
  | _ rest ih =>
    intro validated c chain hrest h8 hc h
    by_cases hv : validated < len
    · obtain ⟨sums, hlink, htail⟩ := (csumWalk_iff hv).mp h
      have hpos := hlink.entries_pos
      rw [chainOf, if_neg (by omega), hlink.read]
      simp only
      rcases htail with ⟨hlt, hnext8, hnext, rest', hwalk, rfl⟩ | ⟨heq, -, rfl⟩
      · rw [if_neg (by omega)]
        obtain ⟨rfl, hin⟩ := ih (rest - cbEntries sums) (by omega) (by omega) hnext8 hnext hwalk
        refine ⟨rfl, fun x hx => ?_⟩
        rcases List.mem_cons.mp hx with rfl | hx
        · exact ⟨h8, hc⟩
        · exact hin x hx
      · rw [if_pos (Or.inr (by omega))]
        refine ⟨rfl, fun x hx => ?_⟩
        rw [List.mem_singleton.mp hx]
        exact ⟨h8, hc⟩
    · rw [csumWalk, if_neg hv] at h
      obtain rfl := Except.ok.inj h
      rw [chainOf, if_pos (by omega)]
      exact ⟨rfl, by simp⟩

theorem csumWalk_reads (rest : Nat) : ∀ {validated c : Nat} {chain : List Nat},
    len - validated = rest → csumWalk rd blocks pstart len validated c = .ok chain →
    ∀ k, validated ≤ k → k < len → ∃ block, rd (addU64 pstart k) = .ok block := by
  induction rest using Nat.strong_induction_on with
  | _ rest ih =>
    intro validated c chain hrest h k hge hlt
    obtain ⟨sums, hlink, htail⟩ := (csumWalk_iff (by omega)).mp h
    have hpos := hlink.entries_pos
    by_cases hk : k < validated + cbEntries sums
    · obtain ⟨block, hread, -⟩ := hlink.sums_match (k - validated) (by omega)
      refine ⟨block, ?_⟩
      rw [← hread]
      congr 1
      simp only [addU64]
      omega
    · rcases htail with ⟨-, -, -, rest', hwalk, -⟩ | ⟨heq, -, -⟩
      · exact ih (len - (validated + cbEntries sums)) (by omega) rfl hwalk k (by omega) hlt
      · omega

end Chain

/-! ## 2. Owners -/

section Owners

variable {δ : Type}

/-- An allocated regular file. -/
def RegularAt (img : Image δ) (index : Nat) : Prop :=
  index < maxInodes ∧ imageBitmapTest img.inodeBitmap index = true ∧
    sIsReg (iMode (img.inodeTable index))

instance (img : Image δ) (index : Nat) : Decidable (RegularAt img index) :=
  inferInstanceAs (Decidable (_ ∧ _))

variable [BlockDev δ]

/-- The extents of a file, in order. -/
def fileExtents (img : Image δ) (index : Nat) : List Extent :=
  match imageReadBlock img (iExtentRoot (img.inodeTable index)) with
  | .ok node => enExtents node
  | .error _ => []

/-- The checksum chain of an extent. -/
def extentChain (img : Image δ) (e : Extent) : List Nat :=
  chainOf (imageReadBlock img) (eLen e) (eCsumStart e)

/-- The ways a block can be claimed. -/
inductive Owner
  /-- The free extent number `i`. -/
  | free (i : Nat)
  /-- The extent root of a file. -/
  | extentRoot (index : Nat)
  /-- Position `k` of extent `e` of a file. -/
  | data (index e k : Nat)
  /-- Checksum block `j` of the chain of extent `e` of a file. -/
  | csum (index e j : Nat)
deriving DecidableEq, Repr

/-- The owner claims the block.  Nothing wraps here. -/
def Owns (img : Image δ) : Owner → Nat → Prop
  | .free i, b => ∃ x, (enExtents img.freeExtents)[i]? = some x ∧
      ePstart x ≤ b ∧ b < ePstart x + eLen x
  | .extentRoot index, b => RegularAt img index ∧ b = iExtentRoot (img.inodeTable index)
  | .data index e k, b => RegularAt img index ∧ ∃ x, (fileExtents img index)[e]? = some x ∧
      k < eLen x ∧ b = ePstart x + k
  | .csum index e j, b => RegularAt img index ∧ ∃ x, (fileExtents img index)[e]? = some x ∧
      (extentChain img x)[j]? = some b

/-! ## 3. Slots: the claims as a list of intervals -/

/-- What an interval was collected for. -/
inductive Slot
  | free (i : Nat)
  | extentRoot (index : Nat)
  | extent (index e : Nat)
  | link (index e j : Nat)

/-- The blocks an extent describes. -/
def extentInterval (e : Extent) : Interval := ⟨ePstart e, eLen e⟩

/-- The claims of one extent: its data, then its chain. -/
def extentSlots (img : Image δ) (index : Nat) (xe : Extent × Nat) : List (Slot × Interval) :=
  (.extent index xe.2, extentInterval xe.1) ::
    (extentChain img xe.1).zipIdx.map fun cj => (.link index xe.2 cj.2, ⟨cj.1, 1⟩)

/-- The claims of one inode. -/
def fileSlots (img : Image δ) (index : Nat) : List (Slot × Interval) :=
  if RegularAt img index then
    (.extentRoot index, ⟨iExtentRoot (img.inodeTable index), 1⟩) ::
      (fileExtents img index).zipIdx.flatMap (extentSlots img index)
  else []

/-- Every claim. -/
def slots (img : Image δ) : List (Slot × Interval) :=
  ((enExtents img.freeExtents).zipIdx.map fun xi => (.free xi.2, extentInterval xi.1)) ++
    (List.range maxInodes).flatMap (fileSlots img)

end Owners

/-! ## 4. What the scrub collected -/

section Collected

/-- A nonempty interval whose modular end lies in the image. -/
structure Sane (blocks : Nat) (iv : Interval) : Prop where
  len_pos : 0 < iv.len
  len_lt : iv.len < 2 ^ 64
  end_le : (iv.start + iv.len) % 2 ^ 64 ≤ blocks

theorem eLen_lt (e : Extent) : eLen e < 2 ^ 64 := le64_lt e 24

theorem sane_block {blocks c : Nat} (hc : c < blocks) (hb : blocks < 2 ^ 64) :
    Sane blocks ⟨c, 1⟩ := ⟨Nat.one_pos, by norm_num, by simp only; omega⟩

/-- The intervals of one extent: its data, then its chain. -/
def extentIntervals (rd : Nat → Except Fail Block) (e : Extent) : List Interval :=
  extentInterval e :: (chainOf rd (eLen e) (eCsumStart e)).map fun c => ⟨c, 1⟩

variable {rd : Nat → Except Fail Block} {blocks : Nat}

theorem checkExtent_intervals (hb : blocks < 2 ^ 64) {cursor : Nat} {e : Extent}
    {used : List Interval} (h : checkExtent rd blocks cursor e = .ok used) :
    used = extentIntervals rd e ∧ ∀ iv ∈ used, 8 ≤ iv.start ∧ Sane blocks iv := by
  obtain ⟨hok, chain, hchain, rfl⟩ := checkExtent_iff.mp h
  obtain ⟨hvisit, hin⟩ := csumWalk_chain (eLen e) (Nat.sub_zero _) hok.csum_ge hok.csum_lt hchain
  subst hvisit
  refine ⟨rfl, fun iv hiv => ?_⟩
  rcases List.mem_cons.mp hiv with rfl | hiv
  · exact ⟨hok.pstart_ge, hok.len_pos, eLen_lt e, hok.end_le⟩
  · obtain ⟨c, hc, rfl⟩ := List.mem_map.mp hiv
    exact ⟨(hin c hc).1, sane_block (hin c hc).2 hb⟩

theorem walkExtents_intervals (hb : blocks < 2 ^ 64) {es : List Extent} {cursor total : Nat}
    {used : List Interval} (h : walkExtents rd blocks es cursor = .ok (total, used)) :
    used = es.flatMap (extentIntervals rd) ∧ ∀ iv ∈ used, 8 ≤ iv.start ∧ Sane blocks iv := by
  induction es generalizing cursor used with
  | nil =>
    rw [walkExtents] at h
    obtain ⟨-, rfl⟩ := Prod.mk.inj (Except.ok.inj h)
    exact ⟨rfl, by simp⟩
  | cons e es ih =>
    obtain ⟨first, rest, hfirst, hrest, rfl⟩ := walkExtents_cons_iff.mp h
    obtain ⟨rfl, hsane⟩ := checkExtent_intervals hb hfirst
    obtain ⟨rfl, hsane'⟩ := ih hrest
    refine ⟨rfl, fun iv hiv => ?_⟩
    rcases List.mem_append.mp hiv with hiv | hiv
    · exact hsane iv hiv
    · exact hsane' iv hiv

theorem walkExtents_mem {es : List Extent} {cursor total : Nat} {used : List Interval}
    (h : walkExtents rd blocks es cursor = .ok (total, used)) {e : Extent} (he : e ∈ es) :
    ∃ start first, checkExtent rd blocks start e = .ok first := by
  induction es generalizing cursor used with
  | nil => simp at he
  | cons x xs ih =>
    obtain ⟨first, rest, hfirst, hrest, -⟩ := walkExtents_cons_iff.mp h
    rcases List.mem_cons.mp he with rfl | he
    · exact ⟨cursor, first, hfirst⟩
    · exact ih hrest he

theorem walkFree_intervals {es : List Extent} {lastEnd : Nat} {free : List Interval}
    (h : walkFree blocks es lastEnd = .ok free) :
    free = es.map extentInterval ∧ ∀ iv ∈ free, Sane blocks iv := by
  induction es generalizing lastEnd free with
  | nil =>
    rw [walkFree] at h
    obtain rfl := Except.ok.inj h
    exact ⟨rfl, by simp⟩
  | cons e es ih =>
    obtain ⟨hpos, -, hend, rest, hrest, rfl⟩ := walkFree_cons_iff.mp h
    obtain ⟨rfl, hsane⟩ := ih hrest
    refine ⟨rfl, fun iv hiv => ?_⟩
    rcases List.mem_cons.mp hiv with rfl | hiv
    · exact ⟨hpos, eLen_lt e, hend⟩
    · exact hsane iv hiv

theorem map_zipIdx_fst {α β : Type} (f : α → β) (l : List α) :
    (l.zipIdx.map fun ai => f ai.1) = l.map f := by
  conv_rhs => rw [← List.zipIdx_map_fst 0 l, List.map_map]
  rfl

variable {δ : Type} [BlockDev δ] {img : Image δ} {refs : List Nat}

theorem extentSlots_intervals (index : Nat) (xe : Extent × Nat) :
    (extentSlots img index xe).map Prod.snd = extentIntervals (imageReadBlock img) xe.1 := by
  rw [extentSlots, List.map_cons, List.map_map, extentIntervals]
  exact congrArg (List.cons _) (map_zipIdx_fst (fun c => (⟨c, 1⟩ : Interval)) _)

/-- The intervals of a file: its extent root, then its extents. -/
theorem fileSlots_intervals {index : Nat} (hr : RegularAt img index) :
    (fileSlots img index).map Prod.snd = ⟨iExtentRoot (img.inodeTable index), 1⟩ ::
      (fileExtents img index).flatMap (extentIntervals (imageReadBlock img)) := by
  rw [fileSlots, if_pos hr, List.map_cons, List.map_flatMap]
  simp only [extentSlots_intervals]
  exact congrArg (List.cons _)
    (congrArg List.flatten (map_zipIdx_fst (extentIntervals (imageReadBlock img)) _))

/-- The step: the intervals one inode adds are those of its slots. -/
theorem checkInode_intervals (hb : img.blocks < 2 ^ 64) {index : Nat} (hindex : index < maxInodes)
    {t : Tally} (h : checkInode (imageReadBlock img) img refs index = .ok t) :
    t.used = (fileSlots img index).map Prod.snd ∧
      ∀ iv ∈ t.used, 8 ≤ iv.start ∧ Sane img.blocks iv := by
  rcases checkInode_iff.mp h with ⟨hbit, -, rfl⟩ | ⟨hbit, -, ⟨hdir, -, -, rfl⟩ | ⟨hreg, -, n, used,
    hfile, rfl⟩⟩
  · rw [fileSlots, if_neg (by simp [RegularAt, hbit])]
    exact ⟨rfl, by simp [Tally.none]⟩
  · rw [fileSlots, if_neg fun hr => hr.2.2.not_dir hdir]
    exact ⟨rfl, by simp [Tally.none]⟩
  · obtain ⟨hge, hlt, node, rest, hnode, -, hwalk, -, -, rfl⟩ := checkFile_iff.mp hfile
    obtain ⟨hrest, hsane⟩ := walkExtents_intervals hb hwalk
    subst hrest
    have hext : fileExtents img index = enExtents node := by
      rw [fileExtents, (readExtentNode_iff.mp hnode).1]
    rw [fileSlots_intervals ⟨hindex, hbit, hreg⟩, hext]
    refine ⟨rfl, fun iv hiv => ?_⟩
    rcases List.mem_cons.mp hiv with rfl | hiv
    · exact ⟨hge, sane_block hlt hb⟩
    · exact hsane iv hiv

/-- The run: the intervals of all inodes are those of their slots. -/
theorem inodes_intervals (hb : img.blocks < 2 ^ 64) : ∀ {is : List Nat} {ts : List Tally},
    (∀ i ∈ is, i < maxInodes) →
    List.Forall₂ (fun i t => checkInode (imageReadBlock img) img refs i = .ok t) is ts →
    ts.flatMap Tally.used = (is.flatMap (fileSlots img)).map Prod.snd ∧
      ∀ iv ∈ ts.flatMap Tally.used, 8 ≤ iv.start ∧ Sane img.blocks iv
  | _, _, _, .nil => ⟨rfl, by simp⟩
  | i :: is, t :: ts, hlt, .cons ht hts => by
    obtain ⟨hused, hsane⟩ := checkInode_intervals hb (hlt i List.mem_cons_self) ht
    obtain ⟨hrest, hsane'⟩ := inodes_intervals hb (fun j hj => hlt j (List.mem_cons_of_mem _ hj)) hts
    rw [List.flatMap_cons, List.flatMap_cons, List.map_append, ← hused, ← hrest]
    refine ⟨rfl, fun iv hiv => ?_⟩
    rcases List.mem_append.mp hiv with hiv | hiv
    · exact hsane iv hiv
    · exact hsane' iv hiv

end Collected

/-! ## 5. The sweep decides partition

The C library's sort is not part of the repository: `SortedBy` is what it is relied on for, an
arrangement of the items on which the comparison function never says "after".  The order is
total and tells all intervals apart, so it leaves no choice, and the result below holds of
whatever arrangement the library returns. -/

section Decision

/-- `aetherfs_interval_compare`. -/
def intervalCompare (lhs rhs : Interval) : Int :=
  if lhs.start < rhs.start then -1
  else if lhs.start > rhs.start then 1
  else if lhs.len < rhs.len then -1
  else if lhs.len > rhs.len then 1
  else 0

theorem intervalCompare_le_zero_iff {lhs rhs : Interval} :
    intervalCompare lhs rhs ≤ 0 ↔ Interval.le lhs rhs = true := by
  rw [Interval.le_iff, intervalCompare]
  split_ifs <;> omega

/-- What `qsort` leaves in `items` when it is given `list`. -/
structure SortedBy (compare : Interval → Interval → Int) (list items : List Interval) : Prop where
  perm : items.Perm list
  inOrder : items.Pairwise fun a b => compare a b ≤ 0

theorem SortedBy.pairwise {list items : List Interval} (h : SortedBy intervalCompare list items) :
    items.Pairwise (fun a b => Interval.le a b = true) :=
  h.inOrder.imp fun hab => intervalCompare_le_zero_iff.mp hab

/-- The list the scrub's model sweeps is the one `qsort` returns. -/
theorem sortedBy_sortIntervals (list : List Interval) :
    SortedBy intervalCompare list (sortIntervals list) :=
  ⟨sortIntervals_perm list, (sortIntervals_pairwise list).imp fun hab =>
    intervalCompare_le_zero_iff.mpr hab⟩

/-- **The sweep decides partition.**  The intervals have positive 64-bit lengths, start in the
data region, and have passed the comparison of their wrapped end with `blocks`.  Then the cursor
comes out at `blocks` exactly when they are pairwise apart, none of them wraps, and together they
are `[8, blocks)`. -/
theorem coverage_sweep_iff {blocks : Nat} (h8 : dataStartBlock ≤ blocks) (hb : blocks < 2 ^ 64)
    {list items : List Interval} (hsort : SortedBy intervalCompare list items)
    (hiv : ∀ iv ∈ list, dataStartBlock ≤ iv.start ∧ 0 < iv.len ∧ iv.len < 2 ^ 64 ∧
      (iv.start + iv.len) % 2 ^ 64 ≤ blocks) :
    sweep (2 ^ 64) dataStartBlock items = some blocks ↔
      list.Pairwise Interval.Apart ∧ (∀ iv ∈ list, iv.start + iv.len < 2 ^ 64) ∧
      ∀ x, (∃ iv ∈ list, iv.Has x) ↔ dataStartBlock ≤ x ∧ x < blocks := by
  constructor
  · intro hsweep
    have ht : Tiles dataStartBlock blocks items := by
      refine sweep_tiles (by norm_num) hb hsort.pairwise h8 (fun iv hmem => ?_) hsweep
      exact (hiv iv (hsort.perm.mem_iff.mp hmem)).2
    have hin : ∀ iv ∈ list, dataStartBlock ≤ iv.start ∧ iv.start + iv.len ≤ blocks := by
      intro iv hmem
      obtain ⟨hge, hle, -⟩ := ht.within iv (hsort.perm.mem_iff.mpr hmem)
      exact ⟨hge, hle⟩
    refine ⟨(hsort.perm.pairwise_iff fun h => h.symm).mp ht.apart, fun iv hmem => ?_, fun x => ?_⟩
    · exact Nat.lt_of_le_of_lt (hin iv hmem).2 hb
    · constructor
      · rintro ⟨iv, hmem, hge, hlt⟩
        obtain ⟨hge', hle'⟩ := hin iv hmem
        exact ⟨Nat.le_trans hge' hge, Nat.lt_of_lt_of_le hlt hle'⟩
      · rintro ⟨hge, hlt⟩
        obtain ⟨iv, hmem, hx⟩ := ht.covers x hge hlt
        exact ⟨iv, hsort.perm.mem_iff.mp hmem, hx⟩
  · rintro ⟨hapart, -, hcov⟩
    refine Tiles.sweep hb (tiles_of_apart h8 hsort.pairwise
      ((hsort.perm.pairwise_iff fun h => h.symm).mpr hapart) (fun iv hmem => ?_) fun x => ?_)
    · exact (hiv iv (hsort.perm.mem_iff.mp hmem)).2.1
    · rw [← hcov x]
      simp only [hsort.perm.mem_iff]

/-- Two intervals, met in the wrong order. -/
theorem two_intervals_decided :
    sweep (2 ^ 64) dataStartBlock (sortIntervals [⟨12, 4⟩, ⟨8, 4⟩]) = some 16 ↔
      [(⟨12, 4⟩ : Interval), ⟨8, 4⟩].Pairwise Interval.Apart ∧
      (∀ iv ∈ [(⟨12, 4⟩ : Interval), ⟨8, 4⟩], iv.start + iv.len < 2 ^ 64) ∧
      ∀ x, (∃ iv ∈ [(⟨12, 4⟩ : Interval), ⟨8, 4⟩], iv.Has x) ↔ dataStartBlock ≤ x ∧ x < 16 :=
  coverage_sweep_iff (by decide) (by decide) (sortedBy_sortIntervals _) (by decide)

end Decision

/-! ## 6. The partition -/

section Partition

variable {δ : Type} [BlockDev δ] {img : Image δ} {refs : List Nat} {ts : List Tally}
  {free : List Interval}

theorem Scrubbed.used_intervals (h : Scrubbed img refs ts free) (hb : img.blocks < 2 ^ 64) :
    ts.flatMap Tally.used = ((List.range maxInodes).flatMap (fileSlots img)).map Prod.snd ∧
      ∀ iv ∈ ts.flatMap Tally.used, 8 ≤ iv.start ∧ Sane img.blocks iv := by
  have hlt : ∀ i ∈ List.range maxInodes, i < maxInodes := fun i => List.mem_range.mp
  exact inodes_intervals hb hlt h.inodes

theorem Scrubbed.file (h : Scrubbed img refs ts free) {index : Nat} (hr : RegularAt img index) :
    ∃ used, checkFile (imageReadBlock img) img.blocks (img.inodeTable index)
      = .ok (iBlocks (img.inodeTable index), used) := by
  obtain ⟨t, ht⟩ := forall₂_left h.inodes (List.mem_range.mpr hr.1)
  rcases checkInode_iff.mp ht with hfree | ⟨-, -, hdir | ⟨-, -, n, used, hfile, -⟩⟩
  · simp [hr.2.1] at hfree
  · exact absurd hdir.1 hr.2.2.not_dir
  · obtain ⟨-, -, node, rest, -, -, -, hn, -⟩ := checkFile_iff.mp hfile
    exact ⟨used, hn ▸ hfile⟩

/-- Its extents have been walked, each from some place in the file. -/
theorem Scrubbed.extents (h : Scrubbed img refs ts free) {index : Nat} (hr : RegularAt img index) :
    ∃ used, walkExtents (imageReadBlock img) img.blocks (fileExtents img index) 0
      = .ok (iBlocks (img.inodeTable index), used) := by
  obtain ⟨used, hfile⟩ := h.file hr
  obtain ⟨-, -, node, rest, hnode, -, hwalk, -⟩ := checkFile_iff.mp hfile
  refine ⟨rest, ?_⟩
  rw [fileExtents, (readExtentNode_iff.mp hnode).1]
  exact hwalk

theorem Scrubbed.slots_intervals (h : Scrubbed img refs ts free) (hb : img.blocks < 2 ^ 64) :
    (slots img).map Prod.snd = free ++ ts.flatMap Tally.used := by
  obtain ⟨hfree, -⟩ := walkFree_intervals (checkFree_iff.mp h.freeList).2.2
  obtain ⟨hused, -⟩ := h.used_intervals hb
  rw [slots, List.map_append, List.map_map, hfree, hused, ← map_zipIdx_fst extentInterval]
  rfl

/-- **The collected intervals tile the data region.** -/
theorem Scrubbed.tiles (h : Scrubbed img refs ts free)
    (hroot : crRootDirBlock img.checkpointRoot = 3) (h8 : 8 ≤ img.blocks)
    (hb : img.blocks < 2 ^ 64) :
    ∃ tiles, Tiles 8 img.blocks tiles ∧ (free ++ ts.flatMap Tally.used).Perm tiles := by
  obtain ⟨-, hsane⟩ := walkFree_intervals (checkFree_iff.mp h.freeList).2.2
  obtain ⟨-, hsane'⟩ := h.used_intervals hb
  have hperm : (coverageOf (crRootDirBlock img.checkpointRoot) free
      (ts.flatMap Tally.used)).Perm (free ++ ts.flatMap Tally.used) :=
    coverageOf_perm (by omega) fun iv hiv => (hsane' iv hiv).1
  have hsort := sortIntervals_perm (coverageOf (crRootDirBlock img.checkpointRoot) free
    (ts.flatMap Tally.used))
  refine ⟨_, sweep_tiles (by norm_num) hb (sortIntervals_pairwise _) h8 (fun iv hiv => ?_) h.covered,
    (hsort.trans hperm).symm⟩
  have hs : Sane img.blocks iv := by
    rcases List.mem_append.mp ((hsort.trans hperm).mem_iff.mp hiv) with hiv | hiv
    · exact hsane iv hiv
    · exact (hsane' iv hiv).2
  exact ⟨hs.len_pos, hs.len_lt, hs.end_le⟩

/-- Claims are apart: two slots that share a block are one slot. -/
theorem slots_unique {tiles : List Interval} (ht : Tiles 8 img.blocks tiles)
    (hp : ((slots img).map Prod.snd).Perm tiles) {x y : Slot × Interval} (hx : x ∈ slots img)
    (hy : y ∈ slots img) {b : Nat} (hxb : x.2.Has b) (hyb : y.2.Has b) : x = y := by
  have hapart : (slots img).Pairwise fun x y => Interval.Apart x.2 y.2 :=
    List.pairwise_map.mp ((hp.pairwise_iff fun h => h.symm).mpr ht.apart)
  have hsymm : Std.Symm fun x y : Slot × Interval => Interval.Apart x.2 y.2 := ⟨fun _ _ h => h.symm⟩
  by_contra hne
  exact hapart.forall hx hy hne b hxb hyb

/-- The owner of block `b` in a slot. -/
def ownerOf (b : Nat) : Slot × Interval → Owner
  | (.free i, _) => .free i
  | (.extentRoot index, _) => .extentRoot index
  | (.extent index e, iv) => .data index e (b - iv.start)
  | (.link index e j, _) => .csum index e j

theorem Owns.slot {o : Owner} {b : Nat} (h : Owns img o b) :
    ∃ x ∈ slots img, x.2.Has b ∧ o = ownerOf b x := by
  have hfile : ∀ {index x}, RegularAt img index → x ∈ fileSlots img index → x ∈ slots img :=
    fun {index x} hr hx => List.mem_append_right _
      (List.mem_flatMap.mpr ⟨index, List.mem_range.mpr hr.1, hx⟩)
  have hext : ∀ {index e x y}, RegularAt img index → (fileExtents img index)[e]? = some x →
      y ∈ extentSlots img index (x, e) → y ∈ slots img := fun {index e x y} hr hx hy => by
    refine hfile hr ?_
    rw [fileSlots, if_pos hr]
    exact List.mem_cons_of_mem _ (List.mem_flatMap.mpr
      ⟨(x, e), List.mk_mem_zipIdx_iff_getElem?.mpr hx, hy⟩)
  cases o with
  | free i =>
    obtain ⟨x, hx, hb⟩ := h
    refine ⟨(.free i, extentInterval x), List.mem_append_left _ (List.mem_map.mpr
      ⟨(x, i), List.mk_mem_zipIdx_iff_getElem?.mpr hx, rfl⟩), hb, rfl⟩
  | extentRoot index =>
    obtain ⟨hr, hb⟩ := h
    subst hb
    refine ⟨(.extentRoot index, ⟨_, 1⟩), hfile hr ?_, ⟨Nat.le_refl _, Nat.lt_succ_self _⟩, rfl⟩
    rw [fileSlots, if_pos hr]
    exact List.mem_cons_self
  | data index e k =>
    obtain ⟨hr, x, hx, hk, rfl⟩ := h
    refine ⟨(.extent index e, extentInterval x), hext hr hx List.mem_cons_self,
      ⟨Nat.le_add_right _ _, Nat.add_lt_add_left hk _⟩, ?_⟩
    simp only [ownerOf, extentInterval, Nat.add_sub_cancel_left]
  | csum index e j =>
    obtain ⟨hr, x, hx, hj⟩ := h
    refine ⟨(.link index e j, ⟨b, 1⟩), hext hr hx (List.mem_cons_of_mem _ (List.mem_map.mpr
      ⟨(b, j), List.mk_mem_zipIdx_iff_getElem?.mpr hj, rfl⟩)), ⟨Nat.le_refl _, Nat.lt_succ_self _⟩,
      rfl⟩

theorem owns_of_slot {x : Slot × Interval} {b : Nat} (hx : x ∈ slots img) (hb : x.2.Has b) :
    Owns img (ownerOf b x) b := by
  rcases List.mem_append.mp hx with hx | hx
  · obtain ⟨⟨e, i⟩, he, rfl⟩ := List.mem_map.mp hx
    exact ⟨e, List.mk_mem_zipIdx_iff_getElem?.mp he, hb⟩
  · obtain ⟨index, -, hx⟩ := List.mem_flatMap.mp hx
    rw [fileSlots] at hx
    split at hx
    · rename_i hr
      rcases List.mem_cons.mp hx with rfl | hx
      · refine ⟨hr, ?_⟩
        simp only [Interval.Has] at hb
        omega
      · obtain ⟨⟨e, n⟩, he, hx⟩ := List.mem_flatMap.mp hx
        have he' := List.mk_mem_zipIdx_iff_getElem?.mp he
        rcases List.mem_cons.mp hx with rfl | hx
        · simp only [Interval.Has, extentInterval] at hb
          exact ⟨hr, e, he', by simp only [extentInterval]; omega,
            by simp only [extentInterval]; omega⟩
        · obtain ⟨⟨c, j⟩, hc, rfl⟩ := List.mem_map.mp hx
          simp only [Interval.Has] at hb
          obtain rfl : b = c := by omega
          exact ⟨hr, e, he', List.mk_mem_zipIdx_iff_getElem?.mp hc⟩
    · exact absurd hx List.not_mem_nil

/-- What a load and a scrub leave behind, for the partition: the claims, in the order of their
addresses, are a tiling of the data region. -/
theorem slots_tile {img0 : Image δ} {refs : List Nat} {ts : List Tally} {free : List Interval}
    (hload : imageLoad img0 = .ok img) (hscrub : Scrubbed img refs ts free) :
    img.blocks < 2 ^ 64 ∧ ∃ tiles, Tiles 8 img.blocks tiles ∧
      ((slots img).map Prod.snd).Perm tiles := by
  have hl := imageLoad_iff.mp hload
  obtain ⟨-, -, -, -, -, hdir, h8, -⟩ := boot_places hl.superOk hl.rootOk
  have hblocks : img.blocks = sBlocksCount img.super := by rw [hl.frame]
  have hb : img.blocks < 2 ^ 64 := by rw [hblocks]; exact le64_lt _ _
  obtain ⟨tiles, ht, hp⟩ := hscrub.tiles hdir (by omega) hb
  exact ⟨hb, tiles, ht, hscrub.slots_intervals hb ▸ hp⟩

theorem Owns.within {tiles : List Interval} (ht : Tiles 8 img.blocks tiles)
    (hp : ((slots img).map Prod.snd).Perm tiles) {o : Owner} {b : Nat} (ho : Owns img o b) :
    8 ≤ b ∧ b < img.blocks := by
  obtain ⟨x, hx, hxb, -⟩ := Owns.slot ho
  have := ht.within x.2 (hp.mem_iff.mp (List.mem_map_of_mem hx))
  rw [Interval.Has] at hxb
  omega

theorem exists_owner {tiles : List Interval} (ht : Tiles 8 img.blocks tiles)
    (hp : ((slots img).map Prod.snd).Perm tiles) {b : Nat} (hge : 8 ≤ b) (hlt : b < img.blocks) :
    ∃ x ∈ slots img, x.2.Has b ∧ Owns img (ownerOf b x) b := by
  obtain ⟨iv, hiv, hbiv⟩ := ht.covers b hge hlt
  obtain ⟨x, hx, rfl⟩ := List.mem_map.mp (hp.mem_iff.mpr hiv)
  exact ⟨x, hx, hbiv, owns_of_slot hx hbiv⟩

/-- **No double allocation, no lost space.**  On an image that loads and scrubs clean, every
block of the data region has exactly one owner, no claim leaves the region, and the superblock
counts the free extents. -/
theorem data_region_partitioned {img0 img : Image δ} {rep : ScrubReport}
    (hload : imageLoad img0 = .ok img) (hval : imageValidate img = .ok rep) :
    (∀ b, 8 ≤ b → b < img.blocks → ∃! o, Owns img o b) ∧
    (∀ o b, Owns img o b → 8 ≤ b ∧ b < img.blocks) ∧
    sFreeBlocks img.super = ((enExtents img.freeExtents).map eLen).sum := by
  obtain ⟨refs, ts, free, hscrub, -⟩ := imageValidate_iff.mp hval
  obtain ⟨hb, tiles, ht, hp⟩ := slots_tile hload hscrub
  refine ⟨fun b hge hlt => ?_, fun o b ho => ho.within ht hp, ?_⟩
  · obtain ⟨x, hx, hbiv, howns⟩ := exists_owner ht hp hge hlt
    refine ⟨ownerOf b x, howns, fun o ho => ?_⟩
    obtain ⟨y, hy, hyb, rfl⟩ := Owns.slot ho
    rw [slots_unique ht hp hy hx hyb hbiv]
  · have hsum : totalLen free ≤ img.blocks - 8 := by
      have := ht.totalLen
      rw [← totalLen_perm hp, hscrub.slots_intervals hb, totalLen_append] at this
      omega
    obtain ⟨hfree, -⟩ := walkFree_intervals (checkFree_iff.mp hscrub.freeList).2.2
    rw [hscrub.freeCount, Nat.mod_eq_of_lt (by omega), hfree, totalLen, List.map_map]
    rfl

theorem oneFile_partitioned : ∃ img0 img rep,
    imageLoad (δ := ByteFile) img0 = .ok img ∧ imageValidate img = .ok rep ∧ img.blocks = 16 ∧
    (∀ b, 8 ≤ b → b < img.blocks → ∃! o, Owns img o b) ∧
    (∀ o b, Owns img o b → 8 ≤ b ∧ b < img.blocks) ∧
    sFreeBlocks img.super = ((enExtents img.freeExtents).map eLen).sum := by
  obtain ⟨-, hload, -, rep, hval⟩ := oneFile_validates (n := 16) (m := 1) false (fun _ => 0)
    (fun _ => zeros 4096) (by norm_num) (by norm_num) (by decide)
  exact ⟨_, _, rep, hload, hval, oneFileImage_blocks _ _ (by norm_num),
    data_region_partitioned hload hval⟩

end Partition

end AetherFs
