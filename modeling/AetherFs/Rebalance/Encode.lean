/-
# Files in one piece

The two structures a rewritten file is made of, as `rebalance.c` fills them in: an extent node
with one extent, and checksum blocks with the sums of up to 1020 data blocks each.  A
`CompactFile` is a file laid out by them in consecutive blocks -- node, data, chain -- and
`CompactFile.checkFile` is that scrub accepts it, whatever its length.
-/
import AetherFs.Mkfs.Init

namespace AetherFs

open Lib

/-! ## 1. Encoders -/

/-- `new_extents` of `aetherfs_run_rebalance`, sealed as `aetherfs_write_extent_node` does. -/
def newExtents (dataStart csumStart fileBlocks : Nat) : ExtentNode :=
  let n : ExtentNode := put32 (zeros 4096) 8 1
  let n := put64 n 16 0
  let n := put64 n 24 dataStart
  let n := put64 n 32 csumStart
  let n := put64 n 40 fileBlocks
  sealAt n 12

/-- The loop that stores `cb_sums[index]`. -/
def putSums (b : ChecksumBlock) (index : Nat) : List Nat → ChecksumBlock
  | [] => b
  | sum :: sums => putSums (put32 b (16 + 4 * index) sum) (index + 1) sums

/-- One block of `aetherfs_write_checksum_chain`, sealed as `aetherfs_write_checksum_block`
does. -/
def sumsBlock (sums : List Nat) (next : Nat) : ChecksumBlock :=
  let b := putSums (zeros 4096) 0 sums
  let b := put32 b 8 sums.length
  let b := put64 b 0 next
  sealAt b 12

/-! ## 2. Their fields -/

theorem newExtents_fields {dataStart csumStart fileBlocks : Nat} (hd : dataStart < 2 ^ 64)
    (hc : csumStart < 2 ^ 64) (hf : fileBlocks < 2 ^ 64) :
    let n := newExtents dataStart csumStart fileBlocks
    enNext n = 0 ∧ enCount n = 1 ∧ eLstart (enExtent n 0) = 0 ∧
      ePstart (enExtent n 0) = dataStart ∧ eCsumStart (enExtent n 0) = csumStart ∧
      eLen (enExtent n 0) = fileBlocks := by
  simp only [enNext, enCount, eLstart, ePstart, eCsumStart, eLen, enExtent, le32, le64]
  simp (disch := decide) only [getLE_slice]
  simp only [newExtents, put32, put64, Nat.mul_zero, Nat.add_zero, Nat.reduceAdd]
  simp (disch := decide) only [getLE_sealAt, getLE_putLE_of_disjoint, getLE_putLE_self, getLE_zeros]
  exact ⟨trivial, by norm_num, by norm_num, Nat.mod_eq_of_lt hd, Nat.mod_eq_of_lt hc,
    Nat.mod_eq_of_lt hf⟩

theorem putSums_before {off w : Nat} : ∀ (sums : List Nat) (b : ChecksumBlock) (index : Nat),
    off + w ≤ 16 + 4 * index →
    getLE (byteAt (putSums b index sums)) off w = getLE (byteAt b) off w
  | [], _, _, _ => rfl
  | sum :: sums, b, index, h => by
    rw [putSums, putSums_before sums _ (index + 1) (by omega),
      getLE_putLE_of_disjoint _ _ _ _ _ _ (by omega)]

theorem putSums_at : ∀ (sums : List Nat) (b : ChecksumBlock) (index i : Nat),
    index + sums.length ≤ 1020 → (hi : i < sums.length) →
    le32 (putSums b index sums) (16 + 4 * (index + i)) = sums[i] % 2 ^ 32
  | sum :: sums, b, index, 0, hlen, _ => by
    simp only [List.length_cons] at hlen
    rw [putSums, le32, putSums_before sums _ _ (by omega), Nat.add_zero,
      getLE_putLE_self _ _ _ _ (by omega)]
    rfl
  | sum :: sums, b, index, i + 1, hlen, hi => by
    simp only [List.length_cons] at hlen hi
    rw [putSums, show index + (i + 1) = index + 1 + i by omega,
      putSums_at sums _ (index + 1) i (by omega) (by omega)]
    rfl

theorem sumsBlock_fields {sums : List Nat} {next : Nat} (hlen : sums.length ≤ 1020)
    (hn : next < 2 ^ 64) : cbEntries (sumsBlock sums next) = sums.length ∧
      cbNext (sumsBlock sums next) = next := by
  simp only [cbEntries, cbNext, sumsBlock, le32, le64, put32, put64]
  simp (disch := decide) only [getLE_sealAt, getLE_putLE_of_disjoint, getLE_putLE_self]
  exact ⟨Nat.mod_eq_of_lt (by omega), Nat.mod_eq_of_lt hn⟩

theorem sumsBlock_sum {sums : List Nat} {next i : Nat} (hlen : sums.length ≤ 1020)
    (hi : i < sums.length) (hs : sums[i] < 2 ^ 32) : cbSum (sumsBlock sums next) i = sums[i] := by
  have h := putSums_at sums (zeros 4096) 0 i (by omega) hi
  rw [Nat.zero_add] at h
  simp only [cbSum, sumsBlock, le32, put32, put64] at h ⊢
  rw [getLE_sealAt _ _ _ _ (by omega), getLE_putLE_of_disjoint _ _ _ _ _ _ (by omega),
    getLE_putLE_of_disjoint _ _ _ _ _ _ (by omega), h, Nat.mod_eq_of_lt hs]

/-! ## 3. Walking over them -/

section Walk

variable {rd : Nat → Except Fail Block} {blocks pstart len validated c : Nat}
  {data : Nat → Block}

/-- The link of a chain that `sumsBlock` makes: `count` sums from data block `validated` on. -/
theorem sumsBlock_link {count next : Nat} (hread : rd c = .ok (sumsBlock
      ((List.range count).map fun i => crc32cData (toList (data (validated + i)))) next))
    (hcount : 0 < count) (hle : count ≤ 1020) (hfit : count ≤ len - validated)
    (hn : next < 2 ^ 64) (hend : pstart + len < 2 ^ 64)
    (hdata : ∀ i, i < count → rd (pstart + (validated + i)) = .ok (data (validated + i))) :
    LinkOk rd (addU64 pstart validated) (len - validated) c (sumsBlock
      ((List.range count).map fun i => crc32cData (toList (data (validated + i)))) next) := by
  have hlen : ((List.range count).map fun i =>
      crc32cData (toList (data (validated + i)))).length = count := by simp
  obtain ⟨he, -⟩ := sumsBlock_fields (hlen.trans_le hle) hn
  rw [hlen] at he
  refine ⟨hread, checksumBlock_sealed _, by omega, by omega, by omega, fun i hi => ?_⟩
  refine ⟨data (validated + i), ?_, ?_⟩
  · rw [← hdata i (by omega)]
    congr 1
    simp only [addU64]
    omega
  · rw [sumsBlock_sum (hlen.trans_le hle) (by omega) (by
      rw [List.getElem_map]; exact crc32cData_lt _), List.getElem_map, List.getElem_range]

/-- `checksum_blocks` of a file of `n` blocks. -/
def csumBlocks (n : Nat) : Nat := (n + 1019) / 1020

/-- The number of sums in checksum block `j` of a file of `n` blocks. -/
def sumsIn (n j : Nat) : Nat := min 1020 (n - 1020 * j)

/-- Checksum block `j` of the chain that starts at `csum` and covers `data 0`, ..,
`data (n - 1)`. -/
def chainBlock (data : Nat → Block) (n csum j : Nat) : ChecksumBlock :=
  sumsBlock ((List.range (sumsIn n j)).map fun i => crc32cData (toList (data (1020 * j + i))))
    (if 1020 < n - 1020 * j then csum + j + 1 else 0)

/-- **The walk over a chain**, from its block `j` to the end. -/
theorem csumWalk_chainBlock {n csum : Nat} (hend : pstart + n < 2 ^ 64) (h8 : 8 ≤ csum)
    (hcsum : csum + csumBlocks n ≤ blocks) (hb : blocks < 2 ^ 64)
    (hdata : ∀ i, i < n → rd (pstart + i) = .ok (data i))
    (hchain : ∀ j, j < csumBlocks n → rd (csum + j) = .ok (chainBlock data n csum j))
    (k : Nat) : ∀ j, j + k = csumBlocks n → 0 < k →
      csumWalk rd blocks pstart n (1020 * j) (csum + j)
        = .ok ((List.range k).map fun i => csum + j + i) := by
  induction k with
  | zero => exact fun _ _ h => absurd h (Nat.lt_irrefl 0)
  | succ k ih =>
    intro j hj _
    have hj' : j < csumBlocks n := by omega
    have hv : 1020 * j < n := by
      simp only [csumBlocks] at hj'
      omega
    have hin : sumsIn n j ≤ 1020 ∧ 0 < sumsIn n j ∧ sumsIn n j ≤ n - 1020 * j := by
      simp only [sumsIn]
      omega
    have hnext : (if 1020 < n - 1020 * j then csum + j + 1 else 0) < 2 ^ 64 := by
      split <;> omega
    have hlink := sumsBlock_link (hchain j hj') hin.2.1 hin.1 hin.2.2 hnext hend
      fun i hi => hdata _ (by omega)
    obtain ⟨he, hn'⟩ := @sumsBlock_fields ((List.range (sumsIn n j)).map fun i =>
      crc32cData (toList (data (1020 * j + i)))) _ (by simp; omega) hnext
    simp only [List.length_map, List.length_range] at he
    refine (csumWalk_iff hv).mpr ⟨_, hlink, ?_⟩
    rw [he, hn', List.range_succ_eq_map, List.map_cons, List.map_map]
    cases k with
    | zero =>
      have hlast : n - 1020 * j ≤ 1020 := by
        simp only [csumBlocks] at hj
        omega
      refine Or.inr ⟨by simp only [sumsIn]; omega, if_neg (by omega), by simp⟩
    | succ k =>
      have hmore : 1020 < n - 1020 * j := by
        simp only [csumBlocks] at hj
        omega
      refine Or.inl ⟨by simp only [sumsIn]; omega, ?_, ?_, _, ?_, rfl⟩
      · rw [if_pos hmore]
        omega
      · rw [if_pos hmore]
        omega
      · rw [if_pos hmore, show 1020 * j + sumsIn n j = 1020 * (j + 1) by simp only [sumsIn]; omega,
          show csum + j + 1 = csum + (j + 1) by omega, ih (j + 1) (by omega) (by omega)]
        refine congrArg Except.ok (List.map_congr_left fun i _ => ?_)
        simp only [Function.comp_apply]
        omega

/-! ## 4. A file in one piece -/

/-- A file of `n` blocks as `rebalance` lays it out: extent node, data, checksum chain. -/
structure CompactFile (rd : Nat → Except Fail Block) (root n : Nat) (data : Nat → Block) :
    Prop where
  node : rd root = .ok (newExtents (root + 1) (root + 1 + n) n)
  body : ∀ i, i < n → rd (root + 1 + i) = .ok (data i)
  chain : ∀ j, j < csumBlocks n →
    rd (root + 1 + n + j) = .ok (chainBlock data n (root + 1 + n) j)

/-- The number of blocks it takes. -/
def span (n : Nat) : Nat := 1 + n + csumBlocks n

/-- The intervals it uses. -/
def compactUsed (root n : Nat) : List Interval :=
  ⟨root, 1⟩ :: ⟨root + 1, n⟩ :: (List.range (csumBlocks n)).map fun j => ⟨root + 1 + n + j, 1⟩

theorem compactUsed_tiles {n : Nat} (root : Nat) (hn : 0 < n) :
    Tiles root (root + span n) (compactUsed root n) := by
  refine ⟨rfl, Nat.one_pos, rfl, hn, ?_⟩
  rw [show root + span n = root + 1 + n + csumBlocks n by simp only [span]; omega]
  exact tiles_ones _ _

/-- **Scrub accepts it.** -/
theorem CompactFile.checkFile {root n : Nat} (h : CompactFile rd root n data) (hn : 0 < n)
    (h8 : 8 ≤ root) (hend : root + span n ≤ blocks) (hb : blocks < 2 ^ 64) {inode : Inode}
    (hroot : iExtentRoot inode = root) (hblocks : iBlocks inode = n)
    (hsize : ¬ badSize n (iSize inode)) :
    checkFile rd blocks inode = .ok (n, compactUsed root n) := by
  have hcs : 0 < csumBlocks n := by
    simp only [csumBlocks]
    omega
  simp only [span] at hend
  obtain ⟨e1, e2, e3, e4, e5, e6⟩ := @newExtents_fields (root + 1) (root + 1 + n) n (by omega)
    (by omega) (by omega)
  have hwalk : csumWalk rd blocks (root + 1) n 0 (root + 1 + n)
      = .ok ((List.range (csumBlocks n)).map fun i => root + 1 + n + i) :=
    csumWalk_chainBlock (by omega) (by omega) (by omega) hb h.body h.chain (csumBlocks n) 0
      (Nat.zero_add _) hcs
  have hnode := h.node
  have hsum : enChecksum (newExtents (root + 1) (root + 1 + n) n)
      = extentNodeChecksum (newExtents (root + 1) (root + 1 + n) n) := extentNode_sealed _
  generalize newExtents (root + 1) (root + 1 + n) n = node at hnode hsum e1 e2 e3 e4 e5 e6
  have hext : checkExtent rd blocks 0 (enExtent node 0)
      = .ok (⟨root + 1, n⟩ :: (List.range (csumBlocks n)).map fun j => ⟨root + 1 + n + j, 1⟩) := by
    refine checkExtent_iff.mpr ⟨⟨?_, e3, ?_, ?_, ?_, ?_⟩,
      (List.range (csumBlocks n)).map fun i => root + 1 + n + i, ?_, ?_⟩
    · rw [e6]
      exact hn
    · rw [e4]
      omega
    · rw [e4, e6]
      simp only [addU64]
      omega
    · rw [e5]
      omega
    · rw [e5]
      omega
    · rw [e4, e5, e6]
      exact hwalk
    · rw [e4, e6, List.map_map]
      rfl
  refine checkFile_iff.mpr ⟨by omega, by omega, node, _, readExtentNode_iff.mpr ⟨hroot ▸ hnode,
    hsum, by rw [e2]; norm_num⟩, e1, ?_, hblocks.symm, hsize, by rw [hroot, compactUsed]⟩
  rw [enExtents_one e2]
  refine walkExtents_cons_iff.mpr ⟨_, [], hext, ?_, by rw [List.append_nil]⟩
  rw [walkExtents, e6]
  simp only [addU64, Nat.zero_add]
  rw [Nat.mod_eq_of_lt (show n < 2 ^ 64 by omega)]

end Walk

end AetherFs
