/-
# Two declarations of one structure

`mkfs` lays the superblock down from the packed `struct aetherfs_super` of the shared format
header; the kernel module reads it through the `struct aetherfs_super` of `kernel/aetherfs.h`,
which is not packed and has one member more.  The first three members agree.  From the fourth on
every offset differs: by the four bytes of padding in front of `s_blocks_count`, then by the
extra `s_first_data_block` as well.  `kernel_reads` says what the kernel finds in each place, in
terms of the value that was laid down.

`struct aetherfs_extent` is worse off: the two declarations have the members in another order,
with other widths, and the format's has two members the kernel's has not.

Both structures are declared as lists here and laid out by the rules of the C ABI; no offset is
written down by hand.  That the packed offsets are the ones the rest of this development reads at
is `formatSuper_accessors`.
-/
import AetherFs.Format
import AetherFs.Lib.Layout

namespace AetherFs

open Lib

/-! ## 1. The superblock -/

/-- The members of `struct aetherfs_super`, in either header. -/
inductive SuperField
  | magic | version | blocksize | blocksCount | freeBlocks | blocksPerAg | agCount | deviceCount
  | firstDataBlock | mode | features | checksum | uuid | checkpointNum | checkpointMask
  | checkpoint | journalAddr | rootInode | generation | inodesCount | metaTree | extentTree
  | freeTree | snapTree | scrubJournal | healthJournal | reserved2
deriving DecidableEq, Repr

/-- `struct aetherfs_super` of `aetherfs_format.h`. -/
def formatSuperDecl : Decl SuperField :=
  [(.magic, .u32), (.version, .u32), (.blocksize, .u32), (.blocksCount, .u64),
    (.freeBlocks, .u64), (.blocksPerAg, .u32), (.agCount, .u32), (.deviceCount, .u32),
    (.mode, .u16), (.features, .u16), (.checksum, .u32), (.uuid, CType.u8.array 16),
    (.checkpointNum, .u32), (.checkpointMask, .u32), (.checkpoint, CType.u64.array 8),
    (.journalAddr, .u64), (.rootInode, .u64), (.generation, .u32), (.inodesCount, .u32),
    (.metaTree, .u64), (.extentTree, .u64), (.freeTree, .u64), (.snapTree, .u64),
    (.scrubJournal, .u64), (.healthJournal, .u64), (.reserved2, CType.u64.array 6)]

/-- `struct aetherfs_super` of `kernel/aetherfs.h`. -/
def kernelSuperDecl : Decl SuperField :=
  [(.magic, .u32), (.version, .u32), (.blocksize, .u32), (.blocksCount, .u64),
    (.freeBlocks, .u64), (.blocksPerAg, .u32), (.agCount, .u32), (.deviceCount, .u32),
    (.firstDataBlock, .u32), (.mode, .u16), (.features, .u16), (.checksum, .u32),
    (.uuid, CType.u8.array 16), (.checkpointNum, .u32), (.checkpointMask, .u32),
    (.checkpoint, CType.u64.array 8), (.journalAddr, .u64), (.rootInode, .u64),
    (.generation, .u32), (.inodesCount, .u32), (.metaTree, .u64), (.extentTree, .u64),
    (.freeTree, .u64), (.snapTree, .u64), (.scrubJournal, .u64), (.healthJournal, .u64),
    (.reserved2, CType.u64.array 6)]

def formatSuper : List (Slot SuperField) := packed formatSuperDecl

def kernelSuper : List (Slot SuperField) := natural kernelSuperDecl

/-- The packed declaration is the one this development reads by. -/
theorem formatSuper_accessors (s : Super) :
    decode formatSuper (byteAt s) .magic = sMagic s ∧
      decode formatSuper (byteAt s) .version = sVersion s ∧
      decode formatSuper (byteAt s) .blocksize = sBlocksize s ∧
      decode formatSuper (byteAt s) .blocksCount = sBlocksCount s ∧
      decode formatSuper (byteAt s) .freeBlocks = sFreeBlocks s ∧
      decode formatSuper (byteAt s) .rootInode = sRootInode s ∧
      decode formatSuper (byteAt s) .checksum = sChecksum s :=
  ⟨rfl, rfl, rfl, rfl, rfl, rfl, rfl⟩

section Reads

variable (v : Value formatSuperDecl)

theorem read_within {f : SuperField} {off size : Nat} (k w : Nat)
    (hs : Slot.mk f off size ∈ formatSuper) (h : k + w ≤ size) :
    getLE (encode formatSuper v.get) (off + k) w = v.get f / 256 ^ k % 256 ^ w :=
  getLE_encode (packed_ordered _) hs h v.get

/-- **What the kernel finds** in a superblock that was laid down packed. -/
theorem kernel_reads :
    let m := encode formatSuper v.get
    decode kernelSuper m .magic = v.get .magic ∧
      decode kernelSuper m .version = v.get .version ∧
      decode kernelSuper m .blocksize = v.get .blocksize ∧
      decode kernelSuper m .blocksCount
        = v.get .blocksCount / 2 ^ 32 + 2 ^ 32 * (v.get .freeBlocks % 2 ^ 32) ∧
      decode kernelSuper m .freeBlocks
        = v.get .freeBlocks / 2 ^ 32 + 2 ^ 32 * v.get .blocksPerAg ∧
      decode kernelSuper m .rootInode = v.get .generation + 2 ^ 32 * v.get .inodesCount ∧
      decode kernelSuper m .checksum = v.get .uuid / 2 ^ 32 % 2 ^ 32 := by
  intro m
  have hL : Ordered formatSuper := packed_ordered _
  have hblocks : v.get .blocksCount < 256 ^ 8 := v.fits (.blocksCount, .u64) (by decide)
  have hfree : v.get .freeBlocks < 256 ^ 8 := v.fits (.freeBlocks, .u64) (by decide)
  -- the two halves of each wide read, in the members they fall into
  have b4 : getLE m 16 4 = v.get .blocksCount / 256 ^ 4 % 256 ^ 4 :=
    @read_within v .blocksCount 12 8 4 4 (by decide) (by decide)
  have f0 : getLE m (16 + 4) 4 = v.get .freeBlocks / 256 ^ 0 % 256 ^ 4 :=
    @read_within v .freeBlocks 20 8 0 4 (by decide) (by decide)
  have f4 : getLE m 24 4 = v.get .freeBlocks / 256 ^ 4 % 256 ^ 4 :=
    @read_within v .freeBlocks 20 8 4 4 (by decide) (by decide)
  have ag : getLE m (24 + 4) 4 = v.get .blocksPerAg :=
    v.read hL .blocksPerAg 28 .u32 (by decide) (by decide)
  have gen : getLE m 152 4 = v.get .generation :=
    v.read hL .generation 152 .u32 (by decide) (by decide)
  have ino : getLE m (152 + 4) 4 = v.get .inodesCount :=
    v.read hL .inodesCount 156 .u32 (by decide) (by decide)
  have id4 : getLE m 52 4 = v.get .uuid / 256 ^ 4 % 256 ^ 4 :=
    @read_within v .uuid 48 16 4 4 (by decide) (by decide)
  refine ⟨v.read hL .magic 0 .u32 (by decide) (by decide),
    v.read hL .version 4 .u32 (by decide) (by decide),
    v.read hL .blocksize 8 .u32 (by decide) (by decide), ?_, ?_, ?_, id4⟩
  · change getLE m 16 (4 + 4) = _
    rw [getLE_split, b4, f0]
    omega
  · change getLE m 24 (4 + 4) = _
    rw [getLE_split, f4, ag]
    omega
  · change getLE m 152 (4 + 4) = _
    rw [getLE_split, gen, ino]
    norm_num

end Reads

/-! ## 2. Extents -/

/-- The members of `struct aetherfs_extent`, in either header. -/
inductive ExtentField
  | lstart | pstart | csumStart | len | flags | reserved
deriving DecidableEq, Repr

/-- `struct aetherfs_extent` of `aetherfs_format.h`. -/
def formatExtentDecl : Decl ExtentField :=
  [(.lstart, .u64), (.pstart, .u64), (.csumStart, .u64), (.len, .u64), (.flags, .u32),
    (.reserved, .u32)]

/-- `struct aetherfs_extent` of `kernel/aetherfs.h`. -/
def kernelExtentDecl : Decl ExtentField :=
  [(.pstart, .u64), (.lstart, .u64), (.len, .u32), (.flags, .u32)]

def formatExtent : List (Slot ExtentField) := packed formatExtentDecl

def kernelExtent : List (Slot ExtentField) := natural kernelExtentDecl

theorem formatExtent_accessors (e : Extent) :
    decode formatExtent (byteAt e) .lstart = eLstart e ∧
      decode formatExtent (byteAt e) .pstart = ePstart e ∧
      decode formatExtent (byteAt e) .csumStart = eCsumStart e ∧
      decode formatExtent (byteAt e) .len = eLen e :=
  ⟨rfl, rfl, rfl, rfl⟩

/-- **A format extent, read by the kernel**: the two starts are exchanged, and the length is the
low half of the checksum pointer. -/
theorem kernel_reads_extent (v : Value formatExtentDecl) :
    decode kernelExtent (encode formatExtent v.get) .lstart = v.get .pstart ∧
      decode kernelExtent (encode formatExtent v.get) .pstart = v.get .lstart ∧
      decode kernelExtent (encode formatExtent v.get) .len = v.get .csumStart % 2 ^ 32 := by
  have hL : Ordered formatExtent := packed_ordered _
  refine ⟨v.read hL .pstart 8 .u64 (by decide) (by decide),
    v.read hL .lstart 0 .u64 (by decide) (by decide), ?_⟩
  have := @getLE_encode _ _ hL ⟨.csumStart, 16, 8⟩ (by decide) 0 4 (by decide) v.get
  rwa [Nat.pow_zero, Nat.div_one] at this

/-- A kernel extent in memory: its twenty-four bytes, and what lies behind it. -/
def kernelExtentAt (v : ExtentField → Nat) (behind : Nat → UInt8) (x : Nat) : UInt8 :=
  if x < naturalSize kernelExtentDecl then encode kernelExtent v x
  else behind (x - naturalSize kernelExtentDecl)

/-- **A kernel extent, read by the tools**: the starts are exchanged, and the length lies behind
the extent. -/
theorem format_reads_extent (v : Value kernelExtentDecl) (behind : Nat → UInt8) :
    decode formatExtent (kernelExtentAt v.get behind) .lstart = v.get .pstart ∧
      decode formatExtent (kernelExtentAt v.get behind) .pstart = v.get .lstart ∧
      decode formatExtent (kernelExtentAt v.get behind) .len = getLE behind 0 8 := by
  have hsize : naturalSize kernelExtentDecl = 24 := by decide
  have hL : Ordered kernelExtent := natural_ordered (by decide)
  have hinside : ∀ {off w}, off + w ≤ 24 → getLE (kernelExtentAt v.get behind) off w
      = getLE (encode kernelExtent v.get) off w := fun h =>
    getLE_congr fun i _ hi => if_pos (by rw [hsize]; omega)
  refine ⟨(hinside (by decide)).trans (v.read hL .pstart 0 .u64 (by decide) (by decide)),
    (hinside (by decide)).trans (v.read hL .lstart 8 .u64 (by decide) (by decide)), ?_⟩
  change getLE (kernelExtentAt v.get behind) (24 + 0) 8 = _
  rw [getLE_shift]
  refine getLE_congr fun i _ _ => ?_
  rw [kernelExtentAt, hsize, if_neg (by omega), Nat.add_sub_cancel_left]

/-! ## 3. When the two agree -/

/-- The members both sides use to find their way. -/
def geometryFields : List SuperField :=
  [.magic, .version, .blocksize, .blocksCount, .freeBlocks, .rootInode, .checksum]

def placementFields : List ExtentField := [.lstart, .pstart, .len]

/-- What the tools read back is what was laid down. -/
theorem format_reads (v : Value formatSuperDecl) :
    ∀ f ∈ geometryFields, decode formatSuper (encode formatSuper v.get) f = v.get f := by
  have hL : Ordered formatSuper := packed_ordered _
  simp only [geometryFields, List.forall_mem_cons, List.not_mem_nil, false_implies, implies_true,
    and_true]
  exact ⟨v.decode_encode hL .magic 0 .u32 (by decide) (by decide),
    v.decode_encode hL .version 4 .u32 (by decide) (by decide),
    v.decode_encode hL .blocksize 8 .u32 (by decide) (by decide),
    v.decode_encode hL .blocksCount 12 .u64 (by decide) (by decide),
    v.decode_encode hL .freeBlocks 20 .u64 (by decide) (by decide),
    v.decode_encode hL .rootInode 144 .u64 (by decide) (by decide),
    v.decode_encode hL .checksum 44 .u32 (by decide) (by decide)⟩

/-- **When formatter and kernel agree.** -/
theorem layouts_agree_iff (v : Value formatSuperDecl) (e : Value formatExtentDecl)
    (k : Value kernelExtentDecl) (behind : Nat → UInt8) :
    ((∀ f ∈ geometryFields, decode kernelSuper (encode formatSuper v.get) f
        = decode formatSuper (encode formatSuper v.get) f) ↔
      v.get .blocksCount / 2 ^ 32 + 2 ^ 32 * (v.get .freeBlocks % 2 ^ 32) = v.get .blocksCount ∧
      v.get .freeBlocks / 2 ^ 32 + 2 ^ 32 * v.get .blocksPerAg = v.get .freeBlocks ∧
      v.get .generation + 2 ^ 32 * v.get .inodesCount = v.get .rootInode ∧
      v.get .uuid / 2 ^ 32 % 2 ^ 32 = v.get .checksum) ∧
    ((∀ f ∈ placementFields, decode kernelExtent (encode formatExtent e.get) f = e.get f) ↔
      e.get .pstart = e.get .lstart ∧ e.get .csumStart % 2 ^ 32 = e.get .len) ∧
    ((∀ f ∈ placementFields, decode formatExtent (kernelExtentAt k.get behind) f = k.get f) ↔
      k.get .pstart = k.get .lstart ∧ getLE behind 0 8 = k.get .len) := by
  refine ⟨?_, ?_, ?_⟩
  · obtain ⟨h1, h2, h3, h4, h5, h6, h7⟩ := kernel_reads v
    have hback := format_reads v
    simp only [geometryFields, List.forall_mem_cons, List.not_mem_nil, false_implies,
      implies_true, and_true] at hback ⊢
    obtain ⟨b1, b2, b3, b4, b5, b6, b7⟩ := hback
    rw [h1, h2, h3, h4, h5, h6, h7, b1, b2, b3, b4, b5, b6, b7]
    simp only [true_and]
  · obtain ⟨h1, h2, h3⟩ := kernel_reads_extent e
    simp only [placementFields, List.forall_mem_cons, List.not_mem_nil, false_implies,
      implies_true, and_true]
    rw [h1, h2, h3]
    exact ⟨fun h => ⟨h.1, h.2.2⟩, fun h => ⟨h.1, h.1.symm, h.2⟩⟩
  · obtain ⟨h1, h2, h3⟩ := format_reads_extent k behind
    simp only [placementFields, List.forall_mem_cons, List.not_mem_nil, false_implies,
      implies_true, and_true]
    rw [h1, h2, h3]
    exact ⟨fun h => ⟨h.1, h.2.2⟩, fun h => ⟨h.1, h.1.symm, h.2⟩⟩

/-- A superblock of sixteen blocks, eight of them free. -/
def smallSuper : Value formatSuperDecl where
  get
    | .blocksCount => 16
    | .freeBlocks => 8
    | _ => 0
  fits := by decide

/-- The first block of a file, in block nine, with its checksums in block ten. -/
def firstExtent : Value formatExtentDecl where
  get
    | .pstart => 9
    | .csumStart => 10
    | .len => 1
    | _ => 0
  fits := by decide

/-- **The kernel misreads both**: the sixteen blocks become `8 * 2 ^ 32`, and the extent maps block
nine of the file to block zero, for ten blocks. -/
theorem smallSuper_misread :
    decode kernelSuper (encode formatSuper smallSuper.get) .blocksCount = 34359738368 ∧
      decode formatSuper (encode formatSuper smallSuper.get) .blocksCount = 16 ∧
      decode kernelExtent (encode formatExtent firstExtent.get) .lstart = 9 ∧
      decode kernelExtent (encode formatExtent firstExtent.get) .pstart = 0 ∧
      decode kernelExtent (encode formatExtent firstExtent.get) .len = 10 := by
  obtain ⟨-, -, -, hblocks, -⟩ := kernel_reads smallSuper
  obtain ⟨h1, h2, h3⟩ := kernel_reads_extent firstExtent
  exact ⟨hblocks, format_reads smallSuper .blocksCount (by decide), h1, h2, h3⟩

end AetherFs
