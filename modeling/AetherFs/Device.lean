/-
# Members as devices

A pool member is an open file descriptor, and the tools only ever read and write whole blocks
of it.  `BlockDev` is that interface.  It has two instances.

* `ByteFile` is the real one: a file of bytes with a length, reached through `pread` and
  `pwrite` at the BYTE offset `block * 4096`, a product the source computes in 64 bits.  Two
  block numbers that agree modulo `2 ^ 52` therefore name the same bytes, and an offset that is
  negative as an `off_t` makes the system call fail.
* `BlockArray` is the idealisation in which a member is an array of blocks indexed by block
  number, and every transfer succeeds.

`LawfulBlockDev` is what the two have in common.  Its `slot` says which block numbers collide:
the block number itself for an array, its residue modulo `2 ^ 52` for a file.

A failure keeps its origin: `Fail.check` is a code the program returns on its own judgement,
`Fail.sys` is the `errno` of a system call that failed.
-/
import AetherFs.Format
import AetherFs.Lib.Run

namespace AetherFs

open Lib

/-! ## 1. Failures -/

/-- The error numbers the tools and the kernel module return; `EIOERR` is `EIO`. -/
inductive Errno
  | EBADE | EBADF | EEXIST | EILSEQ | EINTR | EINVAL | EIOERR | ENAMETOOLONG | ENOENT | ENOMEM
  | ENOSPC | ENOTDIR | EOPNOTSUPP | EPERM | ERANGE | EUCLEAN | EXDEV
deriving DecidableEq, Repr

/-- A negative return value, with where it came from. -/
inductive Fail
  | check (e : Errno)
  | sys (e : Errno)
deriving DecidableEq, Repr

/-- `if (p) return -e;`. -/
def failIf (p : Prop) [Decidable p] (e : Errno) : Except Fail Unit :=
  if p then .error (.check e) else .ok ()

@[simp] theorem failIf_eq_ok {p : Prop} [Decidable p] {e : Errno} {u : Unit} :
    failIf p e = .ok u ↔ ¬ p := by
  unfold failIf
  split <;> simp_all

theorem failIf_of_not {p : Prop} [Decidable p] {e : Errno} (h : ¬ p) :
    failIf p e = .ok () := failIf_eq_ok.mpr h

theorem failIf_of {p : Prop} [Decidable p] {e : Errno} (h : p) :
    failIf p e = .error (.check e) := by
  rw [failIf, if_pos h]

/-- Passing a check and going on is going on without the condition. -/
theorem failIf_bind_ok {p : Prop} [Decidable p] {e : Errno} {α : Type} {x : Except Fail α}
    {a : α} : (failIf p e >>= fun _ => x) = .ok a ↔ ¬ p ∧ x = .ok a := by
  rw [bind_eq_ok]
  constructor
  · rintro ⟨u, h1, h2⟩
    exact ⟨failIf_eq_ok.mp h1, h2⟩
  · rintro ⟨h1, h2⟩
    exact ⟨(), failIf_eq_ok.mpr h1, h2⟩

/-! ## 2. The interface -/

/-- Whole-block transfers.  A failed write returns the device as the failure leaves it. -/
class BlockDev (δ : Type) where
  read : δ → Nat → Except Fail Block
  write : δ → Nat → Block → Except Fail Unit × δ

/-- A device on which a successful write is seen by reads of the same slot, and by no others. -/
class LawfulBlockDev (δ : Type) [BlockDev δ] where
  slot : Nat → Nat
  read_write_self : ∀ {d d' : δ} {b b' : Nat} {buf : Block},
    BlockDev.write d b buf = (.ok (), d') → slot b' = slot b → BlockDev.read d' b' = .ok buf
  read_write_ne : ∀ {d d' : δ} {b b' : Nat} {buf x : Block},
    BlockDev.write d b buf = (.ok (), d') → slot b' ≠ slot b → BlockDev.read d b' = .ok x →
      BlockDev.read d' b' = .ok x

/-! ## 3. Arrays of blocks -/

/-- A member as an array of blocks addressed by block number. -/
abbrev BlockArray := Nat → Block

instance : BlockDev BlockArray where
  read a b := .ok (a b)
  write a b buf := (.ok (), Function.update a b buf)

instance : LawfulBlockDev BlockArray where
  slot := id
  read_write_self := by
    rintro a a' b b' buf h rfl
    rw [← (Prod.mk.inj h).2]
    exact congrArg Except.ok (Function.update_self _ _ _)
  read_write_ne := by
    intro a a' b b' buf x h hne hx
    rw [← (Prod.mk.inj h).2, ← hx]
    exact congrArg Except.ok (Function.update_of_ne hne _ _)

/-! ## 4. Files of bytes -/

/-- What `fstat` says a path is. -/
inductive FileKind
  | regular
  | blockDevice
  | other
deriving DecidableEq, Repr

/-- The contents of a file.  Sizes are `off_t`, hence below `2 ^ 63`; nothing is recorded past
the end, so that a hole reads as zeros when the file grows over it. -/
structure ByteFile where
  kind : FileKind
  size : Nat
  byte : Nat → UInt8
  size_lt : size < 2 ^ 63
  zero_past : ∀ i, size ≤ i → byte i = 0

theorem ByteFile.ext {f g : ByteFile} (hk : f.kind = g.kind) (hs : f.size = g.size)
    (hb : ∀ i, i < f.size → f.byte i = g.byte i) : f = g := by
  have hbyte : f.byte = g.byte := by
    funext i
    by_cases hi : i < f.size
    · exact hb i hi
    · rw [f.zero_past i (by omega), g.zero_past i (by omega)]
  cases f
  cases g
  simp_all

namespace ByteFile

/-- The block that lies at a byte offset. -/
def blockAt (f : ByteFile) (offset : Nat) : Block := fun i => f.byte (offset + i.val)

/-- Write one block at an offset into a file that then has `size` bytes. -/
def store (f : ByteFile) (offset : Nat) (buf : Block) (size : Nat) (hs : size < 2 ^ 63) :
    ByteFile where
  kind := f.kind
  size := size
  byte i := if i < size then
      (if offset ≤ i ∧ i < offset + 4096 then byteAt buf (i - offset) else f.byte i) else 0
  size_lt := hs
  zero_past _ hi := if_neg (Nat.not_lt.mpr hi)

theorem blockAt_store_self {f : ByteFile} {o size : Nat} (buf : Block) (hs : size < 2 ^ 63)
    (h : o + 4096 ≤ size) : (f.store o buf size hs).blockAt o = buf := by
  funext i
  have hi := i.isLt
  simp only [store, blockAt]
  rw [if_pos (by omega), if_pos (by omega), Nat.add_sub_cancel_left, byteAt_fin]

theorem blockAt_store_ne {f : ByteFile} {o o' size : Nat} (buf : Block) (hs : size < 2 ^ 63)
    (hsize : f.size ≤ size) (h : o' + 4096 ≤ o ∨ o + 4096 ≤ o') :
    (f.store o buf size hs).blockAt o' = f.blockAt o' := by
  funext i
  have hi := i.isLt
  simp only [store, blockAt]
  split
  · rw [if_neg (by omega)]
  · rw [f.zero_past _ (by omega)]

/-- `ftruncate`. -/
def truncate (f : ByteFile) (size : Nat) (hs : size < 2 ^ 63) : ByteFile where
  kind := f.kind
  size := size
  byte i := if i < size then f.byte i else 0
  size_lt := hs
  zero_past _ hi := if_neg (Nat.not_lt.mpr hi)

/-- The empty regular file, as `mkstemp` or `O_CREAT` leaves it. -/
def empty : ByteFile where
  kind := .regular
  size := 0
  byte _ := 0
  size_lt := by norm_num
  zero_past _ _ := rfl

/-- A regular file of zeros. -/
def zeroed (size : Nat) (hs : size < 2 ^ 63) : ByteFile := empty.truncate size hs

theorem sixteenBlocks_lt : 65536 < 2 ^ 63 := by norm_num

theorem blockAt_zeroed {size : Nat} (hs : size < 2 ^ 63) (offset : Nat) :
    (zeroed size hs).blockAt offset = zeros 4096 := by
  funext i
  simp [zeroed, truncate, empty, blockAt, zeros]

/-- The regular file that holds the blocks `c 0`, ..., `c (n - 1)`. -/
def ofBlocks (n : Nat) (c : Nat → Block) (hn : n < 2 ^ 51) : ByteFile where
  kind := .regular
  size := n * 4096
  byte i := if i < n * 4096 then byteAt (c (i / 4096)) (i % 4096) else 0
  size_lt := by omega
  zero_past _ hi := if_neg (Nat.not_lt.mpr hi)

theorem blockAt_ofBlocks {n k : Nat} (c : Nat → Block) (hn : n < 2 ^ 51) (hk : k < n) :
    (ofBlocks n c hn).blockAt (k * 4096) = c k := by
  funext i
  have hi := i.isLt
  simp only [ofBlocks, blockAt]
  rw [if_pos (by omega), show (k * 4096 + i.val) / 4096 = k by omega,
    show (k * 4096 + i.val) % 4096 = i.val by omega, byteAt_fin]

/-- `aetherfs_read_all` of one block.  An offset whose end is not an `off_t` is refused by the
system call; a read that meets the end of the file is the program's own `-EIO`. -/
def readAll (f : ByteFile) (offset : Nat) : Except Fail Block :=
  if 2 ^ 63 ≤ offset + 4096 then .error (.sys .EINVAL)
  else if f.size < offset + 4096 then .error (.check .EIOERR)
  else .ok (f.blockAt offset)

/-- `aetherfs_write_all` of one block.  A regular file grows; a block device has the size it
has, and takes what fits before it reports `ENOSPC`. -/
def writeAll (f : ByteFile) (offset : Nat) (buf : Block) : Except Fail Unit × ByteFile :=
  if h : 2 ^ 63 ≤ offset + 4096 then (.error (.sys .EINVAL), f)
  else if f.kind = .blockDevice ∧ f.size < offset + 4096 then
    (.error (.sys .ENOSPC), f.store offset buf f.size f.size_lt)
  else
    (.ok (), f.store offset buf (max f.size (offset + 4096))
      (Nat.max_lt.mpr ⟨f.size_lt, Nat.not_le.mp h⟩))

/-- The byte offset of a block: `block * AETHERFS_DEF_BLOCK_SIZE` in 64 bits. -/
def offsetOf (block : Nat) : Nat := mulU64 block defBlockSize

theorem offsetOf_eq (b : Nat) : offsetOf b = b % 2 ^ 52 * 4096 := by
  have : (2 : Nat) ^ 64 = 2 ^ 52 * 4096 := by norm_num
  rw [offsetOf, mulU64, defBlockSize, this, Nat.mul_mod_mul_right]

theorem offsetOf_of_lt {b : Nat} (h : b < 2 ^ 52) : offsetOf b = b * 4096 := by
  rw [offsetOf_eq, Nat.mod_eq_of_lt h]

theorem readAll_eq_ok {f : ByteFile} {o : Nat} {x : Block} :
    f.readAll o = .ok x ↔ o + 4096 ≤ f.size ∧ x = f.blockAt o := by
  have := f.size_lt
  unfold readAll
  split
  · constructor
    · intro h; exact absurd h (by simp)
    · rintro ⟨h, -⟩; omega
  · split
    · constructor
      · intro h; exact absurd h (by simp)
      · rintro ⟨h, -⟩; omega
    · rw [Except.ok.injEq, eq_comm]
      exact ⟨fun h => ⟨by omega, h⟩, fun h => h.2⟩

theorem writeAll_eq_ok {f f' : ByteFile} {o : Nat} {buf : Block}
    (h : f.writeAll o buf = (.ok (), f')) :
    o + 4096 < 2 ^ 63 ∧ f'.kind = f.kind ∧ f'.size = max f.size (o + 4096) ∧
      ∀ i, f'.byte i = if o ≤ i ∧ i < o + 4096 then byteAt buf (i - o) else f.byte i := by
  unfold writeAll at h
  split at h
  · exact absurd h (by simp)
  · split at h
    · exact absurd h (by simp)
    · obtain ⟨-, rfl⟩ := Prod.mk.inj h
      refine ⟨by omega, rfl, rfl, fun i => ?_⟩
      simp only [store]
      split
      · rfl
      · rename_i hi
        rw [if_neg (by omega), f.zero_past i (by omega)]

/-- A write to a file that can grow fails only where the offset is no `off_t`. -/
theorem writeAll_total {f : ByteFile} (hk : f.kind = .regular) {o : Nat} (ho : o + 4096 < 2 ^ 63)
    (buf : Block) : ∃ f', f.writeAll o buf = (.ok (), f') := by
  refine ⟨_, (dif_neg (Nat.not_le.mpr ho)).trans (if_neg ?_)⟩
  rw [hk]
  simp

theorem blockAt_write_self {f f' : ByteFile} {o : Nat} {buf : Block}
    (h : f.writeAll o buf = (.ok (), f')) : f'.blockAt o = buf := by
  obtain ⟨-, -, -, hb⟩ := writeAll_eq_ok h
  funext i
  have hi := i.isLt
  rw [blockAt, hb, if_pos (by omega), Nat.add_sub_cancel_left, byteAt_fin]

theorem blockAt_write_ne {f f' : ByteFile} {o o' : Nat} {buf : Block}
    (h : f.writeAll o buf = (.ok (), f')) (hne : o' + 4096 ≤ o ∨ o + 4096 ≤ o') :
    f'.blockAt o' = f.blockAt o' := by
  obtain ⟨-, -, -, hb⟩ := writeAll_eq_ok h
  funext i
  have hi := i.isLt
  rw [blockAt, blockAt, hb, if_neg (by omega)]

/-- The file as a sequence of blocks; what lies past its end is zero. -/
def blocksOf (f : ByteFile) (k : Nat) : Block := f.blockAt (k * 4096)

theorem ext_blocks {f g : ByteFile} (hk : f.kind = g.kind) (hs : f.size = g.size)
    (hb : f.blocksOf = g.blocksOf) : f = g := by
  refine ByteFile.ext hk hs fun i _ => ?_
  have h := congrFun (congrFun hb (i / 4096)) ⟨i % 4096, Nat.mod_lt _ (by norm_num)⟩
  simp only [blocksOf, blockAt] at h
  rwa [Nat.div_add_mod'] at h

/-- **A write replaces one block.** -/
theorem writeAll_blocks {f f' : ByteFile} {b : Nat} {buf : Block}
    (h : f.writeAll (b * 4096) buf = (.ok (), f')) :
    f'.kind = f.kind ∧ f'.size = max f.size (b * 4096 + 4096) ∧
      f'.blocksOf = Function.update f.blocksOf b buf := by
  obtain ⟨-, hk, hs, -⟩ := writeAll_eq_ok h
  refine ⟨hk, hs, funext fun k => ?_⟩
  by_cases hkb : k = b
  · rw [hkb, Function.update_self, blocksOf, blockAt_write_self h]
  · rw [Function.update_of_ne hkb, blocksOf, blockAt_write_ne h (by omega), blocksOf]

end ByteFile

/-- `aetherfs_member_read_block` and `aetherfs_member_write_block` on an open descriptor. -/
instance : BlockDev ByteFile where
  read f block := f.readAll (ByteFile.offsetOf block)
  write f block buf := f.writeAll (ByteFile.offsetOf block) buf

theorem ByteFile.read_def (f : ByteFile) (block : Nat) :
    BlockDev.read f block = f.readAll (ByteFile.offsetOf block) := rfl

theorem ByteFile.write_def (f : ByteFile) (block : Nat) (buf : Block) :
    BlockDev.write f block buf = f.writeAll (ByteFile.offsetOf block) buf := rfl

instance : LawfulBlockDev ByteFile where
  slot b := b % 2 ^ 52
  read_write_self := by
    intro f f' b b' buf h heq
    have h' : f.writeAll (ByteFile.offsetOf b) buf = (.ok (), f') := h
    have hoff : ByteFile.offsetOf b' = ByteFile.offsetOf b := by
      rw [ByteFile.offsetOf_eq, ByteFile.offsetOf_eq, heq]
    obtain ⟨-, -, hs, -⟩ := ByteFile.writeAll_eq_ok h'
    refine ByteFile.readAll_eq_ok.mpr ⟨?_, ?_⟩
    · rw [hs, hoff]; exact Nat.le_max_right _ _
    · rw [hoff, ByteFile.blockAt_write_self h']
  read_write_ne := by
    intro f f' b b' buf x h hne hx
    have h' : f.writeAll (ByteFile.offsetOf b) buf = (.ok (), f') := h
    have hx' : f.readAll (ByteFile.offsetOf b') = .ok x := hx
    obtain ⟨hin, rfl⟩ := ByteFile.readAll_eq_ok.mp hx'
    obtain ⟨-, -, hs, -⟩ := ByteFile.writeAll_eq_ok h'
    refine ByteFile.readAll_eq_ok.mpr ⟨?_, (ByteFile.blockAt_write_ne h' ?_).symm⟩
    · rw [hs]; exact Nat.le_trans hin (Nat.le_max_left _ _)
    · rw [ByteFile.offsetOf_eq, ByteFile.offsetOf_eq]
      omega

end AetherFs
