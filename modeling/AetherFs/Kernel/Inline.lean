/-
# Files inside the inode's block

`inline.c` and `dense.c` keep small files in the inode's own block, behind the fields of
`struct aetherfs_inode`; `dense.c` keeps a packed attribute there too.  Nobody divides the block.

* The array `i_inline` begins at byte 144, so 3952 bytes of it are in a block of 4096.  The writers
  accept 3996 and 4096 bytes, and one of them adds a checksum (`within_inlineStores`,
  `within_inlineFileStores`).
* The readers ask the flag of the inode IN MEMORY, which the writers do not set.
* `aetherfs_read_inline` raises a size that is too small instead of refusing it, and copies more
  than there is room for.
* The attribute's record is put at byte 128, inside `i_data`, and goes on into `i_inline`.  The two
  writers leave each other alone exactly when what the one writes is there already
  (`RecordThere`), and what both write is the same (`OverlapAgrees`).
-/
import AetherFs.Kernel.Dense

namespace AetherFs

open Lib

/-! ## 1. The block -/

/-- `struct aetherfs_inode` of `kernel/aetherfs.h`, to its end. -/
inductive InodeBlockField
  | head (f : InodeField) | inlineLen | dataGen | data | inline
deriving DecidableEq

def inodeBlockDecl : Decl InodeBlockField :=
  (kernelInodeDecl.map fun d => (.head d.1, d.2)) ++
    [(.inlineLen, .u32), (.dataGen, .u64), (.data, CType.u8.array 24),
      (.inline, CType.u8.array (4096 - 100))]

/-- `i_flags`. -/
abbrev flagsAt : Nat := 68
/-- `i_checksum`. -/
abbrev checksumAt : Nat := 104
/-- `i_inline_len`. -/
abbrev inlineLenAt : Nat := 108
/-- `i_inline`; `i_data` is in the 24 bytes in front of it. -/
abbrev inlineAt : Nat := 144

example : offsetOf (natural inodeBlockDecl) (.head .flags) = flagsAt ∧
    offsetOf (natural inodeBlockDecl) (.head .checksum) = checksumAt ∧
    offsetOf (natural inodeBlockDecl) .inlineLen = inlineLenAt ∧
    offsetOf (natural inodeBlockDecl) .inline = inlineAt := by decide

/-- `AETHERFS_F_INLINE`. -/
def inlineFlag : Nat := 0x80

/-- A block, with the places that have been stored to: where, and how many bytes. -/
structure Stores where
  start : Memory
  mem : Memory
  places : List (Nat × Nat)
  /-- Everywhere else the block is as it was. -/
  frame : ∀ a, (∀ p ∈ places, a < p.1 ∨ p.1 + p.2 ≤ a) → mem a = start a

namespace Stores

/-- The block as it was read. -/
def read (bh : Memory) : Stores := ⟨bh, bh, [], fun _ _ => rfl⟩

/-- A field is stored. -/
def le (s : Stores) (off w v : Nat) : Stores :=
  ⟨s.start, setLE s.mem off w v, s.places ++ [(off, w)], fun a ha => by
    rw [setLE_of_out s.mem v (ha (off, w) (by simp))]
    exact s.frame a fun p hp => ha p (List.mem_append_left _ hp)⟩

/-- `memcpy`. -/
def bytes (s : Stores) (off : Nat) (l : List UInt8) : Stores :=
  ⟨s.start, setBytes s.mem off l, s.places ++ [(off, l.length)], fun a ha => by
    rw [setBytes_of_out s.mem (ha (off, l.length) (by simp))]
    exact s.frame a fun p hp => ha p (List.mem_append_left _ hp)⟩

/-- Every byte that is stored is one of the first `n`. -/
def Within (n : Nat) (s : Stores) : Prop := ∀ p ∈ s.places, p.1 + p.2 ≤ n

end Stores

/-! ## 2. The source -/

/-- The sum of the data of an inline file. -/
def inlineSum (data : List UInt8) : Nat := (kernelCrc32c 0xFFFFFFFF#32 data).toNat

/-- What `aetherfs_write_inline` stores in the block.  The inode's sum is
`aetherfs_checksum_metadata`. -/
def inlineStores (bh : Memory) (data : List UInt8) : Stores :=
  let s := (Stores.read bh).le inlineLenAt 4 data.length
  let s := s.le flagsAt 4 (getLE s.mem flagsAt 4 ||| inlineFlag)
  let s := s.bytes inlineAt data
  s.le checksumAt 4 (hashed s.mem 0 (kernelInodeSize - 4))

/-- `aetherfs_write_inline`; `bh` is the answer of `sb_bread`. -/
def writeInline (bh : Option Memory) (data : List UInt8) : Except Errno Stores :=
  if data.length > 4096 - 100 then .error .ENOSPC
  else match bh with
    | none => .error .EIOERR
    | some bh => .ok (inlineStores bh data)

/-- `aetherfs_read_inline`: what it returns, and what it copies to the caller's buffer.  `flags` is
`i_flags` of the inode in memory. -/
def readInline (flags : Nat) (bh : Option Memory) (size : Nat) : Except Errno (Int × List UInt8) :=
  if flags &&& inlineFlag = 0 then .error .EINVAL
  else match bh with
    | none => .error .EIOERR
    | some bh =>
      let inlineLen := getLE bh inlineLenAt 4
      if inlineLen > 4096 - 100 then .error .EIOERR
      else
        let size := if size < inlineLen then inlineLen else size
        .ok ((BitVec.ofNat 32 size).toInt, bytesFrom bh inlineAt size)

/-- What `aetherfs_write_inline_file` stores in the block. -/
def inlineFileStores (bh : Memory) (data : List UInt8) : Stores :=
  let s := (Stores.read bh).le flagsAt 4 (getLE bh flagsAt 4 ||| inlineFlag)
  let s := s.le inlineLenAt 4 data.length
  let s := s.bytes inlineAt data
  s.le (inlineAt + data.length) 4 (inlineSum data)

/-- `aetherfs_write_inline_file`. -/
def writeInlineFile (bh : Option Memory) (data : List UInt8) : Except Errno Stores :=
  if data.length > 4096 then .error .EINVAL
  else match bh with
    | none => .error .EIOERR
    | some bh => .ok (inlineFileStores bh data)

/-- `aetherfs_read_inline_file`: the data, of the length it stores in `*size`. -/
def readInlineFile (flags : Nat) (bh : Option Memory) : Except Errno (List UInt8) :=
  if flags &&& inlineFlag = 0 then .error .EINVAL
  else match bh with
    | none => .error .EIOERR
    | some bh =>
      let inlineLen := getLE bh inlineLenAt 4
      if inlineLen > 4096 then .error .EIOERR
      else
        let data := bytesFrom bh inlineAt inlineLen
        if getLE bh (inlineAt + inlineLen) 4 ≠ inlineSum data then .error .EUCLEAN
        else .ok data

/-! ## 3. Reading back -/

section RoundTrip

variable {flags size : Nat} {bh : Memory} {data : List UInt8} {s : Stores}

theorem writeInline_eq_ok : writeInline (some bh) data = .ok s ↔
    data.length ≤ 3996 ∧ s = inlineStores bh data := by
  unfold writeInline
  rw [ite_error_eq_ok, Nat.not_lt, Except.ok.injEq]
  exact and_congr_right fun _ => eq_comm

theorem writeInlineFile_eq_ok : writeInlineFile (some bh) data = .ok s ↔
    data.length ≤ 4096 ∧ s = inlineFileStores bh data := by
  unfold writeInlineFile
  rw [ite_error_eq_ok, Nat.not_lt, Except.ok.injEq]
  exact and_congr_right fun _ => eq_comm

/-- What is copied to the caller: the LARGER of the two sizes. -/
theorem readInline_eq_ok {r : Int} {l : List UInt8} : readInline flags (some bh) size = .ok (r, l) ↔
    flags &&& inlineFlag ≠ 0 ∧ getLE bh inlineLenAt 4 ≤ 3996 ∧
      r = (BitVec.ofNat 32 (max size (getLE bh inlineLenAt 4))).toInt ∧
      l = bytesFrom bh inlineAt (max size (getLE bh inlineLenAt 4)) := by
  have hmax : (if size < getLE bh inlineLenAt 4 then getLE bh inlineLenAt 4 else size)
      = max size (getLE bh inlineLenAt 4) := by
    split <;> omega
  unfold readInline
  rw [ite_error_eq_ok, ite_error_eq_ok, Nat.not_lt, hmax, Except.ok.injEq, Prod.mk.injEq,
    eq_comm (b := r), eq_comm (b := l)]

theorem readInlineFile_eq_ok {l : List UInt8} : readInlineFile flags (some bh) = .ok l ↔
    flags &&& inlineFlag ≠ 0 ∧ getLE bh inlineLenAt 4 ≤ 4096 ∧
      getLE bh (inlineAt + getLE bh inlineLenAt 4) 4
        = inlineSum (bytesFrom bh inlineAt (getLE bh inlineLenAt 4)) ∧
      l = bytesFrom bh inlineAt (getLE bh inlineLenAt 4) := by
  unfold readInlineFile
  rw [ite_error_eq_ok, ite_error_eq_ok, ite_error_eq_ok, Nat.not_lt, not_not, Except.ok.injEq,
    eq_comm (b := l)]

theorem within_inlineStores : (inlineStores bh data).Within 4096 ↔ data.length ≤ 3952 := by
  have hplaces : (inlineStores bh data).places
      = [(108, 4), (68, 4), (144, data.length), (104, 4)] := rfl
  rw [Stores.Within, hplaces]
  simp only [List.mem_cons, forall_eq_or_imp, List.not_mem_nil, IsEmpty.forall_iff, implies_true, and_true]
  omega

theorem within_inlineFileStores : (inlineFileStores bh data).Within 4096 ↔ data.length ≤ 3948 := by
  have hplaces : (inlineFileStores bh data).places
      = [(68, 4), (108, 4), (144, data.length), (144 + data.length, 4)] := rfl
  rw [Stores.Within, hplaces]
  simp only [List.mem_cons, forall_eq_or_imp, List.not_mem_nil, IsEmpty.forall_iff, implies_true, and_true]
  omega

theorem inlineStores_fields (h : data.length < 2 ^ 32) :
    getLE (inlineStores bh data).mem inlineLenAt 4 = data.length ∧
      bytesFrom (inlineStores bh data).mem inlineAt data.length = data := by
  simp only [inlineStores, Stores.le, Stores.bytes, Stores.read]
  constructor
  · rw [getLE_setLE_of_disjoint _ _ (by decide), getLE_setBytes_of_disjoint _ _ (by decide),
      getLE_setLE_of_disjoint _ _ (by decide), getLE_setLE_self]
    exact Nat.mod_eq_of_lt h
  · rw [bytesFrom_setLE_of_disjoint _ _ (Or.inr (by decide)), bytesFrom_setBytes_self]

theorem inlineFileStores_fields (h : data.length < 2 ^ 32) :
    getLE (inlineFileStores bh data).mem inlineLenAt 4 = data.length ∧
      bytesFrom (inlineFileStores bh data).mem inlineAt data.length = data ∧
      getLE (inlineFileStores bh data).mem (inlineAt + data.length) 4 = inlineSum data := by
  simp only [inlineFileStores, Stores.le, Stores.bytes, Stores.read]
  refine ⟨?_, ?_, ?_⟩
  · rw [getLE_setLE_of_disjoint _ _ (Or.inl (show 108 + 4 ≤ 144 + data.length by omega)),
      getLE_setBytes_of_disjoint _ _ (by decide), getLE_setLE_self]
    exact Nat.mod_eq_of_lt h
  · rw [bytesFrom_setLE_of_disjoint _ _ (by omega), bytesFrom_setBytes_self]
  · rw [getLE_setLE_self]
    exact Nat.mod_eq_of_lt (BitVec.isLt _)

/-- Right after the write, only the flag in memory can make the read fail. -/
theorem readInline_written_iff (h : data.length ≤ 3996) :
    readInline flags (some (inlineStores bh data).mem) data.length = .ok (data.length, data) ↔
      flags &&& inlineFlag ≠ 0 := by
  obtain ⟨hlen, hdata⟩ := @inlineStores_fields bh data (by omega)
  have hint : (BitVec.ofNat 32 data.length).toInt = data.length := by
    rw [BitVec.toInt_ofNat', Int.bmod_eq_of_le (by omega) (by omega)]
  rw [readInline_eq_ok, hlen, Nat.max_self, hdata, hint]
  exact and_iff_left ⟨h, rfl, rfl⟩

theorem readInlineFile_written_iff (h : data.length ≤ 4096) :
    readInlineFile flags (some (inlineFileStores bh data).mem) = .ok data ↔
      flags &&& inlineFlag ≠ 0 := by
  obtain ⟨hlen, hdata, hsum⟩ := @inlineFileStores_fields bh data (by omega)
  rw [readInlineFile_eq_ok, hlen, hdata, hsum]
  exact and_iff_left ⟨h, rfl, rfl⟩

/-- **When a read stays inside the caller's buffer.** -/
theorem readInline_bounded_iff : (∀ r l, readInline flags (some bh) size = .ok (r, l) →
    l.length ≤ size) ↔ flags &&& inlineFlag = 0 ∨ getLE bh inlineLenAt 4 > 3996 ∨
      getLE bh inlineLenAt 4 ≤ size := by
  constructor
  · intro h
    by_contra hno
    rw [not_or, not_or, Nat.not_lt] at hno
    obtain ⟨hflag, hmax, hsmall⟩ := hno
    have hlength := h _ _ (readInline_eq_ok.mpr ⟨hflag, hmax, rfl, rfl⟩)
    rw [bytesFrom_length] at hlength
    omega
  · intro h r l hread
    obtain ⟨hflag, hmax, -, rfl⟩ := readInline_eq_ok.mp hread
    rw [bytesFrom_length]
    rcases h with h | h | h
    · exact absurd h hflag
    · omega
    · omega

end RoundTrip

/-- **Inline files, exactly.**  What is written lies inside the block and comes back from the reader
exactly when the inode in memory has the flag already and the file is no longer than what the block
has room for; and the reader keeps to the caller's buffer exactly when it refuses the block or the
buffer is large enough for what the block says. -/
theorem inline_files_iff (flags size : Nat) (bh : Memory) (data : List UInt8) :
    (∀ s, writeInline (some bh) data = .ok s →
      (s.Within 4096 ∧ readInline flags (some s.mem) data.length = .ok (data.length, data) ↔
        flags &&& inlineFlag ≠ 0 ∧ data.length ≤ 3952)) ∧
    (∀ s, writeInlineFile (some bh) data = .ok s →
      (s.Within 4096 ∧ readInlineFile flags (some s.mem) = .ok data ↔
        flags &&& inlineFlag ≠ 0 ∧ data.length ≤ 3948)) ∧
    ((∀ r l, readInline flags (some bh) size = .ok (r, l) → l.length ≤ size) ↔
      flags &&& inlineFlag = 0 ∨ getLE bh inlineLenAt 4 > 3996 ∨ getLE bh inlineLenAt 4 ≤ size) := by
  refine ⟨fun s hwrite => ?_, fun s hwrite => ?_, readInline_bounded_iff⟩
  · obtain ⟨hlen, rfl⟩ := writeInline_eq_ok.mp hwrite
    rw [within_inlineStores, readInline_written_iff hlen, and_comm]
  · obtain ⟨hlen, rfl⟩ := writeInlineFile_eq_ok.mp hwrite
    rw [within_inlineFileStores, readInlineFile_written_iff hlen, and_comm]

theorem inline_file_of_one_byte : ∃ s, writeInline (some fun _ => 0) [7] = .ok s ∧
    s.Within 4096 ∧ readInline inlineFlag (some s.mem) 1 = .ok (1, [7]) := by
  refine ⟨_, rfl, ?_⟩
  exact ((inline_files_iff inlineFlag 0 (fun _ => 0) [7]).1 _ rfl).mpr ⟨by decide, by decide⟩

/-- The largest file that is accepted. -/
def largestInline : List UInt8 := List.replicate 3996 0

/-- **A file of 3996 bytes is written past the block; a file that has just been written cannot be read
where the inode in memory has no flag; and a read into one byte copies two.** -/
theorem inline_overruns :
    (∃ s, writeInline (some fun _ => 0) largestInline = .ok s ∧ ¬ s.Within 4096) ∧
    (∃ s, writeInline (some fun _ => 0) [7] = .ok s ∧
      readInline 0 (some s.mem) 1 = .error .EINVAL) ∧
    ∃ r l, readInline inlineFlag (some (setLE (fun _ => 0) inlineLenAt 4 2)) 1 = .ok (r, l) ∧
      l.length = 2 := by
  have hlength : largestInline.length = 3996 := List.length_replicate
  refine ⟨⟨_, writeInline_eq_ok.mpr ⟨hlength.le, rfl⟩, ?_⟩, ⟨_, rfl, rfl⟩, ?_⟩
  · rw [within_inlineStores, hlength]
    decide
  · have hlen : getLE (setLE (fun _ => 0) inlineLenAt 4 2) inlineLenAt 4 = 2 := by
      rw [getLE_setLE_self]
      decide
    refine ⟨_, _, readInline_eq_ok.mpr ⟨by decide, by rw [hlen]; decide, rfl, rfl⟩, ?_⟩
    rw [bytesFrom_length, hlen]
    rfl

/-! ## 4. The file and the attribute

The record of the attribute covers the bytes from 128 to `140 + n`, for a name and a value of `n`
bytes together; the fields of the inode end at 144, and the file and its sum follow. -/

/-- The bytes of the file and of its sum, as they follow each other in the block. -/
def inlineImage (data : List UInt8) : List UInt8 :=
  data ++ bytesFrom (setLE (fun _ => 0) 0 4 (inlineSum data)) 0 4

/-- The file, the attribute and the other fields of the inode are in `b` as their writers left them;
`m` is the block before. -/
structure Undisturbed (m : Memory) (data name value : List UInt8) (b : Memory) : Prop where
  flags : getLE b flagsAt 4 = getLE m flagsAt 4 ||| inlineFlag
  len : getLE b inlineLenAt 4 = data.length
  file : bytesFrom b inlineAt (data.length + 4) = inlineImage data
  fields : ∀ a, a < inlineAt → a < flagsAt ∨ flagsAt + 4 ≤ a →
    a < inlineLenAt ∨ inlineLenAt + 4 ≤ a → b a = m a
  nameLen : getLE b (xattrBase + 2) 2 = name.length
  valueLen : getLE b (xattrBase + 4) 2 = value.length
  payload : bytesFrom b (xattrBase + 12) (name.length + value.length) = name ++ value

/-- The block has, where the fields of the inode are, what the attribute's record has there: its
header, with the sum over itself and the payload but for the last four bytes, and the beginning of
the payload. -/
structure RecordThere (m : Memory) (name value : List UInt8) : Prop where
  flags : getLE m xattrBase 2 = 0
  nameLen : getLE m (xattrBase + 2) 2 = name.length
  valueLen : getLE m (xattrBase + 4) 2 = value.length
  next : getLE m (xattrBase + 6) 2 = 0
  sum : getLE m (xattrBase + 8) 4 = (kernelCrc32c 0xFFFFFFFF#32 ((bytesFrom m xattrBase 12 ++
    (name ++ value)).take (8 + name.length + value.length))).toNat
  payload : bytesFrom m (xattrBase + 12) (min 4 (name.length + value.length)) = (name ++ value).take 4

/-- Where the payload of the attribute and the file with its sum share bytes, they are the same. -/
def OverlapAgrees (data name value : List UInt8) : Prop :=
  ∀ i, i + 4 < name.length + value.length → i < data.length + 4 →
    (name ++ value)[i + 4]? = (inlineImage data)[i]?

section Both

variable {m : Memory} {data name value : List UInt8}

theorem inlineImage_length (data : List UInt8) : (inlineImage data).length = data.length + 4 := by
  rw [inlineImage, List.length_append, bytesFrom_length]

/-- The writer of the file, byte by byte. -/
theorem inlineFileStores_image (m : Memory) (data : List UInt8) :
    bytesFrom (inlineFileStores m data).mem inlineAt (data.length + 4) = inlineImage data := by
  have hsum : bytesFrom (inlineFileStores m data).mem (inlineAt + data.length) 4
      = bytesFrom (setLE (fun _ => 0) 0 4 (inlineSum data)) 0 4 := by
    refine List.map_congr_left fun i hi => ?_
    have hlt := List.mem_range.mp hi
    simp only [inlineFileStores, Stores.le, setLE]
    rw [if_pos (by omega), if_pos (by omega)]
    congr 3
    omega
  have hdata : bytesFrom (inlineFileStores m data).mem inlineAt data.length = data := by
    simp only [inlineFileStores, Stores.le, Stores.bytes, Stores.read]
    rw [bytesFrom_setLE_of_disjoint _ _ (by omega), bytesFrom_setBytes_self]
  rw [bytesFrom_append, hdata, hsum, inlineImage]

/-- Outside of what it stores, the writer of the file leaves the block alone. -/
theorem inlineFileStores_out {a : Nat} (hflags : a < flagsAt ∨ flagsAt + 4 ≤ a)
    (hlen : a < inlineLenAt ∨ inlineLenAt + 4 ≤ a)
    (hfile : a < inlineAt ∨ inlineAt + (data.length + 4) ≤ a) :
    (inlineFileStores m data).mem a = m a := by
  have hplaces : (inlineFileStores m data).places = [(flagsAt, 4), (inlineLenAt, 4),
      (inlineAt, data.length), (inlineAt + data.length, 4)] := rfl
  refine (inlineFileStores m data).frame a fun p hp => ?_
  simp only [hplaces, List.mem_cons, List.not_mem_nil, or_false] at hp
  rcases hp with rfl | rfl | rfl | rfl
  · exact hflags
  · exact hlen
  · exact hfile.imp id fun h => by simp only; omega
  · exact hfile.imp (fun h => by simp only; omega) fun h => by simp only; omega

theorem inlineFileStores_flags (m : Memory) (data : List UInt8) :
    getLE (inlineFileStores m data).mem flagsAt 4 = getLE m flagsAt 4 ||| inlineFlag := by
  have hwide : getLE m flagsAt 4 ||| inlineFlag < 256 ^ 4 :=
    @Nat.or_lt_two_pow _ _ 32 (getLE_lt m 4 flagsAt) (by decide)
  simp only [inlineFileStores, Stores.le, Stores.bytes, Stores.read]
  rw [getLE_setLE_of_disjoint _ _ (Or.inl (show 68 + 4 ≤ 144 + data.length by omega)),
    getLE_setBytes_of_disjoint _ _ (by decide), getLE_setLE_of_disjoint _ _ (by decide),
    getLE_setLE_self, Nat.mod_eq_of_lt hwide]

/-- The record of the attribute before its sum is stored. -/
def xattrFilled (m : Memory) (name value : List UInt8) : Memory :=
  let m := setLE m (xattrBase + 2) 2 name.length
  let m := setLE m (xattrBase + 4) 2 value.length
  let m := setLE m xattrBase 2 0
  let m := setLE m (xattrBase + 6) 2 0
  let m := setBytes m (xattrBase + 12) name
  setBytes m (xattrBase + 12 + name.length) value

theorem xattrEncode_filled (m : Memory) (name value : List UInt8) : xattrEncode m name value
    = storeSum xattrBase 8 (8 + name.length + value.length) (xattrFilled m name value) := by
  rw [xattrEncode, show 12 + name.length + value.length - 4 = 8 + name.length + value.length by omega]
  rfl

theorem xattrFilled_out {a : Nat}
    (h : a < xattrBase ∨ xattrBase + 12 + (name.length + value.length) ≤ a) :
    xattrFilled m name value a = m a := by
  have hlo : xattrBase = 128 := rfl
  rw [xattrFilled, setBytes_of_out _ (by omega), setBytes_of_out _ (by omega),
    setLE_of_out _ _ (by omega), setLE_of_out _ _ (by omega), setLE_of_out _ _ (by omega),
    setLE_of_out _ _ (by omega)]

theorem xattrFilled_stale {a : Nat} (hlo : xattrBase + 8 ≤ a) (hhi : a < xattrBase + 12) :
    xattrFilled m name value a = m a := by
  rw [xattrFilled, setBytes_of_out _ (by omega), setBytes_of_out _ (by omega),
    setLE_of_out _ _ (by omega), setLE_of_out _ _ (by omega), setLE_of_out _ _ (by omega),
    setLE_of_out _ _ (by omega)]

theorem xattrFilled_payload (m : Memory) (name value : List UInt8) :
    bytesFrom (xattrFilled m name value) (xattrBase + 12) (name.length + value.length)
      = name ++ value := by
  rw [xattrFilled, bytesFrom_append, bytesFrom_setBytes_self,
    bytesFrom_setBytes_of_disjoint _ _ (by omega), bytesFrom_setBytes_self]

theorem xattrFilled_header (hname : name.length < 2 ^ 16) (hvalue : value.length < 2 ^ 16) :
    getLE (xattrFilled m name value) xattrBase 2 = 0 ∧
      getLE (xattrFilled m name value) (xattrBase + 2) 2 = name.length ∧
      getLE (xattrFilled m name value) (xattrBase + 4) 2 = value.length ∧
      getLE (xattrFilled m name value) (xattrBase + 6) 2 = 0 := by
  have hfront : ∀ off, off + 2 ≤ xattrBase + 12 → getLE (xattrFilled m name value) off 2
      = getLE (setLE (setLE (setLE (setLE m (xattrBase + 2) 2 name.length) (xattrBase + 4) 2
        value.length) xattrBase 2 0) (xattrBase + 6) 2 0) off 2 := by
    intro off h
    rw [xattrFilled, getLE_setBytes_of_disjoint _ _ (by omega),
      getLE_setBytes_of_disjoint _ _ (by omega)]
  refine ⟨?_, ?_, ?_, ?_⟩
  · rw [hfront _ (by decide), getLE_setLE_of_disjoint _ _ (by decide), getLE_setLE_self]
    rfl
  · rw [hfront _ (by decide), getLE_setLE_of_disjoint _ _ (by decide),
      getLE_setLE_of_disjoint _ _ (by decide), getLE_setLE_of_disjoint _ _ (by decide),
      getLE_setLE_self]
    exact Nat.mod_eq_of_lt hname
  · rw [hfront _ (by decide), getLE_setLE_of_disjoint _ _ (by decide),
      getLE_setLE_of_disjoint _ _ (by decide), getLE_setLE_self]
    exact Nat.mod_eq_of_lt hvalue
  · rw [hfront _ (by decide), getLE_setLE_self]
    rfl

theorem xattrEncode_eq_filled {a : Nat} (h : a < xattrBase + 8 ∨ xattrBase + 12 ≤ a) :
    xattrEncode m name value a = xattrFilled m name value a := by
  rw [xattrEncode_filled, storeSum]
  exact setLE_of_out _ _ h

theorem xattrEncode_sum (m : Memory) (name value : List UInt8) :
    getLE (xattrEncode m name value) (xattrBase + 8) 4
      = hashed (xattrFilled m name value) xattrBase (8 + name.length + value.length) := by
  rw [xattrEncode_filled, storeSum, getLE_setLE_self]
  exact Nat.mod_eq_of_lt (hashed_lt _ _ _)

theorem xattrEncode_payload (m : Memory) (name value : List UInt8) :
    bytesFrom (xattrEncode m name value) (xattrBase + 12) (name.length + value.length)
      = name ++ value := by
  rw [← xattrFilled_payload m name value]
  exact bytesFrom_congr fun i _ => xattrEncode_eq_filled (Or.inr (by omega))

/-- What the sum of the record is taken over, where the block has its header already. -/
theorem xattrFilled_hashed {m m' : Memory}
    (h : ∀ a, xattrBase ≤ a → a < xattrBase + 12 → xattrFilled m' name value a = m a) :
    hashed (xattrFilled m' name value) xattrBase (8 + name.length + value.length)
      = (kernelCrc32c 0xFFFFFFFF#32 ((bytesFrom m xattrBase 12 ++ (name ++ value)).take
        (8 + name.length + value.length))).toNat := by
  have hheader : bytesFrom (xattrFilled m' name value) xattrBase 12 = bytesFrom m xattrBase 12 :=
    bytesFrom_congr fun i hi => h _ (by omega) (by omega)
  rw [hashed, ← hheader, ← xattrFilled_payload m' name value, ← bytesFrom_append, bytesFrom_take,
    Nat.min_eq_left (by omega)]

/-- **The attribute's record leaves the fields of the inode alone** exactly when it is there. -/
theorem record_kept_iff {m m' : Memory} (hname : name.length < 2 ^ 16)
    (hvalue : value.length < 2 ^ 16) (hsame : ∀ a, xattrBase ≤ a → a < inlineAt → m' a = m a) :
    (∀ a, xattrBase ≤ a → a < inlineAt → xattrEncode m' name value a = m a) ↔
      RecordThere m name value := by
  obtain ⟨hflags, hnl, hvl, hnext⟩ := @xattrFilled_header m' name value hname hvalue
  have hb : xattrBase = 128 := rfl
  have hi : inlineAt = 144 := rfl
  constructor
  · intro hkept
    have hfilled : ∀ a, xattrBase ≤ a → a < xattrBase + 12 → xattrFilled m' name value a = m a := by
      intro a hlo hhi
      by_cases ha : a < xattrBase + 8
      · rw [← xattrEncode_eq_filled (Or.inl ha)]
        exact hkept a hlo (by omega)
      · rw [xattrFilled_stale (by omega) hhi]
        exact hsame a hlo (by omega)
    have hfield : ∀ off, xattrBase ≤ off → off + 2 ≤ xattrBase + 8 →
        getLE m off 2 = getLE (xattrFilled m' name value) off 2 := by
      intro off hlo hhi
      exact getLE_congr fun a h1 h2 => (hfilled a (by omega) (by omega)).symm
    refine ⟨(hfield _ (by decide) (by decide)).trans hflags, (hfield _ (by decide) (by decide)).trans
      hnl, (hfield _ (by decide) (by decide)).trans hvl, (hfield _ (by decide) (by decide)).trans
      hnext, ?_, ?_⟩
    · rw [← xattrFilled_hashed hfilled, ← xattrEncode_sum]
      exact getLE_congr fun a h1 h2 => (hkept a (by omega) (by omega)).symm
    · rw [← xattrEncode_payload m' name value, bytesFrom_take]
      exact bytesFrom_congr fun i hi' => (hkept _ (by omega) (by omega)).symm
  · intro hthere a hlo hhi
    have hfilled : ∀ a, xattrBase ≤ a → a < xattrBase + 12 → xattrFilled m' name value a = m a := by
      intro a hlo hhi
      by_cases h8 : xattrBase + 8 ≤ a
      · rw [xattrFilled_stale h8 hhi]
        exact hsame a hlo (by omega)
      · by_cases h2 : a < xattrBase + 2
        · exact eq_of_getLE (hflags.trans hthere.flags.symm) hlo h2
        · by_cases h4 : a < xattrBase + 4
          · exact eq_of_getLE (hnl.trans hthere.nameLen.symm) (by omega) (by omega)
          · by_cases h6 : a < xattrBase + 6
            · exact eq_of_getLE (hvl.trans hthere.valueLen.symm) (by omega) (by omega)
            · exact eq_of_getLE (hnext.trans hthere.next.symm) (by omega) (by omega)
    by_cases hsum : xattrBase + 8 ≤ a ∧ a < xattrBase + 12
    · have hstored := (xattrEncode_sum m' name value).trans
        ((xattrFilled_hashed hfilled).trans hthere.sum.symm)
      exact eq_of_getLE hstored hsum.1 (by omega)
    · rw [xattrEncode_eq_filled (by omega)]
      by_cases hpay : a < xattrBase + 12
      · exact hfilled a hlo hpay
      · by_cases hin : a < xattrBase + 12 + (name.length + value.length)
        · have hwritten := xattrFilled_payload m' name value
          rw [bytesFrom_eq_iff _ List.length_append] at hwritten
          have hthere' := hthere.payload
          rw [bytesFrom_eq_iff _ (by rw [List.length_take, List.length_append])] at hthere'
          have h1 := hwritten (a - (xattrBase + 12)) (by omega)
          have h2 := hthere' (a - (xattrBase + 12)) (by omega)
          rw [List.getElem?_take_of_lt (by omega), ← h1,
            Nat.add_sub_cancel' (Nat.not_lt.mp hpay)] at h2
          exact (Option.some.inj h2).symm
        · rw [xattrFilled_out (by omega)]
          exact hsame a hlo hhi

theorem xattrEncode_out {a : Nat}
    (h : a < xattrBase ∨ xattrBase + 12 + (name.length + value.length) ≤ a) :
    xattrEncode m name value a = m a := by
  rw [xattrEncode_eq_filled (by omega), xattrFilled_out h]

theorem xattrEncode_lengths (hname : name.length < 2 ^ 16) (hvalue : value.length < 2 ^ 16) :
    getLE (xattrEncode m name value) (xattrBase + 2) 2 = name.length ∧
      getLE (xattrEncode m name value) (xattrBase + 4) 2 = value.length := by
  obtain ⟨-, hnl, hvl, -⟩ := @xattrFilled_header m name value hname hvalue
  constructor
  · rw [← hnl]
    exact getLE_congr fun a _ ha => xattrEncode_eq_filled (Or.inl (by omega))
  · rw [← hvl]
    exact getLE_congr fun a _ ha => xattrEncode_eq_filled (Or.inl (by omega))

/-- The fields in front of the record are no concern of the attribute's writer. -/
theorem fields_iff {b : Memory} (hfront : ∀ a, a < xattrBase → a < flagsAt ∨ flagsAt + 4 ≤ a →
      a < inlineLenAt ∨ inlineLenAt + 4 ≤ a → b a = m a) :
    (∀ a, a < inlineAt → a < flagsAt ∨ flagsAt + 4 ≤ a → a < inlineLenAt ∨ inlineLenAt + 4 ≤ a →
      b a = m a) ↔ ∀ a, xattrBase ≤ a → a < inlineAt → b a = m a := by
  constructor
  · intro h a hlo hhi
    exact h a hhi (Or.inr (le_trans (by decide) hlo)) (Or.inr (le_trans (by decide) hlo))
  · intro h a hhi hflags hlen
    by_cases hlo : a < xattrBase
    · exact hfront a hlo hflags hlen
    · exact h a (Nat.not_lt.mp hlo) hhi

/-- The file leaves the bytes between the two alone. -/
theorem inlineFileStores_between {a : Nat} (hlo : xattrBase ≤ a) (hhi : a < inlineAt) :
    (inlineFileStores m data).mem a = m a :=
  inlineFileStores_out (Or.inr (le_trans (by decide) hlo)) (Or.inr (le_trans (by decide) hlo))
    (Or.inl hhi)

/-- **The file under an attribute** is still there exactly when the two agree where they overlap. -/
theorem file_kept_iff : bytesFrom (xattrEncode (inlineFileStores m data).mem name value) inlineAt
    (data.length + 4) = inlineImage data ↔ OverlapAgrees data name value := by
  have hb : xattrBase = 128 := rfl
  have hi : inlineAt = 144 := rfl
  have himage := inlineFileStores_image m data
  rw [bytesFrom_eq_iff _ (inlineImage_length data)] at himage
  have hpayload := xattrEncode_payload (inlineFileStores m data).mem name value
  rw [bytesFrom_eq_iff _ List.length_append] at hpayload
  rw [bytesFrom_eq_iff _ (inlineImage_length data)]
  have hshared : ∀ i, i + 4 < name.length + value.length →
      some (xattrEncode (inlineFileStores m data).mem name value (inlineAt + i))
        = (name ++ value)[i + 4]? := by
    intro i hin
    rw [← hpayload (i + 4) hin]
    congr 2
    omega
  constructor
  · intro h i hin hlt
    rw [← hshared i hin, h i hlt]
  · intro h i hlt
    by_cases hin : i + 4 < name.length + value.length
    · rw [hshared i hin, h i hin hlt]
    · rw [xattrEncode_out (by omega), himage i hlt]

/-- **The attribute under a file**, likewise. -/
theorem payload_kept_iff :
    bytesFrom (inlineFileStores (xattrEncode m name value) data).mem (xattrBase + 12)
      (name.length + value.length) = name ++ value ↔ OverlapAgrees data name value := by
  have hb : xattrBase = 128 := rfl
  have hi : inlineAt = 144 := rfl
  have himage := inlineFileStores_image (xattrEncode m name value) data
  rw [bytesFrom_eq_iff _ (inlineImage_length data)] at himage
  have hwritten := xattrEncode_payload m name value
  rw [bytesFrom_eq_iff _ List.length_append] at hwritten
  rw [bytesFrom_eq_iff _ List.length_append]
  have hshared : ∀ i, i < data.length + 4 →
      some ((inlineFileStores (xattrEncode m name value) data).mem (xattrBase + 12 + (i + 4)))
        = (inlineImage data)[i]? := by
    intro i hlt
    rw [← himage i hlt]
    congr 2
    omega
  constructor
  · intro h i hin hlt
    rw [← h (i + 4) hin, hshared i hlt]
  · intro h j hj
    by_cases hj4 : 4 ≤ j ∧ j - 4 < data.length + 4
    · have hover := h (j - 4) (by omega) hj4.2
      have hbyte := hshared (j - 4) hj4.2
      rw [Nat.sub_add_cancel hj4.1] at hover hbyte
      rw [hbyte, hover]
    · have hout : (inlineFileStores (xattrEncode m name value) data).mem (xattrBase + 12 + j)
          = xattrEncode m name value (xattrBase + 12 + j) :=
        inlineFileStores_out (Or.inr (le_trans (by decide) (Nat.le_add_right _ j)))
          (Or.inr (le_trans (by decide) (Nat.le_add_right _ j))) (by omega)
      rw [hout, hwritten j hj]

/-- **The file first, the attribute last.** -/
theorem undisturbed_attribute_last (hdata : data.length < 2 ^ 32) (hname : name.length < 2 ^ 16)
    (hvalue : value.length < 2 ^ 16) :
    Undisturbed m data name value (xattrEncode (inlineFileStores m data).mem name value) ↔
      RecordThere m name value ∧ OverlapAgrees data name value := by
  have hb : xattrBase = 128 := rfl
  have hi : inlineAt = 144 := rfl
  obtain ⟨hlen, -, -⟩ := @inlineFileStores_fields m data hdata
  obtain ⟨hnl, hvl⟩ := @xattrEncode_lengths (inlineFileStores m data).mem name value hname hvalue
  -- the fields of the inode
  have hfields := (fields_iff (m := m) (b := xattrEncode (inlineFileStores m data).mem name value)
    fun a hlo hflags hlen => by
      rw [xattrEncode_out (Or.inl hlo)]
      exact inlineFileStores_out hflags hlen (Or.inl (by omega))).trans
    (record_kept_iff hname hvalue fun a hlo hhi => inlineFileStores_between hlo hhi)
  have hfront : ∀ off, off + 4 ≤ xattrBase →
      getLE (xattrEncode (inlineFileStores m data).mem name value) off 4
        = getLE (inlineFileStores m data).mem off 4 := by
    intro off h
    exact getLE_congr fun a _ ha => xattrEncode_out (Or.inl (by omega))
  constructor
  · intro h
    exact ⟨hfields.mp h.fields, file_kept_iff.mp h.file⟩
  · rintro ⟨hthere, hover⟩
    exact ⟨(hfront _ (by decide)).trans (inlineFileStores_flags m data),
      (hfront _ (by decide)).trans hlen, file_kept_iff.mpr hover, hfields.mpr hthere, hnl, hvl,
      xattrEncode_payload _ _ _⟩

/-- **The attribute first, the file last.** -/
theorem undisturbed_file_last (hdata : data.length < 2 ^ 32) (hname : name.length < 2 ^ 16)
    (hvalue : value.length < 2 ^ 16) :
    Undisturbed m data name value (inlineFileStores (xattrEncode m name value) data).mem ↔
      RecordThere m name value ∧ OverlapAgrees data name value := by
  have hb : xattrBase = 128 := rfl
  have hi : inlineAt = 144 := rfl
  obtain ⟨hlen, -, -⟩ := @inlineFileStores_fields (xattrEncode m name value) data hdata
  obtain ⟨hnl, hvl⟩ := @xattrEncode_lengths m name value hname hvalue
  have hkeep : ∀ a, xattrBase ≤ a → a < inlineAt →
      (inlineFileStores (xattrEncode m name value) data).mem a = xattrEncode m name value a :=
    fun a hlo hhi => inlineFileStores_between hlo hhi
  -- the fields of the inode
  have hfields := (fields_iff (m := m)
    (b := (inlineFileStores (xattrEncode m name value) data).mem) fun a hlo hflags hlen => by
      rw [inlineFileStores_out hflags hlen (Or.inl (by omega)), xattrEncode_out (Or.inl hlo)])
  have hrecord : (∀ a, xattrBase ≤ a → a < inlineAt →
      (inlineFileStores (xattrEncode m name value) data).mem a = m a) ↔
      RecordThere m name value := by
    rw [← record_kept_iff hname hvalue fun a _ _ => rfl]
    constructor
    · intro h a hlo hhi
      rw [← hkeep a hlo hhi]
      exact h a hlo hhi
    · intro h a hlo hhi
      rw [hkeep a hlo hhi]
      exact h a hlo hhi
  have hfront : ∀ off, xattrBase ≤ off → off + 2 ≤ inlineAt →
      getLE (inlineFileStores (xattrEncode m name value) data).mem off 2
        = getLE (xattrEncode m name value) off 2 := by
    intro off hlo hhi
    exact getLE_congr fun a _ ha => hkeep a (by omega) (by omega)
  have hflags : getLE (xattrEncode m name value) flagsAt 4 = getLE m flagsAt 4 :=
    getLE_congr fun a _ ha => xattrEncode_out (Or.inl (lt_of_lt_of_le ha (by decide)))
  constructor
  · intro h
    exact ⟨hrecord.mp (hfields.mp h.fields), payload_kept_iff.mp h.payload⟩
  · rintro ⟨hthere, hover⟩
    refine ⟨?_, hlen, inlineFileStores_image _ _, hfields.mpr (hrecord.mpr hthere),
      (hfront _ (by decide) (by decide)).trans hnl, (hfront _ (by decide) (by decide)).trans hvl,
      payload_kept_iff.mpr hover⟩
    rw [inlineFileStores_flags, hflags]

end Both

/-- **Files and attributes in one block.**  Whatever is accepted, in either order of the writes: they
leave each other and the other fields of the inode alone exactly when the block has, in the bytes of
`i_data`, what the attribute's record has there, and the file has, as far as the record goes on, what
the record has there. -/
theorem inline_and_attribute_iff (m : Memory) (data name value : List UInt8)
    {fileFirst fileLast : Stores} {attrFirst attrLast : Memory}
    (hfileFirst : writeInlineFile (some m) data = .ok fileFirst)
    (hattrLast : writePackedXattr (some fileFirst.mem) name value = .ok attrLast)
    (hattrFirst : writePackedXattr (some m) name value = .ok attrFirst)
    (hfileLast : writeInlineFile (some attrFirst) data = .ok fileLast) :
    (Undisturbed m data name value attrLast ↔
      RecordThere m name value ∧ OverlapAgrees data name value) ∧
    (Undisturbed m data name value fileLast.mem ↔
      RecordThere m name value ∧ OverlapAgrees data name value) := by
  obtain ⟨hlen, rfl⟩ := writeInlineFile_eq_ok.mp hfileFirst
  obtain ⟨htotal, rfl⟩ := writePackedXattr_eq_ok hattrLast
  obtain ⟨-, rfl⟩ := writePackedXattr_eq_ok hattrFirst
  obtain ⟨-, rfl⟩ := writeInlineFile_eq_ok.mp hfileLast
  exact ⟨undisturbed_attribute_last (by omega) (by omega) (by omega),
    undisturbed_file_last (by omega) (by omega) (by omega)⟩

/-- A block that has the record of an attribute of two bytes, with a sum that is its own. -/
def recordedBlock : Memory :=
  setBytes (fun _ => 0) xattrBase [0, 0, 1, 0, 1, 0, 0, 0, 0x5C, 0x4F, 0xEA, 0x84, 97, 1]

theorem recordedBlock_undisturbed : ∃ fileFirst attrLast attrFirst fileLast,
    writeInlineFile (some recordedBlock) [7] = .ok fileFirst ∧
    writePackedXattr (some fileFirst.mem) shortName [1] = .ok attrLast ∧
    writePackedXattr (some recordedBlock) shortName [1] = .ok attrFirst ∧
    writeInlineFile (some attrFirst) [7] = .ok fileLast ∧
    Undisturbed recordedBlock [7] shortName [1] attrLast ∧
    Undisturbed recordedBlock [7] shortName [1] fileLast.mem := by
  have hthere : RecordThere recordedBlock shortName [1] :=
    ⟨by decide +kernel, by decide +kernel, by decide +kernel, by decide +kernel, by decide +kernel,
      by decide +kernel⟩
  have hover : OverlapAgrees [7] shortName [1] := by
    intro i hi
    exact absurd hi (by simp [shortName])
  obtain ⟨hlast, hfirst⟩ := inline_and_attribute_iff recordedBlock [7] shortName [1] rfl rfl rfl rfl
  exact ⟨_, _, _, _, rfl, rfl, rfl, rfl, hlast.mpr ⟨hthere, hover⟩, hfirst.mpr ⟨hthere, hover⟩⟩

/-- **A file and an attribute of nine bytes, on a block of zeros**: the attribute overwrites the file
and a field of the inode, and the file overwrites the attribute. -/
theorem nine_bytes_disturb : ∃ fileFirst attrLast attrFirst fileLast,
    writeInlineFile (some fun _ => 0) [1, 1, 1, 1, 1] = .ok fileFirst ∧
    writePackedXattr (some fileFirst.mem) shortName [2, 2, 2, 2, 2, 2, 2, 2] = .ok attrLast ∧
    bytesFrom attrLast inlineAt 5 = [2, 2, 2, 2, 2] ∧ attrLast (xattrBase + 2) = 1 ∧
    writePackedXattr (some fun _ => 0) shortName [2, 2, 2, 2, 2, 2, 2, 2] = .ok attrFirst ∧
    writeInlineFile (some attrFirst) [1, 1, 1, 1, 1] = .ok fileLast ∧
    bytesFrom fileLast.mem (xattrBase + 13) 8 = [2, 2, 2, 1, 1, 1, 1, 1] :=
  ⟨_, _, _, _, rfl, rfl, by decide +kernel, by decide +kernel, rfl, rfl, by decide +kernel⟩

end AetherFs
