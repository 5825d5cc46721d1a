/-
# The dense records of `dense.c`

A packed tail is a block with a header in front of the data; a packed attribute is a record inside
the inode's block.  Both carry a checksum, and both codecs are written alike: the encoder fills in
the record, hashes it and stores the sum; the decoder zeroes the sum, hashes, puts it back and
compares.  Two things are wrong with them, in the same way.

* The encoder does NOT zero the field first.  It hashes whatever the field held before, so the record
  can be read back exactly when those bytes hash to nothing (`storeSum_right_iff`).  Over a block of
  zeros they do; over the sum of an earlier write they do not, and a second write of an attribute is
  lost.
* `sizeof` of the record minus four, plus the payload, is the length that is hashed.  The sum is in
  the middle of the record and not at its end, so what is left out are the last four bytes of the
  PAYLOAD.  A changed byte is noticed exactly when it is in front of them (`sumRight_update_iff`): the
  per-byte step of the kernel's checksum is injective, so there everything is noticed.

`aetherfs_tail_unpack` does not come to its decoder: it looks the block up in a tree without a root, and
fails (`tailUnpack_fails`).  What is said of tails is said of the decoder.
-/
import AetherFs.Kernel.Btree
import AetherFs.Kernel.Checksum

namespace AetherFs

open Lib

/-! ## 1. The source -/

/-- The sum of the record at `base` goes into its field, over the hash of what the field held. -/
def storeSum (base field len : Nat) (m : Memory) : Memory :=
  setLE m (base + field) 4 (hashed m base len)

/-- The field is zeroed, the record hashed, the field put back: whether the sums agree, and the
block. -/
def verifySum (base field len : Nat) (m : Memory) : Bool × Memory :=
  let stored := getLE m (base + field) 4
  let zeroed := setLE m (base + field) 4 0
  (decide (stored = hashed zeroed base len), setLE zeroed (base + field) 4 stored)

/-- The magic of `struct aetherfs_tail_packed`: `tp_magic` at 0, `tp_size` at 4, `tp_orig_offset` at
8, `tp_checksum` at 12, `tp_data` from 16 on. -/
def tailMagic : Nat := 0x5441494C

/-- The block `aetherfs_tail_pack` fills in. -/
def tailEncode (bh : Memory) (offset : Nat) (data : List UInt8) : Memory :=
  let m := setLE bh 0 4 tailMagic
  let m := setLE m 4 4 data.length
  let m := setLE m 8 4 offset
  let m := setBytes m 16 data
  storeSum 0 12 (16 + data.length - 4) m

/-- `aetherfs_tail_pack`: the block that is written.  `block` is the answer of
`aetherfs_alloc_blocks`, and `bh` that of `sb_getblk`. -/
def tailPack (blocksize offset : Nat) (data : List UInt8) (block : Nat) (bh : Option Memory) :
    Except Errno Memory :=
  if data.length = 0 then .error .EINVAL
  else if data.length < 512 then .error .EINVAL
  else if data.length > subU64 blocksize 16 then .error .EINVAL
  else if block = 0 then .error .ENOSPC
  else match bh with
    | none => .error .EIOERR
    | some bh => .ok (tailEncode bh offset data)

/-- The decoding part of `aetherfs_tail_unpack`: what it returns, and the block. -/
def tailDecode (blocksize : Nat) (bh : Memory) : Except Errno (List UInt8) × Memory :=
  if getLE bh 0 4 ≠ tailMagic then (.error .EIOERR, bh)
  else
    let len := getLE bh 4 4
    if len > subU64 blocksize 16 then (.error .EIOERR, bh)
    else
      let (right, bh) := verifySum 0 12 (16 + len - 4) bh
      if right then (.ok (bytesFrom bh 16 len), bh) else (.error .EUCLEAN, bh)

/-- `aetherfs_btree_lookup_extent`, whose root may be `NULL`. -/
def lookupExtentAt (root : Option BtreeNode) (ino lblock : Nat) :
    Option (Except Errno (Nat × Nat)) :=
  match root with
  | none => some (.error .EINVAL)
  | some root => btreeLookupExtent root ino lblock

/-- `aetherfs_tail_unpack`: what it returns, and the block.  The root it passes is `NULL`. -/
def tailUnpack (blocksize ino offset : Nat) (bh : Option Memory) :
    Option (Except Errno (List UInt8) × Option Memory) :=
  match lookupExtentAt none ino offset with
  | none => none
  | some (.error _) => some (.error .ENOENT, bh)
  | some (.ok (block, _)) =>
    if block = 0 then some (.error .ENOENT, bh)
    else match bh with
      | none => some (.error .EIOERR, none)
      | some bh => let (rc, bh) := tailDecode blocksize bh; some (rc, some bh)

/-- Where a packed attribute is in the inode's block.  `struct aetherfs_packed_xattr` has `px_flags`
at 0, `px_name_len` at 2, `px_value_len` at 4, `px_next` at 6, `px_checksum` at 8, and the name and
the value from 12 on. -/
abbrev xattrBase : Nat := 128

/-- The record `aetherfs_write_packed_xattr` fills in. -/
def xattrEncode (bh : Memory) (name value : List UInt8) : Memory :=
  let m := setLE bh (xattrBase + 2) 2 name.length
  let m := setLE m (xattrBase + 4) 2 value.length
  let m := setLE m xattrBase 2 0
  let m := setLE m (xattrBase + 6) 2 0
  let m := setBytes m (xattrBase + 12) name
  let m := setBytes m (xattrBase + 12 + name.length) value
  storeSum xattrBase 8 (12 + name.length + value.length - 4) m

/-- `aetherfs_write_packed_xattr`: the block that is written.  `bh` is the answer of `sb_bread`. -/
def writePackedXattr (bh : Option Memory) (name value : List UInt8) : Except Errno Memory :=
  if value.length = 0 then .error .EINVAL
  else if name.length > 255 ∨ value.length > 4096 then .error .EINVAL
  else if 12 + name.length + value.length > 256 then .error .ENOSPC
  else match bh with
    | none => .error .EIOERR
    | some bh => .ok (xattrEncode bh name value)

/-- `aetherfs_read_packed_xattr`: what it returns, and the block. -/
def readPackedXattr (bh : Option Memory) (name : List UInt8) :
    Except Errno (List UInt8) × Option Memory :=
  match bh with
  | none => (.error .EIOERR, none)
  | some bh =>
    if getLE bh (xattrBase + 2) 2 ≠ name.length ∨
        bytesFrom bh (xattrBase + 12) name.length ≠ name then (.error .ENOENT, some bh)
    else
      let (right, bh) := verifySum xattrBase 8 (12 + name.length + getLE bh (xattrBase + 4) 2 - 4) bh
      if right then
        (.ok (bytesFrom bh (xattrBase + 12 + name.length) (getLE bh (xattrBase + 4) 2)), some bh)
      else (.error .EUCLEAN, some bh)

/-! ## 2. The sum -/

section Sum

variable {base field len : Nat} {m : Memory}

/-- The sum in the record is that of the record with a zero in its place. -/
def SumRight (base field len : Nat) (m : Memory) : Prop :=
  getLE m (base + field) 4 = hashed (setLE m (base + field) 4 0) base len

theorem verifySum_kept : (verifySum base field len m).2 = m := by
  rw [verifySum, setLE_setLE, setLE_getLE]

theorem verifySum_eq_true : (verifySum base field len m).1 = true ↔ SumRight base field len m := by
  rw [verifySum, SumRight, decide_eq_true_eq]

theorem verified_eq_ok {α : Type} {e : Errno} {x y : α} :
    (if (verifySum base field len m).1 = true then .ok x else .error e : Except Errno α) = .ok y ↔
      SumRight base field len m ∧ y = x := by
  rw [← ite_not, ite_error_eq_ok, not_not, verifySum_eq_true, Except.ok.injEq, eq_comm (a := x)]

/-- **What is stored is right** exactly when the bytes that the field held, as far as they are
hashed, hash to nothing. -/
theorem storeSum_right_iff (h : field ≤ len) : SumRight base field len (storeSum base field len m) ↔
    kernelRegister 0#32 (bytesFrom m (base + field) (min 4 (len - field))) = 0#32 := by
  rw [SumRight, storeSum, getLE_setLE_self, setLE_setLE,
    Nat.mod_eq_of_lt (hashed_lt _ _ _), hashed_zeroed_iff h]

/-- One byte, fed to a zero register, leaves zero only if it is zero. -/
theorem kernelRegister_byte {x : UInt8} (h : kernelRegister 0#32 [x] = 0#32) : x = 0 := by
  have hstep : shiftStep crcPoly (crcByte x) = 0#32 := by
    rw [← h, kernelRegister, List.foldl_cons, List.foldl_nil, BitVec.zero_xor]
  have hbyte := shiftStep_eq_zero crcPoly_msb hstep
  have hval := congrArg BitVec.toNat hbyte
  rw [crcByte, BitVec.toNat_setWidth, UInt8.toNat_toBitVec,
    Nat.mod_eq_of_lt (Nat.lt_trans x.toNat_lt (by norm_num))] at hval
  exact UInt8.toNat_inj.mp hval

/-- **A changed byte changes the hash** exactly when it is hashed. -/
theorem hashed_update_iff {a : Nat} {b : UInt8} (ha : base ≤ a) (hb : b ≠ m a) :
    hashed (Function.update m a b) base len = hashed m base len ↔ base + len ≤ a := by
  constructor
  · intro heq
    by_contra hlt
    obtain ⟨k, rfl⟩ := Nat.exists_eq_add_of_le ha
    have hone : ∀ x : Memory, bytesFrom x (base + k) 1 = [x (base + k)] := fun x => rfl
    have hout : ∀ i, i < len → i < k ∨ k + 1 ≤ i →
        Function.update m (base + k) b (base + i) = m (base + i) := by
      intro i _ hi
      exact Function.update_of_ne (by omega) _ _
    rw [hashed_window_iff (by omega) hout, hone, hone, Function.update_self] at heq
    exact hb (UInt8.xor_eq_zero_iff.mp (kernelRegister_byte heq))
  · intro hle
    rw [hashed, hashed, bytesFrom_congr fun i hi => ?_]
    exact Function.update_of_ne (by omega) _ _

/-- **When a changed byte goes unnoticed**: exactly when it is behind what is hashed. -/
theorem sumRight_update_iff {a : Nat} {b : UInt8} (hright : SumRight base field len m)
    (ha : base + field + 4 ≤ a) (hb : b ≠ m a) :
    SumRight base field len (Function.update m a b) ↔ base + len ≤ a := by
  have hfield : getLE (Function.update m a b) (base + field) 4 = getLE m (base + field) 4 :=
    getLE_congr fun i _ hi => Function.update_of_ne (by omega) _ _
  have hzero : setLE (Function.update m a b) (base + field) 4 0
      = Function.update (setLE m (base + field) 4 0) a b := by
    funext i
    by_cases hi : i = a
    · rw [hi, Function.update_self, setLE_of_out _ _ (Or.inr ha), Function.update_self]
    · rw [Function.update_of_ne hi]
      simp only [setLE, Function.update_of_ne hi]
  have hstale : b ≠ setLE m (base + field) 4 0 a := by
    rwa [setLE_of_out _ _ (Or.inr ha)]
  rw [SumRight, hfield, hzero, hright, eq_comm]
  exact hashed_update_iff (by omega) hstale

end Sum

/-! ## 3. What is decoded -/

section Decode

variable {blocksize : Nat} {bh : Memory}

/-- **A packed tail that is accepted.** -/
theorem tailDecode_eq_ok {data : List UInt8} : (tailDecode blocksize bh).1 = .ok data ↔
    getLE bh 0 4 = tailMagic ∧ getLE bh 4 4 ≤ subU64 blocksize 16 ∧
      SumRight 0 12 (12 + getLE bh 4 4) bh ∧ data = bytesFrom bh 16 (getLE bh 4 4) := by
  have hlen : 16 + getLE bh 4 4 - 4 = 12 + getLE bh 4 4 := by omega
  unfold tailDecode
  simp only [apply_ite Prod.fst, verifySum_kept, hlen]
  rw [ite_error_eq_ok, ite_error_eq_ok, verified_eq_ok, not_not, Nat.not_lt]

/-- **A packed attribute that is accepted.** -/
theorem readPackedXattr_eq_ok {name value : List UInt8} :
    (readPackedXattr (some bh) name).1 = .ok value ↔
      getLE bh (xattrBase + 2) 2 = name.length ∧
      bytesFrom bh (xattrBase + 12) name.length = name ∧
      SumRight xattrBase 8 (8 + name.length + getLE bh (xattrBase + 4) 2) bh ∧
      value = bytesFrom bh (xattrBase + 12 + name.length) (getLE bh (xattrBase + 4) 2) := by
  have hlen : 12 + name.length + getLE bh (xattrBase + 4) 2 - 4
      = 8 + name.length + getLE bh (xattrBase + 4) 2 := by omega
  unfold readPackedXattr
  simp only [apply_ite Prod.fst, verifySum_kept, hlen]
  rw [ite_error_eq_ok, verified_eq_ok, not_or, not_not, not_not, and_assoc]

/-- No tail is found. -/
theorem tailUnpack_fails (blocksize ino offset : Nat) (bh : Option Memory) :
    tailUnpack blocksize ino offset bh = some (.error .ENOENT, bh) := rfl

end Decode

/-! ## 4. Writing and reading back -/

section RoundTrip

variable {blocksize offset block : Nat} {bh : Memory} {data name value : List UInt8}

theorem tailEncode_eq : ∃ m, tailEncode bh offset data = storeSum 0 12 (12 + data.length) m ∧
    getLE m 0 4 = tailMagic ∧ getLE m 4 4 = data.length % 2 ^ 32 ∧
    bytesFrom m 16 data.length = data ∧ bytesFrom m 12 4 = bytesFrom bh 12 4 := by
  have hlen : 16 + data.length - 4 = 12 + data.length := by omega
  refine ⟨_, by rw [tailEncode, hlen], ?_, ?_, bytesFrom_setBytes_self _ _ _, ?_⟩
  · rw [getLE_setBytes_of_disjoint _ _ (by norm_num), getLE_setLE_of_disjoint _ _ (by norm_num),
      getLE_setLE_of_disjoint _ _ (by norm_num), getLE_setLE_self]
    rfl
  · rw [getLE_setBytes_of_disjoint _ _ (by norm_num), getLE_setLE_of_disjoint _ _ (by norm_num),
      getLE_setLE_self]
    norm_num
  · rw [bytesFrom_setBytes_of_disjoint _ _ (by norm_num),
      bytesFrom_setLE_of_disjoint _ _ (by norm_num), bytesFrom_setLE_of_disjoint _ _ (by norm_num),
      bytesFrom_setLE_of_disjoint _ _ (by norm_num)]

/-- **A tail that has been packed can be unpacked** exactly when what the field held before hashes
to nothing. -/
theorem tailDecode_encode_iff (hwidth : data.length < 2 ^ 32) (hmin : 4 ≤ data.length)
    (hmax : data.length ≤ subU64 blocksize 16) :
    (tailDecode blocksize (tailEncode bh offset data)).1 = .ok data ↔
      kernelRegister 0#32 (bytesFrom bh 12 4) = 0#32 := by
  obtain ⟨m, hm, hmagic, hsize, hdata, hfield⟩ := @tailEncode_eq offset bh data
  rw [Nat.mod_eq_of_lt hwidth] at hsize
  have hmagic' : getLE (tailEncode bh offset data) 0 4 = tailMagic := by
    rw [hm, storeSum, getLE_setLE_of_disjoint _ _ (by norm_num), hmagic]
  have hsize' : getLE (tailEncode bh offset data) 4 4 = data.length := by
    rw [hm, storeSum, getLE_setLE_of_disjoint _ _ (by norm_num), hsize]
  have hdata' : bytesFrom (tailEncode bh offset data) 16 data.length = data := by
    rw [hm, storeSum, bytesFrom_setLE_of_disjoint _ _ (by norm_num), hdata]
  have hsum : SumRight 0 12 (12 + data.length) (tailEncode bh offset data) ↔
      kernelRegister 0#32 (bytesFrom bh 12 4) = 0#32 := by
    rw [hm, storeSum_right_iff (by omega), Nat.zero_add, Nat.add_sub_cancel_left,
      Nat.min_eq_left hmin, hfield]
  rw [tailDecode_eq_ok, hsize', hdata', hsum]
  exact ⟨fun h => h.2.2.1, fun h => ⟨hmagic', hmax, h, rfl⟩⟩

theorem xattrEncode_eq : ∃ m, xattrEncode bh name value
      = storeSum xattrBase 8 (8 + name.length + value.length) m ∧
    getLE m (xattrBase + 2) 2 = name.length % 2 ^ 16 ∧
    getLE m (xattrBase + 4) 2 = value.length % 2 ^ 16 ∧
    bytesFrom m (xattrBase + 12) name.length = name ∧
    bytesFrom m (xattrBase + 12 + name.length) value.length = value ∧
    ∀ w, w ≤ 4 → bytesFrom m (xattrBase + 8) w = bytesFrom bh (xattrBase + 8) w := by
  have hlen : 12 + name.length + value.length - 4 = 8 + name.length + value.length := by omega
  refine ⟨_, by rw [xattrEncode, hlen], ?_, ?_, ?_, bytesFrom_setBytes_self _ _ _, fun w hw => ?_⟩
  · rw [getLE_setBytes_of_disjoint _ _ (by omega), getLE_setBytes_of_disjoint _ _ (by norm_num),
      getLE_setLE_of_disjoint _ _ (by norm_num), getLE_setLE_of_disjoint _ _ (by norm_num),
      getLE_setLE_of_disjoint _ _ (by norm_num), getLE_setLE_self]
    norm_num
  · rw [getLE_setBytes_of_disjoint _ _ (by omega), getLE_setBytes_of_disjoint _ _ (by norm_num),
      getLE_setLE_of_disjoint _ _ (by norm_num), getLE_setLE_of_disjoint _ _ (by norm_num),
      getLE_setLE_self]
    norm_num
  · rw [bytesFrom_setBytes_of_disjoint _ _ (by omega), bytesFrom_setBytes_self]
  · rw [bytesFrom_setBytes_of_disjoint _ _ (by omega), bytesFrom_setBytes_of_disjoint _ _ (by omega),
      bytesFrom_setLE_of_disjoint _ _ (by omega), bytesFrom_setLE_of_disjoint _ _ (by omega),
      bytesFrom_setLE_of_disjoint _ _ (by omega), bytesFrom_setLE_of_disjoint _ _ (by omega)]

/-- **An attribute that has been written can be read** under the same condition; of a name and a
value of less than four bytes together only as many bytes of the field count. -/
theorem readPackedXattr_encode_iff (hname : name.length < 2 ^ 16) (hvalue : value.length < 2 ^ 16) :
    (readPackedXattr (some (xattrEncode bh name value)) name).1 = .ok value ↔
      kernelRegister 0#32 (bytesFrom bh (xattrBase + 8) (min 4 (name.length + value.length)))
        = 0#32 := by
  obtain ⟨m, hm, hnl, hvl, hn, hv, hfield⟩ := @xattrEncode_eq bh name value
  rw [Nat.mod_eq_of_lt hname] at hnl
  rw [Nat.mod_eq_of_lt hvalue] at hvl
  have hnl' : getLE (xattrEncode bh name value) (xattrBase + 2) 2 = name.length := by
    rw [hm, storeSum, getLE_setLE_of_disjoint _ _ (by norm_num), hnl]
  have hvl' : getLE (xattrEncode bh name value) (xattrBase + 4) 2 = value.length := by
    rw [hm, storeSum, getLE_setLE_of_disjoint _ _ (by norm_num), hvl]
  have hn' : bytesFrom (xattrEncode bh name value) (xattrBase + 12) name.length = name := by
    rw [hm, storeSum, bytesFrom_setLE_of_disjoint _ _ (by norm_num), hn]
  have hv' : bytesFrom (xattrEncode bh name value) (xattrBase + 12 + name.length) value.length
      = value := by
    rw [hm, storeSum, bytesFrom_setLE_of_disjoint _ _ (by omega), hv]
  have hsum : SumRight xattrBase 8 (8 + name.length + value.length) (xattrEncode bh name value) ↔
      kernelRegister 0#32 (bytesFrom bh (xattrBase + 8) (min 4 (name.length + value.length)))
        = 0#32 := by
    rw [hm, storeSum_right_iff (by omega), Nat.add_assoc 8, Nat.add_sub_cancel_left,
      hfield _ (Nat.min_le_left _ _)]
  rw [readPackedXattr_eq_ok, hnl', hvl', hv', hsum]
  exact ⟨fun h => h.2.2.1, fun h => ⟨rfl, hn', h, rfl⟩⟩

/-- What `aetherfs_tail_pack` accepts, with a block to write it to. -/
theorem tailPack_eq_ok {written : Memory} :
    tailPack blocksize offset data block (some bh) = .ok written ↔
      512 ≤ data.length ∧ data.length ≤ subU64 blocksize 16 ∧ block ≠ 0 ∧
        written = tailEncode bh offset data := by
  unfold tailPack
  rw [ite_error_eq_ok, ite_error_eq_ok, ite_error_eq_ok, ite_error_eq_ok, Except.ok.injEq,
    Nat.not_lt, Nat.not_lt, eq_comm (a := tailEncode bh offset data)]
  constructor
  · rintro ⟨-, hmin, hmax, hblock, rfl⟩
    exact ⟨hmin, hmax, hblock, rfl⟩
  · rintro ⟨hmin, hmax, hblock, rfl⟩
    exact ⟨by omega, hmin, hmax, hblock, rfl⟩

theorem writePackedXattr_eq_ok {written : Memory}
    (h : writePackedXattr (some bh) name value = .ok written) :
    12 + name.length + value.length ≤ 256 ∧ written = xattrEncode bh name value := by
  unfold writePackedXattr at h
  rw [ite_error_eq_ok, ite_error_eq_ok, ite_error_eq_ok] at h
  obtain ⟨-, -, htotal, hwritten⟩ := h
  exact ⟨Nat.not_lt.mp htotal, (Except.ok.inj hwritten).symm⟩

end RoundTrip

/-- **When a dense record can be read back.**  Over any previous content of the block, whatever is
accepted: exactly when the bytes that the checksum field held before, as far as the hash covers them,
leave a zero register zero. -/
theorem dense_round_trip_iff (bh : Memory) :
    (∀ (blocksize offset block : Nat) (written : Memory) (data : List UInt8),
      data.length < 2 ^ 32 → tailPack blocksize offset data block (some bh) = .ok written →
      ((tailDecode blocksize written).1 = .ok data ↔
        kernelRegister 0#32 (bytesFrom bh 12 4) = 0#32)) ∧
    ∀ (written : Memory) (name value : List UInt8),
      writePackedXattr (some bh) name value = .ok written →
      ((readPackedXattr (some written) name).1 = .ok value ↔ kernelRegister 0#32
        (bytesFrom bh (xattrBase + 8) (min 4 (name.length + value.length))) = 0#32) := by
  refine ⟨fun blocksize offset block written data hwidth hpack => ?_,
    fun written name value hwrite => ?_⟩
  · obtain ⟨hmin, hmax, -, rfl⟩ := tailPack_eq_ok.mp hpack
    exact tailDecode_encode_iff hwidth (by omega) hmax
  · obtain ⟨htotal, rfl⟩ := writePackedXattr_eq_ok hwrite
    exact readPackedXattr_encode_iff (by omega) (by omega)

/-- A name of one byte. -/
def shortName : List UInt8 := [97]

/-- The shortest tail that is packed. -/
def zeroData : List UInt8 := List.replicate 512 0

theorem zeroData_length : zeroData.length = 512 := List.length_replicate

/-- On a block of zeros the first write of an attribute can be read back. -/
theorem first_write_read : ∃ written, writePackedXattr (some fun _ => 0) shortName [1] = .ok written ∧
    (readPackedXattr (some written) shortName).1 = .ok [1] :=
  ⟨_, rfl, ((dense_round_trip_iff fun _ => 0).2 _ shortName [1] rfl).mpr (by decide)⟩

/-- **A second write of an attribute is lost**: the block is zero, the attribute is written twice,
and the second value cannot be read.  And a tail packed over a block with a sum in it cannot be
unpacked. -/
theorem second_write_lost :
    (∃ first second, writePackedXattr (some fun _ => 0) shortName [1] = .ok first ∧
      writePackedXattr (some first) shortName [2] = .ok second ∧
      (readPackedXattr (some second) shortName).1 = .error .EUCLEAN) ∧
    ∃ written, tailPack 4096 0 zeroData 9 (some (setLE (fun _ => 0) 12 4 1)) = .ok written ∧
      (tailDecode 4096 written).1 ≠ .ok zeroData := by
  have hroom : zeroData.length ≤ subU64 4096 16 := by
    rw [zeroData_length]
    norm_num [subU64]
  refine ⟨⟨_, _, rfl, rfl, by decide +kernel⟩, tailEncode (setLE (fun _ => 0) 12 4 1) 0 zeroData,
    tailPack_eq_ok.mpr ⟨?_, hroom, by norm_num, rfl⟩, fun hread => ?_⟩
  · rw [zeroData_length]
  · have hlength := zeroData_length
    have hzero := (tailDecode_encode_iff (by omega) (by omega) hroom).mp hread
    exact absurd hzero (by decide +kernel)

/-! ## 5. Changed bytes -/

section Changed

variable {blocksize i : Nat} {bh : Memory} {data name value : List UInt8} {b : UInt8}

/-- A tail with a changed byte of data is accepted exactly when the byte is one of the last four. -/
theorem tailDecode_update_iff (hread : (tailDecode blocksize bh).1 = .ok data)
    (hb : b ≠ bh (16 + i)) :
    (∃ data', (tailDecode blocksize (Function.update bh (16 + i) b)).1 = .ok data') ↔
      data.length ≤ i + 4 := by
  obtain ⟨hmagic, hsize, hsum, rfl⟩ := tailDecode_eq_ok.mp hread
  have hfront : ∀ off w, off + w ≤ 16 →
      getLE (Function.update bh (16 + i) b) off w = getLE bh off w := by
    intro off w h
    exact getLE_congr fun k _ hk => Function.update_of_ne (by omega) _ _
  rw [bytesFrom_length]
  simp only [tailDecode_eq_ok, hfront 0 4 (by norm_num), hfront 4 4 (by norm_num),
    sumRight_update_iff hsum (show 0 + 12 + 4 ≤ 16 + i by omega) hb]
  constructor
  · rintro ⟨data', -, -, hle, -⟩
    omega
  · intro hle
    exact ⟨_, hmagic, hsize, by omega, rfl⟩

/-- The same of an attribute with a changed byte of its value. -/
theorem readPackedXattr_update_iff (hread : (readPackedXattr (some bh) name).1 = .ok value)
    (hb : b ≠ bh (xattrBase + 12 + name.length + i)) :
    (∃ value', (readPackedXattr
      (some (Function.update bh (xattrBase + 12 + name.length + i) b)) name).1 = .ok value') ↔
      value.length ≤ i + 4 := by
  obtain ⟨hnl, hname, hsum, rfl⟩ := readPackedXattr_eq_ok.mp hread
  have hfront : ∀ off w, off + w ≤ xattrBase + 12 →
      getLE (Function.update bh (xattrBase + 12 + name.length + i) b) off w = getLE bh off w := by
    intro off w h
    exact getLE_congr fun k _ hk => Function.update_of_ne (by omega) _ _
  have hname' : bytesFrom (Function.update bh (xattrBase + 12 + name.length + i) b)
      (xattrBase + 12) name.length = name := by
    rw [bytesFrom_congr fun k hk => Function.update_of_ne (by omega) _ _, hname]
  rw [bytesFrom_length]
  simp only [readPackedXattr_eq_ok, hfront (xattrBase + 2) 2 (by norm_num),
    hfront (xattrBase + 4) 2 (by norm_num), hname',
    sumRight_update_iff hsum (show xattrBase + 8 + 4 ≤ xattrBase + 12 + name.length + i by omega) hb]
  constructor
  · rintro ⟨value', -, -, hle, -⟩
    omega
  · intro hle
    exact ⟨_, hnl, trivial, by omega, rfl⟩

end Changed

/-- **When a changed byte of the payload is noticed**, in a record that is accepted: exactly when at
least four bytes of the payload are behind it.  Of a tail this is said of the decoder, which
`aetherfs_tail_unpack` never comes to. -/
theorem dense_detects_iff (bh : Memory) (i : Nat) (b : UInt8) :
    (∀ (blocksize : Nat) (data : List UInt8), (tailDecode blocksize bh).1 = .ok data →
      i < data.length → b ≠ bh (16 + i) →
      ((∃ e, (tailDecode blocksize (Function.update bh (16 + i) b)).1 = .error e) ↔
        i + 4 < data.length)) ∧
    (∀ (blocksize ino offset : Nat) (buffer : Option Memory),
      tailUnpack blocksize ino offset buffer = some (.error .ENOENT, buffer)) ∧
    ∀ name value : List UInt8, (readPackedXattr (some bh) name).1 = .ok value → i < value.length →
      b ≠ bh (xattrBase + 12 + name.length + i) →
      ((∃ e, (readPackedXattr (some (Function.update bh (xattrBase + 12 + name.length + i) b)) name).1
        = .error e) ↔ i + 4 < value.length) := by
  refine ⟨fun blocksize data hread _ hb => ?_, tailUnpack_fails, fun name value hread _ hb => ?_⟩
  · rw [exists_error_iff, tailDecode_update_iff hread hb, Nat.not_le]
  · rw [exists_error_iff, readPackedXattr_update_iff hread hb, Nat.not_le]

/-- A tail of zeros, packed over a block of zeros. -/
def zeroTail : Memory := tailEncode (fun _ => 0) 0 zeroData

theorem zeroTail_decodes : (tailDecode 4096 zeroTail).1 = .ok zeroData := by
  have hlength := zeroData_length
  refine (tailDecode_encode_iff (by omega) (by omega) ?_).mpr (by decide)
  rw [hlength]
  norm_num [subU64]

theorem zeroTail_data {i : Nat} (hi : i < 512) : zeroTail (16 + i) = 0 := by
  have hdata := (tailDecode_eq_ok.mp zeroTail_decodes).2.2.2
  have hsize : getLE zeroTail 4 4 = 512 := by
    have hlength := congrArg List.length hdata
    rw [zeroData_length, bytesFrom_length] at hlength
    exact hlength.symm
  have hbyte := congrArg (fun l => l[i]?) hdata
  simp only [hsize, zeroData, bytesFrom, List.getElem?_map, List.getElem?_range hi,
    List.getElem?_replicate, if_pos hi, Option.map_some, Option.some.injEq] at hbyte
  exact hbyte.symm

/-- A changed first byte is noticed, of a tail and of a value of five bytes. -/
theorem first_byte_noticed :
    (∃ e, (tailDecode 4096 (Function.update zeroTail (16 + 0) 1)).1 = .error e) ∧
    ∃ e, (readPackedXattr (some (Function.update (xattrEncode (fun _ => 0) shortName [1, 2, 3, 4, 5])
      (xattrBase + 12 + 1 + 0) 9)) shortName).1 = .error e := by
  have hlength := zeroData_length
  have hzero : zeroTail (16 + 0) = 0 := zeroTail_data (by norm_num)
  constructor
  · exact ((dense_detects_iff zeroTail 0 1).1 4096 zeroData zeroTail_decodes (by omega)
      (by rw [hzero]; decide)).mpr (by omega)
  · exact ((dense_detects_iff (xattrEncode (fun _ => 0) shortName [1, 2, 3, 4, 5]) 0 9).2.2 shortName
      [1, 2, 3, 4, 5] ((readPackedXattr_encode_iff (by decide) (by decide)).mpr (by decide))
      (by decide) (by decide +kernel)).mpr (by decide)

/-- **The last byte can be anything**: of the value of an attribute, and of a tail for its decoder. -/
theorem last_byte_unnoticed :
    (∃ written, (readPackedXattr (some written) shortName).1 = .ok [1] ∧
      (readPackedXattr (some (Function.update written (xattrBase + 12 + 1) 2)) shortName).1
        = .ok [2]) ∧
    ∃ data, (tailDecode 4096 (Function.update zeroTail (16 + 511) 1)).1 = .ok data := by
  have hlength := zeroData_length
  have hlast : zeroTail (16 + 511) = 0 := zeroTail_data (by norm_num)
  refine ⟨⟨xattrEncode (fun _ => 0) shortName [1], ?_, ?_⟩, ?_⟩
  · exact (readPackedXattr_encode_iff (by decide) (by decide)).mpr (by decide)
  · decide +kernel
  · exact (tailDecode_update_iff zeroTail_decodes
      (show 1 ≠ zeroTail (16 + 511) by rw [hlast]; decide)).mpr (by omega)

end AetherFs
