/-
# The data modes of `data_modes.c`

A file is in one of three modes, which two bits of `i_flags` stand for.  `aetherfs_set_data_mode`
sets both bits; `aetherfs_apply_policy` sets or clears one, and the append bit comes first when the
mode is read.  So a policy does not take a file out of append mode: along a run the mode is the one
that was asked for last exactly when no policy asks for another while the file is in it.

`aetherfs_write_mode` writes in place, but for copy-on-write.  There it takes a block from the
allocator, writes the new content to it -- and tells nobody: no extent is set, and a read of the
block that was written finds what was there before.  The writes of a run are where a read finds them
exactly when each of them is not a copy, or the allocator happens to answer with the block itself, or
there was nothing to change (`WriteFits`).
-/
import AetherFs.Kernel.Checksum
import AetherFs.Kernel.Cursor
import AetherFs.Kernel.Policy
import AetherFs.Lib.Machine

namespace AetherFs

open Lib

/-! ## 1. The source -/

/-- `AETHERFS_F_COW`. -/
abbrev flagCow : BitVec 32 := 0x0001#32

/-- `AETHERFS_F_COMPRESSED`. -/
abbrev flagCompressed : BitVec 32 := 0x0002#32

/-- `AETHERFS_F_APPEND`. -/
abbrev flagAppend : BitVec 32 := 0x0020#32

/-- The modes. -/
inductive DataMode
  | cow
  | overwrite
  | append
deriving DecidableEq, Repr

/-- `AETHERFS_COW_MODE`, `AETHERFS_OVERWRITE_MODE`, `AETHERFS_APPEND_MODE`. -/
def DataMode.ofCode (mode : Int) : Option DataMode :=
  if mode = 0 then some .cow
  else if mode = 1 then some .overwrite
  else if mode = 2 then some .append
  else none

/-- The cases of `aetherfs_set_data_mode`. -/
def DataMode.put (flags : BitVec 32) : DataMode → BitVec 32
  | .cow => (flags &&& ~~~flagAppend) ||| flagCow
  | .overwrite => flags &&& ~~~(flagCow ||| flagAppend)
  | .append => (flags &&& ~~~flagCow) ||| flagAppend

/-- `aetherfs_set_data_mode`. -/
def setDataMode (flags : BitVec 32) (mode : Int) : Except Errno (BitVec 32) :=
  match DataMode.ofCode mode with
  | some mode => .ok (mode.put flags)
  | none => .error .EINVAL

/-- `aetherfs_get_data_mode`. -/
def getDataMode (flags : BitVec 32) : DataMode :=
  if flags &&& flagAppend ≠ 0 then .append
  else if flags &&& flagCow ≠ 0 then .cow
  else .overwrite

/-- `AETHERFS_MODE_COW`, `AETHERFS_MODE_OVERWRITE` and `AETHERFS_MODE_APPEND`, whose numbers are not in
the source; as labels of one `switch` they differ. -/
structure ModeCodes where
  cow : UInt32
  overwrite : UInt32
  append : UInt32
  overwrite_ne : overwrite ≠ cow
  append_ne : append ≠ cow ∧ append ≠ overwrite

/-- The mode a policy names, if it names one. -/
def ModeCodes.decode (codes : ModeCodes) (mode : UInt32) : Option DataMode :=
  if mode = codes.cow then some .cow
  else if mode = codes.overwrite then some .overwrite
  else if mode = codes.append then some .append
  else none

/-- The cases of `aetherfs_apply_policy`. -/
def DataMode.adapt (flags : BitVec 32) : DataMode → BitVec 32
  | .cow => flags ||| flagCow
  | .overwrite => flags &&& ~~~flagCow
  | .append => flags ||| flagAppend

/-- The `switch` of `aetherfs_apply_policy`, which has no default. -/
def ModeCodes.adapt (codes : ModeCodes) (flags : BitVec 32) (mode : UInt32) : BitVec 32 :=
  match codes.decode mode with
  | some mode => mode.adapt flags
  | none => flags

/-- `aetherfs_apply_policy` with the entry that was found. -/
def adaptPolicy (codes : ModeCodes) (flags : BitVec 32) (policy : Policy) : BitVec 32 :=
  let flags := codes.adapt flags policy.mode
  if policy.compress ≠ 0 then flags ||| flagCompressed else flags

/-- `aetherfs_apply_policy`, which returns 0 also where there is no policy. -/
def applyPolicy (codes : ModeCodes) (policies : List Policy) (flags : BitVec 32)
    (path : List UInt8) : BitVec 32 :=
  match getPolicy policies path with
  | .ok policy => adaptPolicy codes flags policy
  | .error _ => flags

/-- `AETHERFS_COW_THRESHOLD`. -/
abbrev cowThreshold : Nat := 4

section Write

variable {bits : Nat}

/-- `memcpy(b_data, buf, len)`, for a length that fits. -/
def copyFront (buf : Memory) (len : Nat) (b : Bytes (2 ^ bits)) : Bytes (2 ^ bits) :=
  fun i => if i.val < len then buf i else b i

/-- What the kernel's calls do for a write: whether `sb_bread` reads the block, and whether
`sb_getblk` finds memory for one. -/
structure Buffers where
  readable : Bool
  memory : Bool

/-- `aetherfs_write_mode`: its result, the allocator and the device. -/
def writeMode (flags : BitVec 32) (info : AllocInfo) (disk : Nat → Bytes (2 ^ bits)) (iblock : Nat)
    (buf : Memory) (len : Nat) (bufs : Buffers) :
    Except Errno Unit × AllocInfo × (Nat → Bytes (2 ^ bits)) :=
  let blocks := (len + 2 ^ bits - 1) / 2 ^ bits
  if getDataMode flags = .cow ∧ blocks ≤ cowThreshold then
    if bufs.readable = false then (.error .EIOERR, info, disk)
    else
      let r := allocBlocks info iblock 1
      if r.1 = 0 then (.error .ENOSPC, r.2, disk)
      else if bufs.memory = false then (.error .EIOERR, r.2, disk)
      else (.ok (), r.2, Function.update disk r.1 (copyFront buf len (disk iblock)))
  else if bufs.readable = false then (.error .EIOERR, info, disk)
  else (.ok (), info, Function.update disk iblock (copyFront buf len (disk iblock)))

end Write

/-! ## 2. Modes along a run -/

inductive ModeCall
  | set (mode : Int)
  | apply (policies : List Policy) (path : List UInt8)

/-- The mode a call asks for, if it asks for one. -/
def ModeCall.asks (codes : ModeCodes) : ModeCall → Option DataMode
  | .set mode => DataMode.ofCode mode
  | .apply policies path =>
    match getPolicy policies path with
    | .ok policy => codes.decode policy.mode
    | .error _ => none

/-- The flags after a call. -/
def ModeCall.flags (codes : ModeCodes) (flags : BitVec 32) : ModeCall → BitVec 32
  | .set mode => ((setDataMode flags mode).toOption).getD flags
  | .apply policies path => applyPolicy codes policies flags path

/-- The flags of a file, and the mode that was asked for last. -/
structure ModeMachine where
  flags : BitVec 32
  wanted : DataMode

def modeStep (codes : ModeCodes) (m : ModeMachine) (c : ModeCall) : ModeMachine :=
  ⟨c.flags codes m.flags, (c.asks codes).getD m.wanted⟩

/-- The call is no policy that asks a file in append mode for another. -/
def ModeFits (codes : ModeCodes) (m : ModeMachine) : ModeCall → Prop
  | .set _ => True
  | .apply policies path => getDataMode m.flags = .append →
      ((ModeCall.apply policies path).asks codes).getD .append = .append

section Modes

variable {codes : ModeCodes} {flags : BitVec 32} {mode : DataMode}

theorem and_twoPow_ne_zero {i : Nat} (hi : i < 32) :
    flags &&& BitVec.twoPow 32 i ≠ 0 ↔ flags.getLsbD i = true := by
  rw [BitVec.and_twoPow]
  split
  · next h =>
    refine ⟨fun _ => h, fun _ hzero => ?_⟩
    have hbit := congrArg (fun v : BitVec 32 => v.getLsbD i) hzero
    simp [hi] at hbit
  · next h => simp [h]

/-- The mode is read off two bits. -/
theorem getDataMode_eq : getDataMode flags = if flags.getLsbD 5 = true then .append
    else if flags.getLsbD 0 = true then .cow else .overwrite := by
  have happend : flags &&& flagAppend ≠ 0 ↔ flags.getLsbD 5 = true :=
    @and_twoPow_ne_zero flags 5 (by decide)
  have hcow : flags &&& flagCow ≠ 0 ↔ flags.getLsbD 0 = true :=
    @and_twoPow_ne_zero flags 0 (by decide)
  simp only [getDataMode, happend, hcow]

theorem getDataMode_eq_append : getDataMode flags = .append ↔ flags.getLsbD 5 = true := by
  rw [getDataMode_eq]
  split
  · next h => exact ⟨fun _ => h, fun _ => rfl⟩
  · next h =>
    refine ⟨fun hmode => absurd hmode ?_, fun hbit => absurd hbit h⟩
    split
    · simp
    · simp

theorem flagAppend_bits : flagAppend[5] = true ∧ flagAppend[0] = false := by decide

theorem getDataMode_put : getDataMode (mode.put flags) = mode := by
  obtain ⟨hfive, hzero⟩ := flagAppend_bits
  rw [getDataMode_eq]
  cases mode with
  | cow => simp [DataMode.put, hfive]
  | overwrite => simp [DataMode.put, hfive]
  | append => simp [DataMode.put, hfive]

/-- **A policy does not take a file out of append mode.** -/
theorem getDataMode_adapt : getDataMode (mode.adapt flags)
    = if getDataMode flags = .append then .append else mode := by
  obtain ⟨hfive, hzero⟩ := flagAppend_bits
  simp only [getDataMode_eq_append]
  rw [getDataMode_eq]
  cases mode with
  | cow => simp [DataMode.adapt]
  | overwrite => simp [DataMode.adapt]
  | append => simp [DataMode.adapt, hfive]

theorem getDataMode_compressed : getDataMode (flags ||| flagCompressed) = getDataMode flags := by
  have hfive : flagCompressed[5] = false := by decide
  have hzero : flagCompressed[0] = false := by decide
  simp [getDataMode_eq, hfive, hzero]

theorem getDataMode_adaptPolicy (policy : Policy) : getDataMode (adaptPolicy codes flags policy)
    = if getDataMode flags = .append then .append
      else (codes.decode policy.mode).getD (getDataMode flags) := by
  have hcompress : getDataMode (adaptPolicy codes flags policy)
      = getDataMode (codes.adapt flags policy.mode) := by
    rw [adaptPolicy]
    split
    · exact getDataMode_compressed
    · rfl
  rw [hcompress, ModeCodes.adapt]
  cases codes.decode policy.mode with
  | some mode => exact getDataMode_adapt
  | none =>
    by_cases h : getDataMode flags = .append
    · rw [if_pos h]
      exact h
    · rw [if_neg h]
      rfl

/-- A call of `aetherfs_set_data_mode` leaves the mode it names, if it names one. -/
theorem getDataMode_set (mode : Int) : getDataMode ((ModeCall.set mode).flags codes flags)
    = (DataMode.ofCode mode).getD (getDataMode flags) := by
  rw [ModeCall.flags, setDataMode]
  cases DataMode.ofCode mode with
  | some mode => exact getDataMode_put
  | none => rfl

/-- A policy does so where the file is not in append mode. -/
theorem getDataMode_apply (policies : List Policy) (path : List UInt8) :
    getDataMode ((ModeCall.apply policies path).flags codes flags)
      = if getDataMode flags = .append then .append
        else ((ModeCall.apply policies path).asks codes).getD (getDataMode flags) := by
  rw [ModeCall.flags, ModeCall.asks, applyPolicy]
  cases getPolicy policies path with
  | ok policy => exact getDataMode_adaptPolicy policy
  | error e =>
    by_cases h : getDataMode flags = .append
    · rw [if_pos h]
      exact h
    · rw [if_neg h]
      rfl

end Modes

/-- **The mode of a file is the one that was asked for last, at every moment of a run, exactly when no
policy asks a file in append mode for another.** -/
theorem data_mode_iff (codes : ModeCodes) (flags : BitVec 32) (calls : List ModeCall) :
    (∀ t ∈ states (modeStep codes) ⟨flags, getDataMode flags⟩ calls,
        getDataMode t.flags = t.wanted) ↔
      Along (modeStep codes) (ModeFits codes) ⟨flags, getDataMode flags⟩ calls := by
  have hstep : ∀ (m : ModeMachine) (c : ModeCall), getDataMode m.flags = m.wanted →
      (getDataMode (modeStep codes m c).flags = (modeStep codes m c).wanted ↔ ModeFits codes m c) := by
    intro m c h
    simp only [modeStep, ← h]
    cases c with
    | set mode =>
      rw [getDataMode_set]
      exact ⟨fun _ => trivial, fun _ => rfl⟩
    | apply policies path =>
      rw [getDataMode_apply, ModeFits]
      by_cases happend : getDataMode m.flags = .append
      · rw [if_pos happend, happend]
        exact ⟨fun hsame _ => hsame.symm, fun hfits => (hfits rfl).symm⟩
      · rw [if_neg happend]
        exact ⟨fun _ h => absurd h happend, fun _ => rfl⟩
  refine @states_good_iff _ _ (modeStep codes) (fun m => getDataMode m.flags = m.wanted) _
    (fun _ _ => True) (ModeFits codes) (fun _ h => h) ?_ ?_ calls _ rfl
    (along_of_forall (fun _ _ => trivial) calls _)
  · exact fun m c h _ hfits => (hstep m c h).mpr hfits
  · exact fun m c h _ hgood => (hstep m c h).mp hgood

/-! ## 3. Writes along a run -/

section Writes

variable {bits : Nat}

/-- The flags of the inodes, the allocator, the device, and what a reader of the device should find:
the writes that returned 0, each at its block. -/
structure WriteMachine (bits : Nat) where
  flags : Nat → BitVec 32
  info : AllocInfo
  disk : Nat → Bytes (2 ^ bits)
  meant : Nat → Bytes (2 ^ bits)

inductive WriteCall
  | mode (ino : Nat) (c : ModeCall)
  | write (ino iblock : Nat) (buf : Memory) (len : Nat) (bufs : Buffers)
  | alloc (start len : Nat)

def writeStep (codes : ModeCodes) (m : WriteMachine bits) : WriteCall → WriteMachine bits
  | .mode ino c => { m with flags := Function.update m.flags ino (c.flags codes (m.flags ino)) }
  | .write ino iblock buf len bufs =>
    let r := writeMode (m.flags ino) m.info m.disk iblock buf len bufs
    { m with
      info := r.2.1
      disk := r.2.2
      meant := match r.1 with
        | .ok _ => Function.update m.meant iblock (copyFront buf len (m.meant iblock))
        | .error _ => m.meant }
  | .alloc start len => { m with info := (allocBlocks m.info start len).2 }

/-- A buffer is one block: what is longer is copied past its end. -/
def WriteValid (_m : WriteMachine bits) : WriteCall → Prop
  | .write _ _ _ len _ => len ≤ 2 ^ bits
  | _ => True

/-- **The calls after which a reader finds what was written**: the file is not copied on write, or the
call fails, or the allocator answers with the very block; or the block has that content already, and
the allocator's block too. -/
def WriteFits (m : WriteMachine bits) : WriteCall → Prop
  | .write ino iblock buf len bufs =>
    getDataMode (m.flags ino) ≠ .cow ∨ bufs.readable = false ∨ bufs.memory = false ∨
      m.info.freeBlocks = 0 ∨ slot m.info.blocksCount m.info.nextIno = iblock ∨
      (copyFront buf len (m.disk iblock) = m.disk iblock ∧
        m.disk (slot m.info.blocksCount m.info.nextIno) = m.disk iblock)
  | _ => True

/-- A block that fits is one block, so the threshold never decides. -/
theorem blocks_le_threshold {len : Nat} (h : len ≤ 2 ^ bits) :
    (len + 2 ^ bits - 1) / 2 ^ bits ≤ cowThreshold := by
  have hpos : 0 < 2 ^ bits := Nat.two_pow_pos bits
  refine (Nat.div_le_div_right (c := 2 ^ bits) (by omega : len + 2 ^ bits - 1 ≤ 2 * 2 ^ bits)).trans ?_
  rw [Nat.mul_div_cancel _ hpos]
  decide

theorem update_eq_update_iff {α : Type} {f : Nat → α} {i j : Nat} {v : α} :
    Function.update f i v = Function.update f j v ↔ i = j ∨ (v = f j ∧ f i = f j) := by
  constructor
  · intro h
    by_cases hij : i = j
    · exact Or.inl hij
    · have hi := congrFun h i
      have hj := congrFun h j
      rw [Function.update_self, Function.update_of_ne hij] at hi
      rw [Function.update_self, Function.update_of_ne (Ne.symm hij)] at hj
      exact Or.inr ⟨hj.symm, hi.symm.trans hj.symm⟩
  · rintro (rfl | ⟨rfl, hi⟩)
    · rfl
    · rw [Function.update_eq_self, ← hi, Function.update_eq_self]

variable {codes : ModeCodes} {m : WriteMachine bits}

theorem writeMode_cases (flags : BitVec 32) (info : AllocInfo) (disk : Nat → Bytes (2 ^ bits))
    (iblock : Nat) (buf : Memory) (bufs : Buffers) {len : Nat} (hlen : len ≤ 2 ^ bits) :
    (∃ e info', writeMode flags info disk iblock buf len bufs = (.error e, info', disk) ∧
      (getDataMode flags = .cow → bufs.readable = false ∨ bufs.memory = false ∨ info.freeBlocks = 0)) ∨
    (∃ info', writeMode flags info disk iblock buf len bufs
        = (.ok (), info', Function.update disk iblock (copyFront buf len (disk iblock))) ∧
      getDataMode flags ≠ .cow) ∨
    (∃ info', writeMode flags info disk iblock buf len bufs = (.ok (), info',
        Function.update disk (slot info.blocksCount info.nextIno) (copyFront buf len (disk iblock))) ∧
      getDataMode flags = .cow ∧ bufs.readable = true ∧ bufs.memory = true ∧ info.freeBlocks ≠ 0) := by
  have hblocks := blocks_le_threshold hlen
  unfold writeMode
  simp only [hblocks, and_true]
  by_cases hcow : getDataMode flags = .cow
  · rw [if_pos hcow]
    by_cases hread : bufs.readable = false
    · rw [if_pos hread]
      exact Or.inl ⟨_, _, rfl, fun _ => Or.inl hread⟩
    · rw [if_neg hread]
      by_cases hfree : info.freeBlocks = 0
      · rw [if_pos (by simp [allocBlocks, hfree])]
        exact Or.inl ⟨_, _, rfl, fun _ => Or.inr (Or.inr hfree)⟩
      · have hslot : (allocBlocks info iblock 1).1 = slot info.blocksCount info.nextIno := by
          rw [allocBlocks, if_neg hfree]
        rw [hslot, if_neg (slot_pos _ _)]
        by_cases hmem : bufs.memory = false
        · rw [if_pos hmem]
          exact Or.inl ⟨_, _, rfl, fun _ => Or.inr (Or.inl hmem)⟩
        · rw [if_neg hmem]
          exact Or.inr (Or.inr ⟨_, rfl, hcow, by simpa using hread, by simpa using hmem, hfree⟩)
  · rw [if_neg hcow]
    by_cases hread : bufs.readable = false
    · rw [if_pos hread]
      exact Or.inl ⟨_, _, rfl, fun h => absurd h hcow⟩
    · rw [if_neg hread]
      exact Or.inr (Or.inl ⟨_, rfl, hcow⟩)

/-- **One call**: the device stays what is meant exactly when the call fits. -/
theorem write_step_iff (h : m.disk = m.meant) (c : WriteCall) (hvalid : WriteValid m c) :
    (writeStep codes m c).disk = (writeStep codes m c).meant ↔ WriteFits m c := by
  cases c with
  | mode ino c => exact ⟨fun _ => trivial, fun _ => h⟩
  | alloc start len => exact ⟨fun _ => trivial, fun _ => h⟩
  | write ino iblock buf len bufs =>
    simp only [writeStep, WriteFits, ← h]
    obtain ⟨e, info', hw, hwhy⟩ | ⟨info', hw, hmode⟩ | ⟨info', hw, hmode, hread, hmem, hfree⟩ :=
      writeMode_cases (m.flags ino) m.info m.disk iblock buf bufs hvalid
    · rw [hw]
      refine ⟨fun _ => ?_, fun _ => rfl⟩
      by_cases hcow : getDataMode (m.flags ino) = .cow
      · rcases hwhy hcow with hread | hmem | hfree
        · exact Or.inr (Or.inl hread)
        · exact Or.inr (Or.inr (Or.inl hmem))
        · exact Or.inr (Or.inr (Or.inr (Or.inl hfree)))
      · exact Or.inl hcow
    · rw [hw]
      exact ⟨fun _ => Or.inl hmode, fun _ => rfl⟩
    · rw [hw]
      simp only [update_eq_update_iff, hmode, hread, hmem, hfree, ne_eq, not_true_eq_false,
        Bool.true_eq_false, false_or]

end Writes

/-- **The device is what the writes meant, at every moment of a run, exactly when each of them fits.** -/
theorem writes_land_iff {bits : Nat} (codes : ModeCodes) (flags : Nat → BitVec 32) (info : AllocInfo)
    (disk : Nat → Bytes (2 ^ bits)) (calls : List WriteCall)
    (hvalid : Along (writeStep codes) WriteValid ⟨flags, info, disk, disk⟩ calls) :
    (∀ t ∈ states (writeStep codes) ⟨flags, info, disk, disk⟩ calls, t.disk = t.meant) ↔
      Along (writeStep codes) WriteFits ⟨flags, info, disk, disk⟩ calls :=
  @states_good_iff _ _ (writeStep codes) (fun m => m.disk = m.meant) (fun m => m.disk = m.meant)
    WriteValid WriteFits (fun _ h => h) (fun _ c h hv hfits => (write_step_iff h c hv).mpr hfits)
    (fun _ c h hv hgood => (write_step_iff h c hv).mp hgood) calls _ rfl hvalid

/-- A byte is written to block 100 of a file that is copied on write: it goes to block 7, which is the
checkpoint root. -/
theorem writes_land_copied :
    ¬ ∀ t ∈ states (writeStep ⟨0, 1, 2, by decide, by decide⟩)
        ⟨fun _ => flagCow, mountedSmall, fun _ => zeros (2 ^ 12), fun _ => zeros (2 ^ 12)⟩
        [.write 16 100 (fun _ => 1) 1 ⟨true, true⟩], t.disk = t.meant := by
  refine fun h => absurd ((writes_land_iff _ _ _ _ _ ?_).mp h) ?_
  · exact ⟨(by decide : 1 ≤ 2 ^ 12), trivial⟩
  rintro ⟨hfits, -⟩
  rcases hfits with h | h | h | h | h | ⟨h, -⟩
  · exact h rfl
  · exact absurd h (by decide)
  · exact absurd h (by decide)
  · exact absurd h (by decide)
  · exact absurd h (by decide)
  · exact absurd (congrFun h 0) (by decide)

end AetherFs
