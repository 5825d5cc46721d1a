/-
# Block deduplication of `reflink.c`

Blocks that have been submitted are found again by the 32-bit checksum of their contents, and by
nothing else: a block whose checksum is in the tree is counted under the block number that is
there, and the bytes of the two are never compared.

* `dedupInv_step`: whatever is submitted and released, the tree names, under a checksum, a block
  that was submitted with it.
* So what is resolved is what was submitted for every run over a set of blocks exactly when the
  checksum tells the contents of those blocks apart.  It cannot do so for all: a checksum that
  shifts once a byte does not see the second byte undo the first (`collide`).
-/
import AetherFs.Device
import AetherFs.Kernel.Crc
import AetherFs.Lib.Machine

namespace AetherFs

open Lib

/-! ## 1. The source -/

/-- `enum aetherfs_dedup_mode`. -/
inductive DedupMode
  | none
  | reflink
  | block
  | cdc
deriving DecidableEq, Repr

/-- `mode < DEDUP_MODE_BLOCK`. -/
def DedupMode.belowBlock : DedupMode → Bool
  | .none => true
  | .reflink => true
  | .block => false
  | .cdc => false

/-- `struct aetherfs_dedup_block`. -/
structure DedupBlock where
  blocknr : Nat
  checksum : Nat
  refcount : Nat

/-- `global_dedup` and `dedup_tree`. -/
structure DedupInfo where
  mode : DedupMode
  enabled : Bool
  savedBytes : Nat
  dedupBlocks : Nat
  tree : Nat → Option DedupBlock

/-- `block_checksum` of a whole block. -/
def blockChecksum (data : Block) : Nat := (kernelCrc32c 0xFFFFFFFF#32 (toList data)).toNat

/-- Another entry under a checksum. -/
def DedupInfo.put (info : DedupInfo) (checksum : Nat) (entry : Option DedupBlock) : DedupInfo :=
  { info with tree := Function.update info.tree checksum entry }

/-- One block saved. -/
def DedupInfo.saved (info : DedupInfo) : DedupInfo :=
  { info with
    savedBytes := addU64 info.savedBytes 4096
    dedupBlocks := addU64 info.dedupBlocks 1 }

/-- `aetherfs_dedup_block`; `memory` and `node` say whether `kzalloc` and `radix_tree_insert`
succeed.  The data are not looked at. -/
def dedupBlock (memory node : Bool) (info : DedupInfo) (blocknr checksum : Nat) :
    Except Errno Unit × DedupInfo :=
  if blocknr = 0 then (.error .EINVAL, info)
  else if info.enabled = false then (.ok (), info)
  else if info.mode.belowBlock then (.ok (), info)
  else match info.tree checksum with
    | some db =>
      (.ok (), (info.put checksum (some { db with refcount := (db.refcount + 1) % 2 ^ 32 })).saved)
    | none =>
      if memory = false ∨ node = false then (.error .ENOMEM, info)
      else (.ok (), info.put checksum (some ⟨blocknr, checksum, 1⟩))

/-- `aetherfs_dedup_resolve`: the block number and the count. -/
def dedupResolve (info : DedupInfo) (checksum : Nat) : Except Errno (Nat × Nat) :=
  if info.enabled = false then .error .EINVAL
  else match info.tree checksum with
    | some db => .ok (db.blocknr, db.refcount)
    | none => .error .ENOENT

/-- `aetherfs_dedup_release`. -/
def dedupRelease (info : DedupInfo) (checksum : Nat) : Except Errno Unit × DedupInfo :=
  if checksum = 0 then (.error .EINVAL, info)
  else match info.tree checksum with
    | some db =>
      let refs := (db.refcount + (2 ^ 32 - 1)) % 2 ^ 32
      (.ok (), info.put checksum (if refs = 0 then none else some { db with refcount := refs }))
    | none => (.error .ENOENT, info)

/-! ## 2. Runs -/

/-- The table, and the blocks that were submitted and not released. -/
structure DedupMachine where
  info : DedupInfo
  live : List Nat

/-- A block is submitted with its number and the checksum of what it holds; any checksum may be
released. -/
inductive DedupCall
  | submit (memory node : Bool) (blocknr : Nat)
  | release (checksum : Nat)

section Runs

variable (disk : Nat → Block)

/-- A release that returns 0 takes one live block of that checksum away. -/
def dedupStep (m : DedupMachine) : DedupCall → DedupMachine
  | .submit memory node blocknr =>
    match dedupBlock memory node m.info blocknr (blockChecksum (disk blocknr)) with
    | (.ok _, info) => ⟨info, blocknr :: m.live⟩
    | (.error _, info) => { m with info := info }
  | .release checksum =>
    match dedupRelease m.info checksum with
    | (.ok _, info) => ⟨info, m.live.eraseP fun b => blockChecksum (disk b) = checksum⟩
    | (.error _, info) => { m with info := info }

/-- Deduplication in block mode, nothing submitted. -/
def dedupStart : DedupMachine := ⟨⟨.block, true, 0, 0, fun _ => none⟩, []⟩

/-- What is resolved for a live block holds the bytes of that block. -/
def DedupSound (m : DedupMachine) : Prop :=
  ∀ b ∈ m.live, ∀ b' count,
    dedupResolve m.info (blockChecksum (disk b)) = .ok (b', count) → disk b' = disk b

/-- Only blocks of `B` are submitted. -/
def DedupCall.From (B : Set Nat) : DedupCall → Prop
  | .submit _ _ blocknr => blocknr ∈ B
  | .release _ => True

/-- The tree names submitted blocks, each under its checksum. -/
structure DedupInv (B : Set Nat) (m : DedupMachine) : Prop where
  enabled : m.info.enabled = true
  mode : m.info.mode = .block
  tree : ∀ checksum db, m.info.tree checksum = some db →
    db.blocknr ∈ B ∧ db.blocknr ≠ 0 ∧ blockChecksum (disk db.blocknr) = checksum
  live : ∀ b ∈ m.live, b ∈ B ∧ b ≠ 0

variable {disk} {B : Set Nat} {m : DedupMachine}

theorem DedupInv.put (h : DedupInv disk B m) {checksum : Nat} {entry : Option DedupBlock}
    {live : List Nat} (hentry : ∀ db, entry = some db →
      db.blocknr ∈ B ∧ db.blocknr ≠ 0 ∧ blockChecksum (disk db.blocknr) = checksum)
    (hlive : ∀ b ∈ live, b ∈ B ∧ b ≠ 0) : DedupInv disk B ⟨m.info.put checksum entry, live⟩ := by
  refine ⟨h.enabled, h.mode, fun checksum' db hdb => ?_, hlive⟩
  simp only [DedupInfo.put, Function.update_apply] at hdb
  split at hdb
  · rename_i hsame
    rw [hsame]
    exact hentry db hdb
  · exact h.tree checksum' db hdb

/-- A block whose checksum is known is counted under the block that is there. -/
theorem dedupStep_hit (hon : m.info.enabled = true) (hmode : m.info.mode = .block) {b : Nat}
    (hb : b ≠ 0) {db : DedupBlock} (htree : m.info.tree (blockChecksum (disk b)) = some db)
    (memory node : Bool) : dedupStep disk m (.submit memory node b) =
      ⟨(m.info.put (blockChecksum (disk b))
        (some { db with refcount := (db.refcount + 1) % 2 ^ 32 })).saved, b :: m.live⟩ := by
  rw [dedupStep, dedupBlock, if_neg hb, if_neg (by simp [hon]),
    if_neg (by simp [hmode, DedupMode.belowBlock]), htree]

/-- A block whose checksum is not known is entered, if there is memory for it. -/
theorem dedupStep_new (hon : m.info.enabled = true) (hmode : m.info.mode = .block) {b : Nat}
    (hb : b ≠ 0) (htree : m.info.tree (blockChecksum (disk b)) = none) (memory node : Bool) :
    dedupStep disk m (.submit memory node b) =
      if memory = false ∨ node = false then m
      else ⟨m.info.put (blockChecksum (disk b)) (some ⟨b, blockChecksum (disk b), 1⟩),
        b :: m.live⟩ := by
  rw [dedupStep, dedupBlock, if_neg hb, if_neg (by simp [hon]),
    if_neg (by simp [hmode, DedupMode.belowBlock]), htree]
  by_cases hmem : memory = false ∨ node = false
  · simp only [if_pos hmem]
  · simp only [if_neg hmem]

theorem DedupInv.submit (h : DedupInv disk B m) {memory node : Bool} {b : Nat}
    (hb : b ∈ B) : DedupInv disk B (dedupStep disk m (.submit memory node b)) := by
  by_cases hzero : b = 0
  · rw [dedupStep, dedupBlock, if_pos hzero]
    exact h
  · have hlive : ∀ b' ∈ b :: m.live, b' ∈ B ∧ b' ≠ 0 :=
      List.forall_mem_cons.mpr ⟨⟨hb, hzero⟩, h.live⟩
    cases htree : m.info.tree (blockChecksum (disk b)) with
    | some db =>
      rw [dedupStep_hit h.enabled h.mode hzero htree]
      have hput : DedupInv disk B ⟨m.info.put (blockChecksum (disk b))
          (some { db with refcount := (db.refcount + 1) % 2 ^ 32 }), b :: m.live⟩ := by
        refine h.put (fun db' hdb' => ?_) hlive
        obtain rfl := Option.some.inj hdb'
        exact h.tree _ db htree
      exact ⟨hput.enabled, hput.mode, hput.tree, hput.live⟩
    | none =>
      rw [dedupStep_new h.enabled h.mode hzero htree]
      split
      · exact h
      · refine h.put (fun db' hdb' => ?_) hlive
        obtain rfl := Option.some.inj hdb'
        exact ⟨hb, hzero, rfl⟩

theorem DedupInv.release (h : DedupInv disk B m) (checksum : Nat) :
    DedupInv disk B (dedupStep disk m (.release checksum)) := by
  rw [dedupStep, dedupRelease]
  by_cases hzero : checksum = 0
  · rw [if_pos hzero]
    exact h
  · rw [if_neg hzero]
    cases htree : m.info.tree checksum with
    | none => exact h
    | some db =>
      refine h.put (fun db' hdb' => ?_) fun b hb => h.live b (List.mem_of_mem_eraseP hb)
      split at hdb'
      · exact absurd hdb' (by simp)
      · obtain rfl := Option.some.inj hdb'
        exact h.tree _ db htree

/-- **One call.** -/
theorem dedupInv_step (h : DedupInv disk B m) {c : DedupCall} (hc : c.From B) :
    DedupInv disk B (dedupStep disk m c) := by
  cases c with
  | submit memory node blocknr => exact h.submit hc
  | release checksum => exact h.release checksum

theorem dedupInv_start (disk : Nat → Block) (B : Set Nat) : DedupInv disk B dedupStart := by
  refine ⟨rfl, rfl, fun checksum db hdb => ?_, fun b hb => absurd hb List.not_mem_nil⟩
  exact absurd hdb (by simp [dedupStart])

/-- What the tree names under a live block's checksum has that checksum. -/
theorem DedupInv.sound (h : DedupInv disk B m)
    (hB : ∀ b ∈ B, ∀ b' ∈ B, b ≠ 0 → b' ≠ 0 →
      blockChecksum (disk b) = blockChecksum (disk b') → disk b = disk b') : DedupSound disk m := by
  intro b hb b' count hres
  rw [dedupResolve, if_neg (by simp [h.enabled])] at hres
  cases htree : m.info.tree (blockChecksum (disk b)) with
  | none =>
    rw [htree] at hres
    exact absurd hres (by simp)
  | some db =>
    rw [htree] at hres
    obtain ⟨rfl, -⟩ := Prod.mk.inj (Except.ok.inj hres)
    obtain ⟨hdb, hne, hsum⟩ := h.tree _ db htree
    obtain ⟨hbB, hbne⟩ := h.live b hb
    exact hB _ hdb b hbB hne hbne hsum

end Runs

theorem dedupResolve_put {info : DedupInfo} (hon : info.enabled = true) (checksum : Nat)
    (db : DedupBlock) : dedupResolve (info.put checksum (some db)).saved checksum =
      .ok (db.blocknr, db.refcount) := by
  have hthere : (info.put checksum (some db)).saved.tree checksum = some db :=
    Function.update_self ..
  rw [dedupResolve, if_neg (by simp [DedupInfo.put, DedupInfo.saved, hon]), hthere]

/-- Two blocks submitted one after the other, the second of which finds the first. -/
theorem second_resolves_to_first (disk : Nat → Block) {b b' : Nat} (hb : b ≠ 0) (hb' : b' ≠ 0)
    (hsum : blockChecksum (disk b) = blockChecksum (disk b')) :
    let m := [DedupCall.submit true true b, .submit true true b'].foldl (dedupStep disk) dedupStart
    b' ∈ m.live ∧ dedupResolve m.info (blockChecksum (disk b')) = .ok (b, 2) := by
  have hfirst : dedupStep disk dedupStart (.submit true true b) =
      ⟨dedupStart.info.put (blockChecksum (disk b)) (some ⟨b, blockChecksum (disk b), 1⟩), [b]⟩ := by
    rw [dedupStep_new rfl rfl hb rfl, if_neg (by simp)]
    rfl
  have hthere : (dedupStart.info.put (blockChecksum (disk b))
      (some ⟨b, blockChecksum (disk b), 1⟩)).tree (blockChecksum (disk b')) =
        some ⟨b, blockChecksum (disk b), 1⟩ := by
    rw [← hsum]
    exact Function.update_self ..
  simp only [List.foldl_cons, List.foldl_nil, hfirst]
  rw [dedupStep_hit rfl rfl hb' hthere true true]
  exact ⟨List.mem_cons_self, dedupResolve_put rfl _ _⟩

/-- **Block deduplication, exactly.**  Over a set of blocks, every run resolves live blocks to blocks
of the same bytes exactly when, among those blocks, equal checksums mean equal bytes. -/
theorem dedup_sound_iff (disk : Nat → Block) (B : Set Nat) :
    (∀ calls : List DedupCall, (∀ c ∈ calls, c.From B) →
        ∀ m ∈ states (dedupStep disk) dedupStart calls, DedupSound disk m) ↔
      ∀ b ∈ B, ∀ b' ∈ B, b ≠ 0 → b' ≠ 0 →
        blockChecksum (disk b) = blockChecksum (disk b') → disk b = disk b' := by
  constructor
  · intro h b hb b' hb' hne hne' hsum
    have hfrom : ∀ c ∈ [DedupCall.submit true true b, .submit true true b'], c.From B :=
      List.forall_mem_cons.mpr ⟨hb, List.forall_mem_cons.mpr ⟨hb', fun c hc =>
        absurd hc List.not_mem_nil⟩⟩
    obtain ⟨hlive, hres⟩ := second_resolves_to_first disk hne hne' hsum
    exact h _ hfrom _ (foldl_mem_states _ _) b' hlive b 2 hres
  · intro hB calls hfrom m hm
    have hinv : DedupInv disk B m := @run_inv_mem _ _ (dedupStep disk) (DedupInv disk B)
      (DedupCall.From B) (fun hs _ hc => dedupInv_step hs hc) calls _ m (dedupInv_start disk B)
      hfrom hm
    exact hinv.sound hB

/-- A block that begins with 2 and 1, and is zero behind them. -/
def twoOne : Block := fun i => if i.val = 0 then 2 else if i.val = 1 then 1 else 0

theorem toList_two (n : Nat) (data : Bytes (n + 2)) :
    toList data = data 0 :: data 1 :: List.ofFn fun i : Fin n => data i.succ.succ := by
  rw [toList, List.ofFn_succ, List.ofFn_succ]
  rfl

/-- The second byte undoes what one shift has made of the first. -/
theorem register_two_one (l : List UInt8) :
    kernelRegister 0xFFFFFFFF#32 (2 :: 1 :: l) = kernelRegister 0xFFFFFFFF#32 (0 :: 0 :: l) := by
  have hstart : shiftStep crcPoly (shiftStep crcPoly (0xFFFFFFFF#32 ^^^ crcByte 2) ^^^ crcByte 1)
      = shiftStep crcPoly (shiftStep crcPoly (0xFFFFFFFF#32 ^^^ crcByte 0) ^^^ crcByte 0) := by
    decide
  simp only [kernelRegister, List.foldl_cons, hstart]

/-- **Two blocks of one checksum.** -/
theorem collide : blockChecksum twoOne = blockChecksum (zeros 4096) := by
  have htail : (fun i : Fin 4094 => twoOne i.succ.succ) = fun _ => 0 := by
    funext i
    simp [twoOne]
  have htwo : toList twoOne = 2 :: 1 :: List.ofFn fun _ : Fin 4094 => 0 := by
    rw [toList_two 4094 twoOne, htail]
    rfl
  have hzero : toList (zeros 4096) = 0 :: 0 :: List.ofFn fun _ : Fin 4094 => 0 :=
    toList_two 4094 (zeros 4096)
  rw [blockChecksum, blockChecksum, htwo, hzero, kernelCrc32c, kernelCrc32c, register_two_one]

/-- A disk with the two blocks in places 8 and 9. -/
def collisionDisk (b : Nat) : Block := if b = 8 then zeros 4096 else twoOne

theorem other_bytes_resolved :
    let m := [DedupCall.submit true true 8, .submit true true 9].foldl (dedupStep collisionDisk)
      dedupStart
    9 ∈ m.live ∧ dedupResolve m.info (blockChecksum (collisionDisk 9)) = .ok (8, 2) ∧
      collisionDisk 8 ≠ collisionDisk 9 := by
  have hsum : blockChecksum (collisionDisk 8) = blockChecksum (collisionDisk 9) := collide.symm
  obtain ⟨hlive, hres⟩ := second_resolves_to_first collisionDisk (by decide) (by decide) hsum
  refine ⟨hlive, hres, fun hsame => ?_⟩
  have hbyte : (0 : UInt8) = 2 := congrFun hsame 0
  exact absurd hbyte (by decide)

end AetherFs
