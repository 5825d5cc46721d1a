/-
# The calls of `dir.c` on one mount

`aetherfs_create`, `aetherfs_mkdir`, `aetherfs_unlink`, `aetherfs_rmdir` and `aetherfs_rename` work on
one block of records, whatever directory they are asked about, on the counter inode numbers come
from, and on the link counts of the inodes in memory.  What they are FOR is said by a map from names
to inodes: a call that returns 0 changes it in the obvious way, one that fails does not.

The block follows that map (`NamesAgree`) exactly as long as every call meets `NameKept`:

* `aetherfs_create` does not look at what `aetherfs_add_entry` returns.  It returns 0 for a file
  that has no name when the block could not be read or has no dead record left;
* `aetherfs_mkdir`, `aetherfs_unlink` and `aetherfs_rmdir` are always right: they return the error;
* `aetherfs_rename` is right when the new name is free and could be added, and when it is taken by an
  inode with the SAME number.  An exchange never is.

That two inodes have the same number happens: see `Kernel.Inodes`.
-/
import AetherFs.Kernel.Cursor
import AetherFs.Kernel.Dir
import AetherFs.Lib.Machine

namespace AetherFs

open Lib

/-! ## 1. The source -/

section Source

/-- What the calls of one mount work on: the fields of the superblock, the block of the directory,
and `i_nlink` and `i_ino` of the inodes in memory, of which there are `inodes`.  An inode in memory
stands for a `struct inode *`, which its number does not determine. -/
structure NameState where
  info : AllocInfo
  block : Memory
  iNlink : Nat → BitVec 32
  iIno : Nat → Nat
  inodes : Nat

/-- What `aetherfs_add_entry`, `aetherfs_delete_entry` and `aetherfs_rename` see of it. -/
def NameState.dir (s : NameState) : DirState := ⟨s.block, s.info.dirty, s.iNlink⟩

def NameState.withDir (s : NameState) (d : DirState) : NameState :=
  { s with info := { s.info with dirty := d.sDirty }, block := d.block, iNlink := d.iNlink }

/-- `aetherfs_new_inode(dir, mode, 0)`: `set_nlink(inode, 1)`, and `inc_nlink(dir)` for a
directory. -/
def NameState.newInode (s : NameState) (dir mode : Nat) (memory : Bool) :
    Except Errno Nat × NameState :=
  match AetherFs.newInode s.info mode memory with
  | (.error e, info) => (.error e, { s with info := info })
  | (.ok ino, info) =>
    let links := Function.update s.iNlink s.inodes 1
    let links := if sIsDir mode then Function.update links dir (links dir + 1) else links
    (.ok s.inodes, { s with
      info := info, iNlink := links, iIno := Function.update s.iIno s.inodes ino,
      inodes := s.inodes + 1 })

/-- `aetherfs_create`; `memory` and `read` say whether `new_inode` and `sb_bread` succeed.  The
error of `aetherfs_add_entry` is dropped. -/
def dirCreate (memory read : Bool) (bSize dir : Nat) (name : List UInt8) (mode : Nat)
    (s : NameState) : Option (Except Errno Unit × NameState) :=
  match s.newInode dir (0o100000 ||| mode) memory with
  | (.error e, s) => some (.error e, s)
  | (.ok inode, s) =>
    match addEntry read bSize name (s.iIno inode) s.dir with
    | none => none
    | some (.ok d) => some (.ok (), s.withDir d)
    | some (.error _) => some (.ok (), s)

/-- `aetherfs_mkdir`. -/
def dirMkdir (memory read : Bool) (bSize dir : Nat) (name : List UInt8) (mode : Nat)
    (s : NameState) : Option (Except Errno Unit × NameState) :=
  match s.newInode dir (0o040000 ||| mode) memory with
  | (.error e, s) => some (.error e, s)
  | (.ok inode, s) =>
    match addEntry read bSize name (s.iIno inode) s.dir with
    | none => none
    | some (.ok d) => some (.ok (), s.withDir (d.addLink dir))
    | some (.error e) => some (.error e, s)

/-- `aetherfs_unlink`. -/
def dirUnlink (read : Bool) (bSize : Nat) (name : List UInt8) (inode : Nat) (s : NameState) :
    Option (Except Errno Unit × NameState) :=
  match deleteEntry read bSize name s.dir with
  | none => none
  | some (.ok d) => some (.ok (), s.withDir (d.dropLink inode))
  | some (.error e) => some (.error e, s)

/-- `aetherfs_rmdir`. -/
def dirRmdir (read : Bool) (bSize dir : Nat) (name : List UInt8) (inode : Nat) (s : NameState) :
    Option (Except Errno Unit × NameState) :=
  match deleteEntry read bSize name s.dir with
  | none => none
  | some (.ok d) => some (.ok (), s.withDir ((d.dropLink inode).dropLink dir))
  | some (.error e) => some (.error e, s)

/-- A call of the VFS, with what the calls it makes itself answer; `alloc` is
`aetherfs_alloc_blocks`, which takes from the same counter. -/
inductive NameCall
  | create (memory read : Bool) (dir : Nat) (name : List UInt8) (mode : Nat)
  | mkdir (memory read : Bool) (dir : Nat) (name : List UInt8) (mode : Nat)
  | unlink (read : Bool) (dir : Nat) (name : List UInt8) (inode : Nat)
  | rmdir (read : Bool) (dir : Nat) (name : List UInt8) (inode : Nat)
  | rename (env : RenameEnv) (exchange : Bool) (oldDir newDir : Nat) (old : List UInt8) (inode : Nat)
      (new : Dentry)
  | alloc (start len : Nat)

/-- What the call returns, and the state it leaves; nothing where its loop does not end. -/
def NameCall.run (bSize : Nat) (s : NameState) : NameCall → Option (Except Errno Unit × NameState)
  | .create memory read dir name mode => dirCreate memory read bSize dir name mode s
  | .mkdir memory read dir name mode => dirMkdir memory read bSize dir name mode s
  | .unlink read _ name inode => dirUnlink read bSize name inode s
  | .rmdir read dir name inode => dirRmdir read bSize dir name inode s
  | .rename env exchange oldDir newDir old inode new =>
    (dirRename env exchange bSize oldDir newDir old (s.iIno inode) new s.dir).map
      fun r => (r.1, s.withDir r.2)
  | .alloc start len => some (.ok (), { s with info := (allocBlocks s.info start len).2 })

end Source

/-! ## 2. What the calls are for -/

section Purpose

/-- **The name space the calls that returned 0 amount to**: what every name stands for, how many
links every inode ought to have, and which are directories. -/
structure NameSpace where
  names : List UInt8 → Option Nat
  links : Nat → BitVec 32
  isDir : Nat → Bool

/-- One link more, or one less. -/
def linked (links : Nat → BitVec 32) (inode : Nat) : Nat → BitVec 32 :=
  Function.update links inode (links inode + 1)

def unlinked (links : Nat → BitVec 32) (inode : Nat) : Nat → BitVec 32 :=
  Function.update links inode (links inode - 1)

/-- A directory counts in the directory it is in. -/
def movedLinks (links : Nat → BitVec 32) (isDir : Bool) (oldDir newDir : Nat) : Nat → BitVec 32 :=
  if isDir = true ∧ oldDir ≠ newDir then linked (unlinked links oldDir) newDir else links

/-- What the target of a rename loses with its name. -/
def NameSpace.replacedLinks (ns : NameSpace) (newDir : Nat) : Option Nat → Nat → BitVec 32
  | none => ns.links
  | some target =>
    if ns.isDir target = true then unlinked (unlinked ns.links target) newDir
    else unlinked ns.links target

/-- **What a call that returns 0 means**; `made` is the inode a `create` or `mkdir` has made. -/
def NameSpace.after (ns : NameSpace) (made : Nat) : NameCall → NameSpace
  | .create _ _ _ name _ =>
    ⟨Function.update ns.names name (some made), Function.update ns.links made 1,
      Function.update ns.isDir made false⟩
  | .mkdir _ _ dir name _ =>
    ⟨Function.update ns.names name (some made), linked (Function.update ns.links made 1) dir,
      Function.update ns.isDir made true⟩
  | .unlink _ _ name inode =>
    { ns with names := Function.update ns.names name none, links := unlinked ns.links inode }
  | .rmdir _ dir name inode =>
    { ns with
      names := Function.update ns.names name none
      links := unlinked (unlinked ns.links inode) dir }
  | .rename _ false oldDir newDir old inode new =>
    { ns with
      names := Function.update (Function.update ns.names old none) new.name (some inode)
      links := movedLinks (ns.replacedLinks newDir new.inode) (ns.isDir inode) oldDir newDir }
  | .rename _ true oldDir newDir old inode new =>
    { ns with
      names := Function.update (Function.update ns.names old new.inode) new.name (some inode)
      links := movedLinks (movedLinks ns.links (ns.isDir inode) oldDir newDir)
        ((new.inode.map ns.isDir).getD false) newDir oldDir }
  | .alloc _ _ => ns

/-- The mount, and the name space it ought to hold. -/
structure NameMachine where
  st : NameState
  space : NameSpace

def nameStep (bSize : Nat) (m : NameMachine) (c : NameCall) : NameMachine :=
  match c.run bSize m.st with
  | none => m
  | some (.ok _, st) => ⟨st, m.space.after m.st.inodes c⟩
  | some (.error _, st) => ⟨st, m.space⟩

/-- **The block holds the names**, each with the number of its inode. -/
def NamesAgree (bSize : Nat) (m : NameMachine) : Prop :=
  ∀ name, name.length ≤ maxNamelen →
    dirLookup true bSize m.st.block name = some (.ok ((m.space.names name).map m.st.iIno))

/-- A record for the name, dead and far enough from the end of the block. -/
def HasRecord (bSize : Nat) (m : Memory) (name : List UInt8) : Prop :=
  ∃ i, entryScan m bSize (entryFree m bSize name.length) 0 = .found i

/-- The first such record has room for the name, which `aetherfs_add_entry` does not check. -/
def RecordFits (bSize : Nat) (m : Memory) (name : List UInt8) : Prop :=
  ∀ i, entryScan m bSize (entryFree m bSize name.length) 0 = .found i →
    14 + name.length ≤ dirRec m i

/-- **The calls in question.**  The VFS has looked the names up: what is created is not there, what
is removed or renamed is, and nothing is renamed to itself.  An inode is not renamed onto one of the
directories or of another kind.  A name that is added finds a record with room. -/
def NameValid (bSize : Nat) (m : NameMachine) : NameCall → Prop
  | .create _ _ dir name mode | .mkdir _ _ dir name mode =>
    m.space.names name = none ∧ name.length ≤ maxNamelen ∧ mode < 0o10000 ∧ dir < m.st.inodes ∧
      RecordFits bSize m.st.block name
  | .unlink _ _ name inode | .rmdir _ _ name inode =>
    m.space.names name = some inode ∧ name.length ≤ maxNamelen
  | .rename env exchange oldDir newDir old inode new =>
    m.space.names old = some inode ∧ old.length ≤ maxNamelen ∧
      m.space.names new.name = new.inode ∧ new.name.length ≤ maxNamelen ∧
      (exchange = true → new.inode ≠ none) ∧
      (∀ target, new.inode = some target → target ≠ inode ∧ target ≠ oldDir ∧ target ≠ newDir ∧
        m.space.isDir target = m.space.isDir inode) ∧
      ∀ mid, deleteEntry env.readOld bSize old m.st.dir = some (.ok mid) →
        RecordFits bSize mid.block new.name
  | .alloc _ _ => True

/-- **When a call does to the block what it means.** -/
def NameKept (bSize : Nat) (m : NameMachine) : NameCall → Prop
  | .create memory read _ name _ =>
    memory = true → read = true ∧ HasRecord bSize m.st.block name
  | .mkdir _ _ _ _ _ => True
  | .unlink _ _ _ _ => True
  | .rmdir _ _ _ _ => True
  | .rename env exchange _ _ old inode new => ∀ mid,
    deleteEntry env.readOld bSize old m.st.dir = some (.ok mid) → exchange = false ∧
      match new.inode with
      | some target => m.st.iIno target = m.st.iIno inode
      | none => env.readNew = true ∧ HasRecord bSize mid.block new.name
  | .alloc _ _ => True

end Purpose

/-! ## 3. The block under one change -/

section Block

variable {m m' : Memory} {bSize i ino : Nat} {records : List Nat} {name : List UInt8}
  {s d : DirState} {read : Bool}

/-- A name is in the block, the others are what they were. -/
structure NameBound (bSize : Nat) (m m' : Memory) (name : List UInt8) (ino : Nat) : Prop where
  block : ∃ records, DirectoryBlock m' bSize records
  there : dirLookup true bSize m' name = some (.ok (some ino))
  others : ∀ other, other ≠ name → dirLookup true bSize m' other = dirLookup true bSize m other

/-- A name is out of it, the others are what they were. -/
structure NameCleared (bSize : Nat) (m m' : Memory) (name : List UInt8) : Prop where
  block : ∃ records, DirectoryBlock m' bSize records
  gone : dirLookup true bSize m' name = some (.ok none)
  others : ∀ other, other ≠ name → dirLookup true bSize m' other = dirLookup true bSize m other

theorem EntryRun.hasRecord_iff (hrun : EntryRun m bSize 0 records) :
    HasRecord bSize m name ↔ ∃ i, records.find? (entryFree m bSize name.length) = some i := by
  rw [HasRecord, hrun.scan]
  cases records.find? (entryFree m bSize name.length) <;> simp

theorem EntryRun.fits (hrun : EntryRun m bSize 0 records) (hfits : RecordFits bSize m name)
    (hfree : records.find? (entryFree m bSize name.length) = some i) :
    14 + name.length ≤ dirRec m i := by
  refine hfits i ?_
  rw [hrun.scan, hfree]

/-- **An addition binds the name**, and takes no link from anyone. -/
theorem addEntry_bound (hd : DirectoryBlock s.block bSize records)
    (hfresh : dirLookup true bSize s.block name = some (.ok none))
    (hfits : RecordFits bSize s.block name) (hlive : ino ≠ 0) (hino : ino < 2 ^ 64)
    (hadd : addEntry read bSize name ino s = some (.ok d)) :
    NameBound bSize s.block d.block name ino ∧ d.iNlink = s.iNlink := by
  obtain ⟨hlen, -, i, hfree, rfl⟩ := (addEntry_ok_iff hd.run).mp hadd
  have hroom := hd.run.fits hfits hfree
  have hi := List.mem_of_find?_eq_some hfree
  obtain ⟨-, hrec, hnameLen, hname⟩ := @writeEntry_fields ino name s.block i hlen hino
  have hsame : ∀ j ∈ records, j ≠ i → SameEntry s.block (writeEntry s.block i name ino) j :=
    fun j hj hne => added_same ino hd.run hi hroom hj hne
  have hrun : EntryRun (writeEntry s.block i name ino) bSize 0 records := by
    refine hd.run.changed hsame hrec ⟨?_, fun _ => ?_⟩
    · rw [hrec]
      exact (hd.run.mem hi).1.header
    · rw [hrec, hnameLen]
      exact hroom
  refine ⟨⟨⟨records, hd.rewritten hrun hsame fun _ j hj _ => ?_⟩,
    added_found hd.run hfresh hfree hino hlive,
    fun other hne => added_others hd.run hlen hfree hino hlive hroom hne⟩, rfl⟩
  rw [hname]
  exact (hd.run.lookup_none.mp hfresh).2 j hj

/-- It fails where it cannot read the block or finds no record. -/
theorem addEntry_cases (ino : Nat) (read : Bool) (hd : DirectoryBlock s.block bSize records)
    (hlen : name.length ≤ maxNamelen) :
    (read = true ∧ HasRecord bSize s.block name ∧
        ∃ d, addEntry read bSize name ino s = some (.ok d)) ∨
      (¬ (read = true ∧ HasRecord bSize s.block name) ∧
        ∃ e, addEntry read bSize name ino s = some (.error e)) := by
  rw [hd.run.hasRecord_iff, addEntry, if_neg (Nat.not_lt.mpr hlen), hd.run.scan]
  cases read with
  | false => simp
  | true => cases records.find? (entryFree s.block bSize name.length) <;> simp

/-- **A deletion clears the name.** -/
theorem deleteEntry_cleared (hd : DirectoryBlock s.block bSize records)
    (hlen : name.length ≤ maxNamelen) (hdel : deleteEntry read bSize name s = some (.ok d)) :
    NameCleared bSize s.block d.block name ∧ d.iNlink = s.iNlink := by
  obtain ⟨-, i, hfind, rfl⟩ := (deleteEntry_ok_iff hd.run).mp hdel
  have hi := List.mem_of_find?_eq_some hfind
  have hnamed := List.find?_some hfind
  exact ⟨⟨⟨records, deleted_block hd hi⟩, deleted_gone hd hi hlen hnamed,
    fun other hne => deleted_others hd hi hnamed hne⟩, rfl⟩

/-- A name that is there can be deleted, if only the block can be read. -/
theorem deleteEntry_cases (read : Bool) (hd : DirectoryBlock s.block bSize records)
    (hfound : dirLookup true bSize s.block name = some (.ok (some ino))) :
    (read = true ∧ ∃ d, deleteEntry read bSize name s = some (.ok d)) ∨
      (read = false ∧ ∃ e, deleteEntry read bSize name s = some (.error e)) := by
  obtain ⟨-, j, hfind, -⟩ := hd.run.lookup_some hfound
  rw [deleteEntry, hd.run.scan, hfind]
  cases read with
  | false => simp
  | true => simp

end Block

/-! ## 4. One call -/

section Calls

variable {bSize : Nat} {m t : NameMachine} {name : List UInt8} {inode : Nat}

/-- The number `aetherfs_new_inode` makes of the counter. -/
def nextNumber (nextIno : Nat) : Nat := if nextIno < rootIno + 1 then rootIno + 1 else nextIno

theorem nextNumber_pos (nextIno : Nat) : nextNumber nextIno ≠ 0 := by
  rw [nextNumber, rootIno]
  split <;> omega

theorem nextNumber_lt {nextIno : Nat} (h : nextIno < 2 ^ 64) : nextNumber nextIno < 2 ^ 64 := by
  rw [nextNumber, rootIno]
  split <;> omega

/-- The permission bits do not touch the kind of a file. -/
theorem permission_bits {mode : Nat} (h : mode < 0o10000) : mode &&& 0o170000 = 0 := by
  refine Nat.eq_of_testBit_eq fun i => ?_
  rw [Nat.testBit_and, Nat.zero_testBit, Bool.and_eq_false_iff]
  by_cases hi : i < 12
  · exact Or.inr ((by decide : ∀ i < 12, Nat.testBit 0o170000 i = false) i hi)
  · have hpow : 2 ^ 12 ≤ 2 ^ i := Nat.pow_le_pow_right (by decide) (Nat.not_lt.mp hi)
    exact Or.inl (Nat.testBit_eq_false_of_lt (Nat.lt_of_lt_of_le h hpow))

theorem create_mode {mode : Nat} (h : mode < 0o10000) : sIsReg (0o100000 ||| mode) := by
  rw [sIsReg, Nat.and_or_distrib_right, permission_bits h]
  decide

theorem mkdir_mode {mode : Nat} (h : mode < 0o10000) : sIsDir (0o040000 ||| mode) := by
  rw [sIsDir, Nat.and_or_distrib_right, permission_bits h]
  decide

/-- The counter moved on: what a call that finds no memory leaves. -/
def NameState.skipped (s : NameState) : NameState :=
  { s with info := { s.info with nextIno := addU64 s.info.nextIno 1 } }

/-- An inode made. -/
def NameState.drawn (s : NameState) (links : Nat → BitVec 32) : NameState :=
  { s.skipped with
    iNlink := links, iIno := Function.update s.iIno s.inodes (nextNumber s.info.nextIno),
    inodes := s.inodes + 1 }

/-- The links once a file is made, or a directory. -/
def NameState.fileLinks (s : NameState) : Nat → BitVec 32 := Function.update s.iNlink s.inodes 1

def NameState.dirLinks (s : NameState) (dir : Nat) : Nat → BitVec 32 := linked s.fileLinks dir

theorem NameState.newInode_failed (s : NameState) (dir : Nat) {mode : Nat} (h : newInodeMode mode) :
    s.newInode dir mode false = (.error .ENOMEM, s.skipped) := by
  simp only [NameState.newInode, AetherFs.newInode, h, not_true_eq_false, if_false]
  rfl

theorem NameState.newInode_file (s : NameState) (dir : Nat) {mode : Nat} (h : sIsReg mode) :
    s.newInode dir mode true
      = (.ok s.inodes, s.drawn s.fileLinks) := by
  have hkind : newInodeMode mode := Or.inl h
  simp only [NameState.newInode, AetherFs.newInode, hkind, not_true_eq_false, if_false, if_true,
    h.not_dir]
  rfl

theorem NameState.newInode_dir (s : NameState) (dir : Nat) {mode : Nat} (h : sIsDir mode) :
    s.newInode dir mode true
      = (.ok s.inodes, s.drawn (s.dirLinks dir)) := by
  have hkind : newInodeMode mode := Or.inr (Or.inl h)
  simp only [NameState.newInode, AetherFs.newInode, hkind, not_true_eq_false, if_false, if_true, h]
  rfl

theorem NameState.drawn_ino (s : NameState) (links : Nat → BitVec 32) :
    (s.drawn links).iIno s.inodes = nextNumber s.info.nextIno := Function.update_self ..

/-- **What holds as long as every call has been kept.** -/
structure InStep (bSize : Nat) (m : NameMachine) : Prop where
  block : ∃ records, DirectoryBlock m.st.block bSize records
  named : ∀ name inode, m.space.names name = some inode → inode < m.st.inodes
  counter : m.st.info.nextIno < 2 ^ 64
  agree : NamesAgree bSize m

/-- The numbers of the inodes there are stay. -/
structure Extends (m t : NameMachine) : Prop where
  inodes : m.st.inodes ≤ t.st.inodes
  numbers : ∀ inode, inode < m.st.inodes → t.st.iIno inode = m.st.iIno inode
  counter : t.st.info.nextIno < 2 ^ 64

section Changes

variable (h : InStep bSize m) (hext : Extends m t)

include h hext

theorem InStep.number (name : List UInt8) :
    (m.space.names name).map t.st.iIno = (m.space.names name).map m.st.iIno := by
  cases hname : m.space.names name with
  | none => rfl
  | some inode => exact congrArg some (hext.numbers inode (h.named name inode hname))

theorem InStep.same (hblock : t.st.block = m.st.block) (hnames : t.space.names = m.space.names) :
    InStep bSize t := by
  refine ⟨?_, ?_, hext.counter, ?_⟩
  · rw [hblock]
    exact h.block
  · intro name inode hname
    rw [hnames] at hname
    exact Nat.lt_of_lt_of_le (h.named name inode hname) hext.inodes
  · intro name hlen
    rw [hblock, hnames, h.number hext, h.agree name hlen]

theorem InStep.bound (hinode : inode < t.st.inodes)
    (hbound : NameBound bSize m.st.block t.st.block name (t.st.iIno inode))
    (hnames : t.space.names = Function.update m.space.names name (some inode)) : InStep bSize t := by
  refine ⟨hbound.block, ?_, hext.counter, ?_⟩
  · intro other k hk
    by_cases hother : other = name
    · rw [hnames, hother, Function.update_self, Option.some.injEq] at hk
      rw [← hk]
      exact hinode
    · rw [hnames, Function.update_of_ne hother] at hk
      exact Nat.lt_of_lt_of_le (h.named other k hk) hext.inodes
  · intro other hlen
    by_cases hother : other = name
    · rw [hnames, hother, Function.update_self, hbound.there]
      rfl
    · rw [hnames, Function.update_of_ne hother, hbound.others other hother, h.number hext,
        h.agree other hlen]

theorem InStep.cleared (hcleared : NameCleared bSize m.st.block t.st.block name)
    (hnames : t.space.names = Function.update m.space.names name none) : InStep bSize t := by
  refine ⟨hcleared.block, ?_, hext.counter, ?_⟩
  · intro other k hk
    by_cases hother : other = name
    · rw [hnames, hother, Function.update_self] at hk
      exact absurd hk (by simp)
    · rw [hnames, Function.update_of_ne hother] at hk
      exact Nat.lt_of_lt_of_le (h.named other k hk) hext.inodes
  · intro other hlen
    by_cases hother : other = name
    · rw [hnames, hother, Function.update_self, hcleared.gone]
      rfl
    · rw [hnames, Function.update_of_ne hother, hcleared.others other hother, h.number hext,
        h.agree other hlen]

end Changes

/-- A call keeps the numbers of the inodes there are, whatever else it does. -/
theorem extends_of_eq (hcounter : m.st.info.nextIno < 2 ^ 64) (hinodes : t.st.inodes = m.st.inodes)
    (hnumbers : t.st.iIno = m.st.iIno) (hnext : t.st.info.nextIno = m.st.info.nextIno) :
    Extends m t := by
  refine ⟨hinodes.ge, fun inode _ => ?_, ?_⟩
  · rw [hnumbers]
  · rw [hnext]
    exact hcounter

theorem addU64_lt (a b : Nat) : addU64 a b < 2 ^ 64 := Nat.mod_lt _ (by norm_num)

theorem extends_of_skipped (hinodes : t.st.inodes = m.st.inodes) (hnumbers : t.st.iIno = m.st.iIno)
    (hnext : t.st.info.nextIno = addU64 m.st.info.nextIno 1) : Extends m t := by
  refine ⟨hinodes.ge, fun inode _ => ?_, ?_⟩
  · rw [hnumbers]
  · rw [hnext]
    exact addU64_lt _ _

theorem extends_of_drawn (hinodes : t.st.inodes = m.st.inodes + 1)
    (hnumbers : t.st.iIno = Function.update m.st.iIno m.st.inodes (nextNumber m.st.info.nextIno))
    (hnext : t.st.info.nextIno = addU64 m.st.info.nextIno 1) : Extends m t := by
  refine ⟨?_, fun inode hlt => ?_, ?_⟩
  · rw [hinodes]
    exact Nat.le_succ _
  · rw [hnumbers]
    exact Function.update_of_ne (Nat.ne_of_lt hlt) _ _
  · rw [hnext]
    exact addU64_lt _ _

theorem InStep.fresh (h : InStep bSize m) (hlen : name.length ≤ maxNamelen)
    (hname : m.space.names name = none) :
    dirLookup true bSize m.st.block name = some (.ok none) := by
  rw [h.agree name hlen, hname]
  rfl

theorem InStep.found (h : InStep bSize m) (hlen : name.length ≤ maxNamelen)
    (hname : m.space.names name = some inode) :
    dirLookup true bSize m.st.block name = some (.ok (some (m.st.iIno inode))) := by
  rw [h.agree name hlen, hname]
  rfl

theorem nameStep_ok {c : NameCall} {st : NameState} (h : c.run bSize m.st = some (.ok (), st)) :
    nameStep bSize m c = ⟨st, m.space.after m.st.inodes c⟩ := by
  rw [nameStep, h]

theorem nameStep_error {c : NameCall} {e : Errno} {st : NameState}
    (h : c.run bSize m.st = some (.error e, st)) : nameStep bSize m c = ⟨st, m.space⟩ := by
  rw [nameStep, h]

theorem nameStep_none {c : NameCall} (h : c.run bSize m.st = none) : nameStep bSize m c = m := by
  rw [nameStep, h]

/-! Four of the calls add or delete an entry and then end in one way: with the directory they have
got, or with what they make of the error. -/

def NameState.finish (s : NameState) (f : DirState → DirState) (g : Errno → Except Errno Unit) :
    Option (Except Errno DirState) → Option (Except Errno Unit × NameState)
  | none => none
  | some (.ok d) => some (.ok (), s.withDir (f d))
  | some (.error e) => some (g e, s)

section Finish

variable {s s1 : NameState} {memory read : Bool} {dir mode : Nat} {e : Errno}

theorem dirCreate_error (h : s.newInode dir (0o100000 ||| mode) memory = (.error e, s1)) :
    dirCreate memory read bSize dir name mode s = some (.error e, s1) := by
  rw [dirCreate, h]

theorem dirCreate_ok (h : s.newInode dir (0o100000 ||| mode) memory = (.ok inode, s1)) :
    dirCreate memory read bSize dir name mode s
      = s1.finish id (fun _ => .ok ()) (addEntry read bSize name (s1.iIno inode) s1.dir) := by
  simp only [dirCreate, h]
  rcases addEntry read bSize name (s1.iIno inode) s1.dir with _ | (e | d) <;> rfl

theorem dirMkdir_error (h : s.newInode dir (0o040000 ||| mode) memory = (.error e, s1)) :
    dirMkdir memory read bSize dir name mode s = some (.error e, s1) := by
  rw [dirMkdir, h]

theorem dirMkdir_ok (h : s.newInode dir (0o040000 ||| mode) memory = (.ok inode, s1)) :
    dirMkdir memory read bSize dir name mode s
      = s1.finish (DirState.addLink · dir) .error (addEntry read bSize name (s1.iIno inode) s1.dir) := by
  simp only [dirMkdir, h]
  rcases addEntry read bSize name (s1.iIno inode) s1.dir with _ | (e | d) <;> rfl

theorem dirUnlink_finish : dirUnlink read bSize name inode s
    = s.finish (DirState.dropLink · inode) .error (deleteEntry read bSize name s.dir) := by
  rw [dirUnlink]
  rcases deleteEntry read bSize name s.dir with _ | (e | d) <;> rfl

theorem dirRmdir_finish : dirRmdir read bSize dir name inode s
    = s.finish (fun d => (d.dropLink inode).dropLink dir) .error
        (deleteEntry read bSize name s.dir) := by
  rw [dirRmdir]
  rcases deleteEntry read bSize name s.dir with _ | (e | d) <;> rfl

end Finish

/-- What is to be shown of a call. -/
def Exact (bSize : Nat) (m : NameMachine) (c : NameCall) : Prop :=
  (NamesAgree bSize (nameStep bSize m c) ↔ NameKept bSize m c) ∧
    (NameKept bSize m c → InStep bSize (nameStep bSize m c))

theorem exact_of_inStep {c : NameCall} (hkept : NameKept bSize m c)
    (h : InStep bSize (nameStep bSize m c)) : Exact bSize m c :=
  ⟨iff_of_true h.agree hkept, fun _ => h⟩

theorem exact_of_not {c : NameCall} (hkept : ¬ NameKept bSize m c)
    (h : ¬ NamesAgree bSize (nameStep bSize m c)) : Exact bSize m c :=
  ⟨iff_of_false h hkept, fun hk => absurd hk hkept⟩

section Made

variable {memory read : Bool} {dir mode : Nat}

theorem InStep.made (h : InStep bSize m) (hnone : m.space.names name = none)
    (hlen : name.length ≤ maxNamelen) (hfits : RecordFits bSize m.st.block name)
    {links : Nat → BitVec 32} {d d' : DirState}
    (hadd : addEntry read bSize name ((m.st.drawn links).iIno m.st.inodes) (m.st.drawn links).dir
      = some (.ok d)) (hblock : d'.block = d.block) {space : NameSpace}
    (hnames : space.names = Function.update m.space.names name (some m.st.inodes)) :
    InStep bSize ⟨(m.st.drawn links).withDir d', space⟩ := by
  obtain ⟨records, hd⟩ := h.block
  have hd' : DirectoryBlock (m.st.drawn links).dir.block bSize records := hd
  have hino := m.st.drawn_ino links
  refine h.bound (extends_of_drawn rfl rfl rfl) (Nat.lt_succ_self m.st.inodes) ?_ hnames
  change NameBound bSize m.st.block d'.block name ((m.st.drawn links).iIno m.st.inodes)
  rw [hino] at hadd ⊢
  rw [hblock]
  exact (addEntry_bound hd' (h.fresh hlen hnone) hfits (nextNumber_pos _)
    (nextNumber_lt h.counter) hadd).1

theorem InStep.add_cases (h : InStep bSize m) (links : Nat → BitVec 32) (read : Bool)
    (hlen : name.length ≤ maxNamelen) :
    (read = true ∧ HasRecord bSize m.st.block name ∧ ∃ d, addEntry read bSize name
        ((m.st.drawn links).iIno m.st.inodes) (m.st.drawn links).dir = some (.ok d)) ∨
      (¬ (read = true ∧ HasRecord bSize m.st.block name) ∧ ∃ e, addEntry read bSize name
        ((m.st.drawn links).iIno m.st.inodes) (m.st.drawn links).dir = some (.error e)) := by
  obtain ⟨records, hd⟩ := h.block
  have hd' : DirectoryBlock (m.st.drawn links).dir.block bSize records := hd
  exact addEntry_cases _ read hd' hlen

/-- **A file is made.**  It has a name in the block exactly if the record was there to take. -/
theorem create_exact (h : InStep bSize m)
    (hvalid : NameValid bSize m (.create memory read dir name mode)) :
    Exact bSize m (.create memory read dir name mode) := by
  obtain ⟨hnone, hlen, hmode, -, hfits⟩ := hvalid
  have hreg := create_mode hmode
  cases memory with
  | false =>
    have hrun : NameCall.run bSize m.st (.create false read dir name mode) = _ :=
      dirCreate_error (m.st.newInode_failed dir (Or.inl hreg))
    refine exact_of_inStep (fun hmem => absurd hmem (by simp)) ?_
    rw [nameStep_error hrun]
    exact h.same (extends_of_skipped rfl rfl rfl) rfl rfl
  | true =>
    have hrun : NameCall.run bSize m.st (.create true read dir name mode) = _ :=
      dirCreate_ok (m.st.newInode_file dir hreg)
    rcases h.add_cases m.st.fileLinks read hlen with
      ⟨hread, hrec, d, hadd⟩ | ⟨hfail, e, hadd⟩
    · rw [hadd] at hrun
      refine exact_of_inStep (fun _ => ⟨hread, hrec⟩) ?_
      rw [nameStep_ok hrun]
      exact h.made hnone hlen hfits hadd rfl rfl
    · rw [hadd] at hrun
      refine exact_of_not (fun hkept => hfail (hkept rfl)) fun hagree => ?_
      -- the name stands for the inode, and the block is what it was
      rw [nameStep_ok hrun] at hagree
      have hlook := (h.fresh hlen hnone).symm.trans (hagree name hlen)
      simp [NameSpace.after] at hlook

/-- **A directory is made**, or the call fails. -/
theorem mkdir_exact (h : InStep bSize m)
    (hvalid : NameValid bSize m (.mkdir memory read dir name mode)) :
    Exact bSize m (.mkdir memory read dir name mode) := by
  obtain ⟨hnone, hlen, hmode, -, hfits⟩ := hvalid
  have hdir := mkdir_mode hmode
  refine exact_of_inStep trivial ?_
  cases memory with
  | false =>
    have hrun : NameCall.run bSize m.st (.mkdir false read dir name mode) = _ :=
      dirMkdir_error (m.st.newInode_failed dir (Or.inr (Or.inl hdir)))
    rw [nameStep_error hrun]
    exact h.same (extends_of_skipped rfl rfl rfl) rfl rfl
  | true =>
    have hrun : NameCall.run bSize m.st (.mkdir true read dir name mode) = _ :=
      dirMkdir_ok (m.st.newInode_dir dir hdir)
    rcases h.add_cases (m.st.dirLinks dir) read hlen with ⟨-, -, d, hadd⟩ | ⟨-, e, hadd⟩
    · rw [hadd] at hrun
      rw [nameStep_ok hrun]
      refine h.made hnone hlen hfits hadd ?_ ?_
      · rfl
      · rfl
    · rw [hadd] at hrun
      rw [nameStep_error hrun]
      exact h.same (extends_of_drawn rfl rfl rfl) rfl rfl

end Made

section Removed

variable {read : Bool} {dir : Nat}

theorem InStep.delete_cases (h : InStep bSize m) (read : Bool) (hlen : name.length ≤ maxNamelen)
    (hname : m.space.names name = some inode) :
    (read = true ∧ ∃ d, deleteEntry read bSize name m.st.dir = some (.ok d) ∧
        NameCleared bSize m.st.block d.block name ∧ d.iNlink = m.st.iNlink) ∨
      (read = false ∧ ∃ e, deleteEntry read bSize name m.st.dir = some (.error e)) := by
  obtain ⟨records, hd⟩ := h.block
  have hd' : DirectoryBlock m.st.dir.block bSize records := hd
  rcases deleteEntry_cases read hd' (h.found hlen hname) with ⟨hread, d, hdel⟩ | hfail
  · exact Or.inl ⟨hread, d, hdel, deleteEntry_cleared hd' hlen hdel⟩
  · exact Or.inr hfail

theorem InStep.removed (h : InStep bSize m) {c : NameCall} {f : DirState → DirState}
    (hname : m.space.names name = some inode) (hlen : name.length ≤ maxNamelen)
    (hrun : c.run bSize m.st = m.st.finish f .error (deleteEntry read bSize name m.st.dir))
    (hblock : ∀ d, (f d).block = d.block)
    (hnames : (m.space.after m.st.inodes c).names = Function.update m.space.names name none) :
    InStep bSize (nameStep bSize m c) := by
  rcases h.delete_cases read hlen hname with ⟨-, d, hdel, hcleared, -⟩ | ⟨-, e, hdel⟩
  · rw [hdel] at hrun
    rw [nameStep_ok hrun]
    rw [← hblock] at hcleared
    exact h.cleared (extends_of_eq h.counter rfl rfl rfl) hcleared hnames
  · rw [hdel] at hrun
    rw [nameStep_error hrun]
    exact h

theorem unlink_exact (h : InStep bSize m) (hvalid : NameValid bSize m (.unlink read dir name inode)) :
    Exact bSize m (.unlink read dir name inode) :=
  exact_of_inStep trivial (h.removed hvalid.1 hvalid.2 dirUnlink_finish (fun _ => rfl) rfl)

theorem rmdir_exact (h : InStep bSize m) (hvalid : NameValid bSize m (.rmdir read dir name inode)) :
    Exact bSize m (.rmdir read dir name inode) :=
  exact_of_inStep trivial (h.removed hvalid.1 hvalid.2 dirRmdir_finish (fun _ => rfl) rfl)

end Removed

section Renamed

variable {env : RenameEnv} {exchange : Bool} {oldDir newDir : Nat} {old : List UInt8} {new : Dentry}

theorem deleteEntry_dropLink? (read : Bool) (s : DirState) (target : Option Nat) :
    deleteEntry read bSize name (s.dropLink? target) =
      (deleteEntry read bSize name s).map fun r => r.map fun d => d.dropLink? target := by
  cases target with
  | none =>
    simp only [DirState.dropLink?]
    rcases deleteEntry read bSize name s with _ | (e | d) <;> rfl
  | some inode =>
    simp only [deleteEntry, DirState.dropLink?, DirState.dropLink]
    split
    · rfl
    · split <;> rfl

/-- **How a rename ends.**  The old name cannot be deleted; the new one is taken; it is added; or it
cannot be added, and the old one is put back or lost. -/
inductive RenameEnd (env : RenameEnv) (exchange : Bool) (bSize oldDir newDir : Nat)
    (old : List UInt8) (ino : Nat) (new : Dentry) (s : DirState) :
    Except Errno Unit → DirState → Prop
  | kept (e : Errno) (hdel : deleteEntry env.readOld bSize old s = some (.error e)) :
    RenameEnd env exchange bSize oldDir newDir old ino new s (.error e)
      (s.dropLink? (if exchange then new.inode else none))
  | replaced (target : Nat) (mid : DirState) (htarget : new.inode = some target)
    (hdel : deleteEntry env.readOld bSize old s = some (.ok mid)) :
    RenameEnd env exchange bSize oldDir newDir old ino new s (.ok ())
      (((mid.dropLink? (if exchange then some target else none)).dropLink target).moveDirs
        oldDir newDir)
  | added (mid last : DirState) (hfree : new.inode = none)
    (hdel : deleteEntry env.readOld bSize old s = some (.ok mid))
    (hadd : addEntry env.readNew bSize new.name ino mid = some (.ok last)) :
    RenameEnd env exchange bSize oldDir newDir old ino new s (.ok ()) (last.moveDirs oldDir newDir)
  | reverted (mid last : DirState) (e : Errno) (hfree : new.inode = none)
    (hdel : deleteEntry env.readOld bSize old s = some (.ok mid))
    (hadd : addEntry env.readNew bSize new.name ino mid = some (.error e))
    (hback : addEntry env.readRevert bSize old ino mid = some (.ok last)) :
    RenameEnd env exchange bSize oldDir newDir old ino new s (.ok ()) last
  | lost (mid : DirState) (e e' : Errno) (hfree : new.inode = none)
    (hdel : deleteEntry env.readOld bSize old s = some (.ok mid))
    (hadd : addEntry env.readNew bSize new.name ino mid = some (.error e))
    (hback : addEntry env.readRevert bSize old ino mid = some (.error e')) :
    RenameEnd env exchange bSize oldDir newDir old ino new s (.error e') mid

theorem dirRename_end {s s' : DirState} {ino : Nat} {r : Except Errno Unit}
    (h : dirRename env exchange bSize oldDir newDir old ino new s = some (r, s')) :
    RenameEnd env exchange bSize oldDir newDir old ino new s r s' := by
  simp only [dirRename, deleteEntry_dropLink?] at h
  cases hdel : deleteEntry env.readOld bSize old s with
  | none => simp [hdel] at h
  | some del =>
    cases del with
    | error e =>
      simp only [hdel, Option.map_some, Except.map, Option.some.injEq, Prod.mk.injEq] at h
      obtain ⟨rfl, rfl⟩ := h
      exact .kept e hdel
    | ok mid =>
      cases htarget : new.inode with
      | some target =>
        simp only [hdel, htarget, Option.map_some, Except.map, Option.some.injEq, Prod.mk.injEq] at h
        obtain ⟨rfl, rfl⟩ := h
        exact .replaced target mid htarget hdel
      | none =>
        simp only [hdel, htarget, Option.map_some, Except.map, ite_self, DirState.dropLink?,
          DirState.addLink?] at h
        rcases hadd : addEntry env.readNew bSize new.name ino mid with _ | (e | last)
        · simp [hadd] at h
        · rcases hback : addEntry env.readRevert bSize old ino mid with _ | (e' | last)
          · simp [hadd, hback] at h
          · simp only [hadd, hback, Option.some.injEq, Prod.mk.injEq] at h
            obtain ⟨rfl, rfl⟩ := h
            exact .lost mid e e' htarget hdel hadd hback
          · simp only [hadd, hback, Option.some.injEq, Prod.mk.injEq] at h
            obtain ⟨rfl, rfl⟩ := h
            exact .reverted mid last e htarget hdel hadd hback
        · simp only [hadd, Option.some.injEq, Prod.mk.injEq] at h
          obtain ⟨rfl, rfl⟩ := h
          exact .added mid last htarget hdel hadd

theorem dirRename_ends {s : DirState} {records : List Nat} {ino : Nat}
    (hd : DirectoryBlock s.block bSize records) (hold : old.length ≤ maxNamelen)
    (hnew : new.name.length ≤ maxNamelen)
    (hfound : dirLookup true bSize s.block old = some (.ok (some ino))) :
    ∃ r s', dirRename env exchange bSize oldDir newDir old ino new s = some (r, s') := by
  simp only [dirRename, deleteEntry_dropLink?]
  rcases deleteEntry_cases env.readOld hd hfound with ⟨-, mid, hdel⟩ | ⟨-, e, hdel⟩
  · obtain ⟨⟨⟨records', hmid⟩, -, -⟩, -⟩ := deleteEntry_cleared hd hold hdel
    simp only [hdel, Option.map_some, Except.map]
    cases htarget : new.inode with
    | some target => exact ⟨_, _, rfl⟩
    | none =>
      simp only [ite_self, DirState.dropLink?]
      rcases addEntry_cases ino env.readNew hmid hnew with ⟨-, -, last, hadd⟩ | ⟨-, e, hadd⟩
      · simp only [hadd]
        exact ⟨_, _, rfl⟩
      · rcases addEntry_cases ino env.readRevert hmid hold with ⟨-, -, last, hback⟩ | ⟨-, e', hback⟩
        · simp only [hadd, hback]
          exact ⟨_, _, rfl⟩
        · simp only [hadd, hback]
          exact ⟨_, _, rfl⟩
  · simp only [hdel, Option.map_some, Except.map]
    exact ⟨_, _, rfl⟩

/-- The mount once the old name is deleted. -/
def NameMachine.without (m : NameMachine) (old : List UInt8) (block : Memory) : NameMachine :=
  ⟨{ m.st with block := block }, { m.space with names := Function.update m.space.names old none }⟩

theorem InStep.without (h : InStep bSize m) {block : Memory}
    (hcleared : NameCleared bSize m.st.block block old) : InStep bSize (m.without old block) :=
  h.cleared (extends_of_eq h.counter rfl rfl rfl) hcleared rfl

theorem DirState.dropLink?_block (s : DirState) (target : Option Nat) :
    (s.dropLink? target).block = s.block := by
  cases target <;> rfl

section Ends

variable {d mid last : DirState} {target : Nat} {e : Errno} (h : InStep bSize m)
  (hvalid : NameValid bSize m (.rename env exchange oldDir newDir old inode new))
  (hdel : deleteEntry env.readOld bSize old m.st.dir = some (.ok mid))

include h hvalid hdel

theorem InStep.renameCleared : NameCleared bSize m.st.block mid.block old := by
  obtain ⟨records, hd⟩ := h.block
  have hd' : DirectoryBlock m.st.dir.block bSize records := hd
  exact (deleteEntry_cleared hd' hvalid.2.1 hdel).1

/-- The new name is taken: it goes on standing for what it stood for. -/
theorem replaced_exact (htarget : new.inode = some target) (hblock : d.block = mid.block)
    (hrun : NameCall.run bSize m.st (.rename env exchange oldDir newDir old inode new)
      = some (.ok (), m.st.withDir d)) :
    Exact bSize m (.rename env exchange oldDir newDir old inode new) := by
  have hcleared := h.renameCleared hvalid hdel
  obtain ⟨hold, holdLen, hnew, hnewLen, -, htargets, -⟩ := hvalid
  have hne : new.name ≠ old := by
    intro hname
    rw [hname, hold, htarget] at hnew
    exact (htargets target htarget).1 (Option.some.inj hnew).symm
  have hthere : dirLookup true bSize mid.block new.name = some (.ok (some (m.st.iIno target))) := by
    rw [hcleared.others _ hne]
    exact h.found hnewLen (hnew.trans htarget)
  cases exchange with
  | true =>
    refine exact_of_not (fun hkept => absurd (hkept mid hdel).1 (by simp)) fun hagree => ?_
    -- the old name ought to stand for the target
    rw [nameStep_ok hrun] at hagree
    have hlook := hagree old holdLen
    rw [show (m.st.withDir d).block = mid.block from hblock, hcleared.gone] at hlook
    simp [NameSpace.after, Function.update_of_ne hne.symm, htarget] at hlook
  | false =>
    have hkept : NameKept bSize m (.rename env false oldDir newDir old inode new) ↔
        m.st.iIno target = m.st.iIno inode := by
      simp [NameKept, hdel, htarget]
    have hin : m.st.iIno target = m.st.iIno inode →
        InStep bSize (nameStep bSize m (.rename env false oldDir newDir old inode new)) := by
      intro hino
      rw [nameStep_ok hrun]
      refine (h.without hcleared).bound (extends_of_eq h.counter rfl rfl rfl)
        (h.named old inode hold) ⟨?_, ?_, fun other _ => ?_⟩ rfl
      · rw [show (m.st.withDir d).block = mid.block from hblock]
        exact hcleared.block
      · rw [show (m.st.withDir d).block = mid.block from hblock, hthere, hino]
        rfl
      · rw [show (m.st.withDir d).block = mid.block from hblock]
        rfl
    rw [Exact, hkept]
    refine ⟨⟨fun hagree => ?_, fun hino => (hin hino).agree⟩, hin⟩
    rw [nameStep_ok hrun] at hagree
    have hlook := hagree new.name hnewLen
    rw [show (m.st.withDir d).block = mid.block from hblock, hthere] at hlook
    simpa [NameSpace.after, NameState.withDir] using hlook

theorem added_exact (hfree : new.inode = none)
    (hadd : addEntry env.readNew bSize new.name (m.st.iIno inode) mid = some (.ok last))
    (hblock : d.block = last.block)
    (hrun : NameCall.run bSize m.st (.rename env exchange oldDir newDir old inode new)
      = some (.ok (), m.st.withDir d)) :
    Exact bSize m (.rename env exchange oldDir newDir old inode new) := by
  have hcleared := h.renameCleared hvalid hdel
  obtain ⟨hold, holdLen, hnew, hnewLen, hexchange, -, hfits⟩ := hvalid
  obtain ⟨records, hmid⟩ := hcleared.block
  have hne : new.name ≠ old := by
    intro hname
    rw [hname, hold, hfree] at hnew
    exact absurd hnew (by simp)
  have hfresh : dirLookup true bSize mid.block new.name = some (.ok none) := by
    rw [hcleared.others _ hne]
    exact h.fresh hnewLen (hnew.trans hfree)
  cases exchange with
  | true => exact absurd hfree (hexchange rfl)
  | false =>
    obtain ⟨records', hd⟩ := h.block
    obtain ⟨hlive, hlt⟩ := @old_ino bSize (m.st.iIno inode) old m.st.dir records' hd
      (h.found holdLen hold)
    have hbound := (addEntry_bound hmid hfresh (hfits mid hdel) hlive hlt hadd).1
    obtain ⟨-, hread, i, hi, -⟩ := (addEntry_ok_iff hmid.run).mp hadd
    refine exact_of_inStep (fun mid' hmid' => ?_) ?_
    · obtain rfl : mid = mid' := by
        rw [hdel] at hmid'
        exact Except.ok.inj (Option.some.inj hmid')
      rw [hfree]
      exact ⟨rfl, hread, hmid.run.hasRecord_iff.mpr ⟨i, hi⟩⟩
    · rw [nameStep_ok hrun]
      refine (h.without hcleared).bound (extends_of_eq h.counter rfl rfl rfl)
        (h.named old inode hold) ?_ rfl
      rw [show (m.st.withDir d).block = last.block from hblock]
      exact hbound

theorem not_kept_of_fail (hfree : new.inode = none)
    (hadd : addEntry env.readNew bSize new.name (m.st.iIno inode) mid = some (.error e)) :
    ¬ NameKept bSize m (.rename env exchange oldDir newDir old inode new) := by
  obtain ⟨records, hmid⟩ := (h.renameCleared hvalid hdel).block
  obtain ⟨-, -, -, hnewLen, -⟩ := hvalid
  intro hkept
  have hrecord := (hkept mid hdel).2
  rw [hfree] at hrecord
  rcases addEntry_cases (m.st.iIno inode) env.readNew hmid hnewLen with ⟨-, -, d, hok⟩ | ⟨hno, -⟩
  · rw [hadd] at hok
    exact absurd hok (by simp)
  · exact hno hrecord

/-- Put back, the old name is still there, and the call has returned 0. -/
theorem reverted_exact (hfree : new.inode = none)
    (hadd : addEntry env.readNew bSize new.name (m.st.iIno inode) mid = some (.error e))
    (hback : addEntry env.readRevert bSize old (m.st.iIno inode) mid = some (.ok d))
    (hrun : NameCall.run bSize m.st (.rename env exchange oldDir newDir old inode new)
      = some (.ok (), m.st.withDir d)) :
    Exact bSize m (.rename env exchange oldDir newDir old inode new) := by
  have hcleared := h.renameCleared hvalid hdel
  have hno := not_kept_of_fail h hvalid hdel hfree hadd
  obtain ⟨hold, holdLen, hnew, -, hexchange, -, -⟩ := hvalid
  obtain ⟨records, hd⟩ := h.block
  have hstill := @dirRename_reverted bSize (m.st.iIno inode) old m.st.dir d records mid hd
    (h.found holdLen hold) env.readOld env.readRevert hdel hback
  refine exact_of_not hno fun hagree => ?_
  have hne : old ≠ new.name := by
    intro hname
    rw [← hname, hold, hfree] at hnew
    exact absurd hnew (by simp)
  rw [nameStep_ok hrun] at hagree
  have hlook := hstill.symm.trans (hagree old holdLen)
  cases exchange with
  | true => exact absurd hfree (hexchange rfl)
  | false => simp [NameSpace.after, Function.update_of_ne hne] at hlook

/-- Not put back, it is gone, and the call has failed. -/
theorem lost_exact (hfree : new.inode = none)
    (hadd : addEntry env.readNew bSize new.name (m.st.iIno inode) mid = some (.error e))
    {e' : Errno} (hrun : NameCall.run bSize m.st (.rename env exchange oldDir newDir old inode new)
      = some (.error e', m.st.withDir mid)) :
    Exact bSize m (.rename env exchange oldDir newDir old inode new) := by
  have hcleared := h.renameCleared hvalid hdel
  refine exact_of_not (not_kept_of_fail h hvalid hdel hfree hadd) fun hagree => ?_
  obtain ⟨hold, holdLen, -⟩ := hvalid
  rw [nameStep_error hrun] at hagree
  have hlook := hcleared.gone.symm.trans (hagree old holdLen)
  simp [hold] at hlook

end Ends

/-- **A name is renamed.** -/
theorem rename_exact (h : InStep bSize m)
    (hvalid : NameValid bSize m (.rename env exchange oldDir newDir old inode new)) :
    Exact bSize m (.rename env exchange oldDir newDir old inode new) := by
  obtain ⟨hold, holdLen, -, hnewLen, -⟩ := id hvalid
  obtain ⟨records, hd⟩ := h.block
  have hd' : DirectoryBlock m.st.dir.block bSize records := hd
  obtain ⟨r, d, hren⟩ := @dirRename_ends bSize env exchange oldDir newDir old new m.st.dir records
    (m.st.iIno inode) hd' holdLen hnewLen (h.found holdLen hold)
  have hrun : NameCall.run bSize m.st (.rename env exchange oldDir newDir old inode new)
      = some (r, m.st.withDir d) := by
    rw [NameCall.run, hren]
    rfl
  cases dirRename_end hren with
  | kept e hdel =>
    refine exact_of_inStep (fun mid hmid => ?_) ?_
    · rw [hdel] at hmid
      exact absurd hmid (by simp)
    · rw [nameStep_error hrun]
      exact h.same (extends_of_eq h.counter rfl rfl rfl) (DirState.dropLink?_block _ _) rfl
  | replaced target mid htarget hdel =>
    refine replaced_exact h hvalid hdel htarget ?_ hrun
    exact (DirState.moveDirs_block _ _ _).trans (DirState.dropLink?_block _ _)
  | added mid last hfree hdel hadd =>
    exact added_exact h hvalid hdel hfree hadd (DirState.moveDirs_block _ _ _) hrun
  | reverted mid last e hfree hdel hadd hback =>
    exact reverted_exact h hvalid hdel hfree hadd hback hrun
  | lost mid e e' hfree hdel hadd hback => exact lost_exact h hvalid hdel hfree hadd hrun

end Renamed

theorem alloc_exact (h : InStep bSize m) (start len : Nat) : Exact bSize m (.alloc start len) := by
  refine exact_of_inStep trivial ?_
  have hrun : NameCall.run bSize m.st (.alloc start len)
      = some (.ok (), { m.st with info := (allocBlocks m.st.info start len).2 }) := rfl
  rw [nameStep_ok hrun]
  refine h.same ⟨Nat.le_refl _, fun _ _ => rfl, ?_⟩ rfl rfl
  change (allocBlocks m.st.info start len).2.nextIno < 2 ^ 64
  rw [allocBlocks]
  split
  · exact h.counter
  · exact addU64_lt _ _

/-- **One call**: the block follows it exactly if it is kept. -/
theorem call_exact (h : InStep bSize m) {c : NameCall} (hvalid : NameValid bSize m c) :
    Exact bSize m c := by
  cases c with
  | create memory read dir name mode => exact create_exact h hvalid
  | mkdir memory read dir name mode => exact mkdir_exact h hvalid
  | unlink read dir name inode => exact unlink_exact h hvalid
  | rmdir read dir name inode => exact rmdir_exact h hvalid
  | rename env exchange oldDir newDir old inode new => exact rename_exact h hvalid
  | alloc start len => exact alloc_exact h start len

end Calls

/-! ## 5. Runs -/

section Runs

/-- A mount of the block with "a" and "b": the root, inode 0, and the two files. -/
def sampleMount : NameMachine where
  st := {
    info := mounted 4096 4000 ⟨0, fun _ => ⟨fun _ => false, 0, 0⟩⟩
    block := sampleDir
    iNlink := fun _ => 1
    iIno := fun inode => inode + 16
    inodes := 3 }
  space := {
    names := fun name => if name = [97] then some 1 else if name = [98] then some 2 else none
    links := fun _ => 1
    isDir := fun inode => decide (inode = 0) }

theorem sampleMount_inStep : InStep 64 sampleMount := by
  have hrun : EntryRun sampleDir 64 0 [0, 16, 32] := sampleDir_block.run
  obtain ⟨ha, hb, -⟩ := sampleDir_lookups
  refine ⟨⟨_, sampleDir_block⟩, fun name inode hname => ?_, by decide, fun name hlen => ?_⟩
  · change (if name = [97] then some 1 else if name = [98] then some 2 else none) = some inode at hname
    change inode < 3
    split_ifs at hname <;> simp only [Option.some.injEq] at hname <;> omega
  · change dirLookup true 64 sampleDir name = some (.ok (Option.map (fun inode => inode + 16)
      (if name = [97] then some 1 else if name = [98] then some 2 else none)))
    split_ifs with h1 h2
    · rw [h1]
      exact ha
    · rw [h2]
      exact hb
    · -- the two records in use have the two names, the third is dead
      refine hrun.lookup_none.mpr ⟨hlen, fun j hj => ?_⟩
      have hall : ∀ j ∈ [0, 16, 32], dirIno sampleDir j = 0 ∨ entryName sampleDir j = [97] ∨
          entryName sampleDir j = [98] := by decide +kernel
      rw [Bool.eq_false_iff, ne_eq, entryNamed_iff]
      rintro ⟨hlive, rfl⟩
      rcases hall j hj with h | h | h
      · exact hlive h
      · exact h1 h
      · exact h2 h

theorem sampleMount_create :
    NameValid 64 sampleMount (.create true true 0 [99] 0) ∧
      NameKept 64 sampleMount (.create true true 0 [99] 0) ∧
      (nameStep 64 sampleMount (.create true true 0 [99] 0)).space.names [97] = some 1 := by
  have hscan : entryScan sampleDir 64 (entryFree sampleDir 64 1) 0 = .found 32 := by
    rw [show entryScan sampleDir 64 _ 0 = _ from sampleDir_block.run.scan _]
    decide +kernel
  have hvalid : NameValid 64 sampleMount (.create true true 0 [99] 0) := by
    refine ⟨by decide, by decide, by decide, by decide, fun i hi => ?_⟩
    obtain rfl : 32 = i := EntryScan.found.inj (hscan.symm.trans hi)
    decide +kernel
  refine ⟨hvalid, fun _ => ⟨rfl, 32, hscan⟩, ?_⟩
  rw [nameStep]
  split
  · rfl
  · rfl
  · rfl

/-- **The block holds the name space through a run exactly when every call of it is kept.** -/
theorem names_agree_iff {bSize : Nat} {m : NameMachine} (h : InStep bSize m)
    {calls : List NameCall} (hvalid : Along (nameStep bSize) (NameValid bSize) m calls) :
    (∀ t ∈ states (nameStep bSize) m calls, NamesAgree bSize t) ↔
      Along (nameStep bSize) (NameKept bSize) m calls :=
  states_good_iff (fun _ hf => hf.agree) (fun _ _ hf hv hk => (call_exact hf hv).2 hk)
    (fun _ _ hf hv hg => (call_exact hf hv).1.mp hg) calls m h hvalid

theorem names_agree_sampleMount : InStep 64 sampleMount ∧
    ∀ t ∈ states (nameStep 64) sampleMount
      [.create true true 0 [99] 0, .unlink true 0 [97] 1], NamesAgree 64 t := by
  obtain ⟨hvalid, hkept, hname⟩ := sampleMount_create
  have hrun : Along (nameStep 64) (NameValid 64) sampleMount
      [.create true true 0 [99] 0, .unlink true 0 [97] 1] :=
    ⟨hvalid, ⟨hname, by decide⟩, trivial⟩
  exact ⟨sampleMount_inStep,
    (names_agree_iff sampleMount_inStep hrun).mpr ⟨hkept, trivial, trivial⟩⟩

end Runs

end AetherFs
