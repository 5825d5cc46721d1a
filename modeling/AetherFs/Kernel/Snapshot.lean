/-
# Snapshots of `snapshots.c`

`aetherfs_snapshot_list` and `aetherfs_snapshot_rollback` look for snapshots in EIGHT blocks, from
`s_checkpoint_root` on.  `aetherfs_snapshot_create` writes its record to the FIRST of them, whatever
is there.

* `snapInv_step`: along every run the first block holds the snapshot that was taken last, and the
  seven others are as the run has found them.
* So a snapshot that was followed by another one is not lost only if those seven blocks held its
  record before it was taken.

Fields are read and written as they are on a little-endian machine.
-/
import AetherFs.Device
import AetherFs.Lib.Machine

namespace AetherFs

open Lib

/-! ## 1. The source -/

/-- `struct aetherfs_snapshot_ref`. -/
structure SnapshotRef where
  srId : Nat
  srGenTime : Nat
  srRootInode : Nat
  srExtentTree : Nat
  srMetaTree : Nat
  srRefcount : Nat
  srFlags : Nat
deriving DecidableEq, Repr

/-- The three pointers of the superblock that a snapshot keeps. -/
structure TreeRoots where
  sRootInode : Nat
  sExtentTree : Nat
  sMetaTree : Nat
deriving DecidableEq, Repr

/-- The file system, as far as snapshots are concerned: `s_generation`, the superblock's pointers,
and the front of each block; a block that `sb_bread` cannot read is `none`. -/
structure SnapFs where
  sGeneration : Nat
  live : TreeRoots
  sCheckpointRoot : Nat
  disk : Nat → Option SnapshotRef

/-- `AETHERFS_SNAP_READONLY`. -/
abbrev snapReadonly : Nat := 1

/-- The record of a snapshot that is taken now. -/
def SnapFs.record (fs : SnapFs) (snapId now : Nat) (readonly : Bool) : SnapshotRef :=
  ⟨snapId, now, fs.live.sRootInode, fs.live.sExtentTree, fs.live.sMetaTree, 1,
    if readonly then snapReadonly else 0⟩

/-- `aetherfs_snapshot_create`.  `inode` is what `aetherfs_new_inode` gives, `now` the time; the
result says whether the new inode is marked immutable.  The generation, of 32 bits, goes up in any
case. -/
def snapshotCreate (fs : SnapFs) (inode : Except Errno Unit) (now : Nat) (readonly : Bool) :
    Except Errno Bool × SnapFs :=
  let snapId := (fs.sGeneration + 1) % 2 ^ 32
  let fs := { fs with sGeneration := snapId }
  match inode with
  | .error e => (.error e, fs)
  | .ok _ =>
    match fs.disk fs.sCheckpointRoot with
    | none => (.error .EIOERR, fs)
    | some _ =>
      (.ok readonly, { fs with
        disk := Function.update fs.disk fs.sCheckpointRoot (some (fs.record snapId now readonly)) })

/-- The blocks in which snapshots are looked for. -/
def SnapFs.slot (fs : SnapFs) (i : Nat) : Option SnapshotRef :=
  fs.disk (addU64 fs.sCheckpointRoot i)

/-- `aetherfs_snapshot_list`: what the callback is called with. -/
def snapshotList (fs : SnapFs) : List SnapshotRef :=
  ((List.range 8).filterMap fs.slot).filter fun snap => snap.srId ≠ 0

/-- The record in a block, if it has that id. -/
def SnapFs.withId (fs : SnapFs) (snapId i : Nat) : Option SnapshotRef :=
  (fs.slot i).filter fun snap => snap.srId = snapId

/-- `aetherfs_snapshot_rollback`. -/
def snapshotRollback (fs : SnapFs) (snapId : Nat) : Except Errno Unit × SnapFs :=
  match (List.range 8).findSome? (fs.withId snapId) with
  | some snap =>
    (.ok (), { fs with live := ⟨snap.srRootInode, snap.srExtentTree, snap.srMetaTree⟩ })
  | none => (.error .ENOENT, fs)

/-! ## 2. Runs -/

/-- A snapshot that was taken: its id and the pointers of that time. -/
structure Taken where
  id : Nat
  roots : TreeRoots
deriving DecidableEq, Repr

/-- The file system and the snapshots taken so far, the last one first. -/
structure SnapMachine where
  fs : SnapFs
  taken : List Taken

inductive SnapCall
  | create (inode : Except Errno Unit) (now : Nat) (readonly : Bool)
  | change (live : TreeRoots)

def snapStep (m : SnapMachine) : SnapCall → SnapMachine
  | .create inode now readonly =>
    match snapshotCreate m.fs inode now readonly with
    | (.ok _, fs) => ⟨fs, ⟨fs.sGeneration, m.fs.live⟩ :: m.taken⟩
    | (.error _, fs) => { m with fs := fs }
  | .change live => { m with fs := { m.fs with live := live } }

/-- The record is that of the snapshot. -/
def SnapshotRef.Of (snap : SnapshotRef) (t : Taken) : Prop :=
  snap.srId = t.id ∧ (⟨snap.srRootInode, snap.srExtentTree, snap.srMetaTree⟩ : TreeRoots) = t.roots

/-- The snapshot is listed, and a rollback to its id gives its pointers back. -/
structure Restorable (fs : SnapFs) (t : Taken) : Prop where
  listed : ∃ snap ∈ snapshotList fs, snap.Of t
  rollback : (snapshotRollback fs t.id).1 = .ok ()
  restored : (snapshotRollback fs t.id).2.live = t.roots

/-- No snapshot is lost. -/
def SnapshotsKept (m : SnapMachine) : Prop := ∀ t ∈ m.taken, Restorable m.fs t

/-- One of the seven blocks behind the first holds the record, and none before it its id. -/
def FoundBehind (fs : SnapFs) (t : Taken) : Prop :=
  ∃ snap, (List.range' 1 7).findSome? (fs.withId t.id) = some snap ∧ snap.Of t

/-- Each snapshot is the last one, or it was recorded behind the first block all along; and no id
is zero. -/
def SnapshotsFit (fs : SnapFs) : List Taken → Prop
  | [] => True
  | last :: earlier => ∀ t ∈ last :: earlier,
      t.id ≠ 0 ∧ (t = last ∨ (t.id ≠ last.id ∧ FoundBehind fs t))

/-! ## 3. The first block and the seven others -/

/-- What a run has done to the blocks it started from. -/
structure SnapInv (fs₀ : SnapFs) (m : SnapMachine) : Prop where
  root : m.fs.sCheckpointRoot = fs₀.sCheckpointRoot
  others : ∀ block, block ≠ fs₀.sCheckpointRoot → m.fs.disk block = fs₀.disk block
  last : ∀ t, m.taken.head? = some t →
    ∃ snap, m.fs.disk fs₀.sCheckpointRoot = some snap ∧ snap.Of t

section Run

variable {fs₀ : SnapFs} {m : SnapMachine}

/-- What a create can do: nothing but count, or take a snapshot. -/
theorem snapStep_create (m : SnapMachine) (inode : Except Errno Unit) (now : Nat)
    (readonly : Bool) :
    (snapStep m (.create inode now readonly)
      = { m with fs := { m.fs with sGeneration := (m.fs.sGeneration + 1) % 2 ^ 32 } }) ∨
    ∃ snap : SnapshotRef, snap.Of ⟨(m.fs.sGeneration + 1) % 2 ^ 32, m.fs.live⟩ ∧
      snapStep m (.create inode now readonly)
        = ⟨{ m.fs with
              sGeneration := (m.fs.sGeneration + 1) % 2 ^ 32
              disk := Function.update m.fs.disk m.fs.sCheckpointRoot (some snap) },
            ⟨(m.fs.sGeneration + 1) % 2 ^ 32, m.fs.live⟩ :: m.taken⟩ := by
  cases inode with
  | error e => exact Or.inl rfl
  | ok u =>
    cases hdisk : m.fs.disk m.fs.sCheckpointRoot with
    | none =>
      left
      simp only [snapStep, snapshotCreate, hdisk]
    | some old =>
      right
      refine ⟨m.fs.record ((m.fs.sGeneration + 1) % 2 ^ 32) now readonly, ⟨rfl, rfl⟩, ?_⟩
      simp only [snapStep, snapshotCreate, hdisk]
      rfl

/-- **The step.**  A create overwrites the first block and nothing else. -/
theorem snapInv_step (h : SnapInv fs₀ m) (c : SnapCall) : SnapInv fs₀ (snapStep m c) := by
  cases c with
  | create inode now readonly =>
    rcases snapStep_create m inode now readonly with hstep | ⟨snap, hsnap, hstep⟩
    · rw [hstep]
      exact ⟨h.root, h.others, h.last⟩
    · rw [hstep]
      refine ⟨h.root, fun block hblock => ?_, fun t ht => ⟨snap, ?_, ?_⟩⟩
      · have hne : block ≠ m.fs.sCheckpointRoot := fun he => hblock (he.trans h.root)
        exact (Function.update_of_ne hne _ _).trans (h.others block hblock)
      · rw [← h.root]
        exact Function.update_self _ _ _
      · rw [← Option.some.inj ht]
        exact hsnap
  | change live => exact ⟨h.root, h.others, h.last⟩

theorem snapInv_run (fs₀ : SnapFs) (calls : List SnapCall) :
    SnapInv fs₀ (calls.foldl snapStep ⟨fs₀, []⟩) := by
  have hstart : SnapInv fs₀ ⟨fs₀, []⟩ :=
    ⟨rfl, fun _ _ => rfl, fun t ht => absurd ht (by simp)⟩
  exact @run_inv _ _ snapStep (SnapInv fs₀) (fun h c => snapInv_step h c) calls _ _ hstart
    (foldl_mem_states calls _)

/-! ## 4. What is found -/

theorem withId_found {fs : SnapFs} {snapId : Nat} {l : List Nat} {snap : SnapshotRef}
    (h : l.findSome? (fs.withId snapId) = some snap) :
    snap.srId = snapId ∧ ∃ i ∈ l, fs.slot i = some snap := by
  obtain ⟨i, hi, hsnap⟩ := List.exists_of_findSome?_eq_some h
  obtain ⟨hslot, hid⟩ := Option.filter_eq_some_iff.mp hsnap
  exact ⟨of_decide_eq_true hid, i, hi, hslot⟩

/-- A record in one of the blocks is listed unless its id is zero. -/
theorem mem_snapshotList {fs : SnapFs} {snap : SnapshotRef} :
    snap ∈ snapshotList fs ↔ (∃ i < 8, fs.slot i = some snap) ∧ snap.srId ≠ 0 := by
  simp only [snapshotList, List.mem_filter, List.mem_filterMap, List.mem_range, decide_eq_true_eq]

section Found

variable (h : SnapInv fs₀ m)

include h

theorem SnapInv.other_slot {i : Nat} (hpos : 0 < i) (hi : i < 8) :
    m.fs.slot i = fs₀.slot i := by
  have hne : addU64 fs₀.sCheckpointRoot i ≠ fs₀.sCheckpointRoot := by
    rw [addU64]
    omega
  rw [SnapFs.slot, h.root, h.others _ hne, SnapFs.slot]

/-- The search behind the first block is a search of the blocks the run has started from. -/
theorem SnapInv.search_behind (snapId : Nat) :
    (List.range' 1 7).findSome? (m.fs.withId snapId)
      = (List.range' 1 7).findSome? (fs₀.withId snapId) := by
  rw [← List.head?_filterMap, ← List.head?_filterMap]
  refine congrArg List.head? (List.filterMap_congr fun i hi => ?_)
  obtain ⟨hlow, hhigh⟩ := List.mem_range'_1.mp hi
  rw [SnapFs.withId, h.other_slot hlow hhigh, SnapFs.withId]

variable (hroot : fs₀.sCheckpointRoot < 2 ^ 64)

include hroot

theorem SnapInv.first_slot : m.fs.slot 0 = m.fs.disk fs₀.sCheckpointRoot := by
  rw [SnapFs.slot, h.root]
  exact congrArg m.fs.disk (Nat.mod_eq_of_lt hroot)

/-- **What a rollback finds**: the last snapshot under its own id, and under any other what was
behind the first block to begin with. -/
theorem SnapInv.search {last : Taken} {snap : SnapshotRef}
    (hfirst : m.fs.disk fs₀.sCheckpointRoot = some snap) (hsnap : snap.Of last) (snapId : Nat) :
    (List.range 8).findSome? (m.fs.withId snapId)
      = if last.id = snapId then some snap
        else (List.range' 1 7).findSome? (fs₀.withId snapId) := by
  have hrange : List.range 8 = 0 :: List.range' 1 7 := rfl
  rw [hrange, List.findSome?_cons, ← h.search_behind, SnapFs.withId, h.first_slot hroot,
    hfirst]
  simp only [Option.filter_some, hsnap.1, decide_eq_true_eq]
  split
  · next heq =>
    split at heq
    · next hid => rw [if_pos hid, ← heq]
    · exact absurd heq (by simp)
  · next heq =>
    split at heq
    · exact absurd heq (by simp)
    · next hid => rw [if_neg hid]

/-- **A snapshot can be restored exactly if it was taken last, or was there before.** -/
theorem SnapInv.restorable_iff {last : Taken} (hlast : m.taken.head? = some last) (t : Taken) :
    Restorable m.fs t ↔
      t.id ≠ 0 ∧ (t = last ∨ (t.id ≠ last.id ∧ FoundBehind fs₀ t)) := by
  obtain ⟨snap, hfirst, hsnap⟩ := h.last last hlast
  have hsearch := h.search hroot hfirst hsnap t.id
  constructor
  · rintro ⟨⟨listed, hmem, hof⟩, hok, hroots⟩
    refine ⟨hof.1 ▸ (mem_snapshotList.mp hmem).2, ?_⟩
    cases hfind : (List.range 8).findSome? (m.fs.withId t.id) with
    | none =>
      rw [snapshotRollback, hfind] at hok
      cases hok
    | some found =>
      rw [snapshotRollback, hfind] at hroots
      rw [hfind] at hsearch
      by_cases hid : last.id = t.id
      · left
        rw [if_pos hid] at hsearch
        obtain rfl := Option.some.inj hsearch
        have hsame : t.roots = last.roots := hroots.symm.trans hsnap.2
        cases t
        cases last
        exact congrArg₂ Taken.mk hid.symm hsame
      · right
        rw [if_neg hid] at hsearch
        exact ⟨fun he => hid he.symm, found, hsearch.symm,
          (withId_found hsearch.symm).1, hroots⟩
  · rintro ⟨hzero, hcases⟩
    obtain ⟨found, hfind, hof⟩ : ∃ found,
        (List.range 8).findSome? (m.fs.withId t.id) = some found ∧ found.Of t := by
      rcases hcases with rfl | ⟨hid, found, hfound, hof⟩
      · rw [if_pos rfl] at hsearch
        exact ⟨snap, hsearch, hsnap⟩
      · rw [if_neg fun he => hid he.symm] at hsearch
        exact ⟨found, hsearch.trans hfound, hof⟩
    obtain ⟨-, i, hi, hslot⟩ := withId_found hfind
    have hne : found.srId ≠ 0 := by
      rw [hof.1]
      exact hzero
    refine ⟨⟨found, mem_snapshotList.mpr ⟨⟨i, List.mem_range.mp hi, hslot⟩, hne⟩, hof⟩, ?_, ?_⟩
    · rw [snapshotRollback, hfind]
    · rw [snapshotRollback, hfind]
      exact hof.2

end Found

end Run

/-! ## 5. Whole runs -/

/-- **Snapshots, exactly.**  After a run of creates, between which the live pointers change at
will, every snapshot taken is listed and can be rolled back to exactly when each of them is the
last one, or was recorded behind the first block before the run; one snapshot alone is kept unless
its id is zero. -/
theorem snapshots_kept_iff (fs : SnapFs) (hroot : fs.sCheckpointRoot < 2 ^ 64)
    (calls : List SnapCall) :
    (SnapshotsKept (calls.foldl snapStep ⟨fs, []⟩) ↔
      SnapshotsFit fs (calls.foldl snapStep ⟨fs, []⟩).taken) ∧
    ∀ t, (calls.foldl snapStep ⟨fs, []⟩).taken = [t] → t.id ≠ 0 →
      SnapshotsKept (calls.foldl snapStep ⟨fs, []⟩) := by
  have h := snapInv_run fs calls
  have hiff : SnapshotsKept (calls.foldl snapStep ⟨fs, []⟩) ↔
      SnapshotsFit fs (calls.foldl snapStep ⟨fs, []⟩).taken := by
    unfold SnapshotsKept
    cases htaken : (calls.foldl snapStep ⟨fs, []⟩).taken with
    | nil => exact iff_of_true (fun t ht => absurd ht List.not_mem_nil) trivial
    | cons last earlier =>
      have hlast : (calls.foldl snapStep ⟨fs, []⟩).taken.head? = some last := by
        rw [htaken, List.head?_cons]
      exact forall₂_congr fun t _ => h.restorable_iff hroot hlast t
  refine ⟨hiff, fun t ht hzero => hiff.mpr ?_⟩
  rw [ht]
  intro t' ht'
  obtain rfl := List.mem_singleton.mp ht'
  exact ⟨hzero, Or.inl rfl⟩

/-- A file system on which no snapshot was taken. -/
def blankFs : SnapFs := ⟨0, ⟨16, 3, 4⟩, 7, fun _ => some ⟨0, 0, 0, 0, 0, 0, 0⟩⟩

theorem snapshots_kept_one :
    blankFs.sCheckpointRoot < 2 ^ 64 ∧
      SnapshotsKept ([.create (.ok ()) 100 true, .change ⟨17, 8, 9⟩].foldl snapStep ⟨blankFs, []⟩) :=
  have hroot : blankFs.sCheckpointRoot < 2 ^ 64 := by decide
  ⟨hroot, (snapshots_kept_iff blankFs hroot _).2 ⟨1, 16, 3, 4⟩ rfl (by decide)⟩

theorem second_snapshot_loses_first :
    let m := [SnapCall.create (.ok ()) 100 true, .change ⟨17, 8, 9⟩, .create (.ok ()) 200 true].foldl
      snapStep ⟨blankFs, []⟩
    m.taken = [⟨2, 17, 8, 9⟩, ⟨1, 16, 3, 4⟩] ∧ (snapshotRollback m.fs 1).1 = .error .ENOENT ∧
      snapshotList m.fs = [⟨2, 200, 17, 8, 9, 1, 1⟩] := by
  refine ⟨rfl, rfl, ?_⟩
  decide

end AetherFs
