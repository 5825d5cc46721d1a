/-
# Histories of a directory block, and the validator of the tools

The kernel adds and deletes entries in a block of records (`Kernel.Dir`); the tools say which blocks
they accept (`Image.Directory`).  Here a block that is accepted goes through a history of additions and
deletions, each of which returns 0.

An addition takes over a dead record with what is in it.  Its length is not compared with the name, so
a name that is too long runs into the records behind; its checksum byte stays, and it is the one of the
entry that was there before; the inode number is not compared with the range of the table.  A deletion
takes any name, "." included.  Each of these is seen by the validator, and nothing else goes wrong
(`add_right_iff`, `delete_right_iff`): as long as no record is shorter than its header, a history
disturbs nothing exactly when each of its calls avoids all four.
-/
import AetherFs.Image.Directory
import AetherFs.Kernel.Dir
import AetherFs.Lib.Machine

namespace AetherFs

open Lib

/-! ## 1. Histories -/

/-- A call on the directory. -/
inductive DirOp
  | add (name : List UInt8) (ino : Nat)
  | delete (name : List UInt8)

/-- The call, on a block that can be read. -/
def DirOp.call (s : DirState) : DirOp → Option (Except Errno DirState)
  | .add name ino => addEntry true defBlockSize name ino s
  | .delete name => deleteEntry true defBlockSize name s

/-- The state after the call. -/
def historyStep (s : DirState) (op : DirOp) : DirState :=
  match op.call s with
  | some (.ok s') => s'
  | _ => s

/-- `aetherfs_image_validate_root_dir` accepts the block; `beyond` is what lies behind it in the memory
of the tool. -/
def DirState.Accepted (beyond : Nat → UInt8) (s : DirState) : Prop :=
  ∃ refs, imageValidateRootDir (imageWithDir (fun i => s.block i.val) beyond) = .ok refs

/-- The calls in question: they return 0, an added name is not in use, and its inode number is one that
no record refers to. -/
def DirOp.Valid (s : DirState) (op : DirOp) : Prop :=
  (∃ s', op.call s = some (.ok s')) ∧
    match op with
    | .add name ino => dirLookup true defBlockSize s.block name = some (.ok none) ∧
        ino ≠ 0 ∧ ino < 2 ^ 64 ∧ ∀ o ∈ dirRecords s.block 0, dirIno s.block o ≠ ino
    | .delete _ => True

/-- The record a call takes out of use. -/
def DirOp.removed (s : DirState) : DirOp → Option Nat
  | .add _ _ => none
  | .delete name => (dirRecords s.block 0).find? (entryNamed s.block name)

/-- **What a call should do.**  Every other live entry keeps its position, inode number and name, an
added name is found, and the block is still accepted. -/
structure StepRight (beyond : Nat → UInt8) (s : DirState) (op : DirOp) : Prop where
  kept : ∀ o ∈ dirRecords s.block 0, dirIno s.block o ≠ 0 → op.removed s ≠ some o →
    o ∈ dirRecords (historyStep s op).block 0 ∧ dirIno (historyStep s op).block o = dirIno s.block o ∧
      entryName (historyStep s op).block o = entryName s.block o
  found : ∀ name ino, op = .add name ino →
    dirLookup true defBlockSize (historyStep s op).block name = some (.ok (some ino))
  accepted : (historyStep s op).Accepted beyond

/-- **What a call has to avoid.**  The dead record that is taken has room for the name, its checksum
byte is by chance the one of the new entry, and the inode number is in range; a deletion leaves a "."
and a "..". -/
def DirOp.Safe (s : DirState) : DirOp → Prop
  | .add name ino => ∃ i,
      (dirRecords s.block 0).find? (entryFree s.block defBlockSize name.length) = some i ∧
      14 + name.length ≤ dirRec s.block i ∧
      dirChecksum s.block i = direntChecksum (writeEntry s.block i name ino) i ∧
      rootIno ≤ ino ∧ ino < rootIno + maxInodes
  | .delete name => ∃ i, (dirRecords s.block 0).find? (entryNamed s.block name) = some i ∧
      (∃ o ∈ dirRecords s.block 0, o ≠ i ∧ dirIno s.block o ≠ 0 ∧ isDot s.block o) ∧
      ∃ o ∈ dirRecords s.block 0, o ≠ i ∧ dirIno s.block o ≠ 0 ∧ isDotdot s.block o

/-! ## 2. Blocks that are accepted -/

/-- A block of the grammar, in the memory of the kernel. -/
structure GoodDir (m : Memory) (records : List Nat) : Prop where
  run : RecordRun m (GoodRecord m) defBlockSize 0 records
  names : NamesOk m records

section Good

variable {m m' : Memory} {records : List Nat} {i : Nat} {beyond : Nat → UInt8}

/-- The memory of the validator is the block, as far as it reaches. -/
theorem view_eq (m : Memory) (beyond : Nat → UInt8) {x : Nat} (hx : x < defBlockSize) :
    dirMemory (imageWithDir (fun i => m i.val) beyond) x = m x := by
  rw [dirMemory_block _ hx]
  exact byteAt_lt _ hx

theorem RecordRun.entryRun {stop offset : Nat} (h : RecordRun m (GoodRecord m) stop offset records) :
    EntryRun m stop offset records := by
  induction h with
  | done => exact .done
  | more hp hrest ih =>
    have hroom := hp.room
    simp only [dirEntryBaseSize] at hroom
    exact .more ⟨Nat.le_trans (Nat.le_add_right _ _) hroom, fun _ => hroom⟩ ih

theorem GoodDir.entryRun (h : GoodDir m records) : EntryRun m defBlockSize 0 records := h.run.entryRun

theorem GoodDir.records_eq (h : GoodDir m records) : records = dirRecords m 0 :=
  h.run.eq_dirRecords fun _ ho => (h.run.mem ho).1.pos

theorem GoodDir.accepted {s : DirState} (h : GoodDir s.block records) : s.Accepted beyond := by
  have hm : ∀ i, i < defBlockSize →
      dirMemory (imageWithDir (fun i => s.block i.val) beyond) i = s.block i :=
    fun i hi => view_eq s.block beyond hi
  refine (rootDir_accepts_iff _).mpr ⟨records, ?_, h.names.congr hm h.run⟩
  exact (h.run.good_congr hm).mono fun o _ hgood hend => hgood.passed hend

/-- An accepted block without a record that is shorter than its header. -/
theorem goodDir_of_accepted {s : DirState} (hacc : s.Accepted beyond)
    (hlong : ∀ o ∈ dirRecords (dirMemory (imageWithDir (fun i => s.block i.val) beyond)) 0,
      dirEntryBaseSize ≤ dirRec (dirMemory (imageWithDir (fun i => s.block i.val) beyond)) o) :
    ∃ records, GoodDir s.block records := by
  obtain ⟨records, hrun, hnames⟩ := (rootDir_accepts_iff _).mp hacc
  have hrecords := hrun.eq_dirRecords fun o ho => (hrun.mem ho).1.pos
  have hgood := hrun.mono fun o ho hpassed _ => hpassed.good (hlong o (hrecords ▸ ho))
  have hm : ∀ i, i < defBlockSize →
      s.block i = dirMemory (imageWithDir (fun i => s.block i.val) beyond) i :=
    fun i hi => (view_eq s.block beyond hi).symm
  exact ⟨records, hgood.good_congr hm, hnames.congr hm hgood⟩

/-- Nor does a good block have such a record. -/
theorem GoodDir.long {s : DirState} (h : GoodDir s.block records) :
    ∀ o ∈ dirRecords (dirMemory (imageWithDir (fun i => s.block i.val) beyond)) 0,
      dirEntryBaseSize ≤ dirRec (dirMemory (imageWithDir (fun i => s.block i.val) beyond)) o := by
  have hrun := h.run.good_congr fun i hi => view_eq s.block beyond hi
  intro o ho
  rw [← hrun.eq_dirRecords fun o ho => (hrun.mem ho).1.pos] at ho
  exact (Nat.le_add_right _ _).trans (hrun.mem ho).1.room

theorem EntryRun.nodup {bSize offset : Nat} (h : EntryRun m bSize offset records) :
    records.Nodup := by
  induction h with
  | done => exact List.nodup_nil
  | more hok hrest ih =>
    refine List.nodup_cons.mpr ⟨fun hmem => ?_, ih⟩
    have hle := (hrest.mem hmem).2.1
    have hheader := hok.header
    omega

theorem distinct_iff (h : records.Nodup) :
    ((records.filter fun o => LiveName m o).map (dirIno m)).Nodup ↔
      ∀ x ∈ records, ∀ y ∈ records, LiveName m x → LiveName m y → dirIno m x = dirIno m y →
        x = y := by
  rw [List.nodup_map_iff_inj_on (h.filter _)]
  simp only [List.mem_filter, decide_eq_true_eq]
  constructor
  · intro hinj x hx y hy hlx hly
    exact hinj x ⟨hx, hlx⟩ y ⟨hy, hly⟩
  · rintro hinj x ⟨hx, hlx⟩ y ⟨hy, hly⟩
    exact hinj x hx y hy hlx hly

theorem isDot_iff_name : isDot m i ↔ entryName m i = [46] := by
  rw [isDot, entryName]
  constructor
  · rintro ⟨hlen, hbyte⟩
    rw [hlen, ← hbyte]
    rfl
  · intro hname
    have hlen : dirNameLen m i = 1 := by
      have := congrArg List.length hname
      rwa [bytesFrom_length] at this
    rw [hlen] at hname
    exact ⟨hlen, List.singleton_inj.mp hname⟩

theorem isDotdot_iff_name : isDotdot m i ↔ entryName m i = [46, 46] := by
  rw [isDotdot, entryName]
  constructor
  · rintro ⟨hlen, hbyte, hbyte'⟩
    rw [hlen]
    exact congrArg₂ (fun a b => [a, b]) hbyte hbyte'
  · intro hname
    have hlen : dirNameLen m i = 2 := by
      have := congrArg List.length hname
      rwa [bytesFrom_length] at this
    rw [hlen] at hname
    obtain ⟨h1, h2⟩ := List.cons.inj hname
    exact ⟨hlen, h1, (List.cons.inj h2).1⟩

theorem RecordRun.change {P Q : Nat → Prop} {stop offset : Nat} (h : RecordRun m P stop offset records)
    (hrec : ∀ o ∈ records, dirRec m' o = dirRec m o) (hq : ∀ o ∈ records, Q o) :
    RecordRun m' Q stop offset records := by
  induction h with
  | done => exact .done
  | @more offset rest _ hrest ih =>
    refine .more (hq offset List.mem_cons_self) ?_
    rw [hrec offset List.mem_cons_self]
    exact ih (fun o ho => hrec o (List.mem_cons_of_mem _ ho))
      fun o ho => hq o (List.mem_cons_of_mem _ ho)

/-- **One record is rewritten.**  The block stays good when the other records stay as they are, the one
keeps its length, both dots are among the others, and the new name, if there is one, is no dot and of an
inode in range that no record refers to. -/
theorem GoodDir.rewritten (h : GoodDir m records)
    (hsame : ∀ j ∈ records, j ≠ i → SameEntry m m' j) (hrec : dirRec m' i = dirRec m i)
    (hself : GoodRecord m' i) (hdot : ∃ o ∈ records, o ≠ i ∧ dirIno m o ≠ 0 ∧ isDot m o)
    (hdotdot : ∃ o ∈ records, o ≠ i ∧ dirIno m o ≠ 0 ∧ isDotdot m o)
    (hnew : dirIno m' i ≠ 0 → LiveName m' i ∧
      (rootIno ≤ dirIno m' i ∧ dirIno m' i < rootIno + maxInodes) ∧
      ∀ o ∈ records, dirIno m o ≠ dirIno m' i) : GoodDir m' records := by
  have hothers : ∀ j ∈ records, j ≠ i → GoodRecord m' j ∧ dirRec m' j = dirRec m j ∧
      dirIno m' j = dirIno m j ∧ (isDot m' j ↔ isDot m j) ∧ (isDotdot m' j ↔ isDotdot m j) :=
    fun j hj hne => (h.run.mem hj).1.congr (hsame j hj hne)
  have hlives : ∀ j ∈ records, j ≠ i → LiveName m' j → LiveName m j := by
    intro j hj hne hlive
    obtain ⟨-, -, h1, h2, h3⟩ := hothers j hj hne
    rwa [LiveName, h1, h2, h3] at hlive
  refine ⟨h.run.change (fun o ho => ?_) fun o ho => ?_, ?_⟩
  · by_cases hne : o = i
    · rw [hne, hrec]
    · exact (hothers o ho hne).2.1
  · by_cases hne : o = i
    · rw [hne]
      exact hself
    · exact (hothers o ho hne).1
  · obtain ⟨d, hd, hdi, hdino, hd'⟩ := hdot
    obtain ⟨dd, hdd, hddi, hddino, hdd'⟩ := hdotdot
    obtain ⟨-, -, hd1, hd2, -⟩ := hothers d hd hdi
    obtain ⟨-, -, hdd1, -, hdd2⟩ := hothers dd hdd hddi
    refine ⟨⟨fun o ho hlive hdots => ?_, fun o ho hlive => ?_, ?_⟩,
      ⟨d, hd, by rwa [hd1], hd2.mpr hd'⟩, ⟨dd, hdd, by rwa [hdd1], hdd2.mpr hdd'⟩⟩
    · by_cases hne : o = i
      · subst hne
        exact absurd hdots (not_or.mpr (hnew hlive).1.2)
      · obtain ⟨-, -, h1, h2, h3⟩ := hothers o ho hne
        rw [h1] at hlive ⊢
        rw [h2, h3] at hdots
        exact h.names.dots o ho hlive hdots
    · by_cases hne : o = i
      · subst hne
        exact (hnew hlive.1).2.1
      · rw [(hothers o ho hne).2.2.1]
        exact h.names.range o ho (hlives o ho hne hlive)
    · have hdistinct := h.names.distinct
      rw [distinct_iff h.entryRun.nodup] at hdistinct ⊢
      intro x hx y hy hlx hly heq
      by_cases hxi : x = i
      · by_cases hyi : y = i
        · rw [hxi, hyi]
        · rw [hxi, (hothers y hy hyi).2.2.1] at heq
          exact absurd heq.symm ((hnew (hxi ▸ hlx.1)).2.2 y hy)
      · by_cases hyi : y = i
        · rw [hyi, (hothers x hx hxi).2.2.1] at heq
          exact absurd heq ((hnew (hyi ▸ hly.1)).2.2 x hx)
        · rw [(hothers x hx hxi).2.2.1, (hothers y hy hyi).2.2.1] at heq
          exact hdistinct x hx y hy (hlives x hx hxi hlx) (hlives y hy hyi hly) heq

theorem mem_dirRecords_of_before {P : Nat → Prop} {before after : List Nat} {offset : Nat}
    (h : RecordRun m P defBlockSize offset (before ++ i :: after)) (hlt : i < defBlockSize)
    (hpos : ∀ k ∈ before, 0 < dirRec m k) (hrec : ∀ k ∈ before, dirRec m' k = dirRec m k)
    (hi : 0 < dirRec m' i) : i ∈ dirRecords m' offset := by
  induction before generalizing offset with
  | nil =>
    cases h with
    | more _ _ =>
      rw [dirRecords, if_pos ⟨hlt, hi⟩]
      exact List.mem_cons_self
  | cons k before ih =>
    cases h with
    | more _ hrest =>
      have hk := hpos k List.mem_cons_self
      have hend := hrest.le
      rw [dirRecords, hrec k List.mem_cons_self, if_pos ⟨by omega, hk⟩]
      exact List.mem_cons_of_mem _ (ih hrest (fun x hx => hpos x (List.mem_cons_of_mem _ hx))
        fun x hx => hrec x (List.mem_cons_of_mem _ hx))

end Good

/-! ## 3. Adding -/

section Add

variable {m : Memory} {records : List Nat} {i ino : Nat} {name : List UInt8} {beyond : Nat → UInt8}

/-- The checksum byte is left as it is. -/
theorem writeEntry_checksum (m : Memory) (i : Nat) (name : List UInt8) (ino : Nat) :
    dirChecksum (writeEntry m i name ino) i = dirChecksum m i := by
  simp only [dirChecksum, writeEntry]
  rw [setBytes_of_out _ (by omega), setLE_of_out _ _ (by omega), setLE_of_out _ _ (by omega),
    setLE_of_out _ _ (by omega)]

/-- An added name is neither of the dots: they are there already. -/
theorem GoodDir.not_dots (h : GoodDir m records)
    (hfresh : dirLookup true defBlockSize m name = some (.ok none)) :
    name ≠ [46] ∧ name ≠ [46, 46] := by
  obtain ⟨-, hnone⟩ := h.entryRun.lookup_none.mp hfresh
  obtain ⟨-, ⟨d, hd, hdino, hdot⟩, ⟨dd, hdd, hddino, hdotdot⟩⟩ := h.names
  constructor
  · rintro rfl
    have := hnone d hd
    rw [entryNamed_iff.mpr ⟨hdino, isDot_iff_name.mp hdot⟩] at this
    exact absurd this (by simp)
  · rintro rfl
    have := hnone dd hdd
    rw [entryNamed_iff.mpr ⟨hddino, isDotdot_iff_name.mp hdotdot⟩] at this
    exact absurd this (by simp)

section Taken

variable (h : GoodDir m records)
  (hfree : records.find? (entryFree m defBlockSize name.length) = some i)
  (hlen : name.length ≤ maxNamelen) (hino : ino < 2 ^ 64) (hlive : ino ≠ 0)
  (hdots : name ≠ [46] ∧ name ≠ [46, 46])

include hfree in
omit h in
/-- The record that is taken is dead, and the name ends in the block. -/
theorem taken_record : i ∈ records ∧ dirIno m i = 0 ∧ i + 14 + name.length ≤ defBlockSize := by
  have hfound := List.find?_some hfree
  rw [entryFree, decide_eq_true_eq] at hfound
  refine ⟨List.mem_of_find?_eq_some hfree, hfound.1, ?_⟩
  have hend := hfound.2
  simp only [dirRecLen, dirEntryBaseSize] at hend
  omega

include hlen hino hlive hdots in
omit h hfree in
theorem liveName_written : LiveName (writeEntry m i name ino) i := by
  obtain ⟨hino', -, -, hname⟩ := @writeEntry_fields ino name m i hlen hino
  refine ⟨by rwa [hino'], ?_, ?_⟩
  · rw [isDot_iff_name, hname]
    exact hdots.1
  · rw [isDotdot_iff_name, hname]
    exact hdots.2

include h hfree hlen hino hlive hdots

/-- **An addition that fits keeps the block good.** -/
theorem GoodDir.added (hroom : 14 + name.length ≤ dirRec m i)
    (hsum : dirChecksum m i = direntChecksum (writeEntry m i name ino) i)
    (hrange : rootIno ≤ ino ∧ ino < rootIno + maxInodes)
    (hunref : ∀ o ∈ records, dirIno m o ≠ ino) : GoodDir (writeEntry m i name ino) records := by
  obtain ⟨hi, hdead, -⟩ := taken_record hfree
  obtain ⟨hino', hrec', hlen', -⟩ := @writeEntry_fields ino name m i hlen hino
  have hgood := (h.run.mem hi).1
  have hself : GoodRecord (writeEntry m i name ino) i := by
    refine ⟨by rw [hrec']; exact hgood.pos, by rw [hrec']; exact hgood.aligned, ?_, ?_, fun _ => ?_⟩
    · rw [hrec', hlen']
      exact hroom
    · rw [hlen']
      exact hlen
    · rw [writeEntry_checksum]
      exact hsum
  have hne : ∀ o, dirIno m o ≠ 0 → o ≠ i := by
    rintro o hlive' rfl
    exact hlive' hdead
  obtain ⟨d, hd, hdino, hdot⟩ := h.names.dot
  obtain ⟨dd, hdd, hddino, hdotdot⟩ := h.names.dotdot
  refine h.rewritten (fun j hj hji => added_same ino h.entryRun hi hroom hj hji) hrec' hself
    ⟨d, hd, hne d hdino, hdino, hdot⟩ ⟨dd, hdd, hne dd hddino, hddino, hdotdot⟩ fun _ => ?_
  refine ⟨@liveName_written m i ino name hlen hino hlive hdots, ?_⟩
  rw [hino']
  exact ⟨hrange, hunref⟩

/-- **What the validator sees of an addition.** -/
theorem GoodDir.added_accepted {s' : DirState} (hblock : s'.block = writeEntry m i name ino)
    (hacc : s'.Accepted beyond) : 14 + name.length ≤ dirRec m i ∧
      dirChecksum m i = direntChecksum (writeEntry m i name ino) i ∧
      rootIno ≤ ino ∧ ino < rootIno + maxInodes := by
  obtain ⟨hi, -, hend⟩ := taken_record hfree
  obtain ⟨hino', hrec', hlen', hname'⟩ := @writeEntry_fields ino name m i hlen hino
  obtain ⟨recs, hrun, hnames⟩ := (rootDir_accepts_iff _).mp hacc
  have hrecs := hrun.eq_dirRecords fun o ho => (hrun.mem ho).1.pos
  have hview : ∀ x, x < defBlockSize →
      dirMemory (imageWithDir (fun i => s'.block i.val) beyond) x = writeEntry m i name ino x := by
    intro x hx
    rw [view_eq s'.block beyond hx, hblock]
  generalize dirMemory (imageWithDir (fun i => s'.block i.val) beyond) = v at hrun hnames hrecs hview
  -- what is read of the record is in the block
  have hvino : dirIno v i = ino := by
    rw [← hino']
    exact getLE_congr fun x h1 h2 => hview x (by omega)
  have hvrec : dirRec v i = dirRec m i := by
    rw [← hrec']
    exact getLE_congr fun x h1 h2 => hview x (by omega)
  have hvlen : dirNameLen v i = name.length := by
    rw [← hlen']
    exact getLE_congr fun x h1 h2 => hview x (by omega)
  have hvname : entryName v i = name := by
    rw [← hname', entryName, entryName, hvlen, hlen']
    exact bytesFrom_congr fun x hx => hview _ (by omega)
  have hheader := (h.entryRun.mem hi).1.header
  have hmem : i ∈ recs := by
    obtain ⟨-, before, after, rfl, -⟩ := List.find?_eq_some_iff_append.mp hfree
    rw [hrecs]
    refine mem_dirRecords_of_before h.run (by omega) (fun k hk => ?_) (fun k hk => ?_) (by omega)
    · exact (h.run.mem (List.mem_append_left _ hk)).1.pos
    · have hk' := h.entryRun.before hk
      have hheader' := (h.entryRun.mem (List.mem_append_left _ hk)).1.header
      refine getLE_congr fun x h1 h2 => ?_
      rw [hview x (by omega), writeEntry_out m name ino (Or.inl (by omega))]
  have hpassed := (hrun.mem hmem).1
  have hlivei : LiveName v i := by
    refine ⟨by rwa [hvino], ?_, ?_⟩
    · rw [isDot_iff_name, hvname]
      exact hdots.1
    · rw [isDotdot_iff_name, hvname]
      exact hdots.2
  have hsum := hpassed.sum (by rwa [hvino])
  have hroom := hpassed.room.resolve_left (by rw [hvrec]; exact Nat.not_lt.mpr hheader)
  rw [hvrec, hvlen] at hroom
  have hrange := hnames.range i hmem hlivei
  rw [hvino] at hrange
  refine ⟨hroom, ?_, hrange⟩
  have hbyte : dirChecksum v i = dirChecksum m i := by
    rw [← writeEntry_checksum m i name ino, dirChecksum, dirChecksum, hview _ (by omega)]
  have hcrc : direntChecksum v i = direntChecksum (writeEntry m i name ino) i :=
    direntChecksum_congr hlen' fun x h1 h2 _ => hview x (by omega)
  rw [← hbyte, hsum, hcrc]

end Taken

end Add

/-! ## 4. Deleting -/

section Delete

variable {m : Memory} {records : List Nat} {i : Nat} {beyond : Nat → UInt8}
  (h : GoodDir m records) (hi : i ∈ records)

include h hi

/-- **A deletion that leaves the dots keeps the block good.** -/
theorem GoodDir.deleted
    (hdot : ∃ o ∈ records, o ≠ i ∧ dirIno m o ≠ 0 ∧ isDot m o)
    (hdotdot : ∃ o ∈ records, o ≠ i ∧ dirIno m o ≠ 0 ∧ isDotdot m o) :
    GoodDir (setLE m i 8 0) records := by
  have hdead := deleted_ino m i
  have hrec := deleted_rec m i
  have hlen : dirNameLen (setLE m i 8 0) i = dirNameLen m i :=
    getLE_setLE_of_disjoint m 0 (by omega)
  have hgood := (h.run.mem hi).1
  have hself : GoodRecord (setLE m i 8 0) i := by
    refine ⟨by rw [hrec]; exact hgood.pos, by rw [hrec]; exact hgood.aligned, ?_, ?_,
      fun hlive => absurd hdead hlive⟩
    · rw [hrec, hlen]
      exact hgood.room
    · rw [hlen]
      exact hgood.name
  exact h.rewritten (fun j hj hji => deleted_same h.entryRun hi hj hji) hrec hself hdot hdotdot
    fun hlive => absurd hdead hlive

/-- **What the validator sees of a deletion.** -/
theorem GoodDir.deleted_accepted {s' : DirState} (hblock : s'.block = setLE m i 8 0)
    (hacc : s'.Accepted beyond) :
    (∃ o ∈ records, o ≠ i ∧ dirIno m o ≠ 0 ∧ isDot m o) ∧
      ∃ o ∈ records, o ≠ i ∧ dirIno m o ≠ 0 ∧ isDotdot m o := by
  obtain ⟨recs, hrun, hnames⟩ := (rootDir_accepts_iff _).mp hacc
  have hrecs := hrun.eq_dirRecords fun o ho => (hrun.mem ho).1.pos
  have hview : ∀ x, x < defBlockSize →
      dirMemory (imageWithDir (fun i => s'.block i.val) beyond) x = setLE m i 8 0 x := by
    intro x hx
    rw [view_eq s'.block beyond hx, hblock]
  generalize dirMemory (imageWithDir (fun i => s'.block i.val) beyond) = v at hrun hnames hrecs hview
  have hsame : ∀ j ∈ records, j ≠ i → GoodRecord v j ∧ dirRec v j = dirRec m j ∧
      dirIno v j = dirIno m j ∧ (isDot v j ↔ isDot m j) ∧ (isDotdot v j ↔ isDotdot m j) := by
    intro j hj hne
    obtain ⟨hgood, hend⟩ := h.run.mem hj
    refine hgood.congr fun x h1 h2 => ?_
    rw [hview x (Nat.lt_of_lt_of_le h2 hend)]
    exact deleted_same h.entryRun hi hj hne x h1 h2
  obtain ⟨hok, -, hend⟩ := h.entryRun.mem hi
  have hheader := hok.header
  have hdead : dirIno v i = 0 := by
    rw [← deleted_ino m i]
    exact getLE_congr fun x h1 h2 => hview x (by omega)
  have hrec : ∀ o ∈ records, dirRec v o = dirRec m o := by
    intro o ho
    by_cases hne : o = i
    · rw [hne, ← deleted_rec m i]
      exact getLE_congr fun x h1 h2 => hview x (by omega)
    · exact (hsame o ho hne).2.1
  have hall : RecordRun v (fun _ => True) defBlockSize 0 records := h.run.change hrec fun _ _ => trivial
  have heq : recs = records := by
    rw [hrecs, ← hall.eq_dirRecords]
    intro o ho
    rw [hrec o ho]
    exact (h.run.mem ho).1.pos
  subst heq
  have hne : ∀ o, dirIno v o ≠ 0 → o ≠ i := by
    rintro o hlive rfl
    exact hlive hdead
  constructor
  · obtain ⟨o, ho, hlive, hdot⟩ := hnames.dot
    obtain ⟨-, -, h1, h2, -⟩ := hsame o ho (hne o hlive)
    exact ⟨o, ho, hne o hlive, by rwa [← h1], h2.mp hdot⟩
  · obtain ⟨o, ho, hlive, hdotdot⟩ := hnames.dotdot
    obtain ⟨-, -, h1, -, h3⟩ := hsame o ho (hne o hlive)
    exact ⟨o, ho, hne o hlive, by rwa [← h1], h3.mp hdotdot⟩

end Delete

/-! ## 5. Calls and histories -/

section Runs

variable {records : List Nat} {s : DirState} {name : List UInt8} {ino : Nat} {beyond : Nat → UInt8}

theorem historyStep_of_call {op : DirOp} {s' : DirState} (h : op.call s = some (.ok s')) :
    historyStep s op = s' := by
  rw [historyStep, h]

/-- **When an addition is right**, and then the block stays good. -/
theorem add_right_iff (h : GoodDir s.block records) (hvalid : DirOp.Valid s (.add name ino)) :
    (StepRight beyond s (.add name ino) ↔ DirOp.Safe s (.add name ino)) ∧
      (DirOp.Safe s (.add name ino) → GoodDir (historyStep s (.add name ino)).block records) := by
  obtain ⟨⟨s', hcall⟩, hfresh, hlive, hino, hunref⟩ := hvalid
  have hstep := historyStep_of_call hcall
  obtain ⟨hlen, -, i, hfree, hs'⟩ := (addEntry_ok_iff h.entryRun).mp hcall
  have hdots := h.not_dots hfresh
  have hblock : (historyStep s (.add name ino)).block = writeEntry s.block i name ino := by
    rw [hstep, ← hs']
  have hrecords := h.records_eq
  have hgood : DirOp.Safe s (.add name ino) →
      14 + name.length ≤ dirRec s.block i ∧ GoodDir (historyStep s (.add name ino)).block records := by
    rintro ⟨i', hfree', hroom, hsum, hrange⟩
    rw [← hrecords, hfree] at hfree'
    obtain rfl := Option.some.inj hfree'
    rw [← hrecords] at hunref
    rw [hblock]
    exact ⟨hroom, h.added hfree hlen hino hlive hdots hroom hsum hrange hunref⟩
  refine ⟨⟨fun hright => ?_, fun hsafe => ?_⟩, fun hsafe => (hgood hsafe).2⟩
  · obtain ⟨hroom, hsum, hrange⟩ :=
      h.added_accepted hfree hlen hino hlive hdots hblock hright.accepted
    exact ⟨i, by rw [← hrecords]; exact hfree, hroom, hsum, hrange⟩
  · obtain ⟨hroom, hgood'⟩ := hgood hsafe
    refine ⟨fun o ho hlive' _ => ?_, fun name' ino' heq => ?_, hgood'.accepted⟩
    · rw [← hgood'.records_eq, hblock]
      rw [← hrecords] at ho
      obtain ⟨hi, hdead, -⟩ := taken_record hfree
      have hne : o ≠ i := by
        rintro rfl
        exact hlive' hdead
      have hsame := added_same ino h.entryRun hi hroom ho hne
      have hok := (h.entryRun.mem ho).1
      exact ⟨ho, hsame.ino hok, hsame.name hok hlive'⟩
    · obtain ⟨rfl, rfl⟩ := DirOp.add.inj heq
      rw [hblock]
      exact added_found h.entryRun hfresh hfree hino hlive

/-- **When a deletion is right**, and then the block stays good. -/
theorem delete_right_iff (h : GoodDir s.block records) (hvalid : DirOp.Valid s (.delete name)) :
    (StepRight beyond s (.delete name) ↔ DirOp.Safe s (.delete name)) ∧
      (DirOp.Safe s (.delete name) → GoodDir (historyStep s (.delete name)).block records) := by
  obtain ⟨⟨s', hcall⟩, -⟩ := hvalid
  have hstep := historyStep_of_call hcall
  obtain ⟨-, i, hnamed, hs'⟩ := (deleteEntry_ok_iff h.entryRun).mp hcall
  have hi := List.mem_of_find?_eq_some hnamed
  have hblock : (historyStep s (.delete name)).block = setLE s.block i 8 0 := by rw [hstep, ← hs']
  have hrecords := h.records_eq
  have hgood : DirOp.Safe s (.delete name) → GoodDir (historyStep s (.delete name)).block records := by
    rintro ⟨i', hnamed', hdot, hdotdot⟩
    rw [← hrecords] at hnamed' hdot hdotdot
    rw [hnamed] at hnamed'
    obtain rfl := Option.some.inj hnamed'
    rw [hblock]
    exact h.deleted hi hdot hdotdot
  refine ⟨⟨fun hright => ?_, fun hsafe => ?_⟩, hgood⟩
  · obtain ⟨hdot, hdotdot⟩ := h.deleted_accepted hi hblock hright.accepted
    refine ⟨i, ?_⟩
    rw [← hrecords]
    exact ⟨hnamed, hdot, hdotdot⟩
  · have hgood' := hgood hsafe
    refine ⟨fun o ho hlive hother => ?_, fun name' ino' heq => DirOp.noConfusion heq,
      hgood'.accepted⟩
    rw [← hgood'.records_eq, hblock]
    rw [← hrecords] at ho
    have hne : o ≠ i := by
      rintro rfl
      refine hother ?_
      rw [DirOp.removed, ← hrecords]
      exact hnamed
    have hsame := deleted_same h.entryRun hi ho hne
    have hok := (h.entryRun.mem ho).1
    exact ⟨ho, hsame.ino hok, hsame.name hok hlive⟩

/-- A directory with the names ".", "..", "a" and "b", each in a record of the least length but the
last, which fills the block. -/
def homeEntries : List UInt8 :=
  [16, 0, 0, 0, 0, 0, 0, 0, 16, 0, 1, 0, 2, 111, 46, 0,
   16, 0, 0, 0, 0, 0, 0, 0, 16, 0, 2, 0, 2, 41, 46, 46,
   17, 0, 0, 0, 0, 0, 0, 0, 16, 0, 1, 0, 0, 232, 97, 0,
   18, 0, 0, 0, 0, 0, 0, 0, 208, 15, 1, 0, 0, 117, 98]

def homeDir : DirState where
  block x := homeEntries.getD x 0
  sDirty := false
  iNlink _ := 1

/-- The directory without "a". -/
def goneDir : DirState := { homeDir with block := setLE homeDir.block 32 8 0 }

theorem homeDir_good : GoodDir homeDir.block [0, 16, 32, 48] := by
  have hrecords : ∀ o ∈ [0, 16, 32, 48], 0 < dirRec homeDir.block o ∧ 4 ∣ dirRec homeDir.block o ∧
      dirEntryBaseSize + dirNameLen homeDir.block o ≤ dirRec homeDir.block o ∧
      dirNameLen homeDir.block o ≤ maxNamelen ∧
      (dirIno homeDir.block o ≠ 0 →
        dirChecksum homeDir.block o = direntChecksum homeDir.block o) := by decide +kernel
  have hgood : ∀ o ∈ [0, 16, 32, 48], GoodRecord homeDir.block o := by
    intro o ho
    obtain ⟨hpos, haligned, hroom, hname, hsum⟩ := hrecords o ho
    exact ⟨hpos, haligned, hroom, hname, hsum⟩
  have h0 : dirRec homeDir.block 0 = 16 := by decide +kernel
  have h1 : dirRec homeDir.block 16 = 16 := by decide +kernel
  have h2 : dirRec homeDir.block 32 = 16 := by decide +kernel
  have h3 : dirRec homeDir.block 48 = 4048 := by decide +kernel
  refine ⟨.more (hgood 0 (by decide)) ?_, ⟨⟨by decide +kernel, by decide +kernel, by decide +kernel⟩,
    by decide +kernel, by decide +kernel⟩⟩
  rw [h0]
  refine .more (hgood 16 (by decide)) ?_
  rw [h1]
  refine .more (hgood 32 (by decide)) ?_
  rw [h2]
  refine .more (hgood 48 (by decide)) ?_
  rw [h3]
  exact .done

theorem goneDir_good : GoodDir goneDir.block [0, 16, 32, 48] :=
  homeDir_good.deleted (by decide) ⟨0, by decide +kernel⟩ ⟨16, by decide +kernel⟩

theorem homeDir_delete : DirOp.call homeDir (.delete [97]) = some (.ok goneDir) :=
  (deleteEntry_ok_iff homeDir_good.entryRun).mpr ⟨rfl, 32, by decide +kernel, rfl⟩

theorem goneDir_add {name : List UInt8} {ino : Nat} (hlen : name.length ≤ maxNamelen)
    (hfree : [0, 16, 32, 48].find? (entryFree goneDir.block defBlockSize name.length) = some 32) :
    DirOp.call goneDir (.add name ino) =
      some (.ok { goneDir with block := writeEntry goneDir.block 32 name ino, sDirty := true }) :=
  (addEntry_ok_iff goneDir_good.entryRun).mpr ⟨hlen, rfl, 32, hfree, rfl⟩

/-- The two calls, for a name and an inode number that are not in use. -/
theorem homeDir_valid {name : List UInt8} {ino : Nat} (hlen : name.length ≤ maxNamelen)
    (hfree : [0, 16, 32, 48].find? (entryFree goneDir.block defBlockSize name.length) = some 32)
    (hfresh : ∀ j ∈ [0, 16, 32, 48], entryNamed goneDir.block name j = false)
    (hino : ino ≠ 0) (hlt : ino < 2 ^ 64)
    (hunref : ∀ o ∈ [0, 16, 32, 48], dirIno goneDir.block o ≠ ino) :
    Along historyStep DirOp.Valid homeDir [.delete [97], .add name ino] := by
  refine ⟨⟨⟨goneDir, homeDir_delete⟩, trivial⟩, ?_, trivial⟩
  rw [historyStep_of_call homeDir_delete]
  refine ⟨⟨_, goneDir_add hlen hfree⟩, goneDir_good.entryRun.lookup_none.mpr ⟨hlen, hfresh⟩, hino,
    hlt, ?_⟩
  rw [← goneDir_good.records_eq]
  exact hunref

/-- **When a history disturbs nothing.**  From an accepted block without a record shorter than its
header: exactly when every call of the history is safe where it is made. -/
theorem directory_history_iff {s : DirState} {beyond : Nat → UInt8} (hacc : s.Accepted beyond)
    (hlong : ∀ o ∈ dirRecords (dirMemory (imageWithDir (fun i => s.block i.val) beyond)) 0,
      dirEntryBaseSize ≤ dirRec (dirMemory (imageWithDir (fun i => s.block i.val) beyond)) o)
    {ops : List DirOp} (hvalid : Along historyStep DirOp.Valid s ops) :
    Along historyStep (StepRight beyond) s ops ↔ Along historyStep DirOp.Safe s ops := by
  obtain ⟨records, hgood⟩ := goodDir_of_accepted hacc hlong
  have hstep : ∀ s op, GoodDir s.block records → DirOp.Valid s op →
      (StepRight beyond s op ↔ DirOp.Safe s op) ∧
        (DirOp.Safe s op → GoodDir (historyStep s op).block records) := by
    intro s op h hv
    cases op with
    | add name ino => exact add_right_iff h hv
    | delete name => exact delete_right_iff h hv
  have hiff : ∀ s op, GoodDir s.block records → DirOp.Valid s op →
      (StepRight beyond s op ↔ DirOp.Safe s op) := fun s op h hv => (hstep s op h hv).1
  exact along_iff hiff (fun s op h hv => (hstep s op h hv).2) ops s hgood hvalid

/-- The same name for the same inode: the byte that is left in the record is the right one. -/
theorem same_entry_returns : Along historyStep (StepRight fun _ => 0) homeDir
    [.delete [97], .add [97] 17] := by
  refine (directory_history_iff homeDir_good.accepted homeDir_good.long (homeDir_valid
    (by decide) (by decide +kernel) (by decide +kernel) (by decide) (by decide)
    (by decide +kernel))).mpr ⟨⟨32, ?_⟩, ?_, trivial⟩
  · rw [← homeDir_good.records_eq]
    exact ⟨by decide +kernel, ⟨0, by decide +kernel⟩, 16, by decide +kernel⟩
  · rw [historyStep_of_call homeDir_delete]
    refine ⟨32, ?_⟩
    rw [← goneDir_good.records_eq]
    decide +kernel

/-- A name of eight bytes in the record of "a" runs over the inode number of "b". -/
theorem long_name_overruns : homeDir.Accepted (fun _ => 0) ∧
    Along historyStep DirOp.Valid homeDir
      [.delete [97], .add [97, 98, 99, 100, 101, 102, 103, 104] 19] ∧
    ¬ Along historyStep (StepRight fun _ => 0) homeDir
      [.delete [97], .add [97, 98, 99, 100, 101, 102, 103, 104] 19] := by
  refine ⟨homeDir_good.accepted, homeDir_valid (by decide) (by decide +kernel) (by decide +kernel)
    (by decide) (by decide) (by decide +kernel), ?_⟩
  rintro ⟨-, hadd, -⟩
  rw [historyStep_of_call homeDir_delete] at hadd
  have hb : 48 ∈ dirRecords goneDir.block 0 := by
    rw [← goneDir_good.records_eq]
    decide
  obtain ⟨-, hino, -⟩ := hadd.kept 48 hb (by decide +kernel) (by simp [DirOp.removed])
  rw [historyStep_of_call (goneDir_add (by decide) (by decide +kernel))] at hino
  exact absurd hino (by decide +kernel)

end Runs

end AetherFs
