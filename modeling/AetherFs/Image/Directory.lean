/-
# The grammar of the root directory

The directory block is meant to be a concatenation of records, each long enough for its header and
its name.  `RootDirGrammar` says this of a block in its own terms: `RecordRun` is the concatenation,
`GoodRecord` what a record is by itself, `NamesOk` what the names are together.

`aetherfs_image_validate_root_dir` walks the block by the lengths it finds there.  What it asks of a
record is `PassedRecord`, which is less: `name_len > rec_len - 14` is an UNSIGNED comparison, and a
record of 4, 8 or 12 bytes passes it with any name.

* `dirWalk_iff`: the walk accepts exactly the concatenations of records that pass.
* So it accepts whatever the grammar describes, and it accepts nothing else exactly as long as no
  record is shorter than its header (section 3).
* `mem_dirVisited_iff`: it comes to the ends of the chains of records that pass, accepted or not.  A
  chain that ends less than 14 bytes before the end of the block, or at a short record with a long
  name, makes it read BEHIND the block (section 4).
-/
import AetherFs.Image.Namespace

namespace AetherFs

open Lib

/-! ## 1. The grammar -/

section Grammar

variable (m : Nat → UInt8)

/-- A concatenation of records from `offset` up to `stop`, each of which meets `P`. -/
inductive RecordRun (P : Nat → Prop) (stop : Nat) : Nat → List Nat → Prop
  | done : RecordRun P stop stop []
  | more {offset : Nat} {rest : List Nat} : P offset →
      RecordRun P stop (offset + dirRec m offset) rest → RecordRun P stop offset (offset :: rest)

/-- A record by itself. -/
structure GoodRecord (offset : Nat) : Prop where
  pos : 0 < dirRec m offset
  aligned : 4 ∣ dirRec m offset
  room : dirEntryBaseSize + dirNameLen m offset ≤ dirRec m offset
  name : dirNameLen m offset ≤ maxNamelen
  sum : dirIno m offset ≠ 0 → dirChecksum m offset = direntChecksum m offset

/-- The live records together: dots name the root, and the other names are of different inodes in
range. -/
structure NamesSound (records : List Nat) : Prop where
  dots : ∀ o ∈ records, dirIno m o ≠ 0 → isDot m o ∨ isDotdot m o → dirIno m o = rootIno
  range : ∀ o ∈ records, LiveName m o →
    rootIno ≤ dirIno m o ∧ dirIno m o < rootIno + maxInodes
  distinct : ((records.filter fun o => LiveName m o).map (dirIno m)).Nodup

/-- And both dots are there. -/
structure NamesOk (records : List Nat) : Prop extends NamesSound m records where
  dot : ∃ o ∈ records, dirIno m o ≠ 0 ∧ isDot m o
  dotdot : ∃ o ∈ records, dirIno m o ≠ 0 ∧ isDotdot m o

end Grammar

/-- **A well-formed root directory.** -/
def RootDirGrammar (block : Block) : Prop :=
  ∃ records, RecordRun (byteAt block) (GoodRecord (byteAt block)) defBlockSize 0 records ∧
    NamesOk (byteAt block) records

section Runs

variable {m : Nat → UInt8} {P Q : Nat → Prop} {stop offset : Nat} {records : List Nat}

theorem RecordRun.le (h : RecordRun m P stop offset records) : offset ≤ stop := by
  induction h with
  | done => exact Nat.le_refl _
  | more _ _ ih => exact (Nat.le_add_right _ _).trans ih

/-- A record of a concatenation meets `P` and ends in it. -/
theorem RecordRun.mem (h : RecordRun m P stop offset records) {o : Nat} (ho : o ∈ records) :
    P o ∧ o + dirRec m o ≤ stop := by
  induction h with
  | done => exact absurd ho List.not_mem_nil
  | more hp hrest ih =>
    rcases List.mem_cons.mp ho with rfl | ho
    · exact ⟨hp, hrest.le⟩
    · exact ih ho

theorem RecordRun.mono (h : RecordRun m P stop offset records)
    (hPQ : ∀ o ∈ records, P o → o + dirRec m o ≤ stop → Q o) :
    RecordRun m Q stop offset records := by
  induction h with
  | done => exact .done
  | more hp hrest ih =>
    refine .more (hPQ _ List.mem_cons_self hp hrest.le) (ih fun o ho => ?_)
    exact hPQ o (List.mem_cons_of_mem _ ho)

/-- Where no record is empty, the records are those the lengths lead to. -/
theorem RecordRun.eq_dirRecords (h : RecordRun m P defBlockSize offset records)
    (hpos : ∀ o ∈ records, 0 < dirRec m o) : records = dirRecords m offset := by
  induction h with
  | done => rw [dirRecords, if_neg fun hlt => absurd hlt.1 (Nat.lt_irrefl _)]
  | @more offset rest hp hrest ih =>
    have hhead : 0 < dirRec m offset := hpos _ List.mem_cons_self
    have hlt : offset < defBlockSize := by
      have hend := hrest.le
      omega
    rw [dirRecords, if_pos ⟨hlt, hhead⟩, ← ih fun o ho => hpos o (List.mem_cons_of_mem _ ho)]

end Runs

/-! ## 2. What the walk accepts -/

section Walk

variable (m : Nat → UInt8)

/-- What the loop asks of a record by itself. -/
structure PassedRecord (offset : Nat) : Prop where
  pos : 0 < dirRec m offset
  aligned : 4 ∣ dirRec m offset
  inside : offset + dirRec m offset ≤ defBlockSize
  room : dirRec m offset < dirEntryBaseSize ∨
    dirEntryBaseSize + dirNameLen m offset ≤ dirRec m offset
  name : dirNameLen m offset ≤ maxNamelen
  sum : dirIno m offset ≠ 0 → dirChecksum m offset = direntChecksum m offset

/-- What it asks of a record in view of the names before it. -/
structure NameFits (refs : List Nat) (offset : Nat) : Prop where
  dots : dirIno m offset ≠ 0 → isDot m offset ∨ isDotdot m offset → dirIno m offset = rootIno
  range : LiveName m offset → rootIno ≤ dirIno m offset ∧ dirIno m offset < rootIno + maxInodes
  fresh : LiveName m offset → dirIndex m offset ∉ refs

/-- What a record adds to the scan. -/
def scanEntry (s : DirScan) (offset : Nat) : DirScan where
  refs := if LiveName m offset then s.refs ++ [dirIndex m offset] else s.refs
  sawDot := s.sawDot || decide (dirIno m offset ≠ 0 ∧ isDot m offset)
  sawDotdot := s.sawDotdot || decide (dirIno m offset ≠ 0 ∧ isDotdot m offset)

/-- Each record fits the names before it. -/
def NamesFit : DirScan → List Nat → Prop
  | _, [] => True
  | s, o :: rest => NameFits m s.refs o ∧ NamesFit (scanEntry m s o) rest

variable {m} {offset : Nat} {s s' : DirScan}

theorem isDot.not_isDotdot (h : isDot m offset) : ¬ isDotdot m offset := by
  intro h'
  have hone := h.1
  rw [h'.1] at hone
  exact absurd hone (by decide)

/-- The unsigned comparison. -/
theorem name_fits_iff {rec nameLen : Nat} (hrec : rec < 2 ^ 16) (hname : nameLen ≤ maxNamelen) :
    ¬ nameLen > (rec + (2 ^ 32 - dirEntryBaseSize)) % 2 ^ 32 ↔
      rec < dirEntryBaseSize ∨ dirEntryBaseSize + nameLen ≤ rec := by
  simp only [dirEntryBaseSize, maxNamelen] at hname ⊢
  omega

theorem dirRec_lt (m : Nat → UInt8) (offset : Nat) : dirRec m offset < 2 ^ 16 := by
  rw [dirRec]
  simpa using getLE_lt m 2 (offset + 8)

theorem not_badLength_iff : ¬ dirBadLength m offset ↔
    0 < dirRec m offset ∧ 4 ∣ dirRec m offset ∧ offset + dirRec m offset ≤ defBlockSize := by
  have hand : dirRec m offset &&& 3 = dirRec m offset % 4 :=
    Nat.and_two_pow_sub_one_eq_mod (dirRec m offset) 2
  rw [dirBadLength, hand, Nat.dvd_iff_mod_eq_zero]
  omega

/-- What the names ask of the rest of the body. -/
theorem scanEntry_iff : (if dirIno m offset = 0 then Except.ok s
    else if isDot m offset then do
      failIf (dirIno m offset ≠ rootIno) .EINVAL
      .ok { s with sawDot := true }
    else if isDotdot m offset then do
      failIf (dirIno m offset ≠ rootIno) .EINVAL
      .ok { s with sawDotdot := true }
    else do
      failIf (dirIno m offset < rootIno ∨ dirIno m offset ≥ rootIno + maxInodes) .EINVAL
      failIf (dirIno m offset - rootIno ∈ s.refs) .EEXIST
      .ok { s with refs := s.refs ++ [dirIno m offset - rootIno] }) = Except.ok s' ↔
    NameFits m s.refs offset ∧ s' = scanEntry m s offset := by
  by_cases hino : dirIno m offset = 0
  · -- a record that is not in use
    have hdead : ¬ LiveName m offset := fun hlive => hlive.1 hino
    have hfits : NameFits m s.refs offset :=
      ⟨fun hne => absurd hino hne, fun hlive => absurd hlive hdead, fun hlive => absurd hlive hdead⟩
    have hscan : scanEntry m s offset = s := by
      simp only [scanEntry, if_neg hdead, hino, ne_eq, not_true_eq_false, false_and, decide_false,
        Bool.or_false]
    rw [if_pos hino, hscan, Except.ok.injEq, eq_comm]
    exact ⟨fun h => ⟨hfits, h⟩, fun h => h.2⟩
  rw [if_neg hino]
  by_cases hdot : isDot m offset
  · have hdead : ¬ LiveName m offset := fun hlive => hlive.2.1 hdot
    have hscan : scanEntry m s offset = { s with sawDot := true } := by
      simp only [scanEntry, if_neg hdead, hino, hdot, hdot.not_isDotdot, ne_eq, not_false_eq_true,
        and_true, and_false, decide_true, decide_false, Bool.or_true, Bool.or_false]
    rw [if_pos hdot, hscan, failIf_bind_ok, not_not, Except.ok.injEq, eq_comm (a := s')]
    refine and_congr_left fun _ => ⟨fun hroot => ?_, fun hfits => hfits.dots hino (Or.inl hdot)⟩
    exact ⟨fun _ _ => hroot, fun hlive => absurd hlive hdead, fun hlive => absurd hlive hdead⟩
  rw [if_neg hdot]
  by_cases hdotdot : isDotdot m offset
  · have hdead : ¬ LiveName m offset := fun hlive => hlive.2.2 hdotdot
    have hscan : scanEntry m s offset = { s with sawDotdot := true } := by
      simp only [scanEntry, if_neg hdead, hino, hdot, hdotdot, ne_eq, not_false_eq_true,
        and_true, and_false, decide_true, decide_false, Bool.or_true, Bool.or_false]
    rw [if_pos hdotdot, hscan, failIf_bind_ok, not_not, Except.ok.injEq, eq_comm (a := s')]
    refine and_congr_left fun _ => ⟨fun hroot => ?_, fun hfits => hfits.dots hino (Or.inr hdotdot)⟩
    exact ⟨fun _ _ => hroot, fun hlive => absurd hlive hdead, fun hlive => absurd hlive hdead⟩
  · have hlive : LiveName m offset := ⟨hino, hdot, hdotdot⟩
    have hscan : scanEntry m s offset = { s with refs := s.refs ++ [dirIndex m offset] } := by
      simp only [scanEntry, if_pos hlive, hdot, hdotdot, and_false, decide_false, Bool.or_false]
    rw [if_neg hdotdot, hscan, failIf_bind_ok, failIf_bind_ok, Except.ok.injEq, eq_comm (a := s'),
      ← and_assoc]
    refine and_congr_left fun _ => ⟨fun ⟨hrange, hfresh⟩ => ?_, fun hfits => ?_⟩
    · refine ⟨fun _ hd => absurd hd (not_or.mpr ⟨hdot, hdotdot⟩), fun _ => ?_, fun _ => hfresh⟩
      obtain ⟨hlow, hhigh⟩ := not_or.mp hrange
      exact ⟨Nat.not_lt.mp hlow, Nat.not_le.mp hhigh⟩
    · obtain ⟨hlow, hhigh⟩ := hfits.range hlive
      exact ⟨not_or.mpr ⟨Nat.not_lt.mpr hlow, Nat.not_le.mpr hhigh⟩, hfits.fresh hlive⟩

/-- **The body of the loop**, exactly. -/
theorem dirBody_iff : ¬ dirBadLength m offset ∧ dirEntry m offset s = .ok s' ↔
    PassedRecord m offset ∧ NameFits m s.refs offset ∧ s' = scanEntry m s offset := by
  rw [dirEntry, failIf_bind_ok, failIf_bind_ok, scanEntry_iff, not_badLength_iff]
  constructor
  · rintro ⟨⟨hpos, haligned, hinside⟩, hlen, hsum, hrest⟩
    obtain ⟨hlen, hname⟩ := not_or.mp hlen
    have hname : dirNameLen m offset ≤ maxNamelen := Nat.not_lt.mp hname
    refine ⟨⟨hpos, haligned, hinside, (name_fits_iff (dirRec_lt m offset) hname).mp hlen, hname,
      fun hino => ?_⟩, hrest⟩
    by_contra hne
    exact hsum ⟨hino, hne⟩
  · rintro ⟨⟨hpos, haligned, hinside, hroom, hname, hsum⟩, hrest⟩
    refine ⟨⟨hpos, haligned, hinside⟩, not_or.mpr ⟨?_, Nat.not_lt.mpr hname⟩, ?_, hrest⟩
    · exact (name_fits_iff (dirRec_lt m offset) hname).mpr hroom
    · rintro ⟨hino, hne⟩
      exact hne (hsum hino)

theorem dirWalk_turn (hlt : offset < defBlockSize) : dirWalk m offset s = .ok s' ↔
    PassedRecord m offset ∧ NameFits m s.refs offset ∧
      dirWalk m (offset + dirRec m offset) (scanEntry m s offset) = .ok s' := by
  rw [dirWalk, if_pos hlt]
  constructor
  · intro h
    split at h
    · exact absurd h (by simp)
    · next hok =>
      obtain ⟨mid, hmid, hrest⟩ := bind_eq_ok.mp h
      obtain ⟨hpassed, hfits, rfl⟩ := dirBody_iff.mp ⟨hok, hmid⟩
      exact ⟨hpassed, hfits, hrest⟩
  · rintro ⟨hpassed, hfits, hrest⟩
    obtain ⟨hok, hmid⟩ := dirBody_iff.mpr ⟨hpassed, hfits, rfl⟩
    rw [if_neg hok, hmid, ok_bind]
    exact hrest

/-- **The walk accepts exactly the concatenations of records that pass.** -/
theorem dirWalk_iff (k : Nat) : ∀ {offset : Nat} {s s' : DirScan}, defBlockSize - offset = k →
    offset ≤ defBlockSize → (dirWalk m offset s = .ok s' ↔
      ∃ records, RecordRun m (PassedRecord m) defBlockSize offset records ∧ NamesFit m s records ∧
        s' = records.foldl (scanEntry m) s) := by
  induction k using Nat.strong_induction_on with
  | _ k ih =>
    intro offset s s' hk hle
    rcases Nat.eq_or_lt_of_le hle with rfl | hlt
    · -- the end of the block
      rw [dirWalk_end, Except.ok.injEq, eq_comm]
      constructor
      · rintro rfl
        exact ⟨[], .done, trivial, rfl⟩
      · rintro ⟨records, hrun, -, rfl⟩
        cases hrun with
        | done => rfl
        | more hp hrest =>
          have hend := hrest.le
          have hpos := hp.pos
          omega
    · rw [dirWalk_turn hlt]
      constructor
      · rintro ⟨hp, hfits, hrest⟩
        have hpos := hp.pos
        obtain ⟨records, hrun, hnames, rfl⟩ := (ih _ (by omega) rfl hp.inside).mp hrest
        exact ⟨offset :: records, .more hp hrun, ⟨hfits, hnames⟩, rfl⟩
      · rintro ⟨records, hrun, hnames, rfl⟩
        cases hrun with
        | done => exact absurd hlt (Nat.lt_irrefl _)
        | more hp hrest =>
          have hpos := hp.pos
          obtain ⟨hfits, hnames⟩ := hnames
          exact ⟨hp, hfits, (ih _ (by omega) rfl hp.inside).mpr ⟨_, hrest, hnames, rfl⟩⟩

/-! The scan of a list of records, as a whole. -/

variable {records : List Nat}

theorem foldl_scanEntry_refs (records : List Nat) : ∀ s : DirScan,
    (records.foldl (scanEntry m) s).refs
      = s.refs ++ (records.filter fun o => LiveName m o).map (dirIndex m) := by
  induction records with
  | nil =>
    intro s
    exact (List.append_nil _).symm
  | cons o rest ih =>
    intro s
    rw [List.foldl_cons, ih, scanEntry]
    by_cases hlive : LiveName m o
    · rw [if_pos hlive, List.filter_cons_of_pos (by simpa using hlive), List.map_cons,
        List.append_assoc, List.singleton_append]
    · rw [if_neg hlive, List.filter_cons_of_neg (by simpa using hlive)]

theorem foldl_scanEntry_flag {flag : DirScan → Bool} {p : Nat → Prop} [DecidablePred p]
    (hstep : ∀ s o, flag (scanEntry m s o) = (flag s || decide (p o))) (records : List Nat) :
    ∀ s : DirScan, (flag (records.foldl (scanEntry m) s) = true ↔
      flag s = true ∨ ∃ o ∈ records, p o) := by
  induction records with
  | nil =>
    intro s
    simp
  | cons o rest ih =>
    intro s
    rw [List.foldl_cons, ih, hstep, Bool.or_eq_true, decide_eq_true_iff]
    simp only [List.mem_cons, exists_eq_or_imp, or_assoc]

theorem foldl_scanEntry_dot (records : List Nat) (s : DirScan) :
    (records.foldl (scanEntry m) s).sawDot = true ↔
      s.sawDot = true ∨ ∃ o ∈ records, dirIno m o ≠ 0 ∧ isDot m o :=
  foldl_scanEntry_flag (fun _ _ => rfl) records s

theorem foldl_scanEntry_dotdot (records : List Nat) (s : DirScan) :
    (records.foldl (scanEntry m) s).sawDotdot = true ↔
      s.sawDotdot = true ∨ ∃ o ∈ records, dirIno m o ≠ 0 ∧ isDotdot m o :=
  foldl_scanEntry_flag (fun _ _ => rfl) records s

theorem nodup_snoc {l : List Nat} {a : Nat} : (l ++ [a]).Nodup ↔ a ∉ l ∧ l.Nodup :=
  List.nodup_append_comm.trans List.nodup_cons

/-- The names fit one after the other exactly if they do so together. -/
theorem namesFit_iff (records : List Nat) : ∀ s : DirScan, s.refs.Nodup →
    (NamesFit m s records ↔
      (∀ o ∈ records, dirIno m o ≠ 0 → isDot m o ∨ isDotdot m o → dirIno m o = rootIno) ∧
      (∀ o ∈ records, LiveName m o →
        rootIno ≤ dirIno m o ∧ dirIno m o < rootIno + maxInodes) ∧
      (records.foldl (scanEntry m) s).refs.Nodup) := by
  induction records with
  | nil =>
    intro s hs
    exact iff_of_true trivial ⟨by simp, by simp, hs⟩
  | cons o rest ih =>
    intro s hs
    rw [NamesFit, List.foldl_cons, List.forall_mem_cons, List.forall_mem_cons]
    constructor
    · rintro ⟨⟨hdots, hrange, hfresh⟩, hrest⟩
      have hnodup : (scanEntry m s o).refs.Nodup := by
        rw [scanEntry]
        split
        · next hlive => exact nodup_snoc.mpr ⟨hfresh hlive, hs⟩
        · exact hs
      obtain ⟨hdots', hrange', hall⟩ := (ih _ hnodup).mp hrest
      exact ⟨⟨hdots, hdots'⟩, ⟨hrange, hrange'⟩, hall⟩
    · rintro ⟨⟨hdots, hdots'⟩, ⟨hrange, hrange'⟩, hall⟩
      have hnodup : (scanEntry m s o).refs.Nodup := by
        rw [foldl_scanEntry_refs] at hall
        exact hall.of_append_left
      refine ⟨⟨hdots, hrange, fun hlive => ?_⟩, (ih _ hnodup).mpr ⟨hdots', hrange', hall⟩⟩
      rw [scanEntry, if_pos hlive] at hnodup
      exact (nodup_snoc.mp hnodup).1

/-- Inode numbers in range differ exactly if their indices do. -/
theorem nodup_dirIndex_iff (hrange : ∀ o ∈ records, LiveName m o →
    rootIno ≤ dirIno m o ∧ dirIno m o < rootIno + maxInodes) :
    ((records.filter fun o => LiveName m o).map (dirIndex m)).Nodup ↔
      ((records.filter fun o => LiveName m o).map (dirIno m)).Nodup := by
  have hindex : (records.filter fun o => LiveName m o).map (dirIndex m)
      = ((records.filter fun o => LiveName m o).map (dirIno m)).map (· - rootIno) := by
    rw [List.map_map]
    rfl
  rw [hindex]
  refine ⟨List.Nodup.of_map _, List.Nodup.map_on fun x hx y hy hxy => ?_⟩
  have hlow : ∀ ino ∈ (records.filter fun o => LiveName m o).map (dirIno m), rootIno ≤ ino := by
    intro ino hino
    obtain ⟨o, ho, rfl⟩ := List.mem_map.mp hino
    obtain ⟨ho, hlive⟩ := List.mem_filter.mp ho
    exact (hrange o ho (of_decide_eq_true hlive)).1
  have := hlow x hx
  have := hlow y hy
  omega

theorem namesFit_start_iff : NamesFit m ⟨[], false, false⟩ records ↔ NamesSound m records := by
  rw [namesFit_iff records _ List.nodup_nil, foldl_scanEntry_refs, List.nil_append]
  constructor
  · rintro ⟨hdots, hrange, hnodup⟩
    exact ⟨hdots, hrange, (nodup_dirIndex_iff hrange).mp hnodup⟩
  · rintro ⟨hdots, hrange, hdistinct⟩
    exact ⟨hdots, hrange, (nodup_dirIndex_iff hrange).mpr hdistinct⟩

end Walk

/-- **The parser accepts exactly the concatenations of records that pass, with names that are
right.** -/
theorem rootDir_accepts_iff {δ : Type} (img : Image δ) :
    (∃ refs, imageValidateRootDir img = .ok refs) ↔
      ∃ records, RecordRun (dirMemory img) (PassedRecord (dirMemory img)) defBlockSize 0 records ∧
        NamesOk (dirMemory img) records := by
  have hwalk : ∀ {s'}, dirWalk (dirMemory img) 0 ⟨[], false, false⟩ = .ok s' ↔ _ :=
    dirWalk_iff _ rfl (Nat.zero_le _)
  simp only [imageValidateRootDir_iff]
  constructor
  · rintro ⟨refs, hrefs⟩
    obtain ⟨records, hrun, hfit, hs⟩ := hwalk.mp hrefs
    have hdot := (foldl_scanEntry_dot records _).mp (congrArg DirScan.sawDot hs).symm
    have hdotdot := (foldl_scanEntry_dotdot records _).mp (congrArg DirScan.sawDotdot hs).symm
    exact ⟨records, hrun, namesFit_start_iff.mp hfit, hdot.resolve_left (by simp),
      hdotdot.resolve_left (by simp)⟩
  · rintro ⟨records, hrun, hagree, hdot, hdotdot⟩
    have hseen : ∀ s : DirScan, s.sawDot = true → s.sawDotdot = true → ⟨s.refs, true, true⟩ = s := by
      rintro ⟨refs, d, dd⟩ rfl rfl
      rfl
    refine ⟨(records.foldl (scanEntry (dirMemory img)) ⟨[], false, false⟩).refs,
      hwalk.mpr ⟨records, hrun, namesFit_start_iff.mpr hagree, hseen _ ?_ ?_⟩⟩
    · exact (foldl_scanEntry_dot records _).mpr (Or.inr hdot)
    · exact (foldl_scanEntry_dotdot records _).mpr (Or.inr hdotdot)

/-! ## 3. The parser against the grammar -/

section Transfer

variable {m m' : Nat → UInt8} {offset : Nat} {records : List Nat}

theorem GoodRecord.congr (h : GoodRecord m offset)
    (hm : ∀ i, offset ≤ i → i < offset + dirRec m offset → m' i = m i) :
    GoodRecord m' offset ∧ dirRec m' offset = dirRec m offset ∧
      dirIno m' offset = dirIno m offset ∧ (isDot m' offset ↔ isDot m offset) ∧
      (isDotdot m' offset ↔ isDotdot m offset) := by
  have hroom := h.room
  simp only [dirEntryBaseSize] at hroom
  have hrec : dirRec m' offset = dirRec m offset :=
    getLE_congr fun i h1 h2 => hm i (by omega) (by omega)
  have hino : dirIno m' offset = dirIno m offset :=
    getLE_congr fun i h1 h2 => hm i (by omega) (by omega)
  have hlen : dirNameLen m' offset = dirNameLen m offset :=
    getLE_congr fun i h1 h2 => hm i (by omega) (by omega)
  have hbyte : dirChecksum m' offset = dirChecksum m offset := by
    rw [dirChecksum, dirChecksum, hm _ (by omega) (by omega)]
  have hsum : direntChecksum m' offset = direntChecksum m offset :=
    direntChecksum_congr rfl fun i h1 h2 _ => hm i (by omega) (by omega)
  refine ⟨⟨?_, ?_, ?_, ?_, ?_⟩, hrec, hino, ?_, ?_⟩
  · rw [hrec]
    exact h.pos
  · rw [hrec]
    exact h.aligned
  · rw [hrec, hlen]
    exact h.room
  · rw [hlen]
    exact h.name
  · rw [hino, hbyte, hsum]
    exact h.sum
  · rw [isDot, isDot, hlen]
    refine and_congr_right fun h1 => ?_
    rw [hm _ (by omega) (by omega)]
  · rw [isDotdot, isDotdot, hlen]
    refine and_congr_right fun h2 => ?_
    rw [hm _ (by omega) (by omega), hm _ (by omega) (by omega)]

theorem RecordRun.good_congr (hm : ∀ i, i < defBlockSize → m' i = m i)
    (h : RecordRun m (GoodRecord m) defBlockSize offset records) :
    RecordRun m' (GoodRecord m') defBlockSize offset records := by
  induction h with
  | done => exact .done
  | more hp hrest ih =>
    have hend := hrest.le
    obtain ⟨hp', hrec, -⟩ := hp.congr fun i _ hi => hm i (Nat.lt_of_lt_of_le hi hend)
    refine .more hp' ?_
    rw [hrec]
    exact ih

theorem NamesOk.congr (hm : ∀ i, i < defBlockSize → m' i = m i)
    (hrun : RecordRun m (GoodRecord m) defBlockSize offset records) (h : NamesOk m records) :
    NamesOk m' records := by
  have hsame : ∀ o ∈ records, dirIno m' o = dirIno m o ∧ (isDot m' o ↔ isDot m o) ∧
      (isDotdot m' o ↔ isDotdot m o) := by
    intro o ho
    obtain ⟨hgood, hend⟩ := hrun.mem ho
    exact (hgood.congr fun i _ hi => hm i (Nat.lt_of_lt_of_le hi hend)).2.2
  have hlive : ∀ o ∈ records, (LiveName m' o ↔ LiveName m o) := by
    intro o ho
    obtain ⟨hino, hdot, hdotdot⟩ := hsame o ho
    rw [LiveName, LiveName, hino, hdot, hdotdot]
  have hfilter : (records.filter fun o => LiveName m' o) = records.filter fun o => LiveName m o :=
    List.filter_congr fun o ho => decide_eq_decide.mpr (hlive o ho)
  obtain ⟨⟨hdots, hrange, hdistinct⟩, ⟨d, hd, hdino, hdot⟩, ⟨dd, hdd, hddino, hdotdot⟩⟩ := h
  refine ⟨⟨fun o ho => ?_, fun o ho => ?_, ?_⟩, ⟨d, hd, ?_, (hsame d hd).2.1.mpr hdot⟩,
    ⟨dd, hdd, ?_, (hsame dd hdd).2.2.mpr hdotdot⟩⟩
  · obtain ⟨hino, hdot, hdotdot⟩ := hsame o ho
    rw [hino, hdot, hdotdot]
    exact hdots o ho
  · rw [hlive o ho, (hsame o ho).1]
    exact hrange o ho
  · rw [hfilter]
    have hinos : (records.filter fun o => LiveName m o).map (dirIno m')
        = (records.filter fun o => LiveName m o).map (dirIno m) :=
      List.map_congr_left fun o ho => (hsame o (List.mem_filter.mp ho).1).1
    rw [hinos]
    exact hdistinct
  · rw [(hsame d hd).1]
    exact hdino
  · rw [(hsame dd hdd).1]
    exact hddino

end Transfer

section Parser

variable {δ : Type} (img : Image δ)

theorem dirMemory_block {i : Nat} (hi : i < defBlockSize) : dirMemory img i = byteAt img.rootDir i :=
  if_pos hi

/-- The grammar, read in the memory the parser sees. -/
theorem rootDirGrammar_iff : RootDirGrammar img.rootDir ↔
    ∃ records, RecordRun (dirMemory img) (GoodRecord (dirMemory img)) defBlockSize 0 records ∧
      NamesOk (dirMemory img) records := by
  constructor
  · rintro ⟨records, hrun, hnames⟩
    have hm : ∀ i, i < defBlockSize → dirMemory img i = byteAt img.rootDir i :=
      fun i hi => dirMemory_block img hi
    exact ⟨records, hrun.good_congr hm, hnames.congr hm hrun⟩
  · rintro ⟨records, hrun, hnames⟩
    have hm : ∀ i, i < defBlockSize → byteAt img.rootDir i = dirMemory img i :=
      fun i hi => (dirMemory_block img hi).symm
    exact ⟨records, hrun.good_congr hm, hnames.congr hm hrun⟩

theorem GoodRecord.passed {m : Nat → UInt8} {offset : Nat} (h : GoodRecord m offset)
    (hend : offset + dirRec m offset ≤ defBlockSize) : PassedRecord m offset :=
  ⟨h.pos, h.aligned, hend, Or.inr h.room, h.name, h.sum⟩

/-- A record that passes is good, unless it is shorter than its header. -/
theorem PassedRecord.good {m : Nat → UInt8} {offset : Nat} (h : PassedRecord m offset)
    (hlong : dirEntryBaseSize ≤ dirRec m offset) : GoodRecord m offset :=
  ⟨h.pos, h.aligned, h.room.resolve_left (Nat.not_lt.mpr hlong), h.name, h.sum⟩

/-- **The root-directory parser against its grammar, exactly.**  It accepts every block of the
grammar, and nothing else exactly if the block is not a concatenation of records that pass, with
names that are right, one of which is shorter than its header. -/
theorem root_dir_grammar_iff :
    (((∃ refs, imageValidateRootDir img = .ok refs) ↔ RootDirGrammar img.rootDir) ↔
      ¬ ∃ records, RecordRun (dirMemory img) (PassedRecord (dirMemory img)) defBlockSize 0 records ∧
        NamesOk (dirMemory img) records ∧
        ∃ o ∈ records, dirRec (dirMemory img) o < dirEntryBaseSize) ∧
    (RootDirGrammar img.rootDir → ∃ refs, imageValidateRootDir img = .ok refs) := by
  have haccepts : RootDirGrammar img.rootDir → ∃ refs, imageValidateRootDir img = .ok refs := by
    rw [rootDirGrammar_iff, rootDir_accepts_iff]
    rintro ⟨records, hrun, hnames⟩
    exact ⟨records, hrun.mono fun o _ hgood hend => hgood.passed hend, hnames⟩
  refine ⟨⟨?_, fun hlong => ⟨fun hacc => ?_, haccepts⟩⟩, haccepts⟩
  · rintro hiff ⟨records, hrun, hnames, o, ho, hshort⟩
    have hacc := (rootDir_accepts_iff img).mpr ⟨records, hrun, hnames⟩
    obtain ⟨records', hrun', -⟩ := (rootDirGrammar_iff img).mp (hiff.mp hacc)
    -- both concatenations follow the lengths, so they are one
    have hrecords := hrun.eq_dirRecords fun o ho => (hrun.mem ho).1.pos
    have hrecords' := hrun'.eq_dirRecords fun o ho => (hrun'.mem ho).1.pos
    have hgood := (hrun'.mem (hrecords' ▸ hrecords ▸ ho)).1
    exact absurd ((Nat.le_add_right _ _).trans hgood.room) (Nat.not_le.mpr hshort)
  · obtain ⟨records, hrun, hnames⟩ := (rootDir_accepts_iff img).mp hacc
    refine (rootDirGrammar_iff img).mpr ⟨records, hrun.mono fun o ho hpassed _ => ?_, hnames⟩
    refine hpassed.good (Nat.not_lt.mp fun hshort => ?_)
    exact hlong ⟨records, hrun, hnames, o, ho, hshort⟩

end Parser

/-! A block with a dead record of twelve bytes. -/

/-- "." and "..", then a record of twelve bytes that is not in use, then the rest. -/
def shortDir : Block :=
  initDirEntry (initDirEntry (put16 (put16 (zeros 4096) 40 12) 52 4052) 0 16 16 ftDir [46])
    16 16 16 ftDir [46, 46]

/-- An image with a given root directory, of which nothing else is known. -/
def imageWithDir (rootDir : Block) (beyond : Nat → UInt8) : Image ByteFile :=
  { openedImage false (zeros 824) 0 1 (fun _ => fileMember .empty) beyond with rootDir := rootDir }

section Short

variable {m : Nat → UInt8}

theorem shortDir_dots (hm : ∀ i, i < 4096 → m i = byteAt shortDir i) :
    HasEntry m 0 16 16 [46] ∧ HasEntry m 16 16 16 [46, 46] :=
  dots_entries (by norm_num) fun i hi => hm i (by omega)

theorem shortDir_rest (hm : ∀ i, i < 4096 → m i = byteAt shortDir i) {off w : Nat}
    (hlow : 32 ≤ off) (hhigh : off + w ≤ 4096) :
    getLE m off w = getLE (byteAt (put16 (put16 (zeros 4096) 40 12) 52 4052)) off w := by
  refine getLE_congr fun i h1 h2 => ?_
  rw [hm i (by omega), shortDir, byteAt_initDirEntry_of_out _ _ (by simp; omega),
    byteAt_initDirEntry_of_out _ _ (by simp; omega)]

theorem dirBody_dead {off recLen : Nat} (hino : dirIno m off = 0) (hlen : dirNameLen m off = 0)
    (hrec : dirRec m off = recLen) (hpos : 0 < recLen) (h4 : 4 ∣ recLen)
    (hend : off + recLen ≤ defBlockSize) (s : DirScan) :
    ¬ dirBadLength m off ∧ dirEntry m off s = .ok s := by
  constructor
  · rw [not_badLength_iff, hrec]
    exact ⟨hpos, h4, hend⟩
  · rw [dirEntry, failIf_of_not, ok_bind, failIf_of_not, ok_bind, if_pos hino]
    · exact fun h => h.1 hino
    · rw [hlen]
      exact not_or.mpr ⟨Nat.not_lt_zero _, Nat.not_lt_zero _⟩

theorem dirWalk_dead {off recLen : Nat} (hino : dirIno m off = 0) (hlen : dirNameLen m off = 0)
    (hrec : dirRec m off = recLen) (hpos : 0 < recLen) (h4 : 4 ∣ recLen)
    (hend : off + recLen ≤ defBlockSize) (s : DirScan) :
    dirWalk m off s = dirWalk m (off + recLen) s := by
  obtain ⟨hok, hentry⟩ := dirBody_dead hino hlen hrec hpos h4 hend s
  rw [dirWalk, if_pos (by omega), if_neg hok, hentry, ok_bind, hrec]

theorem shortDir_dead (hm : ∀ i, i < 4096 → m i = byteAt shortDir i) :
    (dirIno m 32 = 0 ∧ dirNameLen m 32 = 0 ∧ dirRec m 32 = 12) ∧
      dirIno m 44 = 0 ∧ dirNameLen m 44 = 0 ∧ dirRec m 44 = 4052 := by
  simp only [dirIno, dirNameLen, dirRec]
  rw [shortDir_rest hm (by norm_num) (by norm_num), shortDir_rest hm (by norm_num) (by norm_num),
    shortDir_rest hm (by norm_num) (by norm_num), shortDir_rest hm (by norm_num) (by norm_num),
    shortDir_rest hm (by norm_num) (by norm_num), shortDir_rest hm (by norm_num) (by norm_num)]
  simp (disch := decide) only [put16, getLE_putLE_of_disjoint, getLE_putLE_self, getLE_zeros]
  decide

theorem shortDir_walk (hm : ∀ i, i < 4096 → m i = byteAt shortDir i) :
    dirWalk m 0 ⟨[], false, false⟩ = .ok ⟨[], true, true⟩ := by
  obtain ⟨hdot, hdotdot⟩ := shortDir_dots hm
  obtain ⟨⟨hino, hlen, hrec⟩, hino', hlen', hrec'⟩ := shortDir_dead hm
  rw [dirWalk_dots hdot hdotdot (by norm_num) (by norm_num) (by norm_num),
    dirWalk_dead hino hlen hrec (by norm_num) (by decide) (by norm_num),
    dirWalk_dead hino' hlen' hrec' (by norm_num) (by decide) (by norm_num)]
  exact dirWalk_end _

end Short

theorem shortRecord_accepted :
    (∃ refs, imageValidateRootDir (imageWithDir shortDir fun _ => 0) = .ok refs) ∧
      ¬ RootDirGrammar (imageWithDir shortDir fun _ => 0).rootDir := by
  have hm : ∀ i, i < 4096 → dirMemory (imageWithDir shortDir fun _ => 0) i = byteAt shortDir i :=
    fun i hi => dirMemory_block _ hi
  obtain ⟨hdot, hdotdot⟩ := shortDir_dots hm
  obtain ⟨⟨-, -, hrec⟩, -⟩ := shortDir_dead hm
  refine ⟨⟨[], imageValidateRootDir_iff.mpr (shortDir_walk hm)⟩, fun hgrammar => ?_⟩
  obtain ⟨records, hrun, -⟩ := (rootDirGrammar_iff _).mp hgrammar
  have hrecords := hrun.eq_dirRecords fun o ho => (hrun.mem ho).1.pos
  have hshort : 32 ∈ records := by
    rw [hrecords, dirRecords, if_pos (by rw [hdot.recLen]; decide), hdot.recLen, dirRecords,
      if_pos (by rw [hdotdot.recLen]; decide), hdotdot.recLen, dirRecords,
      if_pos (by rw [hrec]; decide)]
    simp
  have hroom := (hrun.mem hshort).1.room
  rw [hrec, dirEntryBaseSize] at hroom
  omega

/-! ## 4. What the walk reads -/

section Reads

variable (m : Nat → UInt8)

/-- The scan with which the loop goes on behind a record, if it does. -/
def dirNext (offset : Nat) (s : DirScan) : Option DirScan :=
  if dirBadLength m offset then none else (dirEntry m offset s).toOption

theorem dirNext_iff {m : Nat → UInt8} {offset : Nat} {s s' : DirScan} :
    dirNext m offset s = some s' ↔
      PassedRecord m offset ∧ NameFits m s.refs offset ∧ s' = scanEntry m s offset := by
  rw [← dirBody_iff, dirNext]
  split
  · next hbad => exact iff_of_false (by simp) fun h => h.1 hbad
  · next hok =>
    rw [and_iff_right hok]
    cases dirEntry m offset s with
    | ok mid => exact ⟨fun h => congrArg _ (Option.some.inj h), fun h => congrArg _ (Except.ok.inj h)⟩
    | error e => exact iff_of_false (by simp [Except.toOption]) (by simp)

/-- The offsets at which the body of the loop runs, up to the record that makes it return. -/
def dirVisited (offset : Nat) (s : DirScan) : List Nat :=
  if offset < defBlockSize then
    offset :: (match _h : dirNext m offset s with
      | some s' => dirVisited (offset + dirRec m offset) s'
      | none => [])
  else []
termination_by defBlockSize - offset
decreasing_by
  have hpos := (dirNext_iff.mp _h).1.pos
  omega

/-- The lengths of the record are let through, so that a live record is copied with its name. -/
def dirCopied (offset : Nat) : Prop :=
  ¬ dirBadLength m offset ∧
    ¬ (dirNameLen m offset > (dirRec m offset + (2 ^ 32 - dirEntryBaseSize)) % 2 ^ 32 ∨
      dirNameLen m offset > maxNamelen) ∧
    dirIno m offset ≠ 0

instance (offset : Nat) : Decidable (dirCopied m offset) := inferInstanceAs (Decidable (_ ∧ _))

/-- The bytes read at a record: its header, and what `aetherfs_dirent_checksum` copies, which the
comparisons of the name are a part of. -/
def dirReads (offset : Nat) : List Nat :=
  List.range' offset
    (if dirCopied m offset then dirEntryBaseSize + dirNameLen m offset else dirEntryBaseSize)

/-- A live record that is shorter than its header, and a name in it that reaches behind the block. -/
def NameBehind (offset : Nat) : Prop :=
  dirIno m offset ≠ 0 ∧ (dirRec m offset = 4 ∨ dirRec m offset = 8 ∨ dirRec m offset = 12) ∧
    dirNameLen m offset ≤ maxNamelen ∧
    defBlockSize < offset + dirEntryBaseSize + dirNameLen m offset

variable {m} {offset : Nat} {s s' : DirScan}

/-- One turn: the loop ends at the record, or goes on behind it. -/
theorem dirVisited_turn (hlt : offset < defBlockSize) :
    (dirNext m offset s = none ∧ dirVisited m offset s = [offset]) ∨
    ∃ s', dirNext m offset s = some s' ∧
      dirVisited m offset s = offset :: dirVisited m (offset + dirRec m offset) s' := by
  rw [dirVisited, if_pos hlt]
  split
  · next s' hnext => exact Or.inr ⟨s', hnext, rfl⟩
  · next hnext => exact Or.inl ⟨hnext, rfl⟩

theorem dirVisited_end : dirVisited m defBlockSize s = [] := by
  rw [dirVisited, if_neg (Nat.lt_irrefl _)]

/-- **The loop ends**: a record takes four bytes at least. -/
theorem dirVisited_length (k : Nat) : ∀ {offset : Nat} {s : DirScan}, defBlockSize - offset = k →
    offset ≤ defBlockSize → (dirVisited m offset s).length * 4 ≤ k + 3 := by
  induction k using Nat.strong_induction_on with
  | _ k ih =>
    intro offset s hk hle
    rcases Nat.eq_or_lt_of_le hle with rfl | hlt
    · rw [dirVisited_end]
      exact Nat.zero_le _
    · rcases dirVisited_turn (s := s) hlt with ⟨-, hvisited⟩ | ⟨s', hnext, hvisited⟩
      · rw [hvisited, List.length_singleton]
        omega
      · obtain ⟨hp, -, -⟩ := dirNext_iff.mp hnext
        have hfour : 4 ≤ dirRec m offset := Nat.le_of_dvd hp.pos hp.aligned
        have hinside := hp.inside
        have hrest := ih _ (by omega) (s := s') rfl hinside
        rw [hvisited, List.length_cons]
        omega

/-- **Where the loop comes to**: the ends of the chains of records that pass. -/
theorem mem_dirVisited_iff {o : Nat} (k : Nat) : ∀ {offset : Nat} {s : DirScan},
    defBlockSize - offset = k → offset ≤ defBlockSize → (o ∈ dirVisited m offset s ↔
      o < defBlockSize ∧ ∃ records, RecordRun m (PassedRecord m) o offset records ∧
        NamesFit m s records) := by
  induction k using Nat.strong_induction_on with
  | _ k ih =>
    intro offset s hk hle
    rcases Nat.eq_or_lt_of_le hle with rfl | hlt
    · rw [dirVisited_end]
      refine iff_of_false List.not_mem_nil ?_
      rintro ⟨hlt, records, hrun, -⟩
      exact absurd hrun.le (Nat.not_le.mpr hlt)
    · rcases dirVisited_turn (s := s) hlt with ⟨hnone, hvisited⟩ | ⟨s', hnext, hvisited⟩
      · -- the record makes the loop return
        rw [hvisited, List.mem_singleton]
        constructor
        · rintro rfl
          exact ⟨hlt, [], .done, trivial⟩
        · rintro ⟨-, records, hrun, hfit⟩
          cases hrun with
          | done => rfl
          | more hp hrest =>
            rw [dirNext_iff.mpr ⟨hp, hfit.1, rfl⟩] at hnone
            cases hnone
      · obtain ⟨hp, hfits, rfl⟩ := dirNext_iff.mp hnext
        have hpos := hp.pos
        rw [hvisited, List.mem_cons, ih _ (by omega) rfl hp.inside]
        constructor
        · rintro (rfl | ⟨ho, records, hrun, hfit⟩)
          · exact ⟨hlt, [], .done, trivial⟩
          · exact ⟨ho, offset :: records, .more hp hrun, hfits, hfit⟩
        · rintro ⟨ho, records, hrun, hfit⟩
          cases hrun with
          | done => exact Or.inl rfl
          | more _ hrest => exact Or.inr ⟨ho, _, hrest, hfit.2⟩

theorem RecordRun.dvd_stop {stop : Nat} {records : List Nat}
    (h : RecordRun m (PassedRecord m) stop offset records) (hstart : 4 ∣ offset) : 4 ∣ stop := by
  induction h with
  | done => exact hstart
  | more hp _ ih => exact ih (Nat.dvd_add hstart hp.aligned)

theorem range'_inside_iff {o n : Nat} (hn : 0 < n) :
    (∀ i ∈ List.range' o n, i < defBlockSize) ↔ o + n ≤ defBlockSize := by
  constructor
  · intro h
    have hlast := h (o + (n - 1)) (List.mem_range'_1.mpr ⟨by omega, by omega⟩)
    omega
  · intro h i hi
    have hlast := (List.mem_range'_1.mp hi).2
    omega

theorem dirReads_inside_iff (hlt : offset < defBlockSize) (hdvd : 4 ∣ offset) :
    (∀ i ∈ dirReads m offset, i < defBlockSize) ↔
      (offset ≠ 4084 ∧ offset ≠ 4088 ∧ offset ≠ 4092) ∧ ¬ NameBehind m offset := by
  have hheader : offset + dirEntryBaseSize ≤ defBlockSize ↔
      offset ≠ 4084 ∧ offset ≠ 4088 ∧ offset ≠ 4092 := by
    simp only [dirEntryBaseSize, defBlockSize] at hlt ⊢
    omega
  rw [dirReads, ← hheader]
  split
  · next hcopied =>
    rw [range'_inside_iff (Nat.lt_of_lt_of_le (by decide) (Nat.le_add_right _ _))]
    obtain ⟨hok, hlen, hlive⟩ := hcopied
    obtain ⟨hpos, haligned, hinside⟩ := not_badLength_iff.mp hok
    obtain ⟨hlen, hname⟩ := not_or.mp hlen
    have hroom := (name_fits_iff (dirRec_lt m offset) (Nat.not_lt.mp hname)).mp hlen
    constructor
    · intro h
      refine ⟨by omega, fun hbehind => ?_⟩
      have hfar := hbehind.2.2.2
      omega
    · rintro ⟨-, hnot⟩
      refine Nat.not_lt.mp fun hfar => ?_
      rcases hroom with hrec | hrec
      · refine hnot ⟨hlive, ?_, Nat.not_lt.mp hname, (Nat.add_assoc _ _ _).trans_gt hfar⟩
        simp only [dirEntryBaseSize] at hrec
        omega
      · omega
  · next hcopied =>
    rw [range'_inside_iff (by decide)]
    refine ⟨fun h => ⟨h, fun hbehind => hcopied ?_⟩, fun h => h.1⟩
    obtain ⟨hlive, hrec, hname, -⟩ := hbehind
    have hshort : dirRec m offset < dirEntryBaseSize ∧ 0 < dirRec m offset ∧ 4 ∣ dirRec m offset := by
      rcases hrec with hrec | hrec | hrec <;> rw [hrec] <;> decide
    refine ⟨not_badLength_iff.mpr ⟨hshort.2.1, hshort.2.2, by omega⟩,
      not_or.mpr ⟨?_, Nat.not_lt.mpr hname⟩, hlive⟩
    exact (name_fits_iff (dirRec_lt m offset) hname).mpr (Or.inl hshort.1)

end Reads

/-- **What the root-directory walk reads, exactly.**  Whatever the block holds, the walk ends after
at most 1024 records; the bytes it reads are in the block exactly if no chain of records that pass
ends at 4084, 4088 or 4092, or in front of a live record of 4, 8 or 12 bytes whose name reaches
behind the end. -/
theorem root_dir_reads_iff {δ : Type} (img : Image δ) :
    (dirVisited (dirMemory img) 0 ⟨[], false, false⟩).length ≤ 1024 ∧
    ((∀ o ∈ dirVisited (dirMemory img) 0 ⟨[], false, false⟩, ∀ i ∈ dirReads (dirMemory img) o,
        i < defBlockSize) ↔
      ∀ records o, RecordRun (dirMemory img) (PassedRecord (dirMemory img)) o 0 records →
        NamesSound (dirMemory img) records → o < defBlockSize →
          (o ≠ 4084 ∧ o ≠ 4088 ∧ o ≠ 4092) ∧ ¬ NameBehind (dirMemory img) o) := by
  constructor
  · have hlen := @dirVisited_length (dirMemory img) _ 0 ⟨[], false, false⟩ rfl (Nat.zero_le _)
    simp only [defBlockSize] at hlen
    omega
  · have hvisited : ∀ o, o ∈ dirVisited (dirMemory img) 0 ⟨[], false, false⟩ ↔ _ :=
      fun o => mem_dirVisited_iff _ rfl (Nat.zero_le _)
    constructor
    · intro h records o hrun hagree hlt
      have hmem := (hvisited o).mpr ⟨hlt, records, hrun, namesFit_start_iff.mpr hagree⟩
      exact (dirReads_inside_iff hlt (hrun.dvd_stop (Nat.dvd_zero 4))).mp (h o hmem)
    · intro h o ho
      obtain ⟨hlt, records, hrun, hfit⟩ := (hvisited o).mp ho
      refine (dirReads_inside_iff hlt (hrun.dvd_stop (Nat.dvd_zero 4))).mpr ?_
      exact h records o hrun (namesFit_start_iff.mp hfit) hlt

/-- A dead record that leaves four bytes of the block. -/
def longDir : Block := put16 (zeros 4096) 8 4092

theorem longDir_record {m : Nat → UInt8} (hm : ∀ i, i < 4096 → m i = byteAt longDir i) :
    dirIno m 0 = 0 ∧ dirNameLen m 0 = 0 ∧ dirRec m 0 = 4092 := by
  have hread : ∀ off w, off + w ≤ 4096 → getLE m off w = getLE (byteAt longDir) off w :=
    fun off w h => getLE_congr fun i _ hi => hm i (by omega)
  rw [dirIno, dirNameLen, dirRec, hread _ _ (by norm_num), hread _ _ (by norm_num),
    hread _ _ (by norm_num), longDir]
  simp (disch := decide) only [put16, getLE_putLE_of_disjoint, getLE_putLE_self, getLE_zeros]
  decide

theorem longDir_read_behind :
    4092 ∈ dirVisited (dirMemory (imageWithDir longDir fun _ => 0)) 0 ⟨[], false, false⟩ ∧
      4096 ∈ dirReads (dirMemory (imageWithDir longDir fun _ => 0)) 4092 := by
  obtain ⟨hino, hlen, hrec⟩ := longDir_record fun i hi =>
    dirMemory_block (imageWithDir longDir fun _ => 0) hi
  constructor
  · obtain ⟨hok, hentry⟩ := dirBody_dead hino hlen hrec (by norm_num) (by decide) (by norm_num)
      ⟨[], false, false⟩
    have hlt : 0 < defBlockSize := by decide
    rcases dirVisited_turn (m := dirMemory (imageWithDir longDir fun _ => 0))
      (s := ⟨[], false, false⟩) hlt with ⟨hnone, -⟩ | ⟨s', -, hvisited⟩
    · rw [dirNext, if_neg hok, hentry] at hnone
      cases hnone
    · rw [hvisited, hrec]
      refine List.mem_cons_of_mem _ ?_
      rw [dirVisited, if_pos (by decide)]
      exact List.mem_cons_self
  · rw [dirReads, List.mem_range'_1]
    split
    · exact ⟨by norm_num, by simp only [dirEntryBaseSize]; omega⟩
    · decide

end AetherFs
