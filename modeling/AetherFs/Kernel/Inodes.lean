/-
# Inode numbers and link counts over the calls of `dir.c`

Two things `Kernel.Names` leaves open about the inodes its calls make.

* **Their numbers.**  `aetherfs_new_inode` takes the counter `s_next_ino`, moves it on by one, and
  hands out 17 as long as the counter is below 17.  The counter starts at zero with every mount, so the
  first inodes all get the number 17: the numbers of the inodes a run has made are different exactly
  if at most ONE was made while the counter stood at 17 or below (`numbers_apart_iff`).  Block
  allocations move the same counter and so end that time early.
* **Their link counts.**  `aetherfs_new_inode` has counted a new directory in its parent already when
  `aetherfs_mkdir` counts it again, and what it has counted stays when `aetherfs_mkdir` fails.  And
  `aetherfs_rename` moves a link between two directories for anything that is renamed.  The counts are
  right through a run exactly if every call meets `LinksKept` (`links_right_iff`).
-/
import AetherFs.Kernel.Names

namespace AetherFs

open Lib

/-! ## 1. What a call does to the numbers -/

section Draws

variable {bSize : Nat} {s s' : NameState} {m : NameMachine}

/-- **The two things that happen to the numbers**: nothing, while the counter may move on, or an
inode is made with the number the counter stands for. -/
inductive Draws (s s' : NameState) : Prop
  | none (hinodes : s'.inodes = s.inodes) (hnumbers : s'.iIno = s.iIno)
    (hnext : s'.info.nextIno = s.info.nextIno ∨ s'.info.nextIno = addU64 s.info.nextIno 1)
  | one (hinodes : s'.inodes = s.inodes + 1)
    (hnumbers : s'.iIno = Function.update s.iIno s.inodes (nextNumber s.info.nextIno))
    (hnext : s'.info.nextIno = addU64 s.info.nextIno 1)

theorem Draws.withDir (h : Draws s s') (d : DirState) : Draws s (s'.withDir d) := by
  cases h with
  | none h1 h2 h3 => exact .none h1 h2 h3
  | one h1 h2 h3 => exact .one h1 h2 h3

theorem newInode_draws (s : NameState) (dir mode : Nat) (memory : Bool) :
    Draws s (s.newInode dir mode memory).2 := by
  by_cases hkind : newInodeMode mode
  · cases memory with
    | false =>
      rw [s.newInode_failed dir hkind]
      exact .none rfl rfl (Or.inr rfl)
    | true =>
      simp only [NameState.newInode, newInode, hkind, not_true_eq_false, if_false, if_true]
      exact .one rfl rfl rfl
  · simp only [NameState.newInode, newInode, hkind, not_false_eq_true, if_true]
    exact .none rfl rfl (Or.inl rfl)

theorem Draws.finish {s1 : NameState} (h : Draws s s1) {f : DirState → DirState}
    {g : Errno → Except Errno Unit} {x : Option (Except Errno DirState)} {r : Except Errno Unit}
    (hrun : s1.finish f g x = some (r, s')) : Draws s s' := by
  rcases x with _ | (e | d)
  · exact absurd hrun (by simp [NameState.finish])
  · rw [← (Prod.mk.inj (Option.some.inj hrun)).2]
    exact h
  · rw [← (Prod.mk.inj (Option.some.inj hrun)).2]
    exact h.withDir (f d)

/-- A `create` or `mkdir`: the number first, the name after it. -/
theorem create_draws {memory read : Bool} {dir mode : Nat} {name : List UInt8}
    {r : Except Errno Unit} (h : dirCreate memory read bSize dir name mode s = some (r, s')) :
    Draws s s' := by
  have hdraws := newInode_draws s dir (0o100000 ||| mode) memory
  rcases hnew : s.newInode dir (0o100000 ||| mode) memory with ⟨e | inode, s1⟩
  · rw [hnew] at hdraws
    rw [dirCreate_error hnew] at h
    rw [← (Prod.mk.inj (Option.some.inj h)).2]
    exact hdraws
  · rw [hnew] at hdraws
    rw [dirCreate_ok hnew] at h
    exact hdraws.finish h

theorem mkdir_draws {memory read : Bool} {dir mode : Nat} {name : List UInt8}
    {r : Except Errno Unit} (h : dirMkdir memory read bSize dir name mode s = some (r, s')) :
    Draws s s' := by
  have hdraws := newInode_draws s dir (0o040000 ||| mode) memory
  rcases hnew : s.newInode dir (0o040000 ||| mode) memory with ⟨e | inode, s1⟩
  · rw [hnew] at hdraws
    rw [dirMkdir_error hnew] at h
    rw [← (Prod.mk.inj (Option.some.inj h)).2]
    exact hdraws
  · rw [hnew] at hdraws
    rw [dirMkdir_ok hnew] at h
    exact hdraws.finish h

theorem draws_refl (s : NameState) : Draws s s := .none rfl rfl (Or.inl rfl)

/-- **What a call can do to the numbers.** -/
theorem run_draws {c : NameCall} {r : Except Errno Unit} (h : c.run bSize s = some (r, s')) :
    Draws s s' := by
  cases c with
  | create memory read dir name mode => exact create_draws h
  | mkdir memory read dir name mode => exact mkdir_draws h
  | unlink read dir name inode =>
    rw [NameCall.run, dirUnlink_finish] at h
    exact (draws_refl s).finish h
  | rmdir read dir name inode =>
    rw [NameCall.run, dirRmdir_finish] at h
    exact (draws_refl s).finish h
  | rename env exchange oldDir newDir old inode new =>
    rw [NameCall.run] at h
    obtain ⟨x, -, hx⟩ := Option.map_eq_some_iff.mp h
    rw [← (Prod.mk.inj hx).2]
    exact (draws_refl s).withDir _
  | alloc start len =>
    simp only [NameCall.run, Option.some.injEq, Prod.mk.injEq] at h
    rw [← h.2, allocBlocks]
    split
    · exact draws_refl s
    · exact .none rfl rfl (Or.inr rfl)

theorem nameStep_draws (bSize : Nat) (m : NameMachine) (c : NameCall) :
    Draws m.st (nameStep bSize m c).st := by
  rw [nameStep]
  split
  · exact draws_refl _
  · next hrun => exact run_draws hrun
  · next hrun => exact run_draws hrun

end Draws

/-! ## 2. Numbers over a run -/

section Numbers

variable {bSize : Nat} {first early : Nat} {s s' : NameState}

/-- How many inodes a run makes while the counter stands at 17 or below. -/
def earlyInodes (bSize : Nat) : NameMachine → List NameCall → Nat
  | _, [] => 0
  | m, c :: cs =>
    (if m.st.inodes < (nameStep bSize m c).st.inodes ∧ m.st.info.nextIno ≤ rootIno + 1 then 1 else 0)
      + earlyInodes bSize (nameStep bSize m c) cs

/-- The inodes from `first` on with the number 17. -/
def seventeens (first : Nat) (s : NameState) : Finset Nat :=
  (Finset.Ico first s.inodes).filter fun inode => s.iIno inode = rootIno + 1

/-- **The numbers of the inodes from `first` on**: 17 or below the counter, and only 17 more than
once. -/
structure Numbered (first early : Nat) (s : NameState) : Prop where
  start : first ≤ s.inodes
  below : ∀ inode, first ≤ inode → inode < s.inodes →
    s.iIno inode ≤ rootIno + 1 ∨ s.iIno inode < s.info.nextIno
  apart : ∀ i j, first ≤ i → i < j → j < s.inodes → s.iIno i = s.iIno j → s.iIno j = rootIno + 1
  count : (seventeens first s).card = early

theorem numbered_start (s : NameState) : Numbered s.inodes 0 s := by
  refine ⟨Nat.le_refl _, fun inode h1 h2 => absurd h2 (Nat.not_lt.mpr h1), fun i j h1 h2 h3 _ => ?_,
    ?_⟩
  · exact absurd (h1.trans_lt (h2.trans h3)) (Nat.lt_irrefl _)
  · rw [seventeens, Finset.Ico_self, Finset.filter_empty, Finset.card_empty]

theorem Numbered.none (h : Numbered first early s) (hinodes : s'.inodes = s.inodes)
    (hnumbers : s'.iIno = s.iIno) (hnext : s.info.nextIno ≤ s'.info.nextIno) :
    Numbered first early s' := by
  refine ⟨?_, fun inode h1 h2 => ?_, fun i j h1 h2 h3 heq => ?_, ?_⟩
  · rw [hinodes]
    exact h.start
  · rw [hinodes] at h2
    rw [hnumbers]
    exact (h.below inode h1 h2).imp_right fun hlt => hlt.trans_le hnext
  · rw [hinodes] at h3
    rw [hnumbers] at heq ⊢
    exact h.apart i j h1 h2 h3 heq
  · rw [seventeens, hinodes, hnumbers]
    exact h.count

theorem seventeens_made (hstart : first ≤ s.inodes) {n : Nat} (hinodes : s'.inodes = s.inodes + 1)
    (hnumbers : s'.iIno = Function.update s.iIno s.inodes n) :
    seventeens first s' =
      if n = rootIno + 1 then insert s.inodes (seventeens first s) else seventeens first s := by
  have hold : ∀ inode ∈ Finset.Ico first s.inodes, s'.iIno inode = s.iIno inode := by
    intro inode hinode
    rw [hnumbers]
    exact Function.update_of_ne (Nat.ne_of_lt (Finset.mem_Ico.mp hinode).2) _ _
  have hnew : s'.iIno s.inodes = n := by rw [hnumbers, Function.update_self]
  rw [seventeens, seventeens, hinodes, Nat.Ico_succ_right_eq_insert_Ico hstart, Finset.filter_insert,
    hnew]
  have hfilter : (Finset.Ico first s.inodes).filter (fun inode => s'.iIno inode = rootIno + 1)
      = (Finset.Ico first s.inodes).filter fun inode => s.iIno inode = rootIno + 1 :=
    Finset.filter_congr fun inode hinode => by rw [hold inode hinode]
  rw [hfilter]

/-- **An inode is made.**  Only a counter of 17 or below gives a number that may be there. -/
theorem Numbered.one (h : Numbered first early s) (hinodes : s'.inodes = s.inodes + 1)
    (hnumbers : s'.iIno = Function.update s.iIno s.inodes (nextNumber s.info.nextIno))
    (hnext : s'.info.nextIno = s.info.nextIno + 1) :
    Numbered first ((if s.info.nextIno ≤ rootIno + 1 then 1 else 0) + early) s' := by
  have hnew : s'.iIno s.inodes = nextNumber s.info.nextIno := by
    rw [hnumbers, Function.update_self]
  have hold : ∀ inode, inode < s.inodes → s'.iIno inode = s.iIno inode := by
    intro inode hinode
    rw [hnumbers]
    exact Function.update_of_ne (Nat.ne_of_lt hinode) _ _
  have hseventeen : nextNumber s.info.nextIno = rootIno + 1 ↔ s.info.nextIno ≤ rootIno + 1 := by
    rw [nextNumber]
    split <;> omega
  have hge : s.info.nextIno ≤ nextNumber s.info.nextIno := by
    rw [nextNumber]
    split <;> omega
  have hsmall : nextNumber s.info.nextIno ≤ rootIno + 1 ∨
      nextNumber s.info.nextIno = s.info.nextIno := by
    rw [nextNumber]
    split
    · exact Or.inl (Nat.le_refl _)
    · exact Or.inr rfl
  refine ⟨?_, fun inode h1 h2 => ?_, fun i j h1 h2 h3 heq => ?_, ?_⟩
  · rw [hinodes]
    exact h.start.trans (Nat.le_succ _)
  · rw [hinodes] at h2
    rw [hnext]
    rcases Nat.lt_succ_iff_lt_or_eq.mp h2 with hlt | rfl
    · rw [hold inode hlt]
      exact (h.below inode h1 hlt).imp_right fun hb => hb.trans (Nat.lt_succ_self _)
    · rw [hnew]
      exact hsmall.imp_right fun heq => heq.trans_lt (Nat.lt_succ_self _)
  · rw [hinodes] at h3
    rcases Nat.lt_succ_iff_lt_or_eq.mp h3 with hlt | rfl
    · rw [hold i (h2.trans hlt), hold j hlt] at heq
      rw [hold j hlt]
      exact h.apart i j h1 h2 hlt heq
    · -- the new number is that of an earlier inode, which is at most 17 or below the counter
      rw [hold i h2, hnew] at heq
      rw [hnew, hseventeen]
      rcases h.below i h1 h2 with hle | hlt
      · exact hge.trans (heq ▸ hle)
      · exact absurd (hge.trans_lt (heq ▸ hlt)) (Nat.lt_irrefl _)
  · rw [seventeens_made h.start hinodes hnumbers, ← h.count]
    by_cases hearly : s.info.nextIno ≤ rootIno + 1
    · rw [if_pos (hseventeen.mpr hearly), if_pos hearly, Finset.card_insert_of_notMem, Nat.add_comm]
      intro hmem
      exact absurd (Finset.mem_Ico.mp (Finset.mem_filter.mp hmem).1).2 (Nat.lt_irrefl _)
    · rw [if_neg (fun h17 => hearly (hseventeen.mp h17)), if_neg hearly, Nat.zero_add]

theorem addU64_one {a : Nat} (h : a + 1 < 2 ^ 64) : addU64 a 1 = a + 1 := Nat.mod_eq_of_lt h

/-- **One call**, with the counter short of its end. -/
theorem Numbered.step {m : NameMachine} (h : Numbered first early m.st) (c : NameCall)
    (hroom : m.st.info.nextIno + 1 < 2 ^ 64) :
    Numbered first ((if m.st.inodes < (nameStep bSize m c).st.inodes ∧
        m.st.info.nextIno ≤ rootIno + 1 then 1 else 0) + early) (nameStep bSize m c).st ∧
      (nameStep bSize m c).st.info.nextIno ≤ m.st.info.nextIno + 1 := by
  cases nameStep_draws bSize m c with
  | none hinodes hnumbers hnext =>
    rw [addU64_one hroom] at hnext
    have hkeep : m.st.info.nextIno ≤ (nameStep bSize m c).st.info.nextIno := by omega
    rw [if_neg (fun hmade => absurd hmade.1 (by rw [hinodes]; exact Nat.lt_irrefl _)), Nat.zero_add]
    exact ⟨h.none hinodes hnumbers hkeep, by omega⟩
  | one hinodes hnumbers hnext =>
    rw [addU64_one hroom] at hnext
    have hmade : m.st.inodes < (nameStep bSize m c).st.inodes := by
      rw [hinodes]
      exact Nat.lt_succ_self _
    simp only [hmade, true_and]
    exact ⟨h.one hinodes hnumbers hnext, hnext.le⟩

theorem Numbered.run (calls : List NameCall) : ∀ {m : NameMachine} {early : Nat},
    Numbered first early m.st → m.st.info.nextIno + calls.length < 2 ^ 64 →
      Numbered first (earlyInodes bSize m calls + early) (calls.foldl (nameStep bSize) m).st := by
  induction calls with
  | nil =>
    intro m early h _
    rw [earlyInodes, Nat.zero_add]
    exact h
  | cons c calls ih =>
    intro m early h hroom
    rw [List.length_cons] at hroom
    obtain ⟨hstep, hnext⟩ := @Numbered.step bSize first early m h c (by omega)
    have hrest := ih hstep (by omega)
    rw [earlyInodes, List.foldl_cons, Nat.add_comm (ite _ _ _), Nat.add_assoc]
    exact hrest

/-- Only 17 is there more than once, so the numbers are different when 17 is there once. -/
theorem Numbered.injOn_iff (h : Numbered first early s) :
    Set.InjOn s.iIno (Set.Ico first s.inodes) ↔ early ≤ 1 := by
  rw [← h.count, Finset.card_le_one]
  have hmem : ∀ inode, inode ∈ seventeens first s ↔
      (first ≤ inode ∧ inode < s.inodes) ∧ s.iIno inode = rootIno + 1 := by
    intro inode
    rw [seventeens, Finset.mem_filter, Finset.mem_Ico]
  constructor
  · intro hinj i hi j hj
    obtain ⟨hi, hi17⟩ := (hmem i).mp hi
    obtain ⟨hj, hj17⟩ := (hmem j).mp hj
    exact hinj hi hj (hi17.trans hj17.symm)
  · intro hone i hi j hj heq
    have hlt : ∀ i j, first ≤ i → i < j → j < s.inodes → s.iIno i ≠ s.iIno j := by
      intro i j h1 h2 h3 heq
      have h17 := h.apart i j h1 h2 h3 heq
      exact absurd (hone i ((hmem i).mpr ⟨⟨h1, h2.trans h3⟩, heq.trans h17⟩) j
        ((hmem j).mpr ⟨⟨h1.trans h2.le, h3⟩, h17⟩)) (Nat.ne_of_lt h2)
    rcases Nat.lt_trichotomy i j with hij | hij | hij
    · exact absurd heq (hlt i j hi.1 hij hj.2)
    · exact hij
    · exact absurd heq.symm (hlt j i hj.1 hij hi.2)

end Numbers

/-- **The inodes a run makes have different numbers exactly if at most one of them was made while the
counter stood at 17 or below**, where it has stood since the mount. -/
theorem numbers_apart_iff (bSize : Nat) {m : NameMachine} {calls : List NameCall}
    (hroom : m.st.info.nextIno + calls.length < 2 ^ 64) :
    Set.InjOn (calls.foldl (nameStep bSize) m).st.iIno
        (Set.Ico m.st.inodes (calls.foldl (nameStep bSize) m).st.inodes) ↔
      earlyInodes bSize m calls ≤ 1 :=
  (@Numbered.run bSize m.st.inodes calls m 0 (numbered_start m.st) hroom).injOn_iff

/-- Two files made right after the mount: they have one number. -/
theorem numbers_apart_sampleMount :
    ¬ Set.InjOn ([.create true false 0 [99] 0, .create true false 0 [100] 0].foldl (nameStep 64)
        sampleMount).st.iIno
      (Set.Ico sampleMount.st.inodes ([.create true false 0 [99] 0,
        .create true false 0 [100] 0].foldl (nameStep 64) sampleMount).st.inodes) := by
  rw [numbers_apart_iff 64 (by decide)]
  decide

/-! ## 3. Link counts -/

section Links

variable {bSize : Nat} {m : NameMachine} {name : List UInt8} {inode dir : Nat}

/-- **Every inode has the links it ought to have.** -/
def LinksRight (m : NameMachine) : Prop := m.st.iNlink = m.space.links

/-- A rename that returns 0: onto another name, it must be of a file and stay in its directory;
otherwise it must stay there, or move a directory and not be reverted, or be of a file and be
reverted. -/
def RenameLinksKept (bSize : Nat) (m : NameMachine) (env : RenameEnv) (oldDir newDir : Nat)
    (old : List UInt8) (inode : Nat) (new : Dentry) : Prop :=
  match new.inode with
  | some _ => m.space.isDir inode = false ∧ oldDir = newDir
  | none => oldDir = newDir ∨ (m.space.isDir inode = true ↔ ∃ mid last,
      deleteEntry env.readOld bSize old m.st.dir = some (.ok mid) ∧
      addEntry env.readNew bSize new.name (m.st.iIno inode) mid = some (.ok last))

/-- **When a call leaves the links right.**  A `mkdir` must make no inode, and a rename must not
exchange. -/
def LinksKept (bSize : Nat) (m : NameMachine) : NameCall → Prop
  | .create _ _ _ _ _ => True
  | .mkdir memory read dir name mode => ∀ r st,
    dirMkdir memory read bSize dir name mode m.st = some (r, st) → st.inodes = m.st.inodes
  | .unlink _ _ _ _ => True
  | .rmdir _ _ _ _ => True
  | .rename env exchange oldDir newDir old inode new => ∀ r d,
    dirRename env exchange bSize oldDir newDir old (m.st.iIno inode) new m.st.dir = some (r, d) →
      exchange = false ∧ (r = .ok () → RenameLinksKept bSize m env oldDir newDir old inode new)
  | .alloc _ _ => True

/-! An entry added or deleted leaves the links alone. -/

theorem addEntry_links {read : Bool} {ino : Nat} {s d : DirState}
    (h : addEntry read bSize name ino s = some (.ok d)) : d.iNlink = s.iNlink := by
  rw [addEntry] at h
  split_ifs at h
  · simp at h
  · simp at h
  · split at h
    · simp only [Option.some.injEq, Except.ok.injEq] at h
      rw [← h]
    · simp at h
    · simp at h

theorem deleteEntry_links {read : Bool} {s d : DirState}
    (h : deleteEntry read bSize name s = some (.ok d)) : d.iNlink = s.iNlink := by
  rw [deleteEntry] at h
  split_ifs at h
  · simp at h
  · split at h
    · simp only [Option.some.injEq, Except.ok.injEq] at h
      rw [← h]
    · simp at h
    · simp at h

/-- The links of two directories, once something has moved from one to the other. -/
theorem moveDirs_links (s : DirState) (oldDir newDir : Nat) :
    (s.moveDirs oldDir newDir).iNlink =
      if oldDir ≠ newDir then linked (unlinked s.iNlink oldDir) newDir else s.iNlink := by
  rw [DirState.moveDirs]
  split <;> rfl

theorem moved_ne (links : Nat → BitVec 32) {oldDir newDir : Nat} (hne : oldDir ≠ newDir) :
    linked (unlinked links oldDir) newDir ≠ links := by
  intro h
  have hat := congrFun h oldDir
  rw [linked, Function.update_of_ne hne, unlinked, Function.update_self] at hat
  bv_omega

section Made

variable {memory read : Bool} {mode : Nat}

theorem create_links (h : LinksRight m) (hvalid : NameValid bSize m (.create memory read dir name mode)) :
    LinksRight (nameStep bSize m (.create memory read dir name mode)) := by
  obtain ⟨-, -, hmode, -, -⟩ := hvalid
  have hreg := create_mode hmode
  rw [LinksRight] at h
  cases memory with
  | false =>
    have hrun : NameCall.run bSize m.st (.create false read dir name mode) = _ :=
      dirCreate_error (m.st.newInode_failed dir (Or.inl hreg))
    rw [nameStep_error hrun]
    exact h
  | true =>
    have hmade : m.st.fileLinks = (m.space.after m.st.inodes (.create true read dir name mode)).links := by
      rw [NameState.fileLinks, h]
      rfl
    have hrun : NameCall.run bSize m.st (.create true read dir name mode) = _ :=
      dirCreate_ok (m.st.newInode_file dir hreg)
    rcases hadd : addEntry read bSize name ((m.st.drawn m.st.fileLinks).iIno m.st.inodes)
        (m.st.drawn m.st.fileLinks).dir with _ | (e | d)
    · rw [hadd] at hrun
      rw [nameStep_none hrun]
      exact h
    · rw [hadd] at hrun
      rw [nameStep_ok hrun]
      exact hmade
    · rw [hadd] at hrun
      rw [nameStep_ok hrun]
      exact (addEntry_links hadd).trans hmade

/-- **A directory that is made is counted twice**, and stays counted once when it is not. -/
theorem mkdir_links (h : LinksRight m) (hvalid : NameValid bSize m (.mkdir memory read dir name mode)) :
    LinksRight (nameStep bSize m (.mkdir memory read dir name mode)) ↔
      LinksKept bSize m (.mkdir memory read dir name mode) := by
  obtain ⟨-, -, hmode, hdir, -⟩ := hvalid
  have hkind := mkdir_mode hmode
  rw [LinksRight] at h
  cases memory with
  | false =>
    have hrun : NameCall.run bSize m.st (.mkdir false read dir name mode) = _ :=
      dirMkdir_error (m.st.newInode_failed dir (Or.inr (Or.inl hkind)))
    rw [nameStep_error hrun]
    refine iff_of_true h fun r st hst => ?_
    rw [← (Prod.mk.inj (Option.some.inj (hrun.symm.trans hst))).2]
    rfl
  | true =>
    have hmade : m.st.fileLinks = Function.update m.space.links m.st.inodes 1 := by
      rw [NameState.fileLinks, h]
    have hrun : NameCall.run bSize m.st (.mkdir true read dir name mode) = _ :=
      dirMkdir_ok (m.st.newInode_dir dir hkind)
    rcases hadd : addEntry read bSize name ((m.st.drawn (m.st.dirLinks dir)).iIno m.st.inodes)
        (m.st.drawn (m.st.dirLinks dir)).dir with _ | (e | d)
    · rw [hadd] at hrun
      rw [nameStep_none hrun]
      refine iff_of_true h fun r st hst => ?_
      exact absurd (hrun.symm.trans hst) (by simp [NameState.finish])
    · rw [hadd] at hrun
      rw [nameStep_error hrun]
      refine iff_of_false (fun hright => ?_) fun hkept => ?_
      · -- the directory has a link for what is not in it
        have hat : linked m.st.fileLinks dir dir = m.space.links dir := congrFun hright dir
        rw [linked, Function.update_self, hmade, Function.update_of_ne (Nat.ne_of_lt hdir)] at hat
        bv_omega
      · exact absurd (hkept _ _ hrun) (Nat.succ_ne_self _)
    · rw [hadd] at hrun
      rw [nameStep_ok hrun]
      refine iff_of_false (fun hright => ?_) fun hkept => ?_
      · have hlinks : linked d.iNlink dir = linked m.st.fileLinks dir := by
          rw [hmade]
          exact hright
        rw [addEntry_links hadd] at hlinks
        have hat : linked (linked m.st.fileLinks dir) dir dir = linked m.st.fileLinks dir dir :=
          congrFun hlinks dir
        simp only [linked, Function.update_self] at hat
        bv_omega
      · exact absurd (hkept _ _ hrun) (Nat.succ_ne_self _)

end Made

section Removed

variable {read : Bool}

/-- A call that deletes a name and changes the links as it ought to. -/
theorem removed_links (h : LinksRight m) {c : NameCall} {f : DirState → DirState}
    (hrun : c.run bSize m.st = m.st.finish f .error (deleteEntry read bSize name m.st.dir))
    (hlinks : ∀ d, d.iNlink = m.space.links →
      (f d).iNlink = (m.space.after m.st.inodes c).links) : LinksRight (nameStep bSize m c) := by
  rcases hdel : deleteEntry read bSize name m.st.dir with _ | (e | d)
  · rw [hdel] at hrun
    rw [nameStep_none hrun]
    exact h
  · rw [hdel] at hrun
    rw [nameStep_error hrun]
    exact h
  · rw [hdel] at hrun
    rw [nameStep_ok hrun]
    exact hlinks d ((deleteEntry_links hdel).trans h)

theorem unlink_links (h : LinksRight m) :
    LinksRight (nameStep bSize m (.unlink read dir name inode)) := by
  refine removed_links h dirUnlink_finish fun d hd => ?_
  change unlinked d.iNlink inode = unlinked m.space.links inode
  rw [hd]

theorem rmdir_links (h : LinksRight m) :
    LinksRight (nameStep bSize m (.rmdir read dir name inode)) := by
  refine removed_links h dirRmdir_finish fun d hd => ?_
  change unlinked (unlinked d.iNlink inode) dir = unlinked (unlinked m.space.links inode) dir
  rw [hd]

end Removed

section Renamed

variable {env : RenameEnv} {exchange : Bool} {oldDir newDir target : Nat} {old : List UInt8}
  {new : Dentry}

/-! The links a rename leaves, against the links it ought to leave. -/

theorem movedLinks_of_ne (links : Nat → BitVec 32) (isDir : Bool) (h1 : target ≠ oldDir)
    (h2 : target ≠ newDir) : movedLinks links isDir oldDir newDir target = links target := by
  rw [movedLinks]
  split
  · rw [linked, Function.update_of_ne h2, unlinked, Function.update_of_ne h1]
  · rfl

theorem added_links_iff (links : Nat → BitVec 32) (isDir : Bool) (oldDir newDir : Nat) :
    (if oldDir ≠ newDir then linked (unlinked links oldDir) newDir else links)
        = movedLinks links isDir oldDir newDir ↔ oldDir = newDir ∨ isDir = true := by
  rw [movedLinks]
  by_cases hdirs : oldDir = newDir
  · simp [hdirs]
  · cases isDir with
    | true => simp [hdirs]
    | false => simp [hdirs, moved_ne links hdirs]

theorem reverted_links_iff (links : Nat → BitVec 32) (isDir : Bool) (oldDir newDir : Nat) :
    links = movedLinks links isDir oldDir newDir ↔ oldDir = newDir ∨ isDir = false := by
  rw [movedLinks]
  by_cases hdirs : oldDir = newDir
  · simp [hdirs]
  · cases isDir with
    | true => simp [hdirs, (moved_ne links hdirs).symm]
    | false => simp

/-- Onto another directory, the new parent keeps a link too many; onto another file, a rename
between directories moves one that is not there. -/
theorem replaced_links_iff (links : Nat → BitVec 32) (isDir : Bool) (htarget : target ≠ newDir) :
    (if oldDir ≠ newDir then linked (unlinked (unlinked links target) oldDir) newDir
        else unlinked links target)
      = movedLinks (if isDir = true then unlinked (unlinked links target) newDir
          else unlinked links target) isDir oldDir newDir ↔ isDir = false ∧ oldDir = newDir := by
  cases isDir with
  | false =>
    have hadded := added_links_iff (unlinked links target) false oldDir newDir
    simp only [Bool.false_eq_true, if_false, or_false, true_and] at hadded ⊢
    exact hadded
  | true =>
    simp only [if_true, Bool.true_eq_false, false_and, iff_false]
    intro hlinks
    have hat := congrFun hlinks newDir
    by_cases hdirs : oldDir = newDir
    · simp only [hdirs, ne_eq, not_true_eq_false, if_false, movedLinks, and_false, unlinked,
        Function.update_self, Function.update_of_ne htarget.symm] at hat
      bv_omega
    · simp only [hdirs, ne_eq, not_false_eq_true, if_true, movedLinks, and_self, linked, unlinked,
        Function.update_self, Function.update_of_ne htarget.symm,
        Function.update_of_ne (Ne.symm hdirs)] at hat
      bv_omega

/-- The condition on a rename, once what it returns is known. -/
theorem renameKept_iff {r : Except Errno Unit} {d : DirState}
    (hren : dirRename env exchange bSize oldDir newDir old (m.st.iIno inode) new m.st.dir
      = some (r, d)) :
    LinksKept bSize m (.rename env exchange oldDir newDir old inode new) ↔
      exchange = false ∧
        (r = .ok () → RenameLinksKept bSize m env oldDir newDir old inode new) := by
  constructor
  · intro h
    exact h r d hren
  · intro h r' d' hren'
    rw [hren] at hren'
    obtain ⟨rfl, rfl⟩ := Prod.mk.inj (Option.some.inj hren')
    exact h

section Ends

variable {d mid last : DirState} (h : LinksRight m)
  (hdel : deleteEntry env.readOld bSize old m.st.dir = some (.ok mid))

include h hdel

theorem mid_links : mid.iNlink = m.space.links := (deleteEntry_links hdel).trans h

theorem exchanged_links (h1 : target ≠ oldDir) (h2 : target ≠ newDir)
    (hrun : NameCall.run bSize m.st (.rename env true oldDir newDir old inode new)
      = some (.ok (), m.st.withDir (((mid.dropLink target).dropLink target).moveDirs oldDir newDir))) :
    ¬ LinksRight (nameStep bSize m (.rename env true oldDir newDir old inode new)) := by
  intro hright
  rw [nameStep_ok hrun] at hright
  have hat := congrFun hright target
  simp only [NameState.withDir, moveDirs_links, NameSpace.after, movedLinks_of_ne _ _ h1 h2,
    movedLinks_of_ne _ _ h2 h1, DirState.dropLink, mid_links h hdel] at hat
  split at hat
  · rw [linked, Function.update_of_ne h2, unlinked, Function.update_of_ne h1] at hat
    simp only [Function.update_self] at hat
    bv_omega
  · simp only [Function.update_self] at hat
    bv_omega

theorem replaced_links (htarget : new.inode = some target) (hnew : target ≠ newDir)
    (hkind : m.space.isDir target = m.space.isDir inode)
    (hrun : NameCall.run bSize m.st (.rename env false oldDir newDir old inode new)
      = some (.ok (), m.st.withDir ((mid.dropLink target).moveDirs oldDir newDir))) :
    LinksRight (nameStep bSize m (.rename env false oldDir newDir old inode new)) ↔
      RenameLinksKept bSize m env oldDir newDir old inode new := by
  rw [nameStep_ok hrun, LinksRight, RenameLinksKept, htarget]
  simp only [NameState.withDir, moveDirs_links, NameSpace.after, htarget, NameSpace.replacedLinks,
    hkind]
  rw [← replaced_links_iff m.space.links (m.space.isDir inode) hnew, ← mid_links h hdel]
  rfl

theorem added_links (hfree : new.inode = none)
    (hadd : addEntry env.readNew bSize new.name (m.st.iIno inode) mid = some (.ok last))
    (hrun : NameCall.run bSize m.st (.rename env false oldDir newDir old inode new)
      = some (.ok (), m.st.withDir (last.moveDirs oldDir newDir))) :
    LinksRight (nameStep bSize m (.rename env false oldDir newDir old inode new)) ↔
      RenameLinksKept bSize m env oldDir newDir old inode new := by
  have hlast : last.iNlink = m.space.links := (addEntry_links hadd).trans (mid_links h hdel)
  rw [nameStep_ok hrun, LinksRight, RenameLinksKept, hfree]
  simp only [NameState.withDir, moveDirs_links, NameSpace.after, hfree, NameSpace.replacedLinks, hlast]
  rw [added_links_iff]
  have hboth : ∃ mid last, deleteEntry env.readOld bSize old m.st.dir = some (.ok mid) ∧
      addEntry env.readNew bSize new.name (m.st.iIno inode) mid = some (.ok last) :=
    ⟨mid, last, hdel, hadd⟩
  simp only [hboth, iff_true]

theorem reverted_links {e : Errno} (hfree : new.inode = none)
    (hadd : addEntry env.readNew bSize new.name (m.st.iIno inode) mid = some (.error e))
    (hback : addEntry env.readRevert bSize old (m.st.iIno inode) mid = some (.ok last))
    (hrun : NameCall.run bSize m.st (.rename env false oldDir newDir old inode new)
      = some (.ok (), m.st.withDir last)) :
    LinksRight (nameStep bSize m (.rename env false oldDir newDir old inode new)) ↔
      RenameLinksKept bSize m env oldDir newDir old inode new := by
  have hlast : last.iNlink = m.space.links := (addEntry_links hback).trans (mid_links h hdel)
  rw [nameStep_ok hrun, LinksRight, RenameLinksKept, hfree]
  simp only [NameState.withDir, NameSpace.after, hfree, NameSpace.replacedLinks, hlast]
  rw [reverted_links_iff]
  have hnot : ¬ ∃ mid last, deleteEntry env.readOld bSize old m.st.dir = some (.ok mid) ∧
      addEntry env.readNew bSize new.name (m.st.iIno inode) mid = some (.ok last) := by
    rintro ⟨mid', last', hdel', hadd'⟩
    rw [hdel] at hdel'
    obtain rfl := Except.ok.inj (Option.some.inj hdel')
    rw [hadd] at hadd'
    exact absurd hadd' (by simp)
  simp only [hnot, iff_false, Bool.not_eq_true]

end Ends

/-- A rename that fails has taken a link from the target of an exchange. -/
theorem kept_links (h : LinksRight m) (hexchange : exchange = true → new.inode ≠ none) {e : Errno}
    (hrun : NameCall.run bSize m.st (.rename env exchange oldDir newDir old inode new)
      = some (.error e, m.st.withDir
        (m.st.dir.dropLink? (if exchange then new.inode else none)))) :
    LinksRight (nameStep bSize m (.rename env exchange oldDir newDir old inode new)) ↔
      exchange = false := by
  rw [nameStep_error hrun]
  cases exchange with
  | false => exact iff_of_true h rfl
  | true =>
    refine iff_of_false (fun hright => ?_) (by simp)
    obtain ⟨target, htarget⟩ := Option.ne_none_iff_exists'.mp (hexchange rfl)
    have hat : (m.st.dir.dropLink? new.inode).iNlink target = m.space.links target :=
      congrFun hright target
    rw [htarget, show m.space.links = m.st.iNlink from h.symm] at hat
    simp only [DirState.dropLink?, DirState.dropLink, NameState.dir, Function.update_self] at hat
    bv_omega

theorem rename_links (h : LinksRight m)
    (hvalid : NameValid bSize m (.rename env exchange oldDir newDir old inode new)) :
    LinksRight (nameStep bSize m (.rename env exchange oldDir newDir old inode new)) ↔
      LinksKept bSize m (.rename env exchange oldDir newDir old inode new) := by
  obtain ⟨-, -, -, -, hexchange, htargets, -⟩ := hvalid
  rcases hren : dirRename env exchange bSize oldDir newDir old (m.st.iIno inode) new m.st.dir with
    _ | ⟨r, d⟩
  · have hrun : NameCall.run bSize m.st (.rename env exchange oldDir newDir old inode new) = none := by
      rw [NameCall.run, hren]
      rfl
    rw [nameStep, hrun]
    refine iff_of_true h fun r d hd => ?_
    rw [hren] at hd
    exact absurd hd (by simp)
  · have hrun : NameCall.run bSize m.st (.rename env exchange oldDir newDir old inode new)
        = some (r, m.st.withDir d) := by
      rw [NameCall.run, hren]
      rfl
    -- without a target the call is no exchange
    have hplain : new.inode = none → exchange = false := by
      intro hfree
      cases exchange with
      | false => rfl
      | true => exact absurd hfree (hexchange rfl)
    rw [renameKept_iff hren]
    cases dirRename_end hren with
    | kept e hdel =>
      rw [kept_links h hexchange hrun]
      exact ⟨fun hex => ⟨hex, fun herr => absurd herr (by simp)⟩, fun hex => hex.1⟩
    | replaced target mid htarget hdel =>
      obtain ⟨-, hold, hnew, hkind⟩ := htargets target htarget
      cases exchange with
      | true =>
        refine iff_of_false (exchanged_links h hdel hold hnew hrun) fun hex => ?_
        exact absurd hex.1 (by simp)
      | false =>
        rw [replaced_links h hdel htarget hnew hkind hrun]
        simp
    | added mid last hfree hdel hadd =>
      obtain rfl := hplain hfree
      rw [added_links h hdel hfree hadd hrun]
      simp
    | reverted mid last e hfree hdel hadd hback =>
      obtain rfl := hplain hfree
      rw [reverted_links h hdel hfree hadd hback hrun]
      simp
    | lost mid e e' hfree hdel hadd hback =>
      have hmid := mid_links h hdel
      rw [nameStep_error hrun]
      exact iff_of_true hmid ⟨hplain hfree, fun herr => absurd herr (by simp)⟩

end Renamed

/-- **One call.** -/
theorem call_links (h : LinksRight m) {c : NameCall} (hvalid : NameValid bSize m c) :
    LinksRight (nameStep bSize m c) ↔ LinksKept bSize m c := by
  cases c with
  | create memory read dir name mode => exact iff_of_true (create_links h hvalid) trivial
  | mkdir memory read dir name mode => exact mkdir_links h hvalid
  | unlink read dir name inode => exact iff_of_true (unlink_links h) trivial
  | rmdir read dir name inode => exact iff_of_true (rmdir_links h) trivial
  | rename env exchange oldDir newDir old inode new => exact rename_links h hvalid
  | alloc start len => exact iff_of_true h trivial

end Links

/-- **The link counts are right through a run exactly when every call of it meets `LinksKept`.** -/
theorem links_right_iff {bSize : Nat} {m : NameMachine} (h : LinksRight m) {calls : List NameCall}
    (hvalid : Along (nameStep bSize) (NameValid bSize) m calls) :
    (∀ t ∈ states (nameStep bSize) m calls, LinksRight t) ↔
      Along (nameStep bSize) (LinksKept bSize) m calls :=
  states_good_iff (fun _ hright => hright) (fun _ _ hright hv hk => (call_links hright hv).mpr hk)
    (fun _ _ hright hv hg => (call_links hright hv).mp hg) calls m h hvalid

/-- A file created and another removed leave them right, a directory does not. -/
theorem links_right_sampleMount :
    (∀ t ∈ states (nameStep 64) sampleMount
      [.create true true 0 [99] 0, .unlink true 0 [97] 1], LinksRight t) ∧
    ¬ ∀ t ∈ states (nameStep 64) sampleMount [.mkdir true false 0 [99] 0], LinksRight t := by
  obtain ⟨hvalid, -, hname⟩ := sampleMount_create
  have hfiles : Along (nameStep 64) (NameValid 64) sampleMount
      [.create true true 0 [99] 0, .unlink true 0 [97] 1] :=
    ⟨hvalid, ⟨hname, by decide⟩, trivial⟩
  have hdir : Along (nameStep 64) (NameValid 64) sampleMount [.mkdir true false 0 [99] 0] :=
    ⟨hvalid, trivial⟩
  have hstart : LinksRight sampleMount := rfl
  refine ⟨(links_right_iff hstart hfiles).mpr ⟨trivial, trivial, trivial⟩, ?_⟩
  rw [links_right_iff hstart hdir]
  rintro ⟨hkept, -⟩
  exact absurd (hkept _ _ rfl) (by decide)

end AetherFs
