/-
# Descriptors of a pool that fails to open

`aetherfs_image_open_pool` fills a local array `opened[8]` with descriptors and then moves them, one
by one, to the image.  Its `fail` label closes what the array holds and calls
`aetherfs_image_close`, which closes what the image holds -- as many members as
`image->member_count` says, and that is 0 until the very end.

This module models the calls that open and close a descriptor, and nothing of the contents: the
system's answers for a member are given (`MemberAnswer`), the array is uninitialised
(`start before junk`), and the trace keeps every `close` call.  `Tidy` is what a failed call should
leave: the descriptors of before, each opened descriptor closed once, nobody else's closed.

* A failure of the first loop is tidy (`tidy_of_first_loop`), unless it is the failure of `ioctl`,
  which closes the descriptor and leaves its number in the array, or a later slot of the array
  happens to hold the number of an open descriptor.
* A failure of the second loop never is (`Forgets.leaks`): the descriptors moved before it are in
  the image, which does not own them yet.
* `imageOpenPoolFd_outcome` ties the calls to `imageOpenPool`: with the answers of real files they
  succeed and fail alike.
-/
import AetherFs.Pool.Assemble

namespace AetherFs

open Lib

/-! ## 1. Open descriptors and `close` calls -/

/-- What the process has open, what the call has opened, and its `close` calls in order. -/
structure Fds where
  isOpen : Finset Nat
  opened : List Nat
  closes : List Nat

/-- How the system picks a descriptor, given how many the call has opened and what is open. -/
structure FdSource where
  next : Nat → Finset Nat → Nat
  fresh : ∀ k s, next k s ∉ s

namespace Fds

def openAs (s : Fds) (fd : Nat) : Fds :=
  { s with isOpen := insert fd s.isOpen, opened := s.opened ++ [fd] }

/-- `close(fd)`; of a descriptor that is not open it is refused, and changes nothing. -/
def close (s : Fds) (fd : Nat) : Fds :=
  { s with isOpen := s.isOpen.erase fd, closes := s.closes ++ [fd] }

def openAll (s : Fds) (l : List Nat) : Fds := l.foldl openAs s

theorem openAll_eq (s : Fds) (l : List Nat) :
    s.openAll l = { s with isOpen := s.isOpen ∪ l.toFinset, opened := s.opened ++ l } := by
  induction l generalizing s with
  | nil => simp [openAll]
  | cons fd l ih =>
    have h := ih (s.openAs fd)
    rw [openAll] at h
    rw [openAll, List.foldl_cons, h, openAs, List.toFinset_cons, Finset.insert_union,
      Finset.union_insert, List.append_assoc, List.singleton_append]

def closeAll (s : Fds) (l : List Nat) : Fds := l.foldl close s

theorem closeAll_eq (s : Fds) (l : List Nat) :
    s.closeAll l = { s with isOpen := s.isOpen \ l.toFinset, closes := s.closes ++ l } := by
  induction l generalizing s with
  | nil => simp [closeAll]
  | cons fd l ih =>
    have h := ih (s.close fd)
    rw [closeAll] at h
    rw [closeAll, List.foldl_cons, h, close, List.toFinset_cons, Finset.sdiff_insert, Finset.erase_sdiff_comm,
      List.append_assoc, List.singleton_append]

end Fds

/-- **What a failed call should leave behind.** -/
structure Tidy (before : Finset Nat) (s : Fds) : Prop where
  same : s.isOpen = before
  once : ∀ fd ∈ s.opened, s.closes.count fd = 1
  others : ∀ fd ∈ s.closes, fd ∉ before

/-! ## 2. The source functions -/

/-- The system's answers about one member: `open`, `fstat`, `ioctl(BLKGETSIZE64)`, and the result
of `aetherfs_member_read_pool_label`, which hands out validated labels only.  A path that is `NULL`
is an `open` that fails. -/
structure MemberAnswer where
  openPath : Except Fail Unit
  fstat : Except Errno FileKind
  ioctl : Except Errno Unit
  label : Except Fail (Option PoolLabel)
  valid : ∀ l, label = .ok (some l) → poolLabelValidate l = .ok ()

/-- The descriptors, the local array `opened[].fd`, and `image->members[].fd` with
`image->member_count`.  A negative `fd` is `none`. -/
structure PoolFds where
  fds : Fds
  slots : List (Option Nat)
  members : Nat → Option Nat
  memberCount : Nat

/-- The state at entry.  The array holds whatever was on the stack. -/
def start (before : Finset Nat) (junk : Fin maxDevices → Option Nat) : PoolFds where
  fds := ⟨before, [], []⟩
  slots := List.ofFn junk
  members := fun _ => none
  memberCount := 0

/-- `aetherfs_member_open_path`: the return code and `member->fd`.  The failure of `ioctl` comes
after `member->fd = fd` and closes `fd`. -/
def memberOpenPathFd (src : FdSource) (a : MemberAnswer) (s : Fds) :
    Except Fail Unit × Option Nat × Fds :=
  match a.openPath with
  | .error e => (.error e, none, s)
  | .ok _ =>
    let fd := src.next s.opened.length s.isOpen
    match a.fstat with
    | .error e => (.error (.sys e), none, (s.openAs fd).close fd)
    | .ok .other => (.error (.check .EINVAL), none, (s.openAs fd).close fd)
    | .ok .regular => (.ok (), some fd, s.openAs fd)
    | .ok .blockDevice =>
      match a.ioctl with
      | .error e => (.error (.sys e), some fd, (s.openAs fd).close fd)
      | .ok _ => (.ok (), some fd, s.openAs fd)

/-- One turn of the first loop of `aetherfs_image_open_pool`.  The `opened[index].fd = -1` before the
call is overwritten by it. -/
def openSlot (src : FdSource) (index : Nat) (a : MemberAnswer) : EStateM Fail PoolFds PoolLabel :=
  fun s =>
    let (rc, fd, fds) := memberOpenPathFd src a s.fds
    let s := { s with fds := fds, slots := s.slots.set index fd }
    match rc with
    | .error e => .error e s
    | .ok _ =>
      match a.label with
      | .error e => .error e s
      | .ok none => .error (.check .EINVAL) s
      | .ok (some label) => .ok label s

/-- The first loop, from `index` on. -/
def openSlots (src : FdSource) : Nat → List MemberAnswer → EStateM Fail PoolFds (List PoolLabel)
  | _, [] => pure []
  | index, a :: as => do
    let label ← openSlot src index a
    let labels ← openSlots src (index + 1) as
    pure (label :: labels)

/-- The move of one descriptor: `image->members[member_index] = opened[index]` and
`opened[index].fd = -1`. -/
def moveSlot (index memberIndex : Nat) (s : PoolFds) : PoolFds :=
  { s with
    members := Function.update s.members memberIndex (s.slots.getD index none)
    slots := s.slots.set index none }

/-- The second loop, from `index` on, over the labels that are left. -/
def seatSlots (base : PoolLabel) (count : Nat) : Nat → List PoolLabel → (Nat → Bool) →
    EStateM Fail PoolFds (Nat → Bool)
  | _, [], seen => pure seen
  | index, label :: labels, seen => do
    liftRead fun _ => failIf (¬ poolLabelsEquivalent base label) .EINVAL
    liftRead fun _ =>
      failIf (plMemberIndex label ≥ count ∨ seen (plMemberIndex label) = true) .EINVAL
    modify (moveSlot index (plMemberIndex label))
    seatSlots base count (index + 1) labels (Function.update seen (plMemberIndex label) true)

/-- One turn of the loop of `aetherfs_image_close`. -/
def closeMember (s : PoolFds) (index : Nat) : PoolFds :=
  match s.members index with
  | none => s
  | some fd => { s with fds := s.fds.close fd, members := Function.update s.members index none }

/-- `aetherfs_image_close`. -/
def imageCloseFd (s : PoolFds) : PoolFds := (List.range s.memberCount).foldl closeMember s

/-- The code at `fail`. -/
def failPool (count : Nat) (s : PoolFds) : PoolFds :=
  imageCloseFd { s with fds := s.fds.closeAll (s.slots.take count).reduceOption }

/-- `aetherfs_image_open` from the label on. -/
def imageLabelFd (a : MemberAnswer) : EStateM Fail PoolFds Unit := fun s =>
  match a.label with
  | .error e => .error e (imageCloseFd s)
  | .ok none => .ok () s
  | .ok (some label) =>
    if plMemberCount label ≠ 1 then .error (.check .EXDEV) (imageCloseFd s) else .ok () s

/-- `aetherfs_image_open`. -/
def imageOpenFd (src : FdSource) (a : MemberAnswer) : EStateM Fail PoolFds Unit := fun s =>
  let (rc, fd, fds) := memberOpenPathFd src a s.fds
  let s := { s with
    fds := fds
    members := Function.update (fun _ => some 0) 0 fd
    memberCount := 1 }
  match rc with
  | .error e => .error e s
  | .ok _ => imageLabelFd a s

/-- `aetherfs_image_open_pool` between the clearing of the image and `fail`. -/
def openPoolBody (src : FdSource) (answers : List MemberAnswer) : EStateM Fail PoolFds Unit := do
  let labels ← openSlots src 0 answers
  match labels with
  | [] => pure ()
  | base :: _ =>
    liftRead fun _ => failIf (plMemberCount base ≠ answers.length) .EINVAL
    let seen ← seatSlots base answers.length 0 labels (fun _ => false)
    liftRead fun _ => failIf (∃ i, i < answers.length ∧ seen i = false) .EINVAL
    modify fun s => { s with memberCount := answers.length }

/-- `aetherfs_image_open_pool`. -/
def imageOpenPoolFd (src : FdSource) (answers : List MemberAnswer) : EStateM Fail PoolFds Unit :=
  fun s =>
    if answers.length = 0 ∨ answers.length > maxDevices then .error (.check .EINVAL) s
    else
      match answers with
      | [a] => imageOpenFd src a s
      | _ =>
        match openPoolBody src answers { s with members := fun _ => some 0, memberCount := 0 } with
        | .ok u s' => .ok u s'
        | .error e s' => .error e (failPool answers.length s')

/-! ## 3. Where the first loop stops -/

/-- Where the opening of a member ends, when it fails: before there is a descriptor, at `fstat` or
the kind of the file, at `ioctl`, or at the label. -/
inductive Stage
  | path
  | kind
  | size
  | label
deriving DecidableEq, Repr

/-- What happens to a member in the first loop. -/
def MemberAnswer.fate (a : MemberAnswer) : Except (Stage × Fail) PoolLabel :=
  let labelled : Except (Stage × Fail) PoolLabel :=
    match a.label with
    | .error e => .error (.label, e)
    | .ok none => .error (.label, .check .EINVAL)
    | .ok (some label) => .ok label
  match a.openPath with
  | .error e => .error (.path, e)
  | .ok _ =>
    match a.fstat with
    | .error e => .error (.kind, .sys e)
    | .ok .other => .error (.kind, .check .EINVAL)
    | .ok .regular => labelled
    | .ok .blockDevice =>
      match a.ioctl with
      | .error e => .error (.size, .sys e)
      | .ok _ => labelled

/-- A member that gets through the first loop has a validated label. -/
theorem MemberAnswer.valid_of_fate {a : MemberAnswer} {label : PoolLabel}
    (h : a.fate = .ok label) : poolLabelValidate label = .ok () := by
  refine a.valid label ?_
  have hlabelled : ∀ r : Except Fail (Option PoolLabel), (match r with
      | .error e => .error (.label, e)
      | .ok none => .error (.label, .check .EINVAL)
      | .ok (some l) => .ok l : Except (Stage × Fail) PoolLabel) = .ok label →
        r = .ok (some label) := by
    intro r hr
    rcases r with e | _ | l
    · exact absurd hr (by simp)
    · exact absurd hr (by simp)
    · rw [Except.ok.inj hr]
  simp only [fate] at h
  split at h
  · exact absurd h (by simp)
  · split at h
    · exact absurd h (by simp)
    · exact absurd h (by simp)
    · exact hlabelled _ h
    · split at h
      · exact absurd h (by simp)
      · exact hlabelled _ h

/-- The index of the first member that fails in the first loop, and where it fails. -/
def firstFailure : List MemberAnswer → Option (Nat × Stage)
  | [] => none
  | a :: as =>
    match a.fate with
    | .error (stage, _) => some (0, stage)
    | .ok _ => (firstFailure as).map fun p => (p.1 + 1, p.2)

/-- The slot and the descriptors a failing turn leaves; `fd` is the descriptor it was given. -/
def Stage.leave (stage : Stage) (fd : Nat) (s : Fds) : Option Nat × Fds :=
  match stage with
  | .path => (none, s)
  | .kind => (none, (s.openAs fd).close fd)
  | .size => (some fd, (s.openAs fd).close fd)
  | .label => (some fd, s.openAs fd)

/-- **One turn**, by the member's fate. -/
theorem openSlot_eq (src : FdSource) (index : Nat) (a : MemberAnswer) (s : PoolFds) :
    openSlot src index a s =
      let fd := src.next s.fds.opened.length s.fds.isOpen
      match a.fate with
      | .ok label =>
        .ok label { s with fds := s.fds.openAs fd, slots := s.slots.set index (some fd) }
      | .error (stage, e) =>
        .error e { s with
          fds := (stage.leave fd s.fds).2
          slots := s.slots.set index (stage.leave fd s.fds).1 } := by
  simp only [openSlot, memberOpenPathFd, MemberAnswer.fate]
  cases a.openPath with
  | error e => rfl
  | ok _ =>
    cases a.fstat with
    | error e => rfl
    | ok kind =>
      cases kind with
      | other => rfl
      | regular =>
        rcases a.label with e | _ | label <;> rfl
      | blockDevice =>
        cases a.ioctl with
        | error e => rfl
        | ok _ =>
          rcases a.label with e | _ | label <;> rfl

/-! ## 4. The first loop -/

section FirstLoop

variable (src : FdSource)

theorem set_length_append (done rest : List (Option Nat)) (r x : Option Nat) :
    (done ++ r :: rest).set done.length x = (done ++ [x]) ++ rest := by
  rw [List.set_append_right _ _ (Nat.le_refl _), Nat.sub_self, List.set_cons_zero,
    List.append_assoc, List.singleton_append]

/-- The state after a turn that succeeds. -/
def PoolFds.filled (s : PoolFds) (fd : Nat) (slots : List (Option Nat)) : PoolFds :=
  { s with fds := s.fds.openAs fd, slots := slots }

theorem openSlot_ok {a : MemberAnswer} {label : PoolLabel} (hfate : a.fate = .ok label)
    {s : PoolFds} {done rest : List (Option Nat)} {r : Option Nat}
    (hslots : s.slots = done ++ r :: rest) :
    ∃ fd, fd ∉ s.fds.isOpen ∧
      openSlot src done.length a s = .ok label (s.filled fd ((done ++ [some fd]) ++ rest)) := by
  refine ⟨src.next s.fds.opened.length s.fds.isOpen, src.fresh _ _, ?_⟩
  rw [openSlot_eq, hfate, hslots]
  simp only [set_length_append]
  rfl

theorem fresh_filled {s : PoolFds} {fd x : Nat} {slots : List (Option Nat)}
    (h : x ∉ (s.filled fd slots).fds.isOpen) : x ∉ s.fds.isOpen ∧ x ≠ fd := by
  simp only [PoolFds.filled, Fds.openAs, Finset.mem_insert, not_or] at h
  exact ⟨h.2, h.1⟩

theorem exists_slot {as : List MemberAnswer} {a : MemberAnswer} {rest : List (Option Nat)}
    (h : (a :: as).length ≤ rest.length) : ∃ r rest', rest = r :: rest' ∧ as.length ≤ rest'.length := by
  cases rest with
  | nil => exact absurd h (by simp)
  | cons r rest' => exact ⟨r, rest', rfl, Nat.le_of_succ_le_succ h⟩

/-- A loop in which nothing fails opens one fresh descriptor for each member. -/
theorem openSlots_ok {as : List MemberAnswer} {s : PoolFds} (done rest : List (Option Nat))
    (hslots : s.slots = done ++ rest) (hrest : as.length ≤ rest.length)
    (hall : firstFailure as = none) :
    ∃ l labels, l.length = as.length ∧ l.Nodup ∧ (∀ fd ∈ l, fd ∉ s.fds.isOpen) ∧
      List.Forall₂ (fun a label => MemberAnswer.fate a = .ok label) as labels ∧
      openSlots src done.length as s = .ok labels { s with
        fds := s.fds.openAll l
        slots := done ++ l.map some ++ rest.drop l.length } := by
  induction as generalizing s done rest with
  | nil =>
    refine ⟨[], [], rfl, List.nodup_nil, fun fd h => absurd h List.not_mem_nil, .nil, ?_⟩
    simp only [List.map_nil, List.append_nil, List.length_nil, List.drop_zero, ← hslots]
    rfl
  | cons a as ih =>
    obtain ⟨r, rest, rfl, hlater⟩ := exists_slot hrest
    cases hfate : a.fate with
    | error p =>
      rw [firstFailure, hfate] at hall
      exact absurd hall (by simp)
    | ok label =>
      rw [firstFailure, hfate] at hall
      obtain ⟨fd, hfd, hturn⟩ := openSlot_ok src hfate hslots
      obtain ⟨l, labels, hlen, hnodup, hfresh, hfates, hloop⟩ :=
        ih (s := s.filled fd ((done ++ [some fd]) ++ rest)) _ _ rfl hlater
          (Option.map_eq_none_iff.mp hall)
      refine ⟨fd :: l, label :: labels, by rw [List.length_cons, List.length_cons, hlen],
        List.nodup_cons.mpr ⟨fun hx => (fresh_filled (hfresh fd hx)).2 rfl, hnodup⟩,
        List.forall_mem_cons.mpr ⟨hfd, fun x hx => (fresh_filled (hfresh x hx)).1⟩,
        .cons hfate hfates, ?_⟩
      rw [openSlots, estate_bind_ok]
      refine ⟨label, _, hturn, estate_bind_ok.mpr ⟨labels, _, ?_, rfl⟩⟩
      rw [List.length_append, List.length_singleton] at hloop
      rw [hloop]
      simp only [PoolFds.filled, Fds.openAll, List.foldl_cons, List.map_cons, List.length_cons,
        List.drop_succ_cons, List.append_assoc, List.cons_append, List.nil_append]

/-- A loop that stops: fresh descriptors for the members before, and what the failing turn leaves
for its own; the slots behind it are as they were. -/
theorem openSlots_error {as : List MemberAnswer} {s : PoolFds} (done rest : List (Option Nat))
    (hslots : s.slots = done ++ rest) (hrest : as.length ≤ rest.length) {i : Nat} {stage : Stage}
    (hstop : firstFailure as = some (i, stage)) :
    ∃ l fd e, l.length = i ∧ i < as.length ∧ (fd :: l).Nodup ∧ (∀ x ∈ fd :: l, x ∉ s.fds.isOpen) ∧
      openSlots src done.length as s = .error e { s with
        fds := (stage.leave fd (s.fds.openAll l)).2
        slots := done ++ l.map some ++
          (stage.leave fd (s.fds.openAll l)).1 :: rest.drop (i + 1) } := by
  induction as generalizing s done rest i with
  | nil => exact absurd hstop (by simp [firstFailure])
  | cons a as ih =>
    obtain ⟨r, rest, rfl, hlater⟩ := exists_slot hrest
    cases hfate : a.fate with
    | error p =>
      obtain ⟨stage', e⟩ := p
      rw [firstFailure, hfate] at hstop
      obtain ⟨rfl, rfl⟩ := Prod.mk.inj (Option.some.inj hstop)
      refine ⟨[], src.next s.fds.opened.length s.fds.isOpen, e, rfl, Nat.succ_pos _,
        List.nodup_singleton _, List.forall_mem_cons.mpr
          ⟨src.fresh _ _, fun x h => absurd h List.not_mem_nil⟩, ?_⟩
      rw [openSlots, estate_bind_error]
      refine Or.inl ?_
      rw [openSlot_eq, hfate, hslots]
      simp only [set_length_append, Fds.openAll, List.foldl_nil, List.map_nil, List.append_nil,
        List.drop_succ_cons, List.drop_zero, List.append_assoc, List.singleton_append]
    | ok label =>
      rw [firstFailure, hfate] at hstop
      obtain ⟨⟨i, stage⟩, hnext, heq⟩ := Option.map_eq_some_iff.mp hstop
      obtain ⟨rfl, rfl⟩ := Prod.mk.inj heq
      obtain ⟨fd, hfd, hturn⟩ := openSlot_ok src hfate hslots
      obtain ⟨l, fd', e, hlen, hlt, hnodup, hfresh, hloop⟩ :=
        ih (s := s.filled fd ((done ++ [some fd]) ++ rest)) _ _ rfl hlater hnext
      have hperm : (fd' :: fd :: l).Perm (fd :: fd' :: l) := List.Perm.swap _ _ _
      refine ⟨fd :: l, fd', e, by rw [List.length_cons, hlen], Nat.succ_lt_succ hlt,
        hperm.nodup_iff.mpr (List.nodup_cons.mpr
          ⟨fun hx => (fresh_filled (hfresh fd hx)).2 rfl, hnodup⟩), fun x hx => ?_, ?_⟩
      · rcases List.mem_cons.mp (hperm.mem_iff.mp hx) with rfl | hx
        · exact hfd
        · exact (fresh_filled (hfresh x hx)).1
      · rw [openSlots, estate_bind_error]
        refine Or.inr ⟨label, _, hturn, estate_bind_error.mpr (Or.inl ?_)⟩
        rw [List.length_append, List.length_singleton] at hloop
        rw [hloop]
        simp only [PoolFds.filled, Fds.openAll, List.foldl_cons, List.map_cons,
          List.drop_succ_cons, List.append_assoc, List.cons_append, List.nil_append]

end FirstLoop

/-! ## 5. The code at `fail` -/

/-- While the image owns no member, `fail` closes what the array holds. -/
theorem failPool_eq {s : PoolFds} (h : s.memberCount = 0) (count : Nat) :
    failPool count s = { s with fds := s.fds.closeAll (s.slots.take count).reduceOption } := by
  rw [failPool, imageCloseFd]
  simp only [h]
  rfl

/-- **Closing one's own, and something more.**  If the `close` calls name the opened descriptors
once each and `extra` besides, the call is tidy exactly when nothing in `extra` was open. -/
theorem tidy_iff {before : Finset Nat} {s : Fds} (extra : List Nat) (hnodup : s.opened.Nodup)
    (hfresh : ∀ fd ∈ s.opened, fd ∉ before) (hcloses : s.closes.Perm (s.opened ++ extra))
    (hopen : s.isOpen = (before ∪ s.opened.toFinset) \ s.closes.toFinset) :
    Tidy before s ↔ ∀ fd ∈ extra, fd ∉ before ∧ fd ∉ s.opened := by
  have hcount : ∀ fd ∈ s.opened, s.closes.count fd = 1 + extra.count fd := by
    intro fd hfd
    rw [hcloses.count_eq, List.count_append, List.count_eq_one_of_mem hnodup hfd]
  have hmem : ∀ fd, fd ∈ s.closes ↔ fd ∈ s.opened ∨ fd ∈ extra := by
    intro fd
    rw [hcloses.mem_iff, List.mem_append]
  constructor
  · intro h fd hfd
    refine ⟨h.others fd ((hmem fd).mpr (Or.inr hfd)), fun hown => ?_⟩
    have hone := h.once fd hown
    rw [hcount fd hown] at hone
    exact List.count_eq_zero.mp (Nat.add_left_cancel (hone.trans (Nat.add_zero 1).symm)) hfd
  · intro h
    refine ⟨?_, fun fd hown => ?_, fun fd hfd => ?_⟩
    · rw [hopen]
      ext fd
      simp only [Finset.mem_sdiff, Finset.mem_union, List.mem_toFinset, hmem]
      constructor
      · rintro ⟨hb | hown, hnot⟩
        · exact hb
        · exact absurd (Or.inl hown) hnot
      · intro hb
        refine ⟨Or.inl hb, ?_⟩
        rintro (hown | hextra)
        · exact hfresh fd hown hb
        · exact (h fd hextra).1 hb
    · rw [hcount fd hown, List.count_eq_zero.mpr fun hextra => (h fd hextra).2 hown]
    · rcases (hmem fd).mp hfd with hown | hextra
      · exact hfresh fd hown
      · exact (h fd hextra).1

theorem tidy_closeAll {before : Finset Nat} {l : List Nat} (hnodup : l.Nodup)
    (hfresh : ∀ fd ∈ l, fd ∉ before) :
    Tidy before ((Fds.openAll ⟨before, [], []⟩ l).closeAll l) := by
  rw [Fds.openAll_eq, Fds.closeAll_eq]
  refine (tidy_iff [] hnodup hfresh ?_ rfl).mpr fun fd h => absurd h List.not_mem_nil
  rw [List.append_nil]

/-- **A failure of the first loop.**  `l` are the descriptors opened before it, `fd` the one the
failing turn was given, `extra` what the slots behind it happen to hold. -/
theorem tidy_first_loop {before : Finset Nat} {l extra : List Nat} {fd : Nat} {stage : Stage}
    (hnodup : (fd :: l).Nodup) (hfresh : ∀ x ∈ fd :: l, x ∉ before) :
    let left := stage.leave fd (Fds.openAll ⟨before, [], []⟩ l)
    let s := left.2.closeAll (l ++ (left.1.toList ++ extra))
    Tidy before s ↔ stage ≠ .size ∧ ∀ x ∈ extra, x ∉ before ∧ x ∉ s.opened := by
  obtain ⟨hfd, hl⟩ := List.nodup_cons.mp hnodup
  obtain ⟨hfdb, hlb⟩ := List.forall_mem_cons.mp hfresh
  have happend : (l ++ [fd]).Nodup := List.nodup_append_comm.mp hnodup
  have hfreshAppend : ∀ x ∈ l ++ [fd], x ∉ before := by
    intro x hx
    rcases List.mem_append.mp hx with hx | hx
    · exact hlb x hx
    · rw [List.mem_singleton.mp hx]
      exact hfdb
  intro left s
  cases stage with
  | path =>
    have hs : s = ⟨(before ∪ l.toFinset) \ (l ++ extra).toFinset, l, l ++ extra⟩ := by
      simp only [s, left, Stage.leave, Fds.openAll_eq, Fds.closeAll_eq, Option.toList_none,
        List.nil_append]
    rw [hs, and_iff_right (by decide)]
    exact tidy_iff extra hl hlb (List.Perm.refl _) rfl
  | kind =>
    have hs : s = ⟨(before ∪ (l ++ [fd]).toFinset) \ (fd :: (l ++ extra)).toFinset, l ++ [fd],
        fd :: (l ++ extra)⟩ := by
      simp only [s, left, Stage.leave, Fds.openAll_eq, Fds.closeAll_eq, Fds.openAs, Fds.close,
        Option.toList_none, List.nil_append, List.singleton_append, Fds.mk.injEq, and_true]
      ext x
      simp only [Finset.mem_sdiff, Finset.mem_erase, Finset.mem_insert, Finset.mem_union,
        List.mem_toFinset, List.mem_append, List.mem_cons, List.not_mem_nil]
      tauto
    rw [hs, and_iff_right (by decide)]
    refine tidy_iff extra happend hfreshAppend ?_ rfl
    have hperm : (fd :: (l ++ extra)).Perm (l ++ fd :: extra) := List.perm_middle.symm
    simpa only [List.append_assoc, List.singleton_append] using hperm
  | label =>
    have hs : s = ⟨(before ∪ (l ++ [fd]).toFinset) \ ((l ++ [fd]) ++ extra).toFinset, l ++ [fd],
        (l ++ [fd]) ++ extra⟩ := by
      simp only [s, left, Stage.leave, Fds.openAll_eq, Fds.closeAll_eq, Fds.openAs,
        Option.toList_some, List.nil_append, List.singleton_append, List.append_assoc,
        Fds.mk.injEq, and_true]
      ext x
      simp only [Finset.mem_sdiff, Finset.mem_insert, Finset.mem_union, List.mem_toFinset,
        List.mem_append, List.mem_cons, List.not_mem_nil]
      tauto
    rw [hs, and_iff_right (by decide)]
    exact tidy_iff extra happend hfreshAppend (List.Perm.refl _) rfl
  | size =>
    -- the descriptor is closed by the failing turn, and its number is still in the array
    refine iff_of_false (fun h => ?_) fun h => h.1 rfl
    have hopened : fd ∈ s.opened := by
      simp [s, left, Stage.leave, Fds.openAll_eq, Fds.closeAll_eq, Fds.openAs, Fds.close]
    have hcloses : s.closes = fd :: (l ++ fd :: extra) := by
      simp only [s, left, Stage.leave, Fds.openAll_eq, Fds.closeAll_eq, Fds.openAs, Fds.close,
        Option.toList_some, List.nil_append, List.singleton_append]
    have hone := h.once fd hopened
    rw [hcloses, List.count_cons_self, List.count_append, List.count_cons_self] at hone
    omega

/-! ## 6. The second loop -/

/-- `t` differs from `s` in what the image holds and in numbers taken out of the array. -/
structure Forgets (count : Nat) (s t : PoolFds) : Prop where
  fds : t.fds = s.fds
  memberCount : t.memberCount = s.memberCount
  slots : ∀ fd, some fd ∈ t.slots.take count → some fd ∈ s.slots.take count

theorem Forgets.refl (count : Nat) (s : PoolFds) : Forgets count s s := ⟨rfl, rfl, fun _ h => h⟩

theorem Forgets.check {α : Type} {count : Nat} {s : PoolFds} (x : Except Fail Unit)
    {f : Unit → EStateM Fail PoolFds α} (h : Forgets count s (finalState (f () s))) :
    Forgets count s (finalState (((liftRead fun _ => x) >>= f) s)) := by
  cases x with
  | ok u => exact h
  | error e => exact .refl count s

/-- The second loop opens and closes nothing, and only takes numbers out of the array. -/
theorem seatSlots_forgets (base : PoolLabel) (count : Nat) (labels : List PoolLabel) (index : Nat)
    (seen : Nat → Bool) (s : PoolFds) :
    Forgets count s (finalState (seatSlots base count index labels seen s)) := by
  induction labels generalizing index seen s with
  | nil => exact .refl count s
  | cons label labels ih =>
    refine .check _ (.check _ ?_)
    have hrest := ih (index + 1) (Function.update seen (plMemberIndex label) true)
      (moveSlot index (plMemberIndex label) s)
    refine ⟨hrest.fds, hrest.memberCount, fun fd hfd => ?_⟩
    have hset := hrest.slots fd hfd
    simp only [moveSlot, List.take_set] at hset
    rcases List.mem_or_eq_of_mem_set hset with hold | hnone
    · exact hold
    · exact absurd hnone (by simp)

/-- The first turn never fails: a label is like itself, and its own index is in range. -/
theorem seatSlots_first {base : PoolLabel} {count : Nat} (hvalid : poolLabelValidate base = .ok ())
    (hcount : plMemberCount base = count) (labels : List PoolLabel) (s : PoolFds) :
    seatSlots base count 0 (base :: labels) (fun _ => false) s =
      seatSlots base count 1 labels (Function.update (fun _ => false) (plMemberIndex base) true)
        (moveSlot 0 (plMemberIndex base) s) := by
  have hindex : plMemberIndex base < count := by
    simp only [poolLabelValidate, failIf_bind_ok] at hvalid
    rw [← hcount]
    exact Nat.not_le.mp hvalid.2.2.2.2.1
  have h1 : failIf (¬ poolLabelsEquivalent base base) .EINVAL = .ok () :=
    failIf_of_not (not_not.mpr rfl)
  have h2 : failIf (plMemberIndex base ≥ count ∨ (fun _ => false : Nat → Bool)
      (plMemberIndex base) = true) .EINVAL = .ok () :=
    failIf_of_not (by simp [hindex])
  rw [seatSlots]
  simp only [h1, h2]
  rfl

/-- **What has been moved is lost.**  Once the descriptor of the first member has been moved, `fail`
does not reach it: the array has forgotten it, and the image does not own it yet. -/
theorem Forgets.leaks {count fd memberIndex : Nat} {s t : PoolFds} (rest : List (Option Nat))
    (h : Forgets count (moveSlot 0 memberIndex s) t) (hslots : s.slots = some fd :: rest)
    (hnot : some fd ∉ rest.take (count - 1)) (hopen : fd ∈ s.fds.isOpen)
    (hzero : s.memberCount = 0) : fd ∈ (failPool count t).fds.isOpen := by
  rw [failPool_eq (h.memberCount.trans hzero), Fds.closeAll_eq, h.fds]
  refine Finset.mem_sdiff.mpr ⟨hopen, fun hclosed => ?_⟩
  have hin := h.slots fd (List.reduceOption_mem_iff.mp (List.mem_toFinset.mp hclosed))
  simp only [moveSlot, hslots, List.set_cons_zero] at hin
  cases count with
  | zero => exact absurd hin (by simp)
  | succ count =>
    rw [List.take_succ_cons, List.mem_cons] at hin
    rcases hin with hnone | hin
    · exact absurd hnone (by simp)
    · exact hnot hin

/-- A failure of the second loop, or of the check behind it, comes after the first move. -/
theorem forgets_of_second_phase {base : PoolLabel} {count : Nat} {labels : List PoolLabel}
    {s t : PoolFds} {e : Fail} (hvalid : poolLabelValidate base = .ok ())
    (hcount : plMemberCount base = count)
    (h : (seatSlots base count 0 (base :: labels) (fun _ => false) >>= fun seen => do
      liftRead fun _ => failIf (∃ i, i < count ∧ seen i = false) .EINVAL
      modify fun s => { s with memberCount := count }) s = .error e t) :
    Forgets count (moveSlot 0 (plMemberIndex base) s) t := by
  have hloop := seatSlots_forgets base count labels 1
    (Function.update (fun _ => false) (plMemberIndex base) true)
    (moveSlot 0 (plMemberIndex base) s)
  rw [← seatSlots_first hvalid hcount] at hloop
  rcases estate_bind_error.mp h with h | ⟨seen, s', hok, h⟩
  · rw [h] at hloop
    exact hloop
  · rw [hok] at hloop
    rcases estate_bind_error.mp h with h | ⟨_, s'', hcheck, h⟩
    · rw [(liftRead_error.mp h).2]
      exact hloop
    · exact absurd h (by simp [modify, modifyGet, MonadStateOf.modifyGet, EStateM.modifyGet])

/-! ## 7. The whole call -/

/-- The failures that leave things as they were, for two to eight members.  In the first loop: not
at `ioctl`, and no slot behind the failing one holds the number of a descriptor that was open or
that the call opened.  After it: the comparison of the member counts. -/
def CleanFailure (answers : List MemberAnswer) (junk : Fin maxDevices → Option Nat)
    (before : Finset Nat) (opened : List Nat) : Prop :=
  match firstFailure answers with
  | some (i, stage) => stage ≠ .size ∧ ∀ j : Fin maxDevices, i < j.val → j.val < answers.length →
      ∀ fd, junk j = some fd → fd ∉ before ∧ fd ∉ opened
  | none => ∀ a label, answers.head? = some a → a.fate = .ok label →
      plMemberCount label ≠ answers.length

section Call

variable {src : FdSource} {answers : List MemberAnswer} {before : Finset Nat}
  {junk : Fin maxDevices → Option Nat} {e : Fail}

theorem mem_behind {i n fd : Nat} :
    fd ∈ (((List.ofFn junk).take n).drop (i + 1)).reduceOption ↔
      ∃ j : Fin maxDevices, i < j.val ∧ j.val < n ∧ junk j = some fd := by
  rw [List.reduceOption_mem_iff, List.mem_iff_getElem]
  constructor
  · rintro ⟨k, hk, hval⟩
    rw [List.length_drop, List.length_take, List.length_ofFn] at hk
    rw [List.getElem_drop, List.getElem_take, List.getElem_ofFn] at hval
    exact ⟨⟨i + 1 + k, by omega⟩, by simp only; omega, by simp only; omega, hval⟩
  · rintro ⟨⟨j, hj⟩, hij, hjn, hval⟩
    simp only at hij hjn
    refine ⟨j - (i + 1), ?_, ?_⟩
    · rw [List.length_drop, List.length_take, List.length_ofFn]
      omega
    · rw [List.getElem_drop, List.getElem_take, List.getElem_ofFn]
      simp only [Nat.add_sub_of_le hij, hval]

/-- The state the loops start from. -/
def cleared (before : Finset Nat) (junk : Fin maxDevices → Option Nat) : PoolFds :=
  { start before junk with members := fun _ => some 0, memberCount := 0 }

theorem reduceOption_map_some (l : List Nat) : (l.map some).reduceOption = l := by
  rw [List.reduceOption, List.filterMap_map]
  exact List.filterMap_some

/-- What `fail` finds in the array after a failure at index `l.length`. -/
theorem reduceOption_slots {l : List Nat} {n : Nat} (hn : l.length < n) (x : Option Nat)
    (rest : List (Option Nat)) :
    ((l.map some ++ x :: rest.drop (l.length + 1)).take n).reduceOption =
      l ++ (x.toList ++ ((rest.take n).drop (l.length + 1)).reduceOption) := by
  have hcons : ∀ m : List (Option Nat), (x :: m).reduceOption = x.toList ++ m.reduceOption := by
    intro m
    cases x with
    | none => rw [List.reduceOption_cons_of_none, Option.toList_none, List.nil_append]
    | some y => rw [List.reduceOption_cons_of_some, Option.toList_some, List.singleton_append]
  obtain ⟨k, rfl⟩ : ∃ k, n = l.length + (k + 1) := ⟨n - l.length - 1, by omega⟩
  rw [List.take_append, List.length_map, Nat.add_sub_cancel_left, List.take_succ_cons,
    List.take_of_length_le (by rw [List.length_map]; omega), List.reduceOption_append,
    reduceOption_map_some, hcons, List.drop_take,
    show l.length + (k + 1) - (l.length + 1) = k by omega]

/-- **A failure of the first loop**, and what `fail` makes of it. -/
theorem tidy_of_first_loop (hn : answers.length ≤ maxDevices) {i : Nat} {stage : Stage}
    (hstop : firstFailure answers = some (i, stage)) {t : PoolFds}
    (hbody : openPoolBody src answers (cleared before junk) = .error e t) :
    Tidy before (failPool answers.length t).fds ↔
      CleanFailure answers junk before (failPool answers.length t).fds.opened := by
  obtain ⟨l, fd, e', rfl, hlt, hnodup, hfresh, hloop⟩ := openSlots_error src
    (s := cleared before junk) [] (List.ofFn junk) rfl (by rwa [List.length_ofFn]) hstop
  have ht : openSlots src 0 answers (cleared before junk) = .error e t := by
    rw [openPoolBody, estate_bind_error] at hbody
    rcases hbody with hbody | ⟨labels, s1, hok, -⟩
    · exact hbody
    · exact absurd (hok.symm.trans hloop) (by simp)
  obtain ⟨-, rfl⟩ := EStateM.Result.error.inj (hloop.symm.trans ht)
  rw [failPool_eq rfl, List.nil_append, reduceOption_slots hlt, CleanFailure, hstop]
  refine (tidy_first_loop hnodup hfresh).trans (and_congr_right fun _ => ?_)
  constructor
  · intro h j hij hjn fd' hval
    exact h fd' (mem_behind.mpr ⟨j, hij, hjn, hval⟩)
  · intro h fd' hmem
    obtain ⟨j, hij, hjn, hval⟩ := mem_behind.mp hmem
    exact h j hij hjn fd' hval

/-- **A failure behind the first loop.**  The comparison of the counts comes before any descriptor
is moved; every other failure comes after. -/
theorem tidy_of_later (h2 : 2 ≤ answers.length) (hn : answers.length ≤ maxDevices)
    (hall : firstFailure answers = none) {t : PoolFds}
    (hbody : openPoolBody src answers (cleared before junk) = .error e t) :
    Tidy before (failPool answers.length t).fds ↔
      CleanFailure answers junk before (failPool answers.length t).fds.opened := by
  obtain ⟨l, labels, hlen, hnodup, hfresh, hfates, hloop⟩ := openSlots_ok src
    (s := cleared before junk) [] (List.ofFn junk) rfl (by rwa [List.length_ofFn]) hall
  rw [CleanFailure, hall]
  cases hfates with
  | nil => exact absurd h2 (by simp)
  | @cons a base as labels hbase hlater =>
    obtain ⟨fd, l, rfl⟩ : ∃ fd l', l = fd :: l' :=
      List.exists_cons_of_length_eq_add_one hlen
    rw [openPoolBody, estate_bind_error] at hbody
    rcases hbody with hbody | ⟨labels', s1, hok, hbody⟩
    · exact absurd (hbody.symm.trans hloop) (by simp)
    obtain ⟨rfl, rfl⟩ := EStateM.Result.ok.inj (hloop.symm.trans hok)
    simp only [] at hbody
    rw [estate_bind_error] at hbody
    rcases hbody with hcount | ⟨_, s2, hcount, hbody⟩
    · -- nothing has been moved: `fail` closes the whole array
      obtain ⟨hne, rfl⟩ := liftRead_error.mp hcount
      have hne : plMemberCount base ≠ (a :: as).length := by
        intro heq
        rw [failIf_of_not (not_not.mpr heq)] at hne
        exact absurd hne (by simp)
      refine iff_of_true ?_ fun a' label ha hlabel => ?_
      · rw [failPool_eq rfl, List.nil_append, ← hlen, ← List.length_map some, List.take_left,
          reduceOption_map_some]
        exact tidy_closeAll hnodup hfresh
      · obtain rfl := Option.some.inj ha
        obtain rfl := Except.ok.inj (hbase.symm.trans hlabel)
        exact hne
    · -- the first descriptor has been moved when the call fails
      obtain ⟨heq, rfl⟩ := liftRead_ok.mp hcount
      have heq : plMemberCount base = (a :: as).length := not_not.mp (failIf_eq_ok.mp heq)
      refine iff_of_false (fun htidy => ?_) fun h => h a base rfl hbase heq
      have hmoved := forgets_of_second_phase (MemberAnswer.valid_of_fate hbase) heq hbody
      have hnot : some fd ∉ (l.map some ++ (List.ofFn junk).drop (fd :: l).length).take
          ((a :: as).length - 1) := by
        rw [← hlen, List.length_cons, Nat.add_sub_cancel,
          List.take_left' (List.length_map some)]
        intro hmem
        obtain ⟨x, hx, heq⟩ := List.mem_map.mp hmem
        rw [Option.some.inj heq] at hx
        exact (List.nodup_cons.mp hnodup).1 hx
      have hopen : fd ∈ ((cleared before junk).fds.openAll (fd :: l)).isOpen := by
        rw [Fds.openAll_eq]
        exact Finset.mem_union_right _ (List.mem_toFinset.mpr List.mem_cons_self)
      have hleak := Forgets.leaks _ hmoved rfl hnot hopen rfl
      rw [htidy.same] at hleak
      exact hfresh fd List.mem_cons_self hleak

/-- The descriptor of the one member is closed on every failure at its label. -/
theorem imageLabelFd_tidy {a : MemberAnswer} {fd : Nat} (hfd : fd ∉ before) {s s' : PoolFds}
    (hfds : s.fds = Fds.openAs ⟨before, [], []⟩ fd) (hcount : s.memberCount = 1)
    (hmember : s.members 0 = some fd) (h : imageLabelFd a s = .error e s') :
    Tidy before s'.fds := by
  have hclosed : Tidy before (imageCloseFd s).fds := by
    rw [imageCloseFd, hcount, List.range_one, List.foldl_cons, List.foldl_nil, closeMember, hmember]
    simp only [hfds]
    exact tidy_closeAll (List.nodup_singleton fd)
      (List.forall_mem_cons.mpr ⟨hfd, fun _ h => absurd h List.not_mem_nil⟩)
  unfold imageLabelFd at h
  split at h
  · obtain ⟨-, rfl⟩ := EStateM.Result.error.inj h
    exact hclosed
  · exact absurd h (by simp)
  · split at h
    · obtain ⟨-, rfl⟩ := EStateM.Result.error.inj h
      exact hclosed
    · exact absurd h (by simp)

/-- One member: every failure is tidy.  `aetherfs_image_open` returns at once when
`aetherfs_member_open_path` fails, and otherwise the image owns its one descriptor. -/
theorem imageOpenFd_tidy {a : MemberAnswer} {s' : PoolFds}
    (h : imageOpenFd src a (start before junk) = .error e s') : Tidy before s'.fds := by
  have hfd := src.fresh 0 before
  have hclosed : Tidy before
      ((Fds.openAs ⟨before, [], []⟩ (src.next 0 before)).close (src.next 0 before)) :=
    tidy_closeAll (List.nodup_singleton _)
      (List.forall_mem_cons.mpr ⟨hfd, fun _ h => absurd h List.not_mem_nil⟩)
  simp only [imageOpenFd, memberOpenPathFd] at h
  cases hpath : a.openPath with
  | error e' =>
    simp only [hpath] at h
    obtain ⟨-, rfl⟩ := EStateM.Result.error.inj h
    exact tidy_closeAll List.nodup_nil fun _ h => absurd h List.not_mem_nil
  | ok _ =>
    simp only [hpath] at h
    rcases hstat : a.fstat with e' | kind
    · simp only [hstat] at h
      obtain ⟨-, rfl⟩ := EStateM.Result.error.inj h
      exact hclosed
    · cases kind with
      | other =>
        simp only [hstat] at h
        obtain ⟨-, rfl⟩ := EStateM.Result.error.inj h
        exact hclosed
      | regular =>
        simp only [hstat] at h
        exact imageLabelFd_tidy hfd rfl rfl rfl h
      | blockDevice =>
        cases hsize : a.ioctl with
        | error e' =>
          simp only [hstat, hsize] at h
          obtain ⟨-, rfl⟩ := EStateM.Result.error.inj h
          exact hclosed
        | ok _ =>
          simp only [hstat, hsize] at h
          exact imageLabelFd_tidy hfd rfl rfl rfl h

end Call

/-! ## 8. The calls and the assembly

With the answers of files that can be opened, the calls return what `imageOpenPool` returns. -/

/-- The answers about a file that exists. -/
def answerOf (f : ByteFile) : MemberAnswer where
  openPath := .ok ()
  fstat := .ok f.kind
  ioctl := .ok ()
  label := memberReadPoolLabel (fileMember f)
  valid := by
    intro l h
    obtain ⟨-, ⟨-, h⟩ | ⟨-, hvalid, h⟩⟩ := memberReadPoolLabel_file.mp h
    · exact absurd h (by simp)
    · rwa [Option.some.inj h]

/-- The first loop of the calls is the first loop of the assembly. -/
theorem outcome_openSlot (src : FdSource) (index : Nat) (f : ByteFile) (s : PoolFds) :
    outcome (openSlot src index (answerOf f) s) = (openLabelled f).map Prod.snd := by
  rw [openLabelled, memberOpenPath, openSlot]
  cases hkind : f.kind with
  | other =>
    rw [failIf_of rfl]
    simp only [memberOpenPathFd, answerOf, hkind]
    rfl
  | regular =>
    rw [failIf_of_not (by simp)]
    simp only [memberOpenPathFd, answerOf, hkind, ok_bind]
    rcases memberReadPoolLabel (fileMember f) with e | _ | label <;> rfl
  | blockDevice =>
    rw [failIf_of_not (by simp)]
    simp only [memberOpenPathFd, answerOf, hkind, ok_bind]
    rcases memberReadPoolLabel (fileMember f) with e | _ | label <;> rfl

theorem outcome_openSlots (src : FdSource) (devices : List ByteFile) (index : Nat) (s : PoolFds) :
    outcome (openSlots src index (devices.map answerOf) s) =
      (devices.mapM openLabelled).map (List.map Prod.snd) := by
  induction devices generalizing index s with
  | nil => rfl
  | cons f devices ih =>
    rw [List.map_cons, openSlots, List.mapM_cons]
    rw [outcome_bind (outcome_openSlot src index f s) fun label s' _ =>
      outcome_bind (g := fun labels => .ok (label :: labels)) (ih (index + 1) s')
        fun labels s'' _ => rfl]
    cases openLabelled f with
    | error e => rfl
    | ok d =>
      cases devices.mapM openLabelled with
      | error e => rfl
      | ok ds => rfl

/-- The second loops agree, `seen_indices` being the seats that are taken. -/
theorem outcome_seatSlots (base : PoolLabel) (count : Nat) (ds : List OpenedDevice) (index : Nat)
    (seats : Seats) (s : PoolFds) :
    outcome (seatSlots base count index (ds.map Prod.snd) (fun i => (seats i).isSome) s) =
      (ds.foldlM (placeMember base count) seats).map fun seats i => (seats i).isSome := by
  induction ds generalizing index seats s with
  | nil => rfl
  | cons d ds ih =>
    have hseen : Function.update (fun i => (seats i).isSome) (plMemberIndex d.2) true
        = fun i => (Function.update seats d.index (some d.seat) i).isSome := by
      funext i
      by_cases hi : i = d.index
      · rw [hi, Function.update_self]
        exact Function.update_self _ _ _
      · rw [Function.update_of_ne hi]
        exact Function.update_of_ne hi _ _
    rw [List.map_cons, seatSlots, List.foldlM_cons, placeMember]
    rw [outcome_bind (outcome_liftRead _ s) fun _ s1 _ =>
      outcome_bind (outcome_liftRead _ s1) fun _ s2 _ =>
        outcome_bind (y := .ok ()) rfl fun _ s3 _ => by
          rw [hseen]
          exact ih (index + 1) (Function.update seats d.index (some d.seat)) s3]
    cases failIf (¬ poolLabelsEquivalent base d.2) .EINVAL with
    | error e => rfl
    | ok _ =>
      change _ = ((failIf (d.index ≥ count ∨ (seats d.index).isSome = true) .EINVAL
        >>= fun _ => .ok (Function.update seats d.index (some d.seat))) >>= _).map _
      change failIf (d.index ≥ count ∨ (seats d.index).isSome = true) .EINVAL >>= _ = _
      cases failIf (d.index ≥ count ∨ (seats d.index).isSome = true) .EINVAL with
      | error e => rfl
      | ok _ => rfl

/-- From the base label on. -/
theorem outcome_secondPhase (d : OpenedDevice) (ds : List OpenedDevice) (s : PoolFds)
    (writable : Bool) (beyond : Nat → UInt8) :
    outcome ((do
      liftRead fun _ => failIf (plMemberCount d.2 ≠ (d :: ds).length) .EINVAL
      let seen ← seatSlots d.2 (d :: ds).length 0 ((d :: ds).map Prod.snd) (fun _ => false)
      liftRead fun _ => failIf (∃ i, i < (d :: ds).length ∧ seen i = false) .EINVAL
      modify fun s => { s with memberCount := (d :: ds).length } : EStateM Fail PoolFds Unit) s) =
      (assembleDevices (d :: ds) writable beyond).map fun _ => () := by
  have hfull : ∀ (seen : Nat → Bool) (t : PoolFds), outcome ((do
      liftRead fun _ => failIf (∃ i, i < (d :: ds).length ∧ seen i = false) .EINVAL
      modify fun s => { s with memberCount := (d :: ds).length } : EStateM Fail PoolFds Unit) t) =
      (failIf (∃ i, i < (d :: ds).length ∧ seen i = false) .EINVAL >>= fun _ => .ok ()) := by
    intro seen t
    exact outcome_bind (outcome_liftRead _ t) fun _ _ _ => rfl
  have hseats : ∀ t, outcome ((do
      let seen ← seatSlots d.2 (d :: ds).length 0 ((d :: ds).map Prod.snd) (fun _ => false)
      liftRead fun _ => failIf (∃ i, i < (d :: ds).length ∧ seen i = false) .EINVAL
      modify fun s => { s with memberCount := (d :: ds).length } : EStateM Fail PoolFds Unit) t) =
      (((d :: ds).foldlM (placeMember d.2 (d :: ds).length) (fun _ => none)).map
        (fun seats i => (seats i).isSome) >>= fun seen =>
          failIf (∃ i, i < (d :: ds).length ∧ seen i = false) .EINVAL >>= fun _ => .ok ()) := by
    intro t
    exact outcome_bind (outcome_seatSlots d.2 (d :: ds).length (d :: ds) 0 (fun _ => none) t)
      fun seen t' _ => hfull seen t'
  refine (outcome_bind (outcome_liftRead _ s) fun _ t _ => hseats t).trans ?_
  rw [assembleDevices]
  cases failIf (plMemberCount d.2 ≠ (d :: ds).length) .EINVAL with
  | error e => rfl
  | ok _ =>
    simp only [ok_bind]
    cases (d :: ds).foldlM (placeMember d.2 (d :: ds).length) (fun _ => none) with
    | error e => rfl
    | ok seats =>
      simp only [ok_bind, Except.map]
      cases failIf (∃ i, i < (d :: ds).length ∧ (seats i).isSome = false) .EINVAL with
      | error e => rfl
      | ok _ => rfl

theorem outcome_openPoolBody (src : FdSource) {devices : List ByteFile} (hne : devices ≠ [])
    (s : PoolFds) (writable : Bool) (beyond : Nat → UInt8) :
    outcome (openPoolBody src (devices.map answerOf) s) =
      (devices.mapM openLabelled >>= fun opened =>
        assembleDevices opened writable beyond).map fun _ => () := by
  have hslots := outcome_openSlots src devices 0 s
  have hbody : ∀ labels s1, openSlots src 0 (devices.map answerOf) s = .ok labels s1 →
      ∃ opened, devices.mapM openLabelled = .ok opened ∧ labels = opened.map Prod.snd := by
    intro labels s1 hok
    rw [hok] at hslots
    cases hmap : devices.mapM openLabelled with
    | error e =>
      rw [hmap] at hslots
      exact absurd hslots (by simp [outcome, Except.map])
    | ok opened =>
      rw [hmap] at hslots
      exact ⟨opened, rfl, Except.ok.inj hslots⟩
  rw [openPoolBody]
  cases hrun : openSlots src 0 (devices.map answerOf) s with
  | error e s1 =>
    have herr : (devices.mapM openLabelled) = .error e := by
      rw [hrun] at hslots
      cases hmap : devices.mapM openLabelled with
      | error e' =>
        rw [hmap] at hslots
        exact congrArg Except.error (Except.error.inj hslots).symm
      | ok opened =>
        rw [hmap] at hslots
        exact absurd hslots (by simp [outcome, Except.map])
    rw [estate_bind_error.mpr (Or.inl hrun), herr]
    rfl
  | ok labels s1 =>
    obtain ⟨opened, hmap, rfl⟩ := hbody labels s1 hrun
    have hlen : opened.length = devices.length :=
      (List.Forall₂.length_eq (mapM_eq_ok.mp hmap)).symm
    cases opened with
    | nil => exact absurd (List.length_eq_zero_iff.mp hlen.symm) hne
    | cons d ds =>
      have hphase := outcome_secondPhase d ds s1 writable beyond
      rw [hmap, ok_bind, ← hphase, hlen, ← List.length_map answerOf]
      change outcome (EStateM.bind _ _ s) = _
      unfold EStateM.bind
      rw [hrun]
      rfl

/-- What an open of one device asks of the label. -/
def singleOnly : Option PoolLabel → Except Fail Unit
  | some label => failIf (plMemberCount label ≠ 1) .EXDEV
  | none => .ok ()

theorem outcome_imageLabelFd (f : ByteFile) (s : PoolFds) :
    outcome (imageLabelFd (answerOf f) s) = memberReadPoolLabel (fileMember f) >>= singleOnly := by
  simp only [imageLabelFd, answerOf]
  rcases memberReadPoolLabel (fileMember f) with e | _ | label
  · rfl
  · rfl
  · rw [ok_bind, singleOnly]
    by_cases hcount : plMemberCount label ≠ 1
    · simp only [if_pos hcount, failIf_of hcount]
      rfl
    · simp only [if_neg hcount, failIf_of_not hcount]
      rfl

/-- Whatever is made of the image, the open fails where the device or its label is refused. -/
theorem imageOpen_outcome {α : Type} (f : ByteFile) (writable : Bool) (beyond : Nat → UInt8)
    (g : Image ByteFile → α) :
    (imageOpen f writable beyond >>= fun img => (.ok (g img) : Except Fail α)).map (fun _ => ()) =
      failIf (f.kind = .other) .EINVAL >>= fun _ =>
        memberReadPoolLabel (fileMember f) >>= singleOnly := by
  rw [imageOpen, memberOpenPath]
  cases failIf (f.kind = .other) .EINVAL with
  | error e => rfl
  | ok _ =>
    simp only [ok_bind]
    rcases memberReadPoolLabel (fileMember f) with e | _ | label
    · rfl
    · rfl
    · simp only [ok_bind, singleOnly]
      cases failIf (plMemberCount label ≠ 1) .EXDEV with
      | error e => rfl
      | ok _ => rfl

theorem outcome_imageOpenFd (src : FdSource) (f : ByteFile) (s : PoolFds) (writable : Bool)
    (beyond : Nat → UInt8) :
    outcome (imageOpenFd src (answerOf f) s) = (do
      let img ← imageOpen f writable beyond
      .ok (img, fun i => if i = 0 then memberRole img.poolLabel 0 else ⟨0, 0, 0⟩)
        : Except Fail (Image ByteFile × (Nat → MemberRole))).map fun _ => () := by
  rw [imageOpen_outcome, imageOpenFd]
  cases hkind : f.kind with
  | other =>
    rw [failIf_of rfl]
    simp only [memberOpenPathFd, answerOf, hkind]
    rfl
  | regular =>
    rw [failIf_of_not (by simp), ok_bind, ← outcome_imageLabelFd]
    simp only [memberOpenPathFd, answerOf, hkind]
    rfl
  | blockDevice =>
    rw [failIf_of_not (by simp), ok_bind, ← outcome_imageLabelFd]
    simp only [memberOpenPathFd, answerOf, hkind]
    rfl

/-- **The calls and the assembly succeed and fail alike**, with the same codes. -/
theorem imageOpenPoolFd_outcome (src : FdSource) (devices : List ByteFile) (s : PoolFds)
    (writable : Bool) (beyond : Nat → UInt8) :
    outcome (imageOpenPoolFd src (devices.map answerOf) s) =
      (imageOpenPool devices writable beyond).map fun _ => () := by
  unfold imageOpenPoolFd imageOpenPool
  rw [List.length_map]
  by_cases hrange : devices.length = 0 ∨ devices.length > maxDevices
  · rw [if_pos hrange, failIf_of hrange]
    rfl
  · rw [if_neg hrange, failIf_of_not hrange, ok_bind]
    match devices with
    | [] => exact absurd (Or.inl rfl) hrange
    | [f] => exact outcome_imageOpenFd src f s writable beyond
    | f :: g :: rest =>
      have hbody := outcome_openPoolBody src (List.cons_ne_nil f (g :: rest))
        { s with members := fun _ => some 0, memberCount := 0 } writable beyond
      simp only [List.map_cons] at hbody ⊢
      cases hrun : openPoolBody src (answerOf f :: answerOf g :: rest.map answerOf)
          { s with members := fun _ => some 0, memberCount := 0 } with
      | ok u s' =>
        rw [hrun] at hbody
        exact hbody
      | error e s' =>
        rw [hrun] at hbody
        exact hbody

/-! ## 9. When a failed open is tidy -/

/-- **When a failed open leaves the descriptors as they were.**  Always for no member, one member or
more than eight; for two to eight exactly when the failure is a clean one. -/
theorem failed_open_tidy_iff {src : FdSource} {answers : List MemberAnswer}
    {before : Finset Nat} {junk : Fin maxDevices → Option Nat} {e : Fail} {s' : PoolFds}
    (h : imageOpenPoolFd src answers (start before junk) = .error e s') :
    Tidy before s'.fds ↔ (2 ≤ answers.length → answers.length ≤ maxDevices →
      CleanFailure answers junk before s'.fds.opened) := by
  unfold imageOpenPoolFd at h
  split at h
  · rename_i hrange
    obtain ⟨-, rfl⟩ := EStateM.Result.error.inj h
    refine iff_of_true ⟨rfl, fun _ h => absurd h List.not_mem_nil,
      fun _ h => absurd h List.not_mem_nil⟩ fun h2 h8 => ?_
    exact absurd hrange (by omega)
  · rename_i hrange
    split at h
    · exact iff_of_true (imageOpenFd_tidy h) fun h2 => absurd h2 (by simp)
    · rename_i hmany
      have h8 : answers.length ≤ maxDevices := by omega
      have h2 : 2 ≤ answers.length := by
        match answers, hrange, hmany with
        | [], hrange, _ => exact absurd (Or.inl rfl) hrange
        | [a], _, hmany => exact absurd rfl (hmany a)
        | _ :: _ :: _, _, _ => exact Nat.le_add_left 2 _
      rw [imp_iff_right h2, imp_iff_right h8]
      split at h
      · exact absurd h (by simp)
      · rename_i e' t hbody
        obtain ⟨-, rfl⟩ := EStateM.Result.error.inj h
        cases hfirst : firstFailure answers with
        | none => exact tidy_of_later h2 h8 hfirst hbody
        | some p => exact tidy_of_first_loop h8 hfirst hbody

/-- The host that hands out the number after the largest open one. -/
def nextFd : FdSource where
  next _ s := s.sup id + 1
  fresh := by
    intro _ s h
    have hle : s.sup id + 1 ≤ s.sup id := Finset.le_sup (f := id) h
    omega

/-- A regular file without a label. -/
def unlabelled : MemberAnswer where
  openPath := .ok ()
  fstat := .ok .regular
  ioctl := .ok ()
  label := .ok none
  valid := by simp

/-- The first of two members has no label; descriptor 3 is opened and closed.  The second slot of
the array holds the number 7, which is no open descriptor. -/
theorem unlabelled_tidy : ∃ s',
    imageOpenPoolFd nextFd [unlabelled, unlabelled] (start {0, 1, 2} fun j =>
      if j.val = 1 then some 7 else none) = .error (.check .EINVAL) s' ∧
    s'.fds.opened = [3] ∧ s'.fds.closes = [3, 7] ∧ Tidy {0, 1, 2} s'.fds := by
  let run := imageOpenPoolFd nextFd [unlabelled, unlabelled] (start {0, 1, 2} fun j =>
    if j.val = 1 then some 7 else none)
  have hrun : run = .error (.check .EINVAL) (finalState run) := rfl
  refine ⟨finalState run, hrun, rfl, rfl, (failed_open_tidy_iff hrun).mpr fun _ _ => ?_⟩
  refine ⟨by decide, fun j hj hlt fd hfd => ?_⟩
  have hone : j.val = 1 := by
    have hlt : j.val < 2 := hlt
    omega
  have hseven : some 7 = some fd := (if_pos hone).symm.trans hfd
  rw [← Option.some.inj hseven]
  exact ⟨by decide, by decide⟩

theorem fate_answerOf {f : ByteFile} {label : PoolLabel} (hkind : f.kind = .regular)
    (hread : memberReadPoolLabel (fileMember f) = .ok (some label)) :
    (answerOf f).fate = .ok label := by
  simp only [MemberAnswer.fate, answerOf, hkind, hread]

/-- The two descriptors of a member that is given twice, in the array. -/
def openedTwice (src : FdSource) (s : PoolFds) : PoolFds :=
  let first := src.next s.fds.opened.length s.fds.isOpen
  let fds := s.fds.openAs first
  let second := src.next fds.opened.length fds.isOpen
  { s with fds := fds.openAs second, slots := (s.slots.set 0 (some first)).set 1 (some second) }

theorem openSlots_twice {a : MemberAnswer} {label : PoolLabel} (hfate : a.fate = .ok label)
    (src : FdSource) (s : PoolFds) :
    openSlots src 0 [a, a] s = .ok [label, label] (openedTwice src s) := by
  simp only [openSlots, bind, EStateM.bind, openSlot_eq, hfate]
  rfl

/-- The second loop moves the first descriptor and refuses the second label. -/
theorem seatSlots_twice {label : PoolLabel} {count : Nat}
    (hvalid : poolLabelValidate label = .ok ()) (hcount : plMemberCount label = count)
    (s : PoolFds) : seatSlots label count 0 [label, label] (fun _ => false) s =
      .error (.check .EINVAL) (moveSlot 0 (plMemberIndex label) s) := by
  have hlike : failIf (¬ poolLabelsEquivalent label label) .EINVAL = .ok () :=
    failIf_of_not (not_not.mpr rfl)
  have hseen : failIf (plMemberIndex label ≥ count ∨ Function.update (fun _ => false)
      (plMemberIndex label) true (plMemberIndex label) = true) .EINVAL = .error (.check .EINVAL) :=
    failIf_of (Or.inr (Function.update_self _ _ _))
  rw [seatSlots_first hvalid hcount, seatSlots]
  simp only [hlike, hseen]
  rfl

/-- **A member given twice** is refused when the first of its descriptors is in the image. -/
theorem openPoolBody_twice {a : MemberAnswer} {label : PoolLabel} (hfate : a.fate = .ok label)
    (hvalid : poolLabelValidate label = .ok ()) (hcount : plMemberCount label = 2)
    (src : FdSource) (s : PoolFds) : openPoolBody src [a, a] s =
      .error (.check .EINVAL) (moveSlot 0 (plMemberIndex label) (openedTwice src s)) := by
  have hequal : failIf (plMemberCount label ≠ 2) .EINVAL = .ok () :=
    failIf_of_not (not_not.mpr hcount)
  rw [openPoolBody, estate_bind_error]
  refine Or.inr ⟨_, _, openSlots_twice hfate src s, ?_⟩
  refine estate_bind_error.mpr (Or.inr ⟨(), _, liftRead_ok.mpr ⟨hequal, rfl⟩, ?_⟩)
  exact estate_bind_error.mpr (Or.inl (seatSlots_twice hvalid hcount _))

theorem imageOpenPoolFd_twice {a : MemberAnswer} {label : PoolLabel} (hfate : a.fate = .ok label)
    (hvalid : poolLabelValidate label = .ok ()) (hcount : plMemberCount label = 2)
    (src : FdSource) (before : Finset Nat) (junk : Fin maxDevices → Option Nat) :
    imageOpenPoolFd src [a, a] (start before junk) = .error (.check .EINVAL) (failPool 2
      (moveSlot 0 (plMemberIndex label) (openedTwice src (cleared before junk)))) := by
  have hrange : ¬ ([a, a].length = 0 ∨ [a, a].length > maxDevices) := by
    simp [maxDevices]
  unfold imageOpenPoolFd
  rw [if_neg hrange]
  change (match openPoolBody src [a, a] (cleared before junk) with
    | .ok u s' => .ok u s'
    | .error e s' => .error e (failPool 2 s') : EStateM.Result Fail PoolFds Unit) = _
  rw [openPoolBody_twice hfate hvalid hcount]

/-- On the host of the examples, with the three standard descriptors open, 3 stays. -/
theorem failPool_twice (memberIndex : Nat) :
    let s := failPool 2 (moveSlot 0 memberIndex (openedTwice nextFd (cleared {0, 1, 2} fun _ => none)))
    s.fds.opened = [3, 4] ∧ s.fds.closes = [4] ∧ s.fds.isOpen = {0, 1, 2, 3} := by
  refine ⟨rfl, rfl, ?_⟩
  change Finset.erase (insert 4 (insert 3 {0, 1, 2})) 4 = ({0, 1, 2, 3} : Finset Nat)
  decide

/-- **A leaked descriptor.**  The same half of a mirror is given twice: 3 and 4 are opened, 3 is
moved to the image, the second label carries the same index, and only 4 is closed. -/
theorem duplicate_member_leaks : ∃ s',
    imageOpenPoolFd nextFd [answerOf (mirrorHalf 0), answerOf (mirrorHalf 0)]
      (start {0, 1, 2} fun _ => none) = .error (.check .EINVAL) s' ∧
    s'.fds.opened = [3, 4] ∧ s'.fds.closes = [4] ∧ s'.fds.isOpen = {0, 1, 2, 3} ∧
    ¬ Tidy {0, 1, 2} s'.fds := by
  obtain ⟨out, hout⟩ := mirrorHalves_assembled true (fun _ => 0)
  have hlabelled := hout.labelled (mirrorHalf 0) List.mem_cons_self
  have hcount : plMemberCount (labelOf (mirrorHalf 0)) = 2 :=
    hout.count (mirrorHalf 0) List.mem_cons_self
  have hread : memberReadPoolLabel (fileMember (mirrorHalf 0))
      = .ok (some (labelOf (mirrorHalf 0))) := memberReadPoolLabel_file.mpr
    ⟨hlabelled.size, Or.inr ⟨hlabelled.magic, hlabelled.valid, rfl⟩⟩
  have hfate := fate_answerOf rfl hread
  obtain ⟨hopened, hcloses, hleft⟩ := failPool_twice (plMemberIndex (labelOf (mirrorHalf 0)))
  refine ⟨_, imageOpenPoolFd_twice hfate hlabelled.valid hcount nextFd _ _, hopened, hcloses, hleft,
    fun htidy => ?_⟩
  have hsame := htidy.same
  rw [hleft] at hsame
  exact absurd hsame (by decide)

end AetherFs
