/-
# Listing a directory

`aetherfs_dir_iterate` emits the two dots, which count as positions 0 and 1, and then goes through the
leaf from its FIRST entry on, as long as the position is below the count of entries.  So a leaf of
`count` entries gives up at most `count - 2` of them over a whole listing; whoever lists it in several
calls is shown the first ones again; and the last two are never shown (`iterate_shows`).

The leaf of an index never has more than one (`Kernel.DirIndex`: each insert starts it anew).  Whatever
names are put into a directory, a listing shows none.
-/
import AetherFs.Kernel.DirIndex

namespace AetherFs

open Lib

/-! ## 1. The source -/

/-- What `dir_emit` is given: a dot, or the address of a name in the leaf with its length, and the
inode number. -/
inductive Emit
  | dot
  | dotdot
  | entry (name namelen ino : Nat)
deriving DecidableEq

/-- What a call emits, and where `ctx->pos` is then. -/
structure Emitted where
  shown : List Emit
  pos : Nat

/-- `dir_emit_dots`, for a buffer with room for `room` more; with it the room that is left, and `none`
where it returns `false`. -/
def emitDots (pos room : Nat) : Emitted × Option Nat :=
  match pos, room with
  | 0, 0 => (⟨[], 0⟩, none)
  | 0, 1 => (⟨[.dot], 1⟩, none)
  | 0, room + 2 => (⟨[.dot, .dotdot], 2⟩, some room)
  | 1, 0 => (⟨[], 1⟩, none)
  | 1, room + 1 => (⟨[.dotdot], 2⟩, some room)
  | pos + 2, room => (⟨[], pos + 2⟩, some room)

/-- `leaf->dl_entries[i]`: the array has elements of 24 bytes, without the names. -/
def emitEntry (leaf : Memory) (i : Nat) : Emit :=
  .entry (24 + 24 * i + 24) (getLE leaf (24 + 24 * i + 16) 2) (getLE leaf (24 + 24 * i + 8) 8)

/-- The loop of `aetherfs_dir_iterate`; `left` is `count - i`.  Without room `dir_emit` is `false`. -/
def emitLoop (leaf : Memory) (count : Nat) : Nat → Nat → Nat → Nat → Emitted
  | 0, _, pos, _ => ⟨[], pos⟩
  | left + 1, i, pos, room =>
    if pos < count ∧ room ≠ 0 then
      let rest := emitLoop leaf count left (i + 1) (pos + 1) (room - 1)
      ⟨emitEntry leaf i :: rest.shown, rest.pos⟩
    else ⟨[], pos⟩

/-- One call of `getdents`: whether the index block and the leaf can be read, and how many entries the
caller's buffer takes. -/
structure ReadCall where
  readIndex : Bool
  getLeaf : Bool
  room : Nat

/-- `aetherfs_dir_iterate`. -/
def dirIterate (dir : DirIndex) (pos : Nat) (c : ReadCall) : Except Errno Unit × Emitted :=
  let dots := emitDots pos c.room
  match dots.2 with
  | none => (.ok (), dots.1)
  | some room =>
    if c.readIndex = false then (.error .EIOERR, dots.1)
    else if getLE dir.index 0 8 = 0 then (.ok (), dots.1)
    else if c.getLeaf = false then (.error .EIOERR, dots.1)
    else
      let count := getLE dir.leaf 4 4
      let rest := emitLoop dir.leaf count count 0 dots.1.pos room
      (.ok (), ⟨dots.1.shown ++ rest.shown, rest.pos⟩)

/-- Listing: call after call, each from where the one before stopped. -/
def listing (dir : DirIndex) : Nat → List ReadCall → List Emit
  | _, [] => []
  | pos, c :: cs =>
    let r := (dirIterate dir pos c).2
    r.shown ++ listing dir r.pos cs

/-! ## 2. What is shown -/

/-- The dots, and the entries in front of the last two. -/
def Shows (dir : DirIndex) (e : Emit) : Prop :=
  e = .dot ∨ e = .dotdot ∨ ∃ i, i + 2 < getLE dir.leaf 4 4 ∧ e = emitEntry dir.leaf i

section Iterate

variable {leaf : Memory} {count : Nat} {dir : DirIndex}

/-- The loop emits entries one after the other, as many as there is room for, entries are left, and the
position allows. -/
theorem emitLoop_eq (left i pos room : Nat) : emitLoop leaf count left i pos room
    = ⟨(List.range' i (min left (min (count - pos) room))).map (emitEntry leaf),
        pos + min left (min (count - pos) room)⟩ := by
  induction left generalizing i pos room with
  | zero => simp [emitLoop]
  | succ left ih =>
    rw [emitLoop]
    by_cases hgo : pos < count ∧ room ≠ 0
    · rw [if_pos hgo]
      have hmin : min (left + 1) (min (count - pos) room)
          = min left (min (count - (pos + 1)) (room - 1)) + 1 := by omega
      simp only [ih, hmin, List.range'_succ, List.map_cons]
      rw [Nat.add_assoc, Nat.add_comm 1]
    · rw [if_neg hgo]
      have hmin : min (left + 1) (min (count - pos) room) = 0 := by omega
      simp [hmin]

theorem emitDots_shown (pos room : Nat) : ∀ e ∈ (emitDots pos room).1.shown, e = .dot ∨ e = .dotdot := by
  unfold emitDots
  split <;> simp

theorem emitDots_pos {pos room left : Nat} (h : (emitDots pos room).2 = some left) :
    2 ≤ (emitDots pos room).1.pos := by
  unfold emitDots at h ⊢
  split <;> simp_all

/-- **Of a leaf only what is in front of its last two entries is ever shown.** -/
theorem iterate_shows (dir : DirIndex) (pos : Nat) (c : ReadCall) :
    ∀ e ∈ (dirIterate dir pos c).2.shown, Shows dir e := by
  have hdots : ∀ e ∈ (emitDots pos c.room).1.shown, Shows dir e := by
    intro e he
    rcases emitDots_shown pos c.room e he with h | h
    · exact Or.inl h
    · exact Or.inr (Or.inl h)
  unfold dirIterate
  cases hroom : (emitDots pos c.room).2 with
  | none =>
    simp only [hroom]
    exact hdots
  | some room =>
    have hpos := emitDots_pos hroom
    simp only [hroom]
    split
    · exact hdots
    · split
      · exact hdots
      · split
        · exact hdots
        · intro e he
          rcases List.mem_append.mp he with he | he
          · exact hdots e he
          · rw [emitLoop_eq, List.mem_map] at he
            obtain ⟨i, hi, rfl⟩ := he
            have hlt := (List.mem_range'_1.mp hi).2
            exact Or.inr (Or.inr ⟨i, by omega, rfl⟩)

theorem listing_shows (dir : DirIndex) (calls : List ReadCall) : ∀ pos, ∀ e ∈ listing dir pos calls,
    Shows dir e := by
  induction calls with
  | nil =>
    intro pos e he
    exact absurd he List.not_mem_nil
  | cons c calls ih =>
    intro pos e he
    rcases List.mem_append.mp he with he | he
    · exact iterate_shows dir pos c e he
    · exact ih _ e he

end Iterate

/-! ## 3. A directory with a history -/

/-- A leaf that has never held more than one entry. -/
structure FewEntries (m : DirMachine) : Prop where
  type : getLE m.dir.leaf 0 4 = 0
  count : getLE m.dir.leaf 4 4 ≤ 1

theorem fewEntries_step (m : DirMachine) (c : DirCall) (h : FewEntries m) (hvalid : DirValid m c) :
    FewEntries (dirStep m c) := by
  cases c with
  | insert env name ino type =>
    obtain ⟨-, hname, -, hino, hblock⟩ := hvalid
    rw [dirStep]
    rcases dirHtreeInsert_cases type h.type hname hino hblock with
      ⟨e, dir', hr, hd⟩ | ⟨dir', hr, hd⟩
    · rw [hr]
      refine ⟨?_, ?_⟩
      · rw [hd.leaf]
        exact h.type
      · rw [hd.leaf]
        exact h.count
    · rw [hr]
      exact ⟨hd.leaf.type, hd.leaf.count.le⟩
  | delete readIndex getLeaf reread name =>
    rw [dirStep]
    by_cases hok : (dirHtreeDelete readIndex getLeaf reread m.dir name).1 = .ok ()
    · obtain ⟨index, ino, hr, -, -⟩ := dirHtreeDelete_ok hok
      rw [hr]
      exact ⟨h.type, h.count⟩
    · obtain ⟨e, hr⟩ := dirHtreeDelete_error hok
      rw [hr]
      exact h

/-- **Whatever is inserted and deleted, and however it is listed, a directory shows nothing but
dots.** -/
theorem readdir_shows_no_name (index : Memory) (calls : List DirCall)
    (hvalid : Along dirStep DirValid (dirStart index) calls) (m : DirMachine)
    (hm : m ∈ states dirStep (dirStart index) calls) (pos : Nat) (reads : List ReadCall) :
    ∀ e ∈ listing m.dir pos reads, e = .dot ∨ e = .dotdot := by
  have hstart : FewEntries (dirStart index) :=
    ⟨getLE_zero_memory 0 4, (getLE_zero_memory 4 4).le.trans (Nat.zero_le 1)⟩
  have hfew := along_inv fewEntries_step calls hstart hvalid hm
  intro e he
  rcases listing_shows m.dir reads pos e he with h | h | ⟨i, hi, -⟩
  · exact Or.inl h
  · exact Or.inr h
  · exact absurd hi (by have := hfew.count; omega)

/-- The name `a` is in the index, and the directory is listed in one call. -/
theorem readdir_shows_no_first :
    Along dirStep DirValid (dirStart fun _ => 0) [.insert calmInsert [97] 17 1] ∧
      ∀ m ∈ states dirStep (dirStart fun _ => 0) [.insert calmInsert [97] 17 1],
        ∀ e ∈ listing m.dir 0 [⟨true, true, 100⟩], e = .dot ∨ e = .dotdot := by
  have hvalid : Along dirStep DirValid (dirStart fun _ => 0) [.insert calmInsert [97] 17 1] :=
    ⟨⟨by decide, by decide, List.not_mem_nil, by norm_num, by norm_num [calmInsert]⟩, trivial⟩
  exact ⟨hvalid, fun m hm => readdir_shows_no_name _ _ hvalid m hm 0 _⟩

end AetherFs
