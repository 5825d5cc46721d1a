/-
# Intervals of machine integers, and the sort-and-sweep test

An allocator's free and used intervals are checked for exact coverage by sorting them and
walking a cursor over the result: each interval must start where the previous one ended.  The
ends are computed in machine arithmetic, so the walk itself (`sweep`) is modular, and the
question this module answers is when its acceptance means what it says.

`Tiles lo hi l` is the meaning: `l`, in order, cuts `[lo, hi)` into consecutive nonempty
intervals of NATURAL numbers.  `sweep_tiles` shows that a sorted list whose modular ends are
all at most `hi` is accepted only if it tiles: a wrapped interval ends below its own start, so
in a sorted list it can only be the last, and then the final cursor lies below a start that
the earlier intervals have already reached.  `sweep_tiles_or` is what remains of this when the
end of ONE cell has not been checked.  `sweep_sort_of_perm` is the converse, and the
`Tiles.*` lemmas read off what a client wants: covered, pairwise apart, inside, total length.
`tiles_of_apart` goes back from these to the tiling.
-/
import Mathlib

namespace AetherFs.Lib

/-! ## 1. Intervals and their order -/

/-- `len` consecutive numbers from `start`. -/
structure Interval where
  start : Nat
  len : Nat
deriving DecidableEq, Repr

namespace Interval

/-- Membership, in the natural numbers: nothing wraps here. -/
def Has (iv : Interval) (x : Nat) : Prop := iv.start ≤ x ∧ x < iv.start + iv.len

instance (iv : Interval) (x : Nat) : Decidable (iv.Has x) := inferInstanceAs (Decidable (_ ∧ _))

/-- No number lies in both. -/
def Apart (a b : Interval) : Prop := ∀ x, a.Has x → ¬ b.Has x

theorem Apart.symm {a b : Interval} (h : Apart a b) : Apart b a := fun x hb ha => h x ha hb

/-- By start, then by length. -/
def le (a b : Interval) : Bool :=
  decide (a.start < b.start ∨ (a.start = b.start ∧ a.len ≤ b.len))

theorem le_iff {a b : Interval} :
    le a b = true ↔ a.start < b.start ∨ (a.start = b.start ∧ a.len ≤ b.len) := by
  simp [le]

theorem le_trans {a b c : Interval} (h : le a b = true) (h' : le b c = true) : le a c = true := by
  rw [le_iff] at *
  omega

theorem le_total (a b : Interval) : (le a b || le b a) = true := by
  rw [Bool.or_eq_true, le_iff, le_iff]
  omega

theorem le_antisymm {a b : Interval} (h : le a b = true) (h' : le b a = true) : a = b := by
  rw [le_iff] at *
  obtain ⟨s, n⟩ := a
  obtain ⟨s', n'⟩ := b
  simp only [mk.injEq]
  simp only at h h'
  omega

end Interval

/-- Sorting by `Interval.le`.  The order is total and antisymmetric, so every sorting
algorithm returns this list. -/
def sortIntervals (l : List Interval) : List Interval := l.mergeSort Interval.le

theorem sortIntervals_perm (l : List Interval) : (sortIntervals l).Perm l :=
  List.mergeSort_perm l _

theorem sortIntervals_pairwise (l : List Interval) :
    (sortIntervals l).Pairwise (fun a b => Interval.le a b = true) := by
  refine @List.pairwise_mergeSort _ Interval.le ?_ Interval.le_total l
  exact fun _ _ _ => Interval.le_trans

theorem mem_sortIntervals {l : List Interval} {iv : Interval} :
    iv ∈ sortIntervals l ↔ iv ∈ l := (sortIntervals_perm l).mem_iff

/-- A sorted list is what sorting any rearrangement of it gives. -/
theorem sortIntervals_eq_of_perm {l l' : List Interval} (hp : l.Perm l')
    (hs : l'.Pairwise (fun a b => Interval.le a b = true)) : sortIntervals l = l' :=
  List.Perm.eq_of_pairwise (fun _ _ _ _ => Interval.le_antisymm) (sortIntervals_pairwise l) hs
    ((sortIntervals_perm l).trans hp)

/-- The total length of a list of intervals. -/
def totalLen (l : List Interval) : Nat := (l.map Interval.len).sum

@[simp] theorem totalLen_nil : totalLen [] = 0 := rfl

@[simp] theorem totalLen_cons (iv : Interval) (l : List Interval) :
    totalLen (iv :: l) = iv.len + totalLen l := by simp [totalLen]

@[simp] theorem totalLen_append (l l' : List Interval) :
    totalLen (l ++ l') = totalLen l + totalLen l' := by simp [totalLen]

theorem totalLen_perm {l l' : List Interval} (h : l.Perm l') : totalLen l = totalLen l' :=
  (h.map Interval.len).sum_eq

theorem totalLen_le_of_subperm {l l' : List Interval} (h : l.Subperm l') :
    totalLen l ≤ totalLen l' := by
  obtain ⟨l'', hp, hsub⟩ := h
  rw [← totalLen_perm hp]
  exact (hsub.map Interval.len).sum_le_sum fun _ _ => Nat.zero_le _

theorem totalLen_flatMap {α : Type} (g : α → List Interval) (l : List α) :
    totalLen (l.flatMap g) = (l.map fun a => totalLen (g a)).sum := by
  induction l with
  | nil => rfl
  | cons a l ih => rw [List.flatMap_cons, totalLen_append, ih, List.map_cons, List.sum_cons]

theorem totalLen_ones (l : List Nat) :
    totalLen (l.map fun c => (⟨c, 1⟩ : Interval)) = l.length := by
  simp [totalLen, Function.comp_def]

/-! ## 2. Lists of intervals that are pairwise apart -/

/-- The numbers a list of intervals covers. -/
def cells : List Interval → Finset Nat
  | [] => ∅
  | iv :: l => Finset.Ico iv.start (iv.start + iv.len) ∪ cells l

theorem mem_cells : ∀ {l : List Interval} {x : Nat}, x ∈ cells l ↔ ∃ iv ∈ l, iv.Has x
  | [], x => by simp [cells]
  | iv :: l, x => by simp [cells, mem_cells, Interval.Has]

theorem card_cells : ∀ {l : List Interval}, l.Pairwise Interval.Apart →
    (cells l).card = totalLen l
  | [], _ => rfl
  | iv :: l, h => by
    obtain ⟨hiv, hl⟩ := List.pairwise_cons.mp h
    have hdis : Disjoint (Finset.Ico iv.start (iv.start + iv.len)) (cells l) := by
      refine Finset.disjoint_left.mpr fun x hx hx' => ?_
      obtain ⟨iv', hiv', hx'⟩ := mem_cells.mp hx'
      exact hiv iv' hiv' x (Finset.mem_Ico.mp hx) hx'
    rw [cells, Finset.card_union_of_disjoint hdis, card_cells hl, Nat.card_Ico, totalLen_cons]
    omega

/-- **Intervals that are pairwise apart fit only where there is room for their sum.** -/
theorem totalLen_le_of_apart {l : List Interval} {lo hi : Nat} (h : l.Pairwise Interval.Apart)
    (hin : ∀ iv ∈ l, ∀ x, iv.Has x → lo ≤ x ∧ x < hi) : totalLen l ≤ hi - lo := by
  rw [← card_cells h, ← Nat.card_Ico]
  refine Finset.card_le_card fun x hx => ?_
  obtain ⟨iv, hiv, hx⟩ := mem_cells.mp hx
  exact Finset.mem_Ico.mpr (hin iv hiv x hx)

/-! ## 3. Tilings -/

/-- `l`, in order, cuts `[lo, hi)` into consecutive nonempty intervals. -/
def Tiles (lo hi : Nat) : List Interval → Prop
  | [] => lo = hi
  | iv :: l => iv.start = lo ∧ 0 < iv.len ∧ Tiles (lo + iv.len) hi l

theorem Tiles.le : ∀ {l : List Interval} {lo hi : Nat}, Tiles lo hi l → lo ≤ hi
  | [], _, _, h => Nat.le_of_eq h
  | _ :: _, _, _, ⟨_, _, h⟩ => by
    have := h.le
    omega

theorem Tiles.append : ∀ {l l' : List Interval} {lo mid hi : Nat}, Tiles lo mid l →
    Tiles mid hi l' → Tiles lo hi (l ++ l')
  | [], _, _, _, _, h, h' => by
    have : _ = _ := h
    rwa [this]
  | _ :: _, _, _, _, _, ⟨h1, h2, h3⟩, h' => ⟨h1, h2, h3.append h'⟩

theorem tiles_singleton {lo n : Nat} (hn : 0 < n) : Tiles lo (lo + n) [⟨lo, n⟩] :=
  ⟨rfl, hn, rfl⟩

theorem tiles_ones (lo : Nat) : ∀ n : Nat,
    Tiles lo (lo + n) ((List.range n).map fun j => ⟨lo + j, 1⟩)
  | 0 => rfl
  | n + 1 => by
    rw [List.range_succ, List.map_append, ← Nat.add_assoc]
    exact (tiles_ones lo n).append (tiles_singleton (by omega))

theorem Tiles.within : ∀ {l : List Interval} {lo hi : Nat}, Tiles lo hi l →
    ∀ iv ∈ l, lo ≤ iv.start ∧ iv.start + iv.len ≤ hi ∧ 0 < iv.len
  | iv :: l, lo, hi, ⟨h1, h2, h3⟩, iv', hmem => by
    have hle := h3.le
    rcases List.mem_cons.mp hmem with rfl | hmem
    · omega
    · have := h3.within iv' hmem
      omega

theorem Tiles.covers : ∀ {l : List Interval} {lo hi : Nat}, Tiles lo hi l →
    ∀ x, lo ≤ x → x < hi → ∃ iv ∈ l, iv.Has x
  | [], lo, hi, h, x, h1, h2 => by
    have : lo = hi := h
    omega
  | iv :: l, lo, hi, ⟨hs, _, hl⟩, x, h1, h2 => by
    by_cases hx : x < lo + iv.len
    · exact ⟨iv, List.mem_cons_self, by rw [Interval.Has]; omega⟩
    · obtain ⟨iv', hm, hx'⟩ := hl.covers x (Nat.not_lt.mp hx) h2
      exact ⟨iv', List.mem_cons_of_mem _ hm, hx'⟩

theorem Tiles.apart : ∀ {l : List Interval} {lo hi : Nat}, Tiles lo hi l →
    l.Pairwise Interval.Apart
  | [], _, _, _ => List.Pairwise.nil
  | iv :: l, lo, hi, ⟨hs, hpos, hl⟩ => by
    refine List.pairwise_cons.mpr ⟨fun iv' hm x hx hx' => ?_, hl.apart⟩
    have := (hl.within iv' hm).1
    rw [Interval.Has] at hx hx'
    omega

theorem Tiles.sorted : ∀ {l : List Interval} {lo hi : Nat}, Tiles lo hi l →
    l.Pairwise (fun a b => Interval.le a b = true)
  | [], _, _, _ => List.Pairwise.nil
  | iv :: l, lo, hi, ⟨hs, hpos, hl⟩ => by
    refine List.pairwise_cons.mpr ⟨fun iv' hm => ?_, hl.sorted⟩
    have := (hl.within iv' hm).1
    rw [Interval.le_iff]
    omega

theorem Tiles.totalLen : ∀ {l : List Interval} {lo hi : Nat}, Tiles lo hi l →
    lo + totalLen l = hi
  | [], _, _, h => by
    have : _ = _ := h
    simpa using this
  | iv :: l, lo, hi, ⟨_, _, hl⟩ => by
    have := hl.totalLen
    rw [totalLen_cons]
    omega

/-- **A sorted list of nonempty intervals that are pairwise apart and cover exactly `[lo, hi)`
is a tiling of it.** -/
theorem tiles_of_apart {hi : Nat} : ∀ {l : List Interval} {lo : Nat}, lo ≤ hi →
    l.Pairwise (fun a b => Interval.le a b = true) → l.Pairwise Interval.Apart →
    (∀ iv ∈ l, 0 < iv.len) → (∀ x, (∃ iv ∈ l, iv.Has x) ↔ lo ≤ x ∧ x < hi) → Tiles lo hi l
  | [], lo, hle, _, _, _, hcov => by
    rcases Nat.lt_or_ge lo hi with hlt | hge
    · obtain ⟨iv, hiv, -⟩ := (hcov lo).mpr ⟨Nat.le_refl lo, hlt⟩
      exact absurd hiv List.not_mem_nil
    · exact Nat.le_antisymm hle hge
  | iv :: l, lo, hle, hsort, hapart, hpos, hcov => by
    obtain ⟨hfirst, hsort'⟩ := List.pairwise_cons.mp hsort
    obtain ⟨haway, hapart'⟩ := List.pairwise_cons.mp hapart
    have hlen : 0 < iv.len := hpos iv List.mem_cons_self
    have hown : ∀ x, iv.Has x → lo ≤ x ∧ x < hi := by
      intro x hx
      exact (hcov x).mp ⟨iv, List.mem_cons_self, hx⟩
    have hleft : lo ≤ iv.start ∧ iv.start < hi := hown iv.start ⟨Nat.le_refl _, by omega⟩
    have hright := (hown (iv.start + iv.len - 1) ⟨by omega, by omega⟩).2
    -- the interval that holds `lo` starts no later than `lo`, and the first starts no later
    have hstart : iv.start = lo := by
      obtain ⟨iv', hmem, hx⟩ := (hcov lo).mpr ⟨Nat.le_refl lo, by omega⟩
      have hle' : iv.start ≤ iv'.start := by
        rcases List.mem_cons.mp hmem with rfl | hmem
        · exact Nat.le_refl _
        · have := Interval.le_iff.mp (hfirst iv' hmem)
          omega
      exact Nat.le_antisymm (Nat.le_trans hle' hx.1) hleft.1
    refine ⟨hstart, hlen, tiles_of_apart (by omega) hsort' hapart' ?_ fun x => ?_⟩
    · intro iv' hmem
      exact hpos iv' (List.mem_cons_of_mem _ hmem)
    constructor
    · rintro ⟨iv', hmem, hx⟩
      obtain ⟨hge, hlt⟩ := (hcov x).mp ⟨iv', List.mem_cons_of_mem _ hmem, hx⟩
      have hout : ¬ iv.Has x := fun hin => haway iv' hmem x hin hx
      rw [Interval.Has] at hout
      omega
    · rintro ⟨hge, hlt⟩
      obtain ⟨iv', hmem, hx⟩ := (hcov x).mpr ⟨by omega, hlt⟩
      rcases List.mem_cons.mp hmem with rfl | hmem
      · rw [Interval.Has] at hx
        omega
      · exact ⟨iv', hmem, hx⟩

/-! ## 4. The sweep -/

/-- The cursor walk: every interval starts at the cursor, which then moves to its end, computed
modulo `M`. -/
def sweep (M : Nat) : Nat → List Interval → Option Nat
  | cursor, [] => some cursor
  | cursor, iv :: l => if iv.start = cursor then sweep M ((iv.start + iv.len) % M) l else none

/-- An interval that starts at most one past `hi` and whose modular end is accepted only by
wrapping cannot be followed by anything. -/
theorem sweep_wrapped {M hi : Nat} {iv : Interval} {l : List Interval}
    (hsort : (iv :: l).Pairwise (fun a b => Interval.le a b = true)) (hlen : iv.len < M)
    (hstart : iv.start < M) (hwrap : M ≤ iv.start + iv.len)
    (h : sweep M ((iv.start + iv.len) % M) l = some hi) :
    l = [] ∧ iv.start + iv.len = hi + M := by
  have hmod : (iv.start + iv.len) % M = iv.start + iv.len - M := by
    rw [Nat.mod_eq_sub_mod hwrap, Nat.mod_eq_of_lt (by omega)]
  cases l with
  | nil =>
    simp only [sweep, Option.some.injEq] at h
    exact ⟨rfl, by omega⟩
  | cons iv' l' =>
    -- the wrapped end lies strictly below the start, and the list is sorted
    have hle := (List.pairwise_cons.mp hsort).1 iv' List.mem_cons_self
    rw [Interval.le_iff] at hle
    rw [sweep] at h
    split at h
    · omega
    · exact absurd h (by simp)

/-- A sweep that has come one past `hi` gets back there with one interval only. -/
theorem sweep_behind {M hi : Nat} (hroom : hi + 1 < M) {l : List Interval}
    (hsort : l.Pairwise (fun a b => Interval.le a b = true))
    (hiv : ∀ iv ∈ l, iv = ⟨hi, 1⟩ ∨ (0 < iv.len ∧ iv.len < M ∧ (iv.start + iv.len) % M ≤ hi))
    (h : sweep M (hi + 1) l = some hi) : l = [⟨hi + 1, M - 1⟩] := by
  cases l with
  | nil =>
    simp only [sweep, Option.some.injEq] at h
    omega
  | cons iv l =>
    rw [sweep] at h
    split at h
    case isFalse => exact absurd h (by simp)
    rename_i hstart
    rcases hiv iv List.mem_cons_self with hcell | ⟨hpos, hlen, hend⟩
    · rw [hcell] at hstart
      exact absurd hstart (Nat.succ_ne_self _).symm
    · have hwrap : M ≤ iv.start + iv.len := by
        by_contra hno
        rw [Nat.mod_eq_of_lt (Nat.not_le.mp hno)] at hend
        omega
      obtain ⟨rfl, hlast⟩ := sweep_wrapped hsort hlen (by omega) hwrap h
      obtain ⟨start, len⟩ := iv
      simp only at hstart hlast
      obtain rfl : len = M - 1 := by omega
      rw [hstart]

/-- **An accepted sweep tiles, but for one trick.**  The intervals' fields are machine integers,
the list is sorted, and the modular end of each, with the exception of one cell `r`, is at most
`hi`.  Then no interval wraps, unless the cell lies AT `hi` and a last interval goes all the way
round from `hi + 1`. -/
theorem sweep_tiles_or {M hi r : Nat} (hM : 1 < M) (hhi : hi < M) : ∀ {l : List Interval} {cursor : Nat},
    l.Pairwise (fun a b => Interval.le a b = true) → cursor ≤ hi →
    (∀ iv ∈ l, iv = ⟨r, 1⟩ ∨ (0 < iv.len ∧ iv.len < M ∧ (iv.start + iv.len) % M ≤ hi)) →
    sweep M cursor l = some hi →
    ∃ tiles, Tiles cursor hi tiles ∧
      (l = tiles ∨ (hi + 1 < M ∧ l = tiles ++ [⟨hi, 1⟩, ⟨hi + 1, M - 1⟩]))
  | [], cursor, _, _, _, h => ⟨[], by simpa [sweep, Tiles] using h, Or.inl rfl⟩
  | iv :: l, cursor, hsort, hcur, hiv, h => by
    rw [sweep] at h
    split at h
    case isFalse => exact absurd h (by simp)
    rename_i hstart
    have hsort' := (List.pairwise_cons.mp hsort).2
    have hiv' := fun x (hx : x ∈ l) => hiv x (List.mem_cons_of_mem _ hx)
    by_cases hend : (iv.start + iv.len) % M ≤ hi ∧ 0 < iv.len ∧ iv.len < M
    · obtain ⟨hend, hpos, hlen⟩ := hend
      have hno : iv.start + iv.len < M := by
        by_contra hwrap
        obtain ⟨-, hlast⟩ := sweep_wrapped hsort hlen (by omega) (Nat.not_lt.mp hwrap) h
        omega
      rw [Nat.mod_eq_of_lt hno] at h hend
      obtain ⟨tiles, ht, hl⟩ := sweep_tiles_or hM hhi hsort' hend hiv' h
      refine ⟨iv :: tiles, ⟨hstart, hpos, hstart ▸ ht⟩, ?_⟩
      rcases hl with rfl | ⟨hnext, rfl⟩
      · exact Or.inl rfl
      · exact Or.inr ⟨hnext, rfl⟩
    · -- the one cell, at `hi`
      rcases hiv iv List.mem_cons_self with rfl | hsane
      case inr => exact absurd ⟨hsane.2.2, hsane.1, hsane.2.1⟩ hend
      simp only at hstart h
      have hend' : hi < (r + 1) % M := Nat.not_le.mp fun hle => hend ⟨hle, Nat.one_pos, hM⟩
      have hr : r = hi ∧ hi + 1 < M := by
        rcases Nat.lt_or_ge (r + 1) M with hlt | hge
        · rw [Nat.mod_eq_of_lt hlt] at hend'
          omega
        · rw [show r + 1 = M by omega, Nat.mod_self] at hend'
          omega
      obtain ⟨rfl, hroom⟩ := hr
      rw [Nat.mod_eq_of_lt hroom] at h
      obtain rfl := sweep_behind hroom hsort' hiv' h
      exact ⟨[], hstart.symm, Or.inr ⟨hroom, rfl⟩⟩

/-- Without an exception an accepted sweep tiles. -/
theorem sweep_tiles {M hi : Nat} (hM : 1 < M) (hhi : hi < M) {l : List Interval} {cursor : Nat}
    (hsort : l.Pairwise (fun a b => Interval.le a b = true)) (hcur : cursor ≤ hi)
    (hiv : ∀ iv ∈ l, 0 < iv.len ∧ iv.len < M ∧ (iv.start + iv.len) % M ≤ hi)
    (h : sweep M cursor l = some hi) : Tiles cursor hi l := by
  obtain ⟨tiles, ht, rfl | ⟨hroom, rfl⟩⟩ :=
    @sweep_tiles_or M hi 0 hM hhi l cursor hsort hcur (fun iv hm => Or.inr (hiv iv hm)) h
  · exact ht
  · have hlast := (hiv ⟨hi, 1⟩ (by simp)).2.2
    rw [Nat.mod_eq_of_lt hroom] at hlast
    exact absurd hlast (Nat.not_succ_le_self hi)

theorem Tiles.sweep {M hi : Nat} (hhi : hi < M) : ∀ {l : List Interval} {lo : Nat},
    Tiles lo hi l → sweep M lo l = some hi
  | [], lo, h => by
    have : lo = hi := h
    simp [Lib.sweep, this]
  | iv :: l, lo, ⟨hs, hpos, hl⟩ => by
    have := hl.le
    rw [Lib.sweep, if_pos hs, Nat.mod_eq_of_lt (by omega), hs]
    exact hl.sweep hhi

/-- **Any rearrangement of a tiling is accepted once sorted.** -/
theorem sweep_sort_of_perm {M lo hi : Nat} (hhi : hi < M) {l l' : List Interval}
    (ht : Tiles lo hi l') (hp : l.Perm l') : sweep M lo (sortIntervals l) = some hi := by
  rw [sortIntervals_eq_of_perm hp ht.sorted]
  exact ht.sweep hhi

end AetherFs.Lib
