/-
# Searches

The loop `while (low < high)` that halves an interval, over an arbitrary test of positions.  It is
driven by a bound on its length so that it computes; `bisect_eq` says that the bound is enough and
what is found: where the test holds exactly in front of a position, that position.

A list that is kept sorted by such searches is a map (`find_of_sorted`, `find_insertAt`).

And the loop that keeps the best candidate so far and replaces it by a strictly better one: it ends
with the first of the greatest (`scanMax_eq_some_iff`).
-/
import Mathlib

namespace AetherFs.Lib

section Search

variable (below : Nat → Bool)

/-- At most `k` turns of the loop. -/
def bisectLoop : Nat → Nat → Nat → Nat
  | 0, low, _ => low
  | k + 1, low, high =>
    if low < high then
      (if below ((low + high) / 2) then bisectLoop k ((low + high) / 2 + 1) high
        else bisectLoop k low ((low + high) / 2))
    else low

/-- The loop on `[0, n)`. -/
def bisect (n : Nat) : Nat := bisectLoop below n 0 n

variable {below}

/-- **The loop closes in on the border.** -/
theorem bisectLoop_eq {r n : Nat} (h : ∀ i, i < n → (below i = true ↔ i < r)) (k : Nat) :
    ∀ low high, low ≤ r → r ≤ high → high ≤ n → high - low ≤ k → bisectLoop below k low high = r := by
  induction k with
  | zero =>
    intro low high hlow hhigh _ hk
    rw [bisectLoop]
    omega
  | succ k ih =>
    intro low high hlow hhigh hn hk
    rw [bisectLoop]
    split
    · have hmid := h ((low + high) / 2) (by omega)
      cases hb : below ((low + high) / 2) with
      | true =>
        rw [if_pos rfl]
        have := hmid.mp hb
        exact ih _ _ (by omega) hhigh hn (by omega)
      | false =>
        rw [if_neg (by simp)]
        have : ¬ (low + high) / 2 < r := fun hlt => absurd (hmid.mpr hlt) (by simp [hb])
        exact ih _ _ hlow (by omega) (by omega) (by omega)
    · omega

/-- **What bisection finds.** -/
theorem bisect_eq {r n : Nat} (hr : r ≤ n) (h : ∀ i, i < n → (below i = true ↔ i < r)) :
    bisect below n = r :=
  bisectLoop_eq h n 0 n (Nat.zero_le r) hr (le_refl n) (le_refl n)

theorem bisectLoop_le (k : Nat) : ∀ low high, low ≤ high → bisectLoop below k low high ≤ high := by
  induction k with
  | zero =>
    intro low high h
    exact h
  | succ k ih =>
    intro low high h
    rw [bisectLoop]
    split
    · split
      · exact ih _ _ (by omega)
      · exact (ih low _ (by omega)).trans (by omega)
    · exact h

theorem bisectLoop_congr {below' : Nat → Bool} {n : Nat} (h : ∀ i, i < n → below i = below' i)
    (k : Nat) : ∀ low high, high ≤ n → bisectLoop below k low high = bisectLoop below' k low high := by
  induction k with
  | zero =>
    intro low high _
    rfl
  | succ k ih =>
    intro low high hn
    rw [bisectLoop, bisectLoop]
    split
    · rw [h _ (by omega), ih _ _ hn, ih _ _ (by omega)]
    · rfl

theorem bisect_congr {below' : Nat → Bool} {n : Nat} (h : ∀ i, i < n → below i = below' i) :
    bisect below n = bisect below' n :=
  bisectLoop_congr h n 0 n (le_refl n)

theorem bisect_le (n : Nat) : bisect below n ≤ n := bisectLoop_le n 0 n (Nat.zero_le n)

end Search

/-! ## Lists

A test that stays true from where it first is true. -/

section Lists

variable {α : Type} {p : α → Bool} {l : List α}

theorem not_mem_take_findIdx {a : α} (h : a ∈ l.take (l.findIdx p)) : p a = false := by
  obtain ⟨i, hi, rfl⟩ := List.mem_take_iff_getElem.mp h
  exact List.not_of_lt_findIdx (Nat.lt_of_lt_of_le hi (Nat.min_le_left _ _))

theorem mem_drop_findIdx (hmono : l.Pairwise fun a b => p a = true → p b = true) {a : α}
    (h : a ∈ l.drop (l.findIdx p)) : p a = true := by
  obtain ⟨i, hi, rfl⟩ := List.mem_drop_iff_getElem.mp h
  have hfirst : p l[l.findIdx p] = true := List.findIdx_getElem
  rcases Nat.eq_zero_or_pos i with rfl | hpos
  · exact hfirst
  · exact List.pairwise_iff_getElem.mp hmono _ _ (by omega) (by omega) (by omega) hfirst

/-- **Bisection in a sorted list** finds the first element that meets the test, or the end. -/
theorem bisect_findIdx (hmono : l.Pairwise fun a b => p a = true → p b = true) {below : Nat → Bool}
    (hbelow : ∀ i (hi : i < l.length), below i = !p l[i]) :
    bisect below l.length = l.findIdx p := by
  refine bisect_eq List.findIdx_le_length fun i hi => ?_
  rw [hbelow i hi, Bool.not_eq_true']
  constructor
  · intro hfalse
    by_contra hge
    have hin : l[i] ∈ l.drop (l.findIdx p) :=
      List.mem_drop_iff_getElem.mpr ⟨i - l.findIdx p, by omega, by congr 1; omega⟩
    rw [mem_drop_findIdx hmono hin] at hfalse
    exact absurd hfalse (by simp)
  · intro hlt
    exact List.not_of_lt_findIdx hlt

end Lists

/-! ## Sorted lists as maps

A list that is sorted by a key holds, under each key, the first element that has it. -/

section SortedMap

variable {α : Type} {key : α → Nat} {l : List α}

/-- Where an element with a given key belongs. -/
def placeOf (key : α → Nat) (l : List α) (x : Nat) : Nat := l.findIdx fun a => decide (x ≤ key a)

/-- The list with an element put in its place. -/
def insertAt (l : List α) (i : Nat) (a : α) : List α := l.take i ++ a :: l.drop i

theorem le_key_mono (h : l.Pairwise fun a b => key a ≤ key b) (x : Nat) :
    l.Pairwise fun a b => decide (x ≤ key a) = true → decide (x ≤ key b) = true := by
  refine h.imp fun hab ha => ?_
  rw [decide_eq_true_eq] at ha ⊢
  exact ha.trans hab

theorem key_lt_of_mem_take {x : Nat} {a : α} (h : a ∈ l.take (placeOf key l x)) : key a < x := by
  have hnot : decide (x ≤ key a) = false :=
    @not_mem_take_findIdx α (fun b => decide (x ≤ key b)) l a h
  exact Nat.not_le.mp (of_decide_eq_false hnot)

theorem le_key_of_mem_drop (hs : l.Pairwise fun a b => key a ≤ key b) {x : Nat} {a : α}
    (h : a ∈ l.drop (placeOf key l x)) : x ≤ key a := by
  have hin : decide (x ≤ key a) = true := mem_drop_findIdx (le_key_mono hs x) h
  exact of_decide_eq_true hin

/-- **An insert keeps the order.** -/
theorem insertAt_sorted (hs : l.Pairwise fun a b => key a ≤ key b) (a : α) :
    (insertAt l (placeOf key l (key a)) a).Pairwise fun a b => key a ≤ key b := by
  refine List.pairwise_append.mpr ⟨hs.sublist (List.take_sublist _ _),
    List.pairwise_cons.mpr ⟨fun b hb => le_key_of_mem_drop hs hb, hs.sublist (List.drop_sublist _ _)⟩,
    fun b hb c hc => ?_⟩
  rcases List.mem_cons.mp hc with rfl | hc
  · exact (key_lt_of_mem_take hb).le
  · exact (key_lt_of_mem_take hb).le.trans (le_key_of_mem_drop hs hc)

/-- The first element that is not below a key is the first one that has it, if one has. -/
theorem find_of_sorted (hs : l.Pairwise fun a b => key a ≤ key b) (x : Nat) :
    (l.find? fun a => decide (x ≤ key a)).filter (fun a => decide (key a = x))
      = l.find? fun a => decide (key a = x) := by
  induction l with
  | nil => rfl
  | cons a l ih =>
    obtain ⟨ha, hl⟩ := List.pairwise_cons.mp hs
    rw [List.find?_cons, List.find?_cons]
    rcases Nat.lt_trichotomy (key a) x with hlt | heq | hgt
    · rw [decide_eq_false (by omega), decide_eq_false (by omega)]
      exact ih hl
    · rw [decide_eq_true (by omega), decide_eq_true heq]
      simp [Option.filter, heq]
    · rw [decide_eq_true (by omega), decide_eq_false (by omega)]
      -- everything behind it is beyond the key
      have hnone : (l.find? fun b => decide (key b = x)) = none := by
        rw [List.find?_eq_none]
        intro b hb h
        have hab := ha b hb
        have hbx := of_decide_eq_true h
        omega
      simp only [hnone, Option.filter]
      rw [if_neg (by simp only [decide_eq_true_eq]; omega)]

/-- **What is inserted is found, and nothing else is hidden by it.** -/
theorem find_insertAt (a : α) (x : Nat) :
    ((insertAt l (placeOf key l (key a)) a).find? fun b => decide (key b = x))
      = if x = key a then some a else l.find? fun b => decide (key b = x) := by
  split
  · next hx =>
    have hnone : ((l.take (placeOf key l (key a))).find? fun b => decide (key b = x)) = none := by
      rw [List.find?_eq_none]
      intro b hb h
      have hlt := key_lt_of_mem_take hb
      have hbx := of_decide_eq_true h
      omega
    rw [insertAt, List.find?_append, hnone, Option.none_or, List.find?_cons,
      decide_eq_true hx.symm]
  · next hx =>
    rw [insertAt, List.find?_append, List.find?_cons, decide_eq_false fun h => hx h.symm,
      ← List.find?_append, List.take_append_drop]

end SortedMap

/-! ## The first of the greatest -/

section Greatest

variable {α β : Type} {key : α → Nat}

/-- The loop, with the best candidate so far and its key.  The key 0 is no candidate. -/
def scanMax (key : α → Nat) : List α → Option α → Nat → Option α
  | [], best, _ => best
  | a :: l, best, top => if top < key a then scanMax key l (some a) (key a) else scanMax key l best top

/-- `c` is a candidate, and the first one with the greatest key. -/
def FirstMax (key : α → Nat) (l : List α) (c : α) : Prop :=
  ∃ before after, l = before ++ c :: after ∧ 0 < key c ∧ (∀ a ∈ before, key a < key c) ∧
    ∀ a ∈ after, key a ≤ key c

/-- **What the loop does** from a candidate on: it keeps it, or ends with the first of the greatest
among those that are greater. -/
theorem scanMax_cases : ∀ (l : List α) (best : Option α) (top : Nat),
    (scanMax key l best top = best ∧ ∀ a ∈ l, key a ≤ top) ∨
      ∃ before c after, scanMax key l best top = some c ∧ l = before ++ c :: after ∧ top < key c ∧
        (∀ a ∈ before, key a < key c) ∧ ∀ a ∈ after, key a ≤ key c
  | [], best, top => Or.inl ⟨rfl, fun a ha => absurd ha List.not_mem_nil⟩
  | x :: l, best, top => by
    rw [scanMax]
    by_cases hx : top < key x
    · rw [if_pos hx]
      rcases scanMax_cases l (some x) (key x) with ⟨hbest, hle⟩ | ⟨b, c, d, hc, rfl, hlt, hb, hd⟩
      · exact Or.inr ⟨[], x, l, hbest, rfl, hx, fun a ha => absurd ha List.not_mem_nil, hle⟩
      · refine Or.inr ⟨x :: b, c, d, hc, rfl, Nat.lt_trans hx hlt, ?_, hd⟩
        exact List.forall_mem_cons.mpr ⟨hlt, hb⟩
    · rw [if_neg hx]
      rcases scanMax_cases l best top with ⟨hbest, hle⟩ | ⟨b, c, d, hc, rfl, hlt, hb, hd⟩
      · exact Or.inl ⟨hbest, List.forall_mem_cons.mpr ⟨Nat.not_lt.mp hx, hle⟩⟩
      · refine Or.inr ⟨x :: b, c, d, hc, rfl, hlt, ?_, hd⟩
        exact List.forall_mem_cons.mpr ⟨Nat.lt_of_le_of_lt (Nat.not_lt.mp hx) hlt, hb⟩

theorem FirstMax.mem {l : List α} {c : α} (h : FirstMax key l c) : c ∈ l := by
  obtain ⟨before, after, rfl, -⟩ := h
  exact List.mem_append_right _ List.mem_cons_self

theorem FirstMax.pos {l : List α} {c : α} (h : FirstMax key l c) : 0 < key c := by
  obtain ⟨-, -, -, hpos, -⟩ := h
  exact hpos

theorem FirstMax.le {l : List α} {c : α} (h : FirstMax key l c) : ∀ a ∈ l, key a ≤ key c := by
  obtain ⟨before, after, rfl, -, hb, ha⟩ := h
  intro a hmem
  rcases List.mem_append.mp hmem with hmem | hmem
  · exact Nat.le_of_lt (hb a hmem)
  · rcases List.mem_cons.mp hmem with rfl | hmem
    · exact Nat.le_refl _
    · exact ha a hmem

theorem FirstMax.unique {l : List α} {c c' : α} (h : FirstMax key l c) (h' : FirstMax key l c') :
    c = c' := by
  obtain ⟨b, d, rfl, -, hb, hd⟩ := h
  obtain ⟨b', d', heq, -, hb', hd'⟩ := h'
  rcases List.append_eq_append_iff.mp heq with ⟨mid, rfl, hmid⟩ | ⟨mid, rfl, hmid⟩
  · cases mid with
    | nil => exact (List.cons.inj hmid).1
    | cons x mid =>
      obtain ⟨rfl, rfl⟩ := List.cons.inj hmid
      have hlt := hb' c (List.mem_append_right _ List.mem_cons_self)
      have hle := hd c' (List.mem_append_right _ List.mem_cons_self)
      exact absurd hlt (Nat.not_lt.mpr hle)
  · cases mid with
    | nil => exact (List.cons.inj hmid).1.symm
    | cons x mid =>
      obtain ⟨rfl, rfl⟩ := List.cons.inj hmid
      have hlt := hb c' (List.mem_append_right _ List.mem_cons_self)
      have hle := hd' c (List.mem_append_right _ List.mem_cons_self)
      exact absurd hlt (Nat.not_lt.mpr hle)

theorem scanMax_eq_none_iff {l : List α} : scanMax key l none 0 = none ↔ ∀ a ∈ l, key a = 0 := by
  rcases @scanMax_cases α key l none 0 with ⟨hnone, hle⟩ | ⟨b, c, d, hc, rfl, hlt, -⟩
  · exact iff_of_true hnone fun a ha => Nat.le_zero.mp (hle a ha)
  · refine iff_of_false (by simp [hc]) fun h => ?_
    exact absurd (h c (List.mem_append_right _ List.mem_cons_self)) (Nat.pos_iff_ne_zero.mp hlt)

/-- **What the loop finds.** -/
theorem scanMax_eq_some_iff {l : List α} {c : α} :
    scanMax key l none 0 = some c ↔ FirstMax key l c := by
  rcases @scanMax_cases α key l none 0 with ⟨hnone, hle⟩ | ⟨b, x, d, hx, heq, hlt, hb, hd⟩
  · refine iff_of_false (by simp [hnone]) fun h => ?_
    exact absurd h.pos (Nat.not_lt.mpr (hle c h.mem))
  · have hfirst : FirstMax key l x := ⟨b, d, heq, hlt, hb, hd⟩
    rw [hx, Option.some.injEq]
    exact ⟨fun h => h ▸ hfirst, fun h => hfirst.unique h⟩

/-- Where there is a candidate, there is a first of the greatest. -/
theorem exists_firstMax {l : List α} {a : α} (ha : a ∈ l) (hpos : 0 < key a) :
    ∃ c, FirstMax key l c := by
  cases h : scanMax key l none 0 with
  | none => exact absurd (scanMax_eq_none_iff.mp h a ha) (Nat.pos_iff_ne_zero.mp hpos)
  | some c => exact ⟨c, scanMax_eq_some_iff.mp h⟩

theorem FirstMax.map {key' : β → Nat} {f : α → β} {l : List α} {c : α} (h : FirstMax key l c)
    (hpos : 0 < key' (f c)) (hle : ∀ a ∈ l, key' (f a) ≤ key' (f c))
    (heq : ∀ a ∈ l, key' (f a) = key' (f c) → key a = key c) : FirstMax key' (l.map f) (f c) := by
  obtain ⟨b, d, rfl, -, hb, -⟩ := h
  refine ⟨b.map f, d.map f, by rw [List.map_append, List.map_cons], hpos, ?_, ?_⟩
  · intro y hy
    obtain ⟨a, ha, rfl⟩ := List.mem_map.mp hy
    have hmem : a ∈ b ++ c :: d := List.mem_append_left _ ha
    refine Nat.lt_of_le_of_ne (hle a hmem) fun hsame => ?_
    exact absurd (heq a hmem hsame) (Nat.ne_of_lt (hb a ha))
  · intro y hy
    obtain ⟨a, ha, rfl⟩ := List.mem_map.mp hy
    exact hle a (List.mem_append_right _ (List.mem_cons_of_mem _ ha))

end Greatest

end AetherFs.Lib
