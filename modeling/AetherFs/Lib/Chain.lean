/-
# Linked chains in a finite heap

Cells of an arbitrary type lie at addresses, each with a link to the next; address 0 is the null
pointer.  `ChainFrom` says which addresses are met from a pointer.

* A chain is determined by where it starts (`ChainFrom.unique`); therefore it has no repetition
  (`ChainFrom.nodup`) and no more cells than the heap (`ChainFrom.length_le`).
* A chain depends on nothing but the links of its own cells (`ChainFrom.congr`), and taking a cell
  out is redirecting the link in front of it (`ChainFrom.unlink`).
* `walk` is the loop that follows the links to the first cell that passes a test, and remembers
  where the pointer to it is kept.  `walk_none` and `walk_some` say what it finds; the number of
  the heap's cells is enough fuel for it.
-/
import Mathlib

namespace AetherFs.Lib

/-- Cells at addresses. -/
abbrev Heap (ν : Type) := Finmap fun _ : Nat => ν

section Cells

variable {ν : Type} (heap : Heap ν) (a c : Nat)

theorem lookup_insert_ite (node : ν) :
    (heap.insert a node).lookup c = if c = a then some node else heap.lookup c := by
  by_cases h : c = a
  · rw [h, if_pos rfl, Finmap.lookup_insert]
  · rw [if_neg h, Finmap.lookup_insert_of_ne _ h]

theorem lookup_erase_ite :
    (heap.erase a).lookup c = if c = a then none else heap.lookup c := by
  by_cases h : c = a
  · rw [h, if_pos rfl, Finmap.lookup_erase]
  · rw [if_neg h, Finmap.lookup_erase_ne h]

end Cells

section Chain

variable {ν : Type} (next : ν → Nat)

/-- The link of the cell at an address. -/
def nextAt (heap : Heap ν) (a : Nat) : Option Nat := (heap.lookup a).map next

/-- From pointer `p` the cells `as` are met, and then the null pointer. -/
def ChainFrom (heap : Heap ν) : Nat → List Nat → Prop
  | p, [] => p = 0
  | p, a :: as => p = a ∧ a ≠ 0 ∧ ∃ q, nextAt next heap a = some q ∧ ChainFrom heap q as

variable {next} {heap heap' : Heap ν} {p : Nat} {as bs : List Nat}

theorem nextAt_of_lookup {a : Nat} {node : ν} (h : heap.lookup a = some node) :
    nextAt next heap a = some (next node) := by
  rw [nextAt, h, Option.map_some]

/-- **A chain is determined by its start.** -/
theorem ChainFrom.unique (h : ChainFrom next heap p as) (h' : ChainFrom next heap p bs) :
    as = bs := by
  induction as generalizing p bs with
  | nil =>
    cases bs with
    | nil => rfl
    | cons b bs =>
      obtain ⟨hp, hb, -⟩ := h'
      exact absurd (hp.symm.trans h) hb
  | cons a as ih =>
    obtain ⟨rfl, ha, q, hq, hrest⟩ := h
    cases bs with
    | nil => exact absurd h' ha
    | cons b bs =>
      obtain ⟨rfl, -, q', hq', hrest'⟩ := h'
      obtain rfl := Option.some.inj (hq.symm.trans hq')
      rw [ih hrest hrest']

theorem ChainFrom.from_mem {front back : List Nat} {a : Nat}
    (h : ChainFrom next heap p (front ++ a :: back)) : ChainFrom next heap a (a :: back) := by
  induction front generalizing p with
  | nil =>
    obtain ⟨rfl, hrest⟩ := h
    exact ⟨rfl, hrest⟩
  | cons b front ih =>
    obtain ⟨-, -, q, -, hrest⟩ := h
    exact ih hrest

theorem ChainFrom.tail {a : Nat} {node : ν} (h : ChainFrom next heap p (a :: as))
    (ha : heap.lookup a = some node) : ChainFrom next heap (next node) as := by
  obtain ⟨-, -, q, hq, hrest⟩ := h
  rw [nextAt_of_lookup ha] at hq
  obtain rfl := Option.some.inj hq
  exact hrest

theorem ChainFrom.lookup (h : ChainFrom next heap p as) {a : Nat} (ha : a ∈ as) :
    ∃ node, heap.lookup a = some node := by
  obtain ⟨front, back, rfl⟩ := List.append_of_mem ha
  obtain ⟨-, -, q, hq, -⟩ := h.from_mem
  obtain ⟨node, hnode, -⟩ := Option.map_eq_some_iff.mp hq
  exact ⟨node, hnode⟩

/-- **A chain has no repetition**: from the second visit on it would be its own tail. -/
theorem ChainFrom.nodup (h : ChainFrom next heap p as) : as.Nodup := by
  induction as generalizing p with
  | nil => exact List.nodup_nil
  | cons a as ih =>
    have hself : ChainFrom next heap a (a :: as) := by
      obtain ⟨rfl, hrest⟩ := h
      exact ⟨rfl, hrest⟩
    obtain ⟨-, -, q, -, hrest⟩ := h
    refine List.nodup_cons.mpr ⟨fun hmem => ?_, ih hrest⟩
    obtain ⟨front, back, rfl⟩ := List.append_of_mem hmem
    have hlen := congrArg List.length (hrest.from_mem.unique hself)
    simp only [List.length_cons, List.length_append] at hlen
    omega

/-- **A chain has no more cells than the heap.** -/
theorem ChainFrom.length_le (h : ChainFrom next heap p as) : as.length ≤ heap.keys.card := by
  rw [← List.toFinset_card_of_nodup h.nodup]
  refine Finset.card_le_card fun a ha => ?_
  obtain ⟨node, hnode⟩ := h.lookup (List.mem_toFinset.mp ha)
  exact Finmap.mem_keys.mpr (Finmap.mem_of_lookup_eq_some hnode)

/-- **A chain depends on the links of its cells.** -/
theorem ChainFrom.congr (h : ChainFrom next heap p as)
    (hsame : ∀ a ∈ as, nextAt next heap' a = nextAt next heap a) : ChainFrom next heap' p as := by
  induction as generalizing p with
  | nil => exact h
  | cons a as ih =>
    obtain ⟨hp, ha, q, hq, hrest⟩ := h
    obtain ⟨hhead, htail⟩ := List.forall_mem_cons.mp hsame
    exact ⟨hp, ha, q, hhead.trans hq, ih hrest htail⟩

/-- **Taking a cell out**: the cell in front of it is given its link. -/
theorem ChainFrom.unlink {front back : List Nat} {a b q : Nat}
    (h : ChainFrom next heap p (front ++ b :: a :: back)) (ha : nextAt next heap a = some q)
    (hb : nextAt next heap' b = some q)
    (hsame : ∀ c ∈ front ++ back, nextAt next heap' c = nextAt next heap c) :
    ChainFrom next heap' p (front ++ b :: back) := by
  induction front generalizing p with
  | nil =>
    obtain ⟨hp, hne, r, -, hrest⟩ := h
    obtain ⟨-, -, q', hq', hback⟩ := hrest
    obtain rfl := Option.some.inj (ha.symm.trans hq')
    exact ⟨hp, hne, q, hb, hback.congr hsame⟩
  | cons c front ih =>
    obtain ⟨hp, hne, r, hr, hrest⟩ := h
    obtain ⟨hhead, htail⟩ := List.forall_mem_cons.mp hsame
    exact ⟨hp, hne, r, hhead.trans hr, ih hrest htail⟩

end Chain

/-! ## Walking -/

/-- Where a pointer is kept: at the start of the chain, or in a cell. -/
inductive Link
  | root
  | cell (a : Nat)
deriving DecidableEq, Repr

section Walk

variable {ν : Type} (next : ν → Nat) (heap : Heap ν) (test : ν → Bool)

/-- Follow the links to the first cell that passes the test.  `none`: the fuel is used up, or the
pointer is wild; `some none`: there is no such cell. -/
def walk : Nat → Link → Nat → Option (Option (Link × Nat × ν))
  | 0, _, p => if p = 0 then some none else none
  | k + 1, link, p =>
    if p = 0 then some none
    else match heap.lookup p with
      | none => none
      | some node =>
        if test node then some (some (link, p, node)) else walk k (.cell p) (next node)

/-- The link behind some cells. -/
def linkAfter : Link → List Nat → Link
  | link, [] => link
  | _, a :: as => linkAfter (.cell a) as

theorem linkAfter_append (as : List Nat) (b : Nat) (link : Link) :
    linkAfter link (as ++ [b]) = .cell b := by
  induction as generalizing link with
  | nil => rfl
  | cons a as ih => exact ih (.cell a)

variable {next heap test} {p : Nat}

/-- **No cell passes.** -/
theorem walk_none {as : List Nat} (h : ChainFrom next heap p as)
    (hfail : ∀ a ∈ as, ∀ node, heap.lookup a = some node → test node = false) :
    ∀ (k : Nat) (link : Link), as.length ≤ k → walk next heap test k link p = some none := by
  induction as generalizing p with
  | nil =>
    intro k link _
    have hp : p = 0 := h
    cases k with
    | zero => rw [walk, if_pos hp]
    | succ k => rw [walk, if_pos hp]
  | cons a as ih =>
    intro k link hk
    obtain ⟨hhead, htail⟩ := List.forall_mem_cons.mp hfail
    obtain ⟨node, hnode⟩ := h.lookup List.mem_cons_self
    have hrest := h.tail hnode
    obtain ⟨rfl, hne, -⟩ := h
    cases k with
    | zero => exact absurd hk (Nat.not_succ_le_zero _)
    | succ k =>
      rw [walk, if_neg hne, hnode]
      simp only [hhead node hnode, Bool.false_eq_true, if_false]
      exact ih hrest htail k (.cell p) (Nat.le_of_succ_le_succ hk)

/-- **The first cell that passes.** -/
theorem walk_some {front back : List Nat} {a : Nat} {node : ν}
    (h : ChainFrom next heap p (front ++ a :: back)) (ha : heap.lookup a = some node)
    (hpass : test node = true)
    (hfail : ∀ b ∈ front, ∀ n, heap.lookup b = some n → test n = false) :
    ∀ (k : Nat) (link : Link), front.length < k →
      walk next heap test k link p = some (some (linkAfter link front, a, node)) := by
  induction front generalizing p with
  | nil =>
    intro k link hk
    obtain ⟨rfl, hne, -⟩ := h
    cases k with
    | zero => exact absurd hk (Nat.not_lt_zero _)
    | succ k =>
      rw [walk, if_neg hne, ha]
      simp only [hpass, if_true]
      rfl
  | cons b front ih =>
    intro k link hk
    obtain ⟨hhead, htail⟩ := List.forall_mem_cons.mp hfail
    obtain ⟨n, hn⟩ := h.lookup List.mem_cons_self
    have hrest := h.tail hn
    obtain ⟨rfl, hne, -⟩ := h
    cases k with
    | zero => exact absurd hk (Nat.not_lt_zero _)
    | succ k =>
      rw [walk, if_neg hne, hn]
      simp only [hhead n hn, Bool.false_eq_true, if_false]
      exact ih hrest htail k (.cell p) (Nat.lt_of_succ_lt_succ hk)

end Walk

end AetherFs.Lib
