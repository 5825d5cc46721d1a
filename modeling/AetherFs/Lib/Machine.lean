/-
# Runs of a machine

A machine is a step function on states; a run is the list of the calls made on it.  Two notions
are enough for what is said about runs here: the states a run passes through (`states`), and a
condition that holds at every call, in the state it is made in (`Along`).

`run_inv_mem` is the invariant rule.  `states_good_iff` is the rule for a machine that can go WRONG:
where each call keeps the machine good exactly under a condition on the call, a run stays good to
the end exactly when every one of its calls meets that condition.
-/
import Mathlib

namespace AetherFs.Lib

section Machine

variable {σ α : Type} {step : σ → α → σ}

/-- The states of a run, from the one it starts in. -/
def states (step : σ → α → σ) : σ → List α → List σ
  | s, [] => [s]
  | s, a :: as => s :: states step (step s a) as

/-- Every call of the run meets `P`. -/
def Along (step : σ → α → σ) (P : σ → α → Prop) : σ → List α → Prop
  | _, [] => True
  | s, a :: as => P s a ∧ Along step P (step s a) as

/-- A condition every call meets in every state. -/
theorem along_of_forall {P : σ → α → Prop} (h : ∀ s a, P s a) (as : List α) :
    ∀ s, Along step P s as := by
  induction as with
  | nil =>
    intro s
    trivial
  | cons a as ih =>
    intro s
    exact ⟨h s a, ih (step s a)⟩

theorem mem_states_self (s : σ) (as : List α) : s ∈ states step s as := by
  cases as with
  | nil => exact List.mem_singleton.mpr rfl
  | cons a as => exact List.mem_cons_self

theorem foldl_mem_states (as : List α) : ∀ s : σ, as.foldl step s ∈ states step s as := by
  induction as with
  | nil =>
    intro s
    exact List.mem_singleton.mpr rfl
  | cons a as ih =>
    intro s
    exact List.mem_cons_of_mem _ (ih (step s a))

/-- **The invariant rule**, where the calls themselves meet a condition. -/
theorem run_inv_mem {Inv : σ → Prop} {P : α → Prop}
    (hstep : ∀ {s}, Inv s → ∀ a, P a → Inv (step s a)) (as : List α) :
    ∀ {s t}, Inv s → (∀ a ∈ as, P a) → t ∈ states step s as → Inv t := by
  induction as with
  | nil =>
    intro s t hs _ ht
    rw [List.mem_singleton.mp ht]
    exact hs
  | cons a as ih =>
    intro s t hs hP ht
    obtain ⟨ha, has⟩ := List.forall_mem_cons.mp hP
    rcases List.mem_cons.mp ht with rfl | ht
    · exact hs
    · exact ih (hstep hs a ha) has ht

/-- The same where every call keeps the invariant. -/
theorem run_inv {Inv : σ → Prop} (hstep : ∀ {s}, Inv s → ∀ a, Inv (step s a)) (as : List α)
    {s t : σ} (hs : Inv s) (ht : t ∈ states step s as) : Inv t :=
  @run_inv_mem σ α step Inv (fun _ => True) (fun hs a _ => hstep hs a) as s t hs
    (fun _ _ => trivial) ht

/-- The same where the calls meet a condition in the state they are made in. -/
theorem along_inv {Inv : σ → Prop} {P : σ → α → Prop}
    (hstep : ∀ s a, Inv s → P s a → Inv (step s a)) (as : List α) :
    ∀ {s t}, Inv s → Along step P s as → t ∈ states step s as → Inv t := by
  induction as with
  | nil =>
    intro s t hs _ ht
    rw [List.mem_singleton.mp ht]
    exact hs
  | cons a as ih =>
    intro s t hs hP ht
    rcases List.mem_cons.mp ht with rfl | ht
    · exact hs
    · exact ih (hstep s a hs hP.1) hP.2 ht

/-- **The exactness rule.**  In a state that satisfies the invariant a call leads to a good state
only if it meets `Ok`, and if it does the invariant is kept. -/
theorem states_good_iff {Inv Good : σ → Prop} {Valid Ok : σ → α → Prop}
    (hgood : ∀ s, Inv s → Good s)
    (hkeep : ∀ s a, Inv s → Valid s a → Ok s a → Inv (step s a))
    (hbreak : ∀ s a, Inv s → Valid s a → Good (step s a) → Ok s a) (as : List α) :
    ∀ s, Inv s → Along step Valid s as →
      ((∀ t ∈ states step s as, Good t) ↔ Along step Ok s as) := by
  induction as with
  | nil =>
    intro s hs _
    refine ⟨fun _ => trivial, fun _ t ht => ?_⟩
    rw [List.mem_singleton.mp ht]
    exact hgood s hs
  | cons a as ih =>
    intro s hs hvalid
    obtain ⟨ha, has⟩ := hvalid
    constructor
    · intro h
      have hok : Ok s a := hbreak s a hs ha (h _ (List.mem_cons_of_mem _ (mem_states_self _ _)))
      have hrest := ih (step s a) (hkeep s a hs ha hok) has
      exact ⟨hok, hrest.mp fun t ht => h t (List.mem_cons_of_mem _ ht)⟩
    · intro h t ht
      obtain ⟨hok, hrest⟩ := h
      rcases List.mem_cons.mp ht with rfl | ht
      · exact hgood _ hs
      · exact (ih (step s a) (hkeep s a hs ha hok) has).mpr hrest t ht

/-- **The same for what is asked of every call**: where it is met exactly under a condition on the
call, and that condition keeps the invariant. -/
theorem along_iff {Inv : σ → Prop} {Valid P Ok : σ → α → Prop}
    (hiff : ∀ s a, Inv s → Valid s a → (P s a ↔ Ok s a))
    (hkeep : ∀ s a, Inv s → Valid s a → Ok s a → Inv (step s a)) (as : List α) :
    ∀ s, Inv s → Along step Valid s as → (Along step P s as ↔ Along step Ok s as) := by
  induction as with
  | nil =>
    intro s _ _
    exact Iff.rfl
  | cons a as ih =>
    intro s hs hvalid
    obtain ⟨ha, has⟩ := hvalid
    constructor
    · rintro ⟨hp, hrest⟩
      have hok := (hiff s a hs ha).mp hp
      exact ⟨hok, (ih _ (hkeep s a hs ha hok) has).mp hrest⟩
    · rintro ⟨hok, hrest⟩
      exact ⟨(hiff s a hs ha).mpr hok, (ih _ (hkeep s a hs ha hok) has).mpr hrest⟩

end Machine

end AetherFs.Lib
