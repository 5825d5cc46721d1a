/-
# Runs that can fail

Two monads carry the programs of this development: `Except ε` for code that only reads, and
`EStateM ε σ` for code that also writes a state, which a failure leaves as it then is.

For the first, this module inverts a successful bind and a successful loop.  For the second it
has a small program logic: `Ends E r Q` says that the outcome `r` is a success satisfying `Q`
or a failure satisfying `E`.  With `E := False` that is total correctness; with an `E` that
names the failures of the environment it says that the program itself never refuses.
-/
import Mathlib

namespace AetherFs.Lib

/-! ## 1. `Except` -/

section Except

variable {ε α β γ : Type}

theorem bind_eq_ok {x : Except ε α} {f : α → Except ε β} {b : β} :
    x >>= f = .ok b ↔ ∃ a, x = .ok a ∧ f a = .ok b := by
  cases x with
  | error e => simp [bind, Except.bind]
  | ok a => simp [bind, Except.bind]

@[simp] theorem ok_bind (a : α) (f : α → Except ε β) : (Except.ok a >>= f) = f a := rfl

@[simp] theorem error_bind (e : ε) (f : α → Except ε β) :
    ((Except.error e : Except ε α) >>= f) = .error e := rfl

@[simp] theorem pure_eq_ok (a : α) : (pure a : Except ε α) = .ok a := rfl

/-- A check in front of the rest of the code. -/
theorem ite_error_eq_ok {p : Prop} [Decidable p] {e : ε} {x : Except ε α} {a : α} :
    (if p then .error e else x) = .ok a ↔ ¬ p ∧ x = .ok a := by
  split
  · rename_i hp
    exact iff_of_false (by simp) fun h => h.1 hp
  · rename_i hp
    exact (and_iff_right hp).symm

theorem exists_error_iff {x : Except ε α} : (∃ e, x = .error e) ↔ ¬ ∃ a, x = .ok a := by
  cases x with
  | error e => simp
  | ok a => simp

theorem mapM_eq_ok {g : α → Except ε γ} : ∀ {l : List α} {cs : List γ},
    l.mapM g = .ok cs ↔ List.Forall₂ (fun a c => g a = .ok c) l cs
  | [], cs => by
    rw [List.mapM_nil, pure_eq_ok, Except.ok.injEq, List.forall₂_nil_left_iff, eq_comm]
  | a :: l, cs => by
    rw [List.mapM_cons, bind_eq_ok, List.forall₂_cons_left_iff]
    constructor
    · rintro ⟨c, hc, h⟩
      rw [bind_eq_ok] at h
      obtain ⟨cs', hcs, h⟩ := h
      rw [pure_eq_ok, Except.ok.injEq] at h
      exact ⟨c, cs', hc, mapM_eq_ok.mp hcs, h.symm⟩
    · rintro ⟨c, cs', hc, hcs, rfl⟩
      refine ⟨c, hc, ?_⟩
      rw [bind_eq_ok]
      exact ⟨cs', mapM_eq_ok.mpr hcs, rfl⟩

theorem mapM_total {g : α → Except ε γ} {l : List α} (h : ∀ a ∈ l, ∃ c, g a = .ok c) :
    ∃ cs, l.mapM g = .ok cs ∧ cs.length = l.length := by
  induction l with
  | nil => exact ⟨[], rfl, rfl⟩
  | cons a l ih =>
    obtain ⟨⟨c, hc⟩, hl⟩ := List.forall_mem_cons.mp h
    obtain ⟨cs, hcs, hlen⟩ := ih hl
    refine ⟨c :: cs, ?_, by rw [List.length_cons, List.length_cons, hlen]⟩
    rw [List.mapM_cons, hc, ok_bind, hcs, ok_bind, pure_eq_ok]

theorem forall₂_left {R : α → γ → Prop} {l : List α} {cs : List γ} (h : List.Forall₂ R l cs)
    {a : α} (ha : a ∈ l) : ∃ c, R a c := by
  induction h with
  | nil => exact absurd ha List.not_mem_nil
  | cons hac _ ih =>
    rcases List.mem_cons.mp ha with rfl | ha
    · exact ⟨_, hac⟩
    · exact ih ha

theorem map_eq_of_forall₂ {R : α → γ → Prop} {f : α → β} {g : γ → β} {l : List α} {cs : List γ}
    (h : List.Forall₂ R l cs) (hfg : ∀ a c, R a c → g c = f a) : cs.map g = l.map f := by
  induction h with
  | nil => rfl
  | cons hac _ ih => rw [List.map_cons, List.map_cons, hfg _ _ hac, ih]

/-- A loop that only checks. -/
def forEach (g : α → Except ε Unit) : List α → Except ε Unit
  | [] => .ok ()
  | a :: l => g a >>= fun _ => forEach g l

theorem forEach_eq_ok {g : α → Except ε Unit} : ∀ {l : List α},
    forEach g l = .ok () ↔ ∀ a ∈ l, g a = .ok ()
  | [] => by simp [forEach]
  | a :: l => by
    rw [forEach, bind_eq_ok, List.forall_mem_cons, ← forEach_eq_ok]
    exact ⟨fun ⟨_, h1, h2⟩ => ⟨h1, h2⟩, fun ⟨h1, h2⟩ => ⟨(), h1, h2⟩⟩

theorem forEach_map {g : γ → Except ε Unit} {f : α → γ} : ∀ (l : List α),
    forEach (fun a => g (f a)) l = forEach g (l.map f)
  | [] => rfl
  | a :: l => by rw [forEach, List.map_cons, forEach, forEach_map l]

theorem forEach_error {g : α → Except ε Unit} {l l' : List α} {a : α} {e : ε}
    (h : ∀ x ∈ l, g x = .ok ()) (ha : g a = .error e) : forEach g (l ++ a :: l') = .error e := by
  induction l with
  | nil => rw [List.nil_append, forEach, ha, error_bind]
  | cons x l ih =>
    rw [List.cons_append, forEach, h x List.mem_cons_self, ok_bind]
    exact ih fun y hy => h y (List.mem_cons_of_mem _ hy)

/-- A loop that only accumulates is a `mapM` followed by a pure fold. -/
theorem foldlM_accumulate (g : α → Except ε γ) (add : β → γ → β) : ∀ (l : List α) (b : β),
    l.foldlM (fun b a => (g a).map (add b)) b = (l.mapM g).map (fun cs => cs.foldl add b)
  | [], b => by simp [Except.map]
  | a :: l, b => by
    rw [List.foldlM_cons, List.mapM_cons]
    cases ha : g a with
    | error e => rfl
    | ok c =>
      have ih := foldlM_accumulate g add l (add b c)
      simp only [Except.map, ok_bind] at ih ⊢
      rw [ih]
      cases l.mapM g with
      | error e => rfl
      | ok cs => rfl

theorem foldlM_accumulate_error {g : α → Except ε γ} {add : β → γ → β} {e : ε} :
    ∀ {l : List α} {b : β}, (∀ a ∈ l, (∃ c, g a = .ok c) ∨ g a = .error e) →
      (∃ a ∈ l, g a = .error e) → l.foldlM (fun b a => (g a).map (add b)) b = .error e
  | [], _, _, ⟨_, hmem, _⟩ => absurd hmem List.not_mem_nil
  | a :: l, b, hone, ⟨x, hx, hxe⟩ => by
    rw [List.foldlM_cons]
    rcases hone a List.mem_cons_self with ⟨c, hc⟩ | he
    · rw [hc]
      refine foldlM_accumulate_error (fun y hy => hone y (List.mem_cons_of_mem _ hy)) ⟨x, ?_, hxe⟩
      rcases List.mem_cons.mp hx with rfl | hx
      · rw [hc] at hxe
        exact absurd hxe (by simp)
      · exact hx
    · rw [he]
      rfl

end Except

/-! ## 2. `EStateM` -/

section EStateM

variable {ε σ α β : Type}

/-- The outcome is a success in `Q`, or a failure in `E`. -/
def Ends (E : ε → Prop) (r : EStateM.Result ε σ α) (Q : α → σ → Prop) : Prop :=
  match r with
  | .ok a s => Q a s
  | .error e _ => E e

variable {E : ε → Prop}

theorem Ends.ok {a : α} {s : σ} {Q : α → σ → Prop} (h : Q a s) : Ends E (.ok a s) Q := h

theorem Ends.error {e : ε} {s : σ} {Q : α → σ → Prop} (h : E e) :
    Ends E (.error e s : EStateM.Result ε σ α) Q := h

theorem Ends.mono {r : EStateM.Result ε σ α} {Q Q' : α → σ → Prop} (h : Ends E r Q)
    (hq : ∀ a s, Q a s → Q' a s) : Ends E r Q' := by
  cases r with
  | ok a s => exact hq a s h
  | error e s => exact h

theorem Ends.bind {x : EStateM ε σ α} {f : α → EStateM ε σ β} {s : σ} {Q : α → σ → Prop}
    {R : β → σ → Prop} (hx : Ends E (x s) Q) (hf : ∀ a s', Q a s' → Ends E (f a s') R) :
    Ends E ((x >>= f) s) R := by
  change Ends E (EStateM.bind x f s) R
  unfold EStateM.bind
  cases h : x s with
  | ok a s' =>
    rw [h] at hx
    exact hf a s' hx
  | error e s' =>
    rw [h] at hx
    exact hx

theorem Ends.pure {s : σ} {a : α} {Q : α → σ → Prop} (h : Q a s) :
    Ends E ((pure a : EStateM ε σ α) s) Q := h

/-- A success tells what the postcondition says. -/
theorem Ends.of_ok {x : EStateM ε σ α} {s s' : σ} {a : α} {Q : α → σ → Prop}
    (h : Ends E (x s) Q) (hok : x s = .ok a s') : Q a s' := by
  rw [hok] at h
  exact h

theorem Ends.of_error {x : EStateM ε σ α} {s s' : σ} {e : ε} {Q : α → σ → Prop}
    (h : Ends E (x s) Q) (herr : x s = .error e s') : E e := by
  rw [herr] at h
  exact h

theorem Ends.total {r : EStateM.Result ε σ α} {Q : α → σ → Prop}
    (h : Ends (fun _ => False) r Q) : ∃ a s, r = .ok a s ∧ Q a s := by
  cases r with
  | ok a s => exact ⟨a, s, rfl, h⟩
  | error e s => exact absurd h not_false

/-- **The loop rule, over what is left to do.** -/
theorem Ends.foldlM {f : β → α → EStateM ε σ β} (I : List α → β → σ → Prop)
    (hstep : ∀ a l b s, I (a :: l) b s → Ends E (f b a s) (fun b' s' => I l b' s')) :
    ∀ {l : List α} {b : β} {s : σ}, I l b s →
      Ends E (l.foldlM f b s) (fun b' s' => I [] b' s')
  | [], _, _, h => h
  | a :: l, b, s, h => by
    rw [List.foldlM_cons]
    exact (hstep a l b s h).bind fun b' s' h' => Ends.foldlM I hstep h'

theorem Ends.mapM {f : α → EStateM ε σ β} {P : α → β → Prop} {s : σ} : ∀ {l : List α},
    (∀ a ∈ l, Ends E (f a s) (fun b s' => P a b ∧ s' = s)) →
      Ends E (l.mapM f s) (fun bs s' => List.Forall₂ P l bs ∧ s' = s)
  | [], _ => ⟨.nil, rfl⟩
  | a :: l, h => by
    obtain ⟨ha, hl⟩ := List.forall_mem_cons.mp h
    rw [List.mapM_cons]
    refine ha.bind ?_
    rintro b s' ⟨hb, rfl⟩
    refine (Ends.mapM hl).bind ?_
    rintro bs s'' ⟨hbs, rfl⟩
    exact ⟨.cons hb hbs, rfl⟩

theorem mapM_congr_left {f g : α → EStateM ε σ β} : ∀ {l : List α},
    (∀ a ∈ l, f a = g a) → l.mapM f = l.mapM g
  | [], _ => rfl
  | a :: l, h => by
    obtain ⟨ha, hl⟩ := List.forall_mem_cons.mp h
    rw [List.mapM_cons, List.mapM_cons, ha, mapM_congr_left hl]

theorem eq_map_of_forall₂ {g : α → β} {l : List α} {bs : List β}
    (h : List.Forall₂ (fun a b => b = g a) l bs) : bs = l.map g := by
  induction h with
  | nil => rfl
  | cons hb _ ih => rw [hb, ih, List.map_cons]

theorem estate_bind_ok {x : EStateM ε σ α} {f : α → EStateM ε σ β} {s s'' : σ} {b : β} :
    (x >>= f) s = .ok b s'' ↔ ∃ a s', x s = .ok a s' ∧ f a s' = .ok b s'' := by
  change EStateM.bind x f s = .ok b s'' ↔ _
  unfold EStateM.bind
  cases h : x s with
  | ok a s' => simp
  | error e s' => simp

/-- A failed sequence failed in its first part, or in the second after the first. -/
theorem estate_bind_error {x : EStateM ε σ α} {f : α → EStateM ε σ β} {s s'' : σ} {e : ε} :
    (x >>= f) s = .error e s'' ↔
      x s = .error e s'' ∨ ∃ a s', x s = .ok a s' ∧ f a s' = .error e s'' := by
  change EStateM.bind x f s = .error e s'' ↔ _
  unfold EStateM.bind
  cases h : x s with
  | ok a s' => simp
  | error e s' => simp

/-- Code that only reads, run inside code that writes. -/
def liftRead (x : σ → Except ε α) : EStateM ε σ α := fun s =>
  match x s with
  | .ok a => .ok a s
  | .error e => .error e s

theorem liftRead_ok {x : σ → Except ε α} {s s' : σ} {a : α} :
    liftRead x s = .ok a s' ↔ x s = .ok a ∧ s' = s := by
  unfold liftRead
  cases x s with
  | ok b => simp [eq_comm]
  | error e => simp

theorem liftRead_error {x : σ → Except ε α} {s s' : σ} {e : ε} :
    liftRead x s = .error e s' ↔ x s = .error e ∧ s' = s := by
  unfold liftRead
  cases x s with
  | ok b => simp
  | error e => simp [eq_comm]

theorem Ends.liftRead {x : σ → Except ε α} {s : σ} {a : α} {Q : α → σ → Prop}
    (hx : x s = .ok a) (hq : Q a s) : Ends E (liftRead x s) Q := by
  rw [Lib.liftRead, hx]
  exact hq

theorem Ends.liftRead_cases {x : σ → Except ε α} {s : σ} {Q : α → σ → Prop}
    (he : ∀ e, x s = .error e → E e) (hq : ∀ a, x s = .ok a → Q a s) :
    Ends E (Lib.liftRead x s) Q := by
  rw [Lib.liftRead]
  cases h : x s with
  | ok a => exact hq a h
  | error e => exact he e h

-- outcomes are compared by the rules above, never by running the program
attribute [irreducible] Ends

/-- The state a run ends in, whichever way it ends. -/
def finalState : EStateM.Result ε σ α → σ
  | .ok _ s => s
  | .error _ s => s

/-- What a run returns, without the state. -/
def outcome : EStateM.Result ε σ α → Except ε α
  | .ok a _ => .ok a
  | .error e _ => .error e

/-- Runs in sequence return what the same runs without a state return. -/
theorem outcome_bind {x : EStateM ε σ α} {f : α → EStateM ε σ β} {s : σ} {y : Except ε α}
    {g : α → Except ε β} (hx : outcome (x s) = y)
    (hf : ∀ a s', x s = .ok a s' → outcome (f a s') = g a) :
    outcome ((x >>= f) s) = y >>= g := by
  change outcome (EStateM.bind x f s) = y >>= g
  unfold EStateM.bind
  cases h : x s with
  | ok a s' =>
    rw [← hx, h]
    exact hf a s' h
  | error e s' =>
    rw [← hx, h]
    rfl

theorem outcome_liftRead (x : σ → Except ε α) (s : σ) : outcome (liftRead x s) = x s := by
  unfold liftRead
  cases x s with
  | ok a => rfl
  | error e => rfl

/-- Whatever `x` does, it does not change what `π` sees of the state. -/
def Keeps {τ : Type} (π : σ → τ) (x : EStateM ε σ α) : Prop := ∀ s, π (finalState (x s)) = π s

section Keeps

variable {τ : Type} {π : σ → τ}

theorem Keeps.pure (a : α) : Keeps π (pure a : EStateM ε σ α) := fun _ => rfl

theorem Keeps.bind {x : EStateM ε σ α} {f : α → EStateM ε σ β} (hx : Keeps π x)
    (hf : ∀ a, Keeps π (f a)) : Keeps π (x >>= f) := by
  intro s
  change π (finalState (EStateM.bind x f s)) = π s
  unfold EStateM.bind
  have h := hx s
  cases hr : x s with
  | ok a s' =>
    rw [hr] at h
    exact (hf a s').trans h
  | error e s' =>
    rw [hr] at h
    exact h

theorem Keeps.liftRead (x : σ → Except ε α) : Keeps π (liftRead x) := by
  intro s
  unfold Lib.liftRead
  cases x s with
  | ok a => rfl
  | error e => rfl

end Keeps

/-- `x` fails in no other way than `E`, and where it succeeds `π` sees the same state. -/
def Steady {τ : Type} (E : ε → Prop) (π : σ → τ) (x : EStateM ε σ α) : Prop :=
  ∀ s, Ends E (x s) fun _ s' => π s' = π s

section Steady

variable {γ τ : Type} {π : σ → τ}

theorem Steady.pure (a : α) : Steady E π (pure a : EStateM ε σ α) := fun _ => Ends.pure rfl

theorem Steady.bind {x : EStateM ε σ α} {f : α → EStateM ε σ β} (hx : Steady E π x)
    (hf : ∀ a, Steady E π (f a)) : Steady E π (x >>= f) := by
  intro s
  refine (hx s).bind fun a s' hs => ?_
  exact (hf a s').mono fun _ s'' hs' => hs'.trans hs

theorem Steady.foldlM {f : β → α → EStateM ε σ β} (hf : ∀ b a, Steady E π (f b a)) :
    ∀ (l : List α) (b : β), Steady E π (l.foldlM f b)
  | [], b => Steady.pure b
  | a :: l, b => by
    rw [List.foldlM_cons]
    exact (hf b a).bind fun b' => Steady.foldlM hf l b'

theorem Steady.mapM {f : α → EStateM ε σ γ} (hf : ∀ a, Steady E π (f a)) :
    ∀ l : List α, Steady E π (l.mapM f)
  | [] => Steady.pure []
  | a :: l => by
    rw [List.mapM_cons]
    exact (hf a).bind fun c => (Steady.mapM hf l).bind fun cs => Steady.pure (c :: cs)

theorem Steady.liftRead {x : σ → Except ε α} (hx : ∀ s e, x s = .error e → E e) :
    Steady E π (liftRead x) := fun s => Ends.liftRead_cases (hx s) fun _ _ => rfl

end Steady

end EStateM

end AetherFs.Lib
