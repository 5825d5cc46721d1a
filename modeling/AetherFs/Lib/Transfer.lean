/-
# Transfers in pieces

A call that moves bytes may move fewer than it is asked to, or be interrupted before it has moved
any.  Whoever wants all of them calls again for what is left, until nothing is left, the call fails,
or it moves nothing.  `drive` is that loop, over an arbitrary call on an arbitrary state; what the
environment decides at each call is one element of a list.

* `drive_inv`: what each call keeps, with the number of bytes moved so far, holds at the end, and a
  loop that has not moved everything names the call that ended it.
* `drive_refused`: a call that is refused whatever the environment says is what the loop returns.
* `drive_returns`: as many calls as there are bytes, not counting the interrupted ones, are enough.
-/
import Mathlib

namespace AetherFs.Lib

section Drive

variable {σ α ε : Type} {again : ε → Bool} {stuck : ε}
  {call : σ → Nat → α → Except ε Nat × σ} {len : Nat}

/-- The loop: `done` bytes of `len` are moved.  An error that `again` accepts is no end; a call that
moves nothing is, with the error `stuck`.  `none` is a loop that still wants to make a call. -/
def drive (again : ε → Bool) (stuck : ε) (call : σ → Nat → α → Except ε Nat × σ) (len : Nat) :
    List α → Nat → σ → Option (Except ε Unit × σ)
  | [], done, s => if len ≤ done then some (.ok (), s) else none
  | a :: as, done, s =>
    if len ≤ done then some (.ok (), s)
    else
      match call s done a with
      | (.error e, s') => if again e then drive again stuck call len as done s' else some (.error e, s')
      | (.ok 0, s') => some (.error stuck, s')
      | (.ok (r + 1), s') => drive again stuck call len as (done + (r + 1)) s'

/-- One call moves no more than is left and keeps `I`. -/
def Advances (len : Nat) (I : Nat → σ → Prop) (done : Nat) : Except ε Nat × σ → Prop
  | (.ok r, s') => done + r ≤ len ∧ I (done + r) s'
  | (.error _, s') => I done s'

/-- The call that ended the loop: it failed with `e`, or moved nothing. -/
def EndedBy (again : ε → Bool) (stuck : ε) (call : σ → Nat → α → Except ε Nat × σ)
    (I : Nat → σ → Prop) (done : Nat) (as : List α) (e : ε) : Prop :=
  ∃ s, I done s ∧ ∃ a ∈ as, ((call s done a).1 = .error e ∧ again e = false) ∨
    ((call s done a).1 = .ok 0 ∧ e = stuck)

theorem EndedBy.cons {I : Nat → σ → Prop} {done : Nat} {as : List α} {e : ε} (a : α)
    (h : EndedBy again stuck call I done as e) : EndedBy again stuck call I done (a :: as) e := by
  obtain ⟨s, hs, b, hb, hend⟩ := h
  exact ⟨s, hs, b, List.mem_cons_of_mem a hb, hend⟩

/-- **The invariant of the loop.** -/
theorem drive_inv {as : List α} {done : Nat} {s s' : σ} {r : Except ε Unit} {I : Nat → σ → Prop}
    (h : drive again stuck call len as done s = some (r, s')) (hle : done ≤ len) (hI : I done s)
    (hcall : ∀ s done a, done < len → I done s → Advances len I done (call s done a)) :
    ∃ all, done ≤ all ∧ all ≤ len ∧ I all s' ∧ (r = .ok () → all = len) ∧
      ∀ e, r = .error e → all < len ∧ EndedBy again stuck call I all as e := by
  induction as generalizing done s with
  | nil =>
    unfold drive at h
    split at h
    · rename_i hlen
      obtain ⟨rfl, rfl⟩ := Prod.mk.inj (Option.some.inj h)
      exact ⟨done, le_rfl, hle, hI, fun _ => Nat.le_antisymm hle hlen, fun e he => by cases he⟩
    · cases h
  | cons a as ih =>
    unfold drive at h
    split at h
    · rename_i hlen
      obtain ⟨rfl, rfl⟩ := Prod.mk.inj (Option.some.inj h)
      exact ⟨done, le_rfl, hle, hI, fun _ => Nat.le_antisymm hle hlen, fun e he => by cases he⟩
    · rename_i hlen
      have hlt : done < len := Nat.not_le.mp hlen
      have hkept := hcall s done a hlt hI
      split at h
      · rename_i e s1 hc
        rw [hc] at hkept
        split at h
        · obtain ⟨all, h1, h2, h3, h4, h5⟩ := ih h hle hkept
          exact ⟨all, h1, h2, h3, h4, fun e he => ⟨(h5 e he).1, (h5 e he).2.cons a⟩⟩
        · rename_i hagain
          obtain ⟨rfl, rfl⟩ := Prod.mk.inj (Option.some.inj h)
          refine ⟨done, le_rfl, hle, hkept, (fun he => by cases he), fun e' he => ?_⟩
          cases he
          exact ⟨hlt, s, hI, a, List.mem_cons_self, Or.inl ⟨by rw [hc], by simpa using hagain⟩⟩
      · rename_i s1 hc
        rw [hc] at hkept
        obtain ⟨rfl, rfl⟩ := Prod.mk.inj (Option.some.inj h)
        refine ⟨done, le_rfl, hle, hkept.2, (fun he => by cases he), fun e' he => ?_⟩
        cases he
        exact ⟨hlt, s, hI, a, List.mem_cons_self, Or.inr ⟨by rw [hc], rfl⟩⟩
      · rename_i k s1 hc
        rw [hc] at hkept
        obtain ⟨all, h1, h2, h3, h4, h5⟩ := ih h hkept.1 hkept.2
        exact ⟨all, le_trans (Nat.le_add_right _ _) h1, h2, h3, h4,
          fun e he => ⟨(h5 e he).1, (h5 e he).2.cons a⟩⟩

/-- A call that is refused in one and the same way ends the loop, with nothing moved. -/
theorem drive_refused {as : List α} {done : Nat} {s s' : σ} {r : Except ε Unit} {e : ε}
    (h : drive again stuck call len as done s = some (r, s')) (hlt : done < len)
    (hcall : ∀ a, call s done a = (.error e, s)) : r = .error e ∧ s' = s := by
  induction as with
  | nil =>
    rw [drive, if_neg (Nat.not_le.mpr hlt)] at h
    cases h
  | cons a as ih =>
    rw [drive, if_neg (Nat.not_le.mpr hlt), hcall a] at h
    dsimp only at h
    split at h
    · exact ih h
    · obtain ⟨rfl, rfl⟩ := Prod.mk.inj (Option.some.inj h)
      exact ⟨rfl, rfl⟩

/-- **The loop returns**: `waits` are the answers that may leave it where it is. -/
theorem drive_returns (waits : α → Bool) {as : List α} {done : Nat} {s : σ}
    (hcall : ∀ s done a e, waits a = false → (call s done a).1 = .error e → again e = false)
    (h : len ≤ done + (as.filter fun a => !waits a).length) :
    ∃ r s', drive again stuck call len as done s = some (r, s') := by
  induction as generalizing done s with
  | nil =>
    exact ⟨_, _, if_pos h⟩
  | cons a as ih =>
    unfold drive
    split
    · exact ⟨_, _, rfl⟩
    · split
      · rename_i e s1 hc
        split
        · rename_i hagain
          refine ih (le_trans h ?_)
          -- only an answer that waits can be asked for again
          cases hw : waits a with
          | true => simp [hw]
          | false =>
            have hno := hcall s done a e hw (by rw [hc])
            rw [hagain] at hno
            cases hno
        · exact ⟨_, _, rfl⟩
      · exact ⟨_, _, rfl⟩
      · rename_i k s1 hc
        refine ih (le_trans h ?_)
        rw [List.filter_cons]
        split
        · rw [List.length_cons]
          omega
        · omega

end Drive

end AetherFs.Lib
