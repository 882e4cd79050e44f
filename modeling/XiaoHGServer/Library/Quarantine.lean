import Mathlib.Data.Int.Notation
import Mathlib.Logic.Function.Basic
import XiaoHGServer.Library.Transition

/-!
# Objects that rest before they are lent again

An object is lent, given back, rests for a while, and is free for the next one.
`quarantine wait` is this life for many objects at once: an object that was given
back at some time is freed `wait` later at the earliest. Giving back an object
that rests already has no effect.
-/

namespace XiaoHGServer

inductive Loan (α : Type*)
  | lent (a : α)
  | returned (a : α) (time : ℤ)
  | freed (a : α) (time : ℤ)
  deriving DecidableEq, Repr

inductive Phase
  | idle
  | lent
  | resting (since : ℤ)
  deriving DecidableEq, Repr

variable {α : Type*} {wait : ℤ} {a b : α} {x : Loan α} {es es' mid : List (Loan α)}
  {φ ψ : α → Phase}

def Loan.object : Loan α → α
  | .lent a => a
  | .returned a _ => a
  | .freed a _ => a

/-- The phase of the object of `x` after `x`; `none` when this is not its time. -/
def Phase.after (wait : ℤ) : Phase → Loan α → Option Phase
  | .idle, .lent _ => some .lent
  | .lent, .returned _ time => some (.resting time)
  | .resting since, .returned _ _ => some (.resting since)
  | .resting since, .freed _ time => if since + wait ≤ time then some .idle else none
  | _, _ => none

/-- The lives of the objects, none of which rests at the beginning. -/
def quarantine [DecidableEq α] (wait : ℤ) : System (α → Phase) (Loan α) where
  start φ := ∀ a since, φ a ≠ .resting since
  step φ x ψ := ∃ p, (φ x.object).after wait x = some p ∧ ψ = Function.update φ x.object p

/-- What has happened to `a` since it was lent, by its phase. -/
def Rested (wait : ℤ) (a : α) (mid : List (Loan α)) : Phase → Prop
  | .lent => True
  | .resting since => ∃ m₁ m₂, mid = m₁ ++ .returned a since :: m₂
  | .idle => ∃ m₁ m₂ m₃ time time', time + wait ≤ time' ∧
      mid = m₁ ++ .returned a time :: m₂ ++ .freed a time' :: m₃

theorem Rested.concat {p : Phase} (h : Rested wait a mid p) (x : Loan α) :
    Rested wait a (mid ++ [x]) p := by
  cases p with
  | lent => trivial
  | resting since =>
    obtain ⟨m₁, m₂, rfl⟩ := h
    exact ⟨m₁, m₂ ++ [x], by simp⟩
  | idle =>
    obtain ⟨m₁, m₂, m₃, time, time', hle, rfl⟩ := h
    exact ⟨m₁, m₂, m₃ ++ [x], time, time', hle, by simp⟩

theorem Rested.loan {p q : Phase} (h : Rested wait a mid p) (hx : x.object = a)
    (hq : p.after wait x = some q) : Rested wait a (mid ++ [x]) q := by
  subst hx
  cases x with
  | lent a =>
    cases p <;> cases hq
    trivial
  | returned a time =>
    cases p with
    | idle => cases hq
    | lent =>
      cases hq
      exact ⟨mid, [], rfl⟩
    | resting since =>
      cases hq
      exact h.concat _
  | freed a time =>
    cases p with
    | idle => cases hq
    | lent => cases hq
    | resting since =>
      simp only [Phase.after] at hq
      split_ifs at hq with hle
      cases hq
      obtain ⟨m₁, m₂, rfl⟩ := h
      exact ⟨m₁, m₂, [], since, time, hle, rfl⟩

section Runs

variable [DecidableEq α]

/-- Since any earlier lending of it, an object has been through what its phase says. -/
theorem quarantine_rested (h : (quarantine wait).Run es φ) :
    ∀ a pre mid, es = pre ++ .lent a :: mid → Rested wait a mid (φ a) := by
  refine h.trace_invariant
    (I := fun es φ => ∀ a pre mid, es = pre ++ .lent a :: mid → Rested wait a mid (φ a)) ?_ ?_
  · intro φ _ a pre mid hnil
    simp at hnil
  · rintro es φ x ψ - ih ⟨p, hp, rfl⟩ a pre mid hes
    rcases List.eq_nil_or_concat mid with rfl | ⟨mid, y, rfl⟩
    · -- lent just now
      obtain ⟨-, hx⟩ := List.append_inj' hes rfl
      obtain rfl := List.singleton_inj.mp hx
      cases hφ : φ a with
      | idle =>
        simp only [Loan.object, hφ, Phase.after, Option.some.injEq] at hp
        subst hp
        simp [Loan.object, Rested]
      | lent => simp [Loan.object, hφ, Phase.after] at hp
      | resting since => simp [Loan.object, hφ, Phase.after] at hp
    · have hsplit : es ++ [x] = (pre ++ .lent a :: mid) ++ [y] := by
        rw [hes, List.concat_eq_append]
        simp
      obtain ⟨rfl, hx⟩ := List.append_inj' hsplit rfl
      obtain rfl := List.singleton_inj.mp hx
      have hrest := ih a pre mid rfl
      rw [List.concat_eq_append]
      by_cases ha : x.object = a
      · rw [← ha, Function.update_self, ha]
        exact hrest.loan ha (ha ▸ hp)
      · rw [Function.update_of_ne (Ne.symm ha)]
        exact hrest.concat x

/-- Between two lendings an object is given back, rests for the time `wait`, and is freed. -/
theorem quarantine_apart {pre post : List (Loan α)}
    (h : (quarantine wait).Run (pre ++ .lent a :: mid ++ .lent a :: post) φ) :
    ∃ m₁ m₂ m₃ time time', time + wait ≤ time' ∧
      mid = m₁ ++ .returned a time :: m₂ ++ .freed a time' :: m₃ := by
  rw [List.append_cons] at h
  obtain ⟨ψ, hψ⟩ := h.of_append
  obtain ⟨χ, hχ, p, hp, -⟩ := hψ.of_concat
  have hrest := quarantine_rested hχ a pre mid rfl
  cases hφ : χ a with
  | idle => simpa [Rested, hφ] using hrest
  | lent => simp [Loan.object, hφ, Phase.after] at hp
  | resting since => simp [Loan.object, hφ, Phase.after] at hp

end Runs
end XiaoHGServer
