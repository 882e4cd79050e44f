import Mathlib.Data.List.Basic
import Mathlib.Logic.Function.Basic
import Mathlib.Tactic.Common

/-!
# Addresses that are used again

Allocations are numbered in their order, and each has an address, which may be that
of an earlier one that is gone. A pointer is an address: releasing it releases the
allocation that is there now, which need not be the one the pointer was made for. It
is, as long as nothing is released twice.
-/

namespace XiaoHGServer

variable {A : Type*}

/-- Where the allocations are, and which of them have been released. -/
structure AddressMap (A : Type*) where
  address : ℕ → A
  gone : ℕ → Bool

namespace AddressMap

variable {m : AddressMap A} {n x b : ℕ} {a : A}

def place (m : AddressMap A) (b : ℕ) (a : A) : AddressMap A where
  address := Function.update m.address b a
  gone := Function.update m.gone b false

/-- The pointer to allocation `x` is released, and with it whatever is at its address. -/
def free [DecidableEq A] (m : AddressMap A) (x : ℕ) : AddressMap A :=
  { m with gone := fun b => m.gone b || m.address b == m.address x }

/-- Nothing that lives is at address `a`. -/
def Vacant (m : AddressMap A) (n : ℕ) (a : A) : Prop := ∀ b < n, m.gone b = false → m.address b ≠ a

instance [DecidableEq A] (m : AddressMap A) (n : ℕ) (a : A) : Decidable (m.Vacant n a) :=
  inferInstanceAs (Decidable (∀ b < n, _))

/-- Of the first `n` allocations, those that live are at different addresses. -/
def Separate (m : AddressMap A) (n : ℕ) : Prop :=
  ∀ b < n, ∀ b' < n, m.gone b = false → m.gone b' = false → m.address b = m.address b' → b = b'

theorem separate_zero : m.Separate 0 := fun b hb => absurd hb (Nat.not_lt_zero b)

theorem Separate.place (h : m.Separate n) (ha : m.Vacant n a) :
    (m.place n a).Separate (n + 1) := by
  have old {b : ℕ} (hb : b < n + 1) (hne : b ≠ n) : b < n :=
    Nat.lt_of_le_of_ne (Nat.le_of_lt_succ hb) hne
  intro b hb b' hb' hlive hlive' haddr
  by_cases hbn : b = n <;> by_cases hbn' : b' = n
  · rw [hbn, hbn']
  · simp only [AddressMap.place, hbn, Function.update_self, Function.update_of_ne hbn']
      at haddr hlive'
    exact absurd haddr.symm (ha b' (old hb' hbn') hlive')
  · simp only [AddressMap.place, hbn', Function.update_self, Function.update_of_ne hbn]
      at haddr hlive
    exact absurd haddr (ha b (old hb hbn) hlive)
  · simp only [AddressMap.place, Function.update_of_ne hbn, Function.update_of_ne hbn']
      at haddr hlive hlive'
    exact h b (old hb hbn) b' (old hb' hbn') hlive hlive' haddr

variable [DecidableEq A]

theorem Separate.free (h : m.Separate n) : (m.free x).Separate n := by
  intro b hb b' hb' hlive hlive' haddr
  simp only [AddressMap.free, Bool.or_eq_false_iff] at hlive hlive'
  exact h b hb b' hb' hlive.1 hlive'.1 haddr

theorem Separate.gone_free (h : m.Separate n) (hx : x < n) (hlive : m.gone x = false) (hb : b < n) :
    (m.free x).gone b = true ↔ m.gone b = true ∨ b = x := by
  simp only [AddressMap.free, Bool.or_eq_true, beq_iff_eq]
  constructor
  · rintro (hgone | haddr)
    · exact Or.inl hgone
    · by_cases hgone : m.gone b = true
      · exact Or.inl hgone
      · exact Or.inr (h b hb x hx (by simpa using hgone) hlive haddr)
  · rintro (hgone | rfl)
    · exact Or.inl hgone
    · exact Or.inr rfl

/-- The map says the same of the first `n` allocations as a list of what has been released. -/
def Tracks (m : AddressMap A) (n : ℕ) (released : List ℕ) : Prop :=
  m.Separate n ∧ ∀ b < n, m.gone b = true ↔ b ∈ released

variable {released : List ℕ}

omit [DecidableEq A] in
theorem Tracks.place (h : m.Tracks n released) (ha : m.Vacant n a) (hn : n ∉ released) :
    (m.place n a).Tracks (n + 1) released := by
  refine ⟨h.1.place ha, fun b hb => ?_⟩
  by_cases hbn : b = n
  · simp [AddressMap.place, hbn, hn]
  · simp only [AddressMap.place, Function.update_of_ne hbn]
    exact h.2 b (Nat.lt_of_le_of_ne (Nat.le_of_lt_succ hb) hbn)

theorem Tracks.free (h : m.Tracks n released) (hx : x < n) (hno : x ∉ released) :
    (m.free x).Tracks n (x :: released) := by
  have hlive : m.gone x = false := by
    rw [← Bool.not_eq_true, h.2 x hx]
    exact hno
  refine ⟨h.1.free, fun b hb => ?_⟩
  rw [h.1.gone_free hx hlive hb, h.2 b hb, List.mem_cons, or_comm]

end AddressMap
end XiaoHGServer
