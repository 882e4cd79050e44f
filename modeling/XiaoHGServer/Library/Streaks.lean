import Mathlib.Data.List.Chain
import Mathlib.Tactic.Common

/-!
# Streaks at the end of a list

A list ends a streak of length `n` if its last `n + 1` elements are related, each
to the next. `streak` counts how long the streak is; it can be kept up from the
last element and the old count alone.
-/

namespace XiaoHGServer

variable {α : Type*} {R : α → α → Prop}

/-- The last `n` steps of the list are related ones. -/
def EndsStreak (R : α → α → Prop) (n : ℕ) (l : List α) : Prop :=
  ∃ pre run, l = pre ++ run ∧ run.length = n + 1 ∧ run.IsChain R

/-- No beginning of the list ends a streak of length `n`. -/
def StreakFree (R : α → α → Prop) (n : ℕ) (l : List α) : Prop :=
  ∀ pre, pre <+: l → ¬ EndsStreak R n pre

theorem not_endsStreak_nil {n : ℕ} : ¬ EndsStreak R n [] := by
  rintro ⟨pre, run, hnil, hlen, -⟩
  rw [eq_comm, List.append_eq_nil_iff] at hnil
  rw [hnil.2] at hlen
  cases hlen

theorem endsStreak_zero (l : List α) (t : α) : EndsStreak R 0 (l ++ [t]) :=
  ⟨l, [t], rfl, rfl, .singleton t⟩

theorem not_endsStreak_singleton {n : ℕ} (t : α) : ¬ EndsStreak R (n + 1) [t] := by
  rintro ⟨pre, run, hl, hlen, -⟩
  have := congrArg List.length hl
  rw [List.length_append, hlen, List.length_singleton] at this
  omega

theorem endsStreak_concat {n : ℕ} {l : List α} {p t : α} :
    EndsStreak R (n + 1) (l ++ [p] ++ [t]) ↔ R p t ∧ EndsStreak R n (l ++ [p]) := by
  constructor
  · rintro ⟨pre, run, hl, hlen, hchain⟩
    obtain ⟨run, t', rfl⟩ := List.eq_nil_or_concat run |>.resolve_left (by rintro rfl; cases hlen)
    rw [List.concat_eq_append] at hl hlen hchain
    rw [← List.append_assoc] at hl
    obtain ⟨hinit, ht⟩ := List.append_inj' hl rfl
    obtain rfl : t = t' := List.singleton_inj.mp ht
    rw [List.length_append, List.length_singleton] at hlen
    have hrun : run ≠ [] := by
      rintro rfl
      simp at hlen
    obtain ⟨hchain, -, hrel⟩ := List.isChain_append.mp hchain
    refine ⟨hrel p ?_ t rfl, pre, run, hinit, by omega, hchain⟩
    have hlast := congrArg List.getLast? hinit
    rw [List.getLast?_concat, List.getLast?_append_of_ne_nil _ hrun] at hlast
    exact hlast.symm
  · rintro ⟨hrel, pre, run, hl, hlen, hchain⟩
    have hrun : run ≠ [] := by
      rintro rfl
      cases hlen
    refine ⟨pre, run ++ [t], by rw [hl, List.append_assoc], by simp [hlen], ?_⟩
    refine List.isChain_append.mpr ⟨hchain, .singleton t, fun x hx y hy => ?_⟩
    have hlast := congrArg List.getLast? hl
    rw [List.getLast?_concat, List.getLast?_append_of_ne_nil _ hrun, hx] at hlast
    obtain rfl := Option.some.inj hlast
    obtain rfl := Option.some.inj hy
    exact hrel

theorem streakFree_nil {n : ℕ} : StreakFree R n [] := by
  intro pre hpre
  rw [List.prefix_nil.mp hpre]
  exact not_endsStreak_nil

theorem streakFree_concat {n : ℕ} {l : List α} {t : α} :
    StreakFree R n (l ++ [t]) ↔ StreakFree R n l ∧ ¬ EndsStreak R n (l ++ [t]) := by
  constructor
  · intro h
    exact ⟨fun pre hpre => h pre (hpre.trans (List.prefix_append _ _)), h _ (List.prefix_refl _)⟩
  · rintro ⟨hl, ht⟩ pre hpre
    rcases List.prefix_concat_iff.mp hpre with rfl | hpre
    · exact ht
    · exact hl pre hpre

section Count

variable [DecidableRel R]

variable (R) in
/-- The streak that a list, given in reverse, ends. -/
def reverseStreak : List α → ℕ
  | t :: p :: l => if R p t then reverseStreak (p :: l) + 1 else 0
  | _ => 0

variable (R) in
def streak (l : List α) : ℕ := reverseStreak R l.reverse

theorem streak_singleton (t : α) : streak R [t] = 0 := rfl

theorem streak_concat {l : List α} {p t : α} :
    streak R (l ++ [p] ++ [t]) = if R p t then streak R (l ++ [p]) + 1 else 0 := by
  simp [streak, reverseStreak]

/-- The count tells which streaks the list ends. -/
theorem endsStreak_iff {n : ℕ} {l : List α} {t : α} :
    EndsStreak R n (l ++ [t]) ↔ n ≤ streak R (l ++ [t]) := by
  induction l using List.reverseRecOn generalizing n t with
  | nil =>
    cases n with
    | zero => exact iff_of_true (endsStreak_zero [] t) (Nat.zero_le _)
    | succ n => exact iff_of_false (not_endsStreak_singleton t) (by simp [streak_singleton])
  | append_singleton l p ih =>
    cases n with
    | zero => exact iff_of_true (endsStreak_zero _ t) (Nat.zero_le _)
    | succ n =>
      rw [endsStreak_concat, streak_concat, ih]
      split_ifs with hrel
      · simp [hrel]
      · simp [hrel]

end Count
end XiaoHGServer
