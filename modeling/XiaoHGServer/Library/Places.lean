import Mathlib.Data.List.Nodup
import Mathlib.Data.List.Count
import Mathlib.Logic.Function.Basic
import Mathlib.Tactic.Common

/-!
# Tokens and places

A custody discipline: a map sends every token to its one place, and a list that
stores the tokens of a place contains each of them once. Moving a token updates
the map at that token and touches the lists of the two places involved. That no
token is in two places, or twice in one, is then part of the representation.
-/

namespace XiaoHGServer

variable {τ π : Type*} {place : τ → π} {p q : π} {l : List τ} {t u : τ}

/-- `l` lists the tokens whose place is `p`, each once. -/
def Holds (place : τ → π) (p : π) (l : List τ) : Prop :=
  l.Nodup ∧ ∀ t, t ∈ l ↔ place t = p

namespace Holds

theorem mem_iff (h : Holds place p l) : t ∈ l ↔ place t = p := h.2 t

theorem place_eq (h : Holds place p l) (ht : t ∈ l) : place t = p := (h.2 t).mp ht

theorem notMem (h : Holds place p l) (ht : place t ≠ p) : t ∉ l := fun hm => ht (h.place_eq hm)

theorem nil (h : ∀ t, place t ≠ p) : Holds place p [] := by
  simp [Holds, h]

variable [DecidableEq τ]

/-- A token of another place that does not come here leaves the list alone. -/
theorem other (h : Holds place q l) (ht : place t ≠ q) (hp : p ≠ q) :
    Holds (Function.update place t p) q l := by
  refine ⟨h.1, fun u => ?_⟩
  by_cases hu : u = t
  · subst hu
    simp [hp, h.notMem ht]
  · simp [hu, h.mem_iff]

theorem append (h : Holds place p l) (ht : place t ≠ p) :
    Holds (Function.update place t p) p (l ++ [t]) := by
  refine ⟨?_, fun u => ?_⟩
  · rw [List.nodup_append_comm]
    simpa [h.1] using h.notMem ht
  · by_cases hu : u = t
    · subst hu
      simp
    · simp [hu, h.mem_iff]

theorem cons (h : Holds place p l) (ht : place t ≠ p) :
    Holds (Function.update place t p) p (t :: l) := by
  refine ⟨List.nodup_cons.mpr ⟨h.notMem ht, h.1⟩, fun u => ?_⟩
  by_cases hu : u = t
  · subst hu
    simp
  · simp [hu, h.mem_iff]

theorem erase (h : Holds place q l) (hp : p ≠ q) :
    Holds (Function.update place t p) q (l.erase t) := by
  refine ⟨h.1.erase t, fun u => ?_⟩
  by_cases hu : u = t
  · subst hu
    simp [hp, h.1.not_mem_erase]
  · simp [hu, List.mem_erase_of_ne hu, h.mem_iff]

theorem tail (h : Holds place q (t :: l)) (hp : p ≠ q) : Holds (Function.update place t p) q l := by
  simpa using h.erase (t := t) hp

theorem eraseIdx {i : ℕ} (h : Holds place q l) (hi : l[i]? = some t) (hp : p ≠ q) :
    Holds (Function.update place t p) q (l.eraseIdx i) := by
  obtain ⟨hlt, rfl⟩ := List.getElem?_eq_some_iff.mp hi
  rw [← h.1.erase_getElem]
  exact h.erase hp

end Holds

/-- A token is at one position of the list only. -/
theorem Holds.index_unique {i j : ℕ} (h : Holds place p l) (hi : l[i]? = some t)
    (hj : l[j]? = some t) : j = i :=
  ((List.getElem?_inj (List.getElem?_eq_some_iff.mp hi).1 h.1).mp (hi.trans hj.symm)).symm

theorem Holds.perm {l' : List τ} (h : Holds place p l) (hl : l'.Perm l) : Holds place p l' :=
  ⟨hl.nodup_iff.mpr h.1, fun _ => hl.mem_iff.trans h.mem_iff⟩

section FilterMap

variable {α β : Type*} {f : α → α} {g : α → Option β} {a : α} {r : β}

theorem filterMap_modify_new : ∀ {l : List α} {i : ℕ}, l[i]? = some a → g a = none →
    g (f a) = some r → ((l.modify i f).filterMap g).Perm (r :: l.filterMap g)
  | [], i, hi, _, _ => by simp at hi
  | x :: l, 0, hi, ha, hf => by
    obtain rfl : x = a := by simpa using hi
    simp [ha, hf]
  | x :: l, i + 1, hi, ha, hf => by
    have ih := filterMap_modify_new (l := l) (i := i) (by simpa using hi) ha hf
    cases hx : g x with
    | none => simpa [hx] using ih
    | some y => simpa [hx] using (ih.cons y).trans (List.Perm.swap r y _)

theorem filterMap_modify_gone : ∀ {l : List α} {i : ℕ}, l[i]? = some a → g a = some r →
    g (f a) = none → (l.filterMap g).Perm (r :: (l.modify i f).filterMap g)
  | [], i, hi, _, _ => by simp at hi
  | x :: l, 0, hi, ha, hf => by
    obtain rfl : x = a := by simpa using hi
    simp [ha, hf]
  | x :: l, i + 1, hi, ha, hf => by
    have ih := filterMap_modify_gone (l := l) (i := i) (by simpa using hi) ha hf
    cases hx : g x with
    | none => simpa [hx] using ih
    | some y => simpa [hx] using (ih.cons y).trans (List.Perm.swap r y _)

theorem filterMap_modify_none : ∀ {l : List α} {i : ℕ}, l[i]? = some a → g a = none →
    g (f a) = none → (l.modify i f).filterMap g = l.filterMap g
  | [], i, hi, _, _ => by simp at hi
  | x :: l, 0, hi, ha, hf => by
    obtain rfl : x = a := by simpa using hi
    simp [ha, hf]
  | x :: l, i + 1, hi, ha, hf => by
    have ih := filterMap_modify_none (l := l) (i := i) (by simpa using hi) ha hf
    simp [List.filterMap_cons, ih]

theorem filterMap_eraseIdx_none : ∀ {l : List α} {i : ℕ}, l[i]? = some a → g a = none →
    (l.eraseIdx i).filterMap g = l.filterMap g
  | [], i, hi, _ => by simp at hi
  | x :: l, 0, hi, ha => by
    obtain rfl : x = a := by simpa using hi
    simp [ha]
  | x :: l, i + 1, hi, ha => by
    have ih := filterMap_eraseIdx_none (l := l) (i := i) (by simpa using hi) ha
    simp [List.filterMap_cons, ih]

end FilterMap

/-- Tokens that are numbered in the order of their creation wait at `p` until then. -/
def Unborn (place : ℕ → π) (p : π) (n : ℕ) : Prop := ∀ t, place t = p ↔ n ≤ t

theorem Unborn.create {place : ℕ → π} {n : ℕ} (h : Unborn place p n) (hq : q ≠ p) :
    Unborn (Function.update place n q) p (n + 1) := by
  intro t
  by_cases ht : t = n
  · subst ht
    simp [hq]
  · rw [Function.update_of_ne ht, h t]
    omega

theorem Unborn.move {place : ℕ → π} {n t : ℕ} (h : Unborn place p n) (ht : place t ≠ p)
    (hq : q ≠ p) : Unborn (Function.update place t q) p n := by
  intro u
  by_cases hu : u = t
  · subst hu
    simp [hq, ← h u, ht]
  · rw [Function.update_of_ne hu, h u]

theorem Unborn.next {place : ℕ → π} {n : ℕ} (h : Unborn place p n) : place n = p :=
  (h n).mpr (Nat.le_refl n)

theorem update_place_iff [DecidableEq τ] {r : π} (ht : place t ≠ r) (hq : q ≠ r) :
    Function.update place t q u = r ↔ place u = r := by
  by_cases hu : u = t
  · subst hu
    simp [hq, ht]
  · rw [Function.update_of_ne hu]

end XiaoHGServer
