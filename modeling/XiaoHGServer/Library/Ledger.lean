import Mathlib.Data.List.Range
import Mathlib.Data.List.Perm.Basic
import Mathlib.Tactic.Common

/-!
# Allocation ledgers

Objects are numbered in the order of their allocation. `Balanced` says that the
objects held and the objects given back are together all objects allocated so
far, each once. So nothing is lost, nothing held has been given back, and nothing
is given back twice.
-/

namespace XiaoHGServer

/-- Every allocated object is held or has been given back, and not both. -/
def Balanced (next : ℕ) (held freed : List ℕ) : Prop := (held ++ freed).Perm (List.range next)

namespace Balanced

variable {next x : ℕ} {held held' freed : List ℕ}

theorem nodup (h : Balanced next held freed) :
    held.Nodup ∧ freed.Nodup ∧ ∀ x ∈ held, ∀ y ∈ freed, x ≠ y :=
  List.nodup_append.mp ((List.Perm.nodup_iff h).mpr List.nodup_range)

theorem mem_iff (h : Balanced next held freed) : x ∈ held ∨ x ∈ freed ↔ x < next := by
  rw [← List.mem_append, List.Perm.mem_iff h, List.mem_range]

theorem lt (h : Balanced next held freed) (hx : x ∈ held) : x < next :=
  h.mem_iff.mp (Or.inl hx)

theorem held_nodup (h : Balanced next held freed) : held.Nodup := h.nodup.1

theorem freed_nodup (h : Balanced next held freed) : freed.Nodup := h.nodup.2.1

theorem notMem_freed (h : Balanced next held freed) (hx : x ∈ held) : x ∉ freed :=
  fun hf => h.nodup.2.2 x hx x hf rfl

theorem mem_freed (h : Balanced next held freed) (hx : x < next) (hno : x ∉ held) : x ∈ freed :=
  (h.mem_iff.mpr hx).resolve_left hno

theorem empty : Balanced 0 [] [] := .nil

theorem perm (h : Balanced next held freed) (hp : held'.Perm held) : Balanced next held' freed :=
  (hp.append_right freed).trans h

theorem alloc (h : Balanced next held freed) : Balanced (next + 1) (next :: held) freed := by
  rw [Balanced, List.range_succ, List.cons_append]
  exact (h.cons next).trans (List.perm_append_singleton next _).symm

theorem free (h : Balanced next (x :: held) freed) : Balanced next held (x :: freed) :=
  List.perm_middle.trans h

end Balanced

section Erase

variable {α : Type*} {p : α → Bool} {l : List α} {e : α}

theorem perm_cons_eraseP (h : l.find? p = some e) : l.Perm (e :: l.eraseP p) := by
  induction l with
  | nil => simp at h
  | cons a l ih =>
    rw [List.find?_cons] at h
    cases ha : p a with
    | true =>
      rw [ha] at h
      rw [List.eraseP_cons_of_pos ha, Option.some.inj h]
    | false =>
      rw [ha] at h
      rw [List.eraseP_cons_of_neg (by simp [ha])]
      exact ((ih h).cons a).trans (.swap e a _)

theorem filter_eraseP_not (p : α → Bool) (l : List α) :
    (l.eraseP p).filter (fun a => !p a) = l.filter fun a => !p a := by
  induction l with
  | nil => rfl
  | cons a l ih =>
    cases ha : p a with
    | true => rw [List.eraseP_cons_of_pos ha, List.filter_cons_of_neg (by simp [ha])]
    | false =>
      rw [List.eraseP_cons_of_neg (by simp [ha]), List.filter_cons_of_pos (by simp [ha]),
        List.filter_cons_of_pos (by simp [ha]), ih]

end Erase
end XiaoHGServer
