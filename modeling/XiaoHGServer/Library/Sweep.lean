import Mathlib.Data.List.Perm.Subperm
import Mathlib.Order.Lattice
import Mathlib.Tactic.Common

/-!
# Sweeps over a queue

A sweep takes the first item out of a queue for as long as its key is not after the
present. A turn may put items with later keys back, and it may drop items of its
choice. Every item that is due is then looked at once, in the order of the keys,
unless an earlier turn has dropped it; and whatever no turn drops is accounted for.
-/

namespace XiaoHGServer

variable {α κ : Type*} [LinearOrder κ]

/-- The item that a turn looks at, what the turn puts back, and what it drops. -/
structure QueueTurn (α : Type*) where
  item : α
  fresh : List α
  drops : α → Bool

/-- The sweep of queue `l` at time `now` takes the turns `ts` and leaves `l'`. -/
inductive Sweep (key : α → κ) (now : κ) : List α → List (QueueTurn α) → List α → Prop
  | done {l} : (∀ x ∈ l, now < key x) → Sweep key now l [] l
  | turn {t rest l₁ ts l'} : key t.item ≤ now → (∀ y ∈ rest, key t.item ≤ key y) →
      (∀ y ∈ t.fresh, now < key y) → l₁.Perm ((t.fresh ++ rest).filter fun y => !t.drops y) →
      Sweep key now l₁ ts l' → Sweep key now (t.item :: rest) (t :: ts) l'

namespace Sweep

variable {key : α → κ} {now : κ} {l l' : List α} {ts : List (QueueTurn α)}

theorem late (h : Sweep key now l ts l') : ∀ x ∈ l', now < key x := by
  induction h with
  | done hlate => exact hlate
  | turn _ _ _ _ _ ih => exact ih

theorem due_perm {t : QueueTurn α} {rest l₁ : List α} (hfresh : ∀ y ∈ t.fresh, now < key y)
    (hperm : l₁.Perm ((t.fresh ++ rest).filter fun y => !t.drops y)) :
    (l₁.filter fun y => key y ≤ now).Perm
      ((rest.filter fun y => key y ≤ now).filter fun y => !t.drops y) := by
  have hnone : (t.fresh.filter fun y => !t.drops y).filter (fun y => key y ≤ now) = [] := by
    rw [List.filter_eq_nil_iff]
    intro y hy
    have hlate := hfresh y (List.mem_of_mem_filter hy)
    simpa using hlate
  refine (hperm.filter _).trans ?_
  rw [List.filter_append, List.filter_append, hnone, List.nil_append, List.filter_filter,
    List.filter_filter]
  simp only [Bool.and_comm]
  exact .refl _

/-- Each item that is due is looked at no more often than it is there. -/
theorem items (h : Sweep key now l ts l') :
    (ts.map QueueTurn.item).Subperm (l.filter fun y => key y ≤ now) := by
  induction h with
  | done _ => exact List.nil_subperm
  | @turn t rest l₁ ts l' hkey _ hfresh hperm _ ih =>
    have hrest : (l₁.filter fun y => key y ≤ now).Subperm (rest.filter fun y => key y ≤ now) :=
      (due_perm hfresh hperm).subperm.trans List.filter_sublist.subperm
    rw [List.map_cons, List.filter_cons_of_pos (by simpa using hkey)]
    exact (List.subperm_cons _).mpr (ih.trans hrest)

theorem ordered (h : Sweep key now l ts l') :
    ts.Pairwise fun t t' => key t.item ≤ key t'.item := by
  induction h with
  | done _ => exact .nil
  | @turn t rest l₁ ts l' _ hmin hfresh hperm hsweep ih =>
    refine List.pairwise_cons.mpr ⟨fun t' ht' => ?_, ih⟩
    have hdue := hsweep.items.subset (List.mem_map_of_mem ht')
    have hmem := (due_perm hfresh hperm).subset hdue
    exact hmin _ (List.mem_of_mem_filter (List.mem_of_mem_filter hmem))

/-- An item that is due is looked at, unless a turn drops it. -/
theorem all (h : Sweep key now l ts l') : ∀ x ∈ l, key x ≤ now →
    x ∈ ts.map QueueTurn.item ∨ ∃ t ∈ ts, t.drops x = true := by
  induction h with
  | done hlate => exact fun x hx hdue => absurd (hlate x hx) hdue.not_gt
  | @turn t rest l₁ ts l' _ _ hfresh hperm _ ih =>
    intro x hx hdue
    rcases List.mem_cons.mp hx with rfl | hx
    · exact Or.inl (List.mem_cons_self ..)
    by_cases hdrop : t.drops x = true
    · exact Or.inr ⟨t, List.mem_cons_self .., hdrop⟩
    · have hleft : x ∈ l₁ := hperm.symm.subset
        (List.mem_filter.mpr ⟨List.mem_append_right _ hx, by simpa using hdrop⟩)
      rcases ih x hleft hdue with hitem | ⟨t', ht', hdrop'⟩
      · exact Or.inl (List.mem_cons_of_mem _ hitem)
      · exact Or.inr ⟨t', List.mem_cons_of_mem _ ht', hdrop'⟩

/-- What no turn drops stays if it is not due, and is there if it was put back. -/
theorem accounts (h : Sweep key now l ts l') {p : α → Bool}
    (hp : ∀ t ∈ ts, ∀ y, p y = true → t.drops y = false) :
    (l'.filter p).Perm
      (((l.filter fun y => now < key y) ++ ts.flatMap QueueTurn.fresh).filter p) := by
  induction h with
  | @done l hlate =>
    have hall : l.filter (fun y => now < key y) = l :=
      List.filter_eq_self.mpr fun x hx => by simpa using hlate x hx
    rw [hall, List.flatMap_nil, List.append_nil]
  | @turn t rest l₁ ts l' hkey _ hfresh hperm _ ih =>
    have hfirst : (t.item :: rest).filter (fun y => now < key y) =
        rest.filter fun y => now < key y :=
      List.filter_cons_of_neg (by simpa using hkey)
    have hnew : t.fresh.filter (fun y => now < key y) = t.fresh :=
      List.filter_eq_self.mpr fun x hx => by simpa using hfresh x hx
    have hleft : ((l₁.filter fun y => now < key y).filter p).Perm
        ((t.fresh ++ rest.filter fun y => now < key y).filter p) := by
      refine ((hperm.filter _).filter p).trans ?_
      rw [← hnew, ← List.filter_append, List.filter_filter, List.filter_filter, List.filter_filter,
        hnew]
      refine .of_eq (List.filter_congr fun y _ => ?_)
      cases hy : p y with
      | false => simp
      | true => simp [hp t (List.mem_cons_self ..) y hy]
    refine (ih fun t' ht' => hp t' (List.mem_cons_of_mem _ ht')).trans ?_
    rw [hfirst, List.flatMap_cons, List.filter_append]
    refine (hleft.append_right _).trans ?_
    rw [← List.filter_append]
    refine List.Perm.filter p ?_
    rw [← List.append_assoc]
    exact List.perm_append_comm.append_right _

end Sweep
end XiaoHGServer
