import Mathlib.Algebra.Order.Group.Multiset
import Mathlib.Data.Multiset.Filter
import Mathlib.Tactic.Abel
import XiaoHGServer.Library.Transition

/-!
# Requests on a desk

Requests come in and wait in a queue. They are taken up in their order, and each is
then dropped, or an answer to it is composed and given out. `conserved` accounts
for every request; `ordered` is about a desk at which requests are taken up one
at a time.
-/

namespace XiaoHGServer

/-- What happens at the desk. An answer is named by its request. -/
inductive DeskEvent (α : Type*)
  | received (x : α)
  | taken
  | composed (x : α)
  | dropped (x : α)
  | answered (x : α)
  deriving DecidableEq, Repr

/-- The requests that wait, those in hand, and those whose answers have not been given out. -/
structure Desk (α : Type*) where
  waiting : List α
  inHand : Multiset α
  composed : Multiset α

namespace Desk

variable {α : Type*} {q q' : Desk α} {e : DeskEvent α} {es : List (DeskEvent α)}

inductive Step : Desk α → DeskEvent α → Desk α → Prop
  | received {w h k} (x : α) : Step ⟨w, h, k⟩ (.received x) ⟨w ++ [x], h, k⟩
  | taken {w h k} (x : α) : Step ⟨x :: w, h, k⟩ .taken ⟨w, x ::ₘ h, k⟩
  | composed {w h k} (x : α) : Step ⟨w, x ::ₘ h, k⟩ (.composed x) ⟨w, h, x ::ₘ k⟩
  | dropped {w h k} (x : α) : Step ⟨w, x ::ₘ h, k⟩ (.dropped x) ⟨w, h, k⟩
  | answered {w h k} (x : α) : Step ⟨w, h, x ::ₘ k⟩ (.answered x) ⟨w, h, k⟩

def receivedOf (es : List (DeskEvent α)) : List α :=
  es.filterMap fun | .received x => some x | _ => none

def droppedOf (es : List (DeskEvent α)) : List α :=
  es.filterMap fun | .dropped x => some x | _ => none

def answeredOf (es : List (DeskEvent α)) : List α :=
  es.filterMap fun | .answered x => some x | _ => none

/-- A desk that starts empty. At most one request is taken up at a time if `single` holds. -/
def runs (α : Type*) (single : Prop) : System (Desk α) (DeskEvent α) where
  start q := q = ⟨[], 0, 0⟩
  step q e q' := (single → e = .taken → q.inHand = 0 ∧ q.composed = 0) ∧ Step q e q'

variable {single : Prop}

theorem receivedOf_append (es es' : List (DeskEvent α)) :
    receivedOf (es ++ es') = receivedOf es ++ receivedOf es' := List.filterMap_append

theorem droppedOf_append (es es' : List (DeskEvent α)) :
    droppedOf (es ++ es') = droppedOf es ++ droppedOf es' := List.filterMap_append

theorem answeredOf_append (es es' : List (DeskEvent α)) :
    answeredOf (es ++ es') = answeredOf es ++ answeredOf es' := List.filterMap_append

def pending (q : Desk α) : Multiset α := q.composed + q.inHand + q.waiting

theorem Step.account (h : Step q e q') : (receivedOf [e] : Multiset α) + q.pending =
    answeredOf [e] + droppedOf [e] + q'.pending := by
  cases h with
  | @received w h k x =>
    change ([x] : Multiset α) + (k + h + (w : Multiset α)) =
      0 + 0 + (k + h + ((w ++ [x] : List α) : Multiset α))
    rw [← Multiset.coe_add]
    abel
  | @taken w h k x =>
    change 0 + (k + h + ((x :: w : List α) : Multiset α)) = 0 + 0 + (k + (x ::ₘ h) + w)
    rw [← Multiset.cons_coe, ← Multiset.singleton_add, ← Multiset.singleton_add]
    abel
  | @composed w h k x =>
    change 0 + (k + (x ::ₘ h) + (w : Multiset α)) = 0 + 0 + ((x ::ₘ k) + h + w)
    rw [← Multiset.singleton_add, ← Multiset.singleton_add]
    abel
  | @dropped w h k x =>
    change 0 + (k + (x ::ₘ h) + (w : Multiset α)) = 0 + ([x] : List α) + (k + h + w)
    rw [← Multiset.singleton_add, Multiset.coe_singleton]
    abel
  | @answered w h k x =>
    change 0 + ((x ::ₘ k) + h + (w : Multiset α)) = ([x] : List α) + 0 + (k + h + w)
    rw [← Multiset.singleton_add, Multiset.coe_singleton]
    abel

/-- Every request that has come in is on the desk, or has been dropped or answered, once. -/
theorem conserved (h : (runs α single).Run es q) :
    (receivedOf es : Multiset α) = answeredOf es + droppedOf es + q.pending := by
  refine h.trace_invariant (I := fun es q => (receivedOf es : Multiset α) =
    (answeredOf es : Multiset α) + (droppedOf es : Multiset α) + q.pending) ?_ ?_
  · rintro _ rfl
    rfl
  · rintro es q e q' - ih ⟨-, hstep⟩
    have hacc := hstep.account
    rw [receivedOf_append, answeredOf_append, droppedOf_append, ← Multiset.coe_add,
      ← Multiset.coe_add, ← Multiset.coe_add, ih]
    calc (answeredOf es + droppedOf es + q.pending : Multiset α) + receivedOf [e]
        = answeredOf es + droppedOf es + (receivedOf [e] + q.pending) := by abel
      _ = answeredOf es + droppedOf es + (answeredOf [e] + droppedOf [e] + q'.pending) := by
        rw [hacc]
      _ = answeredOf es + answeredOf [e] + (droppedOf es + droppedOf [e]) + q'.pending := by abel

theorem received_of_pending {x : α} (h : (runs α single).Run es q) (hx : x ∈ q.pending) :
    x ∈ receivedOf es := by
  rw [← Multiset.mem_coe, conserved h]
  exact Multiset.mem_add.mpr (Or.inr hx)

theorem composed_only {p : α → Prop} (h : (runs α single).Run es q)
    (hp : ∀ x, .composed x ∈ es → p x) : ∀ x, x ∈ q.composed ∨ x ∈ answeredOf es → p x := by
  refine h.trace_invariant (I := fun es q => (∀ x, .composed x ∈ es → p x) →
    ∀ x, x ∈ q.composed ∨ x ∈ answeredOf es → p x) ?_ ?_ hp
  · rintro _ rfl _ x (hx | hx)
    · simp at hx
    · cases hx
  · rintro es q e q' - ih ⟨-, hstep⟩ hall x hx
    have hold := ih fun y hy => hall y (List.mem_append_left _ hy)
    rw [answeredOf_append, List.mem_append] at hx
    cases hstep with
    | received y => exact hold x (by simpa [answeredOf] using hx)
    | taken y => exact hold x (by simpa [answeredOf] using hx)
    | dropped y => exact hold x (by simpa [answeredOf] using hx)
    | composed y =>
      rcases hx with hx | hx | hx
      · rcases Multiset.mem_cons.mp hx with rfl | hx
        · exact hall x (by simp)
        · exact hold x (Or.inl hx)
      · exact hold x (Or.inr hx)
      · cases hx
    | answered y =>
      rcases hx with hx | hx | hx
      · exact hold x (Or.inl (Multiset.mem_cons_of_mem hx))
      · exact hold x (Or.inr hx)
      · obtain rfl : x = y := by simpa [answeredOf] using hx
        exact hold x (Or.inl (Multiset.mem_cons_self _ _))

/-- The requests that are wanted, if these are never dropped and no others are answered. -/
theorem conserved_filter (h : (runs α single).Run es q) (p : α → Prop) [DecidablePred p]
    (hans : ∀ x ∈ answeredOf es, p x) (hdrop : ∀ x ∈ droppedOf es, ¬ p x) :
    (((receivedOf es).filter p : List α) : Multiset α) = answeredOf es + q.pending.filter p := by
  rw [← Multiset.filter_coe, conserved h, Multiset.filter_add, Multiset.filter_add,
    Multiset.filter_eq_self.mpr (by simpa using hans),
    Multiset.filter_eq_nil.mpr (by simpa using hdrop), add_zero]

/-- At most one request is in hand, and the others are dealt with in their order. -/
def InOrder (es : List (DeskEvent α)) (q : Desk α) : Prop :=
  ∃ dealt l, (answeredOf es).Sublist dealt ∧ receivedOf es = dealt ++ l ++ q.waiting ∧
    (l : Multiset α) = q.inHand + q.composed ∧ l.length ≤ 1

/-- Requests that are taken up one at a time are answered in the order in which they came in. -/
theorem ordered (h : (runs α True).Run es q) : (answeredOf es).Sublist (receivedOf es) := by
  have hinv : InOrder es q := by
    refine h.trace_invariant (I := InOrder) ?_ ?_
    · rintro _ rfl
      exact ⟨[], [], .slnil, rfl, rfl, Nat.zero_le _⟩
    · rintro es q e q' - ⟨dealt, l, hsub, hrec, hl, hlen⟩ ⟨hsingle, hstep⟩
      unfold InOrder
      rw [receivedOf_append, answeredOf_append]
      -- the one request in hand leaves it
      have leaves {x : α} {m : Multiset α} (hx : (l : Multiset α) = x ::ₘ m) : l = [x] ∧ m = 0 := by
        have hcard := congrArg Multiset.card hx
        rw [Multiset.coe_card, Multiset.card_cons] at hcard
        have hm : m = 0 := Multiset.card_eq_zero.mp (by omega)
        rw [hm, Multiset.cons_zero, Multiset.coe_eq_singleton] at hx
        exact ⟨hx, hm⟩
      cases hstep with
      | received x =>
        exact ⟨dealt, l, by simpa [answeredOf] using hsub, by rw [hrec]; simp [receivedOf], hl,
          hlen⟩
      | @taken w h k x =>
        obtain ⟨rfl, rfl⟩ := hsingle trivial rfl
        obtain rfl : l = [] := by simpa using hl
        exact ⟨dealt, [x], by simpa [answeredOf] using hsub, by rw [hrec]; simp [receivedOf],
          by simp, le_rfl⟩
      | composed x =>
        refine ⟨dealt, l, by simpa [answeredOf] using hsub, by rw [hrec]; simp [receivedOf], ?_,
          hlen⟩
        rw [hl, Multiset.cons_add, Multiset.add_cons]
      | @dropped w h k x =>
        obtain ⟨rfl, hrest⟩ := leaves (hl.trans (Multiset.cons_add _ _ _))
        have hsub' : (answeredOf es).Sublist (dealt ++ [x]) :=
          hsub.trans (List.sublist_append_left _ _)
        exact ⟨dealt ++ [x], [], by simpa [answeredOf] using hsub',
          by rw [hrec]; simp [receivedOf], hrest.symm, Nat.zero_le _⟩
      | @answered w h k x =>
        obtain ⟨rfl, hrest⟩ := leaves (hl.trans (Multiset.add_cons _ _ _))
        exact ⟨dealt ++ [x], [], hsub.append (List.Sublist.refl _), by rw [hrec]; simp [receivedOf],
          hrest.symm, Nat.zero_le _⟩
  obtain ⟨dealt, l, hsub, hrec, -⟩ := hinv
  rw [hrec, List.append_assoc]
  exact hsub.trans (List.sublist_append_left _ _)

end Desk
end XiaoHGServer
