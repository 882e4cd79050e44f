import Mathlib.Data.List.Basic
import Mathlib.Tactic.Common

/-!
# Backlogs

An outgoing stream behind a queue: items wait in a list, the content of one item
is being sent, and the rest of the stream is out. Items without content belong to
other streams. Whatever is pushed, started and sent, what is out, the rest of the
item being sent and the contents of the list are together all that was pushed.
-/

namespace XiaoHGServer

variable {α β : Type*} {content : β → List α} {total sent rest : List α} {l : List β} {a : β}

/-- `sent` is out, `rest` is being sent and `l` waits, of a stream that is `total` so far. -/
def Backlog (content : β → List α) (total sent rest : List α) (l : List β) : Prop :=
  sent ++ (rest ++ l.flatMap content) = total

theorem flatMap_eraseIdx_nil : ∀ {l : List β} {i : ℕ}, l[i]? = some a → content a = [] →
    (l.eraseIdx i).flatMap content = l.flatMap content
  | [], i, hi, _ => by simp at hi
  | x :: l, 0, hi, ha => by
    obtain rfl : x = a := by simpa using hi
    simp [ha]
  | x :: l, i + 1, hi, ha => by
    have ih := flatMap_eraseIdx_nil (l := l) (i := i) (by simpa using hi) ha
    simp [ih]

theorem flatMap_eraseIdx_first : ∀ {l : List β} {i : ℕ}, l[i]? = some a →
    (∀ b ∈ l.take i, content b = []) →
    l.flatMap content = content a ++ (l.eraseIdx i).flatMap content
  | [], i, hi, _ => by simp at hi
  | x :: l, 0, hi, _ => by
    obtain rfl : x = a := by simpa using hi
    simp
  | x :: l, i + 1, hi, hfirst => by
    have hx : content x = [] := hfirst x (by simp)
    have ih := flatMap_eraseIdx_first (l := l) (i := i) (by simpa using hi)
      fun b hb => hfirst b (by simp [hb])
    simp [hx, ih]

namespace Backlog

theorem push (h : Backlog content total sent rest l) :
    Backlog content (total ++ content a) sent rest (l ++ [a]) := by
  rw [Backlog, ← h]
  simp

theorem drop {i : ℕ} (h : Backlog content total sent rest l) (hi : l[i]? = some a)
    (ha : content a = []) : Backlog content total sent rest (l.eraseIdx i) := by
  rw [Backlog, flatMap_eraseIdx_nil hi ha]
  exact h

theorem start {i : ℕ} (h : Backlog content total sent [] l) (hi : l[i]? = some a)
    (hfirst : ∀ b ∈ l.take i, content b = []) :
    Backlog content total sent (content a) (l.eraseIdx i) := by
  rw [Backlog, ← flatMap_eraseIdx_first hi hfirst]
  exact h

theorem send (h : Backlog content total sent rest l) (n : ℕ) :
    Backlog content total (sent ++ rest.take n) (rest.drop n) l := by
  rw [Backlog, ← h, List.append_assoc, ← List.append_assoc (rest.take n), List.take_append_drop]

theorem congr {content' : β → List α} (h : Backlog content total sent rest l)
    (hc : ∀ b ∈ l, content' b = content b) : Backlog content' total sent rest l := by
  rw [Backlog, List.flatMap_congr hc]
  exact h

theorem isPrefix (h : Backlog content total sent rest l) : sent <+: total := ⟨_, h⟩

theorem whole (h : Backlog content total sent [] l) (hl : ∀ b ∈ l, content b = []) :
    sent = total := by
  rw [← h, List.flatMap_eq_nil_iff.mpr hl]
  simp

end Backlog
end XiaoHGServer
