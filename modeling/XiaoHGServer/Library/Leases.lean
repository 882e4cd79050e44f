import Mathlib.Data.List.Basic
import Mathlib.Tactic.Common

/-!
# Resources that are acquired, used and released

A log, newest entry first, of what happens to resources that are acquired for an
owner, or for nobody. An owner holds at most one resource at a time. In a
disciplined log every use and every release is by the present owner, so that a
resource is released at most once before it is acquired again.
-/

namespace XiaoHGServer

inductive Lease (ρ ω : Type*)
  | acquired (r : ρ) (o : Option ω)
  | used (w : ω) (r : ρ)
  | released (o : Option ω) (r : ρ)
  deriving DecidableEq

namespace Lease

variable {ρ ω : Type*} [DecidableEq ω] {r r' : ρ} {w w' : ω} {o : Option ω}
  {log pre post : List (Lease ρ ω)}

/-- The resource that `w` has acquired and not released since. -/
def held : List (Lease ρ ω) → ω → Option ρ
  | [], _ => none
  | .acquired r (some w') :: log, w => if w' = w then some r else held log w
  | .acquired _ none :: log, w => held log w
  | .used _ _ :: log, w => held log w
  | .released (some w') _ :: log, w => if w' = w then none else held log w
  | .released none _ :: log, w => held log w

/-- The last entry is not of a resource that nobody wanted. -/
def Settled (log : List (Lease ρ ω)) : Prop := ∀ r, log.head? ≠ some (.acquired r none)

/-- What may be entered after `log`: a resource is acquired that nobody holds, for an owner that
holds none, and it is used and released by its owner; one that was acquired for nobody is released
right away. -/
def Allowed (log : List (Lease ρ ω)) : Lease ρ ω → Prop
  | .acquired r o => Settled log ∧ (∀ w, held log w ≠ some r) ∧ ∀ w ∈ o, held log w = none
  | .used w r => Settled log ∧ held log w = some r
  | .released (some w) r => Settled log ∧ held log w = some r
  | .released none r => log.head? = some (.acquired r none)

def Disciplined : List (Lease ρ ω) → Prop
  | [] => True
  | e :: log => Allowed log e ∧ Disciplined log

def isReleaseOf [DecidableEq ρ] (r : ρ) : Lease ρ ω → Bool
  | .released _ r' => r' = r
  | _ => false

def releases [DecidableEq ρ] (r : ρ) (log : List (Lease ρ ω)) : ℕ := log.countP (isReleaseOf r)

/-- A resource has one owner. -/
theorem Disciplined.unique : ∀ {log : List (Lease ρ ω)}, Disciplined log →
    held log w = some r → held log w' = some r → w = w'
  | [], _, h, _ => by cases h
  | e :: log, hd, h, h' => by
    obtain ⟨ha, hd⟩ := hd
    cases e with
    | acquired r' o =>
      cases o with
      | none => exact hd.unique h h'
      | some v =>
        simp only [held] at h h'
        split_ifs at h h' with hv hv' hv'
        · exact hv.symm.trans hv'
        · rw [Option.some.inj h] at ha
          exact absurd h' (ha.2.1 _)
        · rw [Option.some.inj h'] at ha
          exact absurd h (ha.2.1 _)
        · exact hd.unique h h'
    | used v r' => exact hd.unique h h'
    | released o r' =>
      cases o with
      | none => exact hd.unique h h'
      | some v =>
        simp only [held] at h h'
        split_ifs at h h'
        exact hd.unique h h'

/-- Resources are used by their owners. -/
theorem Disciplined.uses (hd : Disciplined log) (hs : Settled log) :
    ∀ {new : List (Lease ρ ω)}, (∀ x ∈ new, ∃ w r, x = .used w r ∧ held log w = some r) →
      Disciplined (new ++ log) ∧ Settled (new ++ log) ∧ ∀ w, held (new ++ log) w = held log w
  | [], _ => ⟨hd, hs, fun _ => rfl⟩
  | x :: new, h => by
    have hnew : ∀ y ∈ new, ∃ w r, y = .used w r ∧ held log w = some r := fun y hy =>
      h y (List.mem_cons_of_mem _ hy)
    obtain ⟨hd', hs', hh⟩ := hd.uses hs hnew
    obtain ⟨w, r, rfl, hw⟩ := h x (by simp)
    exact ⟨⟨⟨hs', (hh w).trans hw⟩, hd'⟩, fun r' => by simp, hh⟩

variable [DecidableEq ρ] {e : Lease ρ ω}

theorem free_step (ha : Allowed log e) (hne : ∀ o, e ≠ .acquired r o)
    (hlast : log.head? ≠ some (.acquired r none)) (hfree : ∀ w, held log w ≠ some r) :
    isReleaseOf r e = false ∧ ∀ w, held (e :: log) w ≠ some r := by
  cases e with
  | acquired r' o =>
    refine ⟨rfl, fun w => ?_⟩
    cases o with
    | none => exact hfree w
    | some v =>
      simp only [held]
      split
      · intro hr
        exact hne (some v) (by rw [Option.some.inj hr])
      · exact hfree w
  | used v r' => exact ⟨rfl, hfree⟩
  | released o r' =>
    cases o with
    | none =>
      refine ⟨decide_eq_false ?_, hfree⟩
      rintro rfl
      exact hlast ha
    | some v =>
      refine ⟨decide_eq_false ?_, fun w => ?_⟩
      · rintro rfl
        exact hfree v ha.2
      · simp only [held]
        split
        · simp
        · exact hfree w

theorem held_step (hd : Disciplined log) (ha : Allowed log e)
    (hlast : log.head? ≠ some (.acquired r none)) (hw : held log w = some r) :
    isReleaseOf r e = false ∧ held (e :: log) w = some r ∨
      isReleaseOf r e = true ∧ ∀ v, held (e :: log) v ≠ some r := by
  cases e with
  | acquired r' o =>
    refine Or.inl ⟨rfl, ?_⟩
    cases o with
    | none => exact hw
    | some v =>
      have hv : v ≠ w := by
        rintro rfl
        have := ha.2.2 v rfl
        simp [hw] at this
      simpa [held, hv] using hw
  | used v r' => exact Or.inl ⟨rfl, hw⟩
  | released o r' =>
    cases o with
    | none =>
      refine Or.inl ⟨decide_eq_false ?_, hw⟩
      rintro rfl
      exact hlast ha
    | some v =>
      by_cases hv : v = w
      · subst hv
        have hr : r' = r := Option.some.inj (ha.2.symm.trans hw)
        refine Or.inr ⟨decide_eq_true hr, fun v' hv' => ?_⟩
        simp only [held] at hv'
        split_ifs at hv' with hvv
        exact hvv (hd.unique hw hv')
      · refine Or.inl ⟨decide_eq_false ?_, by simpa [held, hv] using hw⟩
        rintro rfl
        exact hv (hd.unique ha.2 hw)

/-- After it was acquired and before it is acquired again, a resource is released once, when it is
not with its owner any more. -/
theorem Disciplined.released_once : ∀ {pre : List (Lease ρ ω)},
    Disciplined (pre ++ .acquired r o :: post) → (∀ o', .acquired r o' ∉ pre) →
    releases r pre = 0 ∧ (pre = [] ∧ o = none ∨
        ∃ w, o = some w ∧ held (pre ++ .acquired r o :: post) w = some r) ∨
      releases r pre = 1 ∧ ∀ w, held (pre ++ .acquired r o :: post) w ≠ some r
  | [], hd, _ => by
    refine Or.inl ⟨rfl, ?_⟩
    cases o with
    | none => exact Or.inl ⟨rfl, rfl⟩
    | some w => exact Or.inr ⟨w, rfl, by simp [held]⟩
  | e :: pre, hd, hacq => by
    have hne (o' : Option ω) : e ≠ .acquired r o' := by
      rintro rfl
      exact hacq o' (by simp)
    have hacq' (o' : Option ω) : .acquired r o' ∉ pre := fun h => hacq o' (List.mem_cons_of_mem _ h)
    have ih := Disciplined.released_once hd.2 hacq'
    have hfirst : pre = [] ∧ o = none ∨
        (pre ++ .acquired r o :: post).head? ≠ some (.acquired r none) := by
      cases pre with
      | nil => cases o <;> simp
      | cons x pre =>
        right
        intro h
        refine hacq' none ?_
        rw [List.cons_append, List.head?_cons, Option.some.injEq] at h
        simp [h]
    have hcount : releases r (e :: pre) = releases r pre + if isReleaseOf r e then 1 else 0 :=
      List.countP_cons
    obtain ⟨ha, hd⟩ : Allowed (pre ++ .acquired r o :: post) e ∧
      Disciplined (pre ++ .acquired r o :: post) := hd
    rw [List.cons_append, hcount]
    rcases hfirst with ⟨rfl, rfl⟩ | hlast
    · -- acquired for nobody: the next entry is its release
      right
      have hhead : ([] ++ acquired r none :: post : List (Lease ρ ω)).head? =
          some (.acquired r none) := rfl
      cases e with
      | acquired r' o' => exact absurd hhead (ha.1 r)
      | used v r' => exact absurd hhead (ha.1 r)
      | released o' r' =>
        cases o' with
        | some v => exact absurd hhead (ha.1 r)
        | none =>
          have hr : r' = r := by
            have := hhead.symm.trans ha
            simpa using this.symm
          refine ⟨?_, hd.1.2.1⟩
          rw [show isReleaseOf r (.released none r' : Lease ρ ω) = true from decide_eq_true hr]
          rfl
    · rcases ih with ⟨hzero, ⟨rfl, rfl⟩ | ⟨w, rfl, hw⟩⟩ | ⟨hone, hfree⟩
      · exact absurd rfl hlast
      · rcases held_step hd ha hlast hw with ⟨hno, hheld⟩ | ⟨hyes, hfree⟩
        · exact Or.inl ⟨by simp [hzero, hno], Or.inr ⟨w, rfl, hheld⟩⟩
        · exact Or.inr ⟨by simp [hzero, hyes], hfree⟩
      · obtain ⟨hno, hfree'⟩ := free_step ha hne hlast hfree
        exact Or.inr ⟨by simp [hone, hno], hfree'⟩

end Lease
end XiaoHGServer
