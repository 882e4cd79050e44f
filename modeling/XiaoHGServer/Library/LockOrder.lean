import Mathlib.Algebra.Order.BigOperators.Group.Finset
import Mathlib.Data.Fintype.Basic
import Mathlib.Logic.Relation
import Mathlib.Order.WellFounded
import XiaoHGServer.Library.Transition

/-!
# Threads that lock mutexes in order

A thread runs lists of operations on mutexes that are not recursive: a mutex that
is held, by the thread itself or by another, cannot be locked. If every thread
locks a mutex only while all that it holds have a smaller rank, no thread waits
for itself and no threads wait for each other in a circle; and if there is no
infinite ascending chain of ranks, every thread can get to the end of its code.
-/

namespace XiaoHGServer

/-- An operation of a thread on a mutex, or the end of the process. -/
inductive LockOp (μ : Type*)
  | lock (m : μ)
  | unlock (m : μ)
  | exit
  deriving DecidableEq, Repr

/-- The code a thread has still to run and the mutexes it holds. -/
structure LockThread (μ : Type*) where
  code : List (LockOp μ)
  held : List μ

/-- Threads `ι` that each run a prologue and then, over and over, the code of tasks. A task
without code does not come to an end. -/
structure LockProgram (ι μ α : Type*) where
  prologue : ι → List (LockOp μ)
  runs : ι → α → Prop
  code : α → Option (List (LockOp μ))

/-- A thread begins a task, or performs the next operation of its code. -/
inductive LockEvent (ι α : Type*)
  | begin (i : ι) (a : α)
  | act (i : ι)

variable {ι μ α ρ : Type*} {m : μ} {code : List (LockOp μ)}

def LockOp.critical (m : μ) (code : List (LockOp μ)) : List (LockOp μ) :=
  .lock m :: (code ++ [.unlock m])

namespace LockThread

def request (t : LockThread μ) : Option μ :=
  match t.code with
  | .lock m :: _ => some m
  | _ => none

/-- The next operation of the code. There is nothing after `exit`. -/
def act [DecidableEq μ] (t : LockThread μ) : Option (LockThread μ) :=
  match t.code with
  | .lock m :: code => some ⟨code, m :: t.held⟩
  | .unlock m :: code => some ⟨code, t.held.erase m⟩
  | _ => none

def Exits (t : LockThread μ) : Prop := ∃ code, t.code = .exit :: code

theorem act_code [DecidableEq μ] {t t' : LockThread μ} (h : t.act = some t') :
    t'.code.length < t.code.length := by
  obtain ⟨code, held⟩ := t
  rcases code with _ | ⟨_ | _ | _, code⟩ <;> simp only [act, Option.some.injEq, reduceCtorEq] at h
  all_goals
    subst h
    simp

theorem act_or_exits [DecidableEq μ] {t : LockThread μ} (h : t.code ≠ []) :
    (∃ t', t.act = some t') ∨ t.Exits := by
  obtain ⟨code, held⟩ := t
  rcases code with _ | ⟨m | m | _, code⟩
  · exact absurd rfl h
  · exact Or.inl ⟨_, rfl⟩
  · exact Or.inl ⟨_, rfl⟩
  · exact Or.inr ⟨code, rfl⟩

end LockThread

/-- Thread `i` waits for a mutex that thread `j` holds. -/
def Waits (s : ι → LockThread μ) (i j : ι) : Prop := ∃ m ∈ (s i).request, m ∈ (s j).held

namespace LockProgram

section System

variable [DecidableEq ι] [DecidableEq μ] (P : LockProgram ι μ α)

def boot : ι → LockThread μ := fun i => ⟨P.prologue i, []⟩

def Enabled (s : ι → LockThread μ) : LockEvent ι α → Prop
  | .begin i a => (s i).code = [] ∧ P.runs i a
  | .act i => ∀ m ∈ (s i).request, ∀ j, m ∉ (s j).held

def next (s : ι → LockThread μ) : LockEvent ι α → Option (ι → LockThread μ)
  | .begin i a => (P.code a).map fun code => Function.update s i { s i with code := code }
  | .act i => (s i).act.map fun t => Function.update s i t

def system : System (ι → LockThread μ) (LockEvent ι α) := .ofNext (· = P.boot) P.Enabled P.next

instance [Fintype ι] [∀ i a, Decidable (P.runs i a)] (s : ι → LockThread μ) (e : LockEvent ι α) :
    Decidable (P.Enabled s e) := by
  cases e <;> simp only [Enabled] <;> infer_instance

/-- A played list of events is a run, here with only the steps that meet `allow`; `f` is what is
read off its last state. -/
theorem run_of_play {β : Type*} (allow : (ι → LockThread μ) → LockEvent ι α → Prop)
    [∀ s e, Decidable (allow s e ∧ P.Enabled s e)] (es : List (LockEvent ι α))
    (f : (ι → LockThread μ) → β) (v : β)
    (h : (System.play (fun s e => allow s e ∧ P.Enabled s e) P.next es P.boot).map f = some v) :
    ∃ s, (P.system.restrict allow).Run es s ∧ f s = v := by
  obtain ⟨s, hs, hv⟩ := Option.map_eq_some_iff.mp h
  refine ⟨s, ?_, hv⟩
  rw [system, System.restrict_ofNext]
  exact System.run_of_play rfl hs

end System
end LockProgram

section Order

variable [Preorder ρ] [DecidableEq μ] (rank : μ → ρ)

/-- Code that locks a mutex only while all held ones have a smaller rank, and holds none at its
end. -/
def Ordered : List μ → List (LockOp μ) → Prop
  | held, [] => held = []
  | held, .lock m :: code => (∀ x ∈ held, rank x < rank m) ∧ Ordered (m :: held) code
  | held, .unlock m :: code => Ordered (held.erase m) code
  | _, .exit :: _ => True

/-- Code that may run while only mutexes of rank below `lo` are held, and leaves them held. -/
def Above (lo : ρ) (code : List (LockOp μ)) : Prop :=
  ∀ held rest, (∀ x ∈ held, rank x < lo) → Ordered rank held rest →
    Ordered rank held (code ++ rest)

variable {rank} {lo lo' : ρ} {c c' : List (LockOp μ)}

namespace Above

theorem ordered (h : Above rank lo c) : Ordered rank [] c := by
  simpa using h [] [] (by simp) rfl

theorem nil : Above rank lo [] := fun _ _ _ h => h

theorem exit : Above rank lo [.exit] := fun _ _ _ _ => trivial

theorem append (h : Above rank lo c) (h' : Above rank lo c') : Above rank lo (c ++ c') := by
  intro held rest hheld hrest
  rw [List.append_assoc]
  exact h held _ hheld (h' held rest hheld hrest)

theorem critical (h : Above rank lo' c) (hlo : lo ≤ rank m) (hm : rank m < lo') :
    Above rank lo (LockOp.critical m c) := by
  intro held rest hheld hrest
  have hbelow : ∀ x ∈ held, rank x < rank m := fun x hx => (hheld x hx).trans_le hlo
  have hbody : Ordered rank (m :: held) (c ++ .unlock m :: rest) := by
    refine h (m :: held) _ ?_ ?_
    · intro x hx
      rcases List.mem_cons.mp hx with rfl | hx
      · exact hm
      · exact (hbelow x hx).trans hm
    · simpa [Ordered] using hrest
  simpa [LockOp.critical, Ordered] using And.intro hbelow hbody

theorem critical_nil (h : lo ≤ rank m) : Above rank lo (LockOp.critical m []) := by
  intro held rest hheld hrest
  have hbelow : ∀ x ∈ held, rank x < rank m := fun x hx => (hheld x hx).trans_le h
  simpa [LockOp.critical, Ordered] using And.intro hbelow hrest

theorem ite {p : Prop} [Decidable p] (h : p → Above rank lo c) (h' : ¬ p → Above rank lo c') :
    Above rank lo (if p then c else c') := by
  split
  · exact h ‹_›
  · exact h' ‹_›

theorem ite_nil {p : Prop} [Decidable p] (h : Above rank lo c) :
    Above rank lo (if p then c else []) := ite (fun _ => h) fun _ => nil

theorem flatMap {β : Type*} {l : List β} {f : β → List (LockOp μ)}
    (h : ∀ x ∈ l, Above rank lo (f x)) : Above rank lo (l.flatMap f) := by
  induction l with
  | nil => exact nil
  | cons x l ih =>
    rw [List.flatMap_cons]
    exact (h x (by simp)).append (ih fun y hy => h y (by simp [hy]))

end Above

variable {t t' : LockThread μ}

theorem Ordered.act (h : Ordered rank t.held t.code) (ht : t.act = some t') :
    Ordered rank t'.held t'.code := by
  obtain ⟨code, held⟩ := t
  rcases code with _ | ⟨m | m | _, code⟩
  · simp [LockThread.act] at ht
  · obtain rfl : ⟨code, m :: held⟩ = t' := by simpa [LockThread.act] using ht
    exact h.2
  · obtain rfl : ⟨code, held.erase m⟩ = t' := by simpa [LockThread.act] using ht
    exact h
  · simp [LockThread.act] at ht

/-- All that a thread holds ranks below what it requests. -/
theorem Ordered.rank_lt (h : Ordered rank t.held t.code) (hm : m ∈ t.request) :
    ∀ x ∈ t.held, rank x < rank m := by
  obtain ⟨code, held⟩ := t
  rcases code with _ | ⟨m' | m' | _, code⟩
  · simp [LockThread.request] at hm
  · obtain rfl : m' = m := by simpa [LockThread.request] using hm
    exact h.1
  · simp [LockThread.request] at hm
  · simp [LockThread.request] at hm

variable {s : ι → LockThread μ}

/-- Along a chain of waiting threads the requested ranks go up. -/
theorem rank_lt_of_waits {i j : ι} (hs : ∀ i, Ordered rank (s i).held (s i).code)
    (h : Relation.TransGen (Waits s) i j) {m x : μ} (hm : m ∈ (s i).request)
    (hx : x ∈ (s j).request) : rank m < rank x := by
  induction h generalizing x with
  | single h =>
    obtain ⟨y, hy, hheld⟩ := h
    obtain rfl : y = m := Option.mem_unique hy hm
    exact (hs _).rank_lt hx y hheld
  | tail _ h ih =>
    obtain ⟨y, hy, hheld⟩ := h
    exact (ih hy).trans ((hs _).rank_lt hx y hheld)

theorem no_wait_cycle (hs : ∀ i, Ordered rank (s i).held (s i).code) (i : ι) :
    ¬ Relation.TransGen (Waits s) i i := by
  intro h
  obtain ⟨j, ⟨m, hm, -⟩, -⟩ := Relation.TransGen.head'_iff.mp h
  exact lt_irrefl _ (rank_lt_of_waits hs h hm hm)

/-- If some thread has code left, some thread can go on: the end of the chain of threads that
wait for each other. -/
theorem exists_free [WellFoundedGT ρ] (hs : ∀ i, Ordered rank (s i).held (s i).code) {i : ι}
    (hi : (s i).code ≠ []) :
    ∃ j, (s j).code ≠ [] ∧ ∀ m ∈ (s j).request, ∀ k, m ∉ (s k).held := by
  have chain : ∀ r : ρ, ∀ i, (s i).code ≠ [] → (∀ m ∈ (s i).request, rank m = r) →
      ∃ j, (s j).code ≠ [] ∧ ∀ m ∈ (s j).request, ∀ k, m ∉ (s k).held := by
    intro r
    induction r using WellFoundedGT.induction with
    | ind r ih =>
      intro i hi hr
      by_cases hfree : ∀ m ∈ (s i).request, ∀ k, m ∉ (s k).held
      · exact ⟨i, hi, hfree⟩
      · push Not at hfree
        obtain ⟨m, hm, k, hk⟩ := hfree
        have hcode : (s k).code ≠ [] := by
          intro hnil
          have hheld := hs k
          rw [hnil] at hheld
          rw [show (s k).held = [] from hheld] at hk
          exact absurd hk (by simp)
        cases hreq : (s k).request with
        | none => exact ⟨k, hcode, by simp [hreq]⟩
        | some x =>
          have hlt : rank m < rank x := (hs k).rank_lt hreq m hk
          refine ih (rank x) ?_ k hcode (by simp [hreq])
          rw [hr m hm] at hlt
          exact hlt
  cases hreq : (s i).request with
  | none => exact ⟨i, hi, by simp [hreq]⟩
  | some m => exact chain (rank m) i hi (by simp [hreq])

end Order

namespace LockProgram

variable [DecidableEq ι] [DecidableEq μ] [Preorder ρ] {P : LockProgram ι μ α} {rank : μ → ρ}
  {allow : (ι → LockThread μ) → LockEvent ι α → Prop} {es : List (LockEvent ι α)}
  {s : ι → LockThread μ}

/-- If the tasks that may begin are ordered, so is every thread in every state reached. -/
theorem ordered (hpro : ∀ i, Ordered rank [] (P.prologue i))
    (hcode : ∀ s i a, allow s (.begin i a) → P.runs i a → ∀ c ∈ P.code a, Ordered rank [] c)
    (h : (P.system.restrict allow).Run es s) : ∀ i, Ordered rank (s i).held (s i).code := by
  refine h.invariant (I := fun s => ∀ i, Ordered rank (s i).held (s i).code) ?_ ?_
  · rintro s rfl i
    exact hpro i
  · rintro s e s' hs ⟨hallow, hen, hnext⟩ i
    cases e with
    | begin j a =>
      obtain ⟨c, hc, rfl⟩ := Option.map_eq_some_iff.mp hnext
      by_cases hij : i = j
      · subst hij
        have hheld := hs i
        rw [hen.1] at hheld
        rw [Function.update_self, show (s i).held = [] from hheld]
        exact hcode s i a hallow hen.2 c hc
      · rw [Function.update_of_ne hij]
        exact hs i
    | act j =>
      obtain ⟨t, ht, rfl⟩ := Option.map_eq_some_iff.mp hnext
      by_cases hij : i = j
      · subst hij
        rw [Function.update_self]
        exact (hs i).act ht
      · rw [Function.update_of_ne hij]
        exact hs i

/-- From every state reached, thread `i` can get to the end of its code by steps of the code the
threads are running, unless one of them ends the process. -/
theorem finishes [Fintype ι] [WellFoundedGT ρ] (hpro : ∀ i, Ordered rank [] (P.prologue i))
    (hcode : ∀ s i a, allow s (.begin i a) → P.runs i a → ∀ c ∈ P.code a, Ordered rank [] c)
    (hact : ∀ s i, allow s (.act i)) (i : ι) (h : (P.system.restrict allow).Run es s) :
    ∃ (js : List ι) (s' : ι → LockThread μ),
      (P.system.restrict allow).Run (es ++ js.map .act) s' ∧
      ((s' i).code = [] ∧ (s' i).held = [] ∨ ∃ j, (s' j).Exits) := by
  -- Every operation shortens the code that is left in all threads together.
  induction hn : ∑ j, (s j).code.length using Nat.strong_induction_on generalizing es s with
  | _ n ih =>
    have hs := ordered hpro hcode h
    by_cases hi : (s i).code = []
    · have hheld := hs i
      rw [hi] at hheld
      exact ⟨[], s, by simpa using h, Or.inl ⟨hi, hheld⟩⟩
    · obtain ⟨j, hj, hfree⟩ := exists_free hs hi
      rcases LockThread.act_or_exits hj with ⟨t, ht⟩ | hexit
      · have hstep : (P.system.restrict allow).step s (.act j) (Function.update s j t) :=
          ⟨hact s j, hfree, by simp [next, ht]⟩
        have hlt : ∑ k, (Function.update s j t k).code.length < n := by
          rw [← hn]
          refine Finset.sum_lt_sum (fun k _ => ?_) ⟨j, Finset.mem_univ j, ?_⟩
          · by_cases hk : k = j
            · subst hk
              simpa using (LockThread.act_code ht).le
            · simp [hk]
          · simpa using LockThread.act_code ht
        obtain ⟨js, s', hrun, hend⟩ := ih _ hlt (h.step hstep) rfl
        exact ⟨j :: js, s', by simpa using hrun, hend⟩
      · exact ⟨[], s, by simpa using h, Or.inr ⟨j, hexit⟩⟩

end LockProgram
end XiaoHGServer
