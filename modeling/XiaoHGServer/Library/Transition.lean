import Mathlib.Algebra.Ring.Nat
import Mathlib.Data.List.Induction
import Mathlib.Tactic.Common

/-!
# Labelled transition systems and their runs

A system is a set of start states and a labelled step relation. Runs carry the
list of their labels, oldest first, so that a property may speak about what has
happened as well as about the state reached. `restrict` keeps the steps that
satisfy a condition on the state before the step and the label; it is how a
statement about "every run whose steps meet the condition" is written.
-/

namespace XiaoHGServer

structure System (σ ε : Type*) where
  start : σ → Prop
  step : σ → ε → σ → Prop

/-- A run goes on in a state, or its last step has ended it. -/
inductive Outcome (σ ε : Type*)
  | running (s : σ)
  | exited (s : σ) (e : ε)

namespace System

variable {σ ε : Type*} {S : System σ ε}

/-- Finite runs from a start state, with the labels of their steps in order. -/
inductive Run (S : System σ ε) : List ε → σ → Prop
  | start {s} : S.start s → Run S [] s
  | step {es s e s'} : Run S es s → S.step s e s' → Run S (es ++ [e]) s'

/-- The same system with only the steps that meet `allow`. -/
def restrict (S : System σ ε) (allow : σ → ε → Prop) : System σ ε where
  start := S.start
  step s e s' := allow s e ∧ S.step s e s'

theorem Run.of_restrict {allow : σ → ε → Prop} {es : List ε} {s : σ}
    (h : (S.restrict allow).Run es s) : S.Run es s := by
  induction h with
  | start h => exact .start h
  | step _ h ih => exact ih.step h.2

theorem Run.restrict_mono {p q : σ → ε → Prop} {es : List ε} {s : σ}
    (h : (S.restrict p).Run es s) (hpq : ∀ s e, p s e → q s e) : (S.restrict q).Run es s := by
  induction h with
  | start h => exact .start h
  | step _ h ih => exact ih.step ⟨hpq _ _ h.1, h.2⟩

theorem Run.restrict_of {allow : σ → ε → Prop} {es : List ε} {s : σ} (h : S.Run es s)
    (hall : ∀ es s e s', S.Run es s → S.step s e s' → allow s e) : (S.restrict allow).Run es s := by
  induction h with
  | start h => exact .start h
  | step hr h ih => exact ih.step ⟨hall _ _ _ _ hr h, h⟩

/-- Induction along a run for a property of the labels and the state. -/
theorem Run.trace_invariant {I : List ε → σ → Prop} {es : List ε} {s : σ} (h : S.Run es s)
    (h₀ : ∀ s, S.start s → I [] s)
    (h₁ : ∀ es s e s', S.Run es s → I es s → S.step s e s' → I (es ++ [e]) s') : I es s := by
  induction h with
  | start h => exact h₀ _ h
  | step hr h ih => exact h₁ _ _ _ _ hr ih h

theorem Run.invariant {I : σ → Prop} {es : List ε} {s : σ} (h : S.Run es s)
    (h₀ : ∀ s, S.start s → I s) (h₁ : ∀ s e s', I s → S.step s e s' → I s') : I s :=
  h.trace_invariant (I := fun _ s => I s) h₀ fun _ s e s' _ hi hs => h₁ s e s' hi hs

/-- Each step pays its `cost` out of the `work` left, to which it may add its `credit`. -/
theorem Run.amortized {work : σ → ℕ} {cost credit : ε → ℕ} {k : ℕ} {es : List ε} {s : σ}
    (h : S.Run es s) (h₀ : ∀ s, S.start s → work s ≤ k)
    (h₁ : ∀ es s e s', S.Run es s → S.step s e s' → cost e + work s' ≤ work s + credit e) :
    (es.map cost).sum + work s ≤ k + (es.map credit).sum := by
  induction h with
  | start h => simpa using h₀ _ h
  | @step es s e s' hr h ih =>
    have hpaid := h₁ _ _ _ _ hr h
    rw [List.map_append, List.sum_append, List.map_append, List.sum_append, List.map_singleton,
      List.sum_singleton, List.map_singleton, List.sum_singleton]
    omega

theorem Run.of_concat {es : List ε} {e : ε} {t : σ} (h : S.Run (es ++ [e]) t) :
    ∃ s, S.Run es s ∧ S.step s e t := by
  generalize hes : es ++ [e] = es' at h
  cases h with
  | start h => simp at hes
  | step hr hs =>
    obtain ⟨rfl, he⟩ := List.append_inj' hes rfl
    obtain rfl := List.singleton_inj.mp he
    exact ⟨_, hr, hs⟩

theorem Run.of_append {es es' : List ε} {t : σ} (h : S.Run (es ++ es') t) : ∃ s, S.Run es s := by
  induction es' using List.reverseRecOn generalizing t with
  | nil => exact ⟨t, by simpa using h⟩
  | append_singleton es' e ih =>
    rw [← List.append_assoc] at h
    obtain ⟨u, hu, -⟩ := h.of_concat
    exact ih hu

/-- The system of a step function guarded by what the environment can do. -/
def ofNext (start : σ → Prop) (enabled : σ → ε → Prop) (next : σ → ε → Option σ) :
    System σ ε where
  start := start
  step s e s' := enabled s e ∧ next s e = some s'

/-- Play a list of labels, refusing the ones that are not enabled. -/
def play (enabled : σ → ε → Prop) [∀ s e, Decidable (enabled s e)] (next : σ → ε → Option σ) :
    List ε → σ → Option σ
  | [], s => some s
  | e :: es, s => if enabled s e then (next s e).bind (play enabled next es) else none

theorem Run.play {start : σ → Prop} {enabled : σ → ε → Prop} [∀ s e, Decidable (enabled s e)]
    {next : σ → ε → Option σ} :
    ∀ {es : List ε} {s s' : σ} {past : List ε}, (ofNext start enabled next).Run past s →
      System.play enabled next es s = some s' → (ofNext start enabled next).Run (past ++ es) s'
  | [], s, s', past, hr, h => by
    cases h
    simpa using hr
  | e :: es, s, s', past, hr, h => by
    simp only [System.play] at h
    split_ifs at h with he
    obtain ⟨t, ht, h⟩ := Option.bind_eq_some_iff.mp h
    have := Run.play (hr.step ⟨he, ht⟩) h
    simpa using this

theorem run_of_play {start : σ → Prop} {enabled : σ → ε → Prop} [∀ s e, Decidable (enabled s e)]
    {next : σ → ε → Option σ} {es : List ε} {s s' : σ} (hs : start s)
    (h : System.play enabled next es s = some s') : (ofNext start enabled next).Run es s' := by
  simpa using (Run.start (S := ofNext start enabled next) hs).play h

theorem restrict_ofNext (start : σ → Prop) (enabled allow : σ → ε → Prop)
    (next : σ → ε → Option σ) :
    (ofNext start enabled next).restrict allow =
      ofNext start (fun s e => allow s e ∧ enabled s e) next := by
  simp only [restrict, ofNext, and_assoc]

/-- The system with a history: each step enters what `report` says of it, newest first. -/
def record {β : Type*} (S : System σ ε) (report : σ → ε → List β) : System (σ × List β) ε where
  start p := S.start p.1 ∧ p.2 = []
  step p e q := S.step p.1 e q.1 ∧ q.2 = report p.1 e ++ p.2

theorem Run.of_record {β : Type*} {report : σ → ε → List β} {es : List ε} {p : σ × List β}
    (h : (S.record report).Run es p) : S.Run es p.1 := by
  induction h with
  | start h => exact .start h.1
  | step _ h ih => exact ih.step h.1

theorem Run.of_restrict_record {β : Type*} {allow : σ → ε → Prop} {report : σ → ε → List β}
    {es : List ε} {p : σ × List β} (h : ((S.restrict allow).record report).Run es p) :
    (S.record report).Run es p := by
  induction h with
  | start h => exact .start h
  | step _ h ih => exact ih.step ⟨h.1.2, h.2⟩

/-- Induction along a recorded run for what holds of an entry and of the entries since. -/
theorem Run.since {β : Type*} {report : σ → ε → List β} {Φ : σ → List β → β → Prop}
    {es : List ε} {p : σ × List β} (h : (S.record report).Run es p)
    (new : ∀ es s e t pre x post, S.Run es s → S.step s e t → report s e = pre ++ x :: post →
      Φ t pre x)
    (old : ∀ es s e t pre x, S.Run es s → S.step s e t → Φ s pre x → Φ t (report s e ++ pre) x) :
    ∀ pre x post, p.2 = pre ++ x :: post → Φ p.1 pre x := by
  induction h with
  | start h =>
    intro pre x post hp
    simp [h.2] at hp
  | @step es p e q hrun hstep ih =>
    intro pre x post hq
    rw [hstep.2] at hq
    rcases List.append_eq_append_iff.mp hq with ⟨pre', rfl, hp⟩ | ⟨rest, hr, hp⟩
    · exact old _ _ _ _ _ _ hrun.of_record hstep.1 (ih _ _ _ hp)
    · cases rest with
      | nil =>
        rw [List.append_nil] at hr
        have := old _ _ _ _ _ _ hrun.of_record hstep.1 (ih [] x post hp.symm)
        rwa [List.append_nil, hr] at this
      | cons y rest =>
        obtain ⟨rfl, -⟩ := List.cons.inj hp
        exact new _ _ _ _ _ _ _ hrun.of_record hstep.1 hr

/-- Recording is running a step function on the state with its history. -/
theorem record_ofNext {β : Type*} (report : σ → ε → List β) (start : σ → Prop)
    (enabled : σ → ε → Prop) (next : σ → ε → Option σ) :
    (ofNext start enabled next).record report =
      ofNext (fun p => start p.1 ∧ p.2 = []) (fun p => enabled p.1)
        fun p e => (next p.1 e).map fun s => (s, report p.1 e ++ p.2) := by
  have hstep (p : σ × List β) (e : ε) (q : σ × List β) :
      ((enabled p.1 e ∧ next p.1 e = some q.1) ∧ q.2 = report p.1 e ++ p.2) ↔
        enabled p.1 e ∧ (next p.1 e).map (fun s => (s, report p.1 e ++ p.2)) = some q := by
    rw [Option.map_eq_some_iff, and_assoc]
    constructor
    · rintro ⟨he, hn, hq⟩
      exact ⟨he, q.1, hn, by rw [← hq]⟩
    · rintro ⟨he, s, hn, rfl⟩
      exact ⟨he, hn, rfl⟩
  simp only [record, ofNext, hstep]

/-- A played list of labels is a recorded run; `f` is what is read off its last state and its
history. -/
theorem record_run_of_play {α β : Type*} {start : σ → Prop} {enabled : σ → ε → Prop}
    {next : σ → ε → Option σ} {report : σ → ε → List β} {es : List ε} {s : σ}
    [∀ s e, Decidable (enabled s e)] {f : σ × List β → α} {v : α} (hs : start s)
    (h : (play (fun p => enabled p.1)
      (fun p e => (next p.1 e).map fun s => (s, report p.1 e ++ p.2)) es (s, [])).map f =
        some v) :
    ∃ p, ((ofNext start enabled next).record report).Run es p ∧ f p = v := by
  obtain ⟨p, hp, hv⟩ := Option.map_eq_some_iff.mp h
  refine ⟨p, ?_, hv⟩
  rw [record_ofNext]
  exact run_of_play ⟨hs, rfl⟩ hp

theorem recorded_run_of_play {α β : Type*} {start : σ → Prop} {enabled allow : σ → ε → Prop}
    {next : σ → ε → Option σ} {report : σ → ε → List β} {es : List ε} {s : σ}
    [∀ s e, Decidable (allow s e ∧ enabled s e)] {f : σ × List β → α} {v : α} (hs : start s)
    (h : (play (fun p e => allow p.1 e ∧ enabled p.1 e)
      (fun p e => (next p.1 e).map fun s => (s, report p.1 e ++ p.2)) es (s, [])).map f =
        some v) :
    ∃ p, (((ofNext start enabled next).restrict allow).record report).Run es p ∧ f p = v := by
  rw [restrict_ofNext]
  exact record_run_of_play hs h

/-- The system of a step function whose `none` ends the run. -/
def ofNextExit (start : σ → Prop) (enabled : σ → ε → Prop) (next : σ → ε → Option σ) :
    System (Outcome σ ε) ε where
  start o := ∃ s, o = .running s ∧ start s
  step o e o' := ∃ s, o = .running s ∧ enabled s e ∧
    o' = (next s e).elim (.exited s e) .running

theorem Run.running {start : σ → Prop} {enabled : σ → ε → Prop} {next : σ → ε → Option σ}
    {es : List ε} {s : σ} (h : (ofNext start enabled next).Run es s) :
    (ofNextExit start enabled next).Run es (.running s) := by
  induction h with
  | start h => exact .start ⟨_, rfl, h⟩
  | step _ h ih => exact ih.step ⟨_, rfl, h.1, by rw [h.2]; rfl⟩

theorem Run.exited {start : σ → Prop} {enabled : σ → ε → Prop} {next : σ → ε → Option σ}
    {es : List ε} {s : σ} {e : ε} (h : (ofNext start enabled next).Run es s) (he : enabled s e)
    (hn : next s e = none) : (ofNextExit start enabled next).Run (es ++ [e]) (.exited s e) :=
  h.running.step ⟨s, rfl, he, by rw [hn]; rfl⟩

end System
end XiaoHGServer
