import XiaoHGServer.Model.WakeUp

/-!
# Lost wake-ups

The producer pushes a message under `m_RecvMsgListMutex`, and the worker threads
test the list and go to sleep under `m_pThreadMutex`. So a signal may come when a
worker has found the list empty and has not gone to sleep yet. Another worker
makes up for it: one that sleeps is woken, one that is awake will look at the
list. Only a single worker thread can miss a message.
-/

namespace XiaoHGServer

/-- The thread will look at the list before it goes to sleep. -/
def WorkerPc.Awake (pc : WorkerPc) : Prop := pc ≠ .condWait ∧ pc ≠ .blocked

def WorkerPc.Holds : WorkerPc → Prop
  | .testSize => True
  | .condWait => True
  | .front => True
  | .popFront _ => True
  | .unlock _ => True
  | _ => False

namespace RecvThreads

variable {n : ℕ} {s s' : RecvThreads n} {e : RecvEvent n} {es : List (RecvEvent n)} {i j : Fin n}

@[simp] theorem goTo_self (pc : WorkerPc) : (s.goTo i pc).workers i = pc := by simp [goTo]

@[simp] theorem goTo_ne (pc : WorkerPc) (h : j ≠ i) :
    (s.goTo i pc).workers j = s.workers j := by simp [goTo, h]

@[simp] theorem goTo_queue (pc : WorkerPc) : (s.goTo i pc).queue = s.queue := rfl
@[simp] theorem goTo_producer (pc : WorkerPc) : (s.goTo i pc).producer = s.producer := rfl
@[simp] theorem goTo_pThreadMutex (pc : WorkerPc) :
    (s.goTo i pc).pThreadMutex = s.pThreadMutex := rfl

/-- A message waits, the producer is done with it and every worker sleeps. -/
def Lost (s : RecvThreads n) : Prop :=
  s.queue.recvMsgList ≠ [] ∧ s.producer = .outside ∧ ∀ i, s.workers i = .blocked

/-- When a signal is sent for a message that still waits, some worker is not on its way from
the test of the list to `pthread_cond_wait`. -/
def SignalSeen (s : RecvThreads n) : RecvEvent n → Prop
  | .signal _ => s.queue.recvMsgList ≠ [] → ∃ i, s.workers i ≠ .condWait
  | _ => True

instance (s : RecvThreads n) : (e : RecvEvent n) → Decidable (s.SignalSeen e)
  | .signal _ => inferInstanceAs (Decidable (_ → ∃ _, _))
  | .lock | .pushBack _ | .unlock | .worker _ | .spurious _ => isTrue trivial

/-- For every message that waits, the producer has still to send a signal or some worker will
look at the list. -/
def Attended (s : RecvThreads n) : Prop :=
  s.queue.recvMsgList ≠ [] →
    s.producer = .pushed ∨ s.producer = .unlocked ∨ ∃ i, (s.workers i).Awake

theorem threadFunc_frame :
    (s.threadFunc i).producer = s.producer ∧
      ∀ j, j ≠ i → (s.threadFunc i).workers j = s.workers j := by
  unfold threadFunc
  split
  case h_6 =>
    split
    · exact ⟨rfl, fun _ _ => rfl⟩
    · exact ⟨rfl, fun j hj => goTo_ne _ hj⟩
  all_goals
    first
    | exact ⟨rfl, fun _ _ => rfl⟩
    | exact ⟨rfl, fun j hj => goTo_ne _ hj⟩

/-- A worker takes messages out of the list and puts none in. -/
theorem threadFunc_list (h : (s.threadFunc i).queue.recvMsgList ≠ []) :
    s.queue.recvMsgList ≠ [] := by
  intro hnil
  apply h
  unfold threadFunc
  split
  case h_6 => split <;> exact hnil
  case h_7 => simp [RecvQueue.popFront, hnil]
  all_goals exact hnil

/-- A worker that is awake while a message waits does not go to sleep. -/
theorem awake_threadFunc (h : (s.workers i).Awake) (hne : s.queue.recvMsgList ≠ []) :
    ((s.threadFunc i).workers i).Awake := by
  have hlen : s.queue.recvMsgList.length ≠ 0 := by simpa using hne
  unfold threadFunc
  split
  case h_3 hpc => exact absurd hpc h.1
  case h_4 hpc => exact absurd hpc h.2
  case h_6 =>
    split
    · exact h
    · simp [WorkerPc.Awake]
  all_goals simp [WorkerPc.Awake, hlen]

theorem Attended.threadFunc (h : Attended s) : Attended (s.threadFunc i) := by
  intro hne
  have hbefore := threadFunc_list hne
  rcases h hbefore with hpushed | hunlocked | ⟨j, hj⟩
  · exact Or.inl (threadFunc_frame.1.trans hpushed)
  · exact Or.inr (Or.inl (threadFunc_frame.1.trans hunlocked))
  · refine Or.inr (Or.inr ⟨j, ?_⟩)
    by_cases hji : j = i
    · subst hji
      exact awake_threadFunc hj hbefore
    · rw [threadFunc_frame.2 j hji]
      exact hj

/-- A seen signal leaves some worker awake. -/
theorem awake_signal {woken : Finset (Fin n)} (hen : s.Enabled (.signal woken))
    (hi : s.workers i ≠ .condWait) : ∃ j, ((s.next (.signal woken)).workers j).Awake := by
  by_cases hblocked : ∃ j, s.workers j = .blocked
  · obtain ⟨j, hj⟩ := hen.2.2 hblocked
    exact ⟨j, by simp [next, hj, WorkerPc.Awake]⟩
  · have hout : i ∉ woken := fun hmem => hblocked ⟨i, hen.2.1 i hmem⟩
    refine ⟨i, ?_⟩
    rw [show (s.next (.signal woken)).workers i = s.workers i by simp [next, hout]]
    exact ⟨hi, fun hb => hblocked ⟨i, hb⟩⟩

theorem Attended.next (h : Attended s) (hen : s.Enabled e) (hseen : s.SignalSeen e) :
    Attended (s.next e) := by
  cases e with
  | lock =>
    intro hne
    rcases h hne with hpushed | hunlocked | hawake
    · simp [Enabled, hpushed] at hen
    · simp [Enabled, hunlocked] at hen
    · exact Or.inr (Or.inr hawake)
  | pushBack b => exact fun _ => Or.inl rfl
  | unlock => exact fun _ => Or.inr (Or.inl rfl)
  | signal woken =>
    intro hne
    obtain ⟨i, hi⟩ := hseen hne
    exact Or.inr (Or.inr (awake_signal hen hi))
  | worker i => exact h.threadFunc
  | spurious i => exact fun _ => Or.inr (Or.inr ⟨i, by simp [RecvThreads.next, WorkerPc.Awake]⟩)

theorem attended (h : ((recvThreads n).restrict SignalSeen).Run es s) : Attended s := by
  refine h.invariant ?_ ?_
  · intro s hs hne
    exact absurd hs.1 hne
  · rintro s e s' hs ⟨hseen, hen, hnext⟩
    obtain rfl := Option.some.inj hnext
    exact hs.next hen hseen

theorem Attended.not_lost (h : Attended s) : ¬ Lost s := by
  rintro ⟨hne, hout, hblocked⟩
  rcases h hne with hpushed | hunlocked | ⟨i, hi⟩
  · rw [hout] at hpushed
    cases hpushed
  · rw [hout] at hunlocked
    cases hunlocked
  · exact hi.2 (hblocked i)

/-! ### One holder of `m_pThreadMutex` -/

/-- A worker that runs the part of `ThreadFunc` between the lock and the unlock holds the mutex. -/
def Owned (s : RecvThreads n) : Prop := ∀ i, (s.workers i).Holds → s.pThreadMutex = some i

namespace Owned

theorem goTo {pc : WorkerPc} (h : Owned s) (hpc : pc.Holds → s.pThreadMutex = some i) :
    Owned (s.goTo i pc) := by
  intro j hj
  by_cases hji : j = i
  · subst hji
    exact hpc (by simpa using hj)
  · exact h j (by simpa [hji] using hj)

theorem acquire (h : Owned s) (hfree : s.pThreadMutex = none) :
    Owned ({ s with pThreadMutex := some i }.goTo i .testSize) := by
  refine Owned.goTo (fun j hj => ?_) fun _ => rfl
  have := h j hj
  rw [hfree] at this
  cases this

theorem release {pc : WorkerPc} (h : Owned s) (hi : (s.workers i).Holds) (hpc : ¬ pc.Holds) :
    Owned ({ s with pThreadMutex := none }.goTo i pc) := by
  intro j hj
  by_cases hji : j = i
  · subst hji
    exact absurd (by simpa using hj) hpc
  · have hheld := h j (by simpa [hji] using hj)
    rw [h i hi, Option.some.injEq] at hheld
    exact absurd hheld.symm hji

theorem threadFunc (h : Owned s) (hen : s.Enabled (.worker i)) : Owned (s.threadFunc i) := by
  unfold RecvThreads.threadFunc
  split
  case h_1 hpc => exact h.acquire (hen.2 (Or.inl hpc))
  case h_2 hpc => exact h.goTo fun _ => h i (by simp [hpc, WorkerPc.Holds])
  case h_3 hpc => exact h.release (by simp [hpc, WorkerPc.Holds]) (by simp [WorkerPc.Holds])
  case h_4 => exact h
  case h_5 hpc => exact h.acquire (hen.2 (Or.inr hpc))
  case h_6 hpc =>
    split
    · exact h
    · exact h.goTo fun _ => h i (by simp [hpc, WorkerPc.Holds])
  case h_7 hpc =>
    exact Owned.goTo (s := { s with queue := s.queue.popFront }) h
      fun _ => h i (by simp [hpc, WorkerPc.Holds])
  case h_8 hpc => exact h.release (by simp [hpc, WorkerPc.Holds]) (by simp [WorkerPc.Holds])
  case h_9 => exact h.goTo (by simp [WorkerPc.Holds])

theorem next (h : Owned s) (hen : s.Enabled e) : Owned (s.next e) := by
  cases e with
  | lock => exact h
  | pushBack b => exact h
  | unlock => exact h
  | signal woken =>
    intro i hi
    by_cases hmem : i ∈ woken
    · simp [RecvThreads.next, hmem, WorkerPc.Holds] at hi
    · exact h i (by simpa [RecvThreads.next, hmem] using hi)
  | worker i => exact h.threadFunc hen
  | spurious i => exact h.goTo (by simp [WorkerPc.Holds])

theorem run (h : (recvThreads n).Run es s) : Owned s := by
  refine h.invariant ?_ ?_
  · intro s hs i hi
    rw [hs.2.2.2.2 i] at hi
    exact hi.elim
  · rintro s e s' hs ⟨hen, hnext⟩
    obtain rfl := Option.some.inj hnext
    exact hs.next hen

/-- Two workers are not at `pthread_cond_wait` at the same time. -/
theorem condWait_unique (h : Owned s) (hi : s.workers i = .condWait)
    (hj : s.workers j = .condWait) : i = j := by
  have hown := h i (by simp [hi, WorkerPc.Holds])
  rw [h j (by simp [hj, WorkerPc.Holds]), Option.some.injEq] at hown
  exact hown.symm

/-- With two workers no signal is missed. -/
theorem signalSeen (h : Owned s) (hn : 2 ≤ n) : s.SignalSeen e := by
  cases e with
  | signal woken =>
    intro _
    by_contra hall
    push Not at hall
    have := h.condWait_unique (hall ⟨0, by omega⟩) (hall ⟨1, by omega⟩)
    simp at this
  | _ => trivial

end Owned

/-- After a missed signal the only worker goes to sleep on a message. -/
theorem lost_of_missed (h : Owned s) (hn : 0 < n) (hen : s.Enabled e) (hmiss : ¬ s.SignalSeen e) :
    ∃ i, (s.next e).Enabled (.worker i) ∧ Lost ((s.next e).next (.worker i)) := by
  cases e with
  | signal woken =>
    simp only [SignalSeen, not_forall, not_exists, not_not] at hmiss
    obtain ⟨hne, hall⟩ := hmiss
    have hnone (j : Fin n) : j ∉ woken := fun hj => by simpa [hall j] using hen.2.1 j hj
    have hwait (j : Fin n) : (s.next (.signal woken)).workers j = .condWait := by
      simp [next, hnone j, hall j]
    refine ⟨⟨0, hn⟩, ⟨by simp [hwait], by simp [hwait]⟩, ?_⟩
    have hstep : (s.next (.signal woken)).next (.worker ⟨0, hn⟩) =
        { s.next (.signal woken) with pThreadMutex := none }.goTo ⟨0, hn⟩ .blocked := by
      simp only [RecvThreads.next, threadFunc] at hwait ⊢
      rw [hwait]
    rw [hstep]
    refine ⟨hne, rfl, fun j => ?_⟩
    rw [h.condWait_unique (hall j) (hall ⟨0, hn⟩)]
    simp
  | _ => exact absurd trivial hmiss

/-- No wake-up is lost as long as no signal is sent for a waiting message while every worker is
between the test of the list and `pthread_cond_wait`. When one is, the worker goes to sleep on the
message. With two workers or more it cannot be. -/
theorem no_lost_wakeUp (hn : 0 < n) :
    (∀ es s, ((recvThreads n).restrict SignalSeen).Run es s → ¬ Lost s) ∧
      (∀ es s e s', (recvThreads n).Run es s → (recvThreads n).step s e s' → ¬ s.SignalSeen e →
        ∃ i t, (recvThreads n).step s' (.worker i) t ∧ Lost t) ∧
      (2 ≤ n → ∀ es s, (recvThreads n).Run es s → ¬ Lost s) := by
  refine ⟨fun es s h => (attended h).not_lost, ?_, ?_⟩
  · rintro es s e s' h ⟨hen, hnext⟩ hmiss
    obtain rfl := Option.some.inj hnext
    obtain ⟨i, hi, hlost⟩ := lost_of_missed (Owned.run h) hn hen hmiss
    exact ⟨i, _, ⟨hi, rfl⟩, hlost⟩
  · intro htwo es s h
    exact (attended (h.restrict_of fun _ _ _ _ hr _ => (Owned.run hr).signalSeen htwo)).not_lost

/-- A worker goes to sleep, a message is pushed, and the signal wakes the worker. -/
theorem no_lost_wakeUp_one :
    ∃ es s, ((recvThreads 1).restrict SignalSeen).Run es s ∧ s.queue.recvMsgList = [0] ∧
      s.workers 0 = .woken ∧ ¬ Lost s := by
  obtain ⟨s, hrun, hs⟩ := run_of_play SignalSeen (n := 1)
    [.worker 0, .worker 0, .worker 0, .lock, .pushBack 0, .unlock, .signal {0}]
    (fun s => (s.queue.recvMsgList, s.workers 0)) ([0], .woken) (by decide)
  obtain ⟨hlist, hworker⟩ := Prod.mk.inj hs
  exact ⟨_, s, hrun, hlist, hworker, (no_lost_wakeUp (n := 1) (by decide)).1 _ s hrun⟩

/-- The only worker finds the list empty; a message is pushed and its signal wakes nobody; then
the worker goes to sleep. -/
theorem wakeUp_lost : ∃ es s, (recvThreads 1).Run es s ∧ Lost s := by
  obtain ⟨s, hrun, hs⟩ := run_of_play (fun _ _ => True) (n := 1)
    [.worker 0, .worker 0, .lock, .pushBack 0, .unlock, .signal ∅, .worker 0]
    (fun s => (s.queue.recvMsgList, s.producer, s.workers 0)) ([0], .outside, .blocked) (by decide)
  simp only [Prod.mk.injEq] at hs
  obtain ⟨hlist, hproducer, hworker⟩ := hs
  refine ⟨_, s, hrun.of_restrict, by simp [hlist], hproducer, fun i => ?_⟩
  rw [Subsingleton.elim i 0]
  exact hworker

end RecvThreads
end XiaoHGServer
