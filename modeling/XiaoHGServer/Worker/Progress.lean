import XiaoHGServer.Worker.HandOver

/-!
# Working off the messages

The worker threads do not spin: a message costs them six operations and a wake-up
five at most, whatever the order. Nor do they stop early: of two threads or more,
all sleep only when every message has been handled.
-/

namespace XiaoHGServer

/-- The operations of a thread from here to `pthread_cond_wait`, apart from those that it owes
to the messages it takes up. -/
def WorkerPc.rank : WorkerPc → ℕ
  | .blocked => 0
  | .condWait => 1
  | .popFront _ => 2
  | .front => 3
  | .testSize => 4
  | .lock => 5
  | .woken => 5
  | .handle _ => 6
  | .unlock _ => 7

namespace RecvEvent

variable {n : ℕ}

def cost : RecvEvent n → ℕ
  | .worker _ => 1
  | _ => 0

/-- The operations of the workers that a message or a wake-up leads to. -/
def credit : RecvEvent n → ℕ
  | .pushBack _ => 6
  | .signal woken => 5 * woken.card
  | .spurious _ => 5
  | _ => 0

end RecvEvent

namespace RecvThreads

open QueueEvent

variable {n : ℕ} {s s' : RecvThreads n} {e : RecvEvent n} {es : List (RecvEvent n)} {i j : Fin n}
  {hist : List (QueueEvent n)}

def ranks (s : RecvThreads n) : ℕ := ∑ i, (s.workers i).rank

def work (s : RecvThreads n) : ℕ := 6 * s.queue.recvMsgList.length + s.ranks

theorem ranks_goTo (s : RecvThreads n) (i : Fin n) (pc : WorkerPc) :
    (s.goTo i pc).ranks + (s.workers i).rank = s.ranks + pc.rank := by
  have hothers : ∀ j, j ≠ i → ((s.goTo i pc).workers j).rank = (s.workers j).rank := by
    intro j hj
    rw [goTo_ne pc hj]
  have hsum := sum_add_of_ne hothers
  rwa [goTo_self] at hsum

theorem work_goTo {pc : WorkerPc} {m : Option (Fin n)} (h : pc.rank < (s.workers i).rank) :
    1 + ({ s with pThreadMutex := m }.goTo i pc).work ≤ s.work := by
  have hsum : ({ s with pThreadMutex := m }.goTo i pc).ranks + (s.workers i).rank =
      s.ranks + pc.rank := ranks_goTo { s with pThreadMutex := m } i pc
  change 1 + (6 * s.queue.recvMsgList.length + _) ≤ 6 * s.queue.recvMsgList.length + s.ranks
  omega

/-- Every operation of a worker leaves less to do. -/
theorem work_threadFunc (hf : s.Front) (hen : s.Enabled (.worker i)) :
    1 + (s.threadFunc i).work ≤ s.work := by
  have hfits := hf i
  cases hpc : s.workers i with
  | lock =>
    simp only [threadFunc, hpc]
    exact work_goTo (by rw [hpc]; decide)
  | testSize =>
    simp only [threadFunc, hpc]
    refine work_goTo (m := s.pThreadMutex) ?_
    rw [hpc]
    split_ifs <;> decide
  | condWait =>
    simp only [threadFunc, hpc]
    exact work_goTo (by rw [hpc]; decide)
  | blocked => exact absurd hpc hen.1
  | woken =>
    simp only [threadFunc, hpc]
    exact work_goTo (by rw [hpc]; decide)
  | front =>
    rw [hpc] at hfits
    cases hlist : s.queue.recvMsgList with
    | nil => exact absurd hlist hfits
    | cons b rest =>
      simp only [threadFunc, hpc, hlist]
      exact work_goTo (m := s.pThreadMutex) (by rw [hpc, WorkerPc.rank, WorkerPc.rank]; decide)
  | popFront b =>
    -- one message less in the list pays for the rest of the turn
    rw [hpc] at hfits
    obtain ⟨rest, hlist⟩ := hfits
    have hsum : ({ s with queue := s.queue.popFront }.goTo i (.unlock b)).ranks +
        (s.workers i).rank = s.ranks + WorkerPc.rank (.unlock b) :=
      ranks_goTo { s with queue := s.queue.popFront } i (.unlock b)
    have hpop : WorkerPc.rank (.popFront b) = 2 := rfl
    have hunlock : WorkerPc.rank (.unlock b) = 7 := rfl
    rw [hpc, hpop, hunlock] at hsum
    have hlen : s.queue.popFront.recvMsgList.length = rest.length := by
      rw [RecvQueue.popFront, hlist]
      rfl
    simp only [threadFunc, hpc]
    rw [work, work, goTo_queue, hlen, hlist, List.length_cons]
    omega
  | unlock b =>
    simp only [threadFunc, hpc]
    exact work_goTo (by rw [hpc, WorkerPc.rank, WorkerPc.rank]; decide)
  | handle b =>
    simp only [threadFunc, hpc]
    exact work_goTo (m := s.pThreadMutex) (by rw [hpc, WorkerPc.rank, WorkerPc.rank]; decide)

theorem work_signal {woken : Finset (Fin n)} (hen : s.Enabled (.signal woken)) :
    (s.next (.signal woken)).work = s.work + 5 * woken.card := by
  have hrank (j : Fin n) : ((s.next (.signal woken)).workers j).rank =
      (s.workers j).rank + if j ∈ woken then 5 else 0 := by
    by_cases hj : j ∈ woken
    · simp [next, hj, hen.2.1 j hj, WorkerPc.rank]
    · simp [next, hj]
  have hsum : ∑ j, (if j ∈ woken then 5 else 0) = 5 * woken.card := by
    rw [Finset.sum_ite_mem, Finset.univ_inter, Finset.sum_const, smul_eq_mul, mul_comm]
  unfold work ranks
  rw [Finset.sum_congr rfl fun j _ => hrank j, Finset.sum_add_distrib, hsum, add_assoc]
  rfl

theorem work_step (hf : s.Front) (hen : s.Enabled e) :
    e.cost + (s.next e).work ≤ s.work + e.credit := by
  cases e with
  | lock => exact le_of_eq (Nat.zero_add _)
  | pushBack b =>
    change 0 + (6 * (s.queue.recvMsgList ++ [b]).length + s.ranks) ≤
      6 * s.queue.recvMsgList.length + s.ranks + 6
    rw [List.length_append, List.length_singleton]
    omega
  | unlock => exact le_of_eq (Nat.zero_add _)
  | signal woken =>
    rw [work_signal hen]
    exact le_of_eq (Nat.zero_add _)
  | worker i => exact work_threadFunc hf hen
  | spurious i =>
    have hsum := ranks_goTo s i .woken
    have hwoken : WorkerPc.rank .woken = 5 := rfl
    rw [show s.workers i = .blocked from hen, hwoken] at hsum
    change 0 + (s.goTo i .woken).work ≤ s.work + 5
    rw [work, work, goTo_queue]
    omega

theorem work_start (h : s.Start) : s.work = 5 * n := by
  obtain ⟨hlist, -, -, -, hworkers⟩ := h
  simp [work, ranks, hlist, hworkers, WorkerPc.rank, mul_comm]

/-! ### All threads asleep -/

/-- `m_pThreadMutex` is held by a thread between its lock and its unlock. -/
def Held (s : RecvThreads n) : Prop := ∀ i, s.pThreadMutex = some i → (s.workers i).Holds

theorem threadFunc_held (hh : s.Held) (hen : s.Enabled (.worker i)) : (s.threadFunc i).Held := by
  intro j hj
  by_cases hji : j = i
  · subst hji
    have hholds := hh j
    cases hpc : s.workers j with
    | testSize =>
      simp only [threadFunc, hpc, goTo_self]
      split_ifs <;> trivial
    | front =>
      cases hlist : s.queue.recvMsgList with
      | nil =>
        simp only [threadFunc, hpc, hlist]
        trivial
      | cons b rest =>
        simp only [threadFunc, hpc, hlist, goTo_self]
        trivial
    | blocked => exact absurd hpc hen.1
    | handle b =>
      simp only [threadFunc, hpc, goTo_pThreadMutex] at hj
      rw [hpc] at hholds
      exact (hholds hj).elim
    | _ =>
      simp only [threadFunc, hpc, goTo_self, goTo_pThreadMutex] at hj ⊢
      trivial
  · rw [threadFunc_frame.2 j hji]
    apply hh j
    cases hpc : s.workers i with
    | front =>
      cases hlist : s.queue.recvMsgList with
      | nil => simpa only [threadFunc, hpc, hlist] using hj
      | cons b rest => simpa only [threadFunc, hpc, hlist, goTo_pThreadMutex] using hj
    | lock =>
      simp only [threadFunc, hpc, goTo_pThreadMutex] at hj
      exact absurd (Option.some.inj hj).symm hji
    | woken =>
      simp only [threadFunc, hpc, goTo_pThreadMutex] at hj
      exact absurd (Option.some.inj hj).symm hji
    | condWait =>
      simp only [threadFunc, hpc, goTo_pThreadMutex] at hj
      cases hj
    | unlock b =>
      simp only [threadFunc, hpc, goTo_pThreadMutex] at hj
      cases hj
    | blocked => exact absurd hpc hen.1
    | _ => simpa only [threadFunc, hpc, goTo_pThreadMutex] using hj

theorem Held.step (hh : s.Held) (hen : s.Enabled e) : (s.next e).Held := by
  cases e with
  | lock => exact hh
  | pushBack b => exact hh
  | unlock => exact hh
  | signal woken =>
    intro i hi
    have hholds := hh i hi
    have hmem : i ∉ woken := by
      intro hmem
      rw [hen.2.1 i hmem] at hholds
      exact hholds
    simpa [next, hmem] using hholds
  | worker i => exact threadFunc_held hh hen
  | spurious i =>
    intro j hj
    have hholds := hh j hj
    have hji : j ≠ i := by
      rintro rfl
      rw [show s.workers j = .blocked from hen] at hholds
      exact hholds
    simpa [next, hji] using hholds

theorem held_of_run (h : (recvThreads n).Run es s) : s.Held := by
  apply h.invariant (I := Held)
  · rintro s ⟨-, -, hmutex, -⟩ i hi
    rw [hmutex] at hi
    cases hi
  · rintro s e s' hs ⟨hen, hnext⟩
    obtain rfl := Option.some.inj hnext
    exact hs.step hen

/-- Threads that cannot go on are asleep. -/
theorem Held.blocked (hh : s.Held) (hstuck : ∀ i, ¬ s.Enabled (.worker i)) (i : Fin n) :
    s.workers i = .blocked := by
  have hfree : s.pThreadMutex = none := by
    cases hmutex : s.pThreadMutex with
    | none => rfl
    | some j =>
      have hholds := hh j hmutex
      refine absurd ⟨?_, ?_⟩ (hstuck j)
      · intro hj
        rw [hj] at hholds
        exact hholds
      · rintro (hj | hj) <;>
        · rw [hj] at hholds
          exact hholds.elim
  by_contra hi
  exact hstuck i ⟨hi, fun _ => hfree⟩

/-- The worker threads take up each message once, in order, as if in one step, and the one that has
popped it handles it. Their operations are bounded by the messages and the wake-ups. When no
worker can go on, all messages pushed so far have been handled. -/
theorem messages_worked_off (h : ((recvThreads n).record queueEvents).Run es (s, hist)) :
    s.HandedOver hist.reverse ∧
      (es.map RecvEvent.cost).sum + s.work ≤ 5 * n + (es.map RecvEvent.credit).sum ∧
      (2 ≤ n → s.producer = .outside → (∀ i, ¬ s.Enabled (.worker i)) →
        poppedOf hist.reverse = pushedOf hist.reverse ∧
          ∀ i, handledBy i hist.reverse = poppedBy i hist.reverse) := by
  have hrun : (recvThreads n).Run es s := h.of_record
  have hover := handedOver_of_run h
  refine ⟨hover, ?_, fun hn hout hstuck => ?_⟩
  · apply hrun.amortized
    · exact fun s hs => (work_start hs).le
    · rintro es s e s' hr ⟨hen, hnext⟩
      obtain rfl := Option.some.inj hnext
      exact work_step (front_of_run hr) hen
  · have hblocked := (held_of_run hrun).blocked hstuck
    have hseen : ((recvThreads n).restrict SignalSeen).Run es s := by
      apply hrun.restrict_of
      intro es s e s' hr _
      exact (Owned.run hr).signalSeen hn
    have hattended := attended hseen
    have hlist : s.queue.recvMsgList = [] := by
      by_contra hne
      exact hattended.not_lost ⟨hne, hout, hblocked⟩
    refine ⟨?_, fun i => ?_⟩
    · rw [hover.order, hlist, List.append_nil]
    · rw [hover.worker i, hblocked i]
      exact (List.append_nil _).symm

/-- Two workers go to sleep; the second message arrives between `front` and `pop_front` of the
first worker, and its signal wakes the other one. -/
theorem messages_worked_off_two : ∃ es s hist,
    ((recvThreads 2).record queueEvents).Run es (s, hist) ∧
    hist.reverse = [.pushed 7, .pushed 8, .popped 0 7, .popped 1 8, .handled 0 7, .handled 1 8] ∧
    s.HandedOver hist.reverse ∧ (es.map RecvEvent.cost).sum + s.work ≤ 32 ∧
    poppedOf hist.reverse = [7, 8] ∧ handledBy 1 hist.reverse = [8] := by
  have hplay : ∃ p, ((recvThreads 2).record queueEvents).Run
      [.worker 0, .worker 0, .worker 0, .worker 1, .worker 1, .worker 1,
        .lock, .pushBack 7, .unlock, .signal {0}, .worker 0, .worker 0, .worker 0,
        .lock, .pushBack 8, .unlock, .signal {1}, .worker 0, .worker 0,
        .worker 1, .worker 1, .worker 1, .worker 1, .worker 1, .worker 0, .worker 1,
        .worker 0, .worker 0, .worker 0, .worker 1, .worker 1, .worker 1] p ∧
      (p.2, p.1.producer, p.1.workers 0, p.1.workers 1) =
        ([.handled 1 8, .handled 0 7, .popped 1 8, .popped 0 7, .pushed 8, .pushed 7], .outside,
          .blocked, .blocked) := by
    unfold recvThreads
    apply System.record_run_of_play (f := fun p : RecvThreads 2 × List (QueueEvent 2) =>
      (p.2, p.1.producer, p.1.workers 0, p.1.workers 1)) start_boot
    decide
  obtain ⟨⟨s, hist⟩, hrun, hv⟩ := hplay
  simp only [Prod.mk.injEq] at hv
  obtain ⟨rfl, hout, h0, h1⟩ := hv
  obtain ⟨hover, hbound, hall⟩ := messages_worked_off hrun
  have hstuck : ∀ i, ¬ s.Enabled (.worker i) := by
    intro i hen
    match i with
    | 0 => exact hen.1 h0
    | 1 => exact hen.1 h1
  obtain ⟨hpopped, hhandled⟩ := hall le_rfl hout hstuck
  exact ⟨_, s, _, hrun, rfl, hover, hbound.trans (by decide), hpopped, hhandled 1⟩

end RecvThreads
end XiaoHGServer
