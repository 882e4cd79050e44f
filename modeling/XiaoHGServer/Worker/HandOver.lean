import Mathlib.Algebra.BigOperators.Fin
import XiaoHGServer.Library.Desk
import XiaoHGServer.Worker.WakeUp

/-!
# Handing messages over

What one worker finds at the front of the list another one must not take away
before it has popped it. The worker threads hold `m_pThreadMutex` from the one to
the other, and the producer only appends, so the operations of `ThreadFunc` come
to the same as taking up the oldest message in one step.
-/

namespace XiaoHGServer

/-- The message that the thread has popped and not handled yet. -/
def WorkerPc.job : WorkerPc → Option BufId
  | .unlock b => some b
  | .handle b => some b
  | _ => none

/-- What a thread has seen of the list: it is not empty, or this is its front. -/
def WorkerPc.Fits (l : List BufId) : WorkerPc → Prop
  | .front => l ≠ []
  | .popFront b => ∃ rest, l = b :: rest
  | _ => True

theorem WorkerPc.Fits.append {l : List BufId} {pc : WorkerPc} (h : pc.Fits l) (l' : List BufId) :
    pc.Fits (l ++ l') := by
  cases pc with
  | front => exact List.append_ne_nil_of_left_ne_nil h l'
  | popFront b =>
    obtain ⟨rest, rfl⟩ := h
    exact ⟨rest ++ l', rfl⟩
  | _ => trivial

/-- A thread looks at the list only while it holds `m_pThreadMutex`. -/
theorem WorkerPc.fits_of_not_holds {l : List BufId} {pc : WorkerPc} (h : ¬ pc.Holds) :
    pc.Fits l := by
  cases pc with
  | front => exact absurd trivial h
  | popFront b => exact absurd trivial h
  | _ => trivial

inductive QueueEvent (n : ℕ)
  | pushed (b : BufId)
  | popped (i : Fin n) (b : BufId)
  | handled (i : Fin n) (b : BufId)
  deriving DecidableEq, Repr

namespace QueueEvent

variable {n : ℕ}

/-- What happens at a desk, where it does not matter which worker does it. -/
def atDesk : QueueEvent n → DeskEvent BufId
  | .pushed b => .received b
  | .popped _ _ => .taken
  | .handled _ b => .dropped b

def pushedOf (es : List (QueueEvent n)) : List BufId :=
  es.filterMap fun | .pushed b => some b | _ => none

def poppedOf (es : List (QueueEvent n)) : List BufId :=
  es.filterMap fun | .popped _ b => some b | _ => none

def poppedBy (i : Fin n) (es : List (QueueEvent n)) : List BufId :=
  es.filterMap fun | .popped j b => if j = i then some b else none | _ => none

def handledBy (i : Fin n) (es : List (QueueEvent n)) : List BufId :=
  es.filterMap fun | .handled j b => if j = i then some b else none | _ => none

theorem pushedOf_append (es es' : List (QueueEvent n)) :
    pushedOf (es ++ es') = pushedOf es ++ pushedOf es' := List.filterMap_append

theorem poppedOf_append (es es' : List (QueueEvent n)) :
    poppedOf (es ++ es') = poppedOf es ++ poppedOf es' := List.filterMap_append

theorem poppedBy_append (i : Fin n) (es es' : List (QueueEvent n)) :
    poppedBy i (es ++ es') = poppedBy i es ++ poppedBy i es' := List.filterMap_append

theorem handledBy_append (i : Fin n) (es es' : List (QueueEvent n)) :
    handledBy i (es ++ es') = handledBy i es ++ handledBy i es' := List.filterMap_append

end QueueEvent

theorem sum_add_of_ne {M : Type*} [AddCommMonoid M] {n : ℕ} {i : Fin n} {f g : Fin n → M}
    (h : ∀ j, j ≠ i → g j = f j) : ∑ j, g j + f i = ∑ j, f j + g i := by
  have hothers : ∑ j ∈ Finset.univ.erase i, g j = ∑ j ∈ Finset.univ.erase i, f j :=
    Finset.sum_congr rfl fun j hj => h j (Finset.ne_of_mem_erase hj)
  rw [← Finset.add_sum_erase _ g (Finset.mem_univ i),
    ← Finset.add_sum_erase _ f (Finset.mem_univ i), hothers]
  abel

namespace RecvThreads

open QueueEvent

variable {n : ℕ} {s s' : RecvThreads n} {e : RecvEvent n} {es : List (RecvEvent n)} {i j : Fin n}
  {b : BufId} {hist : List (QueueEvent n)}

def queueEvents (s : RecvThreads n) : RecvEvent n → List (QueueEvent n)
  | .pushBack b => [.pushed b]
  | .worker i =>
    match s.workers i with
    | .popFront _ => s.queue.recvMsgList.head?.toList.map (.popped i)
    | .handle b => [.handled i b]
    | _ => []
  | _ => []

def inHand (s : RecvThreads n) : Multiset BufId := ∑ i, ((s.workers i).job.toList : Multiset BufId)

def desk (s : RecvThreads n) : Desk BufId := ⟨s.queue.recvMsgList, s.inHand, 0⟩

theorem inHand_change (h : ∀ j, j ≠ i → (s'.workers j).job = (s.workers j).job) :
    s'.inHand + ((s.workers i).job.toList : Multiset BufId) =
      s.inHand + ((s'.workers i).job.toList : Multiset BufId) := by
  have hothers : ∀ j, j ≠ i → ((s'.workers j).job.toList : Multiset BufId) =
      (s.workers j).job.toList := by
    intro j hj
    rw [h j hj]
  exact sum_add_of_ne hothers

inductive Moves (s : RecvThreads n) : List (QueueEvent n) → RecvThreads n → Prop
  | quiet {s' : RecvThreads n} : s'.queue.recvMsgList = s.queue.recvMsgList →
      (∀ j, (s'.workers j).job = (s.workers j).job) → Moves s [] s'
  | pushed {s' : RecvThreads n} (b : BufId) : s'.queue.recvMsgList = s.queue.recvMsgList ++ [b] →
      (∀ j, (s'.workers j).job = (s.workers j).job) → Moves s [.pushed b] s'
  | popped {s' : RecvThreads n} (i : Fin n) (b : BufId) :
      s.queue.recvMsgList = b :: s'.queue.recvMsgList →
      (s.workers i).job = none → (s'.workers i).job = some b →
      (∀ j, j ≠ i → (s'.workers j).job = (s.workers j).job) → Moves s [.popped i b] s'
  | handled {s' : RecvThreads n} (i : Fin n) (b : BufId) :
      s'.queue.recvMsgList = s.queue.recvMsgList →
      (s.workers i).job = some b → (s'.workers i).job = none →
      (∀ j, j ≠ i → (s'.workers j).job = (s.workers j).job) → Moves s [.handled i b] s'

/-- What each worker has seen of the list is still so. -/
def Front (s : RecvThreads n) : Prop := ∀ i, (s.workers i).Fits s.queue.recvMsgList

theorem Moves.goTo {pc : WorkerPc} {m : Option (Fin n)} (hi : (s.workers i).job = pc.job) :
    Moves s [] ({ s with pThreadMutex := m }.goTo i pc) := by
  refine .quiet rfl fun j => ?_
  by_cases hj : j = i
  · subst hj
    rw [goTo_self, hi]
  · rw [goTo_ne pc hj]

theorem threadFunc_moves (hf : s.Front) :
    Moves s (s.queueEvents (.worker i)) (s.threadFunc i) := by
  have hothers {pc : WorkerPc} {u : RecvThreads n} (hu : u.workers = s.workers) :
      ∀ j, j ≠ i → ((u.goTo i pc).workers j).job = (s.workers j).job := by
    intro j hj
    rw [goTo_ne pc hj, hu]
  cases hpc : s.workers i with
  | lock =>
    simp only [queueEvents, threadFunc, hpc]
    exact .goTo (by rw [hpc]; rfl)
  | testSize =>
    simp only [queueEvents, threadFunc, hpc]
    exact .goTo (m := s.pThreadMutex) (by rw [hpc]; split_ifs <;> rfl)
  | condWait =>
    simp only [queueEvents, threadFunc, hpc]
    exact .goTo (by rw [hpc]; rfl)
  | blocked =>
    simp only [queueEvents, threadFunc, hpc]
    exact .quiet rfl fun _ => rfl
  | woken =>
    simp only [queueEvents, threadFunc, hpc]
    exact .goTo (by rw [hpc]; rfl)
  | front =>
    simp only [queueEvents, threadFunc, hpc]
    split
    · exact .quiet rfl fun _ => rfl
    · exact .goTo (m := s.pThreadMutex) (by rw [hpc]; rfl)
  | popFront b =>
    have hfits := hf i
    rw [hpc] at hfits
    obtain ⟨rest, hlist⟩ := hfits
    simp only [queueEvents, threadFunc, hpc, hlist, List.head?_cons, Option.toList_some,
      List.map_cons, List.map_nil]
    apply Moves.popped i b
    · simp [RecvQueue.popFront, hlist]
    · rw [hpc]
      rfl
    · rw [goTo_self]
      rfl
    · exact hothers rfl
  | unlock b =>
    simp only [queueEvents, threadFunc, hpc]
    exact .goTo (by rw [hpc]; rfl)
  | handle b =>
    simp only [queueEvents, threadFunc, hpc]
    refine .handled i b rfl ?_ ?_ (hothers rfl)
    · rw [hpc]
      rfl
    · rw [goTo_self]
      rfl

theorem step_moves (hf : s.Front) (he : s.Enabled e) : Moves s (s.queueEvents e) (s.next e) := by
  cases e with
  | lock => exact .quiet rfl fun _ => rfl
  | pushBack b => exact .pushed b rfl fun _ => rfl
  | unlock => exact .quiet rfl fun _ => rfl
  | signal woken =>
    refine .quiet rfl fun j => ?_
    by_cases hj : j ∈ woken
    · simp [next, hj, he.2.1 j hj, WorkerPc.job]
    · simp [next, hj]
  | worker i => exact threadFunc_moves hf
  | spurious i => exact .goTo (m := s.pThreadMutex) (by rw [he]; rfl)

theorem threadFunc_queue (h : ∀ b, s.workers i ≠ .popFront b) :
    (s.threadFunc i).queue = s.queue := by
  unfold threadFunc
  split
  case h_6 => split <;> rfl
  case h_7 b hpc => exact absurd hpc (h b)
  all_goals rfl

theorem threadFunc_fits (hf : s.Front) :
    ((s.threadFunc i).workers i).Fits (s.threadFunc i).queue.recvMsgList := by
  have hfits := hf i
  cases hpc : s.workers i with
  | testSize =>
    simp only [threadFunc, hpc, goTo_self]
    split_ifs with hlen
    · trivial
    · exact fun hnil => hlen (by rw [goTo_queue] at hnil; rw [hnil]; rfl)
  | front =>
    rw [hpc] at hfits
    cases hlist : s.queue.recvMsgList with
    | nil => exact absurd hlist hfits
    | cons b rest =>
      simp only [threadFunc, hpc, hlist, goTo_self]
      exact ⟨rest, hlist⟩
  | blocked =>
    simp only [threadFunc, hpc]
    trivial
  | _ =>
    simp only [threadFunc, hpc, goTo_self]
    trivial

/-- Only the holder of `m_pThreadMutex` takes away from the front. -/
theorem Front.step (hf : s.Front) (ho : s.Owned) (he : s.Enabled e) : (s.next e).Front := by
  intro j
  cases e with
  | lock => exact hf j
  | pushBack b => exact (hf j).append [b]
  | unlock => exact hf j
  | signal woken =>
    by_cases hmem : j ∈ woken
    · simp [next, hmem, WorkerPc.Fits]
    · simpa [next, hmem] using hf j
  | spurious i =>
    by_cases hji : j = i
    · subst hji
      simp [next, WorkerPc.Fits]
    · simpa [next, hji] using hf j
  | worker i =>
    by_cases hji : j = i
    · subst hji
      exact threadFunc_fits hf
    · change ((s.threadFunc i).workers j).Fits (s.threadFunc i).queue.recvMsgList
      rw [threadFunc_frame.2 j hji]
      by_cases hholds : (s.workers j).Holds
      · have hno (b : BufId) : s.workers i ≠ .popFront b := by
          intro hi
          have hheld := ho i (by rw [hi]; trivial)
          rw [ho j hholds, Option.some.injEq] at hheld
          exact hji hheld
        rw [threadFunc_queue hno]
        exact hf j
      · exact WorkerPc.fits_of_not_holds hholds

/-- Every message pushed is popped once, in the order of the pushes, and handled once, by the worker
that has popped it; the list and the hands of the workers are a desk where each message is taken up
in one step. -/
structure HandedOver (s : RecvThreads n) (hist : List (QueueEvent n)) : Prop where
  refines : (Desk.runs BufId False).Run (hist.map QueueEvent.atDesk) s.desk
  order : pushedOf hist = poppedOf hist ++ s.queue.recvMsgList
  worker : ∀ i, poppedBy i hist = handledBy i hist ++ (s.workers i).job.toList

theorem inHand_congr (h : ∀ j, (s'.workers j).job = (s.workers j).job) : s'.inHand = s.inHand := by
  unfold inHand
  apply Finset.sum_congr rfl
  intro j _
  rw [h j]

theorem Moves.desk {new : List (QueueEvent n)} (hm : Moves s new s') :
    new = [] ∧ s'.desk = s.desk ∨ ∃ e, new = [e] ∧ Desk.Step s.desk e.atDesk s'.desk := by
  cases hm with
  | quiet hlist hjobs =>
    refine Or.inl ⟨rfl, ?_⟩
    rw [RecvThreads.desk, RecvThreads.desk, hlist, inHand_congr hjobs]
  | pushed b hlist hjobs =>
    refine Or.inr ⟨_, rfl, ?_⟩
    rw [RecvThreads.desk, RecvThreads.desk, hlist, inHand_congr hjobs]
    apply Desk.Step.received
  | popped i b hlist hbefore hafter hothers =>
    have hhand := inHand_change hothers
    rw [hbefore, hafter, Option.toList_none, Multiset.coe_nil, add_zero, Option.toList_some,
      Multiset.coe_singleton, add_comm, Multiset.singleton_add] at hhand
    refine Or.inr ⟨_, rfl, ?_⟩
    rw [RecvThreads.desk, RecvThreads.desk, hlist, hhand]
    apply Desk.Step.taken
  | handled i b hlist hbefore hafter hothers =>
    have hhand := inHand_change hothers
    rw [hbefore, hafter, Option.toList_none, Multiset.coe_nil, add_zero, Option.toList_some,
      Multiset.coe_singleton, add_comm, Multiset.singleton_add] at hhand
    refine Or.inr ⟨_, rfl, ?_⟩
    rw [RecvThreads.desk, RecvThreads.desk, hlist, ← hhand]
    apply Desk.Step.dropped

theorem HandedOver.step {new : List (QueueEvent n)} (h : s.HandedOver hist) (hm : Moves s new s') :
    s'.HandedOver (hist ++ new) := by
  refine ⟨?_, ?_, fun j => ?_⟩
  · rw [List.map_append]
    rcases hm.desk with ⟨rfl, hdesk⟩ | ⟨e, rfl, hstep⟩
    · rw [hdesk, List.map_nil, List.append_nil]
      exact h.refines
    · exact h.refines.step ⟨False.elim, hstep⟩
  · rw [pushedOf_append, poppedOf_append, h.order]
    cases hm with
    | quiet hlist => simp [pushedOf, poppedOf, hlist]
    | pushed b hlist => simp [pushedOf, poppedOf, hlist]
    | popped i b hlist => simp [pushedOf, poppedOf, hlist]
    | handled i b hlist => simp [pushedOf, poppedOf, hlist]
  · rw [poppedBy_append, handledBy_append, h.worker j]
    cases hm with
    | quiet _ hjobs => simp [poppedBy, handledBy, hjobs j]
    | pushed b _ hjobs => simp [poppedBy, handledBy, hjobs j]
    | popped i b _ hbefore hafter hothers =>
      by_cases hj : j = i
      · subst hj
        simp [poppedBy, handledBy, hbefore, hafter]
      · simp [poppedBy, handledBy, hothers j hj, Ne.symm hj]
    | handled i b _ hbefore hafter hothers =>
      by_cases hj : j = i
      · subst hj
        simp [poppedBy, handledBy, hbefore, hafter]
      · simp [poppedBy, handledBy, hothers j hj, Ne.symm hj]

theorem HandedOver.start (h : s.Start) : s.HandedOver [] := by
  obtain ⟨hlist, -, -, -, hworkers⟩ := h
  refine ⟨.start ?_, ?_, fun i => ?_⟩
  · simp [Desk.runs, desk, inHand, hlist, hworkers, WorkerPc.job]
  · rw [hlist]
    rfl
  · rw [hworkers i]
    rfl

theorem Moves.reverse {new : List (QueueEvent n)} (hm : Moves s new s') : new.reverse = new := by
  rcases hm.desk with ⟨rfl, -⟩ | ⟨e, rfl, -⟩ <;> rfl

theorem front_of_run (h : (recvThreads n).Run es s) : s.Front := by
  refine h.trace_invariant (I := fun _ s => s.Front) ?_ ?_
  · rintro s ⟨-, -, -, -, hworkers⟩ i
    rw [hworkers i]
    trivial
  · rintro es s e s' hrun ih ⟨hen, hnext⟩
    obtain rfl := Option.some.inj hnext
    exact ih.step (Owned.run hrun) hen

theorem handedOver_of_run
    (h : ((recvThreads n).record queueEvents).Run es (s, hist)) : s.HandedOver hist.reverse := by
  refine h.trace_invariant (I := fun _ p => p.1.HandedOver p.2.reverse) ?_ ?_
  · rintro ⟨s, hist⟩ ⟨hstart, rfl⟩
    exact .start hstart
  · rintro es ⟨s, hist⟩ e ⟨s', hist'⟩ hrun ih ⟨⟨hen, hnext⟩, rfl⟩
    obtain rfl := Option.some.inj hnext
    have hm := step_moves (front_of_run hrun.of_record) hen
    rw [List.reverse_append, hm.reverse]
    exact ih.step hm

end RecvThreads
end XiaoHGServer
