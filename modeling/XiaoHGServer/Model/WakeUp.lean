import Mathlib.Data.Fintype.Basic
import XiaoHGServer.Model.Process

/-!
# Waking the worker threads

The epoll thread as the producer that runs `CMessageCtl::PushRecvMsgToRecvListAndCond`
and `n` worker threads that run `CThreadPool::ThreadFunc`. Each operation on
`m_RecvMsgList`, on one of the two mutexes and on `m_pThreadCond` is a step.
-/

namespace XiaoHGServer

namespace RecvQueue

def pushBack (q : RecvQueue) (b : BufId) : RecvQueue :=
  { q with
    recvMsgList := q.recvMsgList ++ [b]
    recvMsgListSize := u32 (q.recvMsgListSize + 1) }

def popFront (q : RecvQueue) : RecvQueue :=
  { q with
    recvMsgList := q.recvMsgList.tail
    recvMsgListSize := sub32 q.recvMsgListSize 1 }

end RecvQueue

/-- The place of the producer: outside `PushRecvMsgToRecvListAndCond`, or in it with
`m_RecvMsgListMutex` locked, the message pushed, the mutex unlocked. -/
inductive ProducerPc
  | outside
  | locked
  | pushed
  | unlocked
  deriving DecidableEq, Repr

/-- The next operation of a worker thread. In `pthread_cond_wait` it is `blocked`, or `woken` and
about to lock `m_pThreadMutex` again. -/
inductive WorkerPc
  | lock
  | testSize
  | condWait
  | blocked
  | woken
  | front
  | popFront (b : BufId)
  | unlock (b : BufId)
  | handle (b : BufId)
  deriving DecidableEq, Repr

structure RecvThreads (n : ℕ) where
  queue : RecvQueue
  recvMsgListMutex : Bool
  /-- The thread that holds `m_pThreadMutex`. -/
  pThreadMutex : Option (Fin n)
  producer : ProducerPc
  workers : Fin n → WorkerPc

inductive RecvEvent (n : ℕ)
  /-- The steps of `PushRecvMsgToRecvListAndCond`; its signal wakes the threads of `woken`. -/
  | lock
  | pushBack (b : BufId)
  | unlock
  | signal (woken : Finset (Fin n))
  /-- The next operation of worker `i`. -/
  | worker (i : Fin n)
  /-- Worker `i` wakes up without a signal. -/
  | spurious (i : Fin n)

namespace RecvThreads

variable {n : ℕ}

/-- What can happen next. A signal wakes at least one of the blocked threads, if there are any. -/
def Enabled (s : RecvThreads n) : RecvEvent n → Prop
  | .lock => s.producer = .outside ∧ s.recvMsgListMutex = false
  | .pushBack _ => s.producer = .locked
  | .unlock => s.producer = .pushed
  | .signal woken =>
    s.producer = .unlocked ∧ (∀ i ∈ woken, s.workers i = .blocked) ∧
      ((∃ i, s.workers i = .blocked) → woken.Nonempty)
  | .worker i =>
    s.workers i ≠ .blocked ∧
      (s.workers i = .lock ∨ s.workers i = .woken → s.pThreadMutex = none)
  | .spurious i => s.workers i = .blocked

instance (s : RecvThreads n) (e : RecvEvent n) : Decidable (s.Enabled e) := by
  cases e <;> simp only [Enabled] <;> infer_instance

def goTo (s : RecvThreads n) (i : Fin n) (pc : WorkerPc) : RecvThreads n :=
  { s with workers := Function.update s.workers i pc }

/-- The next operation of worker `i` in `ThreadFunc`. -/
def threadFunc (s : RecvThreads n) (i : Fin n) : RecvThreads n :=
  match s.workers i with
  | .lock => { s with pThreadMutex := some i }.goTo i .testSize
  | .testSize => s.goTo i (if s.queue.recvMsgList.length = 0 then .condWait else .front)
  | .condWait => { s with pThreadMutex := none }.goTo i .blocked
  | .blocked => s
  | .woken => { s with pThreadMutex := some i }.goTo i .testSize
  | .front =>
    match s.queue.recvMsgList with
    | [] => s
    | b :: _ => s.goTo i (.popFront b)
  | .popFront b => { s with queue := s.queue.popFront }.goTo i (.unlock b)
  | .unlock b => { s with pThreadMutex := none }.goTo i (.handle b)
  | .handle _ => s.goTo i .lock

def next (s : RecvThreads n) : RecvEvent n → RecvThreads n
  | .lock => { s with recvMsgListMutex := true, producer := .locked }
  | .pushBack b => { s with queue := s.queue.pushBack b, producer := .pushed }
  | .unlock => { s with recvMsgListMutex := false, producer := .unlocked }
  | .signal woken =>
    { s with
      producer := .outside
      workers := fun i => if i ∈ woken then .woken else s.workers i }
  | .worker i => s.threadFunc i
  | .spurious i => s.goTo i .woken

/-- No message has been received, and the worker threads are about to lock `m_pThreadMutex`. -/
def Start (s : RecvThreads n) : Prop :=
  s.queue.recvMsgList = [] ∧ s.recvMsgListMutex = false ∧ s.pThreadMutex = none ∧
    s.producer = .outside ∧ ∀ i, s.workers i = .lock

def boot (n : ℕ) : RecvThreads n :=
  ⟨⟨[], 0, .empty fun _ _ => 0⟩, false, none, .outside, fun _ => .lock⟩

theorem start_boot : (boot n).Start := ⟨rfl, rfl, rfl, rfl, fun _ => rfl⟩

end RecvThreads

def recvThreads (n : ℕ) : System (RecvThreads n) (RecvEvent n) :=
  .ofNext RecvThreads.Start RecvThreads.Enabled fun s e => some (s.next e)

/-- A played list of events is a run, here with only the steps that meet `allow`; `f` is what is
read off its last state. -/
theorem RecvThreads.run_of_play {α : Type*} {n : ℕ}
    (allow : RecvThreads n → RecvEvent n → Prop) [∀ s e, Decidable (allow s e)]
    (es : List (RecvEvent n)) (f : RecvThreads n → α) (v : α)
    (h : (System.play (fun s e => allow s e ∧ s.Enabled e) (fun s e => some (s.next e)) es
      (boot n)).map f = some v) :
    ∃ s, ((recvThreads n).restrict allow).Run es s ∧ f s = v := by
  obtain ⟨s, hs, hv⟩ := Option.map_eq_some_iff.mp h
  refine ⟨s, ?_, hv⟩
  rw [recvThreads, System.restrict_ofNext]
  exact System.run_of_play start_boot hs

theorem Server.recvQueue_push (s : Server) (b : BufId) :
    (s.pushRecvMsgToRecvListAndCond b).recvQueue = s.recvQueue.pushBack b := rfl

theorem Server.recvQueue_take (s : Server) (h : s.recvQueue.recvMsgList ≠ []) :
    s.takeRecvMsg.recvQueue = s.recvQueue.popFront := by
  unfold takeRecvMsg
  split
  · exact absurd ‹_› h
  · simp [RecvQueue.popFront, *]

end XiaoHGServer
