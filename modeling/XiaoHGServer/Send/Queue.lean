import XiaoHGServer.Pool.Uses
import XiaoHGServer.Send.Moves

/-!
# What a step does to the send list

A worker that pushes a reply and the sender change the list, its size and the
semaphore; the write handler raises the semaphore alone. All other steps leave
the list as it is, and no step changes a message header after it was written.
-/

namespace XiaoHGServer

/-- The steps outside `PushSendMsgToSendListAndSem`, `SendMsgThread` and the write handler. -/
def Event.quiet : Event → Bool
  | .push _ _ | .semWait | .semIntr | .sizeTest | .iterate _ | .write _ _ => false
  | _ => true

namespace Server

variable {s t u : Server} {c d : ConnId} {now : ℤ} {e : Event}

/-- No step writes to a send buffer, except that a handler composes its reply in a new one. -/
theorem step_sendMem (h : s.next e = some t) :
    t.sendQueue.mem.next = s.sendQueue.mem.next ∧
        t.sendQueue.mem.buffer = s.sendQueue.mem.buffer ∨
      ∃ i now w, e = .handle i now ∧ s.workers[i]? = some w ∧
        Composed s.sendQueue.mem t.sendQueue.mem (s.recvHeader w.pJobBuf) := by
  cases e with
  | accept env =>
    rcases accept_cases h with ⟨b, calls, rfl, -⟩ | ⟨fd, b, -, rfl⟩ <;> exact Or.inl ⟨rfl, rfl⟩
  | read c env =>
    obtain rfl := Option.some.inj h
    obtain ⟨q, r, f, hform⟩ := onlyRecv_readBase s c env.recv env.currTime
    refine Or.inl ⟨?_, ?_⟩ <;>
    · rw [read_eq]
      split <;> simp [closeConnectionToRecy_eq, hform]
  | outError c => obtain rfl := Option.some.inj h; exact Or.inl ⟨rfl, rfl⟩
  | write c env =>
    rcases write_cases h with ⟨n, -, -, -, rfl⟩ | ⟨-, rfl⟩ | ⟨n, -, -, -, rfl⟩ | ⟨-, rfl⟩
    · exact Or.inl ⟨rfl, rfl⟩
    · exact Or.inl ⟨rfl, rfl⟩
    · refine Or.inl ⟨?_, ?_⟩ <;> simp
    · exact Or.inl ⟨rfl, rfl⟩
  | take =>
    obtain rfl := Option.some.inj h
    unfold takeRecvMsg
    split <;> exact Or.inl ⟨rfl, rfl⟩
  | handle i now =>
    obtain rfl | ⟨w, u, r, hw, ⟨m, m', x, rfl, -, hr⟩, rfl⟩ := workerHandle_cases h
    · exact Or.inl ⟨rfl, rfl⟩
    · rcases hr with ⟨-, rfl⟩ | ⟨-, hm⟩
      · exact Or.inl ⟨rfl, rfl⟩
      · exact Or.inr ⟨i, now, w, rfl, hw, hm⟩
  | push i now =>
    obtain ⟨rfl, -⟩ | ⟨b, u, -, hu, rfl⟩ := workerPush_cases h
    · exact Or.inl ⟨rfl, rfl⟩
    · obtain ⟨size, discard, mem, n, rfl, hnext, hbuf, -⟩ := push_cases hu
      exact Or.inl ⟨hnext, hbuf⟩
  | release i =>
    obtain rfl := Option.some.inj h
    unfold workerRelease
    split <;> exact Or.inl ⟨rfl, rfl⟩
  | semWait => cases h; exact Or.inl ⟨rfl, rfl⟩
  | semIntr => cases h; exact Or.inl ⟨rfl, rfl⟩
  | sizeTest => cases h; exact Or.inl ⟨rfl, rfl⟩
  | iterate env =>
    obtain rfl | ⟨pos, -, h⟩ := iterate_pass h
    · exact Or.inl ⟨rfl, rfl⟩
    · rcases iterate_cases h with ⟨-, rfl⟩ | ⟨b, -, ⟨-, rfl⟩ | ⟨-, -, rfl⟩ | ⟨-, -, hstart⟩⟩
      · exact Or.inl ⟨rfl, rfl⟩
      · refine Or.inl ⟨?_, ?_⟩ <;> simp [freeSendMsg, eraseSendMsg]
      · exact Or.inl ⟨rfl, rfl⟩
      · rcases startSend_cases hstart with ⟨-, rfl⟩ | ⟨n, -, -, -, rfl⟩ | ⟨-, rfl⟩
        · refine Or.inl ⟨?_, ?_⟩ <;> simp [takeSendMsg, eraseSendMsg]
        · exact Or.inl ⟨rfl, rfl⟩
        · exact Or.inl ⟨rfl, rfl⟩
  | close c now =>
    obtain rfl := Option.some.inj h
    rw [closeConnectionToRecy_eq]
    exact Or.inl ⟨rfl, rfl⟩
  | recycle now =>
    obtain ⟨c, -, rfl⟩ := lblRRTD_eq_some h
    refine Or.inl ⟨?_, ?_⟩ <;> simp [recycled]
  | clear =>
    obtain ⟨c, -, rfl⟩ := lblRRTD2_eq_some h
    refine Or.inl ⟨?_, ?_⟩ <;> simp [recycled]
  | monitor now =>
    obtain ⟨hd, q, -, -, ⟨-, rfl⟩ | ⟨-, rfl⟩⟩ := monitor_cases h
    · refine Or.inl ⟨?_, ?_⟩ <;> simp [closeConnectionToRecy_eq]
    · exact Or.inl ⟨rfl, rfl⟩

/-- List, size, semaphore and sender are the same, and so are the headers of all messages. -/
structure SameList (s t : Server) : Prop where
  sender : t.sender = s.sender
  list : t.sendQueue.sendMsgList = s.sendQueue.sendMsgList
  size : t.sendQueue.sendMsgListSize = s.sendQueue.sendMsgListSize
  sem : t.sendQueue.sendMsgPushEventSem = s.sendQueue.sendMsgPushEventSem
  next : s.sendQueue.mem.next ≤ t.sendQueue.mem.next
  header : ∀ b < s.sendQueue.mem.next, t.sendHeader b = s.sendHeader b

theorem SameList.of_eq (hq : t.sendQueue = s.sendQueue) (hs : t.sender = s.sender) :
    SameList s t where
  sender := hs
  list := by rw [hq]
  size := by rw [hq]
  sem := by rw [hq]
  next := by rw [hq]
  header b _ := by rw [sendHeader, hq]; rfl

theorem sameList_read {ret : RecvRet} {currTime : ℕ} :
    SameList s (s.epollEventReadRequestHandler c ret now currTime) := by
  obtain ⟨q, r, f, hform⟩ := onlyRecv_readBase s c ret currTime
  rw [read_eq]
  split
  · refine .of_eq ?_ ?_ <;>
    · rw [closeConnectionToRecy_eq, hform]
      rfl
  · refine .of_eq ?_ ?_ <;>
    · rw [hform]
      rfl

theorem sameList_recycled {n : ℤ} : SameList s (s.recycled c n) where
  sender := rfl
  list := rfl
  size := rfl
  sem := rfl
  next := by simp [recycled]
  header b _ := by simp [recycled, sendHeader]

theorem sameList_step (hq : e.quiet = true) (h : s.next e = some t) : SameList s t := by
  cases e with
  | accept env =>
    rcases accept_cases h with ⟨b, calls, rfl, -⟩ | ⟨fd, b, -, rfl⟩ <;> exact .of_eq rfl rfl
  | read c env =>
    obtain rfl := Option.some.inj h
    exact sameList_read
  | outError c =>
    obtain rfl := Option.some.inj h
    exact .of_eq rfl rfl
  | take =>
    obtain rfl := Option.some.inj h
    unfold takeRecvMsg
    split <;> exact .of_eq rfl rfl
  | handle i now =>
    obtain rfl | ⟨w, u, r, -, ⟨m, m', x, rfl, -, hr⟩, rfl⟩ := workerHandle_cases h
    · exact .of_eq rfl rfl
    · rcases hr with ⟨-, rfl⟩ | ⟨-, hm⟩
      · exact .of_eq rfl rfl
      · refine ⟨rfl, rfl, rfl, rfl, hm.next ▸ Nat.le_succ _, fun b hb => ?_⟩
        have : m'.buffer b = s.sendQueue.mem.buffer b := hm.buffer b (Nat.ne_of_lt hb)
        simp only [sendHeader, setStage, this]
  | release i =>
    obtain rfl := Option.some.inj h
    unfold workerRelease
    split <;> exact .of_eq rfl rfl
  | close c now =>
    obtain rfl := Option.some.inj h
    rw [closeConnectionToRecy_eq]
    exact .of_eq rfl rfl
  | recycle now =>
    obtain ⟨c, -, rfl⟩ := lblRRTD_eq_some h
    exact sameList_recycled
  | clear =>
    obtain ⟨c, -, rfl⟩ := lblRRTD2_eq_some h
    exact sameList_recycled
  | monitor now =>
    obtain ⟨hd, q, -, -, ⟨-, rfl⟩ | ⟨-, rfl⟩⟩ := monitor_cases h
    · refine .of_eq ?_ ?_ <;> simp [closeConnectionToRecy_eq]
    · exact .of_eq rfl rfl
  | _ => cases hq

/-- The size counts the list as far as a `uint32_t` can, and the list holds allocated buffers. -/
structure SendListInv (s : Server) : Prop where
  size : s.sendQueue.sendMsgListSize = u32 s.sendQueue.sendMsgList.length
  allocated : ∀ b ∈ s.sendQueue.sendMsgList, b < s.sendQueue.mem.next

theorem SendListInv.same (hs : s.SendListInv) (h : SameList s t) : t.SendListInv where
  size := by rw [h.size, h.list, hs.size]
  allocated b hb := (hs.allocated b (h.list ▸ hb)).trans_le h.next

theorem u32_succ (n : ℕ) : u32 (u32 n + 1) = u32 (n + 1) := by
  unfold u32
  omega

theorem sub32_u32 {n : ℕ} (hn : 0 < n) : sub32 (u32 n) 1 = u32 (n - 1) := by
  unfold sub32 u32
  omega

/-- The sender has taken the message at its iterator out of the list. -/
structure Erased (s : Server) (pos : ℕ) (t : Server) : Prop where
  sender : t.sender = s.sender
  list : t.sendQueue.sendMsgList = s.sendQueue.sendMsgList.eraseIdx pos
  size : t.sendQueue.sendMsgListSize = sub32 s.sendQueue.sendMsgListSize 1
  sem : t.sendQueue.sendMsgPushEventSem = s.sendQueue.sendMsgPushEventSem
  next : t.sendQueue.mem.next = s.sendQueue.mem.next
  header : ∀ b, t.sendHeader b = s.sendHeader b

theorem iterate_list {pos : ℕ} {env : SendEnv} (h : s.sendMsgThreadIter pos env = some t) :
    s.sendQueue.sendMsgList[pos]? = none ∧ t = { s with sender := .semWait } ∨
    ∃ b, s.sendQueue.sendMsgList[pos]? = some b ∧
      (0 < (s.conn (s.sendHeader b).pConn).send.throwSendMsgCount ∧
          t = { s with sender := .pass (pos + 1) } ∨
        Erased s pos t) := by
  rcases iterate_cases h with ⟨hb, rfl⟩ | ⟨b, hb, ⟨-, rfl⟩ | ⟨-, hflag, rfl⟩ | ⟨-, -, hstart⟩⟩
  · exact Or.inl ⟨hb, rfl⟩
  · refine Or.inr ⟨b, hb, Or.inr ⟨rfl, rfl, rfl, rfl, ?_, fun d => ?_⟩⟩ <;>
      simp [freeSendMsg, eraseSendMsg, sendHeader]
  · exact Or.inr ⟨b, hb, Or.inl ⟨hflag, rfl⟩⟩
  · refine Or.inr ⟨b, hb, Or.inr ?_⟩
    rcases startSend_cases hstart with ⟨-, rfl⟩ | ⟨n, -, -, -, rfl⟩ | ⟨-, rfl⟩
    · refine ⟨rfl, rfl, rfl, rfl, ?_, fun d => ?_⟩ <;>
        simp [takeSendMsg, eraseSendMsg, sendHeader]
    · exact ⟨rfl, rfl, rfl, rfl, rfl, fun _ => rfl⟩
    · exact ⟨rfl, rfl, rfl, rfl, rfl, fun _ => rfl⟩

theorem SendListInv.erased {pos : ℕ} {b : BufId} (hs : s.SendListInv)
    (hb : s.sendQueue.sendMsgList[pos]? = some b) (h : Erased s pos t) : t.SendListInv := by
  have hlt : pos < s.sendQueue.sendMsgList.length := (List.getElem?_eq_some_iff.mp hb).1
  refine ⟨?_, fun b' hb' => ?_⟩
  · rw [h.size, h.list, hs.size, List.length_eraseIdx_of_lt hlt,
      sub32_u32 (Nat.zero_lt_of_lt hlt)]
  · rw [h.next]
    exact hs.allocated b' (List.mem_of_mem_eraseIdx (h.list ▸ hb'))

theorem write_list {env : SendEnv} (h : s.epollEventWriteRequestHandler c env = some t) :
    t.sender = s.sender ∧ t.sendQueue.sendMsgList = s.sendQueue.sendMsgList ∧
      t.sendQueue.sendMsgListSize = s.sendQueue.sendMsgListSize ∧
      t.sendQueue.mem.next = s.sendQueue.mem.next ∧ ∀ b, t.sendHeader b = s.sendHeader b := by
  rcases write_cases h with ⟨n, -, -, -, rfl⟩ | ⟨-, rfl⟩ | ⟨n, -, -, -, rfl⟩ | ⟨-, rfl⟩
  · exact ⟨rfl, rfl, rfl, rfl, fun _ => rfl⟩
  · exact ⟨rfl, rfl, rfl, rfl, fun _ => rfl⟩
  · refine ⟨rfl, rfl, rfl, ?_, fun b => ?_⟩ <;> simp [sendHeader]
  · exact ⟨rfl, rfl, rfl, rfl, fun _ => rfl⟩

theorem push_list {b : BufId} (h : s.pushSendMsgToSendListAndSem b now = some t) :
    t.sendQueue.sendMsgList = s.sendQueue.sendMsgList ++ [b] ∧
      t.sendQueue.sendMsgListSize = u32 (s.sendQueue.sendMsgListSize + 1) ∧
      t.sendQueue.sendMsgPushEventSem = s.sendQueue.sendMsgPushEventSem + 1 ∧
      t.sendQueue.mem.next = s.sendQueue.mem.next ∧ ∀ b', t.sendHeader b' = s.sendHeader b' := by
  have hsize : t.sendQueue.sendMsgListSize = u32 (s.sendQueue.sendMsgListSize + 1) := by
    obtain ⟨q, hq, d, m, rfl, -, hbuf, -⟩ :=
      discardIf (s := s) (s.sendQueue.sendMsgListSize > maxSendQueueCount) b
    simp only [pushSendMsgToSendListAndSem, hq] at h
    obtain ⟨-, rfl⟩ := semPost_eq_some h
    split <;> simp [appendSendMsg, closeConnectionToRecy_eq, discardSendMsg]
  obtain ⟨size, discard, mem, k, rfl, hnext, hbuf, -⟩ := push_cases h
  exact ⟨rfl, hsize, rfl, hnext, fun b' => by simp only [sendHeader, hbuf]⟩

theorem step_sendListInv (hs : s.SendListInv) (hp : s.ClientPointers) (h : s.next e = some t) :
    t.SendListInv := by
  by_cases hq : e.quiet = true
  · exact hs.same (sameList_step hq h)
  cases e with
  | push i now =>
    obtain ⟨rfl, -⟩ | ⟨b, u, hstage, hu, rfl⟩ := workerPush_cases h
    · exact hs
    · obtain ⟨w, hw, hb⟩ := Option.map_eq_some_iff.mp hstage
      have hlt := hp.send.replies w (List.mem_of_getElem? hw) b hb
      obtain ⟨hlist, hsize, -, hnext, -⟩ := push_list hu
      refine ⟨?_, fun b' hb' => ?_⟩
      · simp only [setStage, hlist, hsize, hs.size, u32_succ, List.length_append,
          List.length_singleton]
      · simp only [setStage, hlist, hnext, List.mem_append, List.mem_singleton] at hb' ⊢
        rcases hb' with hb' | rfl
        · exact hs.allocated b' hb'
        · exact hlt
  | semWait => cases h; exact ⟨hs.size, hs.allocated⟩
  | semIntr => cases h; exact ⟨hs.size, hs.allocated⟩
  | sizeTest => cases h; exact ⟨hs.size, hs.allocated⟩
  | iterate env =>
    obtain rfl | ⟨pos, -, h⟩ := iterate_pass h
    · exact hs
    · rcases iterate_list h with ⟨-, rfl⟩ | ⟨b, hb, ⟨-, rfl⟩ | herased⟩
      · exact ⟨hs.size, hs.allocated⟩
      · exact ⟨hs.size, hs.allocated⟩
      · exact hs.erased hb herased
  | write c env =>
    obtain ⟨-, hlist, hsize, hnext, -⟩ := write_list h
    exact ⟨by rw [hsize, hlist, hs.size], fun b hb => by
      rw [hnext]
      exact hs.allocated b (hlist ▸ hb)⟩
  | _ => exact absurd rfl hq

/-- In every run the size is that of the list, and its messages are allocated. -/
theorem run_sendListInv {es : List Event} (h : process.Run es s) : s.SendListInv := by
  refine h.trace_invariant (I := fun _ s => s.SendListInv) (fun s hb => ?_) ?_
  · have hs := noBuffers_boot hb
    refine ⟨?_, by simp [hs.sendList]⟩
    rw [hs.sendList]
    exact hb.induction (P := fun s => s.sendQueue.sendMsgListSize = 0) (fun _ _ _ _ _ => rfl)
      fun _ _ _ h => h
  · intro _ s e t hrun hs hstep
    exact step_sendListInv hs (run_clientPointers hrun) hstep.2

end Server
end XiaoHGServer
