import XiaoHGServer.Receive.Framing
import XiaoHGServer.Send.Ownership
import XiaoHGServer.Send.Queue
import XiaoHGServer.Worker.Reply

/-!
# The limits of the send list

A push is meant to reject a message when the send list or the share of its
connection is too long, and to append it otherwise. As long as both limits are
kept it does the latter, and the list then stays short and holds no released
buffer.
-/

namespace XiaoHGServer

inductive QueuePlace
  | fresh
  | reply
  | list
  | gone
  deriving DecidableEq

namespace Server

variable {s t u : Server} {c : ConnId} {b : BufId} {now : ℤ} {e : Event}

/-- The push has rejected the message: its buffer is freed, once, and nothing is queued. -/
structure Refuses (s : Server) (b : BufId) (now : ℤ) (t : Server) : Prop where
  released : t.sendQueue.mem.released = b :: s.sendQueue.mem.released
  discarded : t.sendQueue.discardSendPkgCount = u32 (s.sendQueue.discardSendPkgCount + 1)
  list : t.sendQueue.sendMsgList = s.sendQueue.sendMsgList
  size : t.sendQueue.sendMsgListSize = s.sendQueue.sendMsgListSize
  count : ∀ d, (t.conn d).sendMsgListCount = (s.conn d).sendMsgListCount
  sem : t.sendQueue.sendMsgPushEventSem = s.sendQueue.sendMsgPushEventSem
  closed : ∃ q, t = { s.pushBase b now with sendQueue := q }

/-- The push has appended the message, and has yet to post the semaphore. -/
structure Appends (s : Server) (b : BufId) (t : Server) : Prop where
  list : t.sendQueue.sendMsgList = s.sendQueue.sendMsgList ++ [b]
  size : t.sendQueue.sendMsgListSize = s.sendQueue.sendMsgListSize + 1
  count : t.conn = Function.update s.conn (s.sendHeader b).pConn
    { s.conn (s.sendHeader b).pConn with
      sendMsgListCount := (s.conn (s.sendHeader b).pConn).sendMsgListCount + 1 }
  sem : t.sendQueue.sendMsgPushEventSem = s.sendQueue.sendMsgPushEventSem
  mem : t.sendQueue.mem = s.sendQueue.mem
  discarded : t.sendQueue.discardSendPkgCount = s.sendQueue.discardSendPkgCount
  rest : ∃ q f, t = { s with sendQueue := q, conn := f }

/-- What a push is meant to do: reject what exceeds a limit, or append it and post the semaphore
once. -/
structure PushSpec (s : Server) (b : BufId) (now : ℤ) : Prop where
  reject : ¬ s.WithinLimits b → ∃ t, s.pushSendMsgToSendListAndSem b now = some t ∧
    s.Refuses b now t
  accept : s.WithinLimits b → ∃ t, s.Appends b t ∧
    s.pushSendMsgToSendListAndSem b now = t.semPost

theorem push_accept (now : ℤ) (h : s.WithinLimits b) :
    ∃ t, s.Appends b t ∧ s.pushSendMsgToSendListAndSem b now = t.semPost := by
  obtain ⟨hsize, hcount⟩ := h
  refine ⟨s.appendSendMsg b (s.sendHeader b).pConn, ?_, ?_⟩
  · have hlt : s.sendQueue.sendMsgListSize + 1 < 2 ^ 32 := by
      have : maxSendQueueCount = 50000 := rfl
      omega
    refine ⟨rfl, Nat.mod_eq_of_lt hlt, rfl, rfl, rfl, rfl, ⟨_, _, rfl⟩⟩
  · unfold pushSendMsgToSendListAndSem
    dsimp only
    rw [if_neg (not_lt.mpr hsize), if_neg (not_lt.mpr hcount)]

theorem not_refuses (h : s.pushSendMsgToSendListAndSem b now = some t) : ¬ s.Refuses b now t := by
  intro hr
  have hlist := (push_list h).1
  rw [hr.list] at hlist
  simp at hlist

theorem pushSpec_iff : s.PushSpec b now ↔ s.WithinLimits b := by
  constructor
  · intro h
    by_contra hlimit
    obtain ⟨t, ht, hr⟩ := h.reject hlimit
    exact not_refuses ht hr
  · intro h
    exact ⟨fun hn => absurd h hn, fun _ => push_accept now h⟩

/-! ### What waits to be sent -/

/-- Replies and queued messages are in their places, and no pointer shows them. -/
structure Queued (s : Server) (place : BufId → QueuePlace) : Prop where
  fresh : Unborn place .fresh s.sendQueue.mem.next
  reply : Holds place .reply s.replies
  list : Holds place .list s.sendQueue.sendMsgList
  pointer : ∀ c b, (s.conn c).send.pSendMsgMemPointer = some b → place b = .gone
  released : ∀ b ∈ s.sendQueue.mem.released, place b = .gone

namespace Queued

variable {place : BufId → QueuePlace}

theorem same (h : s.Queued place) (hnext : t.sendQueue.mem.next = s.sendQueue.mem.next)
    (hreply : t.replies = s.replies) (hlist : t.sendQueue.sendMsgList = s.sendQueue.sendMsgList)
    (hptr : ∀ c b, (t.conn c).send.pSendMsgMemPointer = some b →
      (s.conn c).send.pSendMsgMemPointer = some b)
    (hrel : ∀ b ∈ t.sendQueue.mem.released, place b = .gone) : t.Queued place where
  fresh := by rw [hnext]; exact h.fresh
  reply := by rw [hreply]; exact h.reply
  list := by rw [hlist]; exact h.list
  pointer c b hb := h.pointer c b (hptr c b hb)
  released := hrel

theorem frame (h : s.Queued place) (hq : t.sendQueue = s.sendQueue)
    (hreply : t.replies = s.replies)
    (hptr : ∀ c, (t.conn c).send.pSendMsgMemPointer = (s.conn c).send.pSendMsgMemPointer) :
    t.Queued place :=
  h.same (by rw [hq]) hreply (by rw [hq]) (fun c b hb => by rwa [hptr] at hb)
    (by rw [hq]; exact h.released)

theorem free (h : s.Queued place) {p : Option BufId}
    (hp : ∀ b, p = some b → place b = .gone) :
    ∀ b ∈ (s.sendQueue.mem.freeMemory p).released, place b = .gone := by
  intro b hb
  cases p with
  | none => exact h.released b hb
  | some x =>
    rw [Heap.freeMemory_some_released, List.mem_cons] at hb
    rcases hb with rfl | hb
    · exact hp b rfl
    · exact h.released b hb

theorem compose {i : ℕ} {w : Worker} (h : s.Queued place) (hw : s.workers[i]? = some w)
    (hstage : w.stage = .taken) (hnext : t.sendQueue.mem.next = s.sendQueue.mem.next + 1)
    (hworkers : t.workers = s.workers.modify i fun w =>
      { w with stage := .reply s.sendQueue.mem.next })
    (hlist : t.sendQueue.sendMsgList = s.sendQueue.sendMsgList)
    (hptr : ∀ c, (t.conn c).send.pSendMsgMemPointer = (s.conn c).send.pSendMsgMemPointer)
    (hrel : t.sendQueue.mem.released = s.sendQueue.mem.released) :
    t.Queued (Function.update place s.sendQueue.mem.next .reply) := by
  have hnew : place s.sendQueue.mem.next = .fresh := h.fresh.next
  have hgone {b : BufId} (hb : place b = .gone) :
      Function.update place s.sendQueue.mem.next .reply b = .gone :=
    (update_place_iff (by simp [hnew]) (by simp)).mpr hb
  refine ⟨?_, ?_, ?_, fun c b hb => hgone (h.pointer c b (hptr c ▸ hb)),
    fun b hb => hgone (h.released b (hrel ▸ hb))⟩
  · rw [hnext]
    exact h.fresh.create (by simp)
  · refine (h.reply.cons (t := s.sendQueue.mem.next) (by simp [hnew])).perm ?_
    rw [replies, hworkers]
    exact filterMap_modify_new hw (by simp [replyOf, hstage]) (by simp [replyOf])
  · rw [hlist]
    exact h.list.other (by simp [hnew]) (by simp)

theorem push {i : ℕ} {w : Worker} (h : s.Queued place) (hw : s.workers[i]? = some w)
    (hstage : w.stage = .reply b) (hnext : t.sendQueue.mem.next = s.sendQueue.mem.next)
    (hworkers : t.workers = s.workers.modify i fun w => { w with stage := .handled })
    (hlist : t.sendQueue.sendMsgList = s.sendQueue.sendMsgList ++ [b])
    (hptr : ∀ c, (t.conn c).send.pSendMsgMemPointer = (s.conn c).send.pSendMsgMemPointer)
    (hrel : t.sendQueue.mem.released = s.sendQueue.mem.released) :
    t.Queued (Function.update place b .list) := by
  have hp : place b = .reply := by
    refine h.reply.place_eq (List.mem_filterMap.mpr ⟨w, List.mem_of_getElem? hw, ?_⟩)
    simp [replyOf, hstage]
  have hsent : s.replies.Perm (b :: t.replies) := by
    rw [replies, replies, hworkers]
    exact filterMap_modify_gone hw (by simp [replyOf, hstage]) (by simp [replyOf])
  have hgone {x : BufId} (hx : place x = .gone) : Function.update place b .list x = .gone :=
    (update_place_iff (by simp [hp]) (by simp)).mpr hx
  refine ⟨?_, ?_, ?_, fun c x hx => hgone (h.pointer c x (hptr c ▸ hx)),
    fun x hx => hgone (h.released x (hrel ▸ hx))⟩
  · rw [hnext]
    exact h.fresh.move (by simp [hp]) (by simp)
  · exact (h.reply.perm hsent.symm).tail (by simp)
  · rw [hlist]
    exact h.list.append (by simp [hp])

theorem leave {pos : ℕ} (h : s.Queued place) (hb : s.sendQueue.sendMsgList[pos]? = some b)
    (hnext : t.sendQueue.mem.next = s.sendQueue.mem.next) (hreply : t.replies = s.replies)
    (hlist : t.sendQueue.sendMsgList = s.sendQueue.sendMsgList.eraseIdx pos)
    (hptr : ∀ c x, (t.conn c).send.pSendMsgMemPointer = some x →
      x = b ∨ (s.conn c).send.pSendMsgMemPointer = some x)
    (hrel : ∀ x ∈ t.sendQueue.mem.released, x = b ∨ x ∈ s.sendQueue.mem.released) :
    t.Queued (Function.update place b .gone) := by
  have hp : place b = .list := h.list.place_eq (List.mem_of_getElem? hb)
  have hgone {x : BufId} (hx : x = b ∨ place x = .gone) :
      Function.update place b .gone x = .gone := by
    by_cases hxb : x = b
    · rw [hxb, Function.update_self]
    · rw [Function.update_of_ne hxb]
      exact hx.resolve_left hxb
  refine ⟨?_, ?_, ?_, fun c x hx => hgone ((hptr c x hx).imp_right (h.pointer c x)),
    fun x hx => hgone ((hrel x hx).imp_right (h.released x))⟩
  · rw [hnext]
    exact h.fresh.move (by simp [hp]) (by simp)
  · rw [hreply]
    exact h.reply.other (by simp [hp]) (by simp)
  · rw [hlist]
    exact h.list.eraseIdx hb (by simp)

theorem iterate {pos : ℕ} {env : SendEnv} (h : s.Queued place)
    (ht : s.sendMsgThreadIter pos env = some t) : ∃ place', t.Queued place' := by
  rcases iterate_cases ht with ⟨-, rfl⟩ | ⟨b, hb, ⟨-, rfl⟩ | ⟨-, -, rfl⟩ | ⟨-, -, hstart⟩⟩
  · exact ⟨place, h.frame rfl rfl fun _ => rfl⟩
  · refine ⟨_, h.leave hb ?_ rfl rfl (fun _ _ hx => Or.inr hx) fun x hx => ?_⟩
    · simp [freeSendMsg, eraseSendMsg]
    · simpa [freeSendMsg, eraseSendMsg] using hx
  · exact ⟨place, h.frame rfl rfl fun _ => rfl⟩
  · set d := (s.sendHeader b).pConn
    have htake (c : ConnId) (x : BufId)
        (hx : ((s.takeSendMsg pos b d).conn c).send.pSendMsgMemPointer = some x) :
        x = b ∨ (s.conn c).send.pSendMsgMemPointer = some x := by
      by_cases hc : c = d
      · rw [hc, takeSendMsg_send] at hx
        exact Or.inl (Option.some.inj hx).symm
      · rw [takeSendMsg_conn_ne hc] at hx
        exact Or.inr hx
    have hself : ((s.takeSendMsg pos b d).conn d).send.pSendMsgMemPointer = some b := by
      rw [takeSendMsg_send]
    have hkeep {k : Connection} (hk : k.send.pSendMsgMemPointer =
        ((s.takeSendMsg pos b d).conn d).send.pSendMsgMemPointer) (c : ConnId) :
        (Function.update (s.takeSendMsg pos b d).conn d k c).send.pSendMsgMemPointer =
          ((s.takeSendMsg pos b d).conn c).send.pSendMsgMemPointer :=
      update_field (fun k => k.send.pSendMsgMemPointer) hk c
    rcases startSend_cases hstart with ⟨-, rfl⟩ | ⟨n, -, -, -, rfl⟩ | ⟨-, rfl⟩
    · refine ⟨_, h.leave hb ?_ rfl rfl htake fun x hx => ?_⟩
      · simp [takeSendMsg, eraseSendMsg]
      · simpa [hself, takeSendMsg, eraseSendMsg] using hx
    · exact ⟨_, h.leave hb rfl rfl rfl (fun c x hx => htake c x ((hkeep (by rfl) c).symm.trans hx))
        fun x hx => Or.inr hx⟩
    · exact ⟨_, h.leave hb rfl rfl rfl (fun c x hx => htake c x ((hkeep (by rfl) c).symm.trans hx))
        fun x hx => Or.inr hx⟩

end Queued

/-- No message is pushed over a limit. -/
def PushesWithin (s : Server) : Event → Prop
  | .push i _ => ∀ b, s.stage i = some (.reply b) → s.WithinLimits b
  | _ => True

instance (s : Server) : (e : Event) → Decidable (s.PushesWithin e)
  | .push i _ =>
    match h : s.stage i with
    | some (.reply b) => decidable_of_iff (s.WithinLimits b) (by simp [PushesWithin, h])
    | some .taken => .isTrue (by simp [PushesWithin, h])
    | some .handled => .isTrue (by simp [PushesWithin, h])
    | none => .isTrue (by simp [PushesWithin, h])
  | .accept _ | .read _ _ | .outError _ | .write _ _ | .take | .handle _ _ | .release _ | .semWait
  | .semIntr | .sizeTest | .iterate _ | .close _ _ | .recycle _ | .clear | .monitor _ =>
    .isTrue trivial

theorem closeConnectionToRecy_sendPtr (c : ConnId) (now : ℤ) (d : ConnId) :
    ((s.closeConnectionToRecy c now).conn d).send.pSendMsgMemPointer =
      (s.conn d).send.pSendMsgMemPointer :=
  congrArg Prod.fst (closeConnectionToRecy_sendView d)

theorem Queued.close {place : BufId → QueuePlace} (h : s.Queued place) (c : ConnId) (now : ℤ) :
    (s.closeConnectionToRecy c now).Queued place := by
  refine h.frame ?_ ?_ (closeConnectionToRecy_sendPtr c now)
  · rw [closeConnectionToRecy_eq]
  · rw [closeConnectionToRecy_eq]
    rfl

theorem Queued.recycle {place : BufId → QueuePlace} (h : s.Queued place) (c : ConnId) (n : ℤ) :
    (s.recycled c n).Queued place := by
  refine h.same (by simp [recycled]) rfl rfl (fun d b hb => ?_) (h.free (h.pointer c))
  exact (update_field (fun k => k.send.pSendMsgMemPointer) (by rfl) d).symm.trans hb

theorem step_queued {place : BufId → QueuePlace} (h : s.Queued place) (he : s.Enabled e)
    (hw : s.PushesWithin e) (ht : s.next e = some t) : ∃ place', t.Queued place' := by
  have ptr {f : ConnId → Connection} {d : ConnId} {k : Connection}
      (hk : k.send.pSendMsgMemPointer = (f d).send.pSendMsgMemPointer) (c : ConnId) :
      (Function.update f d k c).send.pSendMsgMemPointer = (f c).send.pSendMsgMemPointer :=
    update_field (fun k => k.send.pSendMsgMemPointer) hk c
  cases e with
  | accept env =>
    refine ⟨place, ?_⟩
    rcases accept_cases ht with ⟨b, calls, rfl, -⟩ | ⟨fd, b, -, rfl⟩
    · exact h.frame rfl rfl fun _ => rfl
    · refine h.same rfl rfl rfl (fun d x hx => ?_) h.released
      by_cases hd : d = s.pool.front
      · simp [admitted, hd, Connection.installed, Connection.getOneToUse] at hx
      · simpa [admitted, hd] using hx
  | read c env =>
    obtain rfl := Option.some.inj ht
    obtain ⟨q, r, f, hform⟩ := onlyRecv_readBase s c env.recv env.currTime
    have hbase : (s.readBase c env.recv env.currTime).1.Queued place := by
      rw [hform]
      exact h.frame rfl rfl (ptr (by rfl))
    refine ⟨place, ?_⟩
    simp only [read_eq]
    split
    · exact hbase.close _ _
    · exact hbase
  | outError c =>
    obtain rfl := Option.some.inj ht
    exact ⟨place, h.frame rfl rfl (ptr (by rfl))⟩
  | write c env =>
    refine ⟨place, ?_⟩
    have hptr := write_sendPtr ht
    rcases write_cases ht with ⟨n, -, -, -, rfl⟩ | ⟨-, rfl⟩ | ⟨n, -, -, -, rfl⟩ | ⟨-, rfl⟩
    · exact h.frame rfl rfl hptr
    · exact h.frame rfl rfl hptr
    · exact h.same (by simp) rfl rfl (fun d x hx => (hptr d).symm.trans hx) (h.free (h.pointer c))
    · exact h.same rfl rfl rfl (fun _ _ hx => hx) h.released
  | take =>
    obtain rfl := Option.some.inj ht
    refine ⟨place, ?_⟩
    unfold takeRecvMsg
    split
    · exact h
    · exact h.frame rfl (by simp [replies, replyOf]) fun _ => rfl
  | handle i now =>
    obtain rfl | ⟨w, u, r, hwi, ⟨m, m', x, rfl, -, hr⟩, rfl⟩ := workerHandle_cases ht
    · exact ⟨place, h⟩
    · have hstage : w.stage = .taken := by simpa [Enabled, stage, hwi] using he
      rcases hr with ⟨rfl, rfl⟩ | ⟨rfl, hm⟩
      · refine ⟨place, h.frame rfl ?_ (ptr (by rfl))⟩
        exact filterMap_modify_none hwi (by simp [replyOf, hstage]) (by simp [replyOf])
      · exact ⟨_, h.compose hwi hstage hm.next rfl rfl (ptr (by rfl)) hm.released⟩
  | push i now =>
    obtain ⟨rfl, -⟩ | ⟨b, u, hstage, hu, rfl⟩ := workerPush_cases ht
    · exact ⟨place, h⟩
    · obtain ⟨w, hwi, hwb⟩ := Option.map_eq_some_iff.mp hstage
      obtain ⟨v, hv, hpush⟩ := push_accept now (hw b hstage)
      obtain ⟨-, rfl⟩ := semPost_eq_some (hpush.symm.trans hu)
      obtain ⟨q, f, rfl⟩ := hv.rest
      refine ⟨_, h.push hwi hwb ?_ rfl hv.list ?_ ?_⟩
      · exact congrArg Heap.next hv.mem
      · intro c
        have hf : f = _ := hv.count
        simp only [setStage, hf]
        exact ptr (by rfl) c
      · exact congrArg Heap.released hv.mem
  | release i =>
    obtain ⟨w, hwi, hstage⟩ := Option.map_eq_some_iff.mp he
    obtain rfl := Option.some.inj ht
    refine ⟨place, ?_⟩
    simp only [workerRelease, hwi]
    exact h.frame rfl (filterMap_eraseIdx_none hwi (by simp [replyOf, hstage])) fun _ => rfl
  | semWait => cases ht; exact ⟨place, h.same rfl rfl rfl (fun _ _ hx => hx) h.released⟩
  | semIntr => cases ht; exact ⟨place, h.frame rfl rfl fun _ => rfl⟩
  | sizeTest => cases ht; exact ⟨place, h.frame rfl rfl fun _ => rfl⟩
  | iterate env =>
    obtain rfl | ⟨pos, -, ht⟩ := iterate_pass ht
    · exact ⟨place, h⟩
    · exact h.iterate ht
  | close c now =>
    obtain rfl := Option.some.inj ht
    exact ⟨place, h.close c now⟩
  | recycle now =>
    obtain ⟨c, -, rfl⟩ := lblRRTD_eq_some ht
    exact ⟨place, h.recycle c _⟩
  | clear =>
    obtain ⟨c, -, rfl⟩ := lblRRTD2_eq_some ht
    exact ⟨place, h.recycle c _⟩
  | monitor now =>
    obtain ⟨hd, q, -, -, ⟨-, rfl⟩ | ⟨-, rfl⟩⟩ := monitor_cases ht
    · exact ⟨place, (h.close hd.pConn now).frame rfl rfl fun _ => rfl⟩
    · exact ⟨place, h.frame rfl rfl fun _ => rfl⟩

/-- Only a push makes the list longer. -/
theorem step_length (he : ∀ i now, e ≠ .push i now) (h : s.next e = some t) :
    t.sendQueue.sendMsgList.length ≤ s.sendQueue.sendMsgList.length := by
  by_cases hq : e.quiet = true
  · exact (congrArg List.length (sameList_step hq h).list).le
  cases e with
  | push i now => exact absurd rfl (he i now)
  | semWait => cases h; exact le_rfl
  | semIntr => cases h; exact le_rfl
  | sizeTest => cases h; exact le_rfl
  | iterate env =>
    obtain rfl | ⟨pos, -, h⟩ := iterate_pass h
    · exact le_rfl
    · rcases iterate_list h with ⟨-, rfl⟩ | ⟨b, -, ⟨-, rfl⟩ | herased⟩
      · exact le_rfl
      · exact le_rfl
      · rw [herased.list]
        exact List.length_eraseIdx_le _ _
  | write c env => exact (congrArg List.length (write_list h).2.1).le
  | _ => exact absurd rfl hq

/-- The list is short, and what it holds has not been released. -/
structure ListSound (s : Server) : Prop where
  length : s.sendQueue.sendMsgList.length ≤ maxSendQueueCount + 1
  unreleased : ∀ b ∈ s.sendQueue.sendMsgList, b ∉ s.sendQueue.mem.released

theorem step_length_le (hs : s.sendQueue.sendMsgList.length ≤ maxSendQueueCount + 1)
    (hi : s.SendListInv) (hw : s.PushesWithin e) (h : s.next e = some t) :
    t.sendQueue.sendMsgList.length ≤ maxSendQueueCount + 1 := by
  by_cases he : ∃ i now, e = .push i now
  · obtain ⟨i, now, rfl⟩ := he
    obtain ⟨rfl, -⟩ | ⟨b, u, hstage, hu, rfl⟩ := workerPush_cases h
    · exact hs
    · have hsize := (hw b hstage).1
      have hmax : maxSendQueueCount = 50000 := rfl
      rw [hi.size, u32, Nat.mod_eq_of_lt (by omega)] at hsize
      have hlist : (u.setStage i .handled).sendQueue.sendMsgList =
          s.sendQueue.sendMsgList ++ [b] := (push_list hu).1
      rw [hlist, List.length_append, List.length_singleton]
      omega
  · exact (step_length (fun i now heq => he ⟨i, now, heq⟩) h).trans hs

theorem run_queued {es : List Event} (h : (process.restrict PushesWithin).Run es s) :
    (∃ place, s.Queued place) ∧ s.sendQueue.sendMsgList.length ≤ maxSendQueueCount + 1 := by
  refine h.trace_invariant (I := fun _ s => (∃ place, s.Queued place) ∧
    s.sendQueue.sendMsgList.length ≤ maxSendQueueCount + 1) (fun s hb => ?_) ?_
  · have hs := noBuffers_boot hb
    refine ⟨⟨fun _ => .fresh, fun b => ?_, ?_, ?_, fun c b hr => ?_, fun b hr => ?_⟩, ?_⟩
    · simp [hs.sendNext]
    · rw [replies, hs.workers]
      exact .nil (by simp)
    · rw [hs.sendList]
      exact .nil (by simp)
    · simp [hs.sendPointer c] at hr
    · simp [hs.sendReleased] at hr
    · simp [hs.sendList]
  · rintro es s e t hrun ⟨⟨place, hq⟩, hlen⟩ ⟨hw, he, ht⟩
    exact ⟨step_queued hq he hw ht,
      step_length_le hlen (run_sendListInv hrun.of_restrict) hw ht⟩

theorem run_listSound {es : List Event} (h : (process.restrict PushesWithin).Run es s) :
    s.ListSound := by
  obtain ⟨⟨place, hq⟩, hlen⟩ := run_queued h
  refine ⟨hlen, fun b hb hrel => ?_⟩
  have hlist := hq.list.place_eq hb
  rw [hq.released b hrel] at hlist
  cases hlist

/-- A push does what it is meant to exactly within the limits; and as long as all pushes are, the
list stays short and holds no released buffer. -/
theorem push_discards_or_enqueues (s : Server) (b : BufId) (now : ℤ) :
    (s.PushSpec b now ↔ s.WithinLimits b) ∧
      ∀ es, (process.restrict PushesWithin).Run es s → s.ListSound :=
  ⟨pushSpec_iff, fun _ => run_listSound⟩

/-- A push that finds both limits kept, and the list after it. -/
theorem push_discards_or_enqueues_at : ∃ s : Server, s.PushSpec 0 0 ∧ s.ListSound ∧
    s.sendQueue.sendMsgList = [0] := by
  obtain ⟨s, hrun, hs⟩ := process_run_of_play PushesWithin smallConfig (suspendedReply.take 5)
    (fun s => (decide (s.WithinLimits 0), s.sendQueue.sendMsgList)) (true, [0]) (by decide +kernel)
  obtain ⟨hwithin, hlist⟩ := Prod.mk.inj hs
  exact ⟨s, (push_discards_or_enqueues s 0 0).1.mpr (of_decide_eq_true hwithin),
    (push_discards_or_enqueues s 0 0).2 _ hrun, hlist⟩

/-! ### A client that does not read its replies -/

def heartbeatPkg : List Byte := [0, 8, 0, 0, 0, 0, 0, 0]

/-- `n` replies are queued for client 1, and nobody sends them. -/
structure Unsent (s : Server) (n : ℕ) : Prop where
  config : s.config = smallConfig
  client : s.IsClient 1
  window : s.HeaderWindow 1 0
  sockFd : (s.conn 1).sockFd ∈ s.kernel.openFds
  recvList : s.recvQueue.recvMsgList = []
  sender : s.sender = .semWait
  sem : s.sendQueue.sendMsgPushEventSem = n
  size : s.sendQueue.sendMsgListSize = n
  count : (s.conn 1).sendMsgListCount = n

/-- The worker has taken the next request of client 1. -/
structure Asked (s : Server) (b : BufId) : Prop where
  workers : s.workers = [⟨b, .taken⟩]
  pkg : s.recvPkg b = heartbeatPkg
  header : s.recvHeader b = ⟨1, (s.conn 1).currSequence⟩

namespace Unsent

variable {n : ℕ} {es : List Event}

theorem requeue {m : ℕ} (h : s.Unsent n) (hcfg : t.config = s.config)
    (hepoll : (t.conn 1).epoll = (s.conn 1).epoll)
    (hrecv : (t.conn 1).recv = (s.conn 1).recv) (hfd : (t.conn 1).sockFd = (s.conn 1).sockFd)
    (hkernel : t.kernel = s.kernel) (hlist : t.recvQueue.recvMsgList = s.recvQueue.recvMsgList)
    (hsender : t.sender = s.sender) (hsem : t.sendQueue.sendMsgPushEventSem = m)
    (hsize : t.sendQueue.sendMsgListSize = m) (hcount : (t.conn 1).sendMsgListCount = m) :
    t.Unsent m where
  config := hcfg.trans h.config
  client := by
    rw [IsClient, hepoll]
    exact h.client
  window := ⟨by rw [hrecv]; exact h.window.status, by rw [hrecv]; exact h.window.ptr,
    by rw [hrecv]; exact h.window.len, h.window.off_lt, by rw [hrecv]; exact h.window.array⟩
  sockFd := by
    rw [hfd, hkernel]
    exact h.sockFd
  recvList := hlist.trans h.recvList
  sender := hsender.trans h.sender
  sem := hsem
  size := hsize
  count := hcount

theorem handed_read (h : s.Unsent n) :
    ∃ t, s.readBase 1 (.data heartbeatPkg) 0 = (t, false) ∧ t.HeaderWindow 1 0 ∧
      t.recvQueue.recvMsgList = [s.recvQueue.mem.next] ∧
      t.recvPkg s.recvQueue.mem.next = heartbeatPkg ∧
      t.recvHeader s.recvQueue.mem.next = ⟨1, (s.conn 1).currSequence⟩ := by
  have hpend : s.pending 1 = [] := by rw [h.window.pending_eq, List.take_zero]
  have hverdict : (s.floodVerdict 1 0).2 = false := by simp [floodVerdict, h.config, smallConfig]
  have hfull : 0 + heartbeatPkg.length = lenPkgHeader := rfl
  obtain ⟨t, ht, -, hw, -, hhand⟩ := h.window.emit 0 hfull (by rw [hpend]; decide)
  rw [hverdict] at ht hhand
  rw [hpend] at hhand
  have hmove := readBase_move s 1 (.data heartbeatPkg) 0
  have hstamp := stampsOnly_readBase s 1 (.data heartbeatPkg) 0
  rw [ht] at hmove hstamp
  have hidle : (s.conn 1).recv.receiving = none := by
    rcases h.window.status with ⟨hst, -⟩ | hst <;> simp [RecvState.receiving, hst]
  have hne : t.recvQueue.recvMsgList ≠ s.recvQueue.recvMsgList := by
    intro hnil
    simp [handed, hnil] at hhand
  have hlist : t.recvQueue.recvMsgList = [s.recvQueue.mem.next] ∧
      t.recvQueue.mem.next = s.recvQueue.mem.next + 1 := by
    rcases hmove with ⟨-, hl, -⟩ | ⟨-, hl, -⟩ | ⟨hn, hl, -⟩ | ⟨-, hl, -⟩ | ⟨b, -, -, -, hb, -⟩ |
      ⟨b, -, hl, -⟩
    · exact absurd hl hne
    · exact absurd hl hne
    · exact ⟨by rw [hl, h.recvList]; rfl, hn⟩
    · exact absurd hl hne
    · rw [hidle] at hb
      cases hb
    · exact absurd hl hne
  refine ⟨t, ht, hw, hlist.1, ?_, ?_⟩
  · simpa [handed, hlist.1, h.recvList] using hhand
  · rcases hstamp with ⟨-, hn, -⟩ | ⟨-, -, hnew, -⟩
    · exact absurd (hn.symm.trans hlist.2) (Nat.ne_of_lt (Nat.lt_succ_self _))
    · exact hnew

theorem ask (h : s.Unsent n) (hidle : s.workers = []) (hrun : process.Run es s) :
    ∃ es' t b, process.Run es' t ∧ t.Unsent n ∧ t.Asked b := by
  obtain ⟨t, ht, hw, hlist, hpkg, hhead⟩ := h.handed_read
  have hform := onlyRecv_readBase s 1 (.data heartbeatPkg) 0
  rw [ht] at hform
  obtain ⟨q, r, f, rfl⟩ := hform
  set t : Server := { s.logCall _ with recvQueue := q, conn := _ } with htdef
  have hread : process.step s (.read 1 { HandlerEnv.idle with recv := .data heartbeatPkg }) t := by
    refine ⟨⟨h.client, by simp [heartbeatPkg], ?_, h.sockFd⟩, ?_⟩
    · have hlen := h.window.len
      exact hlen.symm.le
    · simp only [next, read_eq, HandlerEnv.idle, ht]
      rfl
  have htake : process.step t .take t.takeRecvMsg := by
    refine ⟨⟨by rw [hlist]; simp, ?_⟩, rfl⟩
    have hworkers : t.workers = [] := hidle
    have hcfg : t.config = smallConfig := h.config
    rw [hworkers, hcfg]
    decide
  refine ⟨_, _, s.recvQueue.mem.next, (hrun.step hread).step htake, ?_, ?_⟩
  · simp only [takeRecvMsg, hlist]
    exact ⟨h.config, h.client, ⟨hw.status, hw.ptr, hw.len, hw.off_lt, hw.array⟩,
      by simpa [htdef, logCall] using h.sockFd, rfl, h.sender, h.sem, h.size,
      by simpa [htdef, logCall] using h.count⟩
  · simp only [takeRecvMsg, hlist]
    refine ⟨?_, hpkg, ?_⟩
    · simp [htdef, logCall, hidle]
    · exact hhead.trans (by simp [htdef, logCall])

theorem answer (h : s.Unsent n) (ha : s.Asked b) (hrun : process.Run es s) :
    ∃ es' t r, process.Run es' t ∧ t.Unsent n ∧ t.workers = [⟨b, .reply r⟩] ∧
      (t.sendHeader r).pConn = 1 := by
  have hw : s.workers[0]? = some ⟨b, .taken⟩ := by rw [ha.workers]; rfl
  have hok : ¬ s.Rejected b := by
    intro hrej
    rcases hrej with ⟨-, hcrc⟩ | ⟨hlen, -⟩ | hclosed | hcode | hno
    · exact hcrc (by rw [ha.pkg]; decide)
    · exact hlen (by rw [ha.pkg]; decide)
    · exact hclosed (by rw [ha.header])
    · rw [ha.pkg] at hcode
      exact absurd hcode (by decide)
    · rw [ha.pkg] at hno
      exact absurd hno (by decide)
  have hans := handle_answer (k := .handleHeartbeat) 0 hw hok (by rw [ha.pkg]; decide)
  rw [if_pos (by rw [ha.pkg]; decide)] at hans
  obtain ⟨t, ht, hstage, hans⟩ := hans
  have hstep : process.step s (.handle 0 0) t := ⟨by simp [Enabled, stage, hw], ht⟩
  obtain rfl | ⟨w, u, r, hwi, ⟨m, m', x, rfl, hm, hr⟩, rfl⟩ := workerHandle_cases ht
  · rw [stage, hw] at hstage
    cases hstage
  · obtain rfl : (⟨b, .taken⟩ : Worker) = w := Option.some.inj (hw.symm.trans hwi)
    obtain ⟨rfl, -⟩ | ⟨rfl, hcomp⟩ := hr
    · simp [stage, setStage, ha.workers] at hstage
    have keep {α : Type} (f : Connection → α)
        (hf : ∀ k : Connection, f { k with lastHeartBeatTime := x } = f k) :
        f (Function.update s.conn (s.recvHeader b).pConn
          { s.conn (s.recvHeader b).pConn with lastHeartBeatTime := x } 1) = f (s.conn 1) :=
      update_field f (hf _) 1
    refine ⟨_, _, s.sendQueue.mem.next, hrun.step hstep, ?_, ?_, ?_⟩
    · exact h.requeue rfl (keep _ fun _ => rfl) (keep _ fun _ => rfl) (keep _ fun _ => rfl) rfl rfl
        rfl h.sem h.size ((keep _ fun _ => rfl).trans h.count)
    · simp [setStage, ha.workers]
    · simp [sendHeader, setStage, hcomp.header, ha.header]

theorem push (h : s.Unsent n) (hn : (n : ℤ) ≤ maxEachConnSendCount) {r : BufId}
    (hw : s.workers = [⟨b, .reply r⟩]) (hr : (s.sendHeader r).pConn = 1)
    (hrun : process.Run es s) :
    ∃ es' t, process.Run es' t ∧ t.Unsent (n + 1) ∧ t.workers = [] := by
  have hmax : maxEachConnSendCount = 400 := rfl
  have hwithin : s.WithinLimits r := by
    refine ⟨?_, ?_⟩
    · have : maxSendQueueCount = 50000 := rfl
      rw [h.size]
      omega
    · rw [hr, h.count]
      exact hn
  obtain ⟨t, ht, hpush⟩ := push_accept 0 hwithin
  obtain ⟨q, f, rfl⟩ := ht.rest
  set t : Server := { s with sendQueue := q, conn := f }
  have hmax : semValueMax = 2147483647 := rfl
  have hpost : t.semPost = some { t with sendQueue := { q with
      sendMsgPushEventSem := q.sendMsgPushEventSem + 1 } } := by
    have hsem : q.sendMsgPushEventSem = n := ht.sem.trans h.sem
    exact if_neg (by simp only [t, hsem]; omega)
  set u : Server := { t with sendQueue := { q with
    sendMsgPushEventSem := q.sendMsgPushEventSem + 1 } }
  have hstage : s.stage 0 = some (.reply r) := by simp [stage, hw]
  have hstep : process.step s (.push 0 0) (u.setStage 0 .handled) := by
    refine ⟨⟨by rw [hstage]; trivial, by rw [h.sender]; trivial⟩, ?_⟩
    simp only [next, workerPush, hstage, hpush, hpost]
    rfl
  have hworkers : (u.setStage 0 .handled).workers = [⟨b, .handled⟩] := by
    simp [setStage, u, t, hw]
  have hrel : process.step (u.setStage 0 .handled) (.release 0)
      ((u.setStage 0 .handled).workerRelease 0) :=
    ⟨by simp [Enabled, stage, hworkers], rfl⟩
  have hf : f = _ := ht.count
  rw [hr] at hf
  refine ⟨_, _, (hrun.step hstep).step hrel, ?_, ?_⟩
  · have hform : (u.setStage 0 .handled).workerRelease 0 = { u with
        recvQueue := { s.recvQueue with mem := s.recvQueue.mem.freeMemory (some b) }
        workers := [] } := by
      simp only [workerRelease, hworkers]
      rfl
    rw [hform]
    refine h.requeue rfl ?_ ?_ ?_ rfl rfl rfl ?_ ?_ ?_
    · simp [u, t, hf]
    · simp [u, t, hf]
    · simp [u, t, hf]
    · exact congrArg (· + 1) (ht.sem.trans h.sem)
    · exact ht.size.trans (congrArg (· + 1) h.size)
    · simp [u, t, hf, h.count]
  · simp [workerRelease, hworkers]

theorem round (h : s.Unsent n) (hn : (n : ℤ) ≤ maxEachConnSendCount) (hidle : s.workers = [])
    (hrun : process.Run es s) :
    ∃ es' t, process.Run es' t ∧ t.Unsent (n + 1) ∧ t.workers = [] := by
  obtain ⟨es₁, s₁, b, hrun₁, h₁, ha⟩ := h.ask hidle hrun
  obtain ⟨es₂, s₂, r, hrun₂, h₂, hw, hr⟩ := h₁.answer ha hrun₁
  exact h₂.push hn hw hr hrun₂

theorem grow (h : s.Unsent 0) (hidle : s.workers = []) (hrun : process.Run es s) :
    ∀ n : ℕ, (n : ℤ) ≤ maxEachConnSendCount + 1 →
      ∃ es' t, process.Run es' t ∧ t.Unsent n ∧ t.workers = [] := by
  intro n
  induction n with
  | zero => exact fun _ => ⟨es, s, hrun, h, hidle⟩
  | succ n ih =>
    intro hn
    obtain ⟨es', t, hrun', ht, hidle'⟩ := ih (by push_cast at hn; omega)
    exact ht.round (by push_cast at hn; omega) hidle' hrun'

end Unsent

theorem unsent_accepted : ∃ es s, process.Run es s ∧ s.Unsent 0 ∧ s.workers = [] := by
  obtain ⟨s, hrun, hs⟩ := process_run_of_play (fun _ _ => True) smallConfig
    [.accept { HandlerEnv.idle with accept := [.accepted 4] }]
    (fun s => (s.config, (s.conn 1).epoll.pcbReadHandler, (s.conn 1).recv, (s.conn 1).sockFd,
      s.kernel.openFds, s.recvQueue.recvMsgList, s.sender, s.sendQueue.sendMsgPushEventSem,
      s.sendQueue.sendMsgListSize, (s.conn 1).sendMsgListCount, s.workers)) _ rfl
  simp only [Prod.mk.injEq] at hs
  obtain ⟨hcfg, hhandler, hrecv, hfd, hopen, hlist, hsender, hsem, hsize, hcount, hworkers⟩ := hs
  refine ⟨_, s, hrun.of_restrict, ⟨hcfg, hhandler, ⟨?_, ?_, ?_, by decide, ?_⟩, ?_, hlist, hsender,
    hsem, hsize, hcount⟩, hworkers⟩
  · exact Or.inl ⟨by rw [hrecv]; rfl, rfl⟩
  · rw [hrecv]
    rfl
  · rw [hrecv]
    rfl
  · rw [hrecv]
    rfl
  · rw [hfd, hopen]
    decide

/-- A client that does not read its replies gets one more than the limit, and the next is freed
and queued. -/
theorem push_over_limit : ∃ es s b, process.Run es s ∧ s.stage 0 = some (.reply b) ∧
    ¬ s.PushSpec b 0 := by
  obtain ⟨es, s, hrun, h, hidle⟩ := unsent_accepted
  obtain ⟨es, s, hrun, h, hidle⟩ := h.grow hidle hrun 401 (by decide)
  obtain ⟨es₁, s₁, b, hrun₁, h₁, ha⟩ := h.ask hidle hrun
  obtain ⟨es₂, s₂, r, hrun₂, h₂, hw, hr⟩ := h₁.answer ha hrun₁
  refine ⟨es₂, s₂, r, hrun₂, by simp [stage, hw], fun hspec => ?_⟩
  have hlimit := (pushSpec_iff.mp hspec).2
  rw [hr, h₂.count] at hlimit
  exact absurd hlimit (by decide)

end Server
end XiaoHGServer
