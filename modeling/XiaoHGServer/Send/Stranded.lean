import XiaoHGServer.Send.Queue

/-!
# Messages that nobody will send

`SendMsgThread` steps over the messages of a suspended connection. Whoever lowers
the flag of the connection has to raise the semaphore, so that another pass is
made. The write handler does; the error branch of the event loop does not.
-/

namespace XiaoHGServer
namespace Server

variable {s t : Server} {c : ConnId} {b : BufId} {i : ℕ} {e : Event}

/-- The message of an open connection, stamped in its present use, may be sent. -/
def Sendable (s : Server) (b : BufId) : Prop :=
  (s.sendHeader b).pConn ∈ s.pool.clients ∧
    (s.conn (s.sendHeader b).pConn).currSequence = (s.sendHeader b).currSequence ∧
    ¬ 0 < (s.conn (s.sendHeader b).pConn).send.throwSendMsgCount

instance (s : Server) (b : BufId) : Decidable (s.Sendable b) :=
  inferInstanceAs (Decidable (_ ∧ _ ∧ ¬ _))

/-- While the sender is blocked in `sem_wait`, the list holds no message that may be sent. -/
def NoneStranded (s : Server) : Prop :=
  s.sender = .semWait → s.sendQueue.sendMsgPushEventSem = 0 →
    ∀ b ∈ s.sendQueue.sendMsgList, ¬ s.Sendable b

/-- The sender will come to the message at index `i` of the list. -/
def Attended (s : Server) (i : ℕ) : Prop :=
  0 < s.sendQueue.sendMsgPushEventSem ∨
    match s.sender with
    | .semWait => False
    | .sizeTest => True
    | .pass pos => pos ≤ i

/-- The error branch lowers the flag of an open connection to zero only if the sender will come to
its messages; the size test does not take a long list for an empty one; no client is given a number
that messages in the list carry; and no object of the free list is closed. -/
def KeepsAttended (s : Server) (e : Event) : Prop :=
  s.ClosesNoFree e ∧
  match e with
  | .outError c => c ∈ s.pool.clients → (s.conn c).send.throwSendMsgCount = 1 →
    ∀ i < s.sendQueue.sendMsgList.length, ∀ b ∈ s.sendQueue.sendMsgList[i]?,
      s.sendHeader b = ⟨c, (s.conn c).currSequence⟩ → s.Attended i
  | .sizeTest => s.sendQueue.sendMsgList.length % 2 ^ 32 = 0 → s.sendQueue.sendMsgList = []
  | .accept _ => ∀ b ∈ s.sendQueue.sendMsgList,
    s.sendHeader b ≠ ⟨s.pool.front, u64 (s.taken.currSequence + 1)⟩
  | _ => True

/-- The sender will come to every message that may be sent. -/
def AllAttended (s : Server) : Prop :=
  ∀ i b, s.sendQueue.sendMsgList[i]? = some b → s.Sendable b → s.Attended i

theorem AllAttended.noneStranded (h : s.AllAttended) : s.NoneStranded := by
  intro hsender hsem b hb hsend
  obtain ⟨i, hi⟩ := List.mem_iff_getElem?.mp hb
  rcases h i b hi hsend with hpos | hpc
  · omega
  · simp [hsender] at hpc

theorem Attended.same (h : s.Attended i) (hl : SameList s t) : t.Attended i := by
  unfold Attended at h ⊢
  rwa [hl.sem, hl.sender]

theorem recycles_mem (h : s.recycles e = some c) : c ∈ s.pool.recyConnectionList := by
  cases e with
  | recycle now => exact List.mem_of_find?_eq_some h
  | clear => exact List.mem_of_mem_head? h
  | _ => cases h

theorem PoolInv.placed (h : s.PoolInv) : s.pool.Placed := ⟨_, .refl _, h.partition⟩

theorem sendable_of_accept {env : HandlerEnv} (hk : s.KeepsAttended (.accept env))
    (h : s.epollEventAcceptHandler env = some t) (hb : b ∈ s.sendQueue.sendMsgList)
    (hhead : t.sendHeader b = s.sendHeader b) (hs : t.Sendable b) : s.Sendable b := by
  obtain ⟨hcl, hseq, hflag⟩ := hs
  rw [hhead] at hcl hseq hflag
  rcases accept_cases h with ⟨x, calls, rfl, -⟩ | ⟨fd, x, -, rfl⟩
  · exact ⟨hcl, hseq, hflag⟩
  · by_cases hfront : (s.sendHeader b).pConn = s.pool.front
    · refine absurd ?_ (hk.2 b hb)
      rw [hfront] at hseq
      simp only [admitted, Function.update_self, Connection.installed,
        Connection.getOneToUse] at hseq
      rw [hseq, ← hfront]
    · simp only [admitted, Function.update_of_ne hfront, List.mem_cons, hfront,
        false_or] at hcl hseq hflag
      exact ⟨hcl, hseq, hflag⟩

/-- An open connection after a step was open before it, with the same number, unless it has just
been accepted. -/
theorem open_of_step (hi : s.PoolInv) (hacc : ∀ env, e ≠ .accept env) (h : s.next e = some t)
    (hc : c ∈ t.pool.clients) : c ∈ s.pool.clients ∧
      (t.conn c).currSequence = (s.conn c).currSequence ∧ s.closes e ≠ some c := by
  rcases step_useMove h with ⟨hnone, hsame⟩ | ⟨env, fd, he, -⟩ | ⟨d, now, hd, hsame⟩ |
    ⟨d, n, hd, hrec, hsame⟩
  · exact ⟨hsame.1.clients ▸ hc, hsame.2 c, by simp [hnone]⟩
  · exact absurd he (hacc env)
  · rw [hsame.1.clients, closeConnectionToRecy_pool] at hc
    have hne : c ≠ d := by
      rintro rfl
      exact hi.placed.nodup_clients.not_mem_erase hc
    refine ⟨List.mem_of_mem_erase hc, ?_, by simp [hd, Ne.symm hne]⟩
    rw [hsame.2, closeConnectionToRecy_eq]
    simp [hne]
  · rw [hsame.1.clients] at hc
    have hcl : c ∈ s.pool.clients := hc
    have hne : c ≠ d := by
      rintro rfl
      exact hi.placed.notMem_recy hcl hd
    refine ⟨hcl, ?_, fun hclose => ?_⟩
    · rw [hsame.2]
      simp [recycled, hne]
    · cases e with
      | recycle now => cases hclose
      | clear => cases hclose
      | _ => cases hrec

/-- A step that changes neither list nor sender makes no message sendable that the sender will
not come to. -/
theorem sendable_of_quiet (hi : s.PoolInv) (hk : s.KeepsAttended e) (hq : e.quiet = true)
    (h : s.next e = some t) (hb : s.sendQueue.sendMsgList[i]? = some b)
    (hhead : t.sendHeader b = s.sendHeader b) (hs : t.Sendable b) :
    s.Sendable b ∨ s.Attended i := by
  by_cases hacc : ∃ env, e = .accept env
  · obtain ⟨env, rfl⟩ := hacc
    exact Or.inl (sendable_of_accept hk h (List.mem_of_getElem? hb) hhead hs)
  obtain ⟨hcl, hseq, hflag⟩ := hs
  rw [hhead] at hcl hseq hflag
  obtain ⟨hopen, hsame, hclose⟩ := open_of_step hi (fun env he => hacc ⟨env, he⟩) h hcl
  rw [hsame] at hseq
  cases step_sendMove h (s.sendHeader b).pConn with
  | same hsend =>
    rw [hsend] at hflag
    exact Or.inl ⟨hopen, hseq, hflag⟩
  | flag n hn hsend =>
    rw [hsend] at hflag
    cases hn with
    | close hc => exact absurd hc hclose
    | recycle hc => exact absurd (recycles_mem hc) (hi.placed.notMem_recy hopen)
    | clear hc => exact absurd (recycles_mem hc) (hi.placed.notMem_recy hopen)
    | outError he =>
      by_cases hold : 0 < (s.conn (s.sendHeader b).pConn).send.throwSendMsgCount
      · right
        subst he
        have hone : (s.conn (s.sendHeader b).pConn).send.throwSendMsgCount = 1 := by
          simp only at hflag
          omega
        have hlt := (List.getElem?_eq_some_iff.mp hb).1
        exact hk.2 hopen hone i hlt b hb (by rw [hseq])
      · exact Or.inl ⟨hopen, hseq, hold⟩
  | accept env he => exact absurd ⟨env, he⟩ hacc
  | write env he =>
    rw [he] at hq
    cases hq
  | start hstart =>
    cases e with
    | iterate env => cases hq
    | _ => cases hstart

theorem iterate_header {pos : ℕ} {env : SendEnv} (h : s.sendMsgThreadIter pos env = some t) :
    ∀ b, t.sendHeader b = s.sendHeader b := by
  rcases iterate_list h with ⟨-, rfl⟩ | ⟨b, -, ⟨-, rfl⟩ | herased⟩
  · exact fun _ => rfl
  · exact fun _ => rfl
  · exact herased.header

theorem sendable_of_iterate {pos : ℕ} {env : SendEnv} (hsender : s.sender = .pass pos)
    (h : s.sendMsgThreadIter pos env = some t) (hs : t.Sendable b) : s.Sendable b := by
  obtain ⟨hcl, hseq, hflag⟩ := hs
  rw [iterate_header h] at hcl hseq hflag
  rw [iterate_pool h] at hcl
  rw [(iterate_sameTimes h).uses.2] at hseq
  refine ⟨hcl, hseq, fun hpos => hflag ?_⟩
  have hstart : s.starts (.iterate env) ≠ some (s.sendHeader b).pConn := by
    intro hstart
    simp only [starts, hsender] at hstart
    split at hstart
    · split_ifs at hstart with hcond
      rw [← Option.some.inj hstart] at hpos
      omega
    · cases hstart
  rwa [iterate_ne hsender h hstart]

/-- The sender steps over a message only if it is not to be sent yet. -/
theorem AllAttended.iterate_step {pos : ℕ} {env : SendEnv} (ha : s.AllAttended)
    (hsender : s.sender = .pass pos) (h : s.sendMsgThreadIter pos env = some t) :
    t.AllAttended := by
  intro i b hb hs
  have hold := sendable_of_iterate hsender h hs
  rcases iterate_list h with ⟨hnone, rfl⟩ | ⟨b₀, hb₀, ⟨hflag, rfl⟩ | herased⟩
  · rcases ha i b hb hold with hpos | hpc
    · exact Or.inl hpos
    · simp only [hsender] at hpc
      rw [List.getElem?_eq_none_iff] at hnone
      have : i < s.sendQueue.sendMsgList.length := (List.getElem?_eq_some_iff.mp hb).1
      omega
  · rcases ha i b hb hold with hpos | hpc
    · exact Or.inl hpos
    · simp only [hsender] at hpc
      right
      rcases Nat.lt_or_eq_of_le hpc with hlt | rfl
      · exact hlt
      · obtain rfl := Option.some.inj (hb.symm.trans hb₀)
        exact absurd hflag hold.2.2
  · rw [herased.list, List.getElem?_eraseIdx] at hb
    split_ifs at hb with hlt
    · rcases ha i b hb hold with hpos | hpc
      · exact Or.inl (by rwa [herased.sem])
      · simp only [hsender] at hpc
        omega
    · right
      simp only [herased.sender, hsender]
      omega

theorem step_allAttended (ha : s.AllAttended) (hl : s.SendListInv) (hi : s.PoolInv)
    (hk : s.KeepsAttended e) (h : s.next e = some t) : t.AllAttended := by
  by_cases hq : e.quiet = true
  · intro i b hb hs
    have hsame := sameList_step hq h
    rw [hsame.list] at hb
    have hhead := hsame.header b (hl.allocated b (List.mem_of_getElem? hb))
    rcases sendable_of_quiet hi hk hq h hb hhead hs with hold | hatt
    · exact (ha i b hb hold).same hsame
    · exact hatt.same hsame
  cases e with
  | push i now =>
    obtain ⟨rfl, -⟩ | ⟨b, u, -, hu, rfl⟩ := workerPush_cases h
    · exact ha
    · obtain ⟨-, -, hsem, -⟩ := push_list hu
      exact fun i b' _ _ => Or.inl (by simp only [setStage, hsem, Nat.succ_pos])
  | semWait =>
    cases h
    exact fun i b _ _ => Or.inr trivial
  | semIntr =>
    cases h
    exact fun i b _ _ => Or.inr trivial
  | sizeTest =>
    cases h
    intro i b hb _
    right
    by_cases hsize : s.sendQueue.sendMsgListSize > 0
    · simp [sendMsgThreadSizeTest, hsize]
    · have hnil : s.sendQueue.sendMsgList = [] := by
        refine hk.2 ?_
        rw [hl.size, u32] at hsize
        omega
      have hb : s.sendQueue.sendMsgList[i]? = some b := hb
      simp [hnil] at hb
  | iterate env =>
    obtain rfl | ⟨pos, hsender, h⟩ := iterate_pass h
    · exact ha
    · exact ha.iterate_step hsender h
  | write c env =>
    rcases write_cases h with ⟨n, -, -, -, rfl⟩ | ⟨-, rfl⟩ | ⟨n, -, -, -, rfl⟩ | ⟨-, rfl⟩
    · rintro i b hb ⟨hcl, hseq, hflag⟩
      refine ha i b hb ⟨hcl, ?_, ?_⟩
      · exact (update_field Connection.currSequence (by rfl) _).symm.trans hseq
      · have hsame : ∀ d, (Function.update s.conn c { s.conn c with
            send := (s.conn c).send.advance n } d).send.throwSendMsgCount =
            (s.conn d).send.throwSendMsgCount := fun d =>
          update_field (fun k => k.send.throwSendMsgCount) (by rfl) d
        rwa [← hsame]
    · exact ha
    · exact fun i b _ _ => Or.inl (Nat.succ_pos _)
    · exact fun i b _ _ => Or.inl (Nat.succ_pos _)
  | _ => exact absurd rfl hq

/-- No message is stranded in a run that lowers no flag behind the sender's back. -/
theorem no_message_stranded {es : List Event} (h : (process.restrict KeepsAttended).Run es s) :
    s.NoneStranded := by
  have ha : s.AllAttended := by
    refine h.trace_invariant (I := fun _ s => s.AllAttended) (fun s hb i b hi => ?_) ?_
    · simp [(noBuffers_boot hb).sendList] at hi
    · intro es s e t hrun ha hstep
      have hi := (run_poolInv (hrun.restrict_mono fun s e hk => hk.1)).1
      exact step_allAttended ha (run_sendListInv hrun.of_restrict) hi hstep.1 hstep.2.2
  exact ha.noneStranded

instance (s : Server) (i : ℕ) : Decidable (s.Attended i) :=
  match h : s.sender with
  | .semWait => decidable_of_iff (0 < s.sendQueue.sendMsgPushEventSem) (by simp [Attended, h])
  | .sizeTest => isTrue (by simp [Attended, h])
  | .pass pos =>
    decidable_of_iff (0 < s.sendQueue.sendMsgPushEventSem ∨ pos ≤ i) (by simp [Attended, h])

instance (s : Server) : (e : Event) → Decidable (s.KeepsAttended e)
  | .accept _ => inferInstanceAs (Decidable (_ ∧ ∀ _ ∈ s.sendQueue.sendMsgList, _))
  | .outError _ => inferInstanceAs (Decidable (_ ∧ (_ → _ → ∀ i < _, ∀ b ∈ _[i]?, _ → _)))
  | .sizeTest => inferInstanceAs (Decidable (_ ∧ (_ → _ = [])))
  | .read _ _ | .write _ _ | .take | .handle _ _ | .push _ _ | .release _ | .semWait | .semIntr
  | .iterate _ | .close _ _ | .recycle _ | .clear | .monitor _ =>
    inferInstanceAs (Decidable (_ ∧ True))

/-- The events up to the point where the sender has stepped over a client's second reply. -/
def skippedReply : List Event :=
  suspendedReply ++
    [.iterate ⟨0, .again, true⟩, .release 0,
      .read 1 { HandlerEnv.idle with recv := .data [0, 8, 0, 0, 0, 0, 0, 0] },
      .take, .handle 0 0, .push 0 0, .semWait, .sizeTest, .iterate ⟨0, .again, true⟩,
      .iterate ⟨0, .again, true⟩]

/-- The write handler completes the first reply and wakes the sender for the second. -/
theorem no_message_stranded_resumed : ∃ s : Server, s.NoneStranded ∧
    s.sendQueue.sendMsgPushEventSem = 1 ∧ (s.conn 1).send.throwSendMsgCount = 0 := by
  obtain ⟨s, hrun, hs⟩ := process_run_of_play KeepsAttended smallConfig
    (skippedReply ++ [.write 1 ⟨0, .accepted 5, true⟩])
    (fun s => (s.sendQueue.sendMsgPushEventSem, (s.conn 1).send.throwSendMsgCount)) (1, 0)
    (by decide +kernel)
  obtain ⟨hsem, hflag⟩ := Prod.mk.inj hs
  exact ⟨s, no_message_stranded hrun, hsem, hflag⟩

/-- The error branch lowers the flag of the open connection and does not wake the sender. -/
theorem message_stranded_by_event : ¬ ∀ es s, process.Run es s → s.NoneStranded := by
  intro hall
  obtain ⟨s, hrun, hs⟩ := process_run_of_play (fun _ _ => True) smallConfig
    (skippedReply ++ [.read 1 { HandlerEnv.idle with recv := .data [0] }, .outError 1])
    (fun s => decide (s.sender = .semWait ∧ s.sendQueue.sendMsgPushEventSem = 0 ∧
      1 ∈ s.sendQueue.sendMsgList ∧ s.Sendable 1)) true (by decide +kernel)
  obtain ⟨hsender, hsem, hlist, hsend⟩ := of_decide_eq_true hs
  exact hall _ s hrun.of_restrict hsender hsem 1 hlist hsend

end Server
end XiaoHGServer
