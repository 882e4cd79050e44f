import XiaoHGServer.Send.Queue
import XiaoHGServer.Send.Stream
import XiaoHGServer.Worker.Discard

/-!
# Replies and what was in their memory before

A handler copies the message header of the request and writes the packet header
of its reply; the body stays as `AllocMemory` returned it. A buffer of the send
side is not written again after it was composed, so that `SendMsgThread` hands
out just these bytes.
-/

namespace XiaoHGServer

/-- The length of the body a handler asks for, which is also that of its reply. -/
def LogicHandler.bodyLen : LogicHandler → ℕ
  | .handleHeartbeat => 0
  | .handleRegister => sizeofRegister
  | .handleLogin => sizeofLogin

/-- The code a handler is entered under in `StatusHandler`, and answers under. -/
def LogicHandler.code : LogicHandler → ℕ
  | .handleHeartbeat => cmdHeartbeat
  | .handleRegister => cmdRegister
  | .handleLogin => cmdLogin

theorem LogicHandler.code_inj {k k' : LogicHandler} (h : k.code = k'.code) : k = k' := by
  cases k <;> cases k' <;> first | rfl | exact absurd h (by decide)

def LogicHandler.crc : LogicHandler → List Byte → BitVec 32
  | .handleHeartbeat, _ => 0
  | .handleRegister, body => getCRC body
  | .handleLogin, body => getCRC body

/-- The reply of a handler around the body `body`. -/
def LogicHandler.reply (k : LogicHandler) (body : List Byte) : List Byte :=
  packetHeader (lenPkgHeader + k.bodyLen) k.code (k.crc body) ++ body

/-- What the memory of buffer `b` holds in the place of a body of length `n`. -/
def staleBody (mem : BufId → ℕ → Byte) (b : BufId) (n : ℕ) : List Byte :=
  (List.range n).map fun i => mem b (lenPkgHeader + i)

@[simp] theorem length_staleBody (mem : BufId → ℕ → Byte) (b : BufId) (n : ℕ) :
    (staleBody mem b n).length = n := by
  simp [staleBody]

theorem drop_stale (mem : BufId → ℕ → Byte) (b : BufId) (n : ℕ) :
    ((List.range (lenPkgHeader + n)).map (mem b)).drop lenPkgHeader = staleBody mem b n := by
  refine List.ext_getElem (by simp [staleBody]) fun i h₁ h₂ => ?_
  simp [staleBody]

theorem length_reply (k : LogicHandler) (body : List Byte) :
    (k.reply body).length = lenPkgHeader + body.length := by
  simp [LogicHandler.reply, packetHeader, storeShort, storeInt, lenPkgHeader]
  omega

theorem pkgLength_reply (k : LogicHandler) (body : List Byte) :
    pkgLength (k.reply body) = lenPkgHeader + k.bodyLen :=
  Server.pkgLength_packetHeader (by cases k <;> decide)

theorem statusHandler_eq_some_iff {code : ℕ} {k : LogicHandler} :
    statusHandler.getD code none = some k ↔ code = k.code := by
  by_cases hcode : code < totalCommands
  · rw [show totalCommands = 7 from rfl] at hcode
    interval_cases code <;> cases k <;> decide
  · have hnone : statusHandler.getD code none = none := by
      rw [List.getD_eq_getElem?_getD, List.getElem?_eq_none (Nat.le_of_not_lt hcode)]
      rfl
    rw [hnone]
    refine ⟨fun h => absurd h (by simp), ?_⟩
    rintro rfl
    exact absurd (by cases k <;> decide) hcode

namespace Server

variable {s t u : Server} {b r : BufId} {c : ConnId} {now : ℤ} {i : ℕ} {e : Event}
  {k : LogicHandler}

/-- What handler `k` does with a request under header `h` that it accepts. -/
structure Answered (k : LogicHandler) (h : MsgHeader) (now : ℤ) (s t : Server) : Prop where
  next : t.sendQueue.mem.next = s.sendQueue.mem.next + 1
  buffer : t.sendQueue.mem.buffer s.sendQueue.mem.next =
    ⟨h, k.reply (staleBody s.sendQueue.mem.stale s.sendQueue.mem.next k.bodyLen)⟩
  heartbeat : ∀ c, (t.conn c).lastHeartBeatTime =
    if k = .handleHeartbeat ∧ c = h.pConn then now else (s.conn c).lastHeartBeatTime

theorem composeReply_buffer (h : MsgHeader) (n code : ℕ) (crc : List Byte → BitVec 32) :
    (s.composeReply h n code crc).1.sendQueue.mem.buffer s.sendQueue.mem.next =
      ⟨h, packetHeader (lenPkgHeader + n) code
          (crc (staleBody s.sendQueue.mem.stale s.sendQueue.mem.next n)) ++
        staleBody s.sendQueue.mem.stale s.sendQueue.mem.next n⟩ := by
  simp only [composeReply, Heap.modify_buffer_self, Heap.allocMemory_buffer_next, drop_stale]

/-- The reply to a request with a body, after the handler has written into the request. -/
theorem answered_composeReply (hk : k ≠ .handleHeartbeat) (hq : u.sendQueue = s.sendQueue)
    (hconn : u.conn = s.conn) (hhead : u.recvHeader b = s.recvHeader b) :
    Answered k (s.recvHeader b) now s
      (u.composeReply (u.recvHeader b) k.bodyLen k.code k.crc).1 := by
  refine ⟨?_, ?_, fun c => ?_⟩
  · rw [← hq]
    rfl
  · rw [hhead, ← hq, composeReply_buffer]
    rfl
  · rw [if_neg (fun h => hk h.1), ← hconn]
    rfl

/-- A handler accepts exactly the requests with a body of the length it asks for. -/
theorem callLogicHandler_answer (hasBody : Bool) (n : ℕ) (now : ℤ)
    (hbody : hasBody = false → n = 0) :
    if n = k.bodyLen then
      ∃ t, s.callLogicHandler k b hasBody n now = (t, some s.sendQueue.mem.next) ∧
        Answered k (s.recvHeader b) now s t
    else s.callLogicHandler k b hasBody n now = (s, none) := by
  have hne : n = sizeofRegister ∨ n = sizeofLogin → hasBody = true := by
    intro hn
    cases hasBody with
    | true => rfl
    | false =>
      have := hbody rfl
      subst this
      rcases hn with hn | hn <;> cases hn
  have written {off off' : ℕ} {data data' : List Byte} {u : Server}
      (hu : SameCustody s.recvQueue.mem u.recvQueue.mem) :
      ((u.writeRecvMsg b off data).writeRecvMsg b off' data').recvHeader b = s.recvHeader b :=
    ((hu.trans sameCustody_writeRecvMsg).trans sameCustody_writeRecvMsg).header b
  split_ifs with hn
  · cases k with
    | handleHeartbeat =>
      simp only [LogicHandler.bodyLen] at hn
      simp only [callLogicHandler, handleHeartbeat, if_neg (not_not.mpr hn)]
      refine ⟨_, rfl, rfl, composeReply_buffer (s := s.modifyConn _ _) _ _ _ _, fun c => ?_⟩
      by_cases hc : c = (s.recvHeader b).pConn
      · subst hc
        simp [composeReply]
      · simp [composeReply, hc]
    | handleRegister =>
      simp only [LogicHandler.bodyLen] at hn
      simp only [callLogicHandler, handleRegister, hne (Or.inl hn), hn, ne_eq, not_true_eq_false,
        Bool.true_eq_false, or_self, if_false]
      exact ⟨_, rfl, answered_composeReply (by decide) rfl rfl
        (written sameCustody_writeRecvMsg)⟩
    | handleLogin =>
      simp only [LogicHandler.bodyLen] at hn
      simp only [callLogicHandler, handleLogin, hne (Or.inr hn), hn, ne_eq, not_true_eq_false,
        Bool.true_eq_false, or_self, if_false]
      exact ⟨_, rfl, answered_composeReply (by decide) rfl rfl (written (.refl _))⟩
  · cases k with
    | handleHeartbeat => exact if_pos hn
    | handleRegister => exact if_pos (Or.inr (Ne.symm hn))
    | handleLogin => exact if_pos (Or.inr (Ne.symm hn))

theorem dispatch_eq_some {hasBody : Bool} {n : ℕ}
    (hseq : (s.conn (s.recvHeader b).pConn).currSequence = (s.recvHeader b).currSequence) :
    s.dispatch b hasBody k.code n now =
      some (s.callLogicHandler k b hasBody (u16 (n - lenPkgHeader)) now) := by
  have hcode : ¬ k.code ≥ totalCommands := by cases k <;> decide
  have hk : statusHandler.getD k.code none = some k := statusHandler_eq_some_iff.mpr rfl
  simp only [dispatch, hseq, ne_eq, not_true_eq_false, if_false, if_neg hcode, hk]

theorem code_of_not_rejected (hok : ¬ s.Rejected b) : ∃ k : LogicHandler,
    msgCode (s.recvPkg b) = k.code := by
  cases hk : statusHandler.getD (msgCode (s.recvPkg b)) none with
  | none => exact absurd (.noHandler hk) hok
  | some k => exact ⟨k, statusHandler_eq_some_iff.mp hk⟩

theorem recvMsgHandleProc_answer (now : ℤ) (hok : ¬ s.Rejected b)
    (hk : msgCode (s.recvPkg b) = k.code) :
    if u16 (pkgLength (s.recvPkg b) - lenPkgHeader) = k.bodyLen then
      ∃ t, s.recvMsgHandleProc b now = some (t, some s.sendQueue.mem.next) ∧
        Answered k (s.recvHeader b) now s t
    else
      ∃ t, s.recvMsgHandleProc b now = some (t, none) ∧ t.sendQueue = s.sendQueue ∧
        t.conn = s.conn := by
  have hseq : (s.conn (s.recvHeader b).pConn).currSequence = (s.recvHeader b).currSequence := by
    by_contra hne
    exact hok (.closed hne)
  set n := pkgLength (s.recvPkg b) with hn
  by_cases hlen : lenPkgHeader = n
  · have hcrc : iCrc32 (s.recvPkg b) = 0 := by
      by_contra hne
      exact hok (.headerCrc hlen.symm hne)
    have hproc : s.recvMsgHandleProc b now =
        some (s.callLogicHandler k b false (u16 (n - lenPkgHeader)) now) := by
      simp only [recvMsgHandleProc, ← hn, if_pos hlen, hcrc, ne_eq, not_true_eq_false, if_false,
        hk, dispatch_eq_some hseq]
    have hcall := callLogicHandler_answer (s := s) (b := b) (k := k) false
      (u16 (n - lenPkgHeader)) now fun _ => by rw [← hlen]; rfl
    rw [hproc]
    split_ifs at hcall ⊢
    · obtain ⟨t, ht, hans⟩ := hcall
      exact ⟨t, by rw [ht], hans⟩
    · exact ⟨s, by rw [hcall], rfl, rfl⟩
  · have hcrc : getCRC (pkgBody (s.recvPkg b)) = ntohl (iCrc32 (s.recvPkg b)) := by
      by_contra hne
      exact hok (.bodyCrc (Ne.symm hlen) hne)
    set u := s.writeRecvMsg b 4 (storeInt (ntohl (iCrc32 (s.recvPkg b)))) with hu
    have hhead : u.recvHeader b = s.recvHeader b := sameCustody_writeRecvMsg.header b
    have hproc : s.recvMsgHandleProc b now =
        some (u.callLogicHandler k b true (u16 (n - lenPkgHeader)) now) := by
      simp only [recvMsgHandleProc, ← hn, if_neg hlen, hcrc, ne_eq, not_true_eq_false, if_false,
        hk, ← hu]
      exact dispatch_eq_some (by rw [hhead]; exact hseq)
    have hcall := callLogicHandler_answer (s := u) (b := b) (k := k) true
      (u16 (n - lenPkgHeader)) now fun h => absurd h (by decide)
    rw [hproc]
    split_ifs at hcall ⊢
    · obtain ⟨t, ht, hans⟩ := hcall
      exact ⟨t, by rw [ht]; rfl, hans.next, hhead ▸ hans.buffer, hhead ▸ hans.heartbeat⟩
    · exact ⟨u, by rw [hcall], rfl, rfl⟩

theorem stage_setStage {w : Worker} {x : WorkerStage} (hw : s.workers[i]? = some w) :
    (s.setStage i x).stage i = some x := by
  simp [stage, setStage, hw]

theorem handle_answer {w : Worker} (now : ℤ) (hw : s.workers[i]? = some w)
    (hok : ¬ s.Rejected w.pJobBuf) (hk : msgCode (s.recvPkg w.pJobBuf) = k.code) :
    if u16 (pkgLength (s.recvPkg w.pJobBuf) - lenPkgHeader) = k.bodyLen then
      ∃ t, s.next (.handle i now) = some t ∧
        t.stage i = some (.reply s.sendQueue.mem.next) ∧
        Answered k (s.recvHeader w.pJobBuf) now s t
    else
      ∃ t, s.next (.handle i now) = some t ∧ t.stage i = some .handled ∧
        t.sendQueue = s.sendQueue ∧ t.conn = s.conn := by
  have hans := recvMsgHandleProc_answer now hok hk
  have hworkers {t : Server} {r : Option BufId}
      (ht : s.recvMsgHandleProc w.pJobBuf now = some (t, r)) : t.workers[i]? = some w := by
    obtain ⟨m, m', x, rfl, -⟩ := recvMsgHandleProc_handled ht
    exact hw
  split_ifs at hans ⊢
  · obtain ⟨t, ht, hans⟩ := hans
    refine ⟨t.setStage i (.reply s.sendQueue.mem.next), ?_, stage_setStage (hworkers ht),
      hans.next, hans.buffer, hans.heartbeat⟩
    simp only [next, workerHandle, hw, ht]
  · obtain ⟨t, ht, hq, hconn⟩ := hans
    refine ⟨t.setStage i .handled, ?_, stage_setStage (hworkers ht), hq, hconn⟩
    simp only [next, workerHandle, hw, ht]

/-- The send buffers allocated so far are the same. -/
structure KeepsMail (s t : Server) : Prop where
  next : s.sendQueue.mem.next ≤ t.sendQueue.mem.next
  buffer : ∀ b < s.sendQueue.mem.next, t.sendQueue.mem.buffer b = s.sendQueue.mem.buffer b

theorem KeepsMail.of_eq (hn : t.sendQueue.mem.next = s.sendQueue.mem.next)
    (hb : t.sendQueue.mem.buffer = s.sendQueue.mem.buffer) : KeepsMail s t :=
  ⟨hn.ge, fun b _ => congrFun hb b⟩

theorem KeepsMail.trans (h : KeepsMail s t) (h' : KeepsMail t u) : KeepsMail s u where
  next := h.next.trans h'.next
  buffer b hb := (h'.buffer b (hb.trans_le h.next)).trans (h.buffer b hb)

theorem step_keepsMail (h : s.next e = some t) : KeepsMail s t := by
  rcases step_sendMem h with ⟨hnext, hbuf⟩ | ⟨i, now, w, -, -, hcomposed⟩
  · exact .of_eq hnext hbuf
  · exact ⟨(Nat.le_succ _).trans hcomposed.next.ge,
      fun b hb => hcomposed.buffer b (Nat.ne_of_lt hb)⟩

/-- A composed message is not written again, whatever happens. -/
theorem run_keepsMail {es : List Event}
    (h : (System.ofNext (· = s) Enabled next).Run es t) : KeepsMail s t :=
  h.invariant (fun _ h => h ▸ .of_eq rfl rfl) fun _ _ _ hi hs => hi.trans (step_keepsMail hs.2)

/-- What the memory that becomes send buffers holds is `mem`. -/
def withStale (s : Server) (mem : BufId → ℕ → Byte) : Server :=
  { s with sendQueue := { s.sendQueue with mem := { s.sendQueue.mem with stale := mem } } }

/-- Worker `i` handles its request and has composed the reply `r`. -/
structure Replies (s : Server) (i : ℕ) (now : ℤ) (r : BufId) (t : Server) : Prop where
  taken : s.stage i = some .taken
  handle : s.next (.handle i now) = some t
  reply : t.stage i = some (.reply r)

def replyBytes (s : Server) (r : BufId) : List Byte := (s.sendPkg r).take (pkgLength (s.sendPkg r))

/-- The reply to the request of worker `i` has the same bytes whatever the memory held before. -/
def ReplyDetermined (s : Server) (i : ℕ) (now : ℤ) : Prop :=
  ∀ mem mem' r r' t t', (s.withStale mem).Replies i now r t →
    (s.withStale mem').Replies i now r' t' → t.replyBytes r = t'.replyBytes r'

/-- `SendMsgThread` takes message `r` from the list and passes `data` to `send`. -/
def Passes (s : Server) (r : BufId) (data : List Byte) : Prop :=
  ∃ env pos t new c fd ret, s.sender = .pass pos ∧ s.sendQueue.sendMsgList[pos]? = some r ∧
    s.next (.iterate env) = some t ∧ t.kernel.calls = new ++ s.kernel.calls ∧
    .send c fd data ret ∈ new

/-- The thread passes the packet of the message to `send`, as long as its `PkgLength` says. -/
theorem Passes.eq_replyBytes {data : List Byte} (h : s.Passes r data) : data = s.replyBytes r := by
  obtain ⟨env, pos, t, new, c, fd, ret, hsender, hr, hstep, hcalls, hmem⟩ := h
  have quiet (hk : t.kernel = s.kernel) : data = s.replyBytes r := by
    rw [hk, List.self_eq_append_left] at hcalls
    simp [hcalls] at hmem
  simp only [next, hsender] at hstep
  rcases iterate_cases hstep with ⟨hb, -⟩ | ⟨b, hb, ⟨-, rfl⟩ | ⟨-, -, rfl⟩ | ⟨-, -, hstart⟩⟩
  · simp [hr] at hb
  · exact quiet rfl
  · exact quiet rfl
  · obtain rfl : r = b := Option.some.inj (hr.symm.trans hb)
    set d := (s.sendHeader r).pConn
    have hkernel : t.kernel = (s.takeSendMsg pos r d).sentKernel d env := by
      rcases startSend_cases hstart with ⟨-, rfl⟩ | ⟨n, -, -, -, rfl⟩ | ⟨-, rfl⟩ <;> rfl
    have hnew : new = sendCalls d ((s.takeSendMsg pos r d).conn d).sockFd (s.replyBytes r) env := by
      refine List.append_cancel_right (hcalls.symm.trans ?_)
      rw [hkernel]
      simp only [sentKernel, sendMsgProc, takeSendMsg_send, sendBytes, replyBytes, sendPkg,
        List.drop_zero, u16_of_lt (pkgLength_lt _)]
      rfl
    rw [hnew] at hmem
    rcases List.mem_cons.mp hmem with heq | hmem
    · exact (SysCall.send.inj heq).2.2.1
    · exact (SysCall.send.inj (List.eq_of_mem_replicate hmem)).2.2.1

/-- The requests that are answered: they are not thrown away, and have the length of their code. -/
theorem Replies.accepted {w : Worker} (hw : s.workers[i]? = some w) (h : s.Replies i now r t) :
    ¬ s.Rejected w.pJobBuf ∧ ∃ k : LogicHandler, msgCode (s.recvPkg w.pJobBuf) = k.code ∧
      u16 (pkgLength (s.recvPkg w.pJobBuf) - lenPkgHeader) = k.bodyLen := by
  have hok : ¬ s.Rejected w.pJobBuf := by
    intro hrej
    have hnone : s.next (.handle i now) = none := workerHandle_eq_none_iff.mpr ⟨w, hw, hrej⟩
    exact absurd (hnone.symm.trans h.handle) (by simp)
  obtain ⟨k, hk⟩ := code_of_not_rejected hok
  refine ⟨hok, k, hk, ?_⟩
  by_contra hlen
  have hans := handle_answer now hw hok hk
  rw [if_neg hlen] at hans
  obtain ⟨t', ht', hstage, -⟩ := hans
  obtain rfl : t = t' := Option.some.inj (h.handle.symm.trans ht')
  exact absurd (h.reply.symm.trans hstage) (by simp)

theorem Replies.answered {w : Worker} (hw : s.workers[i]? = some w) (h : s.Replies i now r t)
    (hk : msgCode (s.recvPkg w.pJobBuf) = k.code) :
    r = s.sendQueue.mem.next ∧ Answered k (s.recvHeader w.pJobBuf) now s t := by
  obtain ⟨hok, k', hk', hlen⟩ := h.accepted hw
  obtain rfl : k' = k := LogicHandler.code_inj (hk'.symm.trans hk)
  have hans := handle_answer now hw hok hk
  rw [if_pos hlen] at hans
  obtain ⟨t', ht', hstage, hans⟩ := hans
  obtain rfl : t = t' := Option.some.inj (h.handle.symm.trans ht')
  exact ⟨by simpa using h.reply.symm.trans hstage, hans⟩

/-- A reply is that of the handler of its request, around what its memory held. -/
theorem Replies.replyBytes_eq {w : Worker} (hw : s.workers[i]? = some w)
    (h : s.Replies i now r t) (hk : msgCode (s.recvPkg w.pJobBuf) = k.code) :
    t.replyBytes r =
      k.reply (staleBody s.sendQueue.mem.stale s.sendQueue.mem.next k.bodyLen) := by
  obtain ⟨rfl, hans⟩ := h.answered hw hk
  rw [replyBytes, sendPkg, hans.buffer, pkgLength_reply, List.take_of_length_le]
  rw [length_reply, length_staleBody]

theorem Replies.withStale (h : s.Replies i now r t) (mem : BufId → ℕ → Byte) :
    ∃ r' t', (s.withStale mem).Replies i now r' t' := by
  obtain ⟨w, hw, -⟩ := Option.map_eq_some_iff.mp h.taken
  obtain ⟨hok, k, hk, hlen⟩ := h.accepted hw
  have hok' : ¬ (s.withStale mem).Rejected w.pJobBuf := by
    intro hrej
    cases hrej with
    | headerCrc h₁ h₂ => exact hok (.headerCrc h₁ h₂)
    | bodyCrc h₁ h₂ => exact hok (.bodyCrc h₁ h₂)
    | closed h₁ => exact hok (.closed h₁)
    | unknownCode h₁ => exact hok (.unknownCode h₁)
    | noHandler h₁ => exact hok (.noHandler h₁)
  have hans := handle_answer (s := s.withStale mem) now hw hok' hk
  split_ifs at hans with hlen'
  · obtain ⟨t', ht', hstage, -⟩ := hans
    exact ⟨_, t', h.taken, ht', hstage⟩
  · exact absurd hlen hlen'

theorem reply_staleBody_inj {mem mem' : BufId → ℕ → Byte} {b b' : BufId}
    (h : k.reply (staleBody mem b k.bodyLen) = k.reply (staleBody mem' b' k.bodyLen)) :
    staleBody mem b k.bodyLen = staleBody mem' b' k.bodyLen :=
  (List.append_inj h (by simp [packetHeader, storeShort, storeInt])).2

/-- The reply to a request is the same for all contents of the memory exactly if the request is a
heartbeat. -/
theorem replyDetermined_iff_heartbeat {w : Worker} (hw : s.workers[i]? = some w)
    (h : s.Replies i now r t) :
    s.ReplyDetermined i now ↔ msgCode (s.recvPkg w.pJobBuf) = cmdHeartbeat := by
  obtain ⟨-, k, hk, -⟩ := h.accepted hw
  have hbytes {mem : BufId → ℕ → Byte} {r : BufId} {t : Server}
      (h : (s.withStale mem).Replies i now r t) :
      t.replyBytes r = k.reply (staleBody mem s.sendQueue.mem.next k.bodyLen) :=
    h.replyBytes_eq (s := s.withStale mem) hw hk
  constructor
  · intro hdet
    obtain ⟨r₀, t₀, h₀⟩ := h.withStale fun _ _ => 0
    obtain ⟨r₁, t₁, h₁⟩ := h.withStale fun _ _ => 1
    have hsame := hdet _ _ _ _ _ _ h₀ h₁
    rw [hbytes h₀, hbytes h₁] at hsame
    have hbody := reply_staleBody_inj hsame
    have hne : (0 : Byte) ≠ 1 := by decide
    cases k with
    | handleHeartbeat => exact hk
    | handleRegister => exact absurd (List.cons.inj hbody).1 hne
    | handleLogin => exact absurd (List.cons.inj hbody).1 hne
  · intro hcode mem mem' r r' t t' h₁ h₂
    obtain rfl : k = .handleHeartbeat := LogicHandler.code_inj (hk.symm.trans hcode)
    rw [hbytes h₁, hbytes h₂]
    rfl

/-- A reply is free of what its memory held exactly if it answers a heartbeat. In whatever way the
run goes on, `SendMsgThread` passes the bytes of the reply to `send` as they were composed. -/
theorem reply_determined_iff {w : Worker} (hw : s.workers[i]? = some w)
    (h : s.Replies i now r t) :
    (s.ReplyDetermined i now ↔ msgCode (s.recvPkg w.pJobBuf) = cmdHeartbeat) ∧
      ∀ es u data, (System.ofNext (· = t) Enabled next).Run es u → u.Passes r data →
        data = t.replyBytes r := by
  refine ⟨replyDetermined_iff_heartbeat hw h, fun es u data hrun hpass => ?_⟩
  obtain ⟨-, k, hk, -⟩ := h.accepted hw
  obtain ⟨hnew, hans⟩ := h.answered hw hk
  have hr : r < t.sendQueue.mem.next := by
    rw [hnew, hans.next]
    exact Nat.lt_succ_self _
  rw [hpass.eq_replyBytes, replyBytes, replyBytes, sendPkg, (run_keepsMail hrun).buffer r hr]
  rfl

/-- A login packet with an empty name and an empty password. -/
def loginPkg : List Byte := [0, 104, 0, 6, 186, 244, 101, 174] ++ List.replicate sizeofLogin 0

/-- The events up to the point where a worker has taken the login packet of a client. -/
def loginTaken : List Event :=
  [.accept { HandlerEnv.idle with accept := [.accepted 4] },
    .read 1 { HandlerEnv.idle with recv := .data (loginPkg.take lenPkgHeader) },
    .read 1 { HandlerEnv.idle with recv := .data (loginPkg.drop lenPkgHeader) }, .take]

theorem replies_of_play (es : List Event) (code : ℕ)
    (h : (System.play (fun s e => True ∧ s.Enabled e) next es (smallBoot smallConfig)).map
      (fun s => (s.workers[0]?, msgCode (s.recvPkg 0),
        (s.next (.handle 0 0)).map fun t => t.stage 0)) =
      some (some ⟨0, .taken⟩, code, some (some (.reply 0)))) :
    ∃ s t : Server, process.Run es s ∧ s.workers[0]? = some ⟨0, .taken⟩ ∧
      msgCode (s.recvPkg 0) = code ∧ s.Replies 0 0 0 t := by
  obtain ⟨s, hrun, hs⟩ := process_run_of_play (fun _ _ => True) smallConfig es _ _ h
  obtain ⟨hw, hs⟩ := Prod.mk.inj hs
  obtain ⟨hcode, hstage⟩ := Prod.mk.inj hs
  obtain ⟨t, ht, hreply⟩ := Option.map_eq_some_iff.mp hstage
  exact ⟨s, t, hrun.of_restrict, hw, hcode, by simp [stage, hw], ht, hreply⟩

/-- The reply to a client's first heartbeat. -/
theorem reply_determined_heartbeat : ∃ s, process.Run (suspendedReply.take 3) s ∧
    s.ReplyDetermined 0 0 := by
  obtain ⟨s, t, hrun, hw, hcode, hreply⟩ := replies_of_play (suspendedReply.take 3) cmdHeartbeat
    (by decide)
  exact ⟨s, hrun, (reply_determined_iff hw hreply).1.mpr hcode⟩

/-- The reply to a login gives away what its memory held. -/
theorem login_reply_leaks : ¬ ∀ es s t i now r, process.Run es s → s.Replies i now r t →
    s.ReplyDetermined i now := by
  intro hall
  obtain ⟨s, t, hrun, hw, hcode, hreply⟩ := replies_of_play loginTaken cmdLogin
    (by decide +kernel)
  have hdet := (replyDetermined_iff_heartbeat hw hreply).mp (hall _ _ _ _ _ _ hrun hreply)
  exact absurd (hcode.symm.trans hdet) (by decide)

end Server
end XiaoHGServer
