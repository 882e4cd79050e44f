import XiaoHGServer.Receive.Framing
import XiaoHGServer.Send.Queue
import XiaoHGServer.Worker.Reply

/-!
# The protocol, from both sides

The handlers write packet headers by hand, and the framing and `RecvMsgHandleProc`
read them by hand. A reply passes every check that requests have to pass, and
each of the three kinds of request has exactly one reply.
-/

namespace XiaoHGServer

theorem ntohl_ntohl (w : BitVec 32) : ntohl (ntohl w) = w := by
  unfold ntohl
  ext i hi
  simp only [BitVec.getElem_append, BitVec.getElem_extractLsb', BitVec.getLsbD_append,
    BitVec.getLsbD_extractLsb']
  interval_cases i <;> simp

theorem loadInt_storeInt (w : BitVec 32) : loadInt (storeInt w) 0 = w := by
  simp only [loadInt, storeInt, List.getD_cons_zero, List.getD_cons_succ]
  ext i hi
  simp only [BitVec.getElem_append, BitVec.getElem_extractLsb']
  interval_cases i <;> simp

section Header

variable (n code : ℕ) (crc : BitVec 32) (body : List Byte)

theorem iCrc32_packetHeader : iCrc32 (packetHeader n code crc ++ body) = ntohl crc :=
  loadInt_storeInt (ntohl crc)

theorem msgCode_packetHeader (hcode : code < 2 ^ 16) :
    msgCode (packetHeader n code crc ++ body) = code := by
  have hfield : msgCode (packetHeader n code crc ++ body) =
      pkgLength (packetHeader code n crc ++ body) := by
    simp only [msgCode, pkgLength, loadShort, packetHeader, storeShort, List.cons_append,
      List.nil_append, List.getD_cons_zero, List.getD_cons_succ]
  rw [hfield, Server.pkgLength_packetHeader hcode]

end Header

theorem LogicHandler.code_lt (k : LogicHandler) : k.code < 2 ^ 16 := by
  cases k <;> decide

theorem msgCode_reply (k : LogicHandler) (body : List Byte) : msgCode (k.reply body) = k.code :=
  msgCode_packetHeader _ _ _ _ k.code_lt

theorem iCrc32_reply (k : LogicHandler) (body : List Byte) :
    iCrc32 (k.reply body) = ntohl (k.crc body) :=
  iCrc32_packetHeader _ _ _ _

theorem pkgBody_reply (k : LogicHandler) {body : List Byte} (hlen : body.length = k.bodyLen) :
    pkgBody (k.reply body) = body := by
  have hheader : (packetHeader (lenPkgHeader + k.bodyLen) k.code (k.crc body)).length =
      lenPkgHeader := by
    simp [packetHeader, storeShort, storeInt, lenPkgHeader]
  rw [pkgBody, pkgLength_reply, Nat.add_sub_cancel_left, LogicHandler.reply,
    List.drop_left' hheader, List.take_of_length_le hlen.le]

theorem frames_reply (k : LogicHandler) {body : List Byte} (hlen : body.length = k.bodyLen) :
    packetFormat.frames (k.reply body) = [k.reply body] := by
  have hsize : pkgLength ((k.reply body).take packetFormat.headerLen) =
      lenPkgHeader + k.bodyLen := by
    rw [pkgLength_take (by decide), pkgLength_reply]
  have hmax : ¬ (lenPkgHeader + k.bodyLen < lenPkgHeader ∨
      pkgMaxLength < lenPkgHeader + k.bodyLen) := by
    cases k <;> decide
  have hframe : packetFormat.frameLen ((k.reply body).take packetFormat.headerLen) =
      some (k.reply body).length := by
    rw [packetFormat_frameLen, hsize, if_neg hmax, length_reply, hlen]
  have hcut := FrameFormat.frames_cons hframe []
  rwa [List.append_nil, FrameFormat.incomplete_nil.frames_eq_nil] at hcut

theorem wellFormed_of_mem_frames {stream pkg : List Byte}
    (h : pkg ∈ packetFormat.frames stream) : Server.WellFormed pkg := by
  have hframe := FrameFormat.frameLen_of_mem_frames h
  rw [packetFormat_frameLen, pkgLength_take (by decide)] at hframe
  split_ifs at hframe with hrange
  have hlen := Option.some.inj hframe
  exact ⟨hlen.symm, hlen ▸ Nat.le_of_not_lt fun hlt => hrange (Or.inl hlt)⟩

namespace Server

variable {s t u : Server} {b r : BufId} {c : ConnId} {now : ℤ} {i : ℕ} {k : LogicHandler}

/-- A reply passes the checks of `RecvMsgHandleProc`, wherever it is received. -/
theorem reply_not_rejected {body : List Byte} (hlen : body.length = k.bodyLen)
    (hpkg : s.recvPkg b = k.reply body)
    (hseq : (s.conn (s.recvHeader b).pConn).currSequence = (s.recvHeader b).currSequence) :
    ¬ s.Rejected b := by
  intro hrej
  cases hrej with
  | headerCrc hhead hcrc =>
    rw [hpkg, pkgLength_reply] at hhead
    rw [hpkg, iCrc32_reply] at hcrc
    cases k with
    | handleHeartbeat => exact hcrc (show ntohl 0 = 0 by decide)
    | handleRegister => cases hhead
    | handleLogin => cases hhead
  | bodyCrc hhead hcrc =>
    rw [hpkg, pkgLength_reply] at hhead
    rw [hpkg, iCrc32_reply, ntohl_ntohl, pkgBody_reply k hlen] at hcrc
    cases k with
    | handleHeartbeat => exact hhead rfl
    | handleRegister => exact hcrc rfl
    | handleLogin => exact hcrc rfl
  | closed hne => exact hne hseq
  | unknownCode hcode =>
    rw [hpkg, msgCode_reply] at hcode
    exact absurd hcode (by cases k <;> decide)
  | noHandler hnone =>
    rw [hpkg, msgCode_reply, statusHandler_eq_some_iff.mpr rfl] at hnone
    cases hnone

/-- The pairs of `MsgCode` and `PkgLength` that have a reply. -/
def answerable : List (ℕ × ℕ) := [(0, 8), (5, 108), (6, 104)]

theorem mem_answerable_iff {code len : ℕ} :
    (code, len) ∈ answerable ↔
      ∃ k : LogicHandler, code = k.code ∧ len = lenPkgHeader + k.bodyLen := by
  constructor
  · intro h
    simp only [answerable, List.mem_cons, Prod.mk.injEq, List.not_mem_nil, or_false] at h
    rcases h with ⟨rfl, rfl⟩ | ⟨rfl, rfl⟩ | ⟨rfl, rfl⟩
    exacts [⟨.handleHeartbeat, rfl, rfl⟩, ⟨.handleRegister, rfl, rfl⟩, ⟨.handleLogin, rfl, rfl⟩]
  · rintro ⟨k, rfl, rfl⟩
    cases k <;> decide

/-- The buffer holds a reply to the request in `b`: it goes to the same use of the same connection
under the same code, has the length it announces, and is one packet for the framing, which passes
the checks of `RecvMsgHandleProc` wherever it is received with a current stamp. -/
structure AgreesWith (s : Server) (b : BufId) (reply : MsgBuffer) : Prop where
  header : reply.header = s.recvHeader b
  code : msgCode reply.pkg = msgCode (s.recvPkg b)
  length : pkgLength reply.pkg = reply.pkg.length
  parsed : ∀ c u out, Delivery c u reply.pkg out → out = [reply.pkg]
  accepted : ∀ (u : Server) b', u.recvPkg b' = reply.pkg →
    (u.conn (u.recvHeader b').pConn).currSequence = (u.recvHeader b').currSequence →
    ¬ u.Rejected b'

/-- In whatever way the run goes on, the push of `r` within the limits appends it to the list,
unchanged, and frees nothing. -/
def QueuedOnce (s : Server) (r : BufId) : Prop :=
  ∀ es u j now v, (System.ofNext (· = s) Enabled next).Run es u → u.stage j = some (.reply r) →
    u.WithinLimits r → u.next (.push j now) = some v →
    v.sendQueue.sendMsgList = u.sendQueue.sendMsgList ++ [r] ∧
      v.sendQueue.mem.buffer r = s.sendQueue.mem.buffer r ∧
      v.sendQueue.mem.released = u.sendQueue.mem.released ∧ v.stage j = some .handled

theorem queuedOnce (hr : r < s.sendQueue.mem.next) : s.QueuedOnce r := by
  intro es u j now v hrun hstage hlimits h
  have hkeep := (run_keepsMail hrun).trans (step_keepsMail h)
  obtain ⟨-, hno⟩ | ⟨b, x, hb, hx, rfl⟩ := workerPush_cases h
  · exact absurd hstage (hno r)
  · obtain rfl : r = b := by simpa using hstage.symm.trans hb
    obtain ⟨w, hw, -⟩ := Option.map_eq_some_iff.mp hstage
    obtain ⟨size, discard, mem, n, rfl, -, -, hfree, hnone⟩ := push_cases hx
    have hbase : u.pushBase r now = u := by
      simp [pushBase, backlogged, hlimits.2]
    refine ⟨rfl, hkeep.buffer r hr, ?_, stage_setStage (w := w) ?_⟩
    · rw [hnone hlimits] at hfree
      exact hfree
    · rw [hbase]
      exact hw

theorem Answered.agreesWith (hans : Answered k (s.recvHeader b) now s t)
    (hk : msgCode (s.recvPkg b) = k.code) :
    s.AgreesWith b (t.sendQueue.mem.buffer s.sendQueue.mem.next) := by
  have hlen := length_staleBody s.sendQueue.mem.stale s.sendQueue.mem.next k.bodyLen
  rw [hans.buffer]
  exact {
    header := rfl
    code := (msgCode_reply k _).trans hk.symm
    length := by rw [pkgLength_reply, length_reply, hlen]
    parsed := fun c u out h => by rw [← h.parsed.2.frames_eq, frames_reply k hlen]
    accepted := fun u b' hpkg hseq => reply_not_rejected hlen hpkg hseq }

/-- A packet that the framing has given out and that passes the checks is answered exactly if it
is a heartbeat, a register or a login request of the right length. The reply is queued once and
agrees with the request, and a heartbeat alone sets the time of the last heartbeat. -/
theorem reply_agrees {w : Worker} {stream : List Byte} (now : ℤ) (hw : s.workers[i]? = some w)
    (hframe : s.recvPkg w.pJobBuf ∈ packetFormat.frames stream) (hok : ¬ s.Rejected w.pJobBuf) :
    ∃ t, s.next (.handle i now) = some t ∧
      t.sendQueue.sendMsgList = s.sendQueue.sendMsgList ∧
      (if (msgCode (s.recvPkg w.pJobBuf), (s.recvPkg w.pJobBuf).length) ∈ answerable then
        ∃ r, t.stage i = some (.reply r) ∧ t.QueuedOnce r ∧
          s.AgreesWith w.pJobBuf (t.sendQueue.mem.buffer r)
      else t.stage i = some .handled ∧ t.sendQueue = s.sendQueue) ∧
      ∀ c, (t.conn c).lastHeartBeatTime =
        if (msgCode (s.recvPkg w.pJobBuf), (s.recvPkg w.pJobBuf).length) = (0, 8) ∧
          c = (s.recvHeader w.pJobBuf).pConn then now
        else (s.conn c).lastHeartBeatTime := by
  obtain ⟨hsize, hheader⟩ := wellFormed_of_mem_frames hframe
  obtain ⟨k, hk⟩ := code_of_not_rejected hok
  have hbody : u16 (pkgLength (s.recvPkg w.pJobBuf) - lenPkgHeader) = k.bodyLen ↔
      (s.recvPkg w.pJobBuf).length = lenPkgHeader + k.bodyLen := by
    rw [← hsize, u16_of_lt (by have := pkgLength_lt (s.recvPkg w.pJobBuf); omega)]
    omega
  have hmem : (msgCode (s.recvPkg w.pJobBuf), (s.recvPkg w.pJobBuf).length) ∈ answerable ↔
      (s.recvPkg w.pJobBuf).length = lenPkgHeader + k.bodyLen := by
    rw [mem_answerable_iff]
    refine ⟨?_, fun h => ⟨k, hk, h⟩⟩
    rintro ⟨k', hk', h⟩
    obtain rfl : k' = k := LogicHandler.code_inj (hk'.symm.trans hk)
    exact h
  have hheartbeat : (msgCode (s.recvPkg w.pJobBuf), (s.recvPkg w.pJobBuf).length) = (0, 8) ↔
      k = .handleHeartbeat ∧ (s.recvPkg w.pJobBuf).length = lenPkgHeader + k.bodyLen := by
    rw [Prod.mk.injEq, hk]
    constructor
    · rintro ⟨hcode, hlen⟩
      obtain rfl : k = .handleHeartbeat := LogicHandler.code_inj hcode
      exact ⟨rfl, hlen⟩
    · rintro ⟨rfl, hlen⟩
      exact ⟨rfl, hlen⟩
  have hans := handle_answer now hw hok hk
  simp only [hbody] at hans
  simp only [hmem, hheartbeat]
  split_ifs at hans ⊢ with hlen
  · obtain ⟨t, ht, hstage, hans⟩ := hans
    refine ⟨t, ht, (sameList_step rfl ht).list, ⟨_, hstage, queuedOnce ?_, hans.agreesWith hk⟩,
      fun c => ?_⟩
    · rw [hans.next]
      exact Nat.lt_succ_self _
    · simp only [hans.heartbeat, hlen, and_true]
  · obtain ⟨t, ht, hstage, hq, hconn⟩ := hans
    exact ⟨t, ht, (sameList_step rfl ht).list, ⟨hstage, hq⟩, fun c => by simp [hconn, hlen]⟩

/-- The login request of a client. -/
theorem reply_agrees_login : ∃ s t r, process.Run loginTaken s ∧ s.next (.handle 0 0) = some t ∧
    t.stage 0 = some (.reply r) ∧ t.QueuedOnce r ∧
    s.AgreesWith 0 (t.sendQueue.mem.buffer r) := by
  have hlogin : loginPkg = LogicHandler.handleLogin.reply (List.replicate sizeofLogin 0) := by
    decide +kernel
  obtain ⟨s, hrun, hs⟩ := process_run_of_play (fun _ _ => True) smallConfig loginTaken
    (fun s => (s.workers[0]?, s.recvPkg 0, (s.next (.handle 0 0)).isSome))
    (some ⟨0, .taken⟩, loginPkg, true) (by decide +kernel)
  obtain ⟨hw, hs⟩ := Prod.mk.inj hs
  obtain ⟨hpkg, hsome⟩ := Prod.mk.inj hs
  have hframe : s.recvPkg 0 ∈ packetFormat.frames loginPkg := by
    rw [hpkg, hlogin, frames_reply .handleLogin (by simp [LogicHandler.bodyLen])]
    exact List.mem_singleton_self _
  have hok : ¬ s.Rejected 0 := by
    intro hrej
    have hnone : s.next (.handle 0 0) = none := workerHandle_eq_none_iff.mpr ⟨_, hw, hrej⟩
    rw [hnone] at hsome
    cases hsome
  obtain ⟨t, ht, -, hreply, -⟩ := reply_agrees 0 hw hframe hok
  rw [if_pos (by rw [hpkg]; decide)] at hreply
  obtain ⟨r, hstage, hqueued, hagrees⟩ := hreply
  exact ⟨s, t, r, hrun.of_restrict, ht, hstage, hqueued, hagrees⟩

end Server
end XiaoHGServer
