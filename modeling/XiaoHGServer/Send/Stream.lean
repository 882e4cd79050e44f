import XiaoHGServer.Library.Backlog
import XiaoHGServer.Send.Moves

/-!
# The outgoing stream of a connection

Packets are pushed for many connections; `SendMsgThread` passes over the list and
the write handler continues suspended messages, without the mutex of the list.
What `send` has taken from a connection, the rest of its suspended message and
its packets in the list are together what was pushed for it, in every run in which
the write handler completes no message behind the back of a running pass.
-/

namespace XiaoHGServer

/-- A packet is pushed under a message header, or the sender thread or the write handler runs. -/
inductive StreamEvent
  | push (h : MsgHeader) (pkg : List Byte) (now : ℤ)
  | run (e : Event)

/-- The events of the sender thread and of the write handler, with neither 0 nor a hard error
returned by `send`. -/
def Event.sends : Event → Bool
  | .semWait => true
  | .semIntr => true
  | .sizeTest => true
  | .iterate env => env.ret ≠ .zero ∧ env.ret ≠ .error
  | .write _ env => env.ret ≠ .zero ∧ env.ret ≠ .error
  | _ => false

/-- The bytes that a call of `send` took from connection `c`. -/
def SysCall.taken (c : ConnId) : SysCall → List Byte
  | .send d _ data (some (.accepted n)) => if d = c then data.take n else []
  | _ => []

/-- The bytes that `send` has taken from connection `c`, in their order. -/
def sentBytes (c : ConnId) (calls : List SysCall) : List Byte :=
  calls.reverse.flatMap (SysCall.taken c)

theorem sentBytes_append (c : ConnId) (new calls : List SysCall) :
    sentBytes c (new ++ calls) = sentBytes c calls ++ sentBytes c new := by
  simp [sentBytes]

namespace Server

variable {s t : Server} {c d : ConnId} {b : BufId} {e : Event} {pushed : List (List Byte)}

instance (pkg : List Byte) : Decidable (WellFormed pkg) := inferInstanceAs (Decidable (_ ∧ _))

def newSendMsg (s : Server) (h : MsgHeader) (pkg : List Byte) : Server :=
  { s with sendQueue := { s.sendQueue with
    mem := (s.sendQueue.mem.allocMemory pkg.length).modify s.sendQueue.mem.next
      fun _ => ⟨h, pkg⟩ } }

/-- No message of the connection is queued or suspended, and the history is empty. -/
structure StreamStart (c : ConnId) (s : Server) : Prop where
  list : s.sendQueue.sendMsgList = []
  sender : s.sender = .semWait
  flag : (s.conn c).send.throwSendMsgCount = 0
  mask : ¬ s.Armed c
  calls : s.kernel.calls = []

/-- A push needs the mutex of the list and stays within both limits. -/
def StreamEnabled (s : Server) : StreamEvent → Prop
  | .push h pkg _ =>
    WellFormed pkg ∧ (s.newSendMsg h pkg).WithinLimits s.sendQueue.mem.next ∧
      (match s.sender with | .pass _ => False | _ => True)
  | .run e => e.sends = true ∧ s.Enabled e

def streamNext (s : Server) : StreamEvent → Option Server
  | .push h pkg now => (s.newSendMsg h pkg).pushSendMsgToSendListAndSem s.sendQueue.mem.next now
  | .run e => s.next e

/-- The buffer is a message of the connection in its present use. -/
def Belongs (s : Server) (c : ConnId) (b : BufId) : Prop :=
  s.sendHeader b = ⟨c, (s.conn c).currSequence⟩

instance (s : Server) (c : ConnId) (b : BufId) : Decidable (s.Belongs c b) :=
  inferInstanceAs (Decidable (_ = _))

def pushes (c : ConnId) (s : Server) : StreamEvent → List (List Byte)
  | .push h pkg _ => if h = ⟨c, (s.conn c).currSequence⟩ then [pkg] else []
  | _ => []

/-- The running pass has stepped over a packet of the connection. -/
def Skipped (s : Server) (c : ConnId) : Prop :=
  match s.sender with
  | .pass pos => ∃ b ∈ s.sendQueue.sendMsgList.take pos, s.Belongs c b
  | _ => False

/-- The write handler does not complete the message of the connection while the running pass has
stepped over a packet of it. -/
def NoOvertake (c : ConnId) (s : Server) : StreamEvent → Prop
  | .run (.write d env) =>
    d = c → env.ret = .accepted (s.conn c).send.sendMsgLen → ¬ s.Skipped c
  | _ => True

/-- What `send` took is a prefix of what was pushed; a pass leaves packets of the connection in the
list only if its message is suspended; and with nothing left, all of it was sent. -/
structure StreamIntact (c : ConnId) (s : Server) (pushed : List (List Byte)) : Prop where
  order : sentBytes c s.kernel.calls <+: pushed.reverse.flatten
  pass : ∀ pos, s.sender = .pass pos → s.sendQueue.sendMsgList.length ≤ pos →
    (∃ b ∈ s.sendQueue.sendMsgList, s.Belongs c b) → 0 < (s.conn c).send.throwSendMsgCount
  whole : (∀ b ∈ s.sendQueue.sendMsgList, ¬ s.Belongs c b) →
    (s.conn c).send.throwSendMsgCount = 0 → sentBytes c s.kernel.calls = pushed.reverse.flatten

end Server

/-- The pushes, the sender thread and the write handler, during one use of connection `c`. -/
def sending (c : ConnId) : System Server StreamEvent :=
  .ofNext (Server.StreamStart c) Server.StreamEnabled Server.streamNext

namespace Server

variable {s t : Server} {c d : ConnId} {b : BufId} {e : Event} {pushed : List (List Byte)}

def sendPkg (s : Server) (b : BufId) : List Byte := (s.sendQueue.mem.buffer b).pkg

def rest (s : Server) (c : ConnId) : List Byte :=
  if (s.conn c).send.throwSendMsgCount = 1 then
    s.sendBytes (s.conn c).send.pSendMsgBuff (s.conn c).send.sendMsgLen
  else []

def content (s : Server) (c : ConnId) (b : BufId) : List Byte :=
  if s.Belongs c b then s.sendPkg b else []

/-- The window of a suspended message ends where its packet ends. -/
structure SendWindow (s : Server) (k : SendState) : Prop where
  buf : k.pSendMsgBuff.buf < s.sendQueue.mem.next
  pos : 1 ≤ k.sendMsgLen
  len : k.pSendMsgBuff.off + k.sendMsgLen = (s.sendPkg k.pSendMsgBuff.buf).length
  short : k.sendMsgLen < 2 ^ 16

structure StreamInv (c : ConnId) (s : Server) (pushed : List (List Byte)) : Prop where
  alloc : ∀ b ∈ s.sendQueue.sendMsgList, b < s.sendQueue.mem.next ∧ WellFormed (s.sendPkg b)
  flag : (s.conn c).send.throwSendMsgCount = 0 ∨ (s.conn c).send.throwSendMsgCount = 1
  armed : s.Armed c ↔ (s.conn c).send.throwSendMsgCount = 1
  window : (s.conn c).send.throwSendMsgCount = 1 → s.SendWindow (s.conn c).send
  skipped : s.Skipped c → (s.conn c).send.throwSendMsgCount = 1
  bytes : Backlog (s.content c) pushed.reverse.flatten (sentBytes c s.kernel.calls) (s.rest c)
    s.sendQueue.sendMsgList

theorem StreamInv.intact (h : StreamInv c s pushed) : StreamIntact c s pushed where
  order := h.bytes.isPrefix
  pass pos hpos hend hleft := by
    obtain ⟨b, hb, hbelongs⟩ := hleft
    have hskip : s.Skipped c := by
      simp only [Skipped, hpos]
      exact ⟨b, by rwa [List.take_of_length_le hend], hbelongs⟩
    rw [h.skipped hskip]
    norm_num
  whole hnone hflag := by
    have hrest : s.rest c = [] := by simp [rest, hflag]
    exact (hrest ▸ h.bytes).whole fun b hb => by simp [content, hnone b hb]

theorem sentBytes_sendCalls (fd : ℕ) (data : List Byte) (env : SendEnv) :
    sentBytes c (sendCalls d fd data env) =
      SysCall.taken c (.send d fd data (some env.ret)) := by
  have hintr : (List.replicate env.intr (SysCall.send d fd data none)).flatMap
      (SysCall.taken c) = [] := by
    refine List.flatMap_eq_nil_iff.mpr fun call hcall => ?_
    rw [List.eq_of_mem_replicate hcall]
    rfl
  simp [sentBytes, sendCalls, hintr]

theorem sentBytes_sentKernel (env : SendEnv) : sentBytes c (s.sentKernel d env).calls =
    sentBytes c s.kernel.calls ++ SysCall.taken c (.send d (s.conn d).sockFd
      (s.sendBytes (s.conn d).send.pSendMsgBuff (s.conn d).send.sendMsgLen) (some env.ret)) := by
  rw [← sentBytes_sendCalls, ← sentBytes_append]
  rfl

theorem sentBytes_accepted {env : SendEnv} {n : ℕ} (h : env.ret = .accepted n) :
    sentBytes c (s.sentKernel c env).calls = sentBytes c s.kernel.calls ++
      (s.sendBytes (s.conn c).send.pSendMsgBuff (s.conn c).send.sendMsgLen).take n := by
  rw [sentBytes_sentKernel, h]
  simp only [SysCall.taken, if_pos]

theorem sentBytes_again {env : SendEnv} (h : env.ret = .again) :
    sentBytes c (s.sentKernel c env).calls = sentBytes c s.kernel.calls := by
  rw [sentBytes_sentKernel, h]
  simp only [SysCall.taken, List.append_nil]

theorem sentBytes_other (env : SendEnv) (hd : d ≠ c) :
    sentBytes c (s.sentKernel d env).calls = sentBytes c s.kernel.calls := by
  have hnone (ret : SendRet) (fd : ℕ) (data : List Byte) :
      SysCall.taken c (.send d fd data (some ret)) = [] := by
    cases ret <;> simp [SysCall.taken, hd]
  rw [sentBytes_sentKernel, hnone, List.append_nil]

/-- Buffers and the serial number of the connection are the same in both states. -/
structure SameMail (c : ConnId) (s t : Server) : Prop where
  next : t.sendQueue.mem.next = s.sendQueue.mem.next
  buffer : t.sendQueue.mem.buffer = s.sendQueue.mem.buffer
  seq : (t.conn c).currSequence = (s.conn c).currSequence

namespace SameMail

theorem belongs (h : SameMail c s t) : t.Belongs c b ↔ s.Belongs c b := by
  rw [Belongs, Belongs, sendHeader, sendHeader, h.buffer, h.seq]

theorem sendPkg (h : SameMail c s t) : t.sendPkg b = s.sendPkg b := by
  rw [Server.sendPkg, Server.sendPkg, h.buffer]

theorem content (h : SameMail c s t) : t.content c b = s.content c b := by
  simp only [Server.content, h.belongs, h.sendPkg]

theorem window (h : SameMail c s t) {k : SendState} (hw : s.SendWindow k) : t.SendWindow k where
  buf := by rw [h.next]; exact hw.buf
  pos := hw.pos
  len := by rw [h.sendPkg]; exact hw.len
  short := hw.short

theorem rest (h : SameMail c s t) (hsend : (t.conn c).send = (s.conn c).send) :
    t.rest c = s.rest c := by
  simp only [Server.rest, hsend, sendBytes, h.buffer]

theorem skipped (h : SameMail c s t) (hsender : t.sender = s.sender)
    (hlist : t.sendQueue.sendMsgList = s.sendQueue.sendMsgList) : t.Skipped c ↔ s.Skipped c := by
  simp only [Skipped, hsender, hlist, h.belongs]

end SameMail

theorem StreamInv.frame (h : StreamInv c s pushed) (hm : SameMail c s t)
    (hsend : (t.conn c).send = (s.conn c).send) (hepoll : (t.conn c).epoll = (s.conn c).epoll)
    (hcalls : sentBytes c t.kernel.calls = sentBytes c s.kernel.calls)
    (hsub : t.sendQueue.sendMsgList ⊆ s.sendQueue.sendMsgList)
    (hskip : t.Skipped c → (s.conn c).send.throwSendMsgCount = 1)
    (hbytes : Backlog (s.content c) pushed.reverse.flatten (sentBytes c s.kernel.calls)
      (s.rest c) t.sendQueue.sendMsgList) : StreamInv c t pushed where
  alloc b hb := by
    rw [hm.next, hm.sendPkg]
    exact h.alloc b (hsub hb)
  flag := by
    rw [hsend]
    exact h.flag
  armed := by
    rw [Armed, hepoll, hsend]
    exact h.armed
  window hflag := by
    rw [hsend] at hflag ⊢
    exact hm.window (h.window hflag)
  skipped hs := by
    rw [hsend]
    exact hskip hs
  bytes := by
    rw [hcalls, hm.rest hsend]
    exact hbytes.congr fun b _ => hm.content

theorem skipped_eraseIdx {pos : ℕ} (hm : SameMail c s t) (hsender : s.sender = .pass pos)
    (hsender' : t.sender = .pass pos)
    (hlist : t.sendQueue.sendMsgList = s.sendQueue.sendMsgList.eraseIdx pos) :
    t.Skipped c ↔ s.Skipped c := by
  have htake : (s.sendQueue.sendMsgList.eraseIdx pos).take pos =
      s.sendQueue.sendMsgList.take pos := by
    rw [List.take_eraseIdx_eq_take_of_le _ _ _ (Nat.le_refl pos)]
  simp only [Skipped, hsender, hsender', hlist, htake, hm.belongs]

theorem newSendMsg_buffer {h : MsgHeader} {pkg : List Byte} (hb : b ≠ s.sendQueue.mem.next) :
    (s.newSendMsg h pkg).sendQueue.mem.buffer b = s.sendQueue.mem.buffer b := by
  rw [newSendMsg, Heap.modify_buffer_ne _ _ hb, Heap.allocMemory_buffer_ne _ _ hb]

theorem push_within {now : ℤ} (hw : s.WithinLimits b)
    (h : s.pushSendMsgToSendListAndSem b now = some t) :
    t.sendQueue.sendMsgList = s.sendQueue.sendMsgList ++ [b] ∧
      t.sendQueue.mem.next = s.sendQueue.mem.next ∧
      t.sendQueue.mem.buffer = s.sendQueue.mem.buffer ∧ t.kernel = s.kernel ∧
      t.sender = s.sender ∧ ∀ d, (t.conn d).send = (s.conn d).send ∧
        (t.conn d).epoll = (s.conn d).epoll ∧
        (t.conn d).currSequence = (s.conn d).currSequence := by
  obtain ⟨size, discard, mem, k, rfl, hnext, hbuf, -, -⟩ := push_cases h
  have hbase : s.pushBase b now = s := by
    have hback : s.backlogged b = false := by
      simpa [backlogged] using hw.2
    simp [pushBase, hback]
  rw [hbase]
  exact ⟨rfl, hnext, hbuf, rfl, rfl, fun d => ⟨update_field Connection.send (by rfl) d,
    update_field Connection.epoll (by rfl) d, update_field Connection.currSequence (by rfl) d⟩⟩

theorem StreamInv.push_step {h : MsgHeader} {pkg : List Byte} {now : ℤ}
    (hs : StreamInv c s pushed) (he : s.StreamEnabled (.push h pkg now))
    (ht : s.streamNext (.push h pkg now) = some t) :
    StreamInv c t (pushes c s (.push h pkg now) ++ pushed) := by
  obtain ⟨hpkg, hwithin, hsender⟩ := he
  obtain ⟨hlist, hnext, hbuf, hkernel, hsame, hconn⟩ := push_within hwithin ht
  have hsend : (t.conn c).send = (s.conn c).send := (hconn c).1
  have hepoll : (t.conn c).epoll = (s.conn c).epoll := (hconn c).2.1
  have hseq : (t.conn c).currSequence = (s.conn c).currSequence := (hconn c).2.2
  have hnew : t.sendQueue.mem.buffer s.sendQueue.mem.next = ⟨h, pkg⟩ := by
    rw [hbuf]
    simp [newSendMsg]
  have hold {b : BufId} (hb : b < s.sendQueue.mem.next) :
      t.sendQueue.mem.buffer b = s.sendQueue.mem.buffer b := by
    rw [hbuf, newSendMsg_buffer (Nat.ne_of_lt hb)]
  have hlt {b : BufId} (hb : b < s.sendQueue.mem.next) : b < t.sendQueue.mem.next := by
    rw [hnext]
    exact Nat.lt_succ_of_lt hb
  have hcontent (b : BufId) (hb : b ∈ s.sendQueue.sendMsgList) :
      t.content c b = s.content c b := by
    have hbelongs : t.Belongs c b ↔ s.Belongs c b := by
      rw [Belongs, Belongs, sendHeader, sendHeader, hold (hs.alloc b hb).1, hseq]
    simp only [content, hbelongs, sendPkg, hold (hs.alloc b hb).1]
  have hcontentNew : t.content c s.sendQueue.mem.next =
      if h = ⟨c, (s.conn c).currSequence⟩ then pkg else [] := by
    have hbelongs : t.Belongs c s.sendQueue.mem.next ↔ h = ⟨c, (s.conn c).currSequence⟩ := by
      rw [Belongs, sendHeader, hnew, hseq]
    simp only [content, hbelongs, sendPkg, hnew]
  have hrest : t.rest c = s.rest c := by
    unfold rest
    rw [hsend]
    split
    · rename_i hflag
      rw [sendBytes, sendBytes, hold (hs.window hflag).buf]
    · rfl
  have htotal : (pushes c s (.push h pkg now) ++ pushed).reverse.flatten =
      pushed.reverse.flatten ++ t.content c s.sendQueue.mem.next := by
    rw [hcontentNew, pushes]
    split <;> simp
  refine ⟨fun b hb => ?_, ?_, ?_, fun hflag => ?_, fun hskip => ?_, ?_⟩
  · rw [hlist] at hb
    rcases List.mem_append.mp hb with hb | hb
    · have hb := hs.alloc b hb
      rw [sendPkg, hold hb.1]
      exact ⟨hlt hb.1, hb.2⟩
    · rw [List.mem_singleton.mp hb, sendPkg, hnew, hnext]
      exact ⟨Nat.lt_succ_self _, hpkg⟩
  · rw [hsend]
    exact hs.flag
  · rw [Armed, hepoll, hsend]
    exact hs.armed
  · rw [hsend] at hflag ⊢
    have hw := hs.window hflag
    refine ⟨hlt hw.buf, hw.pos, ?_, hw.short⟩
    rw [hw.len, sendPkg, sendPkg, hold hw.buf]
  · have hsender' : t.sender = s.sender := hsame
    unfold Skipped at hskip
    rw [hsender'] at hskip
    split at hskip
    · rename_i pos hpos
      simp [hpos] at hsender
    · exact hskip.elim
  · rw [hlist, htotal, hkernel, hrest]
    exact (hs.bytes.congr hcontent).push

theorem StreamInv.suspended (hs : StreamInv c s pushed) (hm : SameMail c s t)
    (hsub : t.sendQueue.sendMsgList ⊆ s.sendQueue.sendMsgList)
    (hflag : (t.conn c).send.throwSendMsgCount = 1) (harmed : t.Armed c)
    (hwin : s.SendWindow (t.conn c).send)
    (hbytes : Backlog (s.content c) pushed.reverse.flatten (sentBytes c t.kernel.calls)
      (s.sendBytes (t.conn c).send.pSendMsgBuff (t.conn c).send.sendMsgLen)
      t.sendQueue.sendMsgList) : StreamInv c t pushed where
  alloc b hb := by
    rw [hm.next, hm.sendPkg]
    exact hs.alloc b (hsub hb)
  flag := Or.inr hflag
  armed := iff_of_true harmed hflag
  window _ := hm.window hwin
  skipped _ := hflag
  bytes := by
    have hrest : t.rest c =
        s.sendBytes (t.conn c).send.pSendMsgBuff (t.conn c).send.sendMsgLen := by
      rw [rest, if_pos hflag, sendBytes, sendBytes, hm.buffer]
    rw [hrest]
    exact hbytes.congr fun b _ => hm.content

theorem StreamInv.suspend_step {w : SendState} {k : Kernel} (hs : StreamInv c s pushed)
    (hm : SameMail c s t) (hsub : t.sendQueue.sendMsgList ⊆ s.sendQueue.sendMsgList)
    (hflag : (t.conn c).send.throwSendMsgCount = 0) (hwin : s.SendWindow w)
    (hbytes : Backlog (s.content c) pushed.reverse.flatten (sentBytes c k.calls)
      (s.sendBytes w.pSendMsgBuff w.sendMsgLen) t.sendQueue.sendMsgList) :
    StreamInv c { t with
      kernel := k
      conn := Function.update t.conn c ((t.conn c).suspend w) } pushed := by
  have hself : Function.update t.conn c ((t.conn c).suspend w) c = (t.conn c).suspend w :=
    Function.update_self ..
  refine hs.suspended ⟨hm.next, hm.buffer, ?_⟩ hsub ?_ ?_ ?_ ?_
  all_goals dsimp only [Armed]
  all_goals rw [hself]
  · exact hm.seq
  · simp [Connection.suspend, hflag]
  · exact has_armed _
  · exact ⟨hwin.buf, hwin.pos, hwin.len, hwin.short⟩
  · exact hbytes

theorem StreamInv.idle (hs : StreamInv c s pushed) (hm : SameMail c s t)
    (hsub : t.sendQueue.sendMsgList ⊆ s.sendQueue.sendMsgList)
    (hflag : (t.conn c).send.throwSendMsgCount = 0) (hmask : ¬ t.Armed c)
    (hskip : ¬ t.Skipped c)
    (hbytes : Backlog (s.content c) pushed.reverse.flatten (sentBytes c t.kernel.calls) []
      t.sendQueue.sendMsgList) : StreamInv c t pushed where
  alloc b hb := by
    rw [hm.next, hm.sendPkg]
    exact hs.alloc b (hsub hb)
  flag := Or.inl hflag
  armed := iff_of_false hmask (by omega)
  window h := by omega
  skipped h := absurd h hskip
  bytes := by
    have hrest : t.rest c = [] := by simp [rest, hflag]
    rw [hrest]
    exact hbytes.congr fun b _ => hm.content

theorem SendWindow.advance {k : SendState} {n : ℕ} (hw : s.SendWindow k) (hn : n ≤ k.sendMsgLen)
    (hne : n ≠ k.sendMsgLen) : s.SendWindow (k.advance n) ∧
      s.sendBytes (k.advance n).pSendMsgBuff (k.advance n).sendMsgLen =
        (s.sendBytes k.pSendMsgBuff k.sendMsgLen).drop n := by
  have hlen := hw.len
  have hshort := hw.short
  have hsub : sub16 k.sendMsgLen n = k.sendMsgLen - n := sub16_of_le hshort hn
  refine ⟨⟨hw.buf, ?_, ?_, ?_⟩, ?_⟩
  · simp only [SendState.advance, hsub]
    omega
  · simp only [SendState.advance, hsub]
    omega
  · simp only [SendState.advance, hsub]
    omega
  · simp only [SendState.advance, hsub, sendBytes, List.drop_take, List.drop_drop]

/-- The window over a message that was just taken from the list is its whole packet. -/
theorem StreamInv.taken_window {pos : ℕ} (hs : StreamInv c s pushed)
    (hb : s.sendQueue.sendMsgList[pos]? = some b) :
    ((s.takeSendMsg pos b c).conn c).send.sendMsgLen = (s.sendPkg b).length ∧
      s.SendWindow ((s.takeSendMsg pos b c).conn c).send ∧
      s.sendBytes ((s.takeSendMsg pos b c).conn c).send.pSendMsgBuff
        ((s.takeSendMsg pos b c).conn c).send.sendMsgLen = s.sendPkg b := by
  obtain ⟨hlt, hlen, hmin⟩ := hs.alloc b (List.mem_of_getElem? hb)
  have hshort : (s.sendPkg b).length < 2 ^ 16 := by
    rw [hlen]
    exact pkgLength_lt _
  have hu16 : u16 (pkgLength (s.sendQueue.mem.buffer b).pkg) = (s.sendPkg b).length := by
    rw [hlen]
    exact Nat.mod_eq_of_lt (pkgLength_lt _)
  rw [takeSendMsg_send, hu16]
  refine ⟨rfl, ⟨hlt, ?_, Nat.zero_add _, hshort⟩, ?_⟩
  · have : lenPkgHeader = 8 := rfl
    dsimp only
    omega
  · rw [sendBytes, List.drop_zero]
    exact List.take_length

/-- The first message in the list of a connection with none suspended is next in its stream. -/
theorem StreamInv.taken_bytes {pos : ℕ} (hs : StreamInv c s pushed) (hskip : ¬ s.Skipped c)
    (hsender : s.sender = .pass pos) (hb : s.sendQueue.sendMsgList[pos]? = some b)
    (hbelongs : s.Belongs c b) (hflag : (s.conn c).send.throwSendMsgCount = 0) :
    Backlog (s.content c) pushed.reverse.flatten (sentBytes c s.kernel.calls) (s.sendPkg b)
      (s.sendQueue.sendMsgList.eraseIdx pos) := by
  have hfirst : ∀ a ∈ s.sendQueue.sendMsgList.take pos, s.content c a = [] := by
    intro a ha
    have hno : ¬ s.Belongs c a := fun hbel =>
      hskip (by simp only [Skipped, hsender]; exact ⟨a, ha, hbel⟩)
    exact if_neg hno
  have hrest : s.rest c = [] := by simp [rest, hflag]
  have hstart := (hrest ▸ hs.bytes).start hb hfirst
  rwa [show s.content c b = s.sendPkg b from if_pos hbelongs] at hstart

theorem StreamInv.start_step {pos : ℕ} {env : SendEnv} (hs : StreamInv c s pushed)
    (hsender : s.sender = .pass pos) (hb : s.sendQueue.sendMsgList[pos]? = some b)
    (hbelongs : s.Belongs c b) (hflag : (s.conn c).send.throwSendMsgCount ≤ 0)
    (hlegal : env.ret.Legal s c (u16 (pkgLength (s.sendPkg b))))
    (hsends : env.ret ≠ .zero ∧ env.ret ≠ .error)
    (ht : (s.takeSendMsg pos b c).startSend c env = some t) : StreamInv c t pushed := by
  have hzero : (s.conn c).send.throwSendMsgCount = 0 := by
    have := hs.flag
    omega
  have hskip : ¬ s.Skipped c := fun h => by
    have := hs.skipped h
    omega
  have hmask : ¬ s.Armed c := fun h => by
    have := hs.armed.mp h
    omega
  obtain ⟨hlen, hwin, hdata⟩ := hs.taken_window hb
  have hstart := hs.taken_bytes hskip hsender hb hbelongs hzero
  -- the state with the message taken from the list, and its whole packet before the window
  set u := s.takeSendMsg pos b c with hu
  have hthrow : (u.conn c).send.throwSendMsgCount = 0 := by
    rw [hu, takeSendMsg_send]
    exact hzero
  have hepoll : (u.conn c).epoll = (s.conn c).epoll :=
    takeSendMsg_field Connection.epoll (fun _ _ _ => rfl) c
  have hseq : (u.conn c).currSequence = (s.conn c).currSequence :=
    takeSendMsg_field Connection.currSequence (fun _ _ _ => rfl) c
  have hmail : SameMail c s u := ⟨rfl, rfl, hseq⟩
  have hlegal : env.ret.Legal s c (u.conn c).send.sendMsgLen := by
    rw [hu, takeSendMsg_send]
    exact hlegal
  have hsub : u.sendQueue.sendMsgList ⊆ s.sendQueue.sendMsgList :=
    List.eraseIdx_subset ..
  rcases startSend_cases ht with ⟨hends, rfl⟩ | ⟨n, hret, hpos, hn, rfl⟩ | ⟨hret, rfl⟩
  · have hret : env.ret = .accepted (u.conn c).send.sendMsgLen := by
      rcases hends with h | h | h | h
      · exact h
      · rw [h] at hlegal
        exact absurd hlegal.1 (by norm_num)
      · exact absurd h hsends.1
      · exact absurd h hsends.2
    have hm : SameMail c s { u with
        kernel := u.sentKernel c env
        sendQueue := { u.sendQueue with
          mem := u.sendQueue.mem.freeMemory (u.conn c).send.pSendMsgMemPointer } } :=
      ⟨Heap.freeMemory_next _ _, Heap.freeMemory_buffer _ _, hseq⟩
    refine hs.idle hm hsub hthrow (by rw [Armed, hepoll]; exact hmask) ?_ ?_
    · rw [skipped_eraseIdx hm hsender hsender rfl]
      exact hskip
    · have hall := hstart.send (u.conn c).send.sendMsgLen
      rw [hlen, List.drop_length, ← hlen, ← hdata] at hall
      exact (sentBytes_accepted hret).symm ▸ hall
  · have hle : n ≤ (u.conn c).send.sendMsgLen := by
      rw [hret] at hlegal
      exact hlegal.2.1
    obtain ⟨hwin', hrest'⟩ := hwin.advance hle hn
    refine hs.suspend_step hmail hsub hthrow hwin' ?_
    have hpart := hstart.send n
    rw [← hdata, ← hrest'] at hpart
    exact (sentBytes_accepted hret).symm ▸ hpart
  · refine hs.suspend_step hmail hsub hthrow hwin ?_
    rw [← hdata] at hstart
    exact (sentBytes_again hret).symm ▸ hstart

theorem StreamInv.write_step {env : SendEnv} (hs : StreamInv c s pushed) (harmed : s.Armed c)
    (hlegal : env.ret.Legal s c (s.conn c).send.sendMsgLen)
    (hsends : env.ret ≠ .zero ∧ env.ret ≠ .error)
    (hovertake : env.ret = .accepted (s.conn c).send.sendMsgLen → ¬ s.Skipped c)
    (ht : s.epollEventWriteRequestHandler c env = some t) : StreamInv c t pushed := by
  have hflag : (s.conn c).send.throwSendMsgCount = 1 := hs.armed.mp harmed
  have hwin := hs.window hflag
  have hrest : s.rest c =
      s.sendBytes (s.conn c).send.pSendMsgBuff (s.conn c).send.sendMsgLen := by
    rw [rest, if_pos hflag]
  rcases write_cases ht with ⟨n, hret, -, hn, rfl⟩ | ⟨hret, rfl⟩ | ⟨n, hret, -, hn, rfl⟩ |
    ⟨hret, rfl⟩
  · have hle : n ≤ (s.conn c).send.sendMsgLen := by
      rw [hret] at hlegal
      exact hlegal.2.1
    obtain ⟨hwin', hrest'⟩ := hwin.advance hle hn
    have hpart := hs.bytes.send n
    rw [hrest, ← sentBytes_accepted hret, ← hrest'] at hpart
    have hself : Function.update s.conn c { s.conn c with send := (s.conn c).send.advance n } c =
        { s.conn c with send := (s.conn c).send.advance n } := Function.update_self ..
    refine hs.suspended ⟨rfl, rfl, ?_⟩ (List.Subset.refl _) ?_ ?_ ?_ ?_
    all_goals dsimp only [Armed]
    all_goals rw [hself]
    · exact hflag
    · exact harmed
    · exact hwin'
    · exact hpart
  · exact hs.frame ⟨rfl, rfl, rfl⟩ rfl rfl (sentBytes_again hret) (List.Subset.refl _) hs.skipped
      hs.bytes
  · have hall := hs.bytes.send n
    have hdrop : (s.rest c).drop n = [] := by
      rw [hrest, sendBytes, hn]
      simp
    rw [hdrop, hrest, ← sentBytes_accepted hret] at hall
    have hm : SameMail c s { s with
        kernel := s.sentKernel c env
        conn := Function.update s.conn c (s.conn c).complete
        sendQueue := { s.sendQueue with
          mem := s.sendQueue.mem.freeMemory (s.conn c).send.pSendMsgMemPointer
          sendMsgPushEventSem := s.sendQueue.sendMsgPushEventSem + 1 } } :=
      ⟨Heap.freeMemory_next _ _, Heap.freeMemory_buffer _ _, by simp [Connection.complete]⟩
    refine hs.idle hm (List.Subset.refl _) ?_ ?_ ?_ hall
    · simp [Connection.complete, hflag]
    · simp [Armed, Connection.complete, has_disarmed]
    · rw [hm.skipped rfl rfl]
      exact hovertake (by rw [hret, hn])
  · exfalso
    rcases hret with hret | hret | hret
    · rw [hret] at hlegal
      exact absurd hlegal.1 (by norm_num)
    · exact hsends.1 hret
    · exact hsends.2 hret

theorem not_belongs_of_ne (h : (s.sendHeader b).pConn ≠ c) : ¬ s.Belongs c b := by
  intro hb
  rw [Belongs] at hb
  exact h (by rw [hb])

theorem StreamInv.start_other {pos : ℕ} {env : SendEnv} (hs : StreamInv c s pushed)
    (hsender : s.sender = .pass pos) (hb : s.sendQueue.sendMsgList[pos]? = some b) (hd : d ≠ c)
    (hbelongs : ¬ s.Belongs c b)
    (ht : (s.takeSendMsg pos b d).startSend d env = some t) : StreamInv c t pushed := by
  set u := s.takeSendMsg pos b d with hu
  have htake : u.conn c = s.conn c := takeSendMsg_conn_ne hd.symm
  have hsame : t.conn c = s.conn c ∧ t.sendQueue.mem.next = s.sendQueue.mem.next ∧
      t.sendQueue.mem.buffer = s.sendQueue.mem.buffer ∧ t.sender = .pass pos ∧
      t.sendQueue.sendMsgList = s.sendQueue.sendMsgList.eraseIdx pos ∧
      t.kernel = u.sentKernel d env := by
    rcases startSend_cases ht with ⟨-, rfl⟩ | ⟨n, -, -, -, rfl⟩ | ⟨-, rfl⟩
    · exact ⟨htake, Heap.freeMemory_next _ _, Heap.freeMemory_buffer _ _, hsender, rfl, rfl⟩
    · exact ⟨(Function.update_of_ne hd.symm _ _).trans htake, rfl, rfl, hsender, rfl, rfl⟩
    · exact ⟨(Function.update_of_ne hd.symm _ _).trans htake, rfl, rfl, hsender, rfl, rfl⟩
  obtain ⟨hconn, hnext, hbuf, hsender', hlist, hkernel⟩ := hsame
  have hm : SameMail c s t := ⟨hnext, hbuf, by rw [hconn]⟩
  refine hs.frame hm (by rw [hconn]) (by rw [hconn]) ?_ ?_ (fun h => ?_) ?_
  · rw [hkernel, sentBytes_other env hd]
    rfl
  · rw [hlist]
    exact List.eraseIdx_subset ..
  · exact hs.skipped ((skipped_eraseIdx hm hsender hsender' hlist).mp h)
  · rw [hlist]
    exact hs.bytes.drop hb (if_neg hbelongs)

theorem StreamInv.iterate_step {pos : ℕ} {env : SendEnv} (hs : StreamInv c s pushed)
    (hsender : s.sender = .pass pos) (hlegal : s.IterLegal pos env.ret)
    (hsends : env.ret ≠ .zero ∧ env.ret ≠ .error)
    (ht : s.sendMsgThreadIter pos env = some t) : StreamInv c t pushed := by
  rcases iterate_cases ht with ⟨-, rfl⟩ | ⟨b, hb, ⟨hne, rfl⟩ | ⟨-, hthrow, rfl⟩ |
    ⟨hseq, hthrow, hstart⟩⟩
  · exact hs.frame ⟨rfl, rfl, rfl⟩ rfl rfl rfl (List.Subset.refl _) (fun h => h.elim) hs.bytes
  · have hno : ¬ s.Belongs c b := by
      intro hbel
      rw [Belongs] at hbel
      exact hne (by rw [hbel])
    have hm : SameMail c s ((s.eraseSendMsg pos).freeSendMsg (some b)) := ⟨rfl, rfl, rfl⟩
    refine hs.frame hm rfl rfl rfl (List.eraseIdx_subset ..) (fun h => ?_)
      (hs.bytes.drop hb (if_neg hno))
    exact hs.skipped ((skipped_eraseIdx hm hsender hsender rfl).mp h)
  · refine hs.frame ⟨rfl, rfl, rfl⟩ rfl rfl rfl (List.Subset.refl _) (fun h => ?_) hs.bytes
    obtain ⟨a, ha, hbel⟩ := h
    rw [List.take_add_one, hb] at ha
    rcases List.mem_append.mp ha with ha | ha
    · exact hs.skipped (by simp only [Skipped, hsender]; exact ⟨a, ha, hbel⟩)
    · -- the packet that is stepped over is the connection's own
      have hab : a = b := by simpa using ha
      have hconn : (s.sendHeader b).pConn = c := by
        rw [← hab]
        exact congrArg MsgHeader.pConn hbel
      rw [hconn] at hthrow
      have := hs.flag
      omega
  · by_cases hd : (s.sendHeader b).pConn = c
    · subst hd
      have hbel : s.Belongs (s.sendHeader b).pConn b := by
        rw [Belongs, hseq]
      have hlegal' : env.ret.Legal s (s.sendHeader b).pConn (u16 (pkgLength (s.sendPkg b))) := by
        simpa [IterLegal, hb, sendPkg] using hlegal
      exact hs.start_step hsender hb hbel hthrow hlegal' hsends hstart
    · exact hs.start_other hsender hb hd (not_belongs_of_ne hd) hstart

theorem StreamInv.write_other {env : SendEnv} (hs : StreamInv c s pushed) (hd : d ≠ c)
    (ht : s.epollEventWriteRequestHandler d env = some t) : StreamInv c t pushed := by
  have hsame : t.conn c = s.conn c ∧ t.sendQueue.mem.next = s.sendQueue.mem.next ∧
      t.sendQueue.mem.buffer = s.sendQueue.mem.buffer ∧ t.sender = s.sender ∧
      t.sendQueue.sendMsgList = s.sendQueue.sendMsgList ∧ t.kernel = s.sentKernel d env := by
    rcases write_cases ht with ⟨n, -, -, -, rfl⟩ | ⟨-, rfl⟩ | ⟨n, -, -, -, rfl⟩ | ⟨-, rfl⟩
    · exact ⟨Function.update_of_ne hd.symm _ _, rfl, rfl, rfl, rfl, rfl⟩
    · exact ⟨rfl, rfl, rfl, rfl, rfl, rfl⟩
    · exact ⟨Function.update_of_ne hd.symm _ _, Heap.freeMemory_next _ _,
        Heap.freeMemory_buffer _ _, rfl, rfl, rfl⟩
    · exact ⟨rfl, rfl, rfl, rfl, rfl, rfl⟩
  obtain ⟨hconn, hnext, hbuf, hsender, hlist, hkernel⟩ := hsame
  have hm : SameMail c s t := ⟨hnext, hbuf, by rw [hconn]⟩
  refine hs.frame hm (by rw [hconn]) (by rw [hconn]) ?_ (by rw [hlist]; simp)
    (fun h => hs.skipped ((hm.skipped hsender hlist).mp h)) (by rw [hlist]; exact hs.bytes)
  rw [hkernel, sentBytes_other env hd]

theorem step_streamInv {e : StreamEvent} (hs : StreamInv c s pushed) (he : s.StreamEnabled e)
    (hk : NoOvertake c s e) (ht : s.streamNext e = some t) :
    StreamInv c t (pushes c s e ++ pushed) := by
  cases e with
  | push h pkg now => exact hs.push_step he ht
  | run e =>
    obtain ⟨hsends, he⟩ := he
    change StreamInv c t pushed
    change s.next e = some t at ht
    cases e with
    | semWait =>
      cases ht
      exact hs.frame ⟨rfl, rfl, rfl⟩ rfl rfl rfl (List.Subset.refl _) (fun h => h.elim) hs.bytes
    | semIntr =>
      cases ht
      exact hs.frame ⟨rfl, rfl, rfl⟩ rfl rfl rfl (List.Subset.refl _) (fun h => h.elim) hs.bytes
    | sizeTest =>
      cases ht
      refine hs.frame ⟨rfl, rfl, rfl⟩ rfl rfl rfl (List.Subset.refl _) (fun h => ?_) hs.bytes
      unfold sendMsgThreadSizeTest Skipped at h
      by_cases hsize : s.sendQueue.sendMsgListSize > 0
      · simp [hsize] at h
      · simp [hsize] at h
    | iterate env =>
      have hsends : env.ret ≠ .zero ∧ env.ret ≠ .error := by simpa [Event.sends] using hsends
      obtain rfl | ⟨pos, hsender, ht⟩ := iterate_pass ht
      · exact hs
      · have hlegal : s.IterLegal pos env.ret := by simpa [Enabled, hsender] using he
        exact hs.iterate_step hsender hlegal hsends ht
    | write d env =>
      have hsends : env.ret ≠ .zero ∧ env.ret ≠ .error := by simpa [Event.sends] using hsends
      by_cases hd : d = c
      · subst hd
        exact hs.write_step he.2.1 he.2.2 hsends (hk rfl) ht
      · exact hs.write_other hd ht
    | _ => cases hsends

theorem streamInv_start (h : StreamStart c s) : StreamInv c s [] := by
  refine ⟨fun b hb => ?_, Or.inl h.flag, ?_, fun hflag => ?_, fun hskip => ?_, ?_⟩
  · simp [h.list] at hb
  · exact iff_of_false h.mask (by rw [h.flag]; norm_num)
  · rw [h.flag] at hflag
    cases hflag
  · simp [Skipped, h.sender] at hskip
  · have hrest : s.rest c = [] := by simp [rest, h.flag]
    rw [hrest, h.list, h.calls]
    rfl

/-- The stream of a connection along a run in which no message is completed behind the back of a
running pass. -/
theorem stream_intact {es : List StreamEvent}
    (h : (((sending c).restrict (NoOvertake c)).record (pushes c)).Run es (s, pushed)) :
    StreamIntact c s pushed := by
  have hrec : ∀ es p, (((sending c).restrict (NoOvertake c)).record (pushes c)).Run es p →
      StreamInv c p.1 p.2 := by
    intro es p hrun
    induction hrun with
    | start hb =>
      rw [hb.2]
      exact streamInv_start hb.1
    | step _ hstep ih =>
      obtain ⟨⟨hk, he, ht⟩, hpushed⟩ := hstep
      rw [hpushed]
      exact step_streamInv ih he hk ht
  exact (hrec es (s, pushed) h).intact

instance : (s : Server) → (e : StreamEvent) → Decidable (s.StreamEnabled e)
  | ⟨_, _, _, _, _, _, _, .pass _, _, _⟩, .push _ _ _ => isFalse fun h => h.2.2
  | ⟨_, _, _, _, _, _, _, .semWait, _, _⟩, .push _ _ _
  | ⟨_, _, _, _, _, _, _, .sizeTest, _, _⟩, .push _ _ _ =>
    inferInstanceAs (Decidable (_ ∧ _ ∧ True))
  | _, .run _ => inferInstanceAs (Decidable (_ ∧ _))

instance (c : ConnId) : (s : Server) → Decidable (s.Skipped c)
  | ⟨_, _, _, _, _, _, _, .pass _, _, _⟩ => inferInstanceAs (Decidable (∃ _ ∈ _, _))
  | ⟨_, _, _, _, _, _, _, .semWait, _, _⟩ | ⟨_, _, _, _, _, _, _, .sizeTest, _, _⟩ => isFalse id

instance (c : ConnId) (s : Server) : (e : StreamEvent) → Decidable (NoOvertake c s e)
  | .run (.write _ _) => inferInstanceAs (Decidable (_ → _ → ¬ _))
  | .push _ _ _ | .run (.accept _) | .run (.read _ _) | .run (.outError _) | .run .take
  | .run (.handle _ _) | .run (.push _ _) | .run (.release _) | .run .semWait | .run .semIntr
  | .run .sizeTest | .run (.iterate _) | .run (.close _ _) | .run (.recycle _) | .run .clear
  | .run (.monitor _) => isTrue trivial

/-- A client on descriptor 4, with connection 1 and serial number 2. -/
def smallClient : Server := (smallBoot smallConfig).admitted 4 0

theorem streamStart_smallClient : StreamStart 1 smallClient := by
  constructor <;> decide

theorem sending_run_of_play {α : Type*} (allow : Server → StreamEvent → Prop)
    [∀ s e, Decidable (allow s e)] (es : List StreamEvent) (f : Server × List (List Byte) → α)
    (v : α)
    (h : (System.play (fun p e => allow p.1 e ∧ p.1.StreamEnabled e)
      (fun p e => (p.1.streamNext e).map fun s => (s, pushes 1 p.1 e ++ p.2)) es
      (smallClient, [])).map f = some v) :
    ∃ p, (((sending 1).restrict allow).record (pushes 1)).Run es p ∧ f p = v :=
  System.recorded_run_of_play streamStart_smallClient h

/-- Two packets, the first one in two parts. -/
theorem stream_intact_two_packets : ∃ s : Server,
    StreamIntact 1 s [[0, 8, 0, 0, 0, 0, 0, 2], [0, 8, 0, 0, 0, 0, 0, 1]] ∧
      sentBytes 1 s.kernel.calls = [0, 8, 0, 0, 0, 0, 0, 1] ++ [0, 8, 0, 0, 0, 0, 0, 2] := by
  obtain ⟨⟨s, pushed⟩, hrun, hs⟩ := sending_run_of_play (NoOvertake 1)
    [.push ⟨1, 2⟩ [0, 8, 0, 0, 0, 0, 0, 1] 0, .run .semWait, .run .sizeTest,
      .run (.iterate ⟨0, .accepted 3, true⟩), .run (.iterate ⟨0, .again, true⟩),
      .push ⟨1, 2⟩ [0, 8, 0, 0, 0, 0, 0, 2] 0, .run (.write 1 ⟨0, .accepted 5, true⟩),
      .run .semWait, .run .sizeTest, .run (.iterate ⟨0, .accepted 8, true⟩)]
    (fun p => (p.2, sentBytes 1 p.1.kernel.calls))
    ([[0, 8, 0, 0, 0, 0, 0, 2], [0, 8, 0, 0, 0, 0, 0, 1]],
      [0, 8, 0, 0, 0, 0, 0, 1] ++ [0, 8, 0, 0, 0, 0, 0, 2]) (by decide)
  obtain ⟨rfl, hsent⟩ := Prod.mk.inj hs
  exact ⟨s, stream_intact hrun, hsent⟩

/-- A pass steps over the second packet, the write handler completes the first one, and the pass
sends the third packet before the second. -/
theorem stream_overtaken : ¬ ∀ c es s pushed,
    ((sending c).record (pushes c)).Run es (s, pushed) → StreamIntact c s pushed := by
  intro hall
  obtain ⟨⟨s, pushed⟩, hrun, hs⟩ := sending_run_of_play (fun _ _ => True)
    [.push ⟨1, 2⟩ [0, 8, 0, 0, 0, 0, 0, 1] 0, .run .semWait, .run .sizeTest,
      .run (.iterate ⟨0, .accepted 3, true⟩), .run (.iterate ⟨0, .again, true⟩),
      .push ⟨1, 2⟩ [0, 8, 0, 0, 0, 0, 0, 2] 0, .push ⟨1, 2⟩ [0, 8, 0, 0, 0, 0, 0, 3] 0,
      .run .semWait, .run .sizeTest, .run (.iterate ⟨0, .again, true⟩),
      .run (.write 1 ⟨0, .accepted 5, true⟩), .run (.iterate ⟨0, .accepted 8, true⟩)]
    (fun p => (p.2, sentBytes 1 p.1.kernel.calls))
    ([[0, 8, 0, 0, 0, 0, 0, 3], [0, 8, 0, 0, 0, 0, 0, 2], [0, 8, 0, 0, 0, 0, 0, 1]],
      [0, 8, 0, 0, 0, 0, 0, 1] ++ [0, 8, 0, 0, 0, 0, 0, 3]) (by decide +kernel)
  obtain ⟨rfl, hsent⟩ := Prod.mk.inj hs
  have horder := (hall 1 _ s _ hrun.of_restrict_record).order
  rw [show sentBytes 1 s.kernel.calls = _ from hsent] at horder
  revert horder
  decide

end Server
end XiaoHGServer
