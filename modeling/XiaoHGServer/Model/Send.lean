import XiaoHGServer.Model.Receive

/-!
# Sending packets

`PushSendMsgToSendListAndSem`, the iterations of `SendMsgThread` and the write
handler. A function that may call `exit(0)` returns `none` there.
-/

namespace XiaoHGServer

def epollIn : BitVec 32 := 0x001
def epollOut : BitVec 32 := 0x004
def epollErr : BitVec 32 := 0x008
def epollHup : BitVec 32 := 0x010
def epollRdhup : BitVec 32 := 0x2000

inductive EpollCtl
  | add
  | mod
  deriving DecidableEq, Repr

inductive EpollAction
  | add
  | del
  | over
  deriving DecidableEq, Repr

/-- What the kernel answers while a message is being sent: `intr` interrupted calls of
`send`, then `ret`, and whether `epoll_ctl` succeeds. -/
structure SendEnv where
  intr : ℕ
  ret : SendRet
  epollCtl : Bool
  deriving DecidableEq, Repr

namespace Server

/-- The mask `EpollRegisterEvent` records in the connection and hands to `epoll_ctl`. -/
def eventMask (events : BitVec 32) (ctl : EpollCtl) (uiFlag : BitVec 32) (action : EpollAction) :
    BitVec 32 :=
  match ctl, action with
  | .add, _ => uiFlag
  | .mod, .add => events ||| uiFlag
  | .mod, .del => events &&& ~~~uiFlag
  | .mod, .over => uiFlag

/-- `EpollRegisterEvent`, up to the result of `epoll_ctl`. -/
def epollRegisterEvent (s : Server) (c : ConnId) (ctl : EpollCtl) (uiFlag : BitVec 32)
    (action : EpollAction) : Server :=
  s.modifyConn c fun k => { k with epoll := { k.epoll with
    epollEvents := eventMask k.epoll.epollEvents ctl uiFlag action } }

/-- `sem_post(&g_SendMsgPushEventSem)`, whose failure ends the process. -/
def semPost (s : Server) : Option Server :=
  if s.sendQueue.sendMsgPushEventSem = semValueMax then none
  else some { s with sendQueue := { s.sendQueue with
    sendMsgPushEventSem := s.sendQueue.sendMsgPushEventSem + 1 } }

def freeSendMsg (s : Server) (p : Option BufId) : Server :=
  { s with sendQueue := { s.sendQueue with mem := s.sendQueue.mem.freeMemory p } }

def discardSendMsg (s : Server) (b : BufId) : Server :=
  { s with sendQueue := { s.sendQueue with
    discardSendPkgCount := u32 (s.sendQueue.discardSendPkgCount + 1)
    mem := s.sendQueue.mem.freeMemory (some b) } }

/-- `m_SendMsgList.push_back(b)` with its two counters. -/
def appendSendMsg (s : Server) (b : BufId) (c : ConnId) : Server :=
  { s with sendQueue := { s.sendQueue with
    sendMsgList := s.sendQueue.sendMsgList ++ [b]
    sendMsgListSize := u32 (s.sendQueue.sendMsgListSize + 1) } }.modifyConn c fun k =>
      { k with sendMsgListCount := k.sendMsgListCount + 1 }

def sendHeader (s : Server) (b : BufId) : MsgHeader := (s.sendQueue.mem.buffer b).header

/-- `PushSendMsgToSendListAndSem`, a critical section of `m_SendMsgListMutex`. -/
def pushSendMsgToSendListAndSem (s : Server) (b : BufId) (now : ℤ) : Option Server :=
  let s := if s.sendQueue.sendMsgListSize > maxSendQueueCount then s.discardSendMsg b else s
  let c := (s.sendHeader b).pConn
  let s := if (s.conn c).sendMsgListCount > maxEachConnSendCount then
      (s.discardSendMsg b).closeConnectionToRecy c now
    else s
  (s.appendSendMsg b c).semPost

/-- The return value of `SendMsgProc` for the last answer of `send`. -/
def sendResult : SendRet → ℤ
  | .accepted n => n
  | .zero => 0
  | .again => -1
  | .error => -2

def sendBytes (s : Server) (p : SendPtr) (len : ℕ) : List Byte :=
  ((s.sendQueue.mem.buffer p.buf).pkg.drop p.off).take len

/-- The calls of `send` that `SendMsgProc` issues, newest first. -/
def sendCalls (c : ConnId) (fd : ℕ) (data : List Byte) (env : SendEnv) : List SysCall :=
  .send c fd data (some env.ret) :: List.replicate env.intr (.send c fd data none)

/-- `SendMsgProc(pConn, pConn->pSendMsgBuff, pConn->sendMsgLen)`, which tries again while
`send` is interrupted; it returns `sendResult env.ret`. -/
def sendMsgProc (s : Server) (c : ConnId) (env : SendEnv) : Server :=
  let k := s.conn c
  { s with kernel := { s.kernel with
    calls := sendCalls c k.sockFd (s.sendBytes k.send.pSendMsgBuff k.send.sendMsgLen) env ++
      s.kernel.calls } }

def advanceSend (s : Server) (c : ConnId) (n : ℕ) : Server :=
  s.modifyConn c fun k => { k with send := { k.send with
    pSendMsgBuff := ⟨k.send.pSendMsgBuff.buf, k.send.pSendMsgBuff.off + n⟩
    sendMsgLen := sub16 k.send.sendMsgLen n } }

def addThrowSendMsgCount (s : Server) (c : ConnId) (d : ℤ) : Server :=
  s.modifyConn c fun k =>
    { k with send := { k.send with throwSendMsgCount := k.send.throwSendMsgCount + d } }

/-- The rest of a message is left to the epoll events. -/
def suspendSend (s : Server) (c : ConnId) (env : SendEnv) : Option Server :=
  let s := (s.addThrowSendMsgCount c 1).epollRegisterEvent c .mod epollOut .add
  if env.epollCtl then some s else none

def epollEventWriteRequestHandler (s : Server) (c : ConnId) (env : SendEnv) : Option Server :=
  let k := (s.conn c).send
  let s := s.sendMsgProc c env
  let sent := sendResult env.ret
  if sent > 0 ∧ sent ≠ k.sendMsgLen then some (s.advanceSend c sent.toNat)
  else if sent = -1 then some s
  else if sent > 0 ∧ sent = k.sendMsgLen then
    let s := s.epollRegisterEvent c .mod epollOut .del
    if env.epollCtl then
      ((s.freeSendMsg k.pSendMsgMemPointer).addThrowSendMsgCount c (-1)).semPost
    else none
  else s.semPost

def eraseSendMsg (s : Server) (pos : ℕ) : Server :=
  { s with sendQueue := { s.sendQueue with
    sendMsgList := s.sendQueue.sendMsgList.eraseIdx pos
    sendMsgListSize := sub32 s.sendQueue.sendMsgListSize 1 } }

/-- `SendMsgThread` takes the message at its iterator for connection `c`. -/
def takeSendMsg (s : Server) (pos : ℕ) (b : BufId) (c : ConnId) : Server :=
  let len := u16 (pkgLength (s.sendQueue.mem.buffer b).pkg)
  (s.eraseSendMsg pos).modifyConn c fun k =>
    { k with
      sendMsgListCount := k.sendMsgListCount - 1
      send := { k.send with
        pSendMsgMemPointer := some b
        pSendMsgBuff := ⟨b, 0⟩
        sendMsgLen := len } }

/-- What `SendMsgThread` does with the message it has taken. -/
def startSend (s : Server) (c : ConnId) (env : SendEnv) : Option Server :=
  let k := (s.conn c).send
  let s := s.sendMsgProc c env
  let sent := sendResult env.ret
  if sent > 0 then
    if sent = k.sendMsgLen then some (s.freeSendMsg k.pSendMsgMemPointer)
    else (s.advanceSend c sent.toNat).suspendSend c env
  else if sent = 0 then some (s.freeSendMsg k.pSendMsgMemPointer)
  else if sent = -1 then s.suspendSend c env
  else some (s.freeSendMsg k.pSendMsgMemPointer)

/-- One iteration of the loop of `SendMsgThread` with the iterator at `pos`; at `posEnd` the
thread unlocks and goes back to `sem_wait`. -/
def sendMsgThreadIter (s : Server) (pos : ℕ) (env : SendEnv) : Option Server :=
  match s.sendQueue.sendMsgList[pos]? with
  | none => some { s with sender := .semWait }
  | some b =>
    let h := s.sendHeader b
    if (s.conn h.pConn).currSequence ≠ h.currSequence then
      some ((s.eraseSendMsg pos).freeSendMsg (some b))
    else if (s.conn h.pConn).send.throwSendMsgCount > 0 then
      some { s with sender := .pass (pos + 1) }
    else (s.takeSendMsg pos b h.pConn).startSend h.pConn env

/-- `if(m_SendMsgListSize > 0)` and the lock of `m_SendMsgListMutex` after it. -/
def sendMsgThreadSizeTest (s : Server) : Server :=
  { s with sender := if s.sendQueue.sendMsgListSize > 0 then .pass 0 else .semWait }

variable {s : Server} {pos : ℕ} {b : BufId} {c d : ConnId}

theorem takeSendMsg_send : ((s.takeSendMsg pos b c).conn c).send = { (s.conn c).send with
    pSendMsgMemPointer := some b
    pSendMsgBuff := ⟨b, 0⟩
    sendMsgLen := u16 (pkgLength (s.sendQueue.mem.buffer b).pkg) } := by
  simp [takeSendMsg, eraseSendMsg]

theorem takeSendMsg_conn_ne (hd : d ≠ c) : (s.takeSendMsg pos b c).conn d = s.conn d := by
  simp [takeSendMsg, eraseSendMsg, hd]

theorem takeSendMsg_field {β : Type*} (g : Connection → β)
    (hg : ∀ k n w, g { k with sendMsgListCount := n, send := w } = g k) (d : ConnId) :
    g ((s.takeSendMsg pos b c).conn d) = g (s.conn d) :=
  update_field g (hg _ _ _) d

end Server
end XiaoHGServer
