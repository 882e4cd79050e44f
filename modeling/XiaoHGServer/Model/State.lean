import XiaoHGServer.Model.Memory

/-!
# The state of a worker process

The fields keep the source's names. A `stConnection` is grouped as its
declaration comments group it; `CSocket` and `CMessageCtl` are split by the part
of the work they serve. Three members are histories that no function reads:
`Heap.released`, `ConnectionPool.clients` and `Kernel.calls`.
-/

namespace XiaoHGServer

/-- The member functions an epoll callback may point to. -/
inductive Handler
  | epollEventAcceptHandler
  | epollEventReadRequestHandler
  | epollEventWriteRequestHandler
  deriving DecidableEq, Repr

inductive RecvStatus
  | pkgHdInit
  | pkgHdRecving
  | pkgBdInit
  | pkgBdRecving
  deriving DecidableEq, Repr

/-- `pRecvMsgBuff`: into `dataHeadInfo`, or into the packet of a message buffer. -/
inductive RecvPtr
  | dataHeadInfo (off : ℕ)
  | packet (b : BufId) (off : ℕ)
  deriving DecidableEq, Repr

/-- `pSendMsgBuff`: an offset into the packet of a message buffer. -/
structure SendPtr where
  buf : BufId
  off : ℕ
  deriving DecidableEq, Repr

structure RecvState where
  recvMsgCurStatus : RecvStatus
  dataHeadInfo : List Byte
  pRecvMsgBuff : RecvPtr
  recvMsgLen : ℕ
  pRecvMsgMemPointer : Option BufId

structure SendState where
  throwSendMsgCount : ℤ
  pSendMsgMemPointer : Option BufId
  pSendMsgBuff : SendPtr
  sendMsgLen : ℕ

structure EpollState where
  epollEvents : BitVec 32
  pcbReadHandler : Option Handler
  pcbWriteHandler : Option Handler

structure FloodState where
  floodAttackLastTime : ℕ
  floodAttackCount : ℤ

structure Connection where
  sockFd : ℕ
  epoll : EpollState
  recv : RecvState
  send : SendState
  putRecyConnQueueTime : ℤ
  lastHeartBeatTime : ℤ
  flood : FloodState
  sendMsgListCount : ℤ
  currSequence : ℕ

/-- A connection object as `AllocMemory(sizeof(CONNECTION_T), true)` and its
constructor leave it. -/
def newConnection : Connection where
  sockFd := 0
  epoll := ⟨0, none, none⟩
  recv := ⟨.pkgHdInit, List.replicate msgHeaderLen 0, .dataHeadInfo 0, 0, none⟩
  send := ⟨0, none, ⟨0, 0⟩, 0⟩
  putRecyConnQueueTime := 0
  lastHeartBeatTime := 0
  flood := ⟨0, 0⟩
  sendMsgListCount := 0
  currSequence := 0

/-- What `CSocket::Init` and `CThreadPool::Init` read from the configuration. -/
structure Config where
  epollCreateConnectCount : ℕ
  delayRecoveryConnectionWaitTime : ℤ
  isHBTimeOutCheckEnable : ℤ
  waitTime : ℤ
  isTimeOutKick : ℤ
  floodAttackEnable : ℤ
  floodTimeInterval : ℤ
  floodKickCount : ℤ
  procMsgRecvWorkThreadCount : ℕ
  deriving DecidableEq, Repr

structure ConnectionPool where
  connectionList : List ConnId
  freeConnectionList : List ConnId
  recyConnectionList : List ConnId
  totalConnectionCount : ℤ
  freeConnectionCount : ℤ
  delayRecoveryConnectionCount : ℤ
  onLineUserCount : ℤ
  /-- The connections of `m_ListenSocketList`. -/
  listenSocketList : List ConnId
  /-- The connections of accepted clients that have not been given to
  `CloseConnectionToRecy` since. -/
  clients : List ConnId
  deriving DecidableEq

structure TimerQueue where
  timerQueueMultiMap : List (ℤ × BufId)
  currentHeartBeatListSize : ℕ
  hbListEarliestTime : ℤ
  mem : Heap

structure RecvQueue where
  recvMsgList : List BufId
  recvMsgListSize : ℕ
  mem : Heap

structure SendQueue where
  sendMsgList : List BufId
  sendMsgListSize : ℕ
  discardSendPkgCount : ℕ
  /-- `g_SendMsgPushEventSem`. -/
  sendMsgPushEventSem : ℕ
  mem : Heap

inductive RecvRet
  | data (bytes : List Byte)
  | eof
  | again
  | intr
  | error
  deriving DecidableEq, Repr

/-- What `send` returns, except that it was interrupted. -/
inductive SendRet
  | accepted (n : ℕ)
  | zero
  | again
  | error
  deriving DecidableEq, Repr

/-- A system call on a socket. Each carries the connection it is issued through;
a descriptor that was rejected right after `accept` has none. The result of an
interrupted `send` is `none`. -/
inductive SysCall
  | recv (pConn : ConnId) (fd len : ℕ)
  | send (pConn : ConnId) (fd : ℕ) (data : List Byte) (ret : Option SendRet)
  | close (pConn : Option ConnId) (fd : ℕ)
  deriving DecidableEq, Repr

structure Kernel where
  /-- Descriptors returned by `accept` and not closed since. -/
  openFds : List ℕ
  /-- The system calls on sockets so far, newest first. -/
  calls : List SysCall

/-- How far a worker thread is with the message it took from the list. -/
inductive WorkerStage
  | taken
  | reply (b : BufId)
  | handled
  deriving DecidableEq, Repr

/-- A thread of the pool between its unlock of `m_pThreadMutex` and `FreeMemory(pJobBuf)`. -/
structure Worker where
  pJobBuf : BufId
  stage : WorkerStage
  deriving DecidableEq, Repr

/-- The place of the sender thread in `SendMsgThread`: in `sem_wait`, before the
size test, or in the pass over the list with its iterator at `pos`. -/
inductive SenderPc
  | semWait
  | sizeTest
  | pass (pos : ℕ)
  deriving DecidableEq, Repr

structure Server where
  config : Config
  conn : ConnId → Connection
  pool : ConnectionPool
  timer : TimerQueue
  recvQueue : RecvQueue
  sendQueue : SendQueue
  workers : List Worker
  sender : SenderPc
  kernel : Kernel
  iIsAccept4 : Bool

/-- A field that an assignment to connection `c` keeps is the same in every connection. -/
theorem update_field {β : Type*} (g : Connection → β) {f : ConnId → Connection} {c : ConnId}
    {k : Connection} (h : g k = g (f c)) (d : ConnId) : g (Function.update f c k d) = g (f d) := by
  by_cases hd : d = c
  · subst hd
    simpa using h
  · simp [hd]

namespace Server

def modifyConn (s : Server) (c : ConnId) (f : Connection → Connection) : Server :=
  { s with conn := Function.update s.conn c (f (s.conn c)) }

def logCall (s : Server) (call : SysCall) : Server :=
  { s with kernel := { s.kernel with calls := call :: s.kernel.calls } }

variable (s : Server) (c : ConnId) (f : Connection → Connection) (call : SysCall)

@[simp] theorem modifyConn_conn_self : (s.modifyConn c f).conn c = f (s.conn c) := by
  simp [modifyConn]

@[simp] theorem modifyConn_conn_ne {d : ConnId} (h : d ≠ c) :
    (s.modifyConn c f).conn d = s.conn d := by
  simp [modifyConn, h]

@[simp] theorem modifyConn_config : (s.modifyConn c f).config = s.config := rfl
@[simp] theorem modifyConn_pool : (s.modifyConn c f).pool = s.pool := rfl
@[simp] theorem modifyConn_timer : (s.modifyConn c f).timer = s.timer := rfl
@[simp] theorem modifyConn_recvQueue : (s.modifyConn c f).recvQueue = s.recvQueue := rfl
@[simp] theorem modifyConn_sendQueue : (s.modifyConn c f).sendQueue = s.sendQueue := rfl
@[simp] theorem modifyConn_workers : (s.modifyConn c f).workers = s.workers := rfl
@[simp] theorem modifyConn_sender : (s.modifyConn c f).sender = s.sender := rfl
@[simp] theorem modifyConn_kernel : (s.modifyConn c f).kernel = s.kernel := rfl

@[simp] theorem logCall_config : (s.logCall call).config = s.config := rfl
@[simp] theorem logCall_conn : (s.logCall call).conn = s.conn := rfl
@[simp] theorem logCall_pool : (s.logCall call).pool = s.pool := rfl
@[simp] theorem logCall_timer : (s.logCall call).timer = s.timer := rfl
@[simp] theorem logCall_recvQueue : (s.logCall call).recvQueue = s.recvQueue := rfl
@[simp] theorem logCall_sendQueue : (s.logCall call).sendQueue = s.sendQueue := rfl
@[simp] theorem logCall_workers : (s.logCall call).workers = s.workers := rfl
@[simp] theorem logCall_sender : (s.logCall call).sender = s.sender := rfl
@[simp] theorem logCall_calls : (s.logCall call).kernel.calls = call :: s.kernel.calls := rfl
@[simp] theorem logCall_openFds : (s.logCall call).kernel.openFds = s.kernel.openFds := rfl

end Server
end XiaoHGServer
