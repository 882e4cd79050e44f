import XiaoHGServer.Model.Send

/-!
# The epoll thread and the heartbeat monitor

The accept handler, the loop of `EpolWaitlProcessEvents` over the events of one
`epoll_wait`, and the loop body of `HeartBeatMonitorThread`.
-/

namespace XiaoHGServer

/-- What `accept4` or `accept` returns: a descriptor, `ENOSYS`, or another error. -/
inductive AcceptRet
  | accepted (fd : ℕ)
  | nosys
  | error
  deriving DecidableEq, Repr

/-- What the kernel answers in one call of a handler, and what the clocks show in it:
`time(NULL)` and `gettimeofday` in milliseconds. -/
structure HandlerEnv where
  now : ℤ
  currTime : ℕ
  recv : RecvRet
  send : SendEnv
  accept : List AcceptRet
  setNonBlocking : Bool
  epollCtl : Bool
  deriving DecidableEq, Repr

def intToU32 (z : ℤ) : ℕ := (z % 2 ^ 32).toNat

namespace Server

def tooManyUsers (s : Server) : Bool :=
  s.config.epollCreateConnectCount ≤ intToU32 s.pool.onLineUserCount

/-- The second admission test: a large pool with few idle connections. -/
def poolExhausted (s : Server) : Bool :=
  u32 (s.config.epollCreateConnectCount * 5) < s.pool.connectionList.length ∧
    s.pool.freeConnectionList.length < s.config.epollCreateConnectCount

/-- The accept handler gives connection `c` its callbacks and registers it. -/
def installClient (s : Server) (c : ConnId) : Server :=
  (s.modifyConn c fun k => { k with epoll := { k.epoll with
    pcbReadHandler := some .epollEventReadRequestHandler
    pcbWriteHandler := some .epollEventWriteRequestHandler } }).epollRegisterEvent c .add
      (epollIn ||| epollRdhup) .add

/-- `if(m_IsHBTimeOutCheckEnable == 1) AddToTimerList(pNewConn)`. -/
def startTimer (s : Server) (c : ConnId) (now : ℤ) : Server :=
  if s.config.isHBTimeOutCheckEnable = 1 then
    { s with
      timer := s.timer.addToTimerList s.config.waitTime now ⟨c, (s.conn c).currSequence⟩ }
  else s

/-- `++m_OnLineUserCount`: the client is online. -/
def goOnLine (s : Server) (c : ConnId) : Server :=
  { s with pool := { s.pool with
    onLineUserCount := s.pool.onLineUserCount + 1
    clients := c :: s.pool.clients } }

/-- `EpollEventAcceptHandler` from the point where it has a descriptor. -/
def acceptClient (s : Server) (fd : ℕ) (env : HandlerEnv) : Option Server :=
  let s := { s with kernel := { s.kernel with openFds := fd :: s.kernel.openFds } }
  if s.tooManyUsers then some (s.closeFd none fd)
  else if s.poolExhausted then some (s.closeFd none fd)
  else
    let c := s.pool.front
    let s := s.getConnection fd env.now
    if ¬ s.iIsAccept4 ∧ ¬ env.setNonBlocking then none
    else
      let s := s.installClient c
      if ¬ env.epollCtl then none else some ((s.startTimer c env.now).goOnLine c)

/-- The `do` loop of `EpollEventAcceptHandler`: a missing `accept4` is replaced by
`accept` once. -/
def acceptLoop (s : Server) (env : HandlerEnv) : List AcceptRet → Option Server
  | [] => some s
  | .accepted fd :: _ => s.acceptClient fd env
  | .nosys :: rets =>
    if s.iIsAccept4 then acceptLoop { s with iIsAccept4 := false } env rets else some s
  | .error :: _ => some s

def epollEventAcceptHandler (s : Server) (env : HandlerEnv) : Option Server :=
  s.acceptLoop env env.accept

/-- `(this->*handler)(pConn)`. A null member pointer crashes the process. -/
def callHandler (s : Server) (handler : Option Handler) (c : ConnId) (env : HandlerEnv) :
    Option Server :=
  match handler with
  | none => none
  | some .epollEventAcceptHandler => s.epollEventAcceptHandler env
  | some .epollEventReadRequestHandler =>
    some (s.epollEventReadRequestHandler c env.recv env.now env.currTime)
  | some .epollEventWriteRequestHandler => s.epollEventWriteRequestHandler c env.send

def has (uiRevents flags : BitVec 32) : Bool := uiRevents &&& flags ≠ 0

def processIn (s : Server) (c : ConnId) (uiRevents : BitVec 32) (env : HandlerEnv) :
    Option Server :=
  if has uiRevents epollIn then s.callHandler (s.conn c).epoll.pcbReadHandler c env else some s

def processOut (s : Server) (c : ConnId) (uiRevents : BitVec 32) (env : HandlerEnv) :
    Option Server :=
  if has uiRevents epollOut then
    if has uiRevents (epollErr ||| epollHup ||| epollRdhup) then
      some (s.addThrowSendMsgCount c (-1))
    else s.callHandler (s.conn c).epoll.pcbReadHandler c env
  else some s

end Server

/-- An element of `m_Events`, with the environment of its two handler calls. -/
structure EpollEvent where
  pConn : ConnId
  events : BitVec 32
  envIn : HandlerEnv
  envOut : HandlerEnv
  deriving DecidableEq, Repr

namespace Server

/-- The loop body of `EpolWaitlProcessEvents`. -/
def processEvent (s : Server) (ev : EpollEvent) : Option Server :=
  (s.processIn ev.pConn ev.events ev.envIn).bind fun s =>
    s.processOut ev.pConn ev.events ev.envOut

/-- `EpolWaitlProcessEvents`, from the return of `epoll_wait` with these events. -/
def epolWaitlProcessEvents (s : Server) : List EpollEvent → Option Server
  | [] => some s
  | ev :: events => (s.processEvent ev).bind fun s => s.epolWaitlProcessEvents events

/-- The connection is to be kicked by `HeartBeatTimeOutCheck` for this header. -/
def kicks (s : Server) (h : MsgHeader) (now : ℤ) : Bool :=
  h.currSequence = (s.conn h.pConn).currSequence ∧
    (s.config.isTimeOutKick = 1 ∨
      now - (s.conn h.pConn).lastHeartBeatTime > s.config.waitTime * 3 + 10)

def heartBeatTimeOutCheck (s : Server) (b : BufId) (now : ℤ) : Server :=
  let h := (s.timer.mem.buffer b).header
  let s := if h.currSequence = (s.conn h.pConn).currSequence then
      if s.config.isTimeOutKick = 1 then s.closeConnectionToRecy h.pConn now
      else if now - (s.conn h.pConn).lastHeartBeatTime > s.config.waitTime * 3 + 10 then
        s.closeConnectionToRecy h.pConn now
      else s
    else s
  { s with timer := { s.timer with mem := s.timer.mem.freeMemory (some b) } }

/-- One turn of the `while` loop of `HeartBeatMonitorThread`; `none` when the loop ends. -/
def heartBeatMonitorIter (s : Server) (now : ℤ) : Option Server :=
  match s.timer.getOverTimeTimer s.config now with
  | (_, none) => none
  | (q, some b) => some ({ s with timer := q }.heartBeatTimeOutCheck b now)

end Server
end XiaoHGServer
