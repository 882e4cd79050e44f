import XiaoHGServer.Model.Timer

/-!
# The connection pool

`GetConnection`, `FreeConnection`, the delayed recycling queue and the closing of
a connection. `now` is what `time(NULL)` returns in the call.
-/

namespace XiaoHGServer

def Connection.getOneToUse (k : Connection) (now : ℤ) : Connection :=
  { k with
    currSequence := u64 (k.currSequence + 1)
    sockFd := closedFd
    recv := { k.recv with
      recvMsgCurStatus := .pkgHdInit
      pRecvMsgBuff := .dataHeadInfo 0
      recvMsgLen := lenPkgHeader
      pRecvMsgMemPointer := none }
    send := { k.send with throwSendMsgCount := 0, pSendMsgMemPointer := none }
    epoll := { k.epoll with epollEvents := 0 }
    lastHeartBeatTime := now
    flood := ⟨0, 0⟩
    sendMsgListCount := 0 }

/-- A connection after `CloseConnectionToRecy`; `queued` says that it was in the recycling
queue already. -/
def Connection.closed (k : Connection) (queued : Bool) (now : ℤ) : Connection :=
  { k with
    sockFd := closedFd
    send := { k.send with throwSendMsgCount := min k.send.throwSendMsgCount 0 }
    putRecyConnQueueTime := if queued then k.putRecyConnQueueTime else now
    currSequence := if queued then k.currSequence else u64 (k.currSequence + 1) }

namespace ConnectionPool

/-- The object `GetConnection` returns: the front of the free list, or a new one. -/
def front (p : ConnectionPool) : ConnId := p.freeConnectionList.headD p.connectionList.length

def getConnection (p : ConnectionPool) : ConnectionPool :=
  match p.freeConnectionList with
  | _ :: rest =>
    { p with freeConnectionList := rest, freeConnectionCount := p.freeConnectionCount - 1 }
  | [] =>
    { p with
      connectionList := p.connectionList ++ [p.connectionList.length]
      totalConnectionCount := p.totalConnectionCount + 1 }

def freeConnection (p : ConnectionPool) (c : ConnId) : ConnectionPool :=
  { p with
    freeConnectionList := p.freeConnectionList ++ [c]
    freeConnectionCount := p.freeConnectionCount + 1 }

def pushConnectToRecyQueue (p : ConnectionPool) (c : ConnId) : ConnectionPool :=
  if c ∈ p.recyConnectionList then p
  else
    { p with
      recyConnectionList := p.recyConnectionList ++ [c]
      delayRecoveryConnectionCount := p.delayRecoveryConnectionCount + 1
      onLineUserCount := p.onLineUserCount - 1 }

/-- The lists and counters after the recycler has taken `c` out of its queue. -/
def takeFromRecyQueue (p : ConnectionPool) (c : ConnId) : ConnectionPool :=
  { p with
    delayRecoveryConnectionCount := p.delayRecoveryConnectionCount - 1
    recyConnectionList := p.recyConnectionList.erase c }

end ConnectionPool

namespace Server

/-- `GetConnection(sockFd)`, which returns `s.pool.front`. -/
def getConnection (s : Server) (fd : ℕ) (now : ℤ) : Server :=
  let c := s.pool.front
  let k := if s.pool.freeConnectionList = [] then newConnection else s.conn c
  { s with
    pool := s.pool.getConnection
    conn := Function.update s.conn c { k.getOneToUse now with sockFd := u16 fd } }

def putOneToFree (s : Server) (c : ConnId) : Server :=
  let k := s.conn c
  let s := s.modifyConn c fun k => { k with currSequence := u64 (k.currSequence + 1) }
  { s with
    recvQueue := { s.recvQueue with mem := s.recvQueue.mem.freeMemory k.recv.pRecvMsgMemPointer }
    sendQueue := { s.sendQueue with mem := s.sendQueue.mem.freeMemory k.send.pSendMsgMemPointer } }

def freeConnection (s : Server) (c : ConnId) : Server :=
  let s := s.putOneToFree c
  { s with pool := s.pool.freeConnection c }

/-- `close(fd)`, issued through `c` where it is. -/
def closeFd (s : Server) (c : Option ConnId) (fd : ℕ) : Server :=
  { s with kernel := ⟨s.kernel.openFds.erase fd, .close c fd :: s.kernel.calls⟩ }

def pushConnectToRecyQueue (s : Server) (c : ConnId) (now : ℤ) : Server :=
  if c ∈ s.pool.recyConnectionList then s
  else
    let s := s.modifyConn c fun k =>
      { k with putRecyConnQueueTime := now, currSequence := u64 (k.currSequence + 1) }
    { s with pool := s.pool.pushConnectToRecyQueue c }

/-- The `sockFd` part of `CloseConnectionToRecy` and `CloseConnectionImmediately`. The
16-bit field is promoted to `int`, so that it never equals `-1`. -/
def closeSockFd (s : Server) (c : ConnId) : Server :=
  if ((s.conn c).sockFd : ℤ) ≠ -1 then
    (s.closeFd (some c) (s.conn c).sockFd).modifyConn c fun k => { k with sockFd := closedFd }
  else s

def resetThrowSendMsgCount (s : Server) (c : ConnId) : Server :=
  if (s.conn c).send.throwSendMsgCount > 0 then
    s.modifyConn c fun k => { k with send := { k.send with throwSendMsgCount := 0 } }
  else s

def closeConnectionToRecy (s : Server) (c : ConnId) (now : ℤ) : Server :=
  let s := if s.config.isHBTimeOutCheckEnable = 1 then
      { s with timer := s.timer.deleteFromTimerQueue c }
    else s
  let s := (s.closeSockFd c).resetThrowSendMsgCount c
  let s := s.pushConnectToRecyQueue c now
  { s with pool := { s.pool with clients := s.pool.clients.erase c } }

def closeConnectionImmediately (s : Server) (c : ConnId) : Server :=
  (s.freeConnection c).closeSockFd c

/-- The waiting time of `c` in the recycling queue is over. -/
def recoveryDue (s : Server) (now : ℤ) (c : ConnId) : Bool :=
  (s.conn c).putRecyConnQueueTime + s.config.delayRecoveryConnectionWaitTime ≤ now

/-- One connection recycled by `DelayRecoveryConnectionThread`: the scan from label
`lblRRTD` up to the first due connection. `none` when the scan reaches the end. -/
def lblRRTD (s : Server) (now : ℤ) : Option Server :=
  match s.pool.recyConnectionList.find? (s.recoveryDue now) with
  | none => none
  | some c =>
    let s := s.resetThrowSendMsgCount c
    some ({ s with pool := s.pool.takeFromRecyQueue c }.freeConnection c)

/-- One connection recycled by `ClearDelayRecoveryConnections`, from label `lblRRTD2`. -/
def lblRRTD2 (s : Server) : Option Server :=
  match s.pool.recyConnectionList with
  | [] => none
  | c :: _ => some ({ s with pool := s.pool.takeFromRecyQueue c }.freeConnection c)

/-- Start over at a label until the scan below it reaches the end. -/
def goto (scan : Server → Option Server) : ℕ → Server → Server
  | 0, s => s
  | fuel + 1, s =>
    match scan s with
    | none => s
    | some s => goto scan fuel s

variable {s t : Server} {c d : ConnId} {now : ℤ}

theorem closeSockFd_eq : s.closeSockFd c = (s.closeFd (some c) (s.conn c).sockFd).modifyConn c
    fun k => { k with sockFd := closedFd } := by
  unfold closeSockFd
  rw [if_pos]
  omega

theorem resetThrowSendMsgCount_eq : s.resetThrowSendMsgCount c = s.modifyConn c fun k =>
    { k with send := { k.send with throwSendMsgCount := min k.send.throwSendMsgCount 0 } } := by
  unfold resetThrowSendMsgCount
  split_ifs with h
  · simp only [modifyConn, min_eq_right h.le]
  · simp only [modifyConn, min_eq_left (not_lt.mp h)]
    rw [Function.update_eq_self]

theorem closeConnectionToRecy_eq : s.closeConnectionToRecy c now =
    { s with
      conn := Function.update s.conn c ((s.conn c).closed (c ∈ s.pool.recyConnectionList) now)
      pool := { s.pool.pushConnectToRecyQueue c with clients := s.pool.clients.erase c }
      timer := if s.config.isHBTimeOutCheckEnable = 1 then s.timer.deleteFromTimerQueue c
        else s.timer
      kernel := ⟨s.kernel.openFds.erase (s.conn c).sockFd,
        .close (some c) (s.conn c).sockFd :: s.kernel.calls⟩ } := by
  by_cases hb : s.config.isHBTimeOutCheckEnable = 1 <;>
    by_cases hq : c ∈ s.pool.recyConnectionList <;>
    simp [closeConnectionToRecy, closeSockFd_eq, resetThrowSendMsgCount_eq, hb, hq,
      pushConnectToRecyQueue, ConnectionPool.pushConnectToRecyQueue, modifyConn, closeFd,
      Connection.closed]

/-- The recycler's work on one connection, with the flag it leaves in it. -/
def recycled (s : Server) (c : ConnId) (throwSendMsgCount : ℤ) : Server :=
  { s with
    conn := Function.update s.conn c { s.conn c with
      currSequence := u64 ((s.conn c).currSequence + 1)
      send := { (s.conn c).send with throwSendMsgCount := throwSendMsgCount } }
    pool := (s.pool.takeFromRecyQueue c).freeConnection c
    recvQueue := { s.recvQueue with
      mem := s.recvQueue.mem.freeMemory (s.conn c).recv.pRecvMsgMemPointer }
    sendQueue := { s.sendQueue with
      mem := s.sendQueue.mem.freeMemory (s.conn c).send.pSendMsgMemPointer } }

theorem lblRRTD_eq_some (h : s.lblRRTD now = some t) :
    ∃ c, s.pool.recyConnectionList.find? (s.recoveryDue now) = some c ∧
      t = s.recycled c (min (s.conn c).send.throwSendMsgCount 0) := by
  unfold lblRRTD at h
  split at h
  · cases h
  · rename_i c hc
    obtain rfl := Option.some.inj h
    refine ⟨c, hc, ?_⟩
    simp [resetThrowSendMsgCount_eq, freeConnection, putOneToFree, modifyConn, recycled]

theorem lblRRTD2_eq_some (h : s.lblRRTD2 = some t) :
    ∃ c, s.pool.recyConnectionList.head? = some c ∧
      t = s.recycled c (s.conn c).send.throwSendMsgCount := by
  unfold lblRRTD2 at h
  split at h
  · cases h
  · rename_i c rest hrecy
    obtain rfl := Option.some.inj h
    refine ⟨c, by simp [hrecy], ?_⟩
    simp [freeConnection, putOneToFree, modifyConn, recycled]

def delayRecoveryConnectionPass (s : Server) (now : ℤ) : Server :=
  if s.pool.delayRecoveryConnectionCount > 0 then
    goto (fun s => s.lblRRTD now) s.pool.recyConnectionList.length s
  else s

def clearDelayRecoveryConnections (s : Server) : Server :=
  if s.pool.delayRecoveryConnectionCount > 0 then
    goto lblRRTD2 s.pool.recyConnectionList.length s
  else s

theorem goto_eq_none {scan : Server → Option Server} (size : Server → ℕ)
    (hsize : ∀ s t, scan s = some t → size t < size s) :
    ∀ (fuel : ℕ) (s : Server), size s ≤ fuel → scan (goto scan fuel s) = none
  | 0, s, h => by
    cases hs : scan s with
    | none => exact hs
    | some t => exact absurd (hsize s t hs) (by omega)
  | fuel + 1, s, h => by
    unfold goto
    cases hs : scan s with
    | none => exact hs
    | some t =>
      have := hsize s t hs
      exact goto_eq_none size hsize fuel t (by omega)

theorem length_recycled {n : ℤ} (hc : c ∈ s.pool.recyConnectionList) :
    (s.recycled c n).pool.recyConnectionList.length < s.pool.recyConnectionList.length := by
  have : s.pool.recyConnectionList.length ≠ 0 := by
    rw [Ne, List.length_eq_zero_iff]
    exact List.ne_nil_of_mem hc
  simp only [recycled, ConnectionPool.takeFromRecyQueue, ConnectionPool.freeConnection,
    List.length_erase_of_mem hc]
  omega

theorem recoveryDue_delayRecoveryConnectionPass (h : s.pool.delayRecoveryConnectionCount > 0)
    (hc : c ∈ (s.delayRecoveryConnectionPass now).pool.recyConnectionList) :
    (s.delayRecoveryConnectionPass now).recoveryDue now c = false := by
  have hend : (s.delayRecoveryConnectionPass now).lblRRTD now = none := by
    unfold delayRecoveryConnectionPass
    rw [if_pos h]
    have hsize (s t : Server) (hst : s.lblRRTD now = some t) :
        t.pool.recyConnectionList.length < s.pool.recyConnectionList.length := by
      obtain ⟨d, hd, rfl⟩ := lblRRTD_eq_some hst
      exact length_recycled (List.mem_of_find?_eq_some hd)
    exact goto_eq_none (fun s => s.pool.recyConnectionList.length) hsize _ s le_rfl
  unfold lblRRTD at hend
  split at hend
  · rename_i hnone
    simpa using List.find?_eq_none.mp hnone c hc
  · cases hend

theorem recyConnectionList_clear (h : s.pool.delayRecoveryConnectionCount > 0) :
    s.clearDelayRecoveryConnections.pool.recyConnectionList = [] := by
  have hend : s.clearDelayRecoveryConnections.lblRRTD2 = none := by
    unfold clearDelayRecoveryConnections
    rw [if_pos h]
    have hsize (s t : Server) (hst : s.lblRRTD2 = some t) :
        t.pool.recyConnectionList.length < s.pool.recyConnectionList.length := by
      obtain ⟨d, hd, rfl⟩ := lblRRTD2_eq_some hst
      exact length_recycled (List.mem_of_mem_head? hd)
    exact goto_eq_none (fun s => s.pool.recyConnectionList.length) hsize _ s le_rfl
  unfold lblRRTD2 at hend
  split at hend
  · assumption
  · cases hend

end Server
end XiaoHGServer
