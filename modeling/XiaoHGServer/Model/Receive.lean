import XiaoHGServer.Model.Pool

/-!
# Receiving packets

`EpollEventReadRequestHandler` and what it calls. `now` is what `time(NULL)`
returns and `currTime` what `gettimeofday` returns in milliseconds.
-/

namespace XiaoHGServer

def RecvPtr.add (p : RecvPtr) (n : ℕ) : RecvPtr :=
  match p with
  | .dataHeadInfo off => .dataHeadInfo (off + n)
  | .packet b off => .packet b (off + n)

namespace Server

def recvPkg (s : Server) (b : BufId) : List Byte := (s.recvQueue.mem.buffer b).pkg

def recvHeader (s : Server) (b : BufId) : MsgHeader := (s.recvQueue.mem.buffer b).header

/-- The clock of the last packet and the count of quick ones after `TestFlood`. -/
def floodAfter (s : Server) (c : ConnId) (currTime : ℕ) : FloodState :=
  let k := (s.conn c).flood
  if sub64 currTime k.floodAttackLastTime < intToU64 s.config.floodTimeInterval then
    ⟨currTime, k.floodAttackCount + 1⟩
  else ⟨currTime, 0⟩

def testFlood (s : Server) (c : ConnId) (currTime : ℕ) : Server × Bool :=
  let f := s.floodAfter c currTime
  (s.modifyConn c fun k => { k with flood := f }, s.config.floodKickCount ≤ f.floodAttackCount)

/-- `if(m_FloodAttackEnable == 1) bIsFlood = TestFlood(pConn)`. -/
def floodCheck (s : Server) (c : ConnId) (bIsFlood : Bool) (currTime : ℕ) : Server × Bool :=
  if s.config.floodAttackEnable = 1 then s.testFlood c currTime else (s, bIsFlood)

/-- `PushRecvMsgToRecvListAndCond`, without its locks and its signal. -/
def pushRecvMsgToRecvListAndCond (s : Server) (b : BufId) : Server :=
  { s with recvQueue := { s.recvQueue with
      recvMsgList := s.recvQueue.recvMsgList ++ [b]
      recvMsgListSize := u32 (s.recvQueue.recvMsgListSize + 1) } }

/-- Back to waiting for a packet header. -/
def expectHeader (s : Server) (c : ConnId) : Server :=
  s.modifyConn c fun k => { k with recv := { k.recv with
    recvMsgCurStatus := .pkgHdInit
    pRecvMsgBuff := .dataHeadInfo 0
    recvMsgLen := lenPkgHeader } }

/-- `RecvMsgPacketParseProc`. The pointer is never null here: the header of the packet has
just been parsed. -/
def recvMsgPacketParseProc (s : Server) (c : ConnId) (bIsFlood : Bool) : Server :=
  let p := (s.conn c).recv.pRecvMsgMemPointer
  let s := if bIsFlood = false then
      match p with
      | some b => s.pushRecvMsgToRecvListAndCond b
      | none => s
    else { s with recvQueue := { s.recvQueue with mem := s.recvQueue.mem.freeMemory p } }
  s.expectHeader c

/-- The buffer `RecvMsgHeaderParseProc` allocates for a well-formed header, filled
with the message header and the packet header. -/
def allocRecvBuffer (s : Server) (c : ConnId) (pkgLen : ℕ) : Server :=
  let k := s.conn c
  let b := s.recvQueue.mem.next
  let mem := (s.recvQueue.mem.allocMemory pkgLen).modify b fun m =>
    ⟨⟨c, k.currSequence⟩, writeAt m.pkg 0 (k.recv.dataHeadInfo.take lenPkgHeader)⟩
  { s with recvQueue := { s.recvQueue with mem := mem } }.modifyConn c fun k =>
    { k with recv := { k.recv with pRecvMsgMemPointer := some b } }

/-- `RecvMsgHeaderParseProc`; the flag is `bIsFlood` on return. -/
def recvMsgHeaderParseProc (s : Server) (c : ConnId) (bIsFlood : Bool) (currTime : ℕ) :
    Server × Bool :=
  let pkgLen := pkgLength (s.conn c).recv.dataHeadInfo
  if pkgLen < lenPkgHeader ∨ pkgMaxLength < pkgLen then (s.expectHeader c, bIsFlood)
  else
    let b := s.recvQueue.mem.next
    let s := s.allocRecvBuffer c pkgLen
    if pkgLen = lenPkgHeader then
      let (s, bIsFlood) := s.floodCheck c bIsFlood currTime
      (s.recvMsgPacketParseProc c bIsFlood, bIsFlood)
    else
      (s.modifyConn c fun k => { k with recv := { k.recv with
        recvMsgCurStatus := .pkgBdInit
        pRecvMsgBuff := .packet b lenPkgHeader
        recvMsgLen := u16 (pkgLen - lenPkgHeader) } }, bIsFlood)

/-- The bytes `recv` stores at `pRecvMsgBuff`. -/
def storeRecv (s : Server) (c : ConnId) (bytes : List Byte) : Server :=
  match (s.conn c).recv.pRecvMsgBuff with
  | .dataHeadInfo off =>
    s.modifyConn c fun k => { k with recv := { k.recv with
      dataHeadInfo := writeAt k.recv.dataHeadInfo off bytes } }
  | .packet b off =>
    { s with recvQueue := { s.recvQueue with
        mem := s.recvQueue.mem.modify b fun m => { m with pkg := writeAt m.pkg off bytes } } }

/-- `RecvMsgProc`; `none` is `XiaoHG_ERROR`. -/
def recvMsgProc (s : Server) (c : ConnId) (ret : RecvRet) (now : ℤ) : Server × Option ℕ :=
  let k := s.conn c
  let s := s.logCall (.recv c k.sockFd k.recv.recvMsgLen)
  match ret with
  | .data bytes => (s.storeRecv c bytes, some bytes.length)
  | .eof => (s.closeConnectionToRecy c now, none)
  | .again => (s, none)
  | .intr => (s, none)
  | .error => (s.closeConnectionToRecy c now, none)

/-- The window moves past `n` received bytes. -/
def advanceRecv (s : Server) (c : ConnId) (status : RecvStatus) (n : ℕ) : Server :=
  s.modifyConn c fun k => { k with recv := { k.recv with
    recvMsgCurStatus := status
    pRecvMsgBuff := k.recv.pRecvMsgBuff.add n
    recvMsgLen := sub16 k.recv.recvMsgLen n } }

/-- A whole packet body is in: the flood check and `RecvMsgPacketParseProc`. -/
def bodyComplete (s : Server) (c : ConnId) (currTime : ℕ) : Server × Bool :=
  let (s, bIsFlood) := s.floodCheck c false currTime
  (s.recvMsgPacketParseProc c bIsFlood, bIsFlood)

/-- The state machine of `EpollEventReadRequestHandler` after `n` received bytes. -/
def recvAdvance (s : Server) (c : ConnId) (n : ℕ) (currTime : ℕ) : Server × Bool :=
  let k := (s.conn c).recv
  match k.recvMsgCurStatus with
  | .pkgHdInit =>
    if n = lenPkgHeader then s.recvMsgHeaderParseProc c false currTime
    else (s.advanceRecv c .pkgHdRecving n, false)
  | .pkgHdRecving =>
    if k.recvMsgLen = n then s.recvMsgHeaderParseProc c false currTime
    else (s.advanceRecv c .pkgHdRecving n, false)
  | .pkgBdInit =>
    if n = k.recvMsgLen then s.bodyComplete c currTime
    else (s.advanceRecv c .pkgBdRecving n, false)
  | .pkgBdRecving =>
    if k.recvMsgLen = n then s.bodyComplete c currTime
    else (s.advanceRecv c .pkgBdRecving n, false)

def epollEventReadRequestHandler (s : Server) (c : ConnId) (ret : RecvRet) (now : ℤ)
    (currTime : ℕ) : Server :=
  match s.recvMsgProc c ret now with
  | (s, none) => s
  | (s, some n) =>
    let (s, bIsFlood) := s.recvAdvance c n currTime
    if bIsFlood then s.closeConnectionToRecy c now else s

end Server
end XiaoHGServer
