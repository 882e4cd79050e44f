import XiaoHGServer.Model.Crc
import XiaoHGServer.Model.Send

/-!
# Handling a received packet

`RecvMsgHandleProc` and the handlers of `CBusinessCtl`. A handler ends with its
call of `PushSendMsgToSendListAndSem`; the functions here stop right before that
call and return the buffer to be pushed, because the push waits for a mutex and
other threads may run in between.
-/

namespace XiaoHGServer

inductive LogicHandler
  | handleHeartbeat
  | handleRegister
  | handleLogin
  deriving DecidableEq, Repr

def statusHandler : List (Option LogicHandler) :=
  [some .handleHeartbeat, none, none, none, none, some .handleRegister, some .handleLogin]

def totalCommands : ℕ := statusHandler.length

/-- The bytes of a `COMM_PKG_HEADER` whose fields are converted with `htons` and `htonl`. -/
def packetHeader (len code : ℕ) (crc : BitVec 32) : List Byte :=
  storeShort (ntohs len) ++ storeShort (ntohs code) ++ storeInt (ntohl crc)

def pkgBody (pkg : List Byte) : List Byte :=
  (pkg.drop lenPkgHeader).take (pkgLength pkg - lenPkgHeader)

namespace Server

/-- Allocate a reply, copy the message header of the request and write the packet header.
The body is never written: it is what the allocator left there, and the CRC is taken of it. -/
def composeReply (s : Server) (h : MsgHeader) (bodyLen code : ℕ) (crc : List Byte → BitVec 32) :
    Server × BufId :=
  let b := s.sendQueue.mem.next
  let mem := (s.sendQueue.mem.allocMemory (lenPkgHeader + bodyLen)).modify b fun m =>
    let body := m.pkg.drop lenPkgHeader
    ⟨h, packetHeader (lenPkgHeader + bodyLen) code (crc body) ++ body⟩
  ({ s with sendQueue := { s.sendQueue with mem := mem } }, b)

def writeRecvMsg (s : Server) (b : BufId) (off : ℕ) (data : List Byte) : Server :=
  { s with recvQueue := { s.recvQueue with
    mem := s.recvQueue.mem.modify b fun m => { m with pkg := writeAt m.pkg off data } } }

def handleRegister (s : Server) (b : BufId) (hasBody : Bool) (iBodyLength : ℕ) :
    Server × Option BufId :=
  if hasBody = false ∨ sizeofRegister ≠ iBodyLength then (s, none)
  else
    let s := s.writeRecvMsg b lenPkgHeader (storeInt (ntohl (loadInt (s.recvPkg b) lenPkgHeader)))
    let s := s.writeRecvMsg b (lenPkgHeader + 4 + 55) [0]
    let s := s.writeRecvMsg b (lenPkgHeader + 4 + 56 + 39) [0]
    let (s, r) := s.composeReply (s.recvHeader b) sizeofRegister cmdRegister getCRC
    (s, some r)

def handleLogin (s : Server) (b : BufId) (hasBody : Bool) (iBodyLength : ℕ) :
    Server × Option BufId :=
  if hasBody = false ∨ sizeofLogin ≠ iBodyLength then (s, none)
  else
    let s := s.writeRecvMsg b (lenPkgHeader + 55) [0]
    let s := s.writeRecvMsg b (lenPkgHeader + 56 + 39) [0]
    let (s, r) := s.composeReply (s.recvHeader b) sizeofLogin cmdLogin getCRC
    (s, some r)

def handleHeartbeat (s : Server) (b : BufId) (iBodyLength : ℕ) (now : ℤ) :
    Server × Option BufId :=
  if iBodyLength ≠ 0 then (s, none)
  else
    let s := s.modifyConn (s.recvHeader b).pConn fun k => { k with lastHeartBeatTime := now }
    let (s, r) := s.composeReply (s.recvHeader b) 0 cmdHeartbeat fun _ => 0
    (s, some r)

def callLogicHandler (s : Server) (handler : LogicHandler) (b : BufId) (hasBody : Bool)
    (iBodyLength : ℕ) (now : ℤ) : Server × Option BufId :=
  match handler with
  | .handleHeartbeat => s.handleHeartbeat b iBodyLength now
  | .handleRegister => s.handleRegister b hasBody iBodyLength
  | .handleLogin => s.handleLogin b hasBody iBodyLength

/-- The part of `RecvMsgHandleProc` after the CRC check. -/
def dispatch (s : Server) (b : BufId) (hasBody : Bool) (code pkgLen : ℕ) (now : ℤ) :
    Option (Server × Option BufId) :=
  let h := s.recvHeader b
  if (s.conn h.pConn).currSequence ≠ h.currSequence then none
  else if code ≥ totalCommands then none
  else
    match statusHandler.getD code none with
    | none => none
    | some handler => some (s.callLogicHandler handler b hasBody (u16 (pkgLen - lenPkgHeader)) now)

/-- `RecvMsgHandleProc`, up to the push of the reply. `none` is `exit(0)`. -/
def recvMsgHandleProc (s : Server) (b : BufId) (now : ℤ) : Option (Server × Option BufId) :=
  let pkg := s.recvPkg b
  let pkgLen := pkgLength pkg
  if lenPkgHeader = pkgLen then
    if iCrc32 pkg ≠ 0 then none else s.dispatch b false (msgCode pkg) pkgLen now
  else
    let crc := ntohl (iCrc32 pkg)
    let s := s.writeRecvMsg b 4 (storeInt crc)
    let iCalcCrc32 := getCRC (pkgBody pkg)
    if iCalcCrc32 ≠ crc then none else s.dispatch b true (msgCode pkg) pkgLen now

end Server
end XiaoHGServer
