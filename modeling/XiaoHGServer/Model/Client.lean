import Mathlib.Logic.Function.Basic
import XiaoHGServer.Library.Transition
import XiaoHGServer.Model.Crc
import XiaoHGServer.Model.Log

/-!
# The client

The test client of the repository, the other side of the protocol. Three of its
threads send messages over one socket: `HeartBeatThreadProc`, `SendMsgThreadProc`
and `main`, which calls `ChooseSendMsg`. Each call of `SendData` goes through the
message by as many calls of `send` as it takes, and the threads share no lock.
What `send` has taken goes to the server in this order.
-/

namespace XiaoHGServer

inductive TestCode
  | hbCode
  | registerCode
  | linginCode
  deriving DecidableEq, Repr

def TestCode.value : TestCode → ℕ
  | .hbCode => 0
  | .registerCode => 5
  | .linginCode => 6

def malloc (mem : ℕ → Byte) (n : ℕ) : List Byte := (List.range n).map mem

/-! The fields of `COMM_PKG_HEADER`, and `strcpy` into a buffer. -/

def putPkgLen (pSendBuf : List Byte) (n : ℕ) : List Byte := writeAt pSendBuf 0 (storeShort n)

def putMsgCode (pSendBuf : List Byte) (n : ℕ) : List Byte := writeAt pSendBuf 2 (storeShort n)

def putCrc32 (pSendBuf : List Byte) (w : BitVec 32) : List Byte := writeAt pSendBuf 4 (storeInt w)

def putText (pSendBuf : List Byte) (off : ℕ) (text : String) : List Byte :=
  writeAt pSendBuf off (ascii text ++ [0])

/-- `SendHeartBeatMsg`, up to its call of `SendData`. -/
def sendHeartBeatMsg (mem : ℕ → Byte) : List Byte :=
  let pSendBuf := malloc mem lenPkgHeader
  let pSendBuf := putCrc32 pSendBuf 0
  -- `htons` of an `int`
  let pSendBuf := putCrc32 pSendBuf (.ofNat 32 (ntohs (u16 (loadInt pSendBuf 4).toNat)))
  let pSendBuf := putMsgCode pSendBuf TestCode.hbCode.value
  let pSendBuf := putMsgCode pSendBuf (ntohs (loadShort pSendBuf 2))
  putPkgLen pSendBuf (ntohs lenPkgHeader)

/-- `SendRegisterMsg`, up to its call of `SendData`. -/
def sendRegisterMsg (mem : ℕ → Byte) : List Byte :=
  let pSendBuf := malloc mem (lenPkgHeader + sizeofRegister)
  let pSendBuf := putMsgCode pSendBuf TestCode.registerCode.value
  let pSendBuf := putMsgCode pSendBuf (ntohs (loadShort pSendBuf 2))
  let pSendBuf := putPkgLen pSendBuf (ntohs (lenPkgHeader + sizeofRegister))
  let pSendBuf := writeAt pSendBuf lenPkgHeader (storeInt (ntohl 100))
  let pSendBuf := putText pSendBuf (lenPkgHeader + 4) "XiaoHG_Register"
  let pSendBuf := putText pSendBuf (lenPkgHeader + 4 + 56) "xiaohaige"
  let pSendBuf := putCrc32 pSendBuf (getCRC ((pSendBuf.drop lenPkgHeader).take sizeofRegister))
  putCrc32 pSendBuf (ntohl (loadInt pSendBuf 4))

/-- `SendLoginMsg`, up to its call of `SendData`. -/
def sendLoginMsg (mem : ℕ → Byte) : List Byte :=
  let pSendBuf := malloc mem (lenPkgHeader + sizeofLogin)
  let pSendBuf := putMsgCode pSendBuf TestCode.linginCode.value
  let pSendBuf := putMsgCode pSendBuf (ntohs (loadShort pSendBuf 2))
  let pSendBuf := putPkgLen pSendBuf (ntohs (lenPkgHeader + sizeofLogin))
  let pSendBuf := putText pSendBuf lenPkgHeader "XiaoHG_Login"
  let pSendBuf := putText pSendBuf (lenPkgHeader + 56) "xiaohaige"
  let pSendBuf := putCrc32 pSendBuf (getCRC ((pSendBuf.drop lenPkgHeader).take sizeofLogin))
  putCrc32 pSendBuf (ntohl (loadInt pSendBuf 4))

def TestCode.message : TestCode → (ℕ → Byte) → List Byte
  | .hbCode => sendHeartBeatMsg
  | .registerCode => sendRegisterMsg
  | .linginCode => sendLoginMsg

inductive Sender
  | heartBeatThreadProc
  | sendMsgThreadProc
  | main
  deriving DecidableEq, Repr

/-- Where a thread is: in `usleep` or `scanf`, in the loop of `SendData`, or out of its loop. -/
inductive SendStage
  | waits
  | sends (pSendBuf : List Byte) (iUwrote : ℕ)
  | ended
  deriving DecidableEq, Repr

namespace SendStage

def Takes (n : ℕ) : SendStage → Prop
  | .sends pSendBuf iUwrote => 1 ≤ n ∧ n ≤ pSendBuf.length - iUwrote
  | _ => False

def isSending : SendStage → Bool
  | .sends _ _ => true
  | _ => false

instance (n : ℕ) : (x : SendStage) → Decidable (x.Takes n)
  | .sends _ _ => inferInstanceAs (Decidable (_ ∧ _))
  | .waits | .ended => isFalse id

end SendStage

structure Client where
  /-- `g_iSocketFd` is open. -/
  isOpen : Bool
  stage : Sender → SendStage
  /-- `SendMsgThreadProc` is past its `SendLoginMsg`. -/
  registerNext : Bool
  /-- What the socket has taken. -/
  sent : List Byte

inductive ClientEvent
  /-- A thread composes a message and enters `SendData`. -/
  | compose (th : Sender) (code : TestCode) (mem : ℕ → Byte)
  /-- `send` returns `n`. -/
  | send (th : Sender) (n : ℕ)
  /-- `send` returns 0 or -1. -/
  | sendFailed (th : Sender)
  /-- `recv` returns -1 in `RecvData`. -/
  | recvFailed
  /-- `main` returns, or a signal ends the process. -/
  | quit

namespace Client

def start : Client := ⟨true, fun _ => .waits, false, []⟩

def setStage (k : Client) (th : Sender) (x : SendStage) : Client :=
  { k with stage := Function.update k.stage th x }

def Chooses (k : Client) : Sender → TestCode → Prop
  | .heartBeatThreadProc, code => code = .hbCode
  | .sendMsgThreadProc, code => code = if k.registerNext then .registerCode else .linginCode
  | .main, _ => True

/-- `SendData` returns the length, and the thread goes on. -/
def finish (k : Client) (th : Sender) : Client :=
  { k.setStage th .waits with
    registerNext := if th = .sendMsgThreadProc then !k.registerNext else k.registerNext }

def Enabled (k : Client) : ClientEvent → Prop
  | .compose th code _ => k.stage th = .waits ∧ k.Chooses th code
  | .send th n => k.isOpen = true ∧ (k.stage th).Takes n
  | .sendFailed th => (k.stage th).isSending = true
  | .recvFailed => True
  | .quit => True

instance (k : Client) : (th : Sender) → (code : TestCode) → Decidable (k.Chooses th code)
  | .heartBeatThreadProc, _ => inferInstanceAs (Decidable (_ = _))
  | .sendMsgThreadProc, _ => inferInstanceAs (Decidable (_ = _))
  | .main, _ => isTrue trivial

instance (k : Client) : (e : ClientEvent) → Decidable (k.Enabled e)
  | .compose _ _ _ => inferInstanceAs (Decidable (_ ∧ _))
  | .send _ _ => inferInstanceAs (Decidable (_ ∧ _))
  | .sendFailed _ => inferInstanceAs (Decidable (_ = _))
  | .recvFailed => isTrue trivial
  | .quit => isTrue trivial

def next (k : Client) : ClientEvent → Client
  | .compose th code mem => k.setStage th (.sends (code.message mem) 0)
  | .send th n =>
    match k.stage th with
    | .sends pSendBuf iUwrote =>
      let k := { k with sent := k.sent ++ (pSendBuf.drop iUwrote).take n }
      if iUwrote + n < pSendBuf.length then k.setStage th (.sends pSendBuf (iUwrote + n))
      else k.finish th
    | _ => k
  | .sendFailed th => { k.setStage th .ended with isOpen := false }
  | .recvFailed => { k with isOpen := false }
  | .quit => { k with isOpen := false, stage := fun _ => .ended }

end Client

def clientProcess : System Client ClientEvent :=
  .ofNext (· = Client.start) Client.Enabled fun k e => some (k.next e)

end XiaoHGServer
