import Mathlib.Data.Finset.Insert
import XiaoHGServer.Model.Conf
import XiaoHGServer.Model.Log

/-!
# Signals

`CSignalCtl` and `SignalHandler`. A `sigset_t` is a finite set of signal numbers,
and what `sigaction` has been told is a function of the number. A process is
interrupted by its handlers one inside the other: `frames` are the calls of
`SignalHandler` that have not returned, the innermost first, each with the mask
that the kernel puts back when it returns.
-/

namespace XiaoHGServer

def sigHup : ℕ := 1
def sigInt : ℕ := 2
def sigQuit : ℕ := 3
def sigKill : ℕ := 9
def sigUsr1 : ℕ := 10
def sigUsr2 : ℕ := 12
def sigAlrm : ℕ := 14
def sigTerm : ℕ := 15
def sigChld : ℕ := 17
def sigCont : ℕ := 18
def sigStop : ℕ := 19
def sigUrg : ℕ := 23
def sigWinch : ℕ := 28
def sigIo : ℕ := 29
def sigSys : ℕ := 31

def sigMax : ℕ := 64

inductive SigAction
  | default
  | ignore
  | handler
  deriving DecidableEq, Repr

/-- The default action for a signal is to end the process. A process that is stopped takes no
steps until it is continued; stopping and continuing is no step of its own. -/
def endsByDefault (signalNo : ℕ) : Bool :=
  !([sigChld, sigCont, sigUrg, sigWinch, sigStop, 20, 21, 22].contains signalNo)

/-- `SIGNAL_T`; `handled` says that `LogicHandlerCallBack` is not null. -/
structure SignalT where
  signalNo : ℕ
  sigName : List Byte
  handled : Bool
  deriving DecidableEq, Repr

/-- `signals`, with the entry that ends it. -/
def signals : List SignalT :=
  [⟨sigHup, ascii "SIGHUP", true⟩, ⟨sigInt, ascii "SIGINT", true⟩,
    ⟨sigTerm, ascii "SIGTERM", true⟩, ⟨sigChld, ascii "SIGCHLD", true⟩,
    ⟨sigQuit, ascii "SIGQUIT", true⟩, ⟨sigIo, ascii "SIGIO", true⟩,
    ⟨sigSys, ascii "SIGSYS, SIG_IGN", false⟩, ⟨0, [], false⟩]

/-- `sigaction`; `none` is `EINVAL`. -/
def sigaction (actions : ℕ → SigAction) (signalNo : ℕ) (action : SigAction) :
    Option (ℕ → SigAction) :=
  if signalNo = 0 ∨ sigMax < signalNo ∨ signalNo = sigKill ∨ signalNo = sigStop then none
  else some (Function.update actions signalNo action)

/-- `CSignalCtl::Init`: a signal for which `sigaction` fails keeps its action. -/
def signalCtlInit (actions : ℕ → SigAction) (signals : List SignalT) : ℕ → SigAction :=
  (signals.takeWhile (·.signalNo ≠ 0)).foldl (fun actions sig =>
    (sigaction actions sig.signalNo (if sig.handled then .handler else .ignore)).getD actions)
    actions

def masterSignals : List ℕ :=
  [sigChld, sigAlrm, sigIo, sigInt, sigHup, sigUsr1, sigUsr2, sigWinch, sigTerm, sigQuit]

/-- `sizeof(m_Signals)/sizeof(m_Signals[0])`: `m_Signals` is a pointer. -/
def signalCount : ℕ := 8 / 4

/-- The loop in `SignalHandler`: its test assigns the number to the entry. -/
def findSignal (signalNo : ℕ) : List SignalT → List SignalT
  | [] => []
  | sig :: sigs =>
    if sig.signalNo ≠ 0 then
      let sig := { sig with signalNo := signalNo }
      if sig.signalNo ≠ 0 then sig :: sigs else sig :: findSignal signalNo sigs
    else sig :: sigs

inductive HandlerPc
  | enter
  /-- In `ProcessGetStatus`, with `iOne`. -/
  | getStatus (iOne : Bool)
  | leave
  deriving DecidableEq, Repr

structure SigFrame where
  signalNo : ℕ
  mask : Finset ℕ
  pc : HandlerPc
  deriving DecidableEq

def wTermSig (status : ℕ) : ℕ := status % 128

def wExitStatus (status : ℕ) : ℕ := status / 256 % 256

/-- The number that `ProcessGetStatus` writes to the log. -/
def statusNotice (status : ℕ) : ℕ :=
  if wTermSig status ≠ 0 then wTermSig status else wExitStatus status

/-- What `waitpid(-1, &iStatus, WNOHANG)` returns. -/
inductive WaitRet
  /-- The child at `pid` has ended. -/
  | child (pid : ℕ)
  /-- There are children, and none has ended. -/
  | zero
  /-- `EINTR`. -/
  | interrupted
  /-- `ECHILD`. -/
  | noChild
  deriving DecidableEq, Repr

end XiaoHGServer
