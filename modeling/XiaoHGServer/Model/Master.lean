import XiaoHGServer.Model.Process
import XiaoHGServer.Model.Signals

/-!
# The master process and its workers

The processes of one server, the master first and behind it the workers in the
order of their creation. `MasterProcessCycle` and `WorkerProcessCycle` take one
step for each call that another process or a signal can come before; a worker that
serves is a `Server`. The kernel delivers signals between any two steps, keeps a
pending signal once, and lets no two sockets have one port.
-/

namespace XiaoHGServer

/-- What a server reads from its configuration file before it serves. -/
structure ProcConfig where
  workProcessCount : ℕ
  listenPortCount : ℕ
  listenPort : ℕ → ℕ
  server : Config

def masterProcess : ℕ := 0
def workerProcess : ℕ := 1

def listeningPortInfo (i : ℕ) : List Byte := ascii "ListenPort" ++ digitsText i

/-- What `CSocket::Init` and `CThreadPool::Init` read. -/
def Config.read (items : List ConfItem) : Config :=
  let getInt (name : String) (defaultValue : ℤ) : ℤ :=
    CConfig.getIntDefault items (ascii name) defaultValue
  let waitTime := getInt "Sock_MaxWaitTime" 0
  { epollCreateConnectCount := (getInt "EpollCreateConnectCount" 0 % 2 ^ 32).toNat
    delayRecoveryConnectionWaitTime := getInt "Sock_RecyConnectionWaitTime" 0
    isHBTimeOutCheckEnable := getInt "Sock_WaitTimeEnable" 0
    waitTime := if 5 < waitTime then waitTime else 5
    isTimeOutKick := getInt "Sock_TimeOutKick" 0
    floodAttackEnable := getInt "Sock_FloodAttackKickEnable" 0
    floodTimeInterval := getInt "Sock_FloodTimeInterval" 100
    floodKickCount := getInt "Sock_FloodKickCounter" 10
    procMsgRecvWorkThreadCount := (getInt "ProcMsgRecvWorkThreadCount" 5).toNat }

/-- What `CProcessCtl::Init`, `CSocket::Init` and `OpenListeningSockets` read: the count of ports
is a `uint8_t`, a port a `uint16_t`. -/
def ProcConfig.read (items : List ConfItem) : ProcConfig where
  workProcessCount :=
    (CConfig.getIntDefault items (ascii "WorkerProcessesCount") 1 % 2 ^ 32).toNat
  listenPortCount := (CConfig.getIntDefault items (ascii "ListenPortCount") 0 % 2 ^ 8).toNat
  listenPort i := (CConfig.getIntDefault items (listeningPortInfo i) 30723 % 2 ^ 16).toNat
  server := .read items

/-- `LISTENING_T`, with the port that the kernel has bound the socket to. -/
structure Listening where
  port : ℕ
  sockFd : ℕ
  bound : ℕ
  deriving DecidableEq, Repr

inductive ProgramPc
  /-- `MasterProcessCycle` calls `RegisterSignals`. -/
  | registerSignals
  | setMasterTitle
  /-- The test of the `for` loop. -/
  | forkWorker (i : ℕ)
  | setSigEmpty
  | setSigSuspend
  /-- In `sigsuspend`, with the mask that it puts back. -/
  | suspended (mask : Finset ℕ)
  /-- `WorkerProcessCycle` calls `SetProcTitle`. -/
  | setWorkerTitle
  /-- `WorkerProcessInit` calls `sigprocmask`. -/
  | setMask
  /-- `CThreadPool::Init`, `CMessageCtl::Init` and `CSocket::Init` create their threads. -/
  | createThreads
  /-- The test of the loop in `OpenListeningSockets`. -/
  | openListening (i : ℕ)
  | initEpoll
  | serving (server : Server)

structure Process where
  /-- `m_ProcessID`. -/
  processID : ℕ
  /-- The table of `SignalHandler`. -/
  signals : List SignalT
  stSet : Finset ℕ
  actions : ℕ → SigAction
  mask : Finset ℕ
  pending : Finset ℕ
  frames : List SigFrame
  listenSocketList : List Listening
  pc : ProgramPc

/-- A process runs, has ended and not been waited for, or has been waited for. -/
inductive Life
  | running (p : Process)
  | ended (status : ℕ)
  | reaped (status : ℕ)

structure ProcessTree where
  processes : List Life
  /-- What `ProcessGetStatus` has written to the log, newest first. -/
  notices : List ℕ

/-- What the calls of one iteration of `OpenListeningSockets` return. -/
structure ListenEnv where
  /-- The descriptor; `none` when `socket` fails. -/
  socket : Option ℕ
  /-- `ioctl` succeeds. -/
  setNonBlocking : Bool
  /-- The port that `bind` takes when it is asked for port 0. -/
  ephemeral : ℕ
  /-- Nothing but a port in use keeps `bind` from succeeding. -/
  bind : Bool
  listen : Bool

/-- What the calls of a step return; `ok` says that they succeed. -/
structure CallEnv where
  ok : Bool
  wait : WaitRet
  listen : ListenEnv
  now : ℤ
  recvMem : BufId → ℕ → Byte
  sendMem : BufId → ℕ → Byte
  timerMem : BufId → ℕ → Byte

inductive TreeEvent
  /-- Anybody sends a signal. -/
  | send (pid : ℕ) (signalNo : ℕ)
  /-- The kernel delivers a pending signal. -/
  | deliver (pid : ℕ) (signalNo : ℕ)
  /-- The innermost call of `SignalHandler`, or else the program, takes its next step. -/
  | advance (pid : ℕ) (env : CallEnv)
  /-- Something happens in a worker that serves. -/
  | work (pid : ℕ) (e : Event)

def TreeEvent.pid : TreeEvent → ℕ
  | .send pid _ => pid
  | .deliver pid _ => pid
  | .advance pid _ => pid
  | .work pid _ => pid

namespace Process

variable (p : Process)

def raise (signalNo : ℕ) : Process := { p with pending := insert signalNo p.pending }

/-- A delivered signal that is ignored. -/
def discard (signalNo : ℕ) : Process := { p with pending := p.pending.erase signalNo }

/-- `SignalHandler` is called, in `sigsuspend` or anywhere else. -/
def interrupt (signalNo : ℕ) : Process :=
  match p.pc with
  | .suspended mask =>
    { p with
      pending := p.pending.erase signalNo
      frames := ⟨signalNo, mask, .enter⟩ :: p.frames
      mask := insert signalNo p.mask
      pc := .setSigSuspend }
  | _ =>
    { p with
      pending := p.pending.erase signalNo
      frames := ⟨signalNo, p.mask, .enter⟩ :: p.frames
      mask := insert signalNo p.mask }

def setHandler (pc : HandlerPc) : Process :=
  { p with frames := p.frames.modifyHead fun f => { f with pc := pc } }

/-- `SignalHandler` up to its last test, or to its return. -/
def enterHandler (f : SigFrame) : Process :=
  { p.setHandler (if f.signalNo = sigChld then .getStatus false else .leave) with
    signals := findSignal f.signalNo p.signals }

def leaveHandler (f : SigFrame) : Process := { p with frames := p.frames.tail, mask := f.mask }

/-- `RegisterSignals`; a mask that cannot be set stays. -/
def registerSignals (ok : Bool) : Process :=
  let stSet := (masterSignals.take signalCount).foldl (fun set sig => insert sig set) ∅
  { p with stSet := stSet, mask := if ok then p.mask ∪ stSet else p.mask, pc := .setMasterTitle }

/-- What `fork` returns to the child. -/
def child : Process := { p with pending := ∅, frames := [], pc := .setWorkerTitle }

def sigsuspend : Process := { p with mask := p.stSet, pc := .suspended p.mask }

/-- A process that calls `MasterProcessCycle`. `CSignalCtl::Init` has run, and `SignalHandler` may
have run for `signalNo`. -/
def master (actions : ℕ → SigAction) (mask stSet : Finset ℕ) (signalNo : ℕ) :
    Process where
  processID := masterProcess
  signals := XiaoHGServer.signals.modifyHead fun sig => { sig with signalNo := signalNo }
  stSet := stSet
  actions := signalCtlInit actions XiaoHGServer.signals
  mask := mask
  pending := ∅
  frames := []
  listenSocketList := []
  pc := .registerSignals

end Process

namespace Life

def process : Life → Option Process
  | running p => some p
  | ended _ => none
  | reaped _ => none

def isRunning (l : Life) : Bool := l.process.isSome

def isEnded : Life → Bool
  | running _ => false
  | ended _ => true
  | reaped _ => false

def isServing (l : Life) : Bool :=
  l.process.any fun p => match p.pc with | .serving _ => true | _ => false

def map (f : Process → Process) : Life → Life
  | running p => running (f p)
  | ended status => ended status
  | reaped status => reaped status

def boundPorts : Life → List ℕ
  | running p => p.listenSocketList.map Listening.bound
  | ended _ => []
  | reaped _ => []

def status : Life → Option ℕ
  | running _ => none
  | ended status => some status
  | reaped status => some status

def reapedStatus : Life → Option ℕ
  | running _ => none
  | ended _ => none
  | reaped status => some status

end Life

namespace ProcessTree

variable (t : ProcessTree)

def process (pid : ℕ) : Option Process := t.processes[pid]?.bind Life.process

def modify (pid : ℕ) (f : Process → Process) : ProcessTree :=
  { t with processes := t.processes.modify pid (Life.map f) }

/-- A process ends: its sockets are closed, and the master is sent `SIGCHLD` for its child. -/
def finish (pid status : ℕ) : ProcessTree :=
  let t := { t with processes := t.processes.modify pid fun _ => Life.ended status }
  if pid = 0 then t else t.modify 0 fun p => p.raise sigChld

def boundPorts : List ℕ := t.processes.flatMap Life.boundPorts

def deliver (pid : ℕ) (p : Process) (signalNo : ℕ) : ProcessTree :=
  match p.actions signalNo with
  | .handler => t.modify pid fun p => p.interrupt signalNo
  | .ignore => t.modify pid fun p => p.discard signalNo
  | .default =>
    if endsByDefault signalNo then t.finish pid signalNo
    else t.modify pid fun p => p.discard signalNo

/-- What `waitpid` may return to process `pid`: nobody but the master has children. -/
def WaitLegal (pid : ℕ) : WaitRet → Prop
  | .child i => pid = 0 ∧ i ≠ 0 ∧ t.processes[i]?.any Life.isEnded
  | .zero => pid = 0 ∧ (t.processes.tail.any Life.isEnded) = false ∧
    (t.processes.tail.any Life.isRunning) = true
  | .interrupted => True
  | .noChild => pid ≠ 0 ∨ (t.processes.tail.any Life.isEnded) = false ∧
    (t.processes.tail.any Life.isRunning) = false

/-- `waitpid` returns child `i`, whose status goes to the log. -/
def reap (i : ℕ) : ProcessTree :=
  match t.processes[i]? with
  | some (.ended status) =>
    { processes := t.processes.modify i fun _ => Life.reaped status
      notices := statusNotice status :: t.notices }
  | _ => t

/-- The next step of the innermost call of `SignalHandler`. -/
def advanceHandler (pid : ℕ) (f : SigFrame) (env : CallEnv) : ProcessTree :=
  match f.pc with
  | .enter => t.modify pid fun p => p.enterHandler f
  | .getStatus _ =>
    match env.wait with
    | .child i => (t.reap i).modify pid fun p => p.setHandler (.getStatus true)
    | .zero => t.modify pid fun p => p.setHandler .leave
    | .interrupted => t
    | .noChild => t.modify pid fun p => p.setHandler .leave
  | .leave => t.modify pid fun p => p.leaveHandler f

/-- One iteration of `OpenListeningSockets`, for a descriptor that fits a `uint16_t` or not. -/
def openListening (cfg : ProcConfig) (pid i : ℕ) (env : ListenEnv) : ProcessTree :=
  let sockFd := match env.socket with
    | some fd => u16 fd
    | none => closedFd
  let port := cfg.listenPort i
  let bound := if port = 0 then env.ephemeral else port
  if !env.setNonBlocking then t.finish pid 0
  else if !env.bind || t.boundPorts.contains bound then t.finish pid 0
  else if !env.listen then t.finish pid 0
  else t.modify pid fun p =>
    { p with
      listenSocketList := p.listenSocketList ++ [⟨port, sockFd, bound⟩]
      pc := .openListening (i + 1) }

def advanceProgram (cfg : ProcConfig) (pid : ℕ) (p : Process) (env : CallEnv) : ProcessTree :=
  let goto (pc : ProgramPc) : ProcessTree := t.modify pid fun p => { p with pc := pc }
  match p.pc with
  | .registerSignals => t.modify pid fun p => p.registerSignals env.ok
  | .setMasterTitle => if env.ok then goto (.forkWorker 0) else t.finish pid 0
  | .forkWorker i =>
    if i < cfg.workProcessCount then
      if env.ok then
        let t := { t with processes := t.processes ++ [Life.running p.child] }
        t.modify pid fun p => { p with pc := .forkWorker (i + 1) }
      else t.finish pid 0
    else goto .setSigEmpty
  | .setSigEmpty => t.modify pid fun p => { p with stSet := ∅, pc := .setSigSuspend }
  | .setSigSuspend => t.modify pid Process.sigsuspend
  | .suspended _ => t
  | .setWorkerTitle =>
    if env.ok then t.modify pid fun p => { p with processID := workerProcess, pc := .setMask }
    else t.finish pid 0
  | .setMask =>
    if env.ok then t.modify pid fun p => { p with mask := ∅, pc := .createThreads }
    else t.finish pid 0
  | .createThreads => if env.ok then goto (.openListening 0) else t.finish pid 0
  | .openListening i =>
    if i < cfg.listenPortCount then t.openListening cfg pid i env.listen
    else if p.listenSocketList.length = 0 then t.finish pid 0
    else goto .initEpoll
  | .initEpoll =>
    if env.ok then goto (.serving (Server.boot cfg.server env.now env.recvMem env.sendMem
      env.timerMem (p.listenSocketList.map Listening.sockFd)))
    else t.finish pid 0
  | .serving _ => t

/-- What `socket` and `ioctl` may return: nothing is open at the descriptor that stands for
failure. -/
def ListenLegal (p : Process) (env : ListenEnv) : Prop :=
  match env.socket with
  | some fd => fd ∉ p.listenSocketList.map Listening.sockFd
  | none => env.setNonBlocking = false

def AdvanceLegal (pid : ℕ) (p : Process) (env : CallEnv) : Prop :=
  match p.frames with
  | f :: _ =>
    match f.pc with
    | .getStatus _ => t.WaitLegal pid env.wait
    | _ => True
  | [] =>
    match p.pc with
    | .suspended _ => False
    | .serving _ => False
    | .openListening _ => ListenLegal p env.listen
    | _ => True

def Enabled : TreeEvent → Prop
  | .send pid signalNo => (t.process pid).isSome ∧ 0 < signalNo ∧ signalNo ≤ sigMax
  | .deliver pid signalNo =>
    (t.process pid).any fun p => decide (signalNo ∈ p.pending ∧ signalNo ∉ p.mask)
  | .advance pid env => ∃ p, t.process pid = some p ∧ t.AdvanceLegal pid p env
  | .work pid e => ∃ p s, t.process pid = some p ∧ p.pc = .serving s ∧ s.Enabled e

instance (pid : ℕ) (w : WaitRet) : Decidable (t.WaitLegal pid w) := by
  cases w <;> unfold WaitLegal <;> infer_instance

instance (p : Process) (env : ListenEnv) : Decidable (ListenLegal p env) := by
  unfold ListenLegal
  split <;> infer_instance

instance (pid : ℕ) (p : Process) (env : CallEnv) : Decidable (t.AdvanceLegal pid p env) := by
  unfold AdvanceLegal
  split <;> split <;> infer_instance

instance : (e : TreeEvent) → Decidable (t.Enabled e)
  | .send _ _ => inferInstanceAs (Decidable (_ ∧ _))
  | .deliver _ _ => inferInstanceAs (Decidable (_ = true))
  | .advance pid env =>
    decidable_of_iff ((t.process pid).any fun p => decide (t.AdvanceLegal pid p env))
      (by simp [Enabled, Option.any_eq_true])
  | .work pid e =>
    decidable_of_iff ((t.process pid).any fun p =>
      match p.pc with | .serving s => decide (s.Enabled e) | _ => false)
      (by
        rw [Option.any_eq_true, Enabled]
        refine exists_congr fun p => ?_
        cases p.pc <;> simp)

def next (cfg : ProcConfig) : TreeEvent → ProcessTree
  | .send pid signalNo => t.modify pid fun p => p.raise signalNo
  | .deliver pid signalNo =>
    match t.process pid with
    | none => t
    | some p => t.deliver pid p signalNo
  | .advance pid env =>
    match t.process pid with
    | none => t
    | some p =>
      match p.frames with
      | f :: _ => t.advanceHandler pid f env
      | [] => t.advanceProgram cfg pid p env
  | .work pid e =>
    match t.process pid with
    | none => t
    | some p =>
      match p.pc with
      | .serving s =>
        match s.next e with
        | some s => t.modify pid fun p => { p with pc := .serving s }
        | none => t.finish pid 0
      | _ => t

/-- `MasterProcessCycle` is called, by a process with any mask. -/
def Start (t : ProcessTree) : Prop :=
  ∃ (actions : ℕ → SigAction) (mask stSet : Finset ℕ) (signalNo : ℕ),
    (∀ sig, actions sig ≠ .handler) ∧ signalNo ≠ 0 ∧
    t = ⟨[.running (.master actions mask stSet signalNo)], []⟩

/-- A server that has inherited no signal settings, before its first signal. -/
def smallTree : ProcessTree := ⟨[.running (.master (fun _ => .default) ∅ ∅ sigHup)], []⟩

theorem start_smallTree : smallTree.Start :=
  ⟨fun _ => .default, ∅, ∅, sigHup, fun _ => nofun, by decide, rfl⟩

end ProcessTree

def processTree (cfg : ProcConfig) : System ProcessTree TreeEvent :=
  .ofNext ProcessTree.Start ProcessTree.Enabled fun t e => some (t.next cfg e)

/-- Calls of which none but `waitpid` and `socket` with what follows it matter. -/
def CallEnv.of (ok : Bool) (wait : WaitRet) (listen : ListenEnv) : CallEnv where
  ok := ok
  wait := wait
  listen := listen
  now := 0
  recvMem _ _ := 0
  sendMem _ _ := 0
  timerMem _ _ := 0

theorem processTree_run_of_play {α : Type*} (allow : ProcessTree → TreeEvent → Prop)
    [∀ t e, Decidable (allow t e)] (cfg : ProcConfig) (es : List TreeEvent) (f : ProcessTree → α)
    (v : α) (h : (System.play (fun t e => allow t e ∧ t.Enabled e)
      (fun t e => some (t.next cfg e)) es ProcessTree.smallTree).map f = some v) :
    ∃ t, ((processTree cfg).restrict allow).Run es t ∧ f t = v := by
  obtain ⟨t, ht, hv⟩ := Option.map_eq_some_iff.mp h
  refine ⟨t, ?_, hv⟩
  rw [processTree, System.restrict_ofNext]
  exact System.run_of_play ProcessTree.start_smallTree ht

end XiaoHGServer
