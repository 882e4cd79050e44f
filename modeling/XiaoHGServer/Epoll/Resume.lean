import XiaoHGServer.Pool.Partition

/-!
# Writable events

`EpolWaitlProcessEvents` calls `pcbReadHandler` for `EPOLLOUT`, where the comment
next to the call and the handler installed by the accept handler ask for
`pcbWriteHandler`. So no suspended message is ever resumed by an event.
-/

namespace XiaoHGServer

/-- A call of `recv`, which the read handler issues once. -/
def SysCall.isRecv : SysCall → Bool
  | .recv .. => true
  | _ => false

namespace Server

variable {s t u : Server} {c : ConnId} {e : Event} {ev : EpollEvent} {env : HandlerEnv}

/-- Clients have the handlers that the accept handler installed. -/
def ClientsInstalled (s : Server) : Prop :=
  ∀ c ∈ s.pool.clients, (s.conn c).callbacks = clientCallbacks

theorem step_clientsInstalled (hs : s.ClientsInstalled) (h : s.next e = some t) :
    t.ClientsInstalled := by
  intro c hc
  have hold : (s.conn c).callbacks = clientCallbacks → (t.conn c).callbacks = clientCallbacks := by
    intro hcb
    rcases step_callbacks h c with heq | ⟨-, heq, -⟩
    · rw [heq, hcb]
    · exact heq
  rcases step_pool h with ⟨-, heq⟩ | ⟨env, rfl, heq⟩ | ⟨d, -, heq⟩ | ⟨d, -, -, heq⟩
  · rw [heq] at hc
    exact hold (hs c hc)
  · rcases accept_cases h with ⟨b, calls, rfl, -⟩ | ⟨fd, b, -, rfl⟩
    · exact hold (hs c hc)
    · by_cases hcf : c = s.pool.front
      · rw [hcf]
        simp [admitted, Connection.installed, Connection.callbacks, clientCallbacks]
      · exact hold (hs c ((List.mem_cons.mp hc).resolve_left hcf))
  · rw [heq] at hc
    exact hold (hs c (List.mem_of_mem_erase hc))
  · rw [heq] at hc
    exact hold (hs c hc)

theorem run_clientsInstalled {es : List Event} (h : process.Run es s) : s.ClientsInstalled :=
  h.invariant (I := ClientsInstalled)
    (fun _ hb c hc => by
      rw [clients_boot hb] at hc
      cases hc)
    fun _ _ _ hs hstep => step_clientsInstalled hs hstep.2

/-- A handler that is called is an event of the process. -/
theorem callHandler_next {handler : Option Handler} (h : s.callHandler handler c env = some t) :
    ∃ e, s.next e = some t := by
  cases handler with
  | none => cases h
  | some handler =>
    cases handler with
    | epollEventAcceptHandler => exact ⟨.accept env, h⟩
    | epollEventReadRequestHandler => exact ⟨.read c env, h⟩
    | epollEventWriteRequestHandler => exact ⟨.write c env.send, h⟩

theorem processIn_installed (hs : s.ClientsInstalled)
    (h : s.processIn c ev.events env = some t) : t.ClientsInstalled := by
  unfold processIn at h
  split_ifs at h
  · obtain ⟨e, he⟩ := callHandler_next h
    exact step_clientsInstalled hs he
  · obtain rfl := Option.some.inj h
    exact hs

theorem processOut_installed (hs : s.ClientsInstalled)
    (h : s.processOut c ev.events env = some t) : t.ClientsInstalled := by
  unfold processOut at h
  split_ifs at h
  · exact step_clientsInstalled (e := .outError c) hs h
  · obtain ⟨e, he⟩ := callHandler_next h
    exact step_clientsInstalled hs he
  · obtain rfl := Option.some.inj h
    exact hs

theorem processEvent_installed (hs : s.ClientsInstalled) (h : s.processEvent ev = some t) :
    t.ClientsInstalled := by
  obtain ⟨u, hu, h⟩ := Option.bind_eq_some_iff.mp h
  exact processOut_installed (processIn_installed hs hu) h

theorem epolWaitlProcessEvents_installed {events : List EpollEvent} (hs : s.ClientsInstalled)
    (h : s.epolWaitlProcessEvents events = some t) : t.ClientsInstalled := by
  induction events generalizing s with
  | nil =>
    obtain rfl := Option.some.inj h
    exact hs
  | cons ev events ih =>
    obtain ⟨u, hu, h⟩ := Option.bind_eq_some_iff.mp h
    exact ih (processEvent_installed hs hu) h

/-- The read handler issues one `recv` and no `send`. -/
theorem read_calls (s : Server) (c : ConnId) (ret : RecvRet) (now : ℤ) (currTime : ℕ) :
    ∃ new, (s.epollEventReadRequestHandler c ret now currTime).kernel.calls =
        new ++ s.kernel.calls ∧
      ∀ d fd data r, SysCall.send d fd data r ∉ new := by
  obtain ⟨q, r, f, hform⟩ := onlyRecv_readBase s c ret currTime
  have hcalls : (s.readBase c ret currTime).1.kernel.calls =
      .recv c (s.conn c).sockFd (s.conn c).recv.recvMsgLen :: s.kernel.calls := by
    rw [hform]
    rfl
  rw [read_eq]
  split
  · refine ⟨[.close (some c) ((s.readBase c ret currTime).1.conn c).sockFd,
      .recv c (s.conn c).sockFd (s.conn c).recv.recvMsgLen], ?_, by simp⟩
    rw [closeConnectionToRecy_eq]
    exact congrArg _ hcalls
  · exact ⟨[.recv c (s.conn c).sockFd (s.conn c).recv.recvMsgLen], hcalls, by simp⟩

/-- In state `t` it is the turn of event `ev` of the batch. -/
def Turn (s : Server) (events : List EpollEvent) (ev : EpollEvent) (t : Server) : Prop :=
  ∃ before after, events = before ++ ev :: after ∧ s.epolWaitlProcessEvents before = some t

/-- The event asks to resume the suspended message of an open client, which its `EPOLLIN` part does
not close. -/
def Resuming (s : Server) (ev : EpollEvent) : Prop :=
  ev.pConn ∈ s.pool.clients ∧ 0 < (s.conn ev.pConn).send.throwSendMsgCount ∧
    has ev.events epollOut = true ∧
    has ev.events (epollErr ||| epollHup ||| epollRdhup) = false ∧
    ∀ t, s.processIn ev.pConn ev.events ev.envIn = some t → ev.pConn ∈ t.pool.clients

/-- In the handling of the event, the rest of the message is handed to `send`, and the read handler
runs if and only if the event carries `EPOLLIN`, and once at most. -/
def Resumed (s : Server) (ev : EpollEvent) : Prop :=
  ∃ t new, s.processEvent ev = some t ∧ t.kernel.calls = new ++ s.kernel.calls ∧
    (∃ ret, .send ev.pConn (s.conn ev.pConn).sockFd
      (s.sendBytes (s.conn ev.pConn).send.pSendMsgBuff (s.conn ev.pConn).send.sendMsgLen) ret ∈
        new) ∧
    new.countP SysCall.isRecv = if has ev.events epollIn then 1 else 0

/-- What is called for a client's event is the read handler. -/
theorem not_resumed (hs : s.ClientsInstalled) (hr : s.Resuming ev) : ¬ s.Resumed ev := by
  rintro ⟨t, new, ht, hnew, ⟨ret, hsend⟩, -⟩
  obtain ⟨hc, -, hout, herr, hopen⟩ := hr
  obtain ⟨u, hu, ht⟩ := Option.bind_eq_some_iff.mp ht
  have read_handler {v : Server} (hv : v.ClientsInstalled) (hcv : ev.pConn ∈ v.pool.clients) :
      (v.conn ev.pConn).epoll.pcbReadHandler = some .epollEventReadRequestHandler :=
    congrArg Prod.fst (hv _ hcv)
  have hin : ∃ new, u.kernel.calls = new ++ s.kernel.calls ∧
      ∀ d fd data r, SysCall.send d fd data r ∉ new := by
    have hu' := hu
    unfold processIn at hu'
    split_ifs at hu'
    · rw [read_handler hs hc] at hu'
      obtain rfl := Option.some.inj hu'
      exact read_calls _ _ _ _ _
    · obtain rfl := Option.some.inj hu'
      exact ⟨[], rfl, by simp⟩
  unfold processOut at ht
  rw [if_pos hout, if_neg (by simp [herr]),
    read_handler (processIn_installed hs hu) (hopen u hu)] at ht
  obtain rfl := Option.some.inj ht
  obtain ⟨new₁, h₁, hno₁⟩ := hin
  obtain ⟨new₂, h₂, hno₂⟩ :=
    read_calls u ev.pConn ev.envOut.recv ev.envOut.now ev.envOut.currTime
  have heq : new = new₂ ++ new₁ := by
    refine (List.append_left_inj s.kernel.calls).mp ?_
    rw [← hnew, List.append_assoc, ← h₁]
    exact h₂
  rw [heq] at hsend
  rcases List.mem_append.mp hsend with hm | hm
  · exact hno₂ _ _ _ _ hm
  · exact hno₁ _ _ _ _ hm

/-- A batch resumes the suspended messages that its events ask for if and only if they ask for
none. -/
theorem resumed_iff {es : List Event} (h : process.Run es s) (events : List EpollEvent) :
    (∀ ev t, s.Turn events ev t → t.Resuming ev → t.Resumed ev) ↔
      ∀ ev t, s.Turn events ev t → ¬ t.Resuming ev := by
  refine ⟨fun hall ev t hturn hres => ?_, fun hno ev t hturn hres => absurd hres (hno ev t hturn)⟩
  have hinst : t.ClientsInstalled := by
    obtain ⟨before, after, -, ht⟩ := hturn
    exact epolWaitlProcessEvents_installed (run_clientsInstalled h) ht
  exact not_resumed hinst hres (hall ev t hturn hres)

/-- With a message suspended, an event for more input alone is handled as promised. -/
theorem resumed_iff_read_only : ∃ s : Server, (s.conn 1).send.sendMsgLen = 5 ∧
    ∀ ev t, s.Turn [⟨1, epollIn, .idle, .idle⟩] ev t → t.Resuming ev → t.Resumed ev := by
  obtain ⟨s, hrun, hs⟩ := process_run_of_play (fun _ _ => True) smallConfig suspendedReply
    (fun s => (s.conn 1).send.sendMsgLen) 5 (by decide)
  refine ⟨s, hs, (resumed_iff hrun.of_restrict _).mpr ?_⟩
  rintro ev t ⟨before, after, hev, -⟩ ⟨-, -, hout, -⟩
  obtain ⟨rfl, rfl, -⟩ : before = [] ∧ ev = ⟨1, epollIn, .idle, .idle⟩ ∧ after = [] := by
    cases before <;> simp_all
  revert hout
  decide

/-- A writable event for the suspended reply runs the read handler. -/
theorem writable_event_reads : ¬ ∀ es s, process.Run es s → ∀ events ev t,
    s.Turn events ev t → t.Resuming ev → t.Resumed ev := by
  intro hall
  obtain ⟨s, hrun, hs⟩ := process_run_of_play (fun _ _ => True) smallConfig suspendedReply
    (fun s => (decide (1 ∈ s.pool.clients), (s.conn 1).send.throwSendMsgCount)) (true, 1)
    (by decide)
  obtain ⟨hopen, hthrow⟩ := Prod.mk.inj hs
  have hrun := hrun.of_restrict
  have hopen : 1 ∈ s.pool.clients := by simpa using hopen
  have hres : s.Resuming ⟨1, epollOut, .idle, .idle⟩ := by
    refine ⟨hopen, by simp [hthrow], by decide, by decide, fun t ht => ?_⟩
    rw [processIn, if_neg (by decide)] at ht
    obtain rfl := Option.some.inj ht
    exact hopen
  have hinst := run_clientsInstalled hrun
  exact not_resumed hinst hres (hall _ s hrun [⟨1, epollOut, .idle, .idle⟩] _ s
    ⟨[], [], rfl, rfl⟩ hres)

end Server
end XiaoHGServer
