import XiaoHGServer.Pool.Partition

/-!
# What a step does to the sending state of a connection

The send window, the flag `throwSendMsgCount` and the event mask of a connection
change where a message is started or continued, and where the connection is
accepted. Closing and recycling it and the error branch of the event loop touch
the flag alone.
-/

namespace XiaoHGServer
namespace Server

theorem has_armed (events : BitVec 32) : has (events ||| epollOut) epollOut = true := by
  have habs : (events ||| epollOut) &&& epollOut = epollOut := by
    ext i
    simp only [BitVec.getElem_and, BitVec.getElem_or]
    cases events[i] <;> cases epollOut[i] <;> rfl
  rw [has, habs]
  decide

theorem has_disarmed (events : BitVec 32) : has (events &&& ~~~epollOut) epollOut = false := by
  have hzero : events &&& ~~~epollOut &&& epollOut = 0 := by
    ext i
    simp only [BitVec.getElem_and, BitVec.getElem_not]
    cases events[i] <;> cases epollOut[i] <;> simp
  rw [has, hzero]
  decide

variable {s t : Server} {c : ConnId} {now : ℤ} {e : Event}

/-- The connection has registered `EPOLLOUT`. -/
def Armed (s : Server) (c : ConnId) : Prop := has (s.conn c).epoll.epollEvents epollOut = true

instance (s : Server) (c : ConnId) : Decidable (s.Armed c) := inferInstanceAs (Decidable (_ = _))

/-- The connection for which this iteration of `SendMsgThread` starts a message. -/
def starts (s : Server) : Event → Option ConnId
  | .iterate _ =>
    match s.sender with
    | .pass pos =>
      match s.sendQueue.sendMsgList[pos]? with
      | some b =>
        if (s.conn (s.sendHeader b).pConn).currSequence = (s.sendHeader b).currSequence ∧
            (s.conn (s.sendHeader b).pConn).send.throwSendMsgCount ≤ 0 then
          some (s.sendHeader b).pConn
        else none
      | none => none
    | _ => none
  | _ => none

/-- The values that steps other than sending assign to `throwSendMsgCount` of connection `d`. -/
inductive FlagMove (s : Server) (e : Event) (d : ConnId) : ℤ → Prop
  | close : s.closes e = some d → FlagMove s e d (min (s.conn d).send.throwSendMsgCount 0)
  | recycle : s.recycles e = some d → FlagMove s e d (min (s.conn d).send.throwSendMsgCount 0)
  | clear : s.recycles e = some d → FlagMove s e d (s.conn d).send.throwSendMsgCount
  | outError : e = .outError d → FlagMove s e d ((s.conn d).send.throwSendMsgCount - 1)

/-- What a step does to the sending state of connection `d`. -/
inductive SendMove (s : Server) (e : Event) (t : Server) (d : ConnId) : Prop
  | same : (t.conn d).send = (s.conn d).send → (t.conn d).epoll = (s.conn d).epoll →
      SendMove s e t d
  | flag (n : ℤ) : FlagMove s e d n →
      (t.conn d).send = { (s.conn d).send with throwSendMsgCount := n } →
      (t.conn d).epoll = (s.conn d).epoll → SendMove s e t d
  | accept (env : HandlerEnv) : e = .accept env → SendMove s e t d
  | write (env : SendEnv) : e = .write d env → SendMove s e t d
  | start : s.starts e = some d → SendMove s e t d

theorem iterate_ne {pos : ℕ} {env : SendEnv} {d : ConnId} (hsender : s.sender = .pass pos)
    (h : s.sendMsgThreadIter pos env = some t) (hd : s.starts (.iterate env) ≠ some d) :
    t.conn d = s.conn d := by
  rcases iterate_cases h with ⟨-, rfl⟩ | ⟨b, hb, ⟨-, rfl⟩ | ⟨-, -, rfl⟩ | ⟨hseq, hthrow, hstart⟩⟩
  · rfl
  · rfl
  · rfl
  · have hne : d ≠ (s.sendHeader b).pConn := by
      rintro rfl
      exact hd (by simp [starts, hsender, hb, hseq, hthrow])
    have htake : (s.takeSendMsg pos b (s.sendHeader b).pConn).conn d = s.conn d :=
      takeSendMsg_conn_ne hne
    rcases startSend_cases hstart with ⟨-, rfl⟩ | ⟨n, -, -, -, rfl⟩ | ⟨-, rfl⟩
    · exact htake
    · exact (Function.update_of_ne hne _ _).trans htake
    · exact (Function.update_of_ne hne _ _).trans htake

namespace SendMove

variable {u : Server} {d : ConnId}

theorem congr (h : SendMove s e u d) (hsend : (t.conn d).send = (u.conn d).send)
    (hepoll : (t.conn d).epoll = (u.conn d).epoll) : SendMove s e t d := by
  cases h with
  | same hs he => exact .same (hsend.trans hs) (hepoll.trans he)
  | flag n hn hs he => exact .flag n hn (hsend.trans hs) (hepoll.trans he)
  | accept env he => exact .accept env he
  | write env he => exact .write env he
  | start hd => exact .start hd

/-- Closing connection `c`, after a part of the step that leaves the sending state alone. -/
theorem close (hsend : ∀ d, (u.conn d).send = (s.conn d).send)
    (hepoll : ∀ d, (u.conn d).epoll = (s.conn d).epoll) (hc : s.closes e = some c)
    (now : ℤ) (d : ConnId) : SendMove s e (u.closeConnectionToRecy c now) d := by
  rw [closeConnectionToRecy_eq]
  by_cases hd : d = c
  · subst hd
    refine .flag _ (.close hc) ?_ ?_ <;> simp [Connection.closed, hsend, hepoll]
  · refine .same ?_ ?_ <;> simp [hd, hsend, hepoll]

theorem recycle {n : ℤ} (hn : FlagMove s e c n) (d : ConnId) :
    SendMove s e (s.recycled c n) d := by
  by_cases hd : d = c
  · subst hd
    refine .flag n hn ?_ ?_ <;> simp [recycled]
  · refine .same ?_ ?_ <;> simp [recycled, hd]

end SendMove

theorem step_sendMove (h : s.next e = some t) (d : ConnId) : SendMove s e t d := by
  cases e with
  | accept env => exact .accept env rfl
  | read c env =>
    obtain rfl := Option.some.inj h
    obtain ⟨q, r, f, hform⟩ := onlyRecv_readBase s c env.recv env.currTime
    have hsend (d : ConnId) :
        ((s.readBase c env.recv env.currTime).1.conn d).send = (s.conn d).send := by
      rw [hform]
      exact update_field Connection.send (by rfl) d
    have hepoll (d : ConnId) :
        ((s.readBase c env.recv env.currTime).1.conn d).epoll = (s.conn d).epoll := by
      rw [hform]
      exact update_field Connection.epoll (by rfl) d
    by_cases hclose : (s.readBase c env.recv env.currTime).2 = true
    · have hc : s.closes (.read c env) = some c := by simp [closes, hclose]
      simp only [read_eq, hclose, if_true]
      exact .close hsend hepoll hc _ d
    · simp only [read_eq, hclose, Bool.false_eq_true, if_false]
      exact .same (hsend d) (hepoll d)
  | outError c =>
    obtain rfl := Option.some.inj h
    by_cases hd : d = c
    · subst hd
      refine .flag _ (.outError rfl) ?_ ?_ <;>
        simp [addThrowSendMsgCount, Int.sub_eq_add_neg]
    · refine .same ?_ ?_ <;> simp [addThrowSendMsgCount, hd]
  | write c env =>
    by_cases hd : d = c
    · exact .write env (by rw [hd])
    · rcases write_cases h with ⟨n, -, -, -, rfl⟩ | ⟨-, rfl⟩ | ⟨n, -, -, -, rfl⟩ | ⟨-, rfl⟩ <;>
        exact .same (by simp [hd]) (by simp [hd])
  | take =>
    obtain rfl := Option.some.inj h
    unfold takeRecvMsg
    split <;> exact .same rfl rfl
  | handle i now =>
    obtain rfl | ⟨w, u, r, -, ⟨m, m', x, rfl, -⟩, rfl⟩ := workerHandle_cases h
    · exact .same rfl rfl
    · exact .same (update_field Connection.send (by rfl) d)
        (update_field Connection.epoll (by rfl) d)
  | push i now =>
    obtain ⟨rfl, -⟩ | ⟨b, u, hstage, hu, rfl⟩ := workerPush_cases h
    · exact .same rfl rfl
    · obtain ⟨size, discard, mem, k, rfl, -⟩ := push_cases hu
      have hbase : SendMove s (.push i now) (s.pushBase b now) d := by
        unfold pushBase
        split_ifs with hback
        · have hc : s.closes (.push i now) = some (s.sendHeader b).pConn := by
            simp [closes, hstage, hback]
          exact .close (fun _ => rfl) (fun _ => rfl) hc _ d
        · exact .same rfl rfl
      exact hbase.congr (update_field Connection.send (by rfl) d)
        (update_field Connection.epoll (by rfl) d)
  | release i =>
    obtain rfl := Option.some.inj h
    unfold workerRelease
    split <;> exact .same rfl rfl
  | semWait => cases h; exact .same rfl rfl
  | semIntr => cases h; exact .same rfl rfl
  | sizeTest => cases h; exact .same rfl rfl
  | iterate env =>
    by_cases hd : s.starts (.iterate env) = some d
    · exact .start hd
    · obtain rfl | ⟨pos, hsender, h⟩ := iterate_pass h
      · exact .same rfl rfl
      · have heq := iterate_ne hsender h hd
        exact .same (by rw [heq]) (by rw [heq])
  | close c now =>
    obtain rfl := Option.some.inj h
    exact .close (fun _ => rfl) (fun _ => rfl) rfl _ d
  | recycle now =>
    obtain ⟨c, hc, rfl⟩ := lblRRTD_eq_some h
    exact .recycle (.recycle (e := .recycle now) hc) d
  | clear =>
    obtain ⟨c, hc, rfl⟩ := lblRRTD2_eq_some h
    exact .recycle (.clear (e := .clear) hc) d
  | monitor now =>
    obtain ⟨hd, q, hover, -, ⟨hkick, rfl⟩ | ⟨-, rfl⟩⟩ := monitor_cases h
    · have hc : s.closes (.monitor now) = some hd.pConn := by simp [closes, hover, hkick]
      exact (SendMove.close (fun _ => rfl) (fun _ => rfl) hc now d).congr rfl rfl
    · exact .same rfl rfl

end Server
end XiaoHGServer
