import XiaoHGServer.Pool.Partition

/-!
# Steps and the uses of connection objects

What one step of the process does to the places and the serial numbers of the
connection objects, and to what the heartbeat monitor reads.
-/

namespace XiaoHGServer

namespace ConnectionPool

variable {p q r : ConnectionPool} {c : ConnId}

/-- Every object has the same place in both pools; the counters may differ. -/
structure SamePlaces (p q : ConnectionPool) : Prop where
  objects : q.connectionList = p.connectionList
  free : q.freeConnectionList = p.freeConnectionList
  recy : q.recyConnectionList = p.recyConnectionList
  listen : q.listenSocketList = p.listenSocketList
  clients : q.clients = p.clients

theorem SamePlaces.refl (p : ConnectionPool) : p.SamePlaces p := ⟨rfl, rfl, rfl, rfl, rfl⟩

theorem SamePlaces.trans (h : p.SamePlaces q) (h' : q.SamePlaces r) : p.SamePlaces r :=
  ⟨h'.objects.trans h.objects, h'.free.trans h.free, h'.recy.trans h.recy,
    h'.listen.trans h.listen, h'.clients.trans h.clients⟩

theorem SamePlaces.symm (h : p.SamePlaces q) : q.SamePlaces p :=
  ⟨h.objects.symm, h.free.symm, h.recy.symm, h.listen.symm, h.clients.symm⟩

/-- The pool after `GetConnection`, whose object is in use from then on. -/
def taken (p : ConnectionPool) : ConnectionPool :=
  { p.getConnection with clients := p.front :: p.clients }

/-- The places partition the objects; the counters may not count yet. -/
def Placed (p : ConnectionPool) : Prop := ∃ q : ConnectionPool, p.SamePlaces q ∧ q.Partition

namespace Placed

theorem same (h : p.Placed) (hpq : p.SamePlaces q) : q.Placed := by
  obtain ⟨r, hpr, hr⟩ := h
  exact ⟨r, hpq.symm.trans hpr, hr⟩

theorem mem_objects (h : p.Placed) (hc : c ∈ p.recyConnectionList ∨ c ∈ p.clients) :
    c ∈ p.connectionList := by
  obtain ⟨q, hpq, hq⟩ := h
  rw [← hpq.objects]
  apply hq.perm.subset
  rw [List.mem_append, List.mem_append, inUse, List.mem_append, hpq.recy, hpq.clients]
  rcases hc with hc | hc
  · exact Or.inl (Or.inr hc)
  · exact Or.inr (Or.inl hc)

theorem notMem_recy (h : p.Placed) (hc : c ∈ p.clients) : c ∉ p.recyConnectionList := by
  obtain ⟨q, hpq, hq⟩ := h
  intro hr
  have hnd := (List.nodup_append.mp hq.nodup_places).2.2
  refine hnd c (List.mem_append_right _ ?_) c (List.mem_append_left _ ?_) rfl
  · rwa [hpq.recy]
  · rwa [hpq.clients]

theorem closable (h : p.Placed) (hc : c ∈ p.clients ∨ c ∈ p.recyConnectionList) :
    c ∉ p.freeConnectionList ∧ c ∉ p.listenSocketList := by
  obtain ⟨q, hpq, hq⟩ := h
  have hnd := hq.nodup_places
  simp only [inUse, List.nodup_append, hpq.free, hpq.recy, hpq.clients, hpq.listen,
    List.mem_append] at hnd
  obtain ⟨⟨-, -, hfr⟩, ⟨-, -, hcl⟩, hout⟩ := hnd
  rcases hc with hc | hc
  · exact ⟨fun hf => hout c (Or.inl hf) c (Or.inl hc) rfl, fun hl => hcl c hc c hl rfl⟩
  · exact ⟨fun hf => hfr c hf c hc rfl, fun hl => hout c (Or.inr hc) c (Or.inr hl) rfl⟩

theorem taken (h : p.Placed) : p.taken.Placed := by
  obtain ⟨q, hpq, hq⟩ := h
  refine ⟨q.online, ?_, hq.online_step⟩
  have hfront : q.front = p.front := by rw [front, front, hpq.free, hpq.objects]
  unfold ConnectionPool.taken ConnectionPool.online ConnectionPool.getConnection
  rw [hfront, hpq.free, hpq.clients, hpq.objects]
  split <;> exact ⟨rfl, rfl, hpq.recy, hpq.listen, rfl⟩

theorem closed (h : p.Placed) (hc : c ∈ p.clients ∨ c ∈ p.recyConnectionList) :
    (p.closed c).Placed := by
  have hmem := h.mem_objects hc.symm
  obtain ⟨hfree, hlisten⟩ := h.closable hc
  obtain ⟨q, hpq, hq⟩ := h
  rw [← hpq.objects] at hmem
  rw [← hpq.free] at hfree
  rw [← hpq.listen] at hlisten
  refine ⟨q.closed c, ?_, hq.closed_step hmem hfree hlisten⟩
  unfold ConnectionPool.closed pushConnectToRecyQueue
  rw [hpq.recy, hpq.clients]
  split
  · exact ⟨hpq.objects, hpq.free, hpq.recy, hpq.listen, rfl⟩
  · exact ⟨hpq.objects, hpq.free, rfl, hpq.listen, rfl⟩

theorem recycled (h : p.Placed) (hc : c ∈ p.recyConnectionList) : (p.recycled c).Placed := by
  obtain ⟨q, hpq, hq⟩ := h
  refine ⟨q.recycled c, ?_, hq.recycled_step (by rwa [hpq.recy])⟩
  unfold ConnectionPool.recycled freeConnection takeFromRecyQueue
  rw [hpq.recy, hpq.free]
  exact ⟨hpq.objects, rfl, rfl, hpq.listen, hpq.clients⟩

theorem nodup_clients (h : p.Placed) : p.clients.Nodup := by
  obtain ⟨q, hpq, hq⟩ := h
  rw [← hpq.clients]
  exact (List.nodup_append.mp (List.nodup_append.mp hq.nodup_places).2.1).1

theorem front_notMem (h : p.Placed) : p.front ∉ p.clients := by
  obtain ⟨q, hpq, hq⟩ := h
  intro hc
  refine hq.front_notMem (List.mem_append_right _ (List.mem_append_left _ ?_))
  rwa [front, hpq.free, hpq.objects, hpq.clients]

theorem front_ne (h : p.Placed) (hnil : p.freeConnectionList = []) (hc : c ∈ p.connectionList) :
    c ≠ p.front := by
  obtain ⟨q, hpq, hq⟩ := h
  rw [front, hnil, List.headD_nil, ← hpq.objects]
  rw [← hpq.objects] at hc
  exact Nat.ne_of_lt (hq.mem_iff.mp hc)

end Placed
end ConnectionPool

namespace Server

variable {s t : Server} {c : ConnId}

/-- All objects keep their places and their serial numbers. -/
def SameUses (s t : Server) : Prop :=
  s.pool.SamePlaces t.pool ∧ ∀ c, (t.conn c).currSequence = (s.conn c).currSequence

/-- What a step of the process does to the uses of connection objects. -/
inductive UseMove (s : Server) (e : Event) (t : Server) : Prop
  | same : s.closes e = none → SameUses s t → UseMove s e t
  | accept (env : HandlerEnv) (fd : ℕ) : e = .accept env →
      SameUses (s.admitted fd env.now) t → UseMove s e t
  | close (c : ConnId) (now : ℤ) : s.closes e = some c →
      SameUses (s.closeConnectionToRecy c now) t → UseMove s e t
  | recycle (c : ConnId) (n : ℤ) : c ∈ s.pool.recyConnectionList → s.recycles e = some c →
      SameUses (s.recycled c n) t → UseMove s e t

theorem SameUses.refl (s : Server) : SameUses s s := ⟨.refl _, fun _ => rfl⟩

theorem SameUses.trans {u : Server} (h : SameUses s t) (h' : SameUses t u) : SameUses s u :=
  ⟨h.1.trans h'.1, fun c => (h'.2 c).trans (h.2 c)⟩

theorem SameUses.close (h : SameUses s t) (c : ConnId) (now : ℤ) :
    SameUses (s.closeConnectionToRecy c now) (t.closeConnectionToRecy c now) := by
  obtain ⟨hp, hseq⟩ := h
  constructor
  · rw [closeConnectionToRecy_pool, closeConnectionToRecy_pool]
    unfold ConnectionPool.closed ConnectionPool.pushConnectToRecyQueue
    rw [hp.recy, hp.clients]
    split
    · exact ⟨hp.objects, hp.free, hp.recy, hp.listen, rfl⟩
    · exact ⟨hp.objects, hp.free, rfl, hp.listen, rfl⟩
  · intro d
    rw [closeConnectionToRecy_eq, closeConnectionToRecy_eq]
    by_cases hd : d = c
    · simp [hd, Connection.closed, hp.recy, hseq]
    · simp [hd, hseq]

/-- The clocks of all objects and the timer queue are the same, too. -/
structure SameTimes (s t : Server) : Prop where
  uses : SameUses s t
  config : t.config = s.config
  timer : t.timer = s.timer
  heartbeat : ∀ c, (t.conn c).lastHeartBeatTime = (s.conn c).lastHeartBeatTime

theorem SameTimes.refl (s : Server) : SameTimes s s := ⟨.refl _, rfl, rfl, fun _ => rfl⟩

theorem SameTimes.of_eq (hp : t.pool = s.pool) (hcfg : t.config = s.config)
    (htimer : t.timer = s.timer) (hconn : t.conn = s.conn) : SameTimes s t := by
  refine ⟨⟨by rw [hp]; exact .refl _, fun d => ?_⟩, hcfg, htimer, fun d => ?_⟩ <;> rw [hconn]

theorem SameTimes.of_update {k : Connection} (hp : t.pool = s.pool) (hcfg : t.config = s.config)
    (htimer : t.timer = s.timer) (hconn : t.conn = Function.update s.conn c k)
    (hseq : k.currSequence = (s.conn c).currSequence)
    (hbeat : k.lastHeartBeatTime = (s.conn c).lastHeartBeatTime) : SameTimes s t := by
  refine ⟨⟨by rw [hp]; exact .refl _, fun d => ?_⟩, hcfg, htimer, fun d => ?_⟩ <;> rw [hconn]
  · exact update_field Connection.currSequence hseq d
  · exact update_field Connection.lastHeartBeatTime hbeat d

theorem SameTimes.trans {u : Server} (h : SameTimes s t) (h' : SameTimes t u) : SameTimes s u :=
  ⟨h.uses.trans h'.uses, h'.config.trans h.config, h'.timer.trans h.timer,
    fun c => (h'.heartbeat c).trans (h.heartbeat c)⟩

theorem closeConnectionToRecy_heartbeat {now : ℤ} (d : ConnId) :
    ((s.closeConnectionToRecy c now).conn d).lastHeartBeatTime =
      (s.conn d).lastHeartBeatTime := by
  rw [closeConnectionToRecy_eq]
  exact update_field Connection.lastHeartBeatTime (by rfl) d

theorem SameTimes.close (h : SameTimes s t) (c : ConnId) (now : ℤ) :
    SameTimes (s.closeConnectionToRecy c now) (t.closeConnectionToRecy c now) where
  uses := h.uses.close c now
  config := by simp only [closeConnectionToRecy_eq, h.config]
  timer := by simp only [closeConnectionToRecy_eq, h.config, h.timer]
  heartbeat d := by simp only [closeConnectionToRecy_heartbeat, h.heartbeat]

/-- What a step outside the heartbeat monitor does to the uses of connection objects, to their
clocks and to the timer queue. -/
inductive TimeMove (s : Server) (e : Event) (t : Server) : Prop
  | same : s.closes e = none → SameTimes s t → TimeMove s e t
  | accept (env : HandlerEnv) (fd : ℕ) : e = .accept env →
      SameTimes (s.admitted fd env.now) t → TimeMove s e t
  | handle (i : ℕ) (now : ℤ) (c : ConnId) (x : ℤ) : e = .handle i now →
      SameTimes (s.modifyConn c fun k => { k with lastHeartBeatTime := x }) t → TimeMove s e t
  | close (c : ConnId) (now : ℤ) : s.closes e = some c →
      SameTimes (s.closeConnectionToRecy c now) t → TimeMove s e t
  | recycle (c : ConnId) (n : ℤ) : c ∈ s.pool.recyConnectionList → s.recycles e = some c →
      SameTimes (s.recycled c n) t → TimeMove s e t

theorem takeSendMsg_sameTimes {pos : ℕ} {b : BufId} : SameTimes s (s.takeSendMsg pos b c) :=
  .of_update rfl rfl rfl rfl rfl rfl

theorem iterate_sameTimes {pos : ℕ} {env : SendEnv} (h : s.sendMsgThreadIter pos env = some t) :
    SameTimes s t := by
  rcases iterate_cases h with ⟨-, rfl⟩ | ⟨b, -, ⟨-, rfl⟩ | ⟨-, -, rfl⟩ | ⟨-, -, hstart⟩⟩
  · exact .of_eq rfl rfl rfl rfl
  · exact .of_eq rfl rfl rfl rfl
  · exact .of_eq rfl rfl rfl rfl
  · have htake : SameTimes s (s.takeSendMsg pos b (s.sendHeader b).pConn) := takeSendMsg_sameTimes
    refine htake.trans ?_
    rcases startSend_cases hstart with ⟨-, rfl⟩ | ⟨n, -, -, -, rfl⟩ | ⟨-, rfl⟩
    · exact .of_eq rfl rfl rfl rfl
    · exact .of_update rfl rfl rfl rfl rfl rfl
    · exact .of_update rfl rfl rfl rfl rfl rfl

theorem write_sameTimes {env : SendEnv} (h : s.epollEventWriteRequestHandler c env = some t) :
    SameTimes s t := by
  rcases write_cases h with ⟨n, -, -, -, rfl⟩ | ⟨-, rfl⟩ | ⟨n, -, -, -, rfl⟩ | ⟨-, rfl⟩
  · exact .of_update rfl rfl rfl rfl rfl rfl
  · exact .of_eq rfl rfl rfl rfl
  · exact .of_update rfl rfl rfl rfl rfl rfl
  · exact .of_eq rfl rfl rfl rfl

theorem readBase_sameTimes (ret : RecvRet) (currTime : ℕ) :
    SameTimes s (s.readBase c ret currTime).1 := by
  obtain ⟨q, r, f, hform⟩ := onlyRecv_readBase s c ret currTime
  rw [hform]
  exact .of_update rfl rfl rfl rfl rfl rfl

theorem step_timeMove {e : Event} (hno : ∀ now, e ≠ .monitor now) (h : s.next e = some t) :
    TimeMove s e t := by
  cases e with
  | accept env =>
    rcases accept_cases h with ⟨b, calls, rfl, -⟩ | ⟨fd, b, -, rfl⟩
    · exact .same rfl (.of_eq rfl rfl rfl rfl)
    · exact .accept env fd rfl (.of_eq rfl rfl rfl rfl)
  | read c env =>
    obtain rfl := Option.some.inj h
    have hbase := readBase_sameTimes (s := s) (c := c) env.recv env.currTime
    by_cases hclose : (s.readBase c env.recv env.currTime).2 = true
    · refine .close c env.now (by simp [closes, hclose]) ?_
      rw [read_eq, if_pos hclose]
      exact hbase.close c env.now
    · refine .same (by simp [closes, hclose]) ?_
      rwa [read_eq, if_neg hclose]
  | outError c =>
    obtain rfl := Option.some.inj h
    exact .same rfl (.of_update rfl rfl rfl rfl rfl rfl)
  | write c env => exact .same rfl (write_sameTimes h)
  | take =>
    obtain rfl := Option.some.inj h
    unfold takeRecvMsg
    split <;> exact .same rfl (.of_eq rfl rfl rfl rfl)
  | handle i now =>
    obtain rfl | ⟨w, u, r, -, ⟨m, m', x, rfl, -⟩, rfl⟩ := workerHandle_cases h
    · exact .same rfl (.refl _)
    · exact .handle i now _ x rfl (.of_eq rfl rfl rfl rfl)
  | push i now =>
    obtain ⟨rfl, hno⟩ | ⟨b, u, hstage, hu, rfl⟩ := workerPush_cases h
    · exact .same (by simp [closes]) (.refl _)
    · obtain ⟨size, discard, mem, k, rfl, -⟩ := push_cases hu
      by_cases hback : s.backlogged b = true
      · have hbase : s.pushBase b now = s.closeConnectionToRecy (s.sendHeader b).pConn now := by
          simp [pushBase, hback]
        refine .close (s.sendHeader b).pConn now (by simp [closes, hstage, hback]) ?_
        rw [hbase]
        exact .of_update (c := (s.sendHeader b).pConn) rfl rfl rfl rfl rfl rfl
      · have hbase : s.pushBase b now = s := by
          simp [pushBase, hback]
        refine .same (by simp [closes, hstage, hback]) ?_
        rw [hbase]
        exact .of_update (c := (s.sendHeader b).pConn) rfl rfl rfl rfl rfl rfl
  | release i =>
    obtain rfl := Option.some.inj h
    unfold workerRelease
    split <;> exact .same rfl (.of_eq rfl rfl rfl rfl)
  | semWait => cases h; exact .same rfl (.of_eq rfl rfl rfl rfl)
  | semIntr => cases h; exact .same rfl (.of_eq rfl rfl rfl rfl)
  | sizeTest => cases h; exact .same rfl (.of_eq rfl rfl rfl rfl)
  | iterate env =>
    obtain rfl | ⟨pos, -, h⟩ := iterate_pass h
    · exact .same rfl (.refl _)
    · exact .same rfl (iterate_sameTimes h)
  | close c now =>
    obtain rfl := Option.some.inj h
    exact .close c now rfl (.refl _)
  | recycle now =>
    obtain ⟨c, hc, rfl⟩ := lblRRTD_eq_some h
    exact .recycle c _ (List.mem_of_find?_eq_some hc) hc (.refl _)
  | clear =>
    obtain ⟨c, hc, rfl⟩ := lblRRTD2_eq_some h
    exact .recycle c _ (List.mem_of_mem_head? hc) hc (.refl _)
  | monitor now => exact absurd rfl (hno now)

theorem step_useMove {e : Event} (h : s.next e = some t) : UseMove s e t := by
  by_cases hmon : ∃ now, e = .monitor now
  · obtain ⟨now, rfl⟩ := hmon
    obtain ⟨hd, q, hover, -, ⟨hkick, rfl⟩ | ⟨hkick, rfl⟩⟩ := monitor_cases h
    · exact .close hd.pConn now (by simp [closes, hover, hkick]) ⟨.refl _, fun _ => rfl⟩
    · exact .same (by simp [closes, hover, hkick]) ⟨.refl _, fun _ => rfl⟩
  · rcases step_timeMove (fun now heq => hmon ⟨now, heq⟩) h with ⟨hc, hsame⟩ |
      ⟨env, fd, rfl, hsame⟩ | ⟨i, now, c, x, rfl, hsame⟩ | ⟨c, now, hc, hsame⟩ |
      ⟨c, n, hc, hrec, hsame⟩
    · exact .same hc hsame.uses
    · exact .accept env fd rfl hsame.uses
    · have hbeat : SameUses s (s.modifyConn c fun k => { k with lastHeartBeatTime := x }) :=
        ⟨.refl _, fun d => update_field Connection.currSequence (by rfl) d⟩
      exact .same rfl (hbeat.trans hsame.uses)
    · exact .close c now hc hsame.uses
    · exact .recycle c n hc hrec hsame.uses

theorem step_config {e : Event} (h : s.next e = some t) : t.config = s.config := by
  by_cases hmon : ∃ now, e = .monitor now
  · obtain ⟨now, rfl⟩ := hmon
    obtain ⟨hd, q, -, -, ⟨-, rfl⟩ | ⟨-, rfl⟩⟩ := monitor_cases h
    · simp only [closeConnectionToRecy_eq]
    · rfl
  · rcases step_timeMove (fun now heq => hmon ⟨now, heq⟩) h with ⟨-, hsame⟩ | ⟨env, fd, -, hsame⟩ |
      ⟨i, now, c, x, -, hsame⟩ | ⟨c, now, -, hsame⟩ | ⟨c, n, -, -, hsame⟩ <;> rw [hsame.config]
    · rfl
    · rfl
    · simp only [closeConnectionToRecy_eq]
    · rfl

/-- The places stay a partition when objects in use, or in the recycling queue, are closed. -/
theorem PoolMove.placed {e : Event} {p : ConnectionPool} (h : PoolMove s e p)
    (hs : s.pool.Placed)
    (hc : ∀ c ∈ s.closes e, c ∈ s.pool.clients ∨ c ∈ s.pool.recyConnectionList) : p.Placed := by
  rcases h with ⟨-, rfl⟩ | ⟨env, -, rfl⟩ | ⟨c, hclose, rfl⟩ | ⟨c, -, hmem, rfl⟩
  · exact hs
  · exact hs.taken.same ⟨rfl, rfl, rfl, rfl, rfl⟩
  · exact hs.closed (hc c hclose)
  · exact hs.recycled hmem

end Server
end XiaoHGServer
