import XiaoHGServer.Pool.Descriptors
import XiaoHGServer.Timer.Queue
import XiaoHGServer.Worker.Reply

/-!
# The accuracy of the heartbeat monitor

A worker process with a clock that does not go back, and the polls of
`HeartBeatMonitorThread`: each reads the clock, makes its cheap test, and sweeps
the timer queue turn by turn while other threads go on. The invariant ties the
key of a client's timer to its last heartbeat.
-/

namespace XiaoHGServer

/-- What `time(NULL)` returns in an event of the process. -/
def Event.clock : Event → Option ℤ
  | .accept env => some env.now
  | .read _ env => some env.now
  | .handle _ now => some now
  | .push _ now => some now
  | .close _ now => some now
  | .recycle now => some now
  | .monitor now => some now
  | _ => none

/-- The turns of the monitor belong to its polls. -/
def Event.ofMonitor : Event → Bool
  | .monitor _ => true
  | _ => false

/-- A worker process, its clock, the time of the sweep that is going on, and that of a poll which
has just come to its end. -/
structure Monitored where
  server : Server
  clock : ℤ
  sweep : Option ℤ
  polled : Option ℤ

inductive MonitorEvent
  | process (e : Event)
  /-- `HeartBeatMonitorThread` reads the clock and makes its test. -/
  | poll (now : ℤ)
  /-- A turn of the loop of the sweep, or its end. -/
  | turn
  deriving DecidableEq, Repr

inductive Beat
  | accepted (c : ConnId)
  | heartbeat (c : ConnId) (now : ℤ)
  deriving DecidableEq, Repr

/-- The times of the heartbeats that were received from `c` in its present use. -/
def beats (c : ConnId) : List Beat → List ℤ
  | [] => []
  | .accepted d :: hist => if d = c then [] else beats c hist
  | .heartbeat d now :: hist => if d = c then now :: beats c hist else beats c hist

/-- The heartbeat check is on, clients are not kicked at once, and the numbers fit their types. -/
structure Config.Checks (cfg : Config) : Prop where
  enabled : cfg.isHBTimeOutCheckEnable = 1
  patient : cfg.isTimeOutKick ≠ 1
  wait : 5 ≤ cfg.waitTime
  fits : 4 * cfg.waitTime + 10 < 2 ^ 31
  users : cfg.epollCreateConnectCount < 2 ^ 32

namespace Monitored

/-- `m_CurrentHeartBeatListSize > 0` and `m_HBListEarliestTime < CurrentTime`. -/
def due (m : Monitored) (now : ℤ) : Bool :=
  0 < m.server.timer.currentHeartBeatListSize ∧ m.server.timer.hbListEarliestTime < now

/-- Connections are closed while they are in use, and the clock does not go back. -/
def Enabled (m : Monitored) : MonitorEvent → Prop
  | .process e => e.ofMonitor = false ∧ m.server.Enabled e ∧
      (∀ c ∈ m.server.closes e, c ∈ m.server.pool.clients) ∧ ∀ now ∈ e.clock, m.clock ≤ now
  | .poll now => m.sweep = none ∧ m.clock ≤ now
  | .turn => m.sweep.isSome = true

def next (m : Monitored) : MonitorEvent → Option Monitored
  | .process e => (m.server.next e).map fun t => ⟨t, e.clock.getD m.clock, m.sweep, none⟩
  | .poll now =>
    some (if m.due now then ⟨m.server, now, some now, none⟩ else ⟨m.server, now, none, some now⟩)
  | .turn => m.sweep.map fun now =>
    match m.server.heartBeatMonitorIter now with
    | some t => ⟨t, m.clock, some now, none⟩
    | none => ⟨m.server, m.clock, none, some now⟩

/-- The connection that worker `i` has a heartbeat packet of. -/
def heartbeatOf (s : Server) (i : ℕ) : Option ConnId :=
  match s.workers[i]? with
  | some w =>
    if msgCode (s.recvPkg w.pJobBuf) = cmdHeartbeat ∧
        pkgLength (s.recvPkg w.pJobBuf) = lenPkgHeader then
      some (s.recvHeader w.pJobBuf).pConn
    else none
  | none => none

def beat (m : Monitored) : MonitorEvent → List Beat
  | .process (.accept env) => (m.server.acceptedConn env).toList.map .accepted
  | .process (.handle i now) => (heartbeatOf m.server i).toList.map fun c => .heartbeat c now
  | _ => []

/-- A process that has just been started, with the heartbeat check on. -/
def Start (m : Monitored) : Prop :=
  m.server.Booted ∧ m.server.config.Checks ∧ m.sweep = none ∧ m.polled = none

/-- A poll leaves no client online that has been silent for too long, and the next turn of a sweep
kicks no client that has sent a heartbeat not long ago. -/
structure Accurate (m : Monitored) (hist : List Beat) : Prop where
  bounded : ∀ now ∈ m.polled, ∀ c ∈ m.server.pool.clients,
    now - (m.server.conn c).lastHeartBeatTime ≤ 4 * m.server.config.waitTime + 10
  justified : ∀ now ∈ m.sweep, ∀ c ∈ m.server.closes (.monitor now),
    c ∈ m.server.pool.clients ∧ ∀ h ∈ beats c hist, 3 * m.server.config.waitTime + 10 < now - h

end Monitored

def monitoring : System Monitored MonitorEvent :=
  .ofNext Monitored.Start Monitored.Enabled Monitored.next

namespace Monitored

variable {s t : Server} {c : ConnId} {now clock clock' : ℤ} {e : Event} {hist hist' : List Beat}

/-- Every client has one timer, under its present serial number, which is set for a time not long
after its last heartbeat. -/
structure OneTimerEach (s : Server) (clock : ℤ) (hist : List Beat) : Prop where
  config : s.config.Checks
  owners : (s.timer.entries.map fun x => x.2.pConn).Perm s.pool.clients
  stamps : ∀ x ∈ s.timer.entries, x.2.currSequence = (s.conn x.2.pConn).currSequence
  keys : ∀ x ∈ s.timer.entries,
    x.1 ≤ (s.conn x.2.pConn).lastHeartBeatTime + 4 * s.config.waitTime + 10
  past : ∀ c ∈ s.pool.clients, (s.conn c).lastHeartBeatTime ≤ clock
  heard : ∀ c ∈ s.pool.clients, ∀ h ∈ beats c hist, h ≤ (s.conn c).lastHeartBeatTime
  users : s.pool.clients.length ≤ s.config.epollCreateConnectCount

theorem kicks_iff {hd : MsgHeader} (hpatient : s.config.isTimeOutKick ≠ 1)
    (hseq : hd.currSequence = (s.conn hd.pConn).currSequence) : s.kicks hd now = true ↔
      s.config.waitTime * 3 + 10 < now - (s.conn hd.pConn).lastHeartBeatTime := by
  simp [Server.kicks, hseq, hpatient]

/-- The check closes the connection of a header that it kicks, and releases the header. -/
theorem heartBeatTimeOutCheck_eq {b : BufId} : s.heartBeatTimeOutCheck b now =
    (if s.kicks (s.timer.mem.buffer b).header now then
        s.closeConnectionToRecy (s.timer.mem.buffer b).header.pConn now
      else s).freeTimerHeader b := by
  unfold Server.heartBeatTimeOutCheck Server.freeTimerHeader Server.kicks
  dsimp only
  by_cases hseq : (s.timer.mem.buffer b).header.currSequence =
      (s.conn (s.timer.mem.buffer b).header.pConn).currSequence
  · by_cases hkick : s.config.isTimeOutKick = 1
    · simp only [hseq, hkick, if_true, true_or, and_self, decide_true]
    · simp only [hseq, hkick, if_true, if_false, true_and, false_or, decide_eq_true_eq]
  · simp only [hseq, if_false, false_and, decide_false, Bool.false_eq_true]

theorem handle_heartbeat {i : ℕ} (ht : s.next (.handle i now) = some t) :
    (t.config = s.config ∧ t.timer = s.timer ∧ t.pool = s.pool ∧
      ∀ c, (t.conn c).currSequence = (s.conn c).currSequence) ∧
    (∀ c, (t.conn c).lastHeartBeatTime = (s.conn c).lastHeartBeatTime ∨
      (t.conn c).lastHeartBeatTime = now) ∧
    ∀ c ∈ heartbeatOf s i, (t.conn c).lastHeartBeatTime = now := by
  refine ⟨?_, ?_⟩
  · obtain rfl | ⟨w, u, r, -, ⟨m, m', x, rfl, -⟩, rfl⟩ := Server.workerHandle_cases ht
    · exact ⟨rfl, rfl, rfl, fun _ => rfl⟩
    · exact ⟨rfl, rfl, rfl, fun d => update_field Connection.currSequence (by rfl) d⟩
  · cases hw : s.workers[i]? with
    | none =>
      obtain rfl : s = t := by simpa [Server.next, Server.workerHandle, hw] using ht
      exact ⟨fun _ => Or.inl rfl, by simp [heartbeatOf, hw]⟩
    | some w =>
      have hok : ¬ s.Rejected w.pJobBuf := by
        intro hrej
        have hnone : s.next (.handle i now) = none :=
          Server.workerHandle_eq_none_iff.mpr ⟨w, hw, hrej⟩
        rw [hnone] at ht
        cases ht
      obtain ⟨k, hk⟩ := Server.code_of_not_rejected hok
      have hans := Server.handle_answer now hw hok hk
      split_ifs at hans with hlen
      · obtain ⟨t', ht', -, hans⟩ := hans
        obtain rfl : t = t' := Option.some.inj (ht.symm.trans ht')
        refine ⟨fun c => ?_, fun c hc => ?_⟩
        · rw [hans.heartbeat]
          split_ifs
          · exact Or.inr rfl
          · exact Or.inl rfl
        · simp only [heartbeatOf, hw, Option.mem_def, Option.ite_none_right_eq_some] at hc
          obtain ⟨⟨hcode, -⟩, hc⟩ := hc
          have hbeat : k = .handleHeartbeat := LogicHandler.code_inj (hk.symm.trans hcode)
          rw [hans.heartbeat, if_pos ⟨hbeat, (Option.some.inj hc).symm⟩]
      · obtain ⟨t', ht', -, -, hconn⟩ := hans
        obtain rfl : t = t' := Option.some.inj (ht.symm.trans ht')
        refine ⟨fun c => Or.inl (by rw [hconn]), fun c hc => ?_⟩
        simp only [heartbeatOf, hw, Option.mem_def, Option.ite_none_right_eq_some] at hc
        obtain ⟨⟨hcode, hsize⟩, -⟩ := hc
        have hbeat : k = .handleHeartbeat := LogicHandler.code_inj (hk.symm.trans hcode)
        subst hbeat
        exact absurd (by rw [hsize]; rfl) hlen

namespace OneTimerEach

theorem mem_clients (h : OneTimerEach s clock hist) {x : ℤ × MsgHeader}
    (hx : x ∈ s.timer.entries) : x.2.pConn ∈ s.pool.clients :=
  h.owners.subset (List.mem_map_of_mem hx)

theorem frame (h : OneTimerEach s clock hist) (hcfg : t.config = s.config)
    (hentries : t.timer.entries = s.timer.entries) (hclients : t.pool.clients = s.pool.clients)
    (hconn : ∀ c ∈ s.pool.clients, (t.conn c).currSequence = (s.conn c).currSequence ∧
      (s.conn c).lastHeartBeatTime ≤ (t.conn c).lastHeartBeatTime ∧
      (t.conn c).lastHeartBeatTime ≤ clock')
    (hbeats : ∀ c ∈ s.pool.clients, ∀ x ∈ beats c hist',
      x ≤ (t.conn c).lastHeartBeatTime) : OneTimerEach t clock' hist' where
  config := hcfg ▸ h.config
  owners := by rw [hentries, hclients]; exact h.owners
  stamps x hx := by
    rw [hentries] at hx
    rw [(hconn _ (h.mem_clients hx)).1, h.stamps x hx]
  keys x hx := by
    rw [hentries] at hx
    have hkey := h.keys x hx
    have hmono := (hconn _ (h.mem_clients hx)).2.1
    rw [hcfg]
    omega
  past c hc := (hconn c (hclients ▸ hc)).2.2
  heard c hc := hbeats c (hclients ▸ hc)
  users := by rw [hclients, hcfg]; exact h.users

theorem same (h : OneTimerEach s clock hist) (hs : s.SameTimes t) (hle : clock ≤ clock') :
    OneTimerEach t clock' hist := by
  refine h.frame hs.config (by rw [hs.timer]) hs.uses.1.clients (fun c hc => ?_) fun c hc x hx => ?_
  · exact ⟨hs.uses.2 c, (hs.heartbeat c).ge, (hs.heartbeat c).le.trans ((h.past c hc).trans hle)⟩
  · rw [hs.heartbeat]
    exact h.heard c hc x hx

/-- A client leaves, and its timer with it. Timers of others may have been set meanwhile. -/
theorem close {q : TimerQueue} {held : List BufId} (h : OneTimerEach s clock hist)
    (hnodup : s.pool.clients.Nodup) (hq : q.Represented held)
    (howners : (q.entries.map fun x => x.2.pConn).Perm s.pool.clients)
    (hrest : ∀ x ∈ q.entries, x.2.pConn ≠ c → x ∈ s.timer.entries) (hle : clock ≤ clock') :
    OneTimerEach ({ s with timer := q }.closeConnectionToRecy c now) clock' hist := by
  set t := { s with timer := q }.closeConnectionToRecy c now with ht
  have hentries : t.timer.entries = q.entries.filter fun x => x.2.pConn != c := by
    rw [ht, Server.closeConnectionToRecy_eq]
    dsimp only
    rw [if_pos h.config.enabled]
    exact hq.deleteFromTimerQueue_entries
  have hclients : t.pool.clients = s.pool.clients.erase c := by
    rw [ht, Server.closeConnectionToRecy_eq]
  have hcfg : t.config = s.config := by
    rw [ht, Server.closeConnectionToRecy_eq]
  have hseq (d : ConnId) (hd : d ≠ c) : (t.conn d).currSequence = (s.conn d).currSequence := by
    rw [ht, Server.closeConnectionToRecy_eq]
    simp [hd]
  have hbeat (d : ConnId) : (t.conn d).lastHeartBeatTime = (s.conn d).lastHeartBeatTime :=
    Server.closeConnectionToRecy_heartbeat (s := { s with timer := q }) d
  have hold {x : ℤ × MsgHeader} (hx : x ∈ t.timer.entries) :
      x ∈ s.timer.entries ∧ x.2.pConn ≠ c := by
    rw [hentries, List.mem_filter, bne_iff_ne] at hx
    exact ⟨hrest x hx.1 hx.2, hx.2⟩
  have hsub {d : ConnId} (hd : d ∈ t.pool.clients) : d ∈ s.pool.clients :=
    List.mem_of_mem_erase (hclients ▸ hd)
  refine ⟨hcfg ▸ h.config, ?_, fun x hx => ?_, fun x hx => ?_, fun d hd => ?_, fun d hd => ?_, ?_⟩
  · rw [hentries, hclients, hnodup.erase_eq_filter]
    simpa [List.filter_map, Function.comp_def] using howners.filter (· != c)
  · rw [hseq _ (hold hx).2]
    exact h.stamps x (hold hx).1
  · rw [hbeat, hcfg]
    exact h.keys x (hold hx).1
  · rw [hbeat]
    exact (h.past d (hsub hd)).trans hle
  · rw [hbeat]
    exact h.heard d (hsub hd)
  · rw [hclients, hcfg]
    exact List.length_erase_le.trans h.users

theorem accept {fd : ℕ} (h : OneTimerEach s clock hist) (hq : s.timer.Represented [])
    (hfront : s.pool.front ∉ s.pool.clients) (hfew : s.tooManyUsers = false)
    (honline : s.pool.onLineUserCount = s.pool.clients.length) (hle : clock ≤ now) :
    OneTimerEach (s.admitted fd now) now (.accepted s.pool.front :: hist) := by
  set c := s.pool.front with hc
  set t := s.admitted fd now with ht
  have hseq : (t.conn c).currSequence = (s.taken.installed fd now).currSequence := by
    simp [ht, Server.admitted, hc]
  have hbeat : (t.conn c).lastHeartBeatTime = now := by
    simp [ht, Server.admitted, hc, Connection.installed, Connection.getOneToUse]
  have hother (d : ConnId) (hd : d ∈ s.pool.clients) : t.conn d = s.conn d := by
    have hne : d ≠ c := fun heq => hfront (heq ▸ hd)
    simp [ht, Server.admitted, hc ▸ hne]
  have hentries : t.timer.entries.Perm ((now + s.config.waitTime,
      ⟨c, (s.taken.installed fd now).currSequence⟩) :: s.timer.entries) := by
    simp only [ht, Server.admitted, if_pos h.config.enabled]
    exact hq.addToTimerList_entries
  have hwait := h.config.wait
  have hmem {x : ℤ × MsgHeader} (hx : x ∈ t.timer.entries) :
      x = (now + s.config.waitTime, ⟨c, (s.taken.installed fd now).currSequence⟩) ∨
        x ∈ s.timer.entries := List.mem_cons.mp (hentries.subset hx)
  have hclient {d : ConnId} (hd : d ∈ t.pool.clients) : d = c ∨ d ∈ s.pool.clients :=
    List.mem_cons.mp hd
  refine ⟨h.config, (hentries.map _).trans (h.owners.cons c), fun x hx => ?_, fun x hx => ?_,
    fun d hd => ?_, fun d hd y hy => ?_, ?_⟩
  · rcases hmem hx with rfl | hx
    · exact hseq.symm
    · rw [hother _ (h.mem_clients hx)]
      exact h.stamps x hx
  · rcases hmem hx with rfl | hx
    · change now + s.config.waitTime ≤ (t.conn c).lastHeartBeatTime + 4 * s.config.waitTime + 10
      rw [hbeat]
      omega
    · rw [hother _ (h.mem_clients hx)]
      exact h.keys x hx
  · rcases hclient hd with rfl | hd
    · exact hbeat.le
    · rw [hother d hd]
      exact (h.past d hd).trans hle
  · rcases hclient hd with rfl | hd
    · simp [beats] at hy
    · have hne : c ≠ d := fun heq => hfront (heq ▸ hd)
      rw [beats, if_neg hne] at hy
      rw [hother d hd]
      exact h.heard d hd y hy
  · have hlt : s.pool.clients.length < s.config.epollCreateConnectCount := by
      have husers := h.users
      have hbound := h.config.users
      simp only [Server.tooManyUsers, decide_eq_false_iff_not, honline, intToU32] at hfew
      omega
    exact hlt

theorem handle {i : ℕ} (h : OneTimerEach s clock hist) (hle : clock ≤ now)
    (ht : s.next (.handle i now) = some t) :
    OneTimerEach t now ((heartbeatOf s i).toList.map (fun c => .heartbeat c now) ++ hist) := by
  obtain ⟨⟨hcfg, htimer, hpool, hseq⟩, hbeat, hnew⟩ := handle_heartbeat ht
  have hmono (c : ConnId) (hc : c ∈ s.pool.clients) :
      (s.conn c).lastHeartBeatTime ≤ (t.conn c).lastHeartBeatTime ∧
        (t.conn c).lastHeartBeatTime ≤ now := by
    have hpast := (h.past c hc).trans hle
    rcases hbeat c with heq | heq <;> rw [heq]
    · exact ⟨le_rfl, hpast⟩
    · exact ⟨hpast, le_rfl⟩
  refine h.frame hcfg (by rw [htimer]) (by rw [hpool]) (fun c hc => ⟨hseq c, hmono c hc⟩)
    fun c hc x hx => ?_
  cases hd : heartbeatOf s i with
  | none =>
    rw [hd] at hx
    exact (h.heard c hc x hx).trans (hmono c hc).1
  | some d =>
    simp only [hd, Option.toList_some, List.map_cons, List.map_nil, List.singleton_append,
      beats] at hx
    split_ifs at hx with hdc
    · rcases List.mem_cons.mp hx with rfl | hx
      · rw [hnew c (hdc ▸ hd)]
      · exact (h.heard c hc x hx).trans (hmono c hc).1
    · exact (h.heard c hc x hx).trans (hmono c hc).1

/-- A timer that is due is set again, unless its client has been silent for too long. -/
theorem rearm {q : TimerQueue} {key : ℤ} {hd : MsgHeader} {rest : List (ℤ × MsgHeader)}
    (h : OneTimerEach s clock hist) (hfirst : s.timer.entries = (key, hd) :: rest)
    (hset : q.entries.Perm ((now + s.config.waitTime, hd) :: rest))
    (hkeep : s.kicks hd now = false) : OneTimerEach { s with timer := q } clock hist := by
  have hin : (key, hd) ∈ s.timer.entries := by
    rw [hfirst]
    exact List.mem_cons_self ..
  have hseq : hd.currSequence = (s.conn hd.pConn).currSequence := h.stamps _ hin
  have hmem {x : ℤ × MsgHeader} (hx : x ∈ q.entries) :
      x = (now + s.config.waitTime, hd) ∨ x ∈ s.timer.entries := by
    rcases List.mem_cons.mp (hset.subset hx) with rfl | hx
    · exact Or.inl rfl
    · rw [hfirst]
      exact Or.inr (List.mem_cons_of_mem _ hx)
  have howners := h.owners
  rw [hfirst] at howners
  refine ⟨h.config, (hset.map _).trans howners, fun x hx => ?_, fun x hx => ?_, h.past, h.heard,
    h.users⟩
  · rcases hmem hx with rfl | hx
    · exact hseq
    · exact h.stamps x hx
  · rcases hmem hx with rfl | hx
    · have hsilent : ¬ s.config.waitTime * 3 + 10 <
          now - (s.conn hd.pConn).lastHeartBeatTime := by
        rw [← kicks_iff h.config.patient hseq, hkeep]
        exact Bool.false_ne_true
      change now + s.config.waitTime ≤
        (s.conn hd.pConn).lastHeartBeatTime + 4 * s.config.waitTime + 10
      omega
    · exact h.keys x hx

theorem freeTimerHeader {b : BufId} (h : OneTimerEach s clock hist) :
    OneTimerEach (s.freeTimerHeader b) clock hist := by
  refine h.frame rfl ?_ rfl (fun c hc => ⟨rfl, le_rfl, h.past c hc⟩) h.heard
  simp [Server.freeTimerHeader, TimerQueue.entries]

/-- A turn of a sweep: the first timer is due, and its client leaves or has it set again. -/
theorem turn (h : OneTimerEach s clock hist) (hnodup : s.pool.clients.Nodup)
    (hq : s.timer.Represented []) (ht : s.heartBeatMonitorIter now = some t) :
    OneTimerEach t clock hist := by
  unfold Server.heartBeatMonitorIter at ht
  split at ht
  · cases ht
  · rename_i q b hget
    obtain ⟨key, rest, hfirst, -, hset⟩ := hq.getOverTimeTimer_entries h.config.patient hget
    rw [← Option.some.inj ht, heartBeatTimeOutCheck_eq]
    apply OneTimerEach.freeTimerHeader
    split_ifs with hkick
    · have howners : (q.entries.map fun x => x.2.pConn).Perm s.pool.clients := by
        have hold := h.owners
        rw [hfirst] at hold
        exact (hset.map _).trans hold
      refine h.close hnodup (hq.getOverTimeTimer hget) howners (fun x hx hne => ?_) le_rfl
      rcases List.mem_cons.mp (hset.subset hx) with rfl | hx
      · exact absurd rfl hne
      · rw [hfirst]
        exact List.mem_cons_of_mem _ hx
    · exact h.rearm hfirst hset (Bool.eq_false_iff.mpr hkick)

/-- When no timer is due any more, nobody has been silent for long. -/
theorem bounded (h : OneTimerEach s clock hist) (hkeys : ∀ x ∈ s.timer.entries, now ≤ x.1) :
    ∀ c ∈ s.pool.clients,
      now - (s.conn c).lastHeartBeatTime ≤ 4 * s.config.waitTime + 10 := by
  intro c hc
  obtain ⟨x, hx, rfl⟩ := List.mem_map.mp (h.owners.symm.subset hc)
  have hlow := hkeys x hx
  have hkey := h.keys x hx
  omega

/-- A client that the monitor closes has been silent for long. -/
theorem justified (h : OneTimerEach s clock hist) (hq : s.timer.Represented []) :
    ∀ c ∈ s.closes (.monitor now),
      c ∈ s.pool.clients ∧ ∀ x ∈ beats c hist, 3 * s.config.waitTime + 10 < now - x := by
  intro c hc
  obtain ⟨hd, hover, hc⟩ := Option.bind_eq_some_iff.mp hc
  obtain ⟨b, hget, rfl⟩ := Option.map_eq_some_iff.mp hover
  obtain ⟨key, rest, hfirst, -, -⟩ :=
    hq.getOverTimeTimer_entries h.config.patient (Prod.ext rfl hget)
  rw [(TimerQueue.getOverTimeTimer_some (Prod.ext rfl hget)).2.1] at hfirst
  have hin : (key, (s.timer.mem.buffer b).header) ∈ s.timer.entries := by
    rw [hfirst]
    exact List.mem_cons_self ..
  split_ifs at hc with hkick
  · obtain rfl := Option.some.inj hc
    refine ⟨h.mem_clients hin, fun x hx => ?_⟩
    have hsilent := (kicks_iff h.config.patient (h.stamps _ hin)).mp hkick
    have hheard := h.heard _ (h.mem_clients hin) x hx
    omega

theorem process_step (h : OneTimerEach s clock hist) (hi : s.PoolInv)
    (hq : s.timer.Represented []) (hmon : e.ofMonitor = false)
    (hclients : ∀ c ∈ s.closes e, c ∈ s.pool.clients) (hclock : ∀ now ∈ e.clock, clock ≤ now)
    (ht : s.next e = some t) :
    OneTimerEach t (e.clock.getD clock) (beat ⟨s, clock, none, none⟩ (.process e) ++ hist) := by
  have hle : clock ≤ e.clock.getD clock := by
    cases hc : e.clock with
    | none => exact le_rfl
    | some now => exact hclock now hc
  have hplaced : s.pool.Placed := ⟨_, .refl _, hi.partition⟩
  by_cases hacc : ∃ env, e = .accept env
  · obtain ⟨env, rfl⟩ := hacc
    rcases Server.accept_taken ht with ⟨hnone, b, k, rfl⟩ | ⟨hsome, hfew, fd, b, rfl⟩
    · simp only [beat, hnone, Option.toList_none, List.map_nil]
      exact h.same (.of_eq rfl rfl rfl rfl) hle
    · simp only [beat, hsome, Option.toList_some, List.map_cons, List.map_nil]
      exact (h.accept hq hplaced.front_notMem hfew hi.partition.online hle).same
        (.of_eq rfl rfl rfl rfl) le_rfl
  by_cases hhandle : ∃ i now, e = .handle i now
  · obtain ⟨i, now, rfl⟩ := hhandle
    exact h.handle hle ht
  have hbeat : beat ⟨s, clock, none, none⟩ (.process e) = [] := by
    cases e <;> simp_all [beat]
  rw [hbeat, List.nil_append]
  have hno (now : ℤ) : e ≠ .monitor now := by
    rintro rfl
    cases hmon
  rcases Server.step_timeMove hno ht with ⟨-, hsame⟩ | ⟨env, -, rfl, -⟩ | ⟨i, now, -, -, rfl, -⟩ |
    ⟨c, now, hc, hsame⟩ | ⟨c, n, hc, -, hsame⟩
  · exact h.same hsame hle
  · exact absurd ⟨env, rfl⟩ hacc
  · exact absurd ⟨i, now, rfl⟩ hhandle
  · exact (h.close hplaced.nodup_clients hq h.owners (fun x hx _ => hx) hle).same hsame le_rfl
  · refine OneTimerEach.same (s := s.recycled c n) ?_ hsame le_rfl
    have hother (d : ConnId) (hd : d ∈ s.pool.clients) : (s.recycled c n).conn d = s.conn d := by
      have hne : d ≠ c := by
        rintro rfl
        exact hplaced.notMem_recy hd hc
      simp [Server.recycled, hne]
    refine h.frame rfl rfl rfl (fun d hd => ?_) fun d hd x hx => ?_
    · rw [hother d hd]
      exact ⟨rfl, le_rfl, (h.past d hd).trans hle⟩
    · rw [hother d hd]
      exact h.heard d hd x hx

end OneTimerEach

variable {m m' : Monitored} {x : MonitorEvent}

/-- What holds along a run: the process is in one of its own runs, every client has its timer, and
after a poll no timer is overdue. -/
structure Tracked (m : Monitored) (hist : List Beat) : Prop where
  run : ∃ es, (process.restrict Server.ClosesNoFree).Run es m.server
  represented : m.server.timer.Represented []
  timers : OneTimerEach m.server m.clock hist
  polled : ∀ now ∈ m.polled, ∀ x ∈ m.server.timer.entries, now ≤ x.1

namespace Tracked

theorem poolInv (h : m.Tracked hist) : m.server.PoolInv := by
  obtain ⟨es, hr⟩ := h.run
  exact (Server.run_poolInv hr).1

theorem start (h : m.Start) : m.Tracked [] := by
  obtain ⟨hb, hcfg, -, hpolled⟩ := h
  have htimer : m.server.timer.Represented [] ∧ m.server.timer.entries = [] := by
    refine hb.induction (P := fun s => s.timer.Represented [] ∧ s.timer.entries = [])
      (fun cfg now _ _ _ => ?_) fun s fd now hs => hs
    exact ⟨⟨⟨rfl, by simp [Server.init], .nil, .empty⟩, by simp [Server.init]⟩, rfl⟩
  have hclients := Server.clients_boot hb
  refine ⟨⟨[], .start hb⟩, htimer.1, ⟨hcfg, ?_, ?_, ?_, ?_, ?_, ?_⟩, by simp [hpolled]⟩
  · simp [htimer.2, hclients]
  · simp [htimer.2]
  · simp [htimer.2]
  · simp [hclients]
  · simp [hclients]
  · simp [hclients]

theorem run_step (h : m.Tracked hist) (hclients : ∀ c ∈ m.server.closes e,
    c ∈ m.server.pool.clients) (he : m.server.Enabled e) (ht : m.server.next e = some t) :
    ∃ es, (process.restrict Server.ClosesNoFree).Run es t := by
  have hplaced : m.server.pool.Placed := ⟨_, .refl _, h.poolInv.partition⟩
  obtain ⟨es, hr⟩ := h.run
  exact ⟨es ++ [e], hr.step ⟨fun c hc => (hplaced.closable (Or.inl (hclients c hc))).1, he, ht⟩⟩

theorem room (h : m.Tracked hist) : m.server.timer.timerQueueMultiMap.length + 1 < 2 ^ 64 := by
  have hlen := h.timers.owners.length_eq
  rw [List.length_map, TimerQueue.entries, List.length_map] at hlen
  have husers := h.timers.users
  have hfits := h.timers.config.users
  omega

theorem process_represented (h : m.Tracked hist) (hmon : e.ofMonitor = false)
    (ht : m.server.next e = some t) : t.timer.Represented [] := by
  have hno (now : ℤ) : e ≠ .monitor now := by
    rintro rfl
    cases hmon
  rcases Server.step_timeMove hno ht with ⟨-, hsame⟩ | ⟨env, fd, -, hsame⟩ |
    ⟨i, now, c, y, -, hsame⟩ | ⟨c, now, -, hsame⟩ | ⟨c, n, -, -, hsame⟩ <;> rw [hsame.timer]
  · exact h.represented
  · simp only [Server.admitted]
    split_ifs
    · exact h.represented.addToTimerList h.room
    · exact h.represented
  · exact h.represented
  · exact Server.closeConnectionToRecy_represented h.represented
  · exact h.represented

theorem step (h : m.Tracked hist) (hstep : monitoring.step m x m') :
    m'.Tracked (m.beat x ++ hist) := by
  obtain ⟨hen, hnext⟩ := hstep
  cases x with
  | process e =>
    obtain ⟨hmon, he, hclients, hclock⟩ := hen
    obtain ⟨t, ht, rfl⟩ := Option.map_eq_some_iff.mp hnext
    exact ⟨h.run_step hclients he ht, h.process_represented hmon ht,
      h.timers.process_step h.poolInv h.represented hmon hclients hclock ht, by simp⟩
  | poll now =>
    obtain rfl := Option.some.inj hnext
    have htimers : OneTimerEach m.server now hist :=
      h.timers.same (.refl _) hen.2
    split_ifs with hdue
    · exact ⟨h.run, h.represented, htimers, by simp⟩
    · refine ⟨h.run, h.represented, htimers, fun T hT => ?_⟩
      obtain rfl := Option.some.inj hT
      exact h.represented.le_of_not_due (by simpa [due] using hdue)
  | turn =>
    obtain ⟨now, -, rfl⟩ := Option.map_eq_some_iff.mp hnext
    cases hiter : m.server.heartBeatMonitorIter now with
    | none =>
      refine ⟨h.run, h.represented, h.timers, fun T hT => ?_⟩
      obtain rfl := Option.some.inj hT
      have hget : (m.server.timer.getOverTimeTimer m.server.config now).2 = none := by
        unfold Server.heartBeatMonitorIter at hiter
        split at hiter
        · rename_i heq
          rw [heq]
        · cases hiter
      exact fun y hy => (h.represented.lt_of_getOverTimeTimer_none hget y hy).le
    | some t =>
      have hplaced : m.server.pool.Placed := ⟨_, .refl _, h.poolInv.partition⟩
      refine ⟨h.run_step (e := .monitor now) (fun c hc => ?_) ?_ hiter,
        Server.heartBeatMonitorIter_represented h.represented hiter,
        h.timers.turn hplaced.nodup_clients h.represented hiter, by simp⟩
      · exact (h.timers.justified h.represented c hc).1
      · exact Option.isSome_of_eq_some hiter

end Tracked

/-- In every run the heartbeat monitor is accurate: it finds everybody who has been silent for too
long, and closes nobody else. -/
theorem heartbeat_accurate {es : List MonitorEvent}
    (h : (monitoring.record beat).Run es (m, hist)) : m.Accurate hist := by
  have htracked : m.Tracked hist := by
    refine h.invariant (I := fun p => Tracked p.1 p.2) ?_ ?_
    · rintro ⟨m, hist⟩ ⟨hstart, rfl⟩
      exact .start hstart
    · rintro ⟨m, hist⟩ x ⟨m', hist'⟩ hm ⟨hstep, rfl⟩
      exact hm.step hstep
  exact ⟨fun now hnow => htracked.timers.bounded (htracked.polled now hnow),
    fun now _ => htracked.timers.justified htracked.represented⟩

instance (m : Monitored) : (x : MonitorEvent) → Decidable (m.Enabled x)
  | .process _ => inferInstanceAs (Decidable (_ ∧ _ ∧ (∀ _ ∈ (_ : Option ConnId), _) ∧
      ∀ _ ∈ (_ : Option ℤ), _))
  | .poll _ => inferInstanceAs (Decidable (_ ∧ _))
  | .turn => inferInstanceAs (Decidable (_ = true))

/-- A client that has sent one heartbeat and then nothing is closed in the third sweep. -/
theorem heartbeat_accurate_silent : ∃ m, Accurate m [.heartbeat 1 5, .accepted 1] ∧
    m.sweep = some 81 ∧ m.server.closes (.monitor 81) = some 1 := by
  let cfg := { Server.smallConfig with isHBTimeOutCheckEnable := 1 }
  have hstart : Start ⟨Server.smallBoot cfg, 0, none, none⟩ :=
    ⟨Server.booted_smallBoot cfg, ⟨rfl, by decide, by decide, by decide, by decide⟩, rfl, rfl⟩
  obtain ⟨⟨m, hist⟩, hrun, hv⟩ := System.record_run_of_play hstart (show
      (System.play (fun p => Enabled p.1)
        (fun p x => (next p.1 x).map fun m => (m, beat p.1 x ++ p.2))
        [.process (.accept { HandlerEnv.idle with accept := [.accepted 4] }),
          .process (.read 1 { HandlerEnv.idle with recv := .data [0, 8, 0, 0, 0, 0, 0, 0] }),
          .process .take, .process (.handle 0 5), .poll 30, .turn, .turn, .poll 60, .turn, .turn,
          .poll 81] ((⟨Server.smallBoot cfg, 0, none, none⟩ : Monitored), [])).map
        (fun p => (p.2, p.1.sweep, p.1.server.closes (.monitor 81))) =
      some ([.heartbeat 1 5, .accepted 1], some 81, some 1) by decide +kernel)
  obtain ⟨rfl, hsweep, hcloses⟩ : hist = _ ∧ _ ∧ _ := by
    simpa only [Prod.mk.injEq] using hv
  exact ⟨m, heartbeat_accurate hrun, hsweep, hcloses⟩

end Monitored
end XiaoHGServer
