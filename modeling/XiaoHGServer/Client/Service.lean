import XiaoHGServer.Client.Stream
import XiaoHGServer.Receive.Flood
import XiaoHGServer.Worker.Answers

/-!
# Clients and the server

The server with clients of the repository on all its connections. What has
arrived of a client's stream is some beginning of it, cut anywhere, and the
threads of the server run in any order. Messages that have arrived whole get into
the receive list, all of them unless the flood check is on, and nothing else does.
A worker answers its packet as long as the connection has the number that the
packet was stamped with.
-/

namespace XiaoHGServer

def Use.stream (u : Use) : List Byte := FrameFormat.joined u.pieces

namespace Server

variable {s t : Server} {b : BufId} {c d : ConnId} {i currTime : ℕ} {now : ℤ} {e : Event}
  {hist : List Arrival}

theorem received_data {env : HandlerEnv} {bytes : List Byte} (hret : env.recv = .data bytes) :
    ∃ r : Reading, r.bytes = bytes ∧ r.enqueued =
        handed s (s.epollEventReadRequestHandler c (.data bytes) env.now env.currTime) ∧
      s.received (.read c env) = [.read c r] := by
  simp only [received, hret]
  exact ⟨_, rfl, rfl, rfl⟩

theorem received_nothing {env : HandlerEnv} (hno : ∀ bytes, env.recv ≠ .data bytes) :
    s.received (.read c env) = [] := by
  simp only [received]

theorem close_recvQueue (c : ConnId) (now : ℤ) :
    (s.closeConnectionToRecy c now).recvQueue = s.recvQueue := by
  rw [closeConnectionToRecy_eq]

theorem read_nothing {ret : RecvRet} (now : ℤ) (currTime : ℕ)
    (hno : ∀ bytes, ret ≠ .data bytes) :
    SameRecv c s (s.epollEventReadRequestHandler c ret now currTime) ∧
      handed s (s.epollEventReadRequestHandler c ret now currTime) = [] := by
  have hbase : SameRecv c s (s.readBase c ret currTime).1 ∧
      (s.readBase c ret currTime).1.recvQueue = s.recvQueue := by
    cases ret with
    | data bytes => exact absurd rfl (hno bytes)
    | _ => exact ⟨⟨rfl, fun _ _ _ => rfl⟩, rfl⟩
  have hsame : handed s (s.readBase c ret currTime).1 = [] := by
    rw [handed_congr hbase.2]
    simp [handed]
  rw [read_eq]
  split
  · have hclose := close_sameRecv (s := (s.readBase c ret currTime).1) c c now
    refine ⟨⟨hclose.1.trans hbase.1.1, fun b off hptr => ?_⟩, ?_⟩
    · rw [hclose.2 b off (by rw [hbase.1.1]; exact hptr)]
      exact hbase.1.2 b off hptr
    · rw [handed_congr (close_recvQueue c now)]
      exact hsame
  · exact ⟨hbase.1, hsame⟩

/-- A call that brings bytes completes some packets, or none, and hands them over unless they came
too quickly. -/
theorem read_frames {chunk stream : List Byte} {out : List (List Byte)} (now : ℤ) (currTime : ℕ)
    (hw : s.Window c) (hp : packetFormat.Parsed stream out (s.pending c)) (hne : chunk ≠ [])
    (hle : chunk.length ≤ (s.conn c).recv.recvMsgLen) :
    let t := s.epollEventReadRequestHandler c (.data chunk) now currTime
    ∃ new, packetFormat.Parsed (stream ++ chunk) (out ++ new) (t.pending c) ∧
      (handed s t = new ∨ handed s t = [] ∧ s.config.floodAttackEnable = 1) := by
  set r := s.readBase c (.data chunk) currTime with hr
  have hclose := close_sameRecv (s := r.1) c c now
  have hbase : ∃ new, packetFormat.Parsed (stream ++ chunk) (out ++ new) (r.1.pending c) ∧
      (handed s r.1 = new ∨ handed s r.1 = [] ∧ s.config.floodAttackEnable = 1) := by
    obtain ⟨-, hparse⟩ := readBase_parses hw hp currTime hne hle
    rcases hparse with ⟨-, -, hout, hp'⟩ | ⟨pkg, hflag, -, hout, hp'⟩
    · exact ⟨[], by simpa using hp', Or.inl hout⟩
    · refine ⟨[pkg], hp', ?_⟩
      by_cases hflood : s.config.floodAttackEnable = 1
      · rw [hout]
        split_ifs
        · exact Or.inr ⟨rfl, hflood⟩
        · exact Or.inl rfl
      · rw [floodVerdict, if_neg hflood] at hflag
        rw [hout, hflag]
        exact Or.inl rfl
  rw [read_eq, ← hr]
  split
  · dsimp only
    rw [hclose.pending, handed_congr (close_recvQueue c now)]
    exact hbase
  · exact hbase

/-- The packets that wait or have been taken up did so before, and they are the same. -/
def NoNewRequests (s t : Server) : Prop :=
  ∀ b, b ∈ t.recvQueue.recvMsgList ∨ b ∈ t.takenJobs →
    (b ∈ s.recvQueue.recvMsgList ∨ b ∈ s.takenJobs) ∧ t.recvPkg b = s.recvPkg b

theorem take_requests (hne : s.recvQueue.recvMsgList ≠ []) : NoNewRequests s s.takeRecvMsg := by
  intro b hb
  cases hl : s.recvQueue.recvMsgList with
  | nil => exact absurd hl hne
  | cons b' rest =>
    have htaken : s.takeRecvMsg.takenJobs = s.takenJobs ++ [b'] := by
      simp [takenJobs, takeRecvMsg, hl, untouched]
    have hlist : s.takeRecvMsg.recvQueue.recvMsgList = rest := by simp [takeRecvMsg, hl]
    rw [hlist, htaken, List.mem_append, List.mem_singleton] at hb
    refine ⟨?_, by simp [recvPkg, takeRecvMsg, hl]⟩
    rcases hb with hb | hb | rfl
    · exact Or.inl (List.mem_cons_of_mem _ hb)
    · exact Or.inr hb
    · exact Or.inl List.mem_cons_self

theorem handled_requests {w : Worker} {u : Server} {r : Option BufId} {x : WorkerStage}
    (hd : s.PacketsApart) (hw : s.workers[i]? = some w) (hstage : w.stage = .taken)
    (hx : x ≠ .taken) (hu : s.recvMsgHandleProc w.pJobBuf now = some (u, r)) :
    NoNewRequests s (u.setStage i x) := by
  intro b hb
  obtain ⟨hperm, hlist, htaken⟩ := takenJobs_setStage hw hstage hx hd
  obtain ⟨m, m', y, hform, -⟩ := recvMsgHandleProc_handled hu
  have hsame : (u.setStage i x).takenJobs = (s.setStage i x).takenJobs ∧
      (u.setStage i x).recvQueue.recvMsgList = s.recvQueue.recvMsgList := by
    rw [hform]
    exact ⟨rfl, rfl⟩
  rw [hsame.1, hsame.2] at hb
  have hne : b ≠ w.pJobBuf := by
    rintro rfl
    exact hb.elim hlist htaken
  refine ⟨hb.imp_right fun hb => ?_, recvMsgHandleProc_writesOnly hu b hne⟩
  exact hperm.symm.subset (List.mem_cons_of_mem _ hb)

theorem handle_requests (hd : s.PacketsApart) (he : s.Enabled (.handle i now))
    (h : s.next (.handle i now) = some t) : NoNewRequests s t := by
  obtain ⟨w, hw, hstage⟩ := Option.map_eq_some_iff.mp (show s.workers[i]?.map _ = _ from he)
  simp only [next, workerHandle, hw] at h
  split at h
  · cases h
  · rename_i u hu
    obtain rfl := Option.some.inj h
    exact handled_requests hd hw hstage (by simp) hu
  · rename_i u r hu
    obtain rfl := Option.some.inj h
    exact handled_requests hd hw hstage (by simp) hu

theorem push_requests (h : s.next (.push i now) = some t) : NoNewRequests s t := by
  intro b hb
  obtain ⟨rfl, -⟩ | ⟨b', u, hstage, hu, rfl⟩ := workerPush_cases h
  · exact ⟨hb, rfl⟩
  · obtain ⟨htaken, hq⟩ := push_taken hstage hu
    rw [htaken, hq] at hb
    exact ⟨hb, by rw [recvPkg, hq, recvPkg]⟩

theorem step_requests (hd : s.PacketsApart) (he : s.Enabled e) (h : s.next e = some t)
    (hread : ∀ c env, e ≠ .read c env) : NoNewRequests s t := by
  cases hdesk : e.atDesk with
  | false =>
    intro b hb
    obtain ⟨hlist, hworkers, hbuf⟩ := elsewhere hdesk h
    rw [hlist, takenJobs, hworkers] at hb
    exact ⟨hb, by rw [recvPkg, hbuf, recvPkg]⟩
  | true =>
    cases e with
    | read c env => exact absurd rfl (hread c env)
    | take =>
      obtain rfl := Option.some.inj h
      exact take_requests he.1
    | handle i now => exact handle_requests hd he h
    | push i now => exact push_requests h
    | release i =>
      obtain rfl := Option.some.inj h
      intro b hb
      obtain ⟨htaken, hlist, hpkg⟩ := release_taken he
      rw [hlist, htaken] at hb
      exact ⟨hb, by rw [hpkg]⟩
    | _ => cases hdesk

theorem read_requests {env : HandlerEnv} (hs : s.RecvApart) (hp : s.ClientPointers)
    (he : s.Enabled (.read c env)) :
    let t := s.epollEventReadRequestHandler c env.recv env.now env.currTime
    ∀ b, b ∈ t.recvQueue.recvMsgList ∨ b ∈ t.takenJobs →
      (b ∈ s.recvQueue.recvMsgList ∨ b ∈ s.takenJobs) ∧ t.recvPkg b = s.recvPkg b ∨
        t.recvPkg b ∈ handed s t := by
  intro t b hb
  have hold (hb : b ∈ s.recvQueue.recvMsgList ∨ b ∈ s.takenJobs) :
      (b ∈ s.recvQueue.recvMsgList ∨ b ∈ s.takenJobs) ∧ t.recvPkg b = s.recvPkg b :=
    ⟨hb, read_waiting hs hp he (hb.imp_right fun hb => takenJobs_subset hb)⟩
  rcases hb with hb | hb
  · rcases read_list (s := s) (c := c) env with hl | ⟨b', hl⟩
    · exact Or.inl (hold (Or.inl (hl ▸ hb)))
    · rw [hl, List.mem_append, List.mem_singleton] at hb
      rcases hb with hb | rfl
      · exact Or.inl (hold (Or.inl hb))
      · right
        unfold handed
        rw [hl, List.drop_left]
        exact List.mem_singleton_self _
  · left
    apply hold
    right
    rwa [takenJobs, read_workers s c env] at hb

/-- The stream of a client is parsed up to what is pending, and the packets that it has completed
have been handed over, but for those that came too quickly. -/
structure Fed (s : Server) (c : ConnId) (u : Use) : Prop where
  opened : s.IsClient c → u.isOpen = true
  parsed : s.IsClient c → packetFormat.Parsed u.stream (packetFormat.frames u.stream) (s.pending c)
  enqueued : u.enqueued.Sublist (packetFormat.frames u.stream)
  complete : s.config.floodAttackEnable ≠ 1 → u.enqueued = packetFormat.frames u.stream

theorem Fed.other (h : s.Fed c (useOf c hist)) (hs : s.RecvApart) (hp : s.ClientPointers)
    (he : s.Enabled e) (ht : s.next e = some t) (hread : ∀ env, e ≠ .read c env)
    (hacc : ∀ env, e = .accept env → s.acceptedConn env ≠ some c) :
    t.Fed c (useOf c (s.received e ++ hist)) := by
  rw [useOf_other hread hacc]
  have hside : (t.conn c).receiveSide = (s.conn c).receiveSide := by
    rcases step_receiveSide ht c with hsame | ⟨env, heq⟩ | ⟨hfront, env, fd, b, rfl, -⟩
    · exact hsame
    · exact absurd heq (hread env)
    · rcases accept_taken ht with ⟨-, b', k, rfl⟩ | ⟨htaken, -⟩
      · rfl
      · exact absurd (hfront ▸ htaken) (hacc env rfl)
  have hclient : t.IsClient c ↔ s.IsClient c := isClient_of_reception (congrArg Prod.fst hside)
  constructor
  · exact fun hc => h.opened (hclient.mp hc)
  · intro hc
    have hrecv := step_sameRecv hs hp he ht (hclient.mp hc) hread
      (congrArg (fun r => r.1.1) hside)
    rw [hrecv.pending]
    exact h.parsed (hclient.mp hc)
  · exact h.enqueued
  · rw [step_config ht]
    exact h.complete

theorem Fed.accept {env : HandlerEnv} (hs : s.RecvApart) (ht : s.next (.accept env) = some t)
    (hc : s.acceptedConn env = some c) : t.Fed c (useOf c (s.received (.accept env) ++ hist)) := by
  rcases accept_taken ht with ⟨hnone, -⟩ | ⟨hfront, -, fd, b, heq⟩
  · rw [hnone] at hc
    cases hc
  · obtain rfl := Option.some.inj (hc.symm.trans hfront)
    have huse : useOf s.pool.front (s.received (.accept env) ++ hist) = ⟨true, []⟩ := by
      simp [received, hfront, useOf]
    rw [huse]
    have hparsed := (Streaming.accepted hs heq).parsed
    constructor
    · exact fun _ => rfl
    · intro _
      have hnil : packetFormat.frames (Use.stream ⟨true, []⟩) = [] := hparsed.frames_eq
      rw [hnil]
      exact hparsed
    · exact List.nil_sublist _
    · exact fun _ => hparsed.frames_eq.symm

theorem Fed.read_data {env : HandlerEnv} {bytes : List Byte} (h : s.Fed c (useOf c hist))
    (hs : s.RecvApart) (he : s.Enabled (.read c env)) (hret : env.recv = .data bytes) :
    (s.epollEventReadRequestHandler c env.recv env.now env.currTime).Fed c
      (useOf c (s.received (.read c env) ++ hist)) := by
  have hcfg : (s.epollEventReadRequestHandler c env.recv env.now env.currTime).config = s.config :=
    step_config (e := .read c env) rfl
  have hlegal := he.2
  rw [hret] at hlegal hcfg ⊢
  obtain ⟨new, hp, hhanded⟩ := read_frames env.now env.currTime (hs.windows c he.1).1
    (h.parsed he.1) hlegal.1 hlegal.2.1
  obtain ⟨r, hbytes, henq, hentry⟩ := received_data (s := s) (c := c) hret
  have huse : useOf c (s.received (.read c env) ++ hist) =
      ⟨true, r :: (useOf c hist).readings⟩ := by
    simp [hentry, useOf, h.opened he.1]
  have hstream : (Use.mk true (r :: (useOf c hist).readings)).stream =
      (useOf c hist).stream ++ bytes := by
    rw [← hbytes]
    rfl
  have henqueued : (Use.mk true (r :: (useOf c hist).readings)).enqueued =
      (useOf c hist).enqueued ++ r.enqueued := by
    simp [Use.enqueued]
  have hframes : packetFormat.frames ((useOf c hist).stream ++ bytes) =
      packetFormat.frames (useOf c hist).stream ++ new := hp.frames_eq
  rw [huse]
  constructor
  · exact fun _ => rfl
  · intro _
    rw [hstream, hframes]
    exact hp
  · rw [henqueued, hstream, hframes, henq]
    apply h.enqueued.append
    rcases hhanded with hall | ⟨hnone, -⟩
    · rw [hall]
    · rw [hnone]
      exact List.nil_sublist new
  · rw [hcfg, henqueued, hstream, hframes, henq]
    intro hoff
    rcases hhanded with hall | ⟨-, hon⟩
    · rw [hall, h.complete hoff]
    · exact absurd hon hoff

theorem Fed.read {env : HandlerEnv} (h : s.Fed c (useOf c hist)) (hs : s.RecvApart)
    (he : s.Enabled (.read c env)) (ht : s.next (.read c env) = some t) :
    t.Fed c (useOf c (s.received (.read c env) ++ hist)) := by
  have hcfg := step_config ht
  obtain rfl := Option.some.inj ht
  by_cases hdata : ∃ bytes, env.recv = .data bytes
  · obtain ⟨bytes, hret⟩ := hdata
    exact h.read_data hs he hret
  · have hno : ∀ bytes, env.recv ≠ .data bytes := fun bytes hret => hdata ⟨bytes, hret⟩
    have hsame := (read_nothing (s := s) (c := c) env.now env.currTime hno).1
    rw [received_nothing hno, List.nil_append]
    constructor
    · exact fun _ => h.opened he.1
    · intro _
      rw [hsame.pending]
      exact h.parsed he.1
    · exact h.enqueued
    · rw [hcfg]
      exact h.complete

theorem fed_of_run {es : List Event} (h : (process.record received).Run es (s, hist))
    (c : ConnId) : s.Fed c (useOf c hist) := by
  refine h.trace_invariant (I := fun _ p => ∀ c, p.1.Fed c (useOf c p.2)) ?_ ?_ c
  · rintro ⟨s, hist⟩ ⟨hb, rfl⟩ c
    have hno := noClients_boot hb c
    have hnil : packetFormat.frames [] = [] := FrameFormat.incomplete_nil.frames_eq_nil
    exact ⟨fun hc => absurd hc hno, fun hc => absurd hc hno, List.nil_sublist _,
      fun _ => hnil.symm⟩
  · rintro es ⟨s, hist⟩ e ⟨t, hist'⟩ hrun hs ⟨⟨he, ht⟩, rfl⟩ c
    have hapart := run_recvApart hrun.of_record
    by_cases hread : ∃ env, e = .read c env
    · obtain ⟨env, rfl⟩ := hread
      exact (hs c).read hapart he ht
    by_cases hacc : ∃ env, e = .accept env ∧ s.acceptedConn env = some c
    · obtain ⟨env, rfl, hc⟩ := hacc
      exact .accept hapart ht hc
    · exact (hs c).other hapart (run_clientPointers hrun.of_record) he ht
        (fun env heq => hread ⟨env, heq⟩) fun env heq hc => hacc ⟨env, heq, hc⟩

/-- All that has ever arrived is what clients have sent. -/
def OnlyClients (hist : List Arrival) : Prop :=
  ∀ past, past <:+ hist → ∀ c, ∃ msgs, FromClient (useOf c past).stream msgs

theorem run_packetsApart {es : List Event} (h : process.Run es s) : s.PacketsApart := by
  refine h.trace_invariant (I := fun _ s => s.PacketsApart) (fun s hb => ?_) ?_
  · have hno : s.NoBuffers := noBuffers_boot hb
    simp [PacketsApart, jobs, hno.recvList, hno.workers]
  · intro es s e t hrun hd hstep
    exact step_packetsApart hd (run_recvApart hrun) (run_clientPointers hrun) hstep.2

/-- The packets that wait and those that workers have taken up are messages of clients. -/
theorem requests_of_run {es : List Event} (h : (process.record received).Run es (s, hist))
    (hclients : OnlyClients hist) :
    ∀ b, b ∈ s.recvQueue.recvMsgList ∨ b ∈ s.takenJobs → IsMessage (s.recvPkg b) := by
  refine h.trace_invariant (I := fun _ p => OnlyClients p.2 →
    ∀ b, b ∈ p.1.recvQueue.recvMsgList ∨ b ∈ p.1.takenJobs → IsMessage (p.1.recvPkg b))
      ?_ ?_ hclients
  · rintro ⟨s, hist⟩ ⟨hb, rfl⟩ - b hmem
    have hno : s.NoBuffers := noBuffers_boot hb
    simp [takenJobs, hno.recvList, hno.workers] at hmem
  · rintro es ⟨s, hist⟩ e ⟨t, hist'⟩ hrun hs ⟨⟨he, ht⟩, rfl⟩ hclients b hb
    have hrequests := hs fun past hpast => hclients past (hpast.trans (List.suffix_append _ _))
    have hprocess := hrun.of_record
    by_cases hread : ∃ c env, e = .read c env
    · obtain ⟨c, env, rfl⟩ := hread
      have hfed : t.Fed c (useOf c (s.received (.read c env) ++ hist)) :=
        (fed_of_run hrun c).read (run_recvApart hprocess) he ht
      obtain rfl := Option.some.inj ht
      rcases read_requests (run_recvApart hprocess) (run_clientPointers hprocess) he b hb with
        ⟨hb, hpkg⟩ | hnew
      · rw [hpkg]
        exact hrequests b hb
      · by_cases hdata : ∃ bytes, env.recv = .data bytes
        · obtain ⟨bytes, hret⟩ := hdata
          obtain ⟨msgs, hmsgs⟩ := hclients _ List.suffix_rfl c
          obtain ⟨r, -, henq, hentry⟩ := received_data (s := s) (c := c) hret
          apply hmsgs.isMessage
          apply hmsgs.arrivedWhole.first.subset
          apply hfed.enqueued.subset
          have hopen := (fed_of_run hrun c).opened he.1
          rw [hret] at hnew
          rw [hret]
          simp only [hentry, List.singleton_append, useOf, hopen, and_self, if_true,
            Use.enqueued, List.reverse_cons, List.flatMap_append, List.mem_append]
          right
          simpa [henq] using hnew
        · have hnone := (read_nothing (s := s) (c := c) env.now env.currTime
            fun bytes hret => hdata ⟨bytes, hret⟩).2
          rw [hnone] at hnew
          cases hnew
    · obtain ⟨hb, hpkg⟩ := step_requests (run_packetsApart hprocess) he ht
        (fun c env heq => hread ⟨c, env, heq⟩) b hb
      rw [hpkg]
      exact hrequests b hb

/-- A message of a client passes the checks of `RecvMsgHandleProc` unless its connection has got
another number. -/
theorem rejected_message (hmsg : IsMessage (s.recvPkg b)) : s.Rejected b ↔
    (s.conn (s.recvHeader b).pConn).currSequence ≠ (s.recvHeader b).currSequence := by
  obtain ⟨code, mem, hpkg⟩ := hmsg
  obtain ⟨body, hlen, heq⟩ := message_eq mem code
  constructor
  · intro hrej hseq
    exact reply_not_rejected hlen (hpkg.trans heq) hseq hrej
  · exact .closed

/-- The messages of a client that have arrived whole are handed over, all of them unless the flood
check is on, in their order. A worker answers the one it has taken up with a reply that agrees with
it, as long as the number of the connection is that of the message; if it is not,
`RecvMsgHandleProc` ends the process. -/
theorem clients_served {es : List Event} (h : (process.record received).Run es (s, hist))
    (hclients : OnlyClients hist) :
    (∀ c msgs, FromClient (useOf c hist).stream msgs →
      ∃ whole, ArrivedWhole (useOf c hist).stream msgs whole ∧
        (useOf c hist).enqueued.Sublist whole ∧
        (s.config.floodAttackEnable ≠ 1 → (useOf c hist).enqueued = whole)) ∧
    ∀ i now w, s.workers[i]? = some w → w.stage = .taken →
      if (s.conn (s.recvHeader w.pJobBuf).pConn).currSequence =
          (s.recvHeader w.pJobBuf).currSequence then
        ∃ t r, s.next (.handle i now) = some t ∧ t.stage i = some (.reply r) ∧
          t.QueuedOnce r ∧ s.AgreesWith w.pJobBuf (t.sendQueue.mem.buffer r)
      else s.next (.handle i now) = none := by
  refine ⟨fun c msgs hmsgs => ?_, fun i now w hw hstage => ?_⟩
  · have hfed := fed_of_run h c
    exact ⟨_, hmsgs.arrivedWhole, hfed.enqueued, hfed.complete⟩
  · have htaken : w.pJobBuf ∈ s.takenJobs :=
      List.mem_filterMap.mpr ⟨w, List.mem_of_getElem? hw, by simp [untouched, hstage]⟩
    have hmsg := requests_of_run h hclients w.pJobBuf (Or.inr htaken)
    have hrejected := rejected_message hmsg
    split_ifs with hseq
    · have hok : ¬ s.Rejected w.pJobBuf := fun hrej => hrejected.mp hrej hseq
      obtain ⟨code, mem, hpkg⟩ := hmsg
      obtain ⟨body, hlen, heq⟩ := message_eq mem code
      have hk : msgCode (s.recvPkg w.pJobBuf) = code.handler.code := by
        rw [hpkg, heq, msgCode_reply]
      have hans := handle_answer now hw hok hk
      have hbody : u16 (pkgLength (s.recvPkg w.pJobBuf) - lenPkgHeader) = code.handler.bodyLen := by
        rw [hpkg, heq, pkgLength_reply, Nat.add_sub_cancel_left]
        exact u16_of_lt (by cases code <;> decide)
      rw [if_pos hbody] at hans
      obtain ⟨t, ht, hstage, hans⟩ := hans
      refine ⟨t, _, ht, hstage, queuedOnce ?_, hans.agreesWith hk⟩
      rw [hans.next]
      exact Nat.lt_succ_self _
    · exact workerHandle_eq_none_iff.mpr ⟨w, hw, hrejected.mpr hseq⟩

theorem onlyClients_cons {a : Arrival}
    (ha : ∀ c, ∃ msgs, FromClient (useOf c (a :: hist)).stream msgs) (h : OnlyClients hist) :
    OnlyClients (a :: hist) := by
  intro past hpast
  rcases List.suffix_cons_iff.mp hpast with rfl | hpast
  · exact ha
  · exact h past hpast

/-- A heartbeat that arrives in two pieces. -/
theorem clients_served_heartbeat : ∃ s t : Server, ∃ r, s.next (.handle 0 0) = some t ∧
    t.stage 0 = some (.reply r) ∧ t.QueuedOnce r ∧
    s.AgreesWith 0 (t.sendQueue.mem.buffer r) := by
  let first : Reading := ⟨[0, 8, 0], 0, [], 0⟩
  let second : Reading := ⟨[0, 0, 0, 0, 0], 0, [[0, 8, 0, 0, 0, 0, 0, 0]], 0⟩
  obtain ⟨⟨s, hist⟩, hrun, hv⟩ := process_record_of_play (fun _ _ => True) received smallConfig
    [.accept { HandlerEnv.idle with accept := [.accepted 4] },
      .read 1 { HandlerEnv.idle with recv := .data first.bytes },
      .read 1 { HandlerEnv.idle with recv := .data second.bytes }, .take]
    (fun p => (p.2, p.1.workers[0]?,
      decide ((p.1.conn (p.1.recvHeader 0).pConn).currSequence = (p.1.recvHeader 0).currSequence)))
    ([.read 1 second, .read 1 first, .accepted 1], some ⟨0, .taken⟩, true) (by decide +kernel)
  obtain ⟨hhist, hv⟩ := Prod.mk.inj hv
  obtain ⟨hw, hseq⟩ := Prod.mk.inj hv
  obtain rfl : hist = _ := hhist
  have hclients : OnlyClients [.read 1 second, .read 1 first, .accepted 1] := by
    have hstream {hist : List Arrival} (h : (useOf 1 hist).stream <+: sendHeartBeatMsg fun _ => 0)
        (hother : ∀ c, c ≠ 1 → useOf c hist = ⟨false, []⟩) (c : ConnId) :
        ∃ msgs, FromClient (useOf c hist).stream msgs := by
      by_cases hc : c = 1
      · exact ⟨_, fromClient_heartbeat _ (hc ▸ h)⟩
      · rw [hother c hc]
        exact ⟨[], fromClient_nil⟩
    apply onlyClients_cons (hstream (by decide) fun c hc => by simp [useOf, hc.symm])
    apply onlyClients_cons (hstream (by decide) fun c hc => by simp [useOf, hc.symm])
    apply onlyClients_cons (hstream (by decide) fun c hc => by simp [useOf, hc.symm])
    intro past hpast c
    rw [List.suffix_nil.mp hpast]
    exact ⟨[], fromClient_nil⟩
  have hserved := (clients_served hrun.of_restrict_record hclients).2 0 0 _ hw rfl
  rw [if_pos (of_decide_eq_true hseq)] at hserved
  obtain ⟨t, r, ht, hstage, hqueued, hagrees⟩ := hserved
  exact ⟨s, t, r, ht, hstage, hqueued, hagrees⟩

end Server
end XiaoHGServer
