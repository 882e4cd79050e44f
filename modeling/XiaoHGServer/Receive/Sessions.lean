import XiaoHGServer.Pool.Uses
import XiaoHGServer.Receive.Framing

/-!
# Receiving among other threads

Between two calls of the read handler for a connection the other threads of the
process run. They leave its receive state alone, and the buffer it receives a
packet into, because that buffer belongs to no other connection, is not in the
receive list and is in no worker's hands. So what the framing of a stream needs
holds of every connection in every run.
-/

namespace XiaoHGServer
namespace Server

variable {s t u : Server} {c d : ConnId} {b b' : BufId} {now : ℤ} {e : Event}

/-- Only the packet in buffer `b` may have been written to. -/
def WritesOnly (b : BufId) (s t : Server) : Prop := ∀ b', b' ≠ b → t.recvPkg b' = s.recvPkg b'

theorem WritesOnly.trans (h : WritesOnly b s t) (h' : WritesOnly b t u) : WritesOnly b s u :=
  fun b' hb => (h' b' hb).trans (h b' hb)

theorem writesOnly_writeRecvMsg {off : ℕ} {data : List Byte} :
    WritesOnly b s (s.writeRecvMsg b off data) := by
  intro b' hb
  simp [recvPkg, writeRecvMsg, hb]

theorem callLogicHandler_writesOnly (handler : LogicHandler) (hasBody : Bool) (n : ℕ) :
    WritesOnly b s (s.callLogicHandler handler b hasBody n now).1 := by
  cases handler with
  | handleHeartbeat =>
    simp only [callLogicHandler, handleHeartbeat]
    split
    · exact fun _ _ => rfl
    · exact fun _ _ => rfl
  | handleRegister =>
    simp only [callLogicHandler, handleRegister]
    split
    · exact fun _ _ => rfl
    · exact (writesOnly_writeRecvMsg.trans writesOnly_writeRecvMsg).trans writesOnly_writeRecvMsg
  | handleLogin =>
    simp only [callLogicHandler, handleLogin]
    split
    · exact fun _ _ => rfl
    · exact writesOnly_writeRecvMsg.trans writesOnly_writeRecvMsg

theorem recvMsgHandleProc_writesOnly {r : Option BufId}
    (h : s.recvMsgHandleProc b now = some (t, r)) : WritesOnly b s t := by
  have hdispatch {s : Server} {hasBody : Bool} {code n : ℕ}
      (h : s.dispatch b hasBody code n now = some (t, r)) : WritesOnly b s t := by
    unfold dispatch at h
    dsimp only at h
    split_ifs at h
    split at h
    · cases h
    · rename_i handler _
      have hcall : WritesOnly b s
          (s.callLogicHandler handler b hasBody (u16 (n - lenPkgHeader)) now).1 :=
        callLogicHandler_writesOnly handler hasBody _
      rwa [Option.some.inj h] at hcall
  unfold recvMsgHandleProc at h
  dsimp only at h
  split_ifs at h
  · exact hdispatch h
  · exact writesOnly_writeRecvMsg.trans (hdispatch h)

/-- No packet was received, or written to by anybody but a worker. -/
structure KeepsPackets (s t : Server) : Prop where
  next : t.recvQueue.mem.next = s.recvQueue.mem.next
  list : t.recvQueue.recvMsgList ⊆ s.recvQueue.recvMsgList
  jobs : ∀ b ∈ t.jobs, b ∈ s.jobs ∨ b ∈ s.recvQueue.recvMsgList
  packet : ∀ b, b ∉ s.jobs → t.recvPkg b = s.recvPkg b

namespace KeepsPackets

theorem of_eq (hq : t.recvQueue = s.recvQueue) (hjobs : t.jobs = s.jobs) : KeepsPackets s t := by
  refine ⟨by rw [hq], by rw [hq]; exact List.Subset.refl _, fun b hb => Or.inl (hjobs ▸ hb),
    fun b _ => ?_⟩
  rw [recvPkg, hq]
  rfl

theorem close (c : ConnId) (now : ℤ) : KeepsPackets s (s.closeConnectionToRecy c now) :=
  .of_eq (by rw [closeConnectionToRecy_eq]) closeConnectionToRecy_jobs

theorem release {p : Option BufId} (hq : t.recvQueue = { s.recvQueue with
    mem := s.recvQueue.mem.freeMemory p }) (hjobs : t.jobs ⊆ s.jobs) : KeepsPackets s t where
  next := by rw [hq]; simp
  list := by rw [hq]; exact List.Subset.refl _
  jobs _ hb := Or.inl (hjobs hb)
  packet b _ := by simp [recvPkg, hq]

end KeepsPackets

theorem startSend_keepsPackets {env : SendEnv} (h : s.startSend c env = some t) :
    KeepsPackets s t := by
  rcases startSend_cases h with ⟨-, rfl⟩ | ⟨n, -, -, -, rfl⟩ | ⟨-, rfl⟩ <;> exact .of_eq rfl rfl

theorem iterate_keepsPackets {pos : ℕ} {env : SendEnv} (h : s.sendMsgThreadIter pos env = some t) :
    KeepsPackets s t := by
  rcases iterate_cases h with ⟨-, rfl⟩ | ⟨b, -, ⟨-, rfl⟩ | ⟨-, -, rfl⟩ | ⟨-, -, hstart⟩⟩
  · exact .of_eq rfl rfl
  · exact .of_eq rfl rfl
  · exact .of_eq rfl rfl
  · obtain ⟨hnext, hlist, hjobs, hpkg⟩ := startSend_keepsPackets hstart
    exact ⟨hnext, hlist, hjobs, hpkg⟩

/-- What the threads do between two calls of the read handler. -/
theorem step_keepsPackets (hread : ∀ c env, e ≠ .read c env) (h : s.next e = some t) :
    KeepsPackets s t := by
  cases e with
  | accept env =>
    rcases accept_cases h with ⟨b, calls, rfl, -⟩ | ⟨fd, b, -, rfl⟩ <;> exact .of_eq rfl rfl
  | read c env => exact absurd rfl (hread c env)
  | outError c =>
    obtain rfl := Option.some.inj h
    exact .of_eq rfl rfl
  | write c env =>
    rcases write_cases h with ⟨n, -, -, -, rfl⟩ | ⟨-, rfl⟩ | ⟨n, -, -, -, rfl⟩ | ⟨-, rfl⟩ <;>
      exact .of_eq rfl rfl
  | take =>
    obtain rfl := Option.some.inj h
    unfold takeRecvMsg
    split
    · exact .of_eq rfl rfl
    · rename_i b rest hlist
      refine ⟨rfl, ?_, fun b' hb' => ?_, fun _ _ => rfl⟩
      · rw [hlist]
        exact List.subset_cons_self ..
      · simp only [Server.jobs, List.map_append, List.map_cons, List.map_nil, List.mem_append,
          List.mem_singleton] at hb'
        rw [hlist]
        rcases hb' with hb' | rfl
        · exact Or.inl hb'
        · exact Or.inr (List.mem_cons_self ..)
  | handle i now =>
    have hcases := h
    obtain rfl | ⟨w, u, r, hw, ⟨m, m', x, rfl, hm, -⟩, rfl⟩ := workerHandle_cases hcases
    · exact .of_eq rfl rfl
    · refine ⟨hm.next, List.Subset.refl _, fun b hb => Or.inl (by rwa [jobs_setStage] at hb),
        fun b hb => ?_⟩
      simp only [next, workerHandle, hw] at h
      have hne : b ≠ w.pJobBuf := by
        rintro rfl
        exact hb (List.mem_map_of_mem (List.mem_of_getElem? hw))
      split at h
      · cases h
      all_goals
        rename_i heq
        rw [← Option.some.inj h]
        exact recvMsgHandleProc_writesOnly heq b hne
  | push i now =>
    obtain ⟨rfl, -⟩ | ⟨b, u, -, hu, rfl⟩ := workerPush_cases h
    · exact .of_eq rfl rfl
    · obtain ⟨size, discard, mem, k, rfl, -⟩ := push_cases hu
      have hbase : KeepsPackets s (s.pushBase b now) := by
        unfold pushBase
        split
        · exact .close _ _
        · exact .of_eq rfl rfl
      exact ⟨hbase.next, hbase.list, fun b' hb' => hbase.jobs b' (by rwa [jobs_setStage] at hb'),
        hbase.packet⟩
  | release i =>
    obtain rfl := Option.some.inj h
    unfold workerRelease
    split
    · exact .of_eq rfl rfl
    · refine .release rfl ?_
      exact List.map_subset _ (List.eraseIdx_subset ..)
  | semWait => cases h; exact .of_eq rfl rfl
  | semIntr => cases h; exact .of_eq rfl rfl
  | sizeTest => cases h; exact .of_eq rfl rfl
  | iterate env =>
    obtain rfl | ⟨pos, -, h⟩ := iterate_pass h
    · exact .of_eq rfl rfl
    · exact iterate_keepsPackets h
  | close c now =>
    obtain rfl := Option.some.inj h
    exact .close c now
  | recycle now =>
    obtain ⟨c, -, rfl⟩ := lblRRTD_eq_some h
    exact .release rfl (List.Subset.refl _)
  | clear =>
    obtain ⟨c, -, rfl⟩ := lblRRTD2_eq_some h
    exact .release rfl (List.Subset.refl _)
  | monitor now =>
    obtain ⟨hd, q, -, -, ⟨-, rfl⟩ | ⟨-, rfl⟩⟩ := monitor_cases h
    · have hclose : KeepsPackets s (s.closeConnectionToRecy hd.pConn now) := .close _ _
      exact ⟨hclose.next, hclose.list, hclose.jobs, hclose.packet⟩
    · exact .of_eq rfl rfl

theorem recvAdvance_packet {n currTime : ℕ} (hb : b ≠ s.recvQueue.mem.next) :
    (s.recvAdvance c n currTime).1.recvPkg b = s.recvPkg b := by
  have hadv (status : RecvStatus) : (s.advanceRecv c status n).recvPkg b = s.recvPkg b := rfl
  have hparse (u : Server) (bIsFlood : Bool) :
      (u.recvMsgPacketParseProc c bIsFlood).recvPkg b = u.recvPkg b := by
    unfold recvMsgPacketParseProc
    cases bIsFlood with
    | false =>
      simp only [if_true]
      split <;> rfl
    | true => simp [recvPkg, expectHeader]
  have hflood (u : Server) : (u.floodCheck c false currTime).1.recvPkg b = u.recvPkg b := by
    rw [recvPkg, (floodCheck_recv currTime false).2]
    rfl
  have hbody : (s.bodyComplete c currTime).1.recvPkg b = s.recvPkg b :=
    (hparse _ _).trans (hflood s)
  have halloc (m : ℕ) : (s.allocRecvBuffer c m).recvPkg b = s.recvPkg b := by
    simp [recvPkg, allocRecvBuffer, hb]
  have hheader : (s.recvMsgHeaderParseProc c false currTime).1.recvPkg b = s.recvPkg b := by
    unfold recvMsgHeaderParseProc
    dsimp only
    split
    · rfl
    · split
      · exact ((hparse _ _).trans (hflood _)).trans (halloc _)
      · exact halloc _
  unfold recvAdvance
  dsimp only
  split <;> split
  all_goals first | exact hadv _ | exact hbody | exact hheader

theorem Window.receiving (hw : s.Window c) {off : ℕ}
    (hptr : (s.conn c).recv.pRecvMsgBuff = .packet b off) :
    (s.conn c).recv.receiving = some b := by
  rcases hw with ⟨off', hw⟩ | ⟨b', off', hw⟩
  · rw [hw.ptr] at hptr
    cases hptr
  · rw [hw.ptr] at hptr
    cases hptr
    unfold RecvState.receiving
    rcases hw.status with hst | hst <;> rw [hst] <;> exact hw.mem

theorem read_packet {ret : RecvRet} {currTime : ℕ} (hw : s.Window c)
    (hown : (s.conn c).recv.receiving ≠ some b) (hb : b < s.recvQueue.mem.next) :
    (s.epollEventReadRequestHandler c ret now currTime).recvPkg b = s.recvPkg b := by
  have hbase : (s.readBase c ret currTime).1.recvPkg b = s.recvPkg b := by
    cases ret with
    | data bytes =>
      set u := s.logCall (.recv c (s.conn c).sockFd (s.conn c).recv.recvMsgLen)
      have hstore : (u.storeRecv c bytes).recvPkg b = s.recvPkg b := by
        unfold storeRecv
        split
        · rfl
        · rename_i b' off hptr
          have hne : b ≠ b' := by
            rintro rfl
            exact hown (hw.receiving hptr)
          simp [recvPkg, u, hne]
      refine (recvAdvance_packet ?_).trans hstore
      rw [(storeRecv_quiet bytes).1]
      exact Nat.ne_of_lt hb
    | _ => rfl
  rw [read_eq]
  split
  · refine Eq.trans ?_ hbase
    rw [recvPkg, closeConnectionToRecy_eq]
    rfl
  · exact hbase

/-- Every connection receives into a buffer of its own, and pointer, remaining length and stored
bytes of every client's agree. -/
structure RecvApart (s : Server) : Prop where
  own : ∀ c b, (s.conn c).recv.receiving = some b →
    b ∉ s.recvQueue.recvMsgList ∧ b ∉ s.jobs
  single : ∀ c d b, (s.conn c).recv.receiving = some b → (s.conn d).recv.receiving = some b → c = d
  array : ∀ c, (s.conn c).recv.dataHeadInfo.length = msgHeaderLen
  windows : ∀ c, s.IsClient c →
    s.Window c ∧ ∃ stream out, packetFormat.Parsed stream out (s.pending c)

/-- Steps of other threads, and reads of other connections, leave the receive state of a client
alone. -/
theorem step_sameRecv (hs : s.RecvApart) (hp : s.ClientPointers) (he : s.Enabled e)
    (h : s.next e = some t) (hd : s.IsClient d) (hread : ∀ env, e ≠ .read d env)
    (hrecv : (t.conn d).recv = (s.conn d).recv) : SameRecv d s t := by
  refine ⟨hrecv, fun b off hptr => ?_⟩
  have hown := (hs.windows d hd).1.receiving hptr
  by_cases hr : ∃ c env, e = .read c env
  · obtain ⟨c, env, rfl⟩ := hr
    obtain rfl := Option.some.inj h
    refine read_packet (hs.windows c he.1).1 (fun hc => ?_) (hp.recv.receiving d b hown)
    obtain rfl := hs.single c d b hc hown
    exact hread env rfl
  · exact (step_keepsPackets (fun c env heq => hr ⟨c, env, heq⟩) h).packet b (hs.own d b hown).2

theorem read_move (s : Server) (c : ConnId) (now : ℤ) (ret : RecvRet) (currTime : ℕ) :
    let t := s.epollEventReadRequestHandler c ret now currTime
    RecvMove s.recvQueue (s.conn c).recv t.recvQueue (t.conn c).recv ∧ t.jobs = s.jobs := by
  have hmove := readBase_move s c ret currTime
  obtain ⟨q, r, f, hform⟩ := onlyRecv_readBase s c ret currTime
  have hjobs : (s.readBase c ret currTime).1.jobs = s.jobs := by
    rw [hform]
    rfl
  rw [read_eq]
  split
  · refine ⟨?_, closeConnectionToRecy_jobs.trans hjobs⟩
    rw [closeConnectionToRecy_recv, closeConnectionToRecy_eq]
    exact hmove
  · exact ⟨hmove, hjobs⟩

theorem RecvApart.move (hs : s.RecvApart) (hp : s.RecvPointers)
    (hmove : RecvMove s.recvQueue (s.conn c).recv t.recvQueue (t.conn c).recv)
    (hother : ∀ d, d ≠ c → (t.conn d).recv = (s.conn d).recv) (hjobs : t.jobs = s.jobs) :
    (∀ d b, (t.conn d).recv.receiving = some b →
      b ∉ t.recvQueue.recvMsgList ∧ b ∉ t.jobs) ∧
    ∀ d d' b, (t.conn d).recv.receiving = some b → (t.conn d').recv.receiving = some b →
      d = d' := by
  have hold {d : ConnId} (hd : d ≠ c) {b : BufId} (hb : (t.conn d).recv.receiving = some b) :
      (s.conn d).recv.receiving = some b := by rwa [hother d hd] at hb
  rw [hjobs]
  -- what becomes of the buffer of `c`: as before, a new one, or none
  have hself : ((t.conn c).recv.receiving = (s.conn c).recv.receiving ∧
        t.recvQueue.recvMsgList = s.recvQueue.recvMsgList) ∨
      ((t.conn c).recv.receiving = some s.recvQueue.mem.next ∧
        t.recvQueue.recvMsgList = s.recvQueue.recvMsgList) ∨
      ((t.conn c).recv.receiving = none ∧ ∀ d ≠ c, ∀ b,
        (s.conn d).recv.receiving = some b → b ∉ t.recvQueue.recvMsgList) := by
    have hlist {d : ConnId} {b : BufId} (hb : (s.conn d).recv.receiving = some b) :
        b ∉ s.recvQueue.recvMsgList := (hs.own d b hb).1
    rcases hmove with ⟨-, hl, -, hr⟩ | ⟨-, hl, -, -, hr⟩ | ⟨-, hl, -, -, hr⟩ |
      ⟨-, hl, -, -, hr⟩ | ⟨b₀, -, hl, -, hb₀, hr⟩ | ⟨b₀, -, hl, -, -, hr⟩
    · exact Or.inl ⟨hr, hl⟩
    · exact Or.inr (Or.inl ⟨hr, hl⟩)
    · refine Or.inr (Or.inr ⟨hr, fun d _ b hb => ?_⟩)
      rw [hl, List.mem_append, List.mem_singleton, not_or]
      exact ⟨hlist hb, Nat.ne_of_lt (hp.receiving d b hb)⟩
    · exact Or.inr (Or.inr ⟨hr, fun d _ b hb => by rw [hl]; exact hlist hb⟩)
    · refine Or.inr (Or.inr ⟨hr, fun d hd b hb => ?_⟩)
      rw [hl, List.mem_append, List.mem_singleton, not_or]
      refine ⟨hlist hb, ?_⟩
      rintro rfl
      exact hd (hs.single d c b hb hb₀)
    · exact Or.inr (Or.inr ⟨hr, fun d _ b hb => by rw [hl]; exact hlist hb⟩)
  rcases hself with ⟨hr, hl⟩ | ⟨hr, hl⟩ | ⟨hr, hl⟩
  · have hall {d : ConnId} {b : BufId} (hb : (t.conn d).recv.receiving = some b) :
        (s.conn d).recv.receiving = some b := by
      by_cases hd : d = c
      · subst hd
        rwa [hr] at hb
      · exact hold hd hb
    rw [hl]
    exact ⟨fun d b hb => hs.own d b (hall hb), fun d d' b hb hb' => hs.single d d' b (hall hb)
      (hall hb')⟩
  · rw [hl]
    refine ⟨fun d b hb => ?_, fun d d' b hb hb' => ?_⟩
    · by_cases hd : d = c
      · rw [hd, hr] at hb
        obtain rfl := Option.some.inj hb
        exact ⟨fun hm => (hp.list _ hm).false, fun hm => (hp.jobs _ hm).false⟩
      · exact hs.own d b (hold hd hb)
    · have hnew {d : ConnId} {b : BufId} (hd : d ≠ c) (hb : (t.conn d).recv.receiving = some b) :
          b ≠ s.recvQueue.mem.next := Nat.ne_of_lt (hp.receiving d b (hold hd hb))
      by_cases hd : d = c <;> by_cases hd' : d' = c
      · rw [hd, hd']
      · rw [hd, hr] at hb
        exact absurd (Option.some.inj hb).symm (hnew hd' hb')
      · rw [hd', hr] at hb'
        exact absurd (Option.some.inj hb').symm (hnew hd hb)
      · exact hs.single d d' b (hold hd hb) (hold hd' hb')
  · have hne {d : ConnId} {b : BufId} (hb : (t.conn d).recv.receiving = some b) : d ≠ c := by
      rintro rfl
      rw [hr] at hb
      cases hb
    exact ⟨fun d b hb => ⟨hl d (hne hb) b (hold (hne hb) hb), (hs.own d b (hold (hne hb) hb)).2⟩,
      fun d d' b hb hb' => hs.single d d' b (hold (hne hb) hb) (hold (hne hb') hb')⟩

theorem close_sameRecv (c d : ConnId) (now : ℤ) :
    SameRecv d s (s.closeConnectionToRecy c now) := by
  refine ⟨closeConnectionToRecy_recv d, fun b off _ => ?_⟩
  rw [recvPkg, closeConnectionToRecy_eq]
  rfl

theorem read_window (now : ℤ) (currTime : ℕ) {ret : RecvRet} {stream : List Byte}
    {out : List (List Byte)} (hw : s.Window c) (hp : packetFormat.Parsed stream out (s.pending c))
    (hret : ret.Legal s c) :
    let t := s.epollEventReadRequestHandler c ret now currTime
    t.Window c ∧ ∃ stream out, packetFormat.Parsed stream out (t.pending c) := by
  have hidle : SameRecv c s (s.logCall (.recv c (s.conn c).sockFd (s.conn c).recv.recvMsgLen)) :=
    ⟨rfl, fun _ _ _ => rfl⟩
  have hbase : (s.readBase c ret currTime).1.Window c ∧
      ∃ stream out, packetFormat.Parsed stream out ((s.readBase c ret currTime).1.pending c) := by
    cases ret with
    | data bytes =>
      obtain ⟨hw', hparse⟩ := readBase_parses hw hp currTime hret.1 hret.2.1
      refine ⟨hw', ?_⟩
      rcases hparse with ⟨-, -, -, hp'⟩ | ⟨pkg, -, -, -, hp'⟩
      · exact ⟨_, _, hp'⟩
      · exact ⟨_, _, hp'⟩
    | eof => exact ⟨hidle.window hw, _, _, hidle.pending ▸ hp⟩
    | again => exact ⟨hidle.window hw, _, _, hidle.pending ▸ hp⟩
    | intr => exact ⟨hidle.window hw, _, _, hidle.pending ▸ hp⟩
    | error => exact ⟨hidle.window hw, _, _, hidle.pending ▸ hp⟩
  rw [read_eq]
  split
  · have hsame := close_sameRecv (s := (s.readBase c ret currTime).1) c c now
    exact ⟨hsame.window hbase.1, hsame.pending ▸ hbase.2⟩
  · exact hbase

theorem isClient_of_reception (h : (t.conn d).reception = (s.conn d).reception) :
    t.IsClient d ↔ s.IsClient d := by
  have hread : (t.conn d).epoll.pcbReadHandler = (s.conn d).epoll.pcbReadHandler :=
    congrArg (fun r => r.2.1) h
  rw [IsClient, IsClient, hread]

theorem step_recvApart (hs : s.RecvApart) (hp : s.ClientPointers) (he : s.Enabled e)
    (h : s.next e = some t) : t.RecvApart := by
  have hclient (d : ConnId) (hd : t.IsClient d) (hread : ∀ env, e ≠ .read d env)
      (hrec : (t.conn d).reception = (s.conn d).reception) :
      t.Window d ∧ ∃ stream out, packetFormat.Parsed stream out (t.pending d) := by
    rw [isClient_of_reception hrec] at hd
    have hsame := step_sameRecv hs hp he h hd hread (congrArg Prod.fst hrec)
    obtain ⟨hw, hparsed⟩ := hs.windows d hd
    exact ⟨hsame.window hw, hsame.pending ▸ hparsed⟩
  by_cases hr : ∃ c env, e = .read c env
  · obtain ⟨c, env, rfl⟩ := hr
    obtain rfl := Option.some.inj h
    obtain ⟨hmove, hjobs⟩ := s.read_move c env.now env.recv env.currTime
    have hother {d : ConnId} (hd : d ≠ c) :
        ((s.epollEventReadRequestHandler c env.recv env.now env.currTime).conn d).reception =
          (s.conn d).reception := congrArg Prod.fst (read_receiveSide_ne hd)
    obtain ⟨hown, hsingle⟩ :=
      hs.move hp.recv hmove (fun d hd => congrArg Prod.fst (hother hd)) hjobs
    obtain ⟨hw, stream, out, hparsed⟩ := hs.windows c he.1
    have hwin := read_window env.now env.currTime hw hparsed he.2
    refine ⟨hown, hsingle, fun d => ?_, fun d hd => ?_⟩ <;> by_cases hdc : d = c
    · subst hdc
      rcases hwin.1 with ⟨off, hw'⟩ | ⟨b, off, hw'⟩
      · exact hw'.array
      · exact hw'.array
    · have hsame : ((s.epollEventReadRequestHandler c env.recv env.now env.currTime).conn d).recv =
          (s.conn d).recv := congrArg Prod.fst (hother hdc)
      rw [hsame]
      exact hs.array d
    · subst hdc
      exact hwin
    · refine hclient d hd (fun env' heq => hdc ?_) (hother hdc)
      injection heq with hcd
      exact hcd.symm
  · have hread (d : ConnId) (env : HandlerEnv) : e ≠ .read d env := fun heq => hr ⟨d, env, heq⟩
    have hkeep := step_keepsPackets hread h
    have hrec (d : ConnId) : ((t.conn d).reception = (s.conn d).reception ∧
          (t.conn d).recv = (s.conn d).recv) ∨
        ∃ k now, (k : Connection).recv.dataHeadInfo.length = msgHeaderLen ∧
          (t.conn d).recv = (k.getOneToUse now).recv := by
      rcases step_reception h d with hsame | ⟨env, heq⟩ | ⟨rfl, fd, now, b, rfl⟩
      · exact Or.inl ⟨hsame, congrArg Prod.fst hsame⟩
      · exact absurd heq (hread d env)
      · refine Or.inr ⟨s.taken, now, ?_, by simp [admitted, Connection.installed]⟩
        unfold Server.taken
        split
        · rfl
        · exact hs.array _
    have hold {d : ConnId} {b : BufId} (hb : (t.conn d).recv.receiving = some b) :
        (s.conn d).recv.receiving = some b := by
      rcases hrec d with ⟨-, hsame⟩ | ⟨k, now, -, hnew⟩
      · rwa [hsame] at hb
      · rw [hnew] at hb
        cases hb
    refine ⟨fun d b hb => ?_, fun d d' b hb hb' => hs.single d d' b (hold hb) (hold hb'),
      fun d => ?_, fun d hd => ?_⟩
    · obtain ⟨hlist, hjobs⟩ := hs.own d b (hold hb)
      exact ⟨fun hm => hlist (hkeep.list hm), fun hm => (hkeep.jobs b hm).elim hjobs hlist⟩
    · rcases hrec d with ⟨-, hsame⟩ | ⟨k, now, harr, hnew⟩
      · rw [hsame]
        exact hs.array d
      · rw [hnew]
        exact harr
    · rcases hrec d with ⟨hsame, -⟩ | ⟨k, now, harr, hnew⟩
      · exact hclient d hd (hread d) hsame
      · obtain ⟨hw, hpend⟩ := getOneToUse_window harr hnew
        exact ⟨Or.inl ⟨0, hw⟩, [], [], by rw [hpend]; exact .nil⟩

theorem array_boot (h : s.Booted) (c : ConnId) :
    (s.conn c).recv.dataHeadInfo.length = msgHeaderLen := by
  refine h.induction (P := fun s => ∀ c, (s.conn c).recv.dataHeadInfo.length = msgHeaderLen)
    (fun cfg now _ _ _ c => ?_) (fun s fd now hs c => ?_) c
  · simp only [init]
    split <;> rfl
  · by_cases hc : c = s.pool.front
    · by_cases hfree : s.pool.freeConnectionList = []
      · simp [addListenSocket, getConnection, epollRegisterEvent, hc, hfree,
          Connection.getOneToUse, newConnection]
      · simpa [addListenSocket, getConnection, epollRegisterEvent, hc, hfree,
          Connection.getOneToUse] using hs s.pool.front
    · simpa [addListenSocket, getConnection, epollRegisterEvent, hc] using hs c

theorem recvApart_boot (h : s.Booted) : s.RecvApart := by
  have hb := noBuffers_boot h
  refine ⟨fun c b hc => ?_, fun c d b hc => ?_, array_boot h,
    fun c hc => absurd hc (noClients_boot h c)⟩
  · rw [hb.receiving] at hc
    cases hc
  · rw [hb.receiving] at hc
    cases hc

/-- In every run, whatever the threads do. -/
theorem run_recvApart {es : List Event} (h : process.Run es s) : s.RecvApart := by
  refine h.trace_invariant (I := fun _ s => s.RecvApart) (fun _ hb => recvApart_boot hb) ?_
  intro es s e t hrun hs hstep
  exact step_recvApart hs (run_clientPointers hrun) hstep.1 hstep.2

end Server
end XiaoHGServer
