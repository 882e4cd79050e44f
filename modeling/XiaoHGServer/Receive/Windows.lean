import XiaoHGServer.Library.Addresses
import XiaoHGServer.Receive.Sessions

/-!
# The window of every `recv`

`pRecvMsgBuff` and `recvMsgLen` describe the memory that the next `recv` writes to.
Whether a body buffer is still there when its connection writes to it is a question
of addresses: `FreeMemory` releases what is at the address it is given, and a buffer
that has been released leaves its address to a later one. So the process is run here
together with the addresses of its receive buffers.
-/

namespace XiaoHGServer
namespace Server

variable {s t : Server} {c d : ConnId} {b : BufId} {e : Event}

/-! ### What connections do -/

/-- A client is accepted, an open connection is read from or closed, or a closed one is
recycled. -/
def Traffic (s : Server) : Event → Prop
  | .accept _ => True
  | .read c _ => c ∈ s.pool.clients
  | .close c _ => c ∈ s.pool.clients
  | .recycle _ => True
  | .clear => True
  | _ => False

/-- A recycled connection does not point to a buffer that has been released. -/
def RecyclesUnreleased (s : Server) (e : Event) : Prop :=
  ∀ c ∈ s.recycles e, ∀ b ∈ (s.conn c).recv.pRecvMsgMemPointer, b ∉ s.recvQueue.mem.released

instance (s : Server) : (e : Event) → Decidable (s.Traffic e)
  | .accept _ | .recycle _ | .clear => isTrue trivial
  | .read _ _ | .close _ _ => inferInstanceAs (Decidable (_ ∈ s.pool.clients))
  | .outError _ | .write _ _ | .take | .handle _ _ | .push _ _ | .release _ | .semWait | .semIntr
  | .sizeTest | .iterate _ | .monitor _ => isFalse not_false

instance (s : Server) (e : Event) : Decidable (s.RecyclesUnreleased e) := by
  unfold RecyclesUnreleased
  infer_instance

theorem run_clients_isClient {es : List Event} (h : process.Run es s) :
    ∀ c ∈ s.pool.clients, s.IsClient c := by
  refine h.invariant (I := fun s => ∀ c ∈ s.pool.clients, s.IsClient c) ?_ ?_
  · intro s hb c hc
    rw [clients_boot hb] at hc
    cases hc
  · intro s e t hs hstep c hc
    rcases step_clients hstep.2 hc with hc | ⟨rfl, fd, now, b, rfl⟩
    · exact step_isClient hstep.2 (hs c hc)
    · simp [IsClient, admitted, Connection.installed]

theorem Traffic.closesNoFree (he : s.Traffic e) (hs : s.PoolInv) : s.ClosesNoFree e := by
  have hopen {c : ConnId} (hc : c ∈ s.pool.clients) : c ∉ s.pool.freeConnectionList := by
    intro hfree
    refine (List.nodup_append.mp hs.partition.nodup_places).2.2 c ?_ c ?_ rfl
    · exact List.mem_append_left _ hfree
    · exact List.mem_append_left _ hc
  intro c hc
  cases e with
  | read d env =>
    simp only [closes] at hc
    split_ifs at hc
    · obtain rfl := Option.some.inj hc
      exact hopen he
    · cases hc
  | push i now => exact he.elim
  | monitor now => exact he.elim
  | close d now =>
    obtain rfl := Option.some.inj hc
    exact hopen he
  | _ => cases hc

theorem run_traffic {es : List Event} (h : (process.restrict Traffic).Run es s) :
    (process.restrict ClosesNoFree).Run es s := by
  induction h with
  | start h => exact .start h
  | step _ hstep ih => exact ih.step ⟨hstep.1.closesNoFree (run_poolInv ih).1, hstep.2⟩

/-! ### The header array and the buffer pointer -/

/-- The state machine leaves the header array alone, and the buffer pointer too, or makes it point
to a new buffer. -/
theorem recvAdvance_pointer (s : Server) (c : ConnId) (n currTime : ℕ) :
    let t := (s.recvAdvance c n currTime).1
    (t.conn c).recv.dataHeadInfo = (s.conn c).recv.dataHeadInfo ∧
      ((t.conn c).recv.pRecvMsgMemPointer = (s.conn c).recv.pRecvMsgMemPointer ∨
        (t.conn c).recv.pRecvMsgMemPointer = some s.recvQueue.mem.next ∧
          t.recvQueue.mem.next = s.recvQueue.mem.next + 1) := by
  have hparse (u : Server) (bIsFlood : Bool) :
      let v := u.recvMsgPacketParseProc c bIsFlood
      (v.conn c).recv.dataHeadInfo = (u.conn c).recv.dataHeadInfo ∧
        (v.conn c).recv.pRecvMsgMemPointer = (u.conn c).recv.pRecvMsgMemPointer ∧
        v.recvQueue.mem.next = u.recvQueue.mem.next := by
    unfold recvMsgPacketParseProc
    cases bIsFlood with
    | false =>
      simp only [if_true]
      split <;> simp [expectHeader, pushRecvMsgToRecvListAndCond]
    | true => simp [expectHeader]
  have hcomplete (u : Server) :
      let v := (u.floodCheck c false currTime).1.recvMsgPacketParseProc c
        (u.floodCheck c false currTime).2
      (v.conn c).recv.dataHeadInfo = (u.conn c).recv.dataHeadInfo ∧
        (v.conn c).recv.pRecvMsgMemPointer = (u.conn c).recv.pRecvMsgMemPointer ∧
        v.recvQueue.mem.next = u.recvQueue.mem.next := by
    obtain ⟨hrecv, hqueue⟩ := floodCheck_recv (s := u) (c := c) currTime false
    rw [← hrecv, ← hqueue]
    exact hparse _ _
  have hheader : let v := (s.recvMsgHeaderParseProc c false currTime).1
      (v.conn c).recv.dataHeadInfo = (s.conn c).recv.dataHeadInfo ∧
        ((v.conn c).recv.pRecvMsgMemPointer = (s.conn c).recv.pRecvMsgMemPointer ∨
          (v.conn c).recv.pRecvMsgMemPointer = some s.recvQueue.mem.next ∧
            v.recvQueue.mem.next = s.recvQueue.mem.next + 1) := by
    unfold recvMsgHeaderParseProc
    dsimp only
    split
    · simp [expectHeader]
    · split
      · obtain ⟨hhead, hptr, hnext⟩ :=
          hcomplete (s.allocRecvBuffer c (pkgLength (s.conn c).recv.dataHeadInfo))
        refine ⟨hhead.trans ?_, Or.inr ⟨hptr.trans ?_, hnext.trans ?_⟩⟩ <;> simp [allocRecvBuffer]
      · simp [allocRecvBuffer]
  have hbody : let v := (s.bodyComplete c currTime).1
      (v.conn c).recv.dataHeadInfo = (s.conn c).recv.dataHeadInfo ∧
        ((v.conn c).recv.pRecvMsgMemPointer = (s.conn c).recv.pRecvMsgMemPointer ∨
          (v.conn c).recv.pRecvMsgMemPointer = some s.recvQueue.mem.next ∧
            v.recvQueue.mem.next = s.recvQueue.mem.next + 1) := by
    obtain ⟨hhead, hptr, -⟩ := hcomplete s
    exact ⟨hhead, Or.inl hptr⟩
  unfold recvAdvance
  dsimp only
  split <;> split
  all_goals first | exact hheader | exact hbody | simp [advanceRecv]

/-! ### The header of the packet that is received -/

/-- A body is received behind a copy of the header in `dataHeadInfo`. -/
def HeaderCopied (s : Server) (c : ConnId) : Prop :=
  ∀ b off, (s.conn c).recv.pRecvMsgBuff = .packet b off →
    (s.recvPkg b).take lenPkgHeader = (s.conn c).recv.dataHeadInfo.take lenPkgHeader

theorem SameRecv.headerCopied (h : SameRecv c s t) (hs : s.HeaderCopied c) : t.HeaderCopied c := by
  intro b off hptr
  rw [h.1] at hptr ⊢
  rw [h.2 b off hptr]
  exact hs b off hptr

theorem HeaderWindow.headerCopied {off : ℕ} (h : s.HeaderWindow c off) : s.HeaderCopied c := by
  intro b off' hptr
  rw [h.ptr] at hptr
  cases hptr

/-- Only `recv` itself writes to the header array. -/
theorem readBase_dataHeadInfo (s : Server) (c : ConnId) (chunk : List Byte) (currTime : ℕ) :
    let u := s.logCall (.recv c (s.conn c).sockFd (s.conn c).recv.recvMsgLen)
    ((s.readBase c (.data chunk) currTime).1.conn c).recv.dataHeadInfo =
      ((u.storeRecv c chunk).conn c).recv.dataHeadInfo := (recvAdvance_pointer _ _ _ _).1

theorem HeaderWindow.read_headerCopied {off currTime : ℕ} {chunk : List Byte}
    (h : s.HeaderWindow c off) (hne : chunk ≠ [])
    (hlen : chunk.length ≤ (s.conn c).recv.recvMsgLen) :
    (s.readBase c (.data chunk) currTime).1.HeaderCopied c := by
  have hwin := h.len
  by_cases heq : off + chunk.length = lenPkgHeader
  · by_cases hbad : pkgLength (s.pending c ++ chunk) < lenPkgHeader ∨
        pkgMaxLength < pkgLength (s.pending c ++ chunk)
    · obtain ⟨t, ht, -, hw, -⟩ := h.skip currTime heq hbad
      rw [ht]
      exact hw.headerCopied
    · by_cases hmin : pkgLength (s.pending c ++ chunk) = lenPkgHeader
      · obtain ⟨t, ht, -, hw, -⟩ := h.emit currTime heq hmin
        rw [ht]
        exact hw.headerCopied
      · obtain ⟨t, ht, -, hw, hpend, -⟩ := h.toBody currTime heq (by omega) (by omega)
        have hfit : off + chunk.length ≤ lenPkgHeader := heq.le
        obtain ⟨-, -, -, -, htake⟩ := h.stored hfit
        have hhead : (t.conn c).recv.dataHeadInfo.take lenPkgHeader = s.pending c ++ chunk := by
          have hsame := s.readBase_dataHeadInfo c chunk currTime
          rw [ht] at hsame
          rw [hsame, ← htake, heq]
        intro b off' hptr
        rw [ht] at hptr ⊢
        rw [hw.ptr] at hptr
        cases hptr
        rw [hhead, ← hpend, hw.pending_eq]
  · obtain ⟨t, ht, -, hw, -⟩ := h.more currTime hne (by omega)
    rw [ht]
    exact hw.headerCopied

theorem BodyWindow.read_headerCopied {off currTime : ℕ} {chunk : List Byte}
    (h : s.BodyWindow c b off) (hs : s.HeaderCopied c) (hne : chunk ≠ [])
    (hlen : chunk.length ≤ (s.conn c).recv.recvMsgLen) :
    (s.readBase c (.data chunk) currTime).1.HeaderCopied c := by
  have hwin := h.len
  by_cases heq : off + chunk.length = pkgLength (s.recvPkg b)
  · obtain ⟨t, ht, -, hw, -⟩ := h.emit currTime heq
    rw [ht]
    exact hw.headerCopied
  · obtain ⟨t, ht, -, hw, hpend, -⟩ := h.more currTime hne (by omega)
    have hfit : off + chunk.length ≤ pkgLength (s.recvPkg b) := by omega
    obtain ⟨hconn, -⟩ := h.stored hfit
    have hhead : (t.conn c).recv.dataHeadInfo = (s.conn c).recv.dataHeadInfo := by
      have hsame := s.readBase_dataHeadInfo c chunk currTime
      rw [ht] at hsame
      rw [hsame, hconn]
    have htake : (t.recvPkg b).take lenPkgHeader = (s.recvPkg b).take lenPkgHeader := by
      have hmore : lenPkgHeader ≤ off + chunk.length := h.header.trans (Nat.le_add_right ..)
      have hin : lenPkgHeader ≤ (s.pending c).length := by
        rw [h.pending_eq, List.length_take, h.size]
        exact le_min h.header (h.header.trans h.off_lt.le)
      calc (t.recvPkg b).take lenPkgHeader
          = (t.pending c).take lenPkgHeader := by
            rw [hw.pending_eq, List.take_take, Nat.min_eq_left hmore]
        _ = (s.pending c).take lenPkgHeader := by rw [hpend, List.take_append_of_le_length hin]
        _ = (s.recvPkg b).take lenPkgHeader := by
            rw [h.pending_eq, List.take_take, Nat.min_eq_left h.header]
    intro b' off' hptr
    rw [ht] at hptr ⊢
    rw [hw.ptr] at hptr
    cases hptr
    rw [htake, hhead]
    exact hs b off h.ptr

theorem read_headerCopied {ret : RecvRet} {now : ℤ} {currTime : ℕ} (hw : s.Window c)
    (hs : s.HeaderCopied c) (hret : ret.Legal s c) :
    (s.epollEventReadRequestHandler c ret now currTime).HeaderCopied c := by
  have hbase : (s.readBase c ret currTime).1.HeaderCopied c := by
    cases ret with
    | data chunk =>
      rcases hw with ⟨off, hw⟩ | ⟨b, off, hw⟩
      · exact hw.read_headerCopied hret.1 hret.2.1
      · exact hw.read_headerCopied hs hret.1 hret.2.1
    | _ => exact hs
  rw [read_eq]
  split
  · exact (close_sameRecv c c now).headerCopied hbase
  · exact hbase

/-! ### Buffers that are received into have not been released -/

/-- Every connection has a buffer of its own, and those of open connections have not been
released. -/
structure BuffersLive (s : Server) : Prop where
  released : ∀ b ∈ s.recvQueue.mem.released, b < s.recvQueue.mem.next
  pointer : ∀ c b, (s.conn c).recv.pRecvMsgMemPointer = some b → b < s.recvQueue.mem.next
  single : ∀ c d b, (s.conn c).recv.pRecvMsgMemPointer = some b →
    (s.conn d).recv.pRecvMsgMemPointer = some b → c = d
  live : ∀ c ∈ s.pool.clients, ∀ b, (s.conn c).recv.receiving = some b →
    b ∉ s.recvQueue.mem.released
  copied : ∀ c ∈ s.pool.clients, s.HeaderCopied c

theorem receiving_pointer (h : (s.conn c).recv.receiving = some b) :
    (s.conn c).recv.pRecvMsgMemPointer = some b := by
  unfold RecvState.receiving at h
  split at h <;> first | exact h | cases h

theorem read_pointer (s : Server) (c : ConnId) (ret : RecvRet) (now : ℤ) (currTime : ℕ) :
    let t := s.epollEventReadRequestHandler c ret now currTime
    (t.conn c).recv.pRecvMsgMemPointer = (s.conn c).recv.pRecvMsgMemPointer ∨
      (t.conn c).recv.pRecvMsgMemPointer = some s.recvQueue.mem.next ∧
        t.recvQueue.mem.next = s.recvQueue.mem.next + 1 := by
  have hbase : let u := (s.readBase c ret currTime).1
      (u.conn c).recv.pRecvMsgMemPointer = (s.conn c).recv.pRecvMsgMemPointer ∨
        (u.conn c).recv.pRecvMsgMemPointer = some s.recvQueue.mem.next ∧
          u.recvQueue.mem.next = s.recvQueue.mem.next + 1 := by
    cases ret with
    | data chunk =>
      set u := s.logCall (.recv c (s.conn c).sockFd (s.conn c).recv.recvMsgLen)
      have hstore : ((u.storeRecv c chunk).conn c).recv.pRecvMsgMemPointer =
          (s.conn c).recv.pRecvMsgMemPointer := by
        unfold storeRecv
        split <;> simp [u]
      have hnext : (u.storeRecv c chunk).recvQueue.mem.next = s.recvQueue.mem.next := by
        rw [(storeRecv_quiet chunk).1]
        rfl
      have hadv := (recvAdvance_pointer (u.storeRecv c chunk) c chunk.length currTime).2
      rw [hstore, hnext] at hadv
      exact hadv
    | _ => exact Or.inl rfl
  rw [read_eq]
  split
  · dsimp only
    rw [closeConnectionToRecy_recv, closeConnectionToRecy_eq]
    exact hbase
  · exact hbase

/-- A step of another kind leaves the buffers of all connections as they are, takes a connection
into use, or recycles one. -/
theorem traffic_cases (he : s.Traffic e) (h : s.next e = some t) :
    (∃ c env, e = .read c env ∧ c ∈ s.pool.clients ∧
      t = s.epollEventReadRequestHandler c env.recv env.now env.currTime) ∨
    (t.recvQueue = s.recvQueue ∧ (∀ d, (t.conn d).recv = (s.conn d).recv) ∧
      t.pool.clients ⊆ s.pool.clients) ∨
    (∃ fd now b, t = { s.admitted fd now with iIsAccept4 := b }) ∨
    ∃ c n, c ∈ s.recycles e ∧ c ∈ s.pool.recyConnectionList ∧ t = s.recycled c n := by
  cases e with
  | accept env =>
    rcases accept_cases h with ⟨b, calls, rfl, -⟩ | ⟨fd, b, -, rfl⟩
    · exact Or.inr (Or.inl ⟨rfl, fun _ => rfl, List.Subset.refl _⟩)
    · exact Or.inr (Or.inr (Or.inl ⟨fd, env.now, b, rfl⟩))
  | read c env =>
    obtain rfl := Option.some.inj h
    exact Or.inl ⟨c, env, rfl, he, rfl⟩
  | close c now =>
    obtain rfl := Option.some.inj h
    refine Or.inr (Or.inl ⟨?_, closeConnectionToRecy_recv, ?_⟩)
    · rw [closeConnectionToRecy_eq]
    · rw [closeConnectionToRecy_pool]
      exact List.erase_subset
  | recycle now =>
    obtain ⟨c, hc, rfl⟩ := lblRRTD_eq_some h
    exact Or.inr (Or.inr (Or.inr ⟨c, _, hc, List.mem_of_find?_eq_some hc, rfl⟩))
  | clear =>
    obtain ⟨c, hc, rfl⟩ := lblRRTD2_eq_some h
    exact Or.inr (Or.inr (Or.inr ⟨c, _, hc, List.mem_of_mem_head? hc, rfl⟩))
  | _ => exact he.elim

theorem read_clients (s : Server) (c : ConnId) (ret : RecvRet) (now : ℤ) (currTime : ℕ) :
    (s.epollEventReadRequestHandler c ret now currTime).pool.clients ⊆ s.pool.clients := by
  obtain ⟨q, r, f, hform⟩ := onlyRecv_readBase s c ret currTime
  have hpool : (s.readBase c ret currTime).1.pool = s.pool := by
    rw [hform]
    rfl
  rw [read_eq]
  split
  · rw [closeConnectionToRecy_pool, hpool]
    exact List.erase_subset
  · rw [hpool]
    exact List.Subset.refl _

namespace BuffersLive

/-- What the read handler releases is the buffer it has received into, or a new one. -/
theorem read_live (hs : s.BuffersLive) (hap : s.RecvApart) (hp : s.ClientPointers)
    (hmove : RecvMove s.recvQueue (s.conn c).recv t.recvQueue (t.conn c).recv)
    (hother : ∀ d, d ≠ c → (t.conn d).recv = (s.conn d).recv)
    (hd : d ∈ s.pool.clients) (hb : (t.conn d).recv.receiving = some b) :
    b ∉ t.recvQueue.mem.released := by
  have hnew : s.recvQueue.mem.next ∉ s.recvQueue.mem.released := fun hm =>
    (hs.released _ hm).false
  by_cases hdc : d = c
  · subst hdc
    rcases hmove with ⟨-, -, hr, hs'⟩ | ⟨-, -, hr, -, hs'⟩ | ⟨-, -, -, -, hs'⟩ | ⟨-, -, -, -, hs'⟩ |
      ⟨_, -, -, -, -, hs'⟩ | ⟨_, -, -, -, -, hs'⟩
    all_goals rw [hs'] at hb
    · rw [hr]
      exact hs.live d hd b hb
    · rw [hr]
      obtain rfl := Option.some.inj hb
      exact hnew
    all_goals cases hb
  · rw [hother d hdc] at hb
    intro hreleased
    rcases hmove.mem_released hreleased with hold | ⟨rfl, -⟩ | hc
    · exact hs.live d hd b hb hold
    · exact (hp.recv.receiving d _ hb).false
    · exact hdc (hap.single d c b hb hc)

theorem pointer_read {ret : RecvRet} {now : ℤ} {currTime : ℕ} {d : ConnId}
    (hb : ((s.epollEventReadRequestHandler c ret now currTime).conn d).recv.pRecvMsgMemPointer =
      some b) : (s.conn d).recv.pRecvMsgMemPointer = some b ∨
        d = c ∧ b = s.recvQueue.mem.next ∧
          (s.epollEventReadRequestHandler c ret now currTime).recvQueue.mem.next =
            s.recvQueue.mem.next + 1 := by
  by_cases hd : d = c
  · subst hd
    rcases s.read_pointer d ret now currTime with hsame | ⟨hnew, hn⟩
    · exact Or.inl (hsame ▸ hb)
    · rw [hnew] at hb
      exact Or.inr ⟨rfl, (Option.some.inj hb).symm, hn⟩
  · have hother : ((s.epollEventReadRequestHandler c ret now currTime).conn d).recv =
        (s.conn d).recv := congrArg (fun r => r.1.1) (read_receiveSide_ne hd)
    rw [hother] at hb
    exact Or.inl hb

theorem read {ret : RecvRet} {now : ℤ} {currTime : ℕ} (hs : s.BuffersLive) (hap : s.RecvApart)
    (hp : s.ClientPointers) (hc : c ∈ s.pool.clients) (hclient : ∀ c ∈ s.pool.clients, s.IsClient c)
    (hret : ret.Legal s c) :
    (s.epollEventReadRequestHandler c ret now currTime).BuffersLive := by
  obtain ⟨hmove, -⟩ := s.read_move c now ret currTime
  have hsub := s.read_clients c ret now currTime
  have hother {d : ConnId} (hd : d ≠ c) :
      ((s.epollEventReadRequestHandler c ret now currTime).conn d).recv = (s.conn d).recv :=
    congrArg (fun r => r.1.1) (read_receiveSide_ne hd)
  set t := s.epollEventReadRequestHandler c ret now currTime with ht
  have hnext : s.recvQueue.mem.next ≤ t.recvQueue.mem.next := hmove.next_le
  have hold {d : ConnId} {b : BufId} (hb : (t.conn d).recv.pRecvMsgMemPointer = some b) :
      (s.conn d).recv.pRecvMsgMemPointer = some b ∨
        d = c ∧ b = s.recvQueue.mem.next ∧ t.recvQueue.mem.next = s.recvQueue.mem.next + 1 :=
    pointer_read hb
  constructor
  · intro b hb
    rcases hmove.mem_released hb with hb | ⟨rfl, hn⟩ | hb
    · exact Nat.lt_of_lt_of_le (hs.released b hb) hnext
    · rw [hn]
      exact Nat.lt_succ_self _
    · exact Nat.lt_of_lt_of_le (hp.recv.receiving c b hb) hnext
  · intro d b hb
    rcases hold hb with hb | ⟨-, rfl, hn⟩
    · exact Nat.lt_of_lt_of_le (hs.pointer d b hb) hnext
    · rw [hn]
      exact Nat.lt_succ_self _
  · intro d d' b hb hb'
    have hne {d : ConnId} (hb : (s.conn d).recv.pRecvMsgMemPointer = some b) :
        b ≠ s.recvQueue.mem.next := Nat.ne_of_lt (hs.pointer d b hb)
    rcases hold hb with hb₁ | ⟨hd, hb₁, -⟩ <;> rcases hold hb' with hb₂ | ⟨hd', hb₂, -⟩
    · exact hs.single d d' b hb₁ hb₂
    · exact absurd hb₂ (hne hb₁)
    · exact absurd hb₁ (hne hb₂)
    · rw [hd, hd']
  · intro d hd b hb
    exact hs.read_live hap hp hmove (fun d hd => hother hd) (hsub hd) hb
  · intro d hd
    by_cases hdc : d = c
    · subst hdc
      exact read_headerCopied (hap.windows d (hclient d hc)).1 (hs.copied d hc) hret
    · refine SameRecv.headerCopied ⟨hother hdc, fun b off hptr => ?_⟩ (hs.copied d (hsub hd))
      have hown := (hap.windows d (hclient d (hsub hd))).1.receiving hptr
      refine read_packet (hap.windows c (hclient c hc)).1 ?_ (hp.recv.receiving d b hown)
      intro hown'
      exact hdc (hap.single d c b hown hown')

theorem admitted (hs : s.BuffersLive) (fd : ℕ) (now : ℤ) :
    (s.admitted fd now).BuffersLive := by
  have hrecv (d : ConnId) : d = s.pool.front ∧
      ((s.admitted fd now).conn d).recv = (s.taken.getOneToUse now).recv ∨
        d ≠ s.pool.front ∧ ((s.admitted fd now).conn d).recv = (s.conn d).recv := by
    by_cases hd : d = s.pool.front
    · exact Or.inl ⟨hd, by simp [Server.admitted, Connection.installed, hd]⟩
    · exact Or.inr ⟨hd, by simp [Server.admitted, hd]⟩
  have hold {d : ConnId} {b : BufId}
      (hb : ((s.admitted fd now).conn d).recv.pRecvMsgMemPointer = some b) :
      (s.conn d).recv.pRecvMsgMemPointer = some b := by
    rcases hrecv d with ⟨-, hnew⟩ | ⟨-, hsame⟩
    · rw [hnew] at hb
      cases hb
    · rwa [hsame] at hb
  refine ⟨hs.released, fun d b hb => hs.pointer d b (hold hb),
    fun d d' b hb hb' => hs.single d d' b (hold hb) (hold hb'), fun d hd b hb => ?_,
    fun d hd => ?_⟩
  · rcases hrecv d with ⟨-, hnew⟩ | ⟨hne, hsame⟩
    · rw [hnew] at hb
      cases hb
    · rw [hsame] at hb
      exact hs.live d ((List.mem_cons.mp hd).resolve_left hne) b hb
  · rcases hrecv d with ⟨-, hnew⟩ | ⟨hne, hsame⟩
    · intro b off hptr
      rw [hnew] at hptr
      cases hptr
    · have hcopied := hs.copied d ((List.mem_cons.mp hd).resolve_left hne)
      exact SameRecv.headerCopied ⟨hsame, fun _ _ _ => rfl⟩ hcopied

theorem recycled {n : ℤ} (hs : s.BuffersLive) (hc : c ∉ s.pool.clients) :
    (s.recycled c n).BuffersLive := by
  have hrecv (d : ConnId) : ((s.recycled c n).conn d).recv = (s.conn d).recv :=
    update_field Connection.recv (by rfl) d
  have hnext : (s.recycled c n).recvQueue.mem.next = s.recvQueue.mem.next := by
    simp [Server.recycled]
  have hreleased {b : BufId} (hb : b ∈ (s.recycled c n).recvQueue.mem.released) :
      b ∈ s.recvQueue.mem.released ∨ (s.conn c).recv.pRecvMsgMemPointer = some b := by
    cases hp : (s.conn c).recv.pRecvMsgMemPointer with
    | none =>
      simp only [Server.recycled, hp, Heap.freeMemory_none] at hb
      exact Or.inl hb
    | some b' =>
      simp only [Server.recycled, hp, Heap.freeMemory_some_released, List.mem_cons] at hb
      rcases hb with rfl | hb
      · exact Or.inr rfl
      · exact Or.inl hb
  constructor
  · intro b hb
    rw [hnext]
    exact (hreleased hb).elim (hs.released b) (hs.pointer c b)
  · intro d b hb
    rw [hrecv] at hb
    rw [hnext]
    exact hs.pointer d b hb
  · intro d d' b hb hb'
    rw [hrecv] at hb hb'
    exact hs.single d d' b hb hb'
  · intro d hd b hb hrel
    rw [hrecv] at hb
    rcases hreleased hrel with hrel | hptr
    · exact hs.live d hd b hb hrel
    · obtain rfl := hs.single d c b (receiving_pointer hb) hptr
      exact hc hd
  · intro d hd
    refine SameRecv.headerCopied ⟨hrecv d, fun b off _ => ?_⟩ (hs.copied d hd)
    simp [recvPkg, Server.recycled]

end BuffersLive

theorem step_buffersLive (hs : s.BuffersLive) (hap : s.RecvApart) (hp : s.ClientPointers)
    (hclient : ∀ c ∈ s.pool.clients, s.IsClient c)
    (hrecy : ∀ c ∈ s.pool.recyConnectionList, c ∉ s.pool.clients) (hallow : s.Traffic e)
    (he : s.Enabled e) (h : s.next e = some t) : t.BuffersLive := by
  rcases traffic_cases hallow h with ⟨c, env, rfl, hc, rfl⟩ | ⟨hq, hrecv, hsub⟩ |
    ⟨fd, now, b, rfl⟩ | ⟨c, n, -, hc, rfl⟩
  · exact hs.read hap hp hc hclient he.2
  · have hpkg (b : BufId) : t.recvPkg b = s.recvPkg b := by rw [recvPkg, hq, recvPkg]
    constructor
    · rw [hq]
      exact hs.released
    · intro c b hb
      rw [hrecv] at hb
      rw [hq]
      exact hs.pointer c b hb
    · intro c d b hb hb'
      rw [hrecv] at hb hb'
      exact hs.single c d b hb hb'
    · intro c hc b hb
      rw [hrecv] at hb
      rw [hq]
      exact hs.live c (hsub hc) b hb
    · intro c hc
      exact SameRecv.headerCopied ⟨hrecv c, fun b _ _ => hpkg b⟩ (hs.copied c (hsub hc))
  · have hnew := hs.admitted fd now
    exact ⟨hnew.released, hnew.pointer, hnew.single, hnew.live, hnew.copied⟩
  · exact hs.recycled (hrecy c hc)

theorem buffersLive_boot (h : s.Booted) : s.BuffersLive := by
  have hb := noBuffers_boot h
  have hopen (c : ConnId) : c ∉ s.pool.clients := by
    rw [clients_boot h]
    exact List.not_mem_nil
  refine ⟨fun b hm => ?_, fun c b hc => ?_, fun c d b hc => ?_, fun c hc => absurd hc (hopen c),
    fun c hc => absurd hc (hopen c)⟩
  · rw [hb.recvReleased] at hm
    cases hm
  · rw [hb.recvPointer] at hc
    cases hc
  · rw [hb.recvPointer] at hc
    cases hc

/-- In every run of connections. -/
theorem run_buffersLive {es : List Event} (h : (process.restrict Traffic).Run es s) :
    s.BuffersLive := by
  refine h.trace_invariant (I := fun _ s => s.BuffersLive) (fun _ hb => buffersLive_boot hb) ?_
  intro es s e t hrun hs hstep
  have hproc := hrun.of_restrict
  have hinv := (run_poolInv (run_traffic hrun)).1
  have hrecy (c : ConnId) (hc : c ∈ s.pool.recyConnectionList) : c ∉ s.pool.clients := by
    intro hin
    refine (List.nodup_append.mp hinv.partition.nodup_places).2.2 c ?_ c ?_ rfl
    · exact List.mem_append_right _ hc
    · exact List.mem_append_left _ hin
  exact step_buffersLive hs (run_recvApart hproc) (run_clientPointers hproc)
    (run_clients_isClient hproc) hrecy hstep.1 hstep.2.1 hstep.2.2

end Server

/-! ### The addresses of the buffers -/

/-- The process with the addresses of its receive buffers. -/
structure Located where
  server : Server
  buffers : AddressMap ℕ

namespace Located

open Server

variable {p q : Located} {c : ConnId} {x : Event × ℕ}

/-- The buffers after a step from `s` to `t`: a new one is at address `a`, and what `FreeMemory`
finds at the addresses it is given is gone. -/
def buffersAfter (m : AddressMap ℕ) (s t : Server) (a : ℕ) : AddressMap ℕ :=
  let m :=
    if t.recvQueue.mem.next = s.recvQueue.mem.next then m
    else m.place s.recvQueue.mem.next a
  (t.recvQueue.mem.released.take
    (t.recvQueue.mem.released.length - s.recvQueue.mem.released.length)).foldr
      (fun b m => m.free b) m

/-- An event, and the address `AllocMemory` returns in it if it is called: one at which no buffer
is. -/
def Enabled (p : Located) (x : Event × ℕ) : Prop :=
  p.server.Enabled x.1 ∧ p.buffers.Vacant p.server.recvQueue.mem.next x.2

instance (p : Located) (x : Event × ℕ) : Decidable (p.Enabled x) :=
  inferInstanceAs (Decidable (_ ∧ _))

def next (p : Located) (x : Event × ℕ) : Option Located :=
  (p.server.next x.1).map fun t => ⟨t, buffersAfter p.buffers p.server t x.2⟩

def system : System Located (Event × ℕ) :=
  .ofNext (fun p => p.server.Booted) Enabled next

/-- The memory that the next `recv` on connection `c` writes to is there: the rest of the header
array, or the rest of the buffer that was allocated for the header in it. -/
structure RecvWindow (p : Located) (c : ConnId) : Prop where
  nonempty : 1 ≤ (p.server.conn c).recv.recvMsgLen
  header : (p.server.conn c).recv.recvMsgCurStatus = .pkgHdInit ∨
      (p.server.conn c).recv.recvMsgCurStatus = .pkgHdRecving →
    ∃ off, (p.server.conn c).recv.pRecvMsgBuff = .dataHeadInfo off ∧
      off + (p.server.conn c).recv.recvMsgLen = lenPkgHeader ∧
      lenPkgHeader ≤ (p.server.conn c).recv.dataHeadInfo.length
  body : (p.server.conn c).recv.recvMsgCurStatus = .pkgBdInit ∨
      (p.server.conn c).recv.recvMsgCurStatus = .pkgBdRecving →
    ∃ b off, (p.server.conn c).recv.pRecvMsgMemPointer = some b ∧
      (p.server.conn c).recv.pRecvMsgBuff = .packet b off ∧ lenPkgHeader ≤ off ∧
      off + (p.server.conn c).recv.recvMsgLen = pkgLength (p.server.conn c).recv.dataHeadInfo ∧
      (p.server.recvPkg b).length = pkgLength (p.server.conn c).recv.dataHeadInfo ∧
      (p.server.recvPkg b).take lenPkgHeader =
        (p.server.conn c).recv.dataHeadInfo.take lenPkgHeader ∧
      p.buffers.gone b = false

/-- A step of a run of connections in which no buffer is released for the second time. -/
def Allowed (p : Located) (x : Event × ℕ) : Prop :=
  p.server.Traffic x.1 ∧ p.server.RecyclesUnreleased x.1

instance (p : Located) (x : Event × ℕ) : Decidable (p.Allowed x) :=
  inferInstanceAs (Decidable (_ ∧ _))

theorem run_process {xs : List (Event × ℕ)} (h : (system.restrict Allowed).Run xs p) :
    (process.restrict Traffic).Run (xs.map Prod.fst) p.server := by
  induction h with
  | start h => exact .start h
  | @step xs p x q _ hstep ih =>
    obtain ⟨t, ht, rfl⟩ := Option.map_eq_some_iff.mp hstep.2.2
    rw [List.map_append]
    exact ih.step ⟨hstep.1.1, hstep.2.1.1, ht⟩

def smallStart (cfg : Config) : Located := ⟨smallBoot cfg, ⟨fun _ => 0, fun _ => false⟩⟩

theorem run_of_play {α : Type*} (allow : Located → Event × ℕ → Prop)
    [∀ p x, Decidable (allow p x)] (cfg : Config) (xs : List (Event × ℕ)) (f : Located → α) (v : α)
    (h : (System.play (fun p x => allow p x ∧ p.Enabled x) next xs (smallStart cfg)).map f =
      some v) :
    ∃ p, (system.restrict allow).Run xs p ∧ f p = v := by
  obtain ⟨p, hp, hv⟩ := Option.map_eq_some_iff.mp h
  refine ⟨p, ?_, hv⟩
  rw [system, System.restrict_ofNext]
  exact System.run_of_play (booted_smallBoot cfg) hp

section Buffers

variable {m : AddressMap ℕ} {s t : Server} {a : ℕ}

theorem buffersAfter_eq (bs : List BufId)
    (hr : t.recvQueue.mem.released = bs ++ s.recvQueue.mem.released) :
    buffersAfter m s t a = bs.foldr (fun b m => m.free b)
      (if t.recvQueue.mem.next = s.recvQueue.mem.next then m
        else m.place s.recvQueue.mem.next a) := by
  have hnew : bs.length + s.recvQueue.mem.released.length - s.recvQueue.mem.released.length =
      bs.length := Nat.add_sub_cancel ..
  simp only [buffersAfter, hr, List.length_append, hnew, List.take_left]

/-- The map keeps up with the list of what was released. -/
def Tracked (m : AddressMap ℕ) (s : Server) : Prop :=
  m.Tracks s.recvQueue.mem.next s.recvQueue.mem.released

theorem Tracked.same (h : Tracked m s) (hn : t.recvQueue.mem.next = s.recvQueue.mem.next)
    (hr : t.recvQueue.mem.released = s.recvQueue.mem.released) :
    Tracked (buffersAfter m s t a) t := by
  rw [buffersAfter_eq [] hr, Tracked, hn, hr, if_pos rfl]
  exact h

theorem Tracked.alloc (h : Tracked m s) (hnew : s.recvQueue.mem.next ∉ s.recvQueue.mem.released)
    (ha : m.Vacant s.recvQueue.mem.next a)
    (hn : t.recvQueue.mem.next = s.recvQueue.mem.next + 1)
    (hr : t.recvQueue.mem.released = s.recvQueue.mem.released) :
    Tracked (buffersAfter m s t a) t := by
  rw [buffersAfter_eq [] hr, Tracked, hn, hr, if_neg (Nat.succ_ne_self _)]
  exact h.place ha hnew

theorem Tracked.allocFree (h : Tracked m s)
    (hnew : s.recvQueue.mem.next ∉ s.recvQueue.mem.released)
    (ha : m.Vacant s.recvQueue.mem.next a)
    (hn : t.recvQueue.mem.next = s.recvQueue.mem.next + 1)
    (hr : t.recvQueue.mem.released = s.recvQueue.mem.next :: s.recvQueue.mem.released) :
    Tracked (buffersAfter m s t a) t := by
  rw [buffersAfter_eq [s.recvQueue.mem.next] hr, Tracked, hn, hr,
    if_neg (Nat.succ_ne_self _)]
  exact (h.place ha hnew).free (Nat.lt_succ_self _) hnew

theorem Tracked.free {b : BufId} (h : Tracked m s) (hb : b < s.recvQueue.mem.next)
    (hno : b ∉ s.recvQueue.mem.released) (hn : t.recvQueue.mem.next = s.recvQueue.mem.next)
    (hr : t.recvQueue.mem.released = b :: s.recvQueue.mem.released) :
    Tracked (buffersAfter m s t a) t := by
  rw [buffersAfter_eq [b] hr, Tracked, hn, hr, if_pos rfl]
  exact AddressMap.Tracks.free h hb hno

end Buffers

theorem step_tracked (h : Tracked p.buffers p.server) (hs : p.server.BuffersLive)
    (hp : p.server.ClientPointers) (hx : p.Allowed x) (hstep : system.step p x q) :
    Tracked q.buffers q.server := by
  obtain ⟨⟨-, ha⟩, hnext⟩ := hstep
  obtain ⟨t, ht, rfl⟩ := Option.map_eq_some_iff.mp hnext
  have hnew : p.server.recvQueue.mem.next ∉ p.server.recvQueue.mem.released := fun hm =>
    (hs.released _ hm).false
  rcases traffic_cases hx.1 ht with ⟨c, env, -, hc, rfl⟩ | ⟨hq, -, -⟩ | ⟨fd, now, b, rfl⟩ |
    ⟨c, n, hc, -, rfl⟩
  · obtain ⟨hmove, -⟩ := p.server.read_move c env.now env.recv env.currTime
    rcases hmove with ⟨hn, -, hr, -⟩ | ⟨hn, -, hr, -⟩ | ⟨hn, -, hr, -⟩ | ⟨hn, -, hr, -⟩ |
      ⟨b, hn, -, hr, -⟩ | ⟨b, hn, -, hr, hb, -⟩
    · exact h.same hn hr
    · exact h.alloc hnew ha hn hr
    · exact h.alloc hnew ha hn hr
    · exact h.allocFree hnew ha hn hr
    · exact h.same hn hr
    · exact h.free (hp.recv.receiving c b hb) (hs.live c hc b hb) hn hr
  · exact h.same (by rw [hq]) (by rw [hq])
  · exact h.same rfl rfl
  · cases hptr : (p.server.conn c).recv.pRecvMsgMemPointer with
    | none => exact h.same (by simp [recycled]) (by simp [recycled, hptr])
    | some b =>
      refine h.free (hs.pointer c b hptr) (hx.2 c hc b hptr) (by simp [recycled]) ?_
      simp [recycled, hptr]

theorem run_tracked {xs : List (Event × ℕ)} (h : (system.restrict Allowed).Run xs p) :
    Tracked p.buffers p.server := by
  refine h.trace_invariant (I := fun _ p => Tracked p.buffers p.server) (fun p hb => ?_) ?_
  · have hnone := noBuffers_boot hb
    rw [Tracked, hnone.recvNext]
    exact ⟨AddressMap.separate_zero, fun b hlt => absurd hlt (Nat.not_lt_zero b)⟩
  · intro xs p x q hrun hp hstep
    have hproc := run_process hrun
    exact step_tracked hp (run_buffersLive hproc) (run_clientPointers hproc.of_restrict) hstep.1
      hstep.2

/-- In every run of connections in which no recycled connection points to a buffer that has been
released, `recv` is given memory that is there, and at least one byte of it. -/
theorem recvWindow_valid {xs : List (Event × ℕ)} (h : (system.restrict Allowed).Run xs p)
    (hc : c ∈ p.server.pool.clients) : p.RecvWindow c := by
  have hproc := run_process h
  have hlive := run_buffersLive hproc
  have hclient := run_clients_isClient hproc.of_restrict c hc
  obtain ⟨hw, -⟩ := (run_recvApart hproc.of_restrict).windows c hclient
  refine ⟨hw.recvMsgLen_pos, fun hst => ?_, fun hst => ?_⟩
  · rcases hw with ⟨off, hw⟩ | ⟨b, off, hw⟩
    · refine ⟨off, hw.ptr, ?_, ?_⟩
      · rw [Nat.add_comm]
        exact hw.len
      · rw [hw.array]
        decide
    · rcases hst with hst | hst <;> rcases hw.status with hst' | hst' <;> rw [hst] at hst' <;>
        cases hst'
  · rcases hw with ⟨off, hw⟩ | ⟨b, off, hw⟩
    · rcases hst with hst | hst <;> rcases hw.status with ⟨hst', -⟩ | hst' <;>
        rw [hst] at hst' <;> cases hst'
    · have hcopied := hlive.copied c hc b off hw.ptr
      have hlen : pkgLength (p.server.conn c).recv.dataHeadInfo =
          pkgLength (p.server.recvPkg b) := by
        rw [← pkgLength_take (n := lenPkgHeader) (by decide), ← hcopied,
          pkgLength_take (by decide)]
      have hgone : p.buffers.gone b = false := by
        have hrecv := Window.receiving (Or.inr ⟨b, off, hw⟩) hw.ptr
        have hlt := hlive.pointer c b hw.mem
        rw [← Bool.not_eq_true, (run_tracked h).2 b hlt]
        exact hlive.live c hc b hrecv
      refine ⟨b, off, hw.mem, hw.ptr, hw.header, ?_, ?_, hcopied, hgone⟩
      · rw [hlen, Nat.add_comm]
        exact hw.len
      · rw [hlen]
        exact hw.size

/-- The header of a packet with four bytes of body, for a client whose buffer is at the address of
one that the recycler has released. -/
theorem recvWindow_valid_reused : ∃ p : Located, p.RecvWindow 2 ∧
    (p.server.conn 2).recv.recvMsgLen = 4 ∧ p.buffers.address 0 = p.buffers.address 1 := by
  obtain ⟨p, hrun, hp⟩ := run_of_play Allowed smallConfig
    [(.accept { HandlerEnv.idle with accept := [.accepted 4] }, 0),
      (.accept { HandlerEnv.idle with accept := [.accepted 5] }, 0),
      (.read 1 { HandlerEnv.idle with recv := .data [0, 12, 0, 0, 0, 0, 0, 0] }, 100),
      (.close 1 0, 0), (.recycle 0, 0),
      (.read 2 { HandlerEnv.idle with recv := .data [0, 12, 0, 0, 0, 0, 0, 0] }, 100)]
    (fun p => (decide (2 ∈ p.server.pool.clients), (p.server.conn 2).recv.recvMsgLen,
      p.buffers.address 0, p.buffers.address 1)) (true, 4, 100, 100) (by decide +kernel)
  simp only [Prod.mk.injEq, decide_eq_true_eq] at hp
  obtain ⟨hc, hlen, h₀, h₁⟩ := hp
  exact ⟨p, recvWindow_valid hrun hc, hlen, h₀.trans h₁.symm⟩

/-- Client 1 sends a packet too soon after another: the packet is released, the client is closed,
and the connection still points to the packet. By the time it is recycled, client 2 receives into
a buffer at the same address. -/
theorem recvWindow_released : ¬ ∀ xs p,
    (system.restrict fun p x => p.server.Traffic x.1).Run xs p →
      ∀ c ∈ p.server.pool.clients, p.RecvWindow c := by
  intro hall
  obtain ⟨p, hrun, hp⟩ := run_of_play (fun p x => p.server.Traffic x.1)
    { smallConfig with floodAttackEnable := 1, floodKickCount := 1 }
    [(.accept { HandlerEnv.idle with accept := [.accepted 4] }, 0),
      (.accept { HandlerEnv.idle with accept := [.accepted 5] }, 0),
      (.read 1 { HandlerEnv.idle with
        recv := .data [0, 8, 0, 0, 0, 0, 0, 0], currTime := 1000 }, 100),
      (.read 1 { HandlerEnv.idle with
        recv := .data [0, 12, 0, 0, 0, 0, 0, 0], currTime := 1010 }, 200),
      (.read 1 { HandlerEnv.idle with recv := .data [1, 2, 3, 4], currTime := 1010 }, 0),
      (.read 2 { HandlerEnv.idle with
        recv := .data [0, 12, 0, 0, 0, 0, 0, 0], currTime := 1020 }, 200),
      (.recycle 0, 0)]
    (fun p => (decide (2 ∈ p.server.pool.clients), (p.server.conn 2).recv.recvMsgCurStatus,
      (p.server.conn 2).recv.pRecvMsgMemPointer, p.buffers.gone 2))
    (true, .pkgBdInit, some 2, true) (by decide +kernel)
  simp only [Prod.mk.injEq, decide_eq_true_eq] at hp
  obtain ⟨hc, hst, hptr, hgone⟩ := hp
  obtain ⟨b, off, hmem, -, -, -, -, -, hlive⟩ := (hall _ p hrun 2 hc).body (Or.inl hst)
  obtain rfl := Option.some.inj (hptr.symm.trans hmem)
  rw [hgone] at hlive
  cases hlive

end Located
end XiaoHGServer
