import XiaoHGServer.Model.Process

/-!
# What a step can do

One inversion lemma for each function an event runs: its result is written as the
old state with the fields that it changes, so that the invariants of the parts of
the process never unfold the code.
-/

namespace XiaoHGServer

/-- The buffer of a packet whose body is being received. -/
def RecvState.receiving (r : RecvState) : Option BufId :=
  match r.recvMsgCurStatus with
  | .pkgHdInit => none
  | .pkgHdRecving => none
  | .pkgBdInit => r.pRecvMsgMemPointer
  | .pkgBdRecving => r.pRecvMsgMemPointer

/-- What reading from a connection does to the buffers: it allocates one, hands one over to the
receive list, frees one, or none of these. -/
inductive RecvMove (q : RecvQueue) (r : RecvState) : RecvQueue → RecvState → Prop
  | quiet {q' r'} : q'.mem.next = q.mem.next → q'.recvMsgList = q.recvMsgList →
      q'.mem.released = q.mem.released → r'.receiving = r.receiving → RecvMove q r q' r'
  | alloc {q' r'} : q'.mem.next = q.mem.next + 1 → q'.recvMsgList = q.recvMsgList →
      q'.mem.released = q.mem.released → r.receiving = none →
      r'.receiving = some q.mem.next → RecvMove q r q' r'
  | allocPush {q' r'} : q'.mem.next = q.mem.next + 1 →
      q'.recvMsgList = q.recvMsgList ++ [q.mem.next] → q'.mem.released = q.mem.released →
      r.receiving = none → r'.receiving = none → RecvMove q r q' r'
  | allocFree {q' r'} : q'.mem.next = q.mem.next + 1 → q'.recvMsgList = q.recvMsgList →
      q'.mem.released = q.mem.next :: q.mem.released →
      r.receiving = none → r'.receiving = none → RecvMove q r q' r'
  | push {q' r'} (b : BufId) : q'.mem.next = q.mem.next →
      q'.recvMsgList = q.recvMsgList ++ [b] → q'.mem.released = q.mem.released →
      r.receiving = some b → r'.receiving = none → RecvMove q r q' r'
  | free {q' r'} (b : BufId) : q'.mem.next = q.mem.next → q'.recvMsgList = q.recvMsgList →
      q'.mem.released = b :: q.mem.released →
      r.receiving = some b → r'.receiving = none → RecvMove q r q' r'

/-- Steps before a move that concern neither the buffers nor whether a body is being received. -/
theorem RecvMove.after {q₀ q q' : RecvQueue} {r₀ r r' : RecvState} (h : RecvMove q r q' r')
    (hn : q.mem.next = q₀.mem.next) (hl : q.recvMsgList = q₀.recvMsgList)
    (hr : q.mem.released = q₀.mem.released) (hb : r.receiving = r₀.receiving) :
    RecvMove q₀ r₀ q' r' := by
  rcases h with ⟨h₁, h₂, h₃, h₄⟩ | ⟨h₁, h₂, h₃, h₄, h₅⟩ | ⟨h₁, h₂, h₃, h₄, h₅⟩ |
    ⟨h₁, h₂, h₃, h₄, h₅⟩ | ⟨b, h₁, h₂, h₃, h₄, h₅⟩ | ⟨b, h₁, h₂, h₃, h₄, h₅⟩
  all_goals rw [hn, hl, hr, hb] at *
  · exact .quiet h₁ h₂ h₃ h₄
  · exact .alloc h₁ h₂ h₃ h₄ h₅
  · exact .allocPush h₁ h₂ h₃ h₄ h₅
  · exact .allocFree h₁ h₂ h₃ h₄ h₅
  · exact .push b h₁ h₂ h₃ h₄ h₅
  · exact .free b h₁ h₂ h₃ h₄ h₅

namespace RecvMove

variable {q q' : RecvQueue} {r r' : RecvState} {b : BufId}

theorem next_le (h : RecvMove q r q' r') : q.mem.next ≤ q'.mem.next := by
  rcases h with ⟨hn, -⟩ | ⟨hn, -⟩ | ⟨hn, -⟩ | ⟨hn, -⟩ | ⟨_, hn, -⟩ | ⟨_, hn, -⟩
  all_goals rw [hn]
  all_goals exact Nat.le_succ _

/-- What the receive side hands over is a new buffer, or the one it has received into. -/
theorem mem_recvMsgList (h : RecvMove q r q' r') (hb : b ∈ q'.recvMsgList) :
    b ∈ q.recvMsgList ∨ (b = q.mem.next ∧ q'.mem.next = q.mem.next + 1) ∨
      r.receiving = some b := by
  rcases h with ⟨-, hl, -⟩ | ⟨-, hl, -⟩ | ⟨hn, hl, -⟩ | ⟨-, hl, -⟩ | ⟨b₀, -, hl, -, hb₀, -⟩ |
    ⟨_, -, hl, -⟩
  all_goals rw [hl] at hb
  · exact Or.inl hb
  · exact Or.inl hb
  · rcases List.mem_append.mp hb with hb | hb
    · exact Or.inl hb
    · exact Or.inr (Or.inl ⟨List.mem_singleton.mp hb, hn⟩)
  · exact Or.inl hb
  · rcases List.mem_append.mp hb with hb | hb
    · exact Or.inl hb
    · rw [List.mem_singleton.mp hb]
      exact Or.inr (Or.inr hb₀)
  · exact Or.inl hb

/-- What the receive side releases is a new buffer, or the one it has received into. -/
theorem mem_released (h : RecvMove q r q' r') (hb : b ∈ q'.mem.released) :
    b ∈ q.mem.released ∨ (b = q.mem.next ∧ q'.mem.next = q.mem.next + 1) ∨
      r.receiving = some b := by
  rcases h with ⟨-, -, hr, -⟩ | ⟨-, -, hr, -⟩ | ⟨-, -, hr, -⟩ | ⟨hn, -, hr, -⟩ |
    ⟨_, -, -, hr, -⟩ | ⟨b₀, -, -, hr, hb₀, -⟩
  all_goals rw [hr] at hb
  · exact Or.inl hb
  · exact Or.inl hb
  · exact Or.inl hb
  · rcases List.mem_cons.mp hb with rfl | hb
    · exact Or.inr (Or.inl ⟨rfl, hn⟩)
    · exact Or.inl hb
  · exact Or.inl hb
  · rcases List.mem_cons.mp hb with rfl | hb
    · exact Or.inr (Or.inr hb₀)
    · exact Or.inl hb

theorem receiving_some (h : RecvMove q r q' r') (hb : r'.receiving = some b) :
    (b = q.mem.next ∧ q'.mem.next = q.mem.next + 1) ∨ r.receiving = some b := by
  rcases h with ⟨-, -, -, hr⟩ | ⟨hn, -, -, -, hr⟩ | ⟨-, -, -, -, hr⟩ | ⟨-, -, -, -, hr⟩ |
    ⟨_, -, -, -, -, hr⟩ | ⟨_, -, -, -, -, hr⟩
  all_goals rw [hr] at hb
  · exact Or.inr hb
  · exact Or.inl ⟨(Option.some.inj hb).symm, hn⟩
  all_goals cases hb

end RecvMove

namespace Server

variable {s t u : Server} {c d : ConnId} {now : ℤ} {currTime : ℕ}

/-- The read handler up to the point where it may close the connection. -/
def readBase (s : Server) (c : ConnId) (ret : RecvRet) (currTime : ℕ) : Server × Bool :=
  let s' := s.logCall (.recv c (s.conn c).sockFd (s.conn c).recv.recvMsgLen)
  match ret with
  | .data bytes => (s'.storeRecv c bytes).recvAdvance c bytes.length currTime
  | .eof => (s', true)
  | .again => (s', false)
  | .intr => (s', false)
  | .error => (s', true)

theorem read_eq (ret : RecvRet) : s.epollEventReadRequestHandler c ret now currTime =
    if (s.readBase c ret currTime).2 then
      (s.readBase c ret currTime).1.closeConnectionToRecy c now
    else (s.readBase c ret currTime).1 := by
  cases ret <;> rfl

/-- `t` differs from `s` in the receive state and the flood state of `c`, the receive queue and
the heap of receive buffers. -/
def OnlyRecv (c : ConnId) (s t : Server) : Prop :=
  ∃ q r f, t = { s with
    recvQueue := q
    conn := Function.update s.conn c { s.conn c with recv := r, flood := f } }

namespace OnlyRecv

theorem refl : OnlyRecv c s s :=
  ⟨s.recvQueue, (s.conn c).recv, (s.conn c).flood, by simp⟩

theorem trans (h₁ : OnlyRecv c s t) (h₂ : OnlyRecv c t u) : OnlyRecv c s u := by
  obtain ⟨_, _, _, rfl⟩ := h₁
  obtain ⟨q, r, f, rfl⟩ := h₂
  exact ⟨q, r, f, by simp⟩

theorem modifyConn {f : Connection → Connection}
    (h : f (s.conn c) =
      { s.conn c with recv := (f (s.conn c)).recv, flood := (f (s.conn c)).flood }) :
    OnlyRecv c s (s.modifyConn c f) :=
  ⟨s.recvQueue, _, _, by rw [Server.modifyConn, h]⟩

theorem recvQueue {q : RecvQueue} : OnlyRecv c s { s with recvQueue := q } :=
  ⟨q, (s.conn c).recv, (s.conn c).flood, by simp⟩

end OnlyRecv

theorem onlyRecv_storeRecv (bytes : List Byte) : OnlyRecv c s (s.storeRecv c bytes) := by
  unfold storeRecv
  split
  · exact .modifyConn rfl
  · exact .recvQueue

theorem onlyRecv_floodCheck (bIsFlood : Bool) :
    OnlyRecv c s (s.floodCheck c bIsFlood currTime).1 := by
  unfold floodCheck
  split
  · change OnlyRecv c s (s.modifyConn c fun k => { k with flood := s.floodAfter c currTime })
    exact .modifyConn rfl
  · exact .refl

theorem onlyRecv_expectHeader : OnlyRecv c s (s.expectHeader c) := .modifyConn rfl

theorem onlyRecv_recvMsgPacketParseProc (bIsFlood : Bool) :
    OnlyRecv c s (s.recvMsgPacketParseProc c bIsFlood) := by
  unfold recvMsgPacketParseProc
  refine .trans ?_ onlyRecv_expectHeader
  split
  · split
    · exact .recvQueue
    · exact .refl
  · exact .recvQueue

theorem onlyRecv_recvMsgHeaderParseProc (bIsFlood : Bool) :
    OnlyRecv c s (s.recvMsgHeaderParseProc c bIsFlood currTime).1 := by
  unfold recvMsgHeaderParseProc
  dsimp only
  split
  · exact onlyRecv_expectHeader
  · have halloc (n : ℕ) : OnlyRecv c s (s.allocRecvBuffer c n) := by
      unfold allocRecvBuffer
      exact OnlyRecv.recvQueue.trans (.modifyConn rfl)
    split
    · exact ((halloc _).trans (onlyRecv_floodCheck _)).trans (onlyRecv_recvMsgPacketParseProc _)
    · refine (halloc (pkgLength (s.conn c).recv.dataHeadInfo)).trans ?_
      dsimp only
      exact .modifyConn rfl

theorem onlyRecv_recvAdvance (n : ℕ) : OnlyRecv c s (s.recvAdvance c n currTime).1 := by
  have hadv (status : RecvStatus) : OnlyRecv c s (s.advanceRecv c status n) := .modifyConn rfl
  have hbody : OnlyRecv c s (s.bodyComplete c currTime).1 :=
    (onlyRecv_floodCheck _).trans (onlyRecv_recvMsgPacketParseProc _)
  unfold recvAdvance
  dsimp only
  split <;> split
  all_goals first | exact hadv _ | exact hbody | exact onlyRecv_recvMsgHeaderParseProc _

/-- Before it closes the connection, the read handler changes nothing else. -/
theorem onlyRecv_readBase (s : Server) (c : ConnId) (ret : RecvRet) (currTime : ℕ) :
    OnlyRecv c (s.logCall (.recv c (s.conn c).sockFd (s.conn c).recv.recvMsgLen))
      (s.readBase c ret currTime).1 := by
  cases ret with
  | data bytes => exact (onlyRecv_storeRecv _).trans (onlyRecv_recvAdvance _)
  | eof => exact .refl
  | again => exact .refl
  | intr => exact .refl
  | error => exact .refl

theorem floodCheck_recv (currTime : ℕ) (bIsFlood : Bool) :
    ((s.floodCheck c bIsFlood currTime).1.conn c).recv = (s.conn c).recv ∧
      (s.floodCheck c bIsFlood currTime).1.recvQueue = s.recvQueue := by
  unfold floodCheck
  split
  · simp [testFlood]
  · exact ⟨rfl, rfl⟩

theorem expectHeader_receiving : ((s.expectHeader c).conn c).recv.receiving = none := by
  simp [expectHeader, RecvState.receiving]

theorem recvMsgPacketParseProc_move (bIsFlood : Bool) (b : BufId)
    (hb : (s.conn c).recv.pRecvMsgMemPointer = some b) :
    let t := s.recvMsgPacketParseProc c bIsFlood
    (t.conn c).recv.receiving = none ∧ t.recvQueue.mem.next = s.recvQueue.mem.next ∧
      (t.recvQueue.recvMsgList = s.recvQueue.recvMsgList ++ [b] ∧
          t.recvQueue.mem.released = s.recvQueue.mem.released ∨
        t.recvQueue.recvMsgList = s.recvQueue.recvMsgList ∧
          t.recvQueue.mem.released = b :: s.recvQueue.mem.released) := by
  unfold recvMsgPacketParseProc
  refine ⟨expectHeader_receiving, ?_⟩
  cases bIsFlood <;>
    simp [hb, expectHeader, pushRecvMsgToRecvListAndCond]

theorem recvMsgHeaderParseProc_move (bIsFlood : Bool) (h : (s.conn c).recv.receiving = none) :
    let t := (s.recvMsgHeaderParseProc c bIsFlood currTime).1
    RecvMove s.recvQueue (s.conn c).recv t.recvQueue (t.conn c).recv := by
  unfold recvMsgHeaderParseProc
  dsimp only
  split
  · exact .quiet rfl rfl rfl (by rw [expectHeader_receiving, h])
  · set n := pkgLength (s.conn c).recv.dataHeadInfo
    split
    · obtain ⟨hrecv, hq⟩ := floodCheck_recv (s := s.allocRecvBuffer c n) (c := c)
        currTime bIsFlood
      obtain ⟨hnone, hnext, hmove⟩ := recvMsgPacketParseProc_move
        (s := ((s.allocRecvBuffer c n).floodCheck c bIsFlood currTime).1) (c := c)
        ((s.allocRecvBuffer c n).floodCheck c bIsFlood currTime).2 s.recvQueue.mem.next
        (by rw [hrecv]; simp [allocRecvBuffer])
      rw [hq] at hnext hmove
      rcases hmove with ⟨hlist, hrel⟩ | ⟨hlist, hrel⟩
      · exact .allocPush hnext hlist hrel h hnone
      · exact .allocFree hnext hlist hrel h hnone
    · exact .alloc rfl rfl rfl h (by simp [allocRecvBuffer, RecvState.receiving])

theorem bodyComplete_move (h : (s.conn c).recv.receiving = (s.conn c).recv.pRecvMsgMemPointer) :
    let t := (s.bodyComplete c currTime).1
    RecvMove s.recvQueue (s.conn c).recv t.recvQueue (t.conn c).recv := by
  obtain ⟨hrecv, hq⟩ := floodCheck_recv (s := s) (c := c) currTime false
  cases hb : (s.conn c).recv.pRecvMsgMemPointer with
  | none =>
    have hnone : ((s.bodyComplete c currTime).1.conn c).recv.receiving = none :=
      expectHeader_receiving
    have hrq : (s.bodyComplete c currTime).1.recvQueue = s.recvQueue := by
      simp only [bodyComplete, recvMsgPacketParseProc, hrecv, hb]
      split <;> exact hq
    exact .quiet (by rw [hrq]) (by rw [hrq]) (by rw [hrq]) (by rw [hnone, h, hb])
  | some b =>
    obtain ⟨hnone, hnext, hmove⟩ := recvMsgPacketParseProc_move
      (s := (s.floodCheck c false currTime).1) (c := c) (s.floodCheck c false currTime).2 b
      (by rw [hrecv, hb])
    rw [hq] at hnext hmove
    rcases hmove with ⟨hlist, hrel⟩ | ⟨hlist, hrel⟩
    · exact .push b hnext hlist hrel (h.trans hb) hnone
    · exact .free b hnext hlist hrel (h.trans hb) hnone

theorem recvAdvance_move (n : ℕ) :
    let t := (s.recvAdvance c n currTime).1
    RecvMove s.recvQueue (s.conn c).recv t.recvQueue (t.conn c).recv := by
  have hadv (status : RecvStatus)
      (h : ((s.advanceRecv c status n).conn c).recv.receiving = (s.conn c).recv.receiving) :
      RecvMove s.recvQueue (s.conn c).recv (s.advanceRecv c status n).recvQueue
        ((s.advanceRecv c status n).conn c).recv :=
    .quiet rfl rfl rfl h
  unfold recvAdvance
  cases hst : (s.conn c).recv.recvMsgCurStatus with
  | pkgHdInit =>
    simp only [hst]
    split
    · exact recvMsgHeaderParseProc_move _ (by simp [RecvState.receiving, hst])
    · exact hadv _ (by simp [advanceRecv, RecvState.receiving, hst])
  | pkgHdRecving =>
    simp only [hst]
    split
    · exact recvMsgHeaderParseProc_move _ (by simp [RecvState.receiving, hst])
    · exact hadv _ (by simp [advanceRecv, RecvState.receiving, hst])
  | pkgBdInit =>
    simp only [hst]
    split
    · exact bodyComplete_move (by simp [RecvState.receiving, hst])
    · exact hadv _ (by simp [advanceRecv, RecvState.receiving, hst])
  | pkgBdRecving =>
    simp only [hst]
    split
    · exact bodyComplete_move (by simp [RecvState.receiving, hst])
    · exact hadv _ (by simp [advanceRecv, RecvState.receiving, hst])

theorem storeRecv_quiet (bytes : List Byte) :
    let t := s.storeRecv c bytes
    t.recvQueue.mem.next = s.recvQueue.mem.next ∧
      t.recvQueue.recvMsgList = s.recvQueue.recvMsgList ∧
      t.recvQueue.mem.released = s.recvQueue.mem.released ∧
      (t.conn c).recv.receiving = (s.conn c).recv.receiving := by
  unfold storeRecv
  split
  · simp [RecvState.receiving]
  · simp

/-- What one call of the read handler does to the receive buffers. -/
theorem readBase_move (s : Server) (c : ConnId) (ret : RecvRet) (currTime : ℕ) :
    RecvMove s.recvQueue (s.conn c).recv (s.readBase c ret currTime).1.recvQueue
      ((s.readBase c ret currTime).1.conn c).recv := by
  cases ret with
  | data bytes =>
    obtain ⟨hn, hl, hr, hb⟩ := storeRecv_quiet (c := c)
      (s := s.logCall (.recv c (s.conn c).sockFd (s.conn c).recv.recvMsgLen)) bytes
    exact (recvAdvance_move _).after hn hl hr hb
  | eof => exact .quiet rfl rfl rfl rfl
  | again => exact .quiet rfl rfl rfl rfl
  | intr => exact .quiet rfl rfl rfl rfl
  | error => exact .quiet rfl rfl rfl rfl

/-- No buffer was allocated or stamped. -/
def SameHeaders (c : ConnId) (s t : Server) : Prop :=
  (t.conn c).currSequence = (s.conn c).currSequence ∧
    t.recvQueue.mem.next = s.recvQueue.mem.next ∧ ∀ b, t.recvHeader b = s.recvHeader b

/-- No buffer was allocated, or one that was stamped for `c`. -/
def StampsOnly (c : ConnId) (s t : Server) : Prop :=
  SameHeaders c s t ∨ (t.conn c).currSequence = (s.conn c).currSequence ∧
    t.recvQueue.mem.next = s.recvQueue.mem.next + 1 ∧
    t.recvHeader s.recvQueue.mem.next = ⟨c, (s.conn c).currSequence⟩ ∧
    ∀ b, b ≠ s.recvQueue.mem.next → t.recvHeader b = s.recvHeader b

theorem SameHeaders.trans (h : SameHeaders c s t) (h' : SameHeaders c t u) : SameHeaders c s u :=
  ⟨h'.1.trans h.1, h'.2.1.trans h.2.1, fun b => (h'.2.2 b).trans (h.2.2 b)⟩

theorem SameHeaders.of_recvQueue (h : t.recvQueue = s.recvQueue)
    (hseq : (t.conn c).currSequence = (s.conn c).currSequence) : SameHeaders c s t :=
  ⟨hseq, by rw [h], fun b => by rw [recvHeader, h]; rfl⟩

theorem StampsOnly.trans_same (h : StampsOnly c s t) (h' : SameHeaders c t u) :
    StampsOnly c s u := by
  rcases h with h | ⟨hseq, hnext, hnew, hold⟩
  · exact Or.inl (h.trans h')
  · exact Or.inr ⟨h'.1.trans hseq, h'.2.1.trans hnext, (h'.2.2 _).trans hnew, fun b hb =>
      (h'.2.2 b).trans (hold b hb)⟩

theorem SameHeaders.trans_stamps (h : SameHeaders c s t) (h' : StampsOnly c t u) :
    StampsOnly c s u := by
  rcases h' with h' | ⟨hseq, hnext, hnew, hold⟩
  · exact Or.inl (h.trans h')
  · refine Or.inr ⟨hseq.trans h.1, hnext.trans (by rw [h.2.1]), ?_, fun b hb => ?_⟩
    · rw [← h.2.1, hnew, h.1]
    · exact (hold b (by rwa [h.2.1])).trans (h.2.2 b)

theorem stampsOnly_allocRecvBuffer (n : ℕ) : StampsOnly c s (s.allocRecvBuffer c n) := by
  refine Or.inr ⟨by simp [allocRecvBuffer], rfl, ?_, fun b hb => ?_⟩
  · simp [allocRecvBuffer, recvHeader]
  · simp [allocRecvBuffer, recvHeader, hb]

theorem sameHeaders_recvMsgPacketParseProc (bIsFlood : Bool) :
    SameHeaders c s (s.recvMsgPacketParseProc c bIsFlood) := by
  unfold recvMsgPacketParseProc SameHeaders
  dsimp only
  split
  · split <;> simp [recvHeader, expectHeader, pushRecvMsgToRecvListAndCond]
  · simp [recvHeader, expectHeader]

theorem sameHeaders_floodCheck (bIsFlood : Bool) :
    SameHeaders c s (s.floodCheck c bIsFlood currTime).1 := by
  unfold floodCheck
  split
  · exact .of_recvQueue rfl (by simp [testFlood])
  · exact .of_recvQueue rfl rfl

theorem stampsOnly_recvMsgHeaderParseProc (bIsFlood : Bool) :
    StampsOnly c s (s.recvMsgHeaderParseProc c bIsFlood currTime).1 := by
  unfold recvMsgHeaderParseProc
  dsimp only
  split
  · exact Or.inl (.of_recvQueue rfl (by simp [expectHeader]))
  · split
    · exact (stampsOnly_allocRecvBuffer _).trans_same
        ((sameHeaders_floodCheck _).trans (sameHeaders_recvMsgPacketParseProc _))
    · exact (stampsOnly_allocRecvBuffer _).trans_same (.of_recvQueue rfl (by simp))

theorem stampsOnly_recvAdvance (n : ℕ) : StampsOnly c s (s.recvAdvance c n currTime).1 := by
  have hadv (status : RecvStatus) : StampsOnly c s (s.advanceRecv c status n) :=
    Or.inl (.of_recvQueue rfl (by simp [advanceRecv]))
  have hbody : StampsOnly c s (s.bodyComplete c currTime).1 :=
    Or.inl ((sameHeaders_floodCheck _).trans (sameHeaders_recvMsgPacketParseProc _))
  unfold recvAdvance
  dsimp only
  split <;> split
  all_goals first | exact hadv _ | exact hbody | exact stampsOnly_recvMsgHeaderParseProc _

theorem stampsOnly_readBase (s : Server) (c : ConnId) (ret : RecvRet) (currTime : ℕ) :
    StampsOnly c s (s.readBase c ret currTime).1 := by
  cases ret with
  | data bytes =>
    set s' := s.logCall (.recv c (s.conn c).sockFd (s.conn c).recv.recvMsgLen)
    have hstore : SameHeaders c s (s'.storeRecv c bytes) := by
      unfold storeRecv
      split
      · exact .of_recvQueue rfl (by simp [s'])
      · rename_i b₀ off hptr
        refine ⟨rfl, rfl, fun b => ?_⟩
        by_cases hb : b = b₀
        · subst hb
          simp [recvHeader, s']
        · simp [recvHeader, hb, s']
    exact hstore.trans_stamps (stampsOnly_recvAdvance _)
  | eof => exact Or.inl (.of_recvQueue rfl rfl)
  | again => exact Or.inl (.of_recvQueue rfl rfl)
  | intr => exact Or.inl (.of_recvQueue rfl rfl)
  | error => exact Or.inl (.of_recvQueue rfl rfl)

/-- The connection object `GetConnection` prepares. -/
def taken (s : Server) : Connection :=
  if s.pool.freeConnectionList = [] then newConnection else s.conn s.pool.front

end Server

/-- A connection object as the accept handler leaves it. -/
def Connection.installed (k : Connection) (fd : ℕ) (now : ℤ) : Connection :=
  { k.getOneToUse now with
    sockFd := u16 fd
    epoll := ⟨epollIn ||| epollRdhup, some .epollEventReadRequestHandler,
      some .epollEventWriteRequestHandler⟩ }

namespace Server

variable {s t u : Server} {c d : ConnId} {now : ℤ}

/-- The state after a client has been accepted on descriptor `fd`. -/
def admitted (s : Server) (fd : ℕ) (now : ℤ) : Server :=
  { s with
    conn := Function.update s.conn s.pool.front (s.taken.installed fd now)
    pool := { s.pool.getConnection with
      onLineUserCount := s.pool.onLineUserCount + 1
      clients := s.pool.front :: s.pool.clients }
    timer := if s.config.isHBTimeOutCheckEnable = 1 then
        s.timer.addToTimerList s.config.waitTime now
          ⟨s.pool.front, (s.taken.installed fd now).currSequence⟩
      else s.timer
    kernel := { s.kernel with openFds := fd :: s.kernel.openFds } }

/-- A call of the accept handler that takes no client in. -/
def NoClient (s t : Server) : Prop :=
  ∃ b calls, t = { s with iIsAccept4 := b, kernel := ⟨s.kernel.openFds, calls⟩ } ∧
    (calls = s.kernel.calls ∨ ∃ fd, calls = .close none fd :: s.kernel.calls)

theorem getConnection_pool (p : ConnectionPool) :
    p.getConnection.onLineUserCount = p.onLineUserCount ∧ p.getConnection.clients = p.clients := by
  unfold ConnectionPool.getConnection
  split <;> exact ⟨rfl, rfl⟩

theorem acceptClient_cases {fd : ℕ} {env : HandlerEnv} (h : s.acceptClient fd env = some t) :
    NoClient s t ∨ t = s.admitted fd env.now := by
  have hreject : ({ s with kernel := { s.kernel with openFds := fd :: s.kernel.openFds } } :
      Server).closeFd none fd = t → NoClient s t := by
    rintro rfl
    exact ⟨s.iIsAccept4, _, by simp [closeFd], Or.inr ⟨fd, rfl⟩⟩
  unfold acceptClient at h
  dsimp only at h
  split_ifs at h with h₁ h₂ h₃ h₄
  · exact Or.inl (hreject (Option.some.inj h))
  · exact Or.inl (hreject (Option.some.inj h))
  · right
    obtain ⟨honline, hclients⟩ := getConnection_pool s.pool
    rw [← Option.some.inj h]
    by_cases hb : s.config.isHBTimeOutCheckEnable = 1 <;>
      simp [goOnLine, startTimer, installClient, epollRegisterEvent, getConnection, admitted,
        modifyConn, eventMask, Connection.installed, Connection.getOneToUse, taken, hb, honline,
        hclients]

theorem accept_cases {env : HandlerEnv} (h : s.epollEventAcceptHandler env = some t) :
    NoClient s t ∨ ∃ fd b, AcceptRet.accepted fd ∈ env.accept ∧
      t = { s.admitted fd env.now with iIsAccept4 := b } := by
  have loop : ∀ (rets : List AcceptRet) (s : Server), s.acceptLoop env rets = some t →
      NoClient s t ∨ ∃ fd b, AcceptRet.accepted fd ∈ rets ∧
        t = { s.admitted fd env.now with iIsAccept4 := b } := by
    intro rets
    induction rets with
    | nil =>
      intro s h
      obtain rfl := Option.some.inj h
      exact Or.inl ⟨_, _, rfl, Or.inl rfl⟩
    | cons r rets ih =>
      intro s h
      cases r with
      | accepted fd =>
        rcases acceptClient_cases h with hno | ht
        · exact Or.inl hno
        · exact Or.inr ⟨fd, s.iIsAccept4, by simp, ht⟩
      | nosys =>
        simp only [acceptLoop] at h
        split_ifs at h
        · rcases ih _ h with ⟨b, calls, ht, hcalls⟩ | ⟨fd, b, hmem, ht⟩
          · exact Or.inl ⟨b, calls, ht, hcalls⟩
          · exact Or.inr ⟨fd, b, by simp [hmem], ht⟩
        · obtain rfl := Option.some.inj h
          exact Or.inl ⟨_, _, rfl, Or.inl rfl⟩
      | error =>
        obtain rfl := Option.some.inj h
        exact Or.inl ⟨_, _, rfl, Or.inl rfl⟩
  exact loop env.accept s h

/-- The receive-side buffers of a worker's step: contents may change, custody does not. -/
structure SameCustody (h h' : Heap) : Prop where
  next : h'.next = h.next
  released : h'.released = h.released
  header : ∀ b, (h'.buffer b).header = (h.buffer b).header

/-- A packet whose length field is right and leaves room for the header. -/
def WellFormed (pkg : List Byte) : Prop := pkg.length = pkgLength pkg ∧ lenPkgHeader ≤ pkg.length

/-- A reply has been composed in a new buffer, under message header `h`. -/
structure Composed (m m' : Heap) (h : MsgHeader) : Prop where
  next : m'.next = m.next + 1
  released : m'.released = m.released
  buffer : ∀ b, b ≠ m.next → m'.buffer b = m.buffer b
  header : (m'.buffer m.next).header = h
  pkg : WellFormed (m'.buffer m.next).pkg

theorem pkgLength_packetHeader {n code : ℕ} {crc : BitVec 32} {body : List Byte}
    (hn : n < 2 ^ 16) : pkgLength (packetHeader n code crc ++ body) = n := by
  have h0 : (BitVec.ofNat 8 (ntohs n)).toNat = n / 256 := by
    simp only [BitVec.toNat_ofNat, ntohs]
    omega
  have h1 : (BitVec.ofNat 8 (ntohs n / 256)).toNat = n % 256 := by
    have hhigh : n / 256 < 256 := by omega
    have hswap : (n % 256 * 256 + n / 256) / 256 = n % 256 := by
      rw [Nat.add_comm, Nat.add_mul_div_right _ _ (by norm_num), Nat.div_eq_of_lt hhigh,
        Nat.zero_add]
    simp only [BitVec.toNat_ofNat, ntohs, Nat.mod_eq_of_lt hhigh, hswap]
    omega
  rw [pkgLength, ntohs_loadShort]
  simp only [packetHeader, storeShort, List.cons_append, List.nil_append, List.getD_cons_zero,
    List.getD_cons_succ, h0, h1]
  omega

theorem composeReply_eq (s : Server) (h : MsgHeader) {bodyLen : ℕ} (code : ℕ)
    (crc : List Byte → BitVec 32) (hlen : bodyLen < 2 ^ 15) : ∃ m, Composed s.sendQueue.mem m h ∧
      s.composeReply h bodyLen code crc =
        ({ s with sendQueue := { s.sendQueue with mem := m } }, s.sendQueue.mem.next) := by
  have hsize : lenPkgHeader + bodyLen < 2 ^ 16 := by
    have : lenPkgHeader = 8 := rfl
    omega
  refine ⟨_, ⟨?_, ?_, ?_, ?_, ?_⟩, rfl⟩
  · rfl
  · rfl
  · intro b hb
    rw [Heap.modify_buffer_ne _ _ hb, Heap.allocMemory_buffer_ne _ _ hb]
  · simp
  · simp only [Heap.modify_buffer_self, Heap.allocMemory_buffer_next, WellFormed]
    rw [pkgLength_packetHeader hsize]
    simp [packetHeader, storeShort, storeInt, lenPkgHeader]
    omega

/-- What a handler does for a request of connection `c` under header `h`: it may rewrite bytes of
the request, touch the heartbeat time of `c`, and compose a reply. -/
def Handled (h : MsgHeader) (s t : Server) (r : Option BufId) : Prop :=
  ∃ m m' x, t = { s with
      recvQueue := { s.recvQueue with mem := m }
      sendQueue := { s.sendQueue with mem := m' }
      conn := Function.update s.conn h.pConn { s.conn h.pConn with lastHeartBeatTime := x } } ∧
    SameCustody s.recvQueue.mem m ∧
    (r = none ∧ m' = s.sendQueue.mem ∨
      r = some s.sendQueue.mem.next ∧ Composed s.sendQueue.mem m' h)

theorem sameCustody_modify {h : Heap} {b : BufId} {f : MsgBuffer → MsgBuffer}
    (hf : ∀ m, (f m).header = m.header) : SameCustody h (h.modify b f) := by
  refine ⟨rfl, rfl, fun b' => ?_⟩
  by_cases hb : b' = b
  · subst hb
    simp [hf]
  · simp [hb]

theorem SameCustody.trans {h₁ h₂ h₃ : Heap} (h : SameCustody h₁ h₂) (h' : SameCustody h₂ h₃) :
    SameCustody h₁ h₃ :=
  ⟨h'.next.trans h.next, h'.released.trans h.released, fun b => (h'.header b).trans (h.header b)⟩

theorem SameCustody.refl (h : Heap) : SameCustody h h := ⟨rfl, rfl, fun _ => rfl⟩

theorem sameCustody_writeRecvMsg {b : BufId} {off : ℕ} {data : List Byte} :
    SameCustody s.recvQueue.mem (s.writeRecvMsg b off data).recvQueue.mem :=
  sameCustody_modify (f := fun m => { m with pkg := writeAt m.pkg off data }) fun _ => rfl

theorem callLogicHandler_handled (s : Server) (handler : LogicHandler) (b : BufId) (hasBody : Bool)
    (n : ℕ) (now : ℤ) :
    Handled (s.recvHeader b) s (s.callLogicHandler handler b hasBody n now).1
      (s.callLogicHandler handler b hasBody n now).2 := by
  have none_case : Handled (s.recvHeader b) s s none :=
    ⟨s.recvQueue.mem, s.sendQueue.mem, (s.conn (s.recvHeader b).pConn).lastHeartBeatTime,
      by simp, .refl _, Or.inl ⟨rfl, rfl⟩⟩
  cases handler with
  | handleHeartbeat =>
    simp only [callLogicHandler, handleHeartbeat]
    split
    · exact none_case
    · obtain ⟨m, hm, heq⟩ := composeReply_eq (s.modifyConn (s.recvHeader b).pConn
        fun k => { k with lastHeartBeatTime := now }) (s.recvHeader b) cmdHeartbeat (fun _ => 0)
        (show 0 < 2 ^ 15 by norm_num)
      have hhead : (s.modifyConn (s.recvHeader b).pConn
          fun k => { k with lastHeartBeatTime := now }).recvHeader b = s.recvHeader b := rfl
      rw [hhead, heq]
      exact ⟨s.recvQueue.mem, m, now, rfl, .refl _, Or.inr ⟨rfl, hm⟩⟩
  | handleRegister =>
    simp only [callLogicHandler, handleRegister]
    split
    · exact none_case
    · set s₁ := s.writeRecvMsg b lenPkgHeader
        (storeInt (ntohl (loadInt (s.recvPkg b) lenPkgHeader))) with h₁
      set s₂ := s₁.writeRecvMsg b (lenPkgHeader + 4 + 55) [0] with h₂
      set s₃ := s₂.writeRecvMsg b (lenPkgHeader + 4 + 56 + 39) [0] with h₃
      have hc : SameCustody s.recvQueue.mem s₃.recvQueue.mem :=
        (sameCustody_writeRecvMsg.trans sameCustody_writeRecvMsg).trans sameCustody_writeRecvMsg
      have hhead : s₃.recvHeader b = s.recvHeader b := hc.header b
      obtain ⟨m, hm, heq⟩ := composeReply_eq s₃ (s₃.recvHeader b) cmdRegister getCRC
        (show sizeofRegister < 2 ^ 15 by decide)
      rw [heq, hhead] at *
      refine ⟨s₃.recvQueue.mem, m, (s.conn (s.recvHeader b).pConn).lastHeartBeatTime, ?_, hc,
        Or.inr ⟨rfl, hm⟩⟩
      simp [h₁, h₂, h₃, writeRecvMsg]
  | handleLogin =>
    simp only [callLogicHandler, handleLogin]
    split
    · exact none_case
    · set s₁ := s.writeRecvMsg b (lenPkgHeader + 55) [0] with h₁
      set s₂ := s₁.writeRecvMsg b (lenPkgHeader + 56 + 39) [0] with h₂
      have hc : SameCustody s.recvQueue.mem s₂.recvQueue.mem :=
        sameCustody_writeRecvMsg.trans sameCustody_writeRecvMsg
      have hhead : s₂.recvHeader b = s.recvHeader b := hc.header b
      obtain ⟨m, hm, heq⟩ := composeReply_eq s₂ (s₂.recvHeader b) cmdLogin getCRC
        (show sizeofLogin < 2 ^ 15 by decide)
      rw [heq, hhead] at *
      refine ⟨s₂.recvQueue.mem, m, (s.conn (s.recvHeader b).pConn).lastHeartBeatTime, ?_, hc,
        Or.inr ⟨rfl, hm⟩⟩
      simp [h₁, h₂, writeRecvMsg]

theorem dispatch_handled {b : BufId} {hasBody : Bool} {code n : ℕ} {r : Option BufId}
    (h : s.dispatch b hasBody code n now = some (t, r)) : Handled (s.recvHeader b) s t r := by
  unfold dispatch at h
  dsimp only at h
  split_ifs at h
  split at h
  · cases h
  · rename_i handler _
    have := callLogicHandler_handled s handler b hasBody (u16 (n - lenPkgHeader)) now
    rwa [Option.some.inj h] at this

theorem recvMsgHandleProc_handled {b : BufId} {r : Option BufId}
    (h : s.recvMsgHandleProc b now = some (t, r)) : Handled (s.recvHeader b) s t r := by
  unfold recvMsgHandleProc at h
  dsimp only at h
  split_ifs at h
  · exact dispatch_handled h
  · set s₁ := s.writeRecvMsg b 4 (storeInt (ntohl (iCrc32 (s.recvPkg b)))) with hs₁
    have hc : SameCustody s.recvQueue.mem s₁.recvQueue.mem := sameCustody_writeRecvMsg
    have hhead : s₁.recvHeader b = s.recvHeader b := hc.header b
    obtain ⟨m, m', x, ht, hm, hr⟩ := dispatch_handled h
    rw [hhead] at ht hr
    exact ⟨m, m', x, ht, hc.trans hm, hr⟩

/-- Neither limit of `PushSendMsgToSendListAndSem` is exceeded for buffer `b`. -/
def WithinLimits (s : Server) (b : BufId) : Prop :=
  s.sendQueue.sendMsgListSize ≤ maxSendQueueCount ∧
    (s.conn (s.sendHeader b).pConn).sendMsgListCount ≤ maxEachConnSendCount

instance (s : Server) (b : BufId) : Decidable (s.WithinLimits b) :=
  inferInstanceAs (Decidable (_ ∧ _))

/-- The push finds too many packets queued for the connection and closes it. -/
def backlogged (s : Server) (b : BufId) : Bool :=
  maxEachConnSendCount < (s.conn (s.sendHeader b).pConn).sendMsgListCount

/-- The state in which the push appends the buffer, with what it has discarded put aside. -/
def pushBase (s : Server) (b : BufId) (now : ℤ) : Server :=
  if s.backlogged b then s.closeConnectionToRecy (s.sendHeader b).pConn now else s

theorem semPost_eq_some (h : s.semPost = some t) :
    s.sendQueue.sendMsgPushEventSem ≠ semValueMax ∧ t = { s with sendQueue := { s.sendQueue with
      sendMsgPushEventSem := s.sendQueue.sendMsgPushEventSem + 1 } } := by
  unfold semPost at h
  split_ifs at h with hmax
  exact ⟨hmax, (Option.some.inj h).symm⟩

/-- A buffer has been discarded `k` times. -/
def Discarded (b : BufId) (k : ℕ) (q q' : SendQueue) : Prop :=
  ∃ discard mem, q' = { q with discardSendPkgCount := discard, mem := mem } ∧
    mem.next = q.mem.next ∧ mem.buffer = q.mem.buffer ∧
    mem.released = List.replicate k b ++ q.mem.released

theorem discardIf (p : Prop) [Decidable p] (b : BufId) :
    ∃ q, (if p then s.discardSendMsg b else s) = { s with sendQueue := q } ∧
      Discarded b (if p then 1 else 0) s.sendQueue q := by
  split_ifs
  · exact ⟨_, rfl, _, _, rfl, rfl, rfl, rfl⟩
  · exact ⟨s.sendQueue, rfl, s.sendQueue.discardSendPkgCount, s.sendQueue.mem, rfl, rfl, rfl, rfl⟩

/-- A push that succeeds appends the buffer, although each exceeded limit has freed it. -/
theorem push_cases {b : BufId} (h : s.pushSendMsgToSendListAndSem b now = some t) :
    ∃ size discard mem k, t = { s.pushBase b now with
        sendQueue := ⟨s.sendQueue.sendMsgList ++ [b], size, discard,
          s.sendQueue.sendMsgPushEventSem + 1, mem⟩
        conn := Function.update (s.pushBase b now).conn (s.sendHeader b).pConn
          { (s.pushBase b now).conn (s.sendHeader b).pConn with
            sendMsgListCount := (s.conn (s.sendHeader b).pConn).sendMsgListCount + 1 } } ∧
      mem.next = s.sendQueue.mem.next ∧ mem.buffer = s.sendQueue.mem.buffer ∧
      mem.released = List.replicate k b ++ s.sendQueue.mem.released ∧
      (s.WithinLimits b → k = 0) := by
  obtain ⟨q, hq, d, m, rfl, hn, hbuf, hrel⟩ :=
    discardIf (s := s) (s.sendQueue.sendMsgListSize > maxSendQueueCount) b
  simp only [pushSendMsgToSendListAndSem, hq] at h
  have hhead : ({ s with sendQueue := { s.sendQueue with discardSendPkgCount := d, mem := m } } :
      Server).sendHeader b = s.sendHeader b := by
    simp only [sendHeader, hbuf]
  rw [hhead] at h
  obtain ⟨-, rfl⟩ := semPost_eq_some h
  by_cases hback : maxEachConnSendCount < (s.conn (s.sendHeader b).pConn).sendMsgListCount
  · refine ⟨u32 (s.sendQueue.sendMsgListSize + 1), u32 (d + 1), m.freeMemory (some b),
      (if s.sendQueue.sendMsgListSize > maxSendQueueCount then 1 else 0) + 1, ?_, hn, hbuf, ?_,
      fun hw => absurd hw.2 (not_le.mpr hback)⟩
    · simp [hback, pushBase, backlogged, closeConnectionToRecy_eq, discardSendMsg, appendSendMsg,
        modifyConn, Connection.closed]
    · rw [Heap.freeMemory_some_released, hrel, List.replicate_succ, List.cons_append]
  · refine ⟨u32 (s.sendQueue.sendMsgListSize + 1), d, m,
      if s.sendQueue.sendMsgListSize > maxSendQueueCount then 1 else 0, ?_, hn, hbuf, hrel,
      fun hw => if_neg (not_lt.mpr hw.1)⟩
    simp [hback, pushBase, backlogged, appendSendMsg, modifyConn]

theorem workerHandle_cases {i : ℕ} (h : s.workerHandle i now = some t) :
    t = s ∨ ∃ w u r, s.workers[i]? = some w ∧ Handled (s.recvHeader w.pJobBuf) s u r ∧
      t = u.setStage i (r.elim .handled .reply) := by
  unfold workerHandle at h
  split at h
  · exact Or.inl (Option.some.inj h).symm
  · rename_i w hw
    split at h
    · cases h
    all_goals
      rename_i heq
      exact Or.inr ⟨w, _, _, hw, recvMsgHandleProc_handled heq, (Option.some.inj h).symm⟩

theorem workerPush_cases {i : ℕ} (h : s.workerPush i now = some t) :
    t = s ∧ (∀ b, s.stage i ≠ some (.reply b)) ∨
      ∃ b u, s.stage i = some (.reply b) ∧ s.pushSendMsgToSendListAndSem b now = some u ∧
        t = u.setStage i .handled := by
  unfold workerPush at h
  split at h
  · rename_i b hstage
    obtain ⟨u, hu, rfl⟩ := Option.map_eq_some_iff.mp h
    exact Or.inr ⟨b, u, hstage, hu, rfl⟩
  · rename_i hno
    exact Or.inl ⟨(Option.some.inj h).symm, hno⟩

/-- The header under which the monitor finds the next overdue timer entry. -/
def overdue (s : Server) (now : ℤ) : Option MsgHeader :=
  (s.timer.getOverTimeTimer s.config now).2.map fun b => (s.timer.mem.buffer b).header

/-- One turn of the monitor: it takes the next overdue entry and may close its connection. -/
theorem monitor_cases (h : s.heartBeatMonitorIter now = some t) :
    ∃ hd q, s.overdue now = some hd ∧ (∀ P, s.timer.Sound P → P hd.pConn ∧ q.Sound P) ∧
      (s.kicks hd now = true ∧ t = { s.closeConnectionToRecy hd.pConn now with timer := q } ∨
        s.kicks hd now = false ∧ t = { s with timer := q }) := by
  unfold heartBeatMonitorIter at h
  cases hq : s.timer.getOverTimeTimer s.config now with
  | mk q ob =>
    cases ob with
    | none => simp [hq] at h
    | some b =>
      simp only [hq, Option.some.injEq] at h
      obtain ⟨⟨key, rest, hmap⟩, hhead, hsound⟩ := TimerQueue.getOverTimeTimer_some hq
      have hover : s.overdue now = some (s.timer.mem.buffer b).header := by
        simp [overdue, hq]
      set hd := (s.timer.mem.buffer b).header with hhd
      have hP (P : ConnId → Prop) (hs : s.timer.Sound P) : P hd.pConn :=
        (hs (key, b) (by simp [hmap])).2
      have hfree {P : ConnId → Prop} {q : TimerQueue} (hs : q.Sound P) :
          ({ q with mem := q.mem.freeMemory (some b) } : TimerQueue).Sound P :=
        hs.subset (List.Subset.refl _) rfl rfl
      by_cases hkick : s.kicks hd now = true
      · let q₁ := if s.config.isHBTimeOutCheckEnable = 1 then q.deleteFromTimerQueue hd.pConn else q
        refine ⟨hd, { q₁ with mem := q₁.mem.freeMemory (some b) }, hover, fun P hs =>
          ⟨hP P hs, hfree ?_⟩, Or.inl ⟨hkick, ?_⟩⟩
        · have hq₁ := hsound P hs
          simp only [q₁]
          split
          · exact hq₁.deleteFromTimerQueue _
          · exact hq₁
        · rw [← h]
          simp only [kicks, Bool.decide_and, Bool.and_eq_true, decide_eq_true_eq] at hkick
          simp only [heartBeatTimeOutCheck, hhead, closeConnectionToRecy_eq, q₁]
          rw [if_pos hkick.1]
          rcases hkick.2 with hk | hk
          · rw [if_pos hk]
          · by_cases hk' : s.config.isTimeOutKick = 1
            · rw [if_pos hk']
            · rw [if_neg hk', if_pos hk]
      · refine ⟨hd, { q with mem := q.mem.freeMemory (some b) }, hover, fun P hs =>
          ⟨hP P hs, hfree (hsound P hs)⟩, Or.inr ⟨by simpa using hkick, ?_⟩⟩
        rw [← h]
        simp only [kicks, Bool.decide_and, Bool.and_eq_true, decide_eq_true_eq, not_and,
          not_or] at hkick
        simp only [heartBeatTimeOutCheck, hhead]
        split
        · rename_i hseq
          rw [if_neg (hkick hseq).1, if_neg (hkick hseq).2]
        · rfl

theorem iterate_cases {pos : ℕ} {env : SendEnv} (h : s.sendMsgThreadIter pos env = some t) :
    s.sendQueue.sendMsgList[pos]? = none ∧ t = { s with sender := .semWait } ∨
    ∃ b, s.sendQueue.sendMsgList[pos]? = some b ∧
      ((s.conn (s.sendHeader b).pConn).currSequence ≠ (s.sendHeader b).currSequence ∧
          t = (s.eraseSendMsg pos).freeSendMsg (some b) ∨
        (s.conn (s.sendHeader b).pConn).currSequence = (s.sendHeader b).currSequence ∧
          0 < (s.conn (s.sendHeader b).pConn).send.throwSendMsgCount ∧
          t = { s with sender := .pass (pos + 1) } ∨
        (s.conn (s.sendHeader b).pConn).currSequence = (s.sendHeader b).currSequence ∧
          (s.conn (s.sendHeader b).pConn).send.throwSendMsgCount ≤ 0 ∧
          (s.takeSendMsg pos b (s.sendHeader b).pConn).startSend (s.sendHeader b).pConn env =
            some t) := by
  unfold sendMsgThreadIter at h
  cases hb : s.sendQueue.sendMsgList[pos]? with
  | none =>
    rw [hb] at h
    exact Or.inl ⟨rfl, (Option.some.inj h).symm⟩
  | some b =>
    right
    rw [hb] at h
    refine ⟨b, rfl, ?_⟩
    dsimp only at h
    split_ifs at h with hseq hthrow
    · exact Or.inl ⟨hseq, (Option.some.inj h).symm⟩
    · exact Or.inr (Or.inl ⟨not_not.mp hseq, hthrow, (Option.some.inj h).symm⟩)
    · exact Or.inr (Or.inr ⟨not_not.mp hseq, not_lt.mp hthrow, h⟩)

/-- `SendMsgThread` goes through its loop in a pass only. -/
theorem iterate_pass {env : SendEnv} (h : s.next (.iterate env) = some t) :
    t = s ∨ ∃ pos, s.sender = .pass pos ∧ s.sendMsgThreadIter pos env = some t := by
  simp only [next] at h
  split at h
  · rename_i pos hsender
    exact Or.inr ⟨pos, hsender, h⟩
  · exact Or.inl (Option.some.inj h).symm

/-- The history after a message was handed to `send`. -/
def sentKernel (s : Server) (c : ConnId) (env : SendEnv) : Kernel := (s.sendMsgProc c env).kernel

end Server

/-- `send` ended the message: it took all of it, or failed for good. -/
def SendRet.Ends (ret : SendRet) (len : ℕ) : Prop :=
  ret = .accepted len ∨ ret = .accepted 0 ∨ ret = .zero ∨ ret = .error

/-- The send window after `n` bytes of it were taken. -/
def SendState.advance (k : SendState) (n : ℕ) : SendState :=
  { k with
    pSendMsgBuff := ⟨k.pSendMsgBuff.buf, k.pSendMsgBuff.off + n⟩
    sendMsgLen := sub16 k.sendMsgLen n }

/-- A connection whose message waits for `EPOLLOUT`, with send window `w`. -/
def Connection.suspend (k : Connection) (w : SendState) : Connection :=
  { k with
    send := { w with throwSendMsgCount := k.send.throwSendMsgCount + 1 }
    epoll := { k.epoll with epollEvents := k.epoll.epollEvents ||| epollOut } }

def Connection.complete (k : Connection) : Connection :=
  { k with
    send := { k.send with throwSendMsgCount := k.send.throwSendMsgCount - 1 }
    epoll := { k.epoll with epollEvents := k.epoll.epollEvents &&& ~~~epollOut } }

namespace Server

variable {s t : Server} {c : ConnId}

theorem suspendSend_eq_some {env : SendEnv} (h : s.suspendSend c env = some t) :
    t = { s with conn := Function.update s.conn c ((s.conn c).suspend (s.conn c).send) } := by
  unfold suspendSend at h
  dsimp only at h
  split_ifs at h
  rw [← Option.some.inj h]
  simp [epollRegisterEvent, addThrowSendMsgCount, modifyConn, eventMask, Connection.suspend]

/-- The start of a message ends with its buffer freed, or with its rest left to epoll. -/
theorem startSend_cases {env : SendEnv} (h : s.startSend c env = some t) :
    env.ret.Ends (s.conn c).send.sendMsgLen ∧
        t = { s with
          kernel := s.sentKernel c env
          sendQueue := { s.sendQueue with
            mem := s.sendQueue.mem.freeMemory (s.conn c).send.pSendMsgMemPointer } } ∨
      (∃ n, env.ret = .accepted n ∧ 0 < n ∧ n ≠ (s.conn c).send.sendMsgLen ∧
        t = { s with
          kernel := s.sentKernel c env
          conn := Function.update s.conn c
            ((s.conn c).suspend ((s.conn c).send.advance n)) }) ∨
      env.ret = .again ∧
        t = { s with
          kernel := s.sentKernel c env
          conn := Function.update s.conn c ((s.conn c).suspend (s.conn c).send) } := by
  unfold startSend at h
  cases hret : env.ret with
  | accepted n =>
    simp only [hret, sendResult] at h
    split_ifs at h with hpos heq hzero
    · exact Or.inl ⟨Or.inl (by rw [Int.ofNat_inj.mp heq]), (Option.some.inj h).symm⟩
    · refine Or.inr (Or.inl ⟨n, rfl, by omega, by omega, ?_⟩)
      rw [suspendSend_eq_some h]
      simp [sentKernel, sendMsgProc, advanceSend, modifyConn, Connection.suspend,
        SendState.advance]
    · obtain rfl : n = 0 := by omega
      exact Or.inl ⟨Or.inr (Or.inl rfl), (Option.some.inj h).symm⟩
    · omega
    · omega
  | zero =>
    simp only [hret, sendResult] at h
    exact Or.inl ⟨Or.inr (Or.inr (Or.inl rfl)), (Option.some.inj h).symm⟩
  | again =>
    simp only [hret, sendResult] at h
    exact Or.inr (Or.inr ⟨rfl, suspendSend_eq_some h⟩)
  | error =>
    simp only [hret, sendResult] at h
    exact Or.inl ⟨Or.inr (Or.inr (Or.inr rfl)), (Option.some.inj h).symm⟩

theorem write_cases {env : SendEnv} (h : s.epollEventWriteRequestHandler c env = some t) :
    (∃ n, env.ret = .accepted n ∧ 0 < n ∧ n ≠ (s.conn c).send.sendMsgLen ∧
        t = { s with
          kernel := s.sentKernel c env
          conn := Function.update s.conn c
            { s.conn c with send := (s.conn c).send.advance n } }) ∨
      env.ret = .again ∧ t = { s with kernel := s.sentKernel c env } ∨
      (∃ n, env.ret = .accepted n ∧ 0 < n ∧ n = (s.conn c).send.sendMsgLen ∧
        t = { s with
          kernel := s.sentKernel c env
          conn := Function.update s.conn c (s.conn c).complete
          sendQueue := { s.sendQueue with
            mem := s.sendQueue.mem.freeMemory (s.conn c).send.pSendMsgMemPointer
            sendMsgPushEventSem := s.sendQueue.sendMsgPushEventSem + 1 } }) ∨
      (env.ret = .accepted 0 ∨ env.ret = .zero ∨ env.ret = .error) ∧
        t = { s with
          kernel := s.sentKernel c env
          sendQueue := { s.sendQueue with
            sendMsgPushEventSem := s.sendQueue.sendMsgPushEventSem + 1 } } := by
  have failed (hpost : (s.sendMsgProc c env).semPost = some t) :
      t = { s with
        kernel := s.sentKernel c env
        sendQueue := { s.sendQueue with
          sendMsgPushEventSem := s.sendQueue.sendMsgPushEventSem + 1 } } :=
    (semPost_eq_some hpost).2
  unfold epollEventWriteRequestHandler at h
  cases hret : env.ret with
  | accepted n =>
    simp only [hret, sendResult] at h
    split_ifs at h with hpart hagain hall hctl
    · exact Or.inl ⟨n, rfl, by omega, by omega, (Option.some.inj h).symm⟩
    · exact hagain.elim
    · refine Or.inr (Or.inr (Or.inl ⟨n, rfl, by omega, by omega, ?_⟩))
      rw [(semPost_eq_some h).2]
      simp [sentKernel, sendMsgProc, addThrowSendMsgCount, epollRegisterEvent, freeSendMsg,
        modifyConn, eventMask, Connection.complete, Int.sub_eq_add_neg]
    · obtain rfl : n = 0 := by omega
      exact Or.inr (Or.inr (Or.inr ⟨Or.inl rfl, failed h⟩))
  | zero =>
    simp only [hret, sendResult] at h
    exact Or.inr (Or.inr (Or.inr ⟨Or.inr (Or.inl rfl), failed h⟩))
  | again =>
    simp only [hret, sendResult] at h
    exact Or.inr (Or.inl ⟨rfl, (Option.some.inj h).symm⟩)
  | error =>
    simp only [hret, sendResult] at h
    exact Or.inr (Or.inr (Or.inr ⟨Or.inr (Or.inr rfl), failed h⟩))

end Server
end XiaoHGServer
