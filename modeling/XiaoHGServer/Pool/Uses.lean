import Mathlib.Logic.Function.Iterate
import XiaoHGServer.Pool.Moves
import XiaoHGServer.Worker.Discard

/-!
# Serial numbers and the uses of a connection object

A use of a connection object begins in `GetConnection` and ends when the
connection is closed. The serial number is incremented at both ends and once
more in `FreeConnection`, and a message header keeps the number it was stamped
with. The steps here are those that touch serial numbers, one at a time; `other`
is whatever the threads do in between, at any granularity.
-/

namespace XiaoHGServer

/-- An entry of the history of serial numbers. `stamped` is a header that was stamped with its
connection in use; `closed` says whether the connection was in the recycling queue already. -/
inductive Mark
  | stamped (h : MsgHeader)
  | given (c : ConnId)
  | closed (c : ConnId) (queued : Bool)
  | recycled (c : ConnId)
  deriving DecidableEq, Repr

/-- Connection `c` was given to a client, closed or recycled. -/
def Mark.ends (c : ConnId) : Mark → Bool
  | .stamped _ => false
  | .given d => d = c
  | .closed d _ => d = c
  | .recycled d => d = c

def Mark.increments (c : ConnId) : Mark → Bool
  | .stamped _ => false
  | .given d => d = c
  | .closed d queued => d = c ∧ queued = false
  | .recycled d => d = c

def increments (c : ConnId) (marks : List Mark) : ℕ := marks.countP (Mark.increments c)

/-- The header was stamped in a use of its connection, which has been closed, recycled or given to
another client since. -/
def Stale (marks : List Mark) (h : MsgHeader) : Prop :=
  ∃ pre post, marks = pre ++ .stamped h :: post ∧ ∃ m ∈ pre, m.ends h.pConn = true

/-- The header was stamped in a use of its connection that goes on. -/
def Live (marks : List Mark) (h : MsgHeader) : Prop :=
  ∃ pre post, marks = pre ++ .stamped h :: post ∧ ∀ m ∈ pre, m.ends h.pConn = false

def nextSequence (n : ℕ) : ℕ := u64 (n + 1)

theorem iterate_nextSequence (k x : ℕ) : nextSequence^[k + 1] x = (x + (k + 1)) % 2 ^ 64 := by
  induction k with
  | zero => rfl
  | succ k ih =>
    rw [Function.iterate_succ_apply', ih, nextSequence, u64]
    omega

/-- Less than `2 ^ 64` increments never lead back to the same number. -/
theorem iterate_nextSequence_ne {n x : ℕ} (hpos : 0 < n) (hn : n < 2 ^ 64) :
    nextSequence^[n] x ≠ x := by
  obtain ⟨k, rfl⟩ := Nat.exists_eq_add_of_lt hpos
  rw [Nat.zero_add, iterate_nextSequence]
  omega

inductive AtomicStep
  | getConnection (fd : ℕ) (now : ℤ)
  /-- The stamping in `RecvMsgHeaderParseProc`, for a packet of this length. -/
  | headerParse (c : ConnId) (pkgLen : ℕ)
  /-- The stamping in `AddToTimerList`. -/
  | addToTimerList (c : ConnId) (now : ℤ)
  | closeConnectionToRecy (c : ConnId) (now : ℤ)
  /-- `FreeConnection` of an object that the recycler has taken out of its queue. -/
  | freeConnection (c : ConnId)
  | other
  deriving DecidableEq, Repr

namespace Server

variable {s t : Server} {c : ConnId} {e : AtomicStep}

def marks (s : Server) : AtomicStep → List Mark
  | .getConnection _ _ => [.given s.pool.front]
  | .headerParse c _ => if c ∈ s.pool.clients then [.stamped ⟨c, (s.conn c).currSequence⟩] else []
  | .addToTimerList c _ =>
    if c ∈ s.pool.clients then [.stamped ⟨c, (s.conn c).currSequence⟩] else []
  | .closeConnectionToRecy c _ => [.closed c (c ∈ s.pool.recyConnectionList)]
  | .freeConnection c => [.recycled c]
  | .other => []

/-- `CloseConnectionToRecy` is called on objects in use or in the recycling queue only. -/
def AtomicallyNext (s : Server) (t : Server) : AtomicStep → Prop
  | .getConnection fd now => t = { s.getConnection fd now with pool := s.pool.taken }
  | .headerParse c pkgLen => t = s.allocRecvBuffer c pkgLen
  | .addToTimerList c now =>
    t = { s with
      timer := s.timer.addToTimerList s.config.waitTime now ⟨c, (s.conn c).currSequence⟩ }
  | .closeConnectionToRecy c now =>
    (c ∈ s.pool.clients ∨ c ∈ s.pool.recyConnectionList) ∧ t = s.closeConnectionToRecy c now
  | .freeConnection c =>
    c ∈ s.pool.recyConnectionList ∧
      t = { s with pool := s.pool.takeFromRecyQueue c }.freeConnection c
  | .other => s.SameUses t

end Server

def atomically : System Server AtomicStep where
  start := Server.Booted
  step s e t := s.AtomicallyNext t e

namespace Server

variable {s t : Server} {c : ConnId} {e : AtomicStep} {h : MsgHeader} {pre : List Mark}

/-- Packet `b` is thrown away for its bytes, whoever sent it. -/
def Malformed (s : Server) (b : BufId) : Prop :=
  pkgLength (s.recvPkg b) = lenPkgHeader ∧ iCrc32 (s.recvPkg b) ≠ 0 ∨
    pkgLength (s.recvPkg b) ≠ lenPkgHeader ∧
      getCRC (pkgBody (s.recvPkg b)) ≠ ntohl (iCrc32 (s.recvPkg b)) ∨
    totalCommands ≤ msgCode (s.recvPkg b) ∨
    statusHandler.getD (msgCode (s.recvPkg b)) none = none

/-- The timer entry `b` makes the monitor close its connection, if the header is not stale. -/
def TimedOut (s : Server) (b : BufId) (now : ℤ) : Prop :=
  s.config.isTimeOutKick = 1 ∨
    now - (s.conn (s.timer.mem.buffer b).header.pConn).lastHeartBeatTime >
      s.config.waitTime * 3 + 10

/-- `FreeMemory` of a header that was taken out of the timer queue. -/
def freeTimerHeader (s : Server) (b : BufId) : Server :=
  { s with timer := { s.timer with mem := s.timer.mem.freeMemory (some b) } }

/-- The worker never dispatches a packet under header `h`, the sender discards a message under it
without `send`, and the monitor leaves the connections alone. -/
structure Rejects (s : Server) (h : MsgHeader) : Prop where
  worker : ∀ b now, s.recvHeader b = h → s.recvMsgHandleProc b now = none
  sender : ∀ pos b env, s.sendQueue.sendMsgList[pos]? = some b → s.sendHeader b = h →
    s.sendMsgThreadIter pos env = some ((s.eraseSendMsg pos).freeSendMsg (some b))
  monitor : ∀ b now, (s.timer.mem.buffer b).header = h →
    s.heartBeatTimeOutCheck b now = s.freeTimerHeader b

/-- The worker dispatches a packet under header `h` that is not malformed, and the reply has the
same header; the sender keeps a message under it for later or hands it to `send`; and the monitor
closes the connection when the timer entry says so. -/
structure Accepts (s : Server) (h : MsgHeader) : Prop where
  worker : ∀ b now, s.recvHeader b = h → (s.recvMsgHandleProc b now = none ↔ s.Malformed b)
  reply : ∀ b now t r, s.recvHeader b = h → s.recvMsgHandleProc b now = some (t, some r) →
    t.sendHeader r = h
  sender : ∀ pos b env, s.sendQueue.sendMsgList[pos]? = some b → s.sendHeader b = h →
    s.sendMsgThreadIter pos env =
      if (s.conn h.pConn).send.throwSendMsgCount > 0 then some { s with sender := .pass (pos + 1) }
      else (s.takeSendMsg pos b h.pConn).startSend h.pConn env
  monitor : ∀ b now, (s.timer.mem.buffer b).header = h → s.TimedOut b now →
    s.heartBeatTimeOutCheck b now =
      (s.closeConnectionToRecy h.pConn now).freeTimerHeader b

theorem rejects_of_ne (hne : (s.conn h.pConn).currSequence ≠ h.currSequence) : s.Rejects h where
  worker b now hb := by
    subst hb
    exact recvMsgHandleProc_eq_none_iff.mpr (.closed hne)
  sender pos b env hpos hb := by
    subst hb
    simp [sendMsgThreadIter, hpos, hne]
  monitor b now hb := by
    subst hb
    simp [heartBeatTimeOutCheck, Ne.symm hne, freeTimerHeader]

theorem accepts_of_eq (heq : (s.conn h.pConn).currSequence = h.currSequence) : s.Accepts h where
  worker b now hb := by
    subst hb
    rw [recvMsgHandleProc_eq_none_iff]
    constructor
    · intro hrej
      cases hrej with
      | headerCrc hlen hcrc => exact Or.inl ⟨hlen, hcrc⟩
      | bodyCrc hlen hcrc => exact Or.inr (Or.inl ⟨hlen, hcrc⟩)
      | closed hne => exact absurd heq hne
      | unknownCode hcode => exact Or.inr (Or.inr (Or.inl hcode))
      | noHandler hcode => exact Or.inr (Or.inr (Or.inr hcode))
    · rintro (⟨hlen, hcrc⟩ | ⟨hlen, hcrc⟩ | hcode | hcode)
      · exact .headerCrc hlen hcrc
      · exact .bodyCrc hlen hcrc
      · exact .unknownCode hcode
      · exact .noHandler hcode
  reply b now t r hb ht := by
    subst hb
    obtain ⟨m, m', x, rfl, -, ⟨hnone, -⟩ | ⟨hsome, hm⟩⟩ := recvMsgHandleProc_handled ht
    · cases hnone
    · rw [Option.some.inj hsome]
      exact hm.header
  sender pos b env hpos hb := by
    subst hb
    simp [sendMsgThreadIter, hpos, heq]
  monitor b now hb ht := by
    subst hb
    unfold heartBeatTimeOutCheck freeTimerHeader
    dsimp only
    rw [if_pos heq.symm]
    rcases ht with hkick | hlate
    · rw [if_pos hkick]
    · by_cases hkick : s.config.isTimeOutKick = 1
      · rw [if_pos hkick]
      · rw [if_neg hkick, if_pos hlate]

/-- What is known of a header that was stamped in a use, from the entries since. -/
structure StampAt (s : Server) (pre : List Mark) (h : MsgHeader) : Prop where
  object : h.pConn ∈ s.pool.connectionList
  sequence : (s.conn h.pConn).currSequence = nextSequence^[increments h.pConn pre] h.currSequence
  inUse : increments h.pConn pre = 0 →
    h.pConn ∈ s.pool.clients ∧ ∀ m ∈ pre, m.ends h.pConn = false

theorem StampAt.frame (hs : s.StampAt pre h) {new : List Mark}
    (hends : ∀ m ∈ new, m.ends h.pConn = false)
    (hobj : s.pool.connectionList ⊆ t.pool.connectionList)
    (hseq : (t.conn h.pConn).currSequence = (s.conn h.pConn).currSequence)
    (hcl : h.pConn ∈ s.pool.clients → h.pConn ∈ t.pool.clients) : t.StampAt (new ++ pre) h := by
  have hinc : increments h.pConn (new ++ pre) = increments h.pConn pre := by
    rw [increments, List.countP_append, List.countP_eq_zero.mpr, Nat.zero_add, increments]
    intro m hm hi
    have := hends m hm
    cases m <;> simp_all [Mark.ends, Mark.increments]
  refine ⟨hobj hs.object, by rw [hinc, hseq, hs.sequence], fun hz => ?_⟩
  obtain ⟨hc, hpre⟩ := hs.inUse (hinc ▸ hz)
  refine ⟨hcl hc, fun m hm => ?_⟩
  rcases List.mem_append.mp hm with hm | hm
  · exact hends m hm
  · exact hpre m hm

/-- A step that ends a use of the connection, or comes after its end, increments its number. -/
theorem StampAt.ended (hs : s.StampAt pre h) {m : Mark} (hm : m.increments h.pConn = true)
    (hobj : s.pool.connectionList ⊆ t.pool.connectionList)
    (hseq : (t.conn h.pConn).currSequence = nextSequence (s.conn h.pConn).currSequence) :
    t.StampAt ([m] ++ pre) h := by
  have hinc : increments h.pConn ([m] ++ pre) = increments h.pConn pre + 1 := by
    rw [increments, List.singleton_append, List.countP_cons_of_pos hm, increments]
  refine ⟨hobj hs.object, ?_, fun hz => ?_⟩
  · rw [hinc, Function.iterate_succ_apply', hseq, hs.sequence]
  · rw [hinc] at hz
    cases hz

theorem getConnection_objects (p : ConnectionPool) :
    p.connectionList ⊆ p.taken.connectionList := (getConnection_lists p).1

theorem step_placed (hs : s.pool.Placed) (ht : atomically.step s e t) : t.pool.Placed := by
  cases e with
  | getConnection fd now =>
    obtain rfl := ht
    exact hs.taken
  | headerParse c n =>
    obtain rfl := ht
    exact hs
  | addToTimerList c now =>
    obtain rfl := ht
    exact hs
  | closeConnectionToRecy c now =>
    obtain ⟨hc, rfl⟩ := ht
    rw [closeConnectionToRecy_pool]
    exact hs.closed hc
  | freeConnection c =>
    obtain ⟨hc, rfl⟩ := ht
    exact hs.recycled hc
  | other => exact hs.same ht.1

/-- What an atomic step does to the number under which a header was stamped. -/
theorem step_stampAt (hp : s.pool.Placed) (ht : atomically.step s e t) (hs : s.StampAt pre h) :
    t.StampAt (s.marks e ++ pre) h := by
  cases e with
  | getConnection fd now =>
    obtain rfl := ht
    have hsub := getConnection_objects s.pool
    by_cases hc : h.pConn = s.pool.front
    · have hfree : s.pool.freeConnectionList ≠ [] := fun hnil => hp.front_ne hnil hs.object hc
      refine hs.ended (by simp [Mark.increments, hc]) hsub ?_
      simp [getConnection, hc, hfree, Connection.getOneToUse, nextSequence]
    · refine hs.frame (by simp [marks, Mark.ends, Ne.symm hc]) hsub ?_ fun hcl => ?_
      · simp [getConnection, hc]
      · exact List.mem_cons_of_mem _ hcl
  | headerParse c n =>
    obtain rfl := ht
    refine hs.frame (fun m hm => ?_) (List.Subset.refl _) ?_ fun hcl => hcl
    · simp only [marks] at hm
      split_ifs at hm
      · rw [List.mem_singleton.mp hm]
        rfl
      · cases hm
    · exact update_field Connection.currSequence (by rfl) _
  | addToTimerList c now =>
    obtain rfl := ht
    refine hs.frame (fun m hm => ?_) (List.Subset.refl _) rfl fun hcl => hcl
    simp only [marks] at hm
    split_ifs at hm
    · rw [List.mem_singleton.mp hm]
      rfl
    · cases hm
  | closeConnectionToRecy c now =>
    obtain ⟨hplace, rfl⟩ := ht
    have hobj : s.pool.connectionList ⊆ (s.closeConnectionToRecy c now).pool.connectionList := by
      rw [closeConnectionToRecy_pool, ConnectionPool.closed,
        ConnectionPool.pushConnectToRecyQueue]
      split <;> exact List.Subset.refl _
    by_cases hc : h.pConn = c
    · by_cases hq : c ∈ s.pool.recyConnectionList
      · -- the use ended before, so that the number has been incremented since
        have hpos : increments h.pConn pre ≠ 0 := by
          intro hz
          exact hp.notMem_recy (hs.inUse hz).1 (hc ▸ hq)
        have hinc : increments h.pConn (s.marks (.closeConnectionToRecy c now) ++ pre) =
            increments h.pConn pre := by
          simp [increments, marks, Mark.increments, hq]
        refine ⟨hobj hs.object, ?_, fun hz => absurd (hinc ▸ hz) hpos⟩
        rw [hinc, ← hs.sequence, closeConnectionToRecy_eq]
        simp [hc, hq, Connection.closed]
      · refine hs.ended (by simp [Mark.increments, hc, hq]) hobj ?_
        rw [closeConnectionToRecy_eq]
        simp [hc, hq, Connection.closed, nextSequence]
    · refine hs.frame (by simp [marks, Mark.ends, Ne.symm hc]) hobj ?_ fun hcl => ?_
      · rw [closeConnectionToRecy_eq]
        simp [hc]
      · rw [closeConnectionToRecy_pool]
        exact (List.mem_erase_of_ne hc).mpr hcl
  | freeConnection c =>
    obtain ⟨hplace, rfl⟩ := ht
    by_cases hc : h.pConn = c
    · refine hs.ended (by simp [Mark.increments, hc]) (List.Subset.refl _) ?_
      simp [freeConnection, putOneToFree, hc, nextSequence]
    · refine hs.frame (by simp [marks, Mark.ends, Ne.symm hc]) (List.Subset.refl _) ?_
        fun hcl => hcl
      simp [freeConnection, putOneToFree, hc]
  | other =>
    refine hs.frame (by simp [marks]) ?_ (ht.2 _) fun hcl => ?_
    · rw [ht.1.objects]
      exact List.Subset.refl _
    · rwa [ht.1.clients]

theorem stampAt_new (hp : s.pool.Placed) (ht : atomically.step s e t) {post : List Mark}
    (hm : s.marks e = pre ++ .stamped h :: post) : t.StampAt pre h := by
  have hstamp : ∀ c, (if c ∈ s.pool.clients then [Mark.stamped ⟨c, (s.conn c).currSequence⟩]
      else []) = pre ++ .stamped h :: post →
      pre = [] ∧ h = ⟨c, (s.conn c).currSequence⟩ ∧ c ∈ s.pool.clients := by
    intro c hc
    split_ifs at hc with hcl
    · rw [eq_comm, List.append_eq_singleton_iff] at hc
      rcases hc with ⟨rfl, hc⟩ | ⟨-, hc⟩
      · simp only [List.cons.injEq, Mark.stamped.injEq] at hc
        exact ⟨rfl, hc.1, hcl⟩
      · cases hc
    · simp at hc
  have hmem : Mark.stamped h ∈ s.marks e := by
    rw [hm]
    simp
  cases e with
  | headerParse c n =>
    obtain rfl := ht
    obtain ⟨rfl, rfl, hcl⟩ := hstamp c hm
    exact ⟨hp.mem_objects (Or.inr hcl), by simp [increments, allocRecvBuffer],
      fun _ => ⟨hcl, by simp⟩⟩
  | addToTimerList c now =>
    obtain rfl := ht
    obtain ⟨rfl, rfl, hcl⟩ := hstamp c hm
    exact ⟨hp.mem_objects (Or.inr hcl), rfl, fun _ => ⟨hcl, by simp⟩⟩
  | getConnection fd now =>
    simp [marks] at hmem
  | closeConnectionToRecy c now =>
    simp [marks] at hmem
  | freeConnection c =>
    simp [marks] at hmem
  | other => simp [marks] at hmem

theorem run_placed {es : List AtomicStep} (hr : atomically.Run es s) : s.pool.Placed :=
  hr.invariant (I := fun s => s.pool.Placed)
    (fun _ hb => ⟨_, .refl _, (poolInv_boot hb).partition⟩) fun _ _ _ hs ht => step_placed hs ht

/-- A step of the process is a few atomic steps. -/
theorem atomically_of_step {e : Event} {es : List AtomicStep} (hr : atomically.Run es s)
    (hi : s.PoolInv) (hp : s.ClientPointers) (hfree : s.ClosesNoFree e) (he : s.Enabled e)
    (h : s.next e = some t) : ∃ es', atomically.Run (es ++ es') t := by
  rcases step_useMove h with ⟨-, hsame⟩ | ⟨env, fd, -, hsame⟩ | ⟨c, now, hc, hsame⟩ |
    ⟨c, n, hc, -, hsame⟩
  · exact ⟨[.other], hr.step hsame⟩
  · let u := { s.getConnection fd env.now with pool := s.pool.taken }
    have hu : atomically.Run (es ++ [.getConnection fd env.now]) u := hr.step rfl
    have hadm : SameUses u (s.admitted fd env.now) := by
      refine ⟨⟨rfl, rfl, rfl, rfl, rfl⟩, fun d => ?_⟩
      by_cases hd : d = s.pool.front <;>
        simp [u, admitted, hd, getConnection, Server.taken, Connection.installed]
    refine ⟨[.getConnection fd env.now, .other], ?_⟩
    rw [List.append_cons]
    exact hu.step (hadm.trans hsame)
  · have hclient := hi.clients c (closes_isClient hp he h hc)
    have hplace := hi.partition.perm.mem_iff.mpr hclient.1
    have hnot := hfree c hc
    have huse : c ∈ s.pool.clients ∨ c ∈ s.pool.recyConnectionList := by
      simp only [ConnectionPool.inUse, List.mem_append, hnot, hclient.2, false_or,
        or_false] at hplace
      exact hplace.symm
    refine ⟨[.closeConnectionToRecy c now, .other], ?_⟩
    rw [List.append_cons]
    have hu : atomically.Run (es ++ [.closeConnectionToRecy c now])
      (s.closeConnectionToRecy c now) := hr.step ⟨huse, rfl⟩
    exact hu.step hsame
  · let u := { s with pool := s.pool.takeFromRecyQueue c }.freeConnection c
    have hu : atomically.Run (es ++ [.freeConnection c]) u := hr.step ⟨hc, rfl⟩
    have hrecycled : SameUses u (s.recycled c n) := by
      refine ⟨.refl _, fun d => ?_⟩
      by_cases hd : d = c <;> simp [u, recycled, freeConnection, putOneToFree, hd]
    refine ⟨[.freeConnection c, .other], ?_⟩
    rw [List.append_cons]
    exact hu.step (hrecycled.trans hsame)

/-- Every run of the process that closes no object of the free list is one of atomic steps. -/
theorem run_atomically {es : List Event} (h : (process.restrict ClosesNoFree).Run es s) :
    ∃ es', atomically.Run es' s := by
  refine h.trace_invariant (I := fun _ s => ∃ es', atomically.Run es' s) ?_ ?_
  · exact fun s hb => ⟨[], .start hb⟩
  · rintro _ s e t hrun ⟨es', hr⟩ ⟨hfree, he, ht⟩
    obtain ⟨hi, hp⟩ := run_poolInv hrun
    obtain ⟨es'', hr'⟩ := atomically_of_step hr hi hp hfree he ht
    exact ⟨_, hr'⟩

/-- In every run, the number of a connection has moved on from that of a header by the increments
since the stamp. -/
theorem run_stampAt {es : List AtomicStep} {hist post : List Mark}
    (hr : (atomically.record marks).Run es (s, hist)) (hh : hist = pre ++ .stamped h :: post) :
    s.StampAt pre h := by
  have hsince := hr.since (Φ := fun s pre m => ∀ h, m = .stamped h → s.StampAt pre h) ?_ ?_
  · exact hsince pre (.stamped h) post hh h rfl
  · rintro es s e t pre m post hrun ht hm h rfl
    exact stampAt_new (run_placed hrun) ht hm
  · rintro es s e t pre m hrun ht hs h rfl
    exact step_stampAt (run_placed hrun) ht (hs h rfl)

/-- Serial numbers tell the uses of a connection object apart: a header of an earlier use is
rejected everywhere, one of the present use nowhere. -/
theorem stamps_isolate_uses {es : List AtomicStep} {hist : List Mark}
    (hr : (atomically.record marks).Run es (s, hist))
    (hinc : ∀ c, increments c hist < 2 ^ 64) (h : MsgHeader) :
    (Stale hist h → s.Rejects h) ∧ (Live hist h → s.Accepts h) := by
  constructor
  · rintro ⟨pre, post, hhist, m, hm, hends⟩
    have hs := run_stampAt hr hhist
    have hpos : 0 < increments h.pConn pre := by
      refine Nat.pos_of_ne_zero fun hz => ?_
      have := (hs.inUse hz).2 m hm
      rw [hends] at this
      cases this
    have hlt : increments h.pConn pre < 2 ^ 64 := by
      refine lt_of_le_of_lt ?_ (hinc h.pConn)
      rw [hhist, increments, increments, List.countP_append]
      exact Nat.le_add_right _ _
    apply rejects_of_ne
    rw [hs.sequence]
    exact iterate_nextSequence_ne hpos hlt
  · rintro ⟨pre, post, hhist, hends⟩
    have hs := run_stampAt hr hhist
    have hzero : increments h.pConn pre = 0 := by
      refine List.countP_eq_zero.mpr fun m hm hi => ?_
      have := hends m hm
      cases m <;> simp_all [Mark.ends, Mark.increments]
    apply accepts_of_eq
    rw [hs.sequence, hzero, Function.iterate_zero_apply]

/-- A client sends a packet and goes: the packet is not handled any more. -/
theorem stamps_isolate_uses_closed : ∃ s : Server, s.Rejects ⟨1, 2⟩ := by
  let s₀ := smallBoot smallConfig
  let s₁ := { s₀.getConnection 4 0 with pool := s₀.pool.taken }
  let s₂ := s₁.allocRecvBuffer 1 8
  let s₃ := s₂.closeConnectionToRecy 1 0
  have h₀ : (atomically.record marks).Run [] (s₀, []) := .start ⟨booted_smallBoot smallConfig, rfl⟩
  have h₁ : (atomically.record marks).Run [.getConnection 4 0] (s₁, [.given 1]) :=
    h₀.step ⟨rfl, rfl⟩
  have h₂ : (atomically.record marks).Run [.getConnection 4 0, .headerParse 1 8]
      (s₂, [.stamped ⟨1, 2⟩, .given 1]) := h₁.step ⟨rfl, rfl⟩
  have h₃ : (atomically.record marks).Run
      [.getConnection 4 0, .headerParse 1 8, .closeConnectionToRecy 1 0]
      (s₃, [.closed 1 false, .stamped ⟨1, 2⟩, .given 1]) :=
    h₂.step ⟨⟨Or.inl (by decide), rfl⟩, rfl⟩
  refine ⟨s₃, (stamps_isolate_uses h₃ (fun c => ?_) ⟨1, 2⟩).1
    ⟨[.closed 1 false], [.given 1], rfl, by simp [Mark.ends]⟩⟩
  exact (List.countP_le_length).trans_lt (by norm_num)

end Server
end XiaoHGServer
