import XiaoHGServer.Send.Ownership

/-!
# The flag of a suspended message

`throwSendMsgCount` is raised when a message is suspended and lowered when its
last byte is out, so that `SendMsgThread` leaves the connection alone in between.
The error branch of the event loop lowers it as well, with the message still
unfinished and the connection still open, or closed and lowered already. What a
message has left is known here from the answers of `send` alone.
-/

namespace XiaoHGServer

/-- Whether the answer to a call of `send` for `len` bytes leaves a rest of the message; a failure
does not say. -/
def SendRet.leavesRest (len : ℕ) : SendRet → Option Bool
  | .accepted n => some (decide (n ≠ len))
  | .again => some true
  | .zero => none
  | .error => none

namespace Server

variable {s t : Server} {c d : ConnId} {e : Event} {marks : List (ConnId × Bool)}

/-- The length of the message that the iterator of `SendMsgThread` points to. -/
def startLen (s : Server) : ℕ :=
  match s.sender with
  | .pass pos =>
    match s.sendQueue.sendMsgList[pos]? with
    | some b => u16 (pkgLength (s.sendQueue.mem.buffer b).pkg)
    | none => 0
  | _ => 0

/-- What the step learns about the message of a connection from the answer of `send`. -/
def answer (s : Server) : Event → Option (ConnId × Bool)
  | .write c env => (env.ret.leavesRest (s.conn c).send.sendMsgLen).map fun r => (c, r)
  | .iterate env => (s.starts (.iterate env)).bind fun c =>
    (env.ret.leavesRest s.startLen).map fun r => (c, r)
  | _ => none

/-- What the step enters in the history: whether the message of an open connection has a rest, and
that a connection was closed. -/
def sendMark (s : Server) (e : Event) : Option (ConnId × Bool) :=
  match s.closes e with
  | some c => some (c, false)
  | none => (s.answer e).filter fun m => m.1 ∈ s.pool.clients

def sendMarks (s : Server) (e : Event) : List (ConnId × Bool) := (s.sendMark e).toList

/-- The last entry for the connection says that bytes of its message are not accepted yet. -/
def Unfinished (marks : List (ConnId × Bool)) (c : ConnId) : Prop := marks.lookup c = some true

/-- The flag says of every open connection whether its message is unfinished, and the sender starts
none while it is. -/
structure FlagExact (s : Server) (marks : List (ConnId × Bool)) : Prop where
  range : ∀ c, s.IsClient c →
    (s.conn c).send.throwSendMsgCount = 0 ∨ (s.conn c).send.throwSendMsgCount = 1
  exact : ∀ c ∈ s.pool.clients, (s.conn c).send.throwSendMsgCount = 1 ↔ Unfinished marks c
  noStart : ∀ env c, s.starts (.iterate env) = some c → c ∈ s.pool.clients → ¬ Unfinished marks c

/-- The error branch runs for closed connections with a raised flag only, no open connection is
given to another client or recycled with its flag up, and no message is completed through a closed
connection whose flag is down. -/
def KeepsFlag (s : Server) (e : Event) : Prop :=
  (∀ c ∈ s.recycles e, c ∈ s.pool.clients → (s.conn c).send.throwSendMsgCount = 0) ∧
  match e with
  | .accept _ => s.pool.front ∉ s.pool.clients
  | .outError c => c ∉ s.pool.clients ∧ (s.conn c).send.throwSendMsgCount = 1
  | .write c env => env.ret = .accepted (s.conn c).send.sendMsgLen → c ∉ s.pool.clients →
    (s.conn c).send.throwSendMsgCount = 1
  | _ => True

/-- Flag, event mask and history of one connection agree. -/
structure FlagAt (s : Server) (marks : List (ConnId × Bool)) (c : ConnId) : Prop where
  range : (s.conn c).send.throwSendMsgCount = 0 ∨ (s.conn c).send.throwSendMsgCount = 1
  armed : c ∈ s.pool.clients → (s.Armed c ↔ (s.conn c).send.throwSendMsgCount = 1)
  marked : c ∈ s.pool.clients → (Unfinished marks c ↔ (s.conn c).send.throwSendMsgCount = 1)
  closed : c ∉ s.pool.clients → ¬ Unfinished marks c

structure FlagInv (s : Server) (marks : List (ConnId × Bool)) : Prop where
  nodup : s.pool.clients.Nodup
  flag : ∀ c, s.FlagAt marks c

theorem FlagInv.exact (h : s.FlagInv marks) : s.FlagExact marks where
  range c _ := (h.flag c).range
  exact c hc := ((h.flag c).marked hc).symm
  noStart env c hstart hc hunf := by
    have hone := ((h.flag c).marked hc).mp hunf
    simp only [starts] at hstart
    split at hstart
    · split at hstart
      · split_ifs at hstart with hcond
        obtain rfl := Option.some.inj hstart
        omega
      · cases hstart
    · cases hstart

theorem Unfinished.cons_ne {m : ConnId × Bool} (h : m.1 ≠ c) :
    Unfinished (m :: marks) c ↔ Unfinished marks c := by
  have hne : (c == m.1) = false := by simpa using Ne.symm h
  rw [Unfinished, Unfinished, List.lookup_cons, hne]

theorem unfinished_closes (h : s.closes e = some c) :
    ¬ Unfinished (s.sendMarks e ++ marks) c := by
  simp [sendMarks, sendMark, h, Unfinished]

theorem unfinished_answer (marks : List (ConnId × Bool)) {o : Option Bool} (hcl : s.closes e = none)
    (h : s.answer e = o.map fun r => (c, r)) : Unfinished (s.sendMarks e ++ marks) c ↔
      if c ∈ s.pool.clients then o.elim (Unfinished marks c) (· = true)
      else Unfinished marks c := by
  cases o with
  | none => simp [sendMarks, sendMark, hcl, h]
  | some r =>
    by_cases hc : c ∈ s.pool.clients
    · simp [sendMarks, sendMark, hcl, h, hc, Unfinished, Option.filter_some]
    · simp [sendMarks, sendMark, hcl, h, hc, Option.filter_some]

theorem unfinished_other (marks : List (ConnId × Bool)) (hcl : s.closes e ≠ some c)
    (hw : ∀ env, e ≠ .write c env) (hs : s.starts e ≠ some c) :
    Unfinished (s.sendMarks e ++ marks) c ↔ Unfinished marks c := by
  have hmark : ∀ m ∈ s.sendMark e, m.1 ≠ c := by
    intro m hm
    unfold sendMark at hm
    split at hm
    · rename_i d hd
      rintro rfl
      obtain rfl := Option.some.inj hm
      exact hcl hd
    · obtain ⟨ha, -⟩ := Option.filter_eq_some_iff.mp hm
      rintro rfl
      cases e with
      | write d env =>
        obtain ⟨r, -, rfl⟩ := Option.map_eq_some_iff.mp ha
        exact hw env rfl
      | iterate env =>
        obtain ⟨d, hd, ha⟩ := Option.bind_eq_some_iff.mp ha
        obtain ⟨r, -, rfl⟩ := Option.map_eq_some_iff.mp ha
        exact hs hd
      | _ => cases ha
  unfold sendMarks
  cases hm : s.sendMark e with
  | none => exact Iff.rfl
  | some m => exact Unfinished.cons_ne (hmark m hm)

theorem FlagAt.frame (h : s.FlagAt marks c) {marks' : List (ConnId × Bool)}
    (hflag : (t.conn c).send.throwSendMsgCount = (s.conn c).send.throwSendMsgCount)
    (hevents : (t.conn c).epoll = (s.conn c).epoll)
    (hclients : c ∈ t.pool.clients ↔ c ∈ s.pool.clients)
    (hmarks : Unfinished marks' c ↔ Unfinished marks c) : t.FlagAt marks' c := by
  have harmed : t.Armed c ↔ s.Armed c := by rw [Armed, Armed, hevents]
  refine ⟨?_, fun hc => ?_, fun hc => ?_, fun hc => ?_⟩
  · rw [hflag]
    exact h.range
  · rw [harmed, hflag, h.armed (hclients.mp hc)]
  · rw [hmarks, hflag, h.marked (hclients.mp hc)]
  · rw [hmarks]
    exact h.closed fun hm => hc (hclients.mpr hm)

/-- The values that closing, recycling and the error branch leave are flags. -/
theorem FlagMove.range {n : ℤ} (h : FlagMove s e c n) (hs : s.FlagAt marks c)
    (hk : s.KeepsFlag e) : n = 0 ∨ n = 1 := by
  have := hs.range
  cases h with
  | close => omega
  | recycle => omega
  | clear => exact this
  | outError he =>
    subst he
    have := hk.2.2
    omega

theorem FlagAt.answer_step (hs : s.FlagAt marks c) {marks' : List (ConnId × Bool)}
    {o : Option Bool} (hpool : t.pool = s.pool)
    (hmark : Unfinished marks' c ↔ if c ∈ s.pool.clients then
      o.elim (Unfinished marks c) (· = true) else Unfinished marks c)
    (hrange : (t.conn c).send.throwSendMsgCount = 0 ∨ (t.conn c).send.throwSendMsgCount = 1)
    (harmed : c ∈ s.pool.clients → (t.Armed c ↔ (t.conn c).send.throwSendMsgCount = 1))
    (hopen : c ∈ s.pool.clients → (o.elim (Unfinished marks c) (· = true) ↔
      (t.conn c).send.throwSendMsgCount = 1)) : t.FlagAt marks' c := by
  refine ⟨hrange, fun hc => ?_, fun hc => ?_, fun hc => ?_⟩
  all_goals rw [hpool] at hc
  · exact harmed hc
  · rw [hmark, if_pos hc]
    exact hopen hc
  · rw [hmark, if_neg hc]
    exact hs.closed hc

theorem FlagAt.write_step {env : SendEnv} (hs : s.FlagAt marks c) (harmed : s.Armed c)
    (hlegal : env.ret.Legal s c (s.conn c).send.sendMsgLen) (hk : s.KeepsFlag (.write c env))
    (h : s.epollEventWriteRequestHandler c env = some t) :
    t.FlagAt (s.sendMarks (.write c env) ++ marks) c := by
  have hmark := unfinished_answer (s := s) (c := c) (e := .write c env) marks
    (o := env.ret.leavesRest (s.conn c).send.sendMsgLen) rfl rfl
  have hone (hc : c ∈ s.pool.clients) : (s.conn c).send.throwSendMsgCount = 1 :=
    (hs.armed hc).mp harmed
  rcases write_cases h with ⟨n, hret, -, hn, rfl⟩ | ⟨hret, rfl⟩ | ⟨n, hret, -, hn, rfl⟩ |
    ⟨hret, rfl⟩
  · refine hs.answer_step rfl hmark ?_ (fun hc => ?_) fun hc => ?_
    · simpa [SendState.advance] using hs.range
    · simpa [Armed, SendState.advance, hone hc] using harmed
    · simp [hret, SendRet.leavesRest, hn, SendState.advance, hone hc]
  · refine hs.answer_step rfl hmark hs.range hs.armed fun hc => ?_
    simp [hret, SendRet.leavesRest, hone hc]
  · have hflag : (s.conn c).send.throwSendMsgCount = 1 := by
      by_cases hc : c ∈ s.pool.clients
      · exact hone hc
      · exact hk.2 (by rw [hret, hn]) hc
    refine hs.answer_step rfl hmark ?_ (fun hc => ?_) fun hc => ?_
    · simp [Connection.complete, hflag]
    · simp [Armed, Connection.complete, hflag, has_disarmed]
    · simp [hret, SendRet.leavesRest, hn, Connection.complete, hflag]
  · refine hs.answer_step rfl hmark hs.range hs.armed fun hc => ?_
    rcases hret with hret | hret | hret
    · rw [hret] at hlegal
      exact absurd hlegal.1 (by norm_num)
    · rw [hret]
      exact hs.marked hc
    · rw [hret]
      exact hs.marked hc

theorem FlagAt.start_step {pos : ℕ} {b : BufId} {env : SendEnv} (hs : s.FlagAt marks c)
    (hsender : s.sender = .pass pos) (hb : s.sendQueue.sendMsgList[pos]? = some b)
    (hstart : s.starts (.iterate env) = some c)
    (hflag : (s.conn c).send.throwSendMsgCount ≤ 0)
    (hlegal : env.ret.Legal s c (u16 (pkgLength (s.sendQueue.mem.buffer b).pkg)))
    (h : (s.takeSendMsg pos b c).startSend c env = some t) :
    t.FlagAt (s.sendMarks (.iterate env) ++ marks) c := by
  set len := u16 (pkgLength (s.sendQueue.mem.buffer b).pkg) with hlen
  have hstartLen : s.startLen = len := by
    simp only [startLen, hsender, hb, hlen]
  have hmark := unfinished_answer (s := s) (c := c) (e := .iterate env) marks
    (o := env.ret.leavesRest len) rfl (by simp [answer, hstart, hstartLen])
  have hzero : (s.conn c).send.throwSendMsgCount = 0 := by
    have := hs.range
    omega
  have hdown (hc : c ∈ s.pool.clients) : ¬ s.Armed c := by
    rw [hs.armed hc, hzero]
    norm_num
  have hold (hc : c ∈ s.pool.clients) : ¬ Unfinished marks c := by
    rw [hs.marked hc, hzero]
    norm_num
  have htake : ((s.takeSendMsg pos b c).conn c).send.throwSendMsgCount = 0 ∧
      ((s.takeSendMsg pos b c).conn c).epoll = (s.conn c).epoll ∧
      ((s.takeSendMsg pos b c).conn c).send.sendMsgLen = len := by
    refine ⟨?_, takeSendMsg_field Connection.epoll (fun _ _ _ => rfl) c, ?_⟩
    · rw [takeSendMsg_send]
      exact hzero
    · rw [takeSendMsg_send]
  obtain ⟨hthrow, hepoll, hsendLen⟩ := htake
  rcases startSend_cases h with ⟨hends, rfl⟩ | ⟨n, hret, -, hn, rfl⟩ | ⟨hret, rfl⟩
  · refine hs.answer_step rfl hmark (Or.inl hthrow) (fun hc => ?_) fun hc => ?_
    · simpa [Armed, hthrow, hepoll] using hdown hc
    · rw [hsendLen] at hends
      rcases hends with hret | hret | hret | hret
      · simp [hret, SendRet.leavesRest, hthrow]
      · rw [hret] at hlegal
        exact absurd hlegal.1 (by norm_num)
      · simpa [hret, SendRet.leavesRest, hthrow] using hold hc
      · simpa [hret, SendRet.leavesRest, hthrow] using hold hc
  · rw [hsendLen] at hn
    refine hs.answer_step rfl hmark ?_ (fun hc => ?_) fun hc => ?_
    · simp [Connection.suspend, hthrow]
    · simp [Armed, Connection.suspend, hthrow, has_armed]
    · simp [hret, SendRet.leavesRest, hn, Connection.suspend, hthrow]
  · refine hs.answer_step rfl hmark ?_ (fun hc => ?_) fun hc => ?_
    · simp [Connection.suspend, hthrow]
    · simp [Armed, Connection.suspend, hthrow, has_armed]
    · simp [hret, SendRet.leavesRest, Connection.suspend, hthrow]

/-- Nothing but closing changes the flag of an open connection outside the sending functions. -/
theorem FlagMove.of_open {n : ℤ} (h : FlagMove s e c n) (hk : s.KeepsFlag e)
    (hclose : s.closes e ≠ some c) :
    n = (s.conn c).send.throwSendMsgCount ∨ c ∉ s.pool.clients := by
  cases h with
  | close hc => exact absurd hc hclose
  | recycle hc =>
    by_cases hopen : c ∈ s.pool.clients
    · exact Or.inl (by rw [hk.1 c hc hopen]; rfl)
    · exact Or.inr hopen
  | clear => exact Or.inl rfl
  | outError he =>
    subst he
    exact Or.inr hk.2.1

theorem FlagAt.accept_step {fd : ℕ} {now : ℤ} {b : Bool} (hs : s.FlagAt marks c)
    (hfront : s.pool.front ∉ s.pool.clients) :
    ({ s.admitted fd now with iIsAccept4 := b } : Server).FlagAt marks c := by
  by_cases hc : c = s.pool.front
  · subst hc
    have hflag : ((s.admitted fd now).conn s.pool.front).send.throwSendMsgCount = 0 := by
      simp [admitted, Connection.installed, Connection.getOneToUse]
    refine ⟨Or.inl hflag, fun _ => ?_, fun _ => ?_, fun _ => hs.closed hfront⟩
    · simp [Armed, admitted, Connection.installed, Connection.getOneToUse, has, epollIn,
        epollRdhup, epollOut]
    · rw [show _ = _ from hflag]
      simpa using hs.closed hfront
  · refine hs.frame ?_ ?_ ?_ Iff.rfl
    · simp [admitted, hc]
    · simp [admitted, hc]
    · simp [admitted, hc]

theorem FlagAt.iterate_step {env : SendEnv} (hs : s.FlagAt marks c)
    (he : s.Enabled (.iterate env)) (hstart : s.starts (.iterate env) = some c)
    (h : s.next (.iterate env) = some t) :
    t.FlagAt (s.sendMarks (.iterate env) ++ marks) c := by
  simp only [next] at h
  split at h
  · rename_i pos hsender
    rcases iterate_cases h with ⟨hnone, -⟩ | ⟨b, hb, ⟨hne, -⟩ | ⟨-, hpos, -⟩ | ⟨hseq, hthrow, ht⟩⟩
    · simp [starts, hsender, hnone] at hstart
    · simp [starts, hsender, hb, hne] at hstart
    · simp [starts, hsender, hb, not_le.mpr hpos] at hstart
    · have hc : (s.sendHeader b).pConn = c := by
        simpa [starts, hsender, hb, hseq, hthrow] using hstart
      subst hc
      have hlegal : env.ret.Legal s (s.sendHeader b).pConn
          (u16 (pkgLength (s.sendQueue.mem.buffer b).pkg)) := by
        simpa [Enabled, hsender, IterLegal, hb] using he
      exact hs.start_step hsender hb hstart hthrow hlegal ht
  · simp [starts] at hstart

theorem step_flagAt (hs : s.FlagInv marks) (he : s.Enabled e) (hk : s.KeepsFlag e)
    (h : s.next e = some t) (d : ConnId) : t.FlagAt (s.sendMarks e ++ marks) d := by
  have hd := hs.flag d
  by_cases hclose : s.closes e = some d
  · -- a closed connection is not open any more, and its flag is down
    have hgone : d ∉ t.pool.clients := by
      rcases step_pool h with ⟨hcl, -⟩ | ⟨env, rfl, -⟩ | ⟨c, hc, heq⟩ | ⟨c, hcl, -, -⟩
      · simp [hclose] at hcl
      · cases hclose
      · obtain rfl := Option.some.inj (hclose.symm.trans hc)
        rw [heq]
        exact hs.nodup.not_mem_erase
      · simp [hclose] at hcl
    refine ⟨?_, fun hc => absurd hc hgone, fun hc => absurd hc hgone,
      fun _ => unfinished_closes hclose⟩
    cases step_sendMove h d with
    | same hsend =>
      rw [hsend]
      exact hd.range
    | flag n hn hsend =>
      rw [hsend]
      exact hn.range hd hk
    | accept env he => simp [he, closes] at hclose
    | write env he => simp [he, closes] at hclose
    | start hstart =>
      cases e with
      | iterate env => cases hclose
      | _ => cases hstart
  by_cases hw : ∃ env, e = .write d env
  · obtain ⟨env, rfl⟩ := hw
    exact hd.write_step he.2.1 he.2.2 hk h
  by_cases hstart : s.starts e = some d
  · cases e with
    | iterate env => exact hd.iterate_step he hstart h
    | _ => cases hstart
  have hmarks := unfinished_other marks hclose (fun env he => hw ⟨env, he⟩) hstart
  by_cases hacc : ∃ env, e = .accept env
  · obtain ⟨env, rfl⟩ := hacc
    rcases accept_cases h with ⟨b, calls, rfl, -⟩ | ⟨fd, b, -, rfl⟩
    · exact hd.frame rfl rfl Iff.rfl hmarks
    · exact (hd.accept_step hk.2).frame rfl rfl Iff.rfl hmarks
  have hclients : d ∈ t.pool.clients ↔ d ∈ s.pool.clients := by
    rcases step_pool h with ⟨-, heq⟩ | ⟨env, he, -⟩ | ⟨c, hc, heq⟩ | ⟨c, -, -, heq⟩
    · rw [heq]
    · exact absurd ⟨env, he⟩ hacc
    · rw [heq]
      refine List.mem_erase_of_ne ?_
      rintro rfl
      exact hclose hc
    · rw [heq]
      rfl
  cases step_sendMove h d with
  | same hsend hepoll => exact hd.frame (by rw [hsend]) hepoll hclients hmarks
  | flag n hn hsend hepoll =>
    rcases hn.of_open hk hclose with rfl | hopen
    · exact hd.frame (by rw [hsend]) hepoll hclients hmarks
    · refine ⟨?_, fun hc => absurd (hclients.mp hc) hopen,
        fun hc => absurd (hclients.mp hc) hopen, fun _ => ?_⟩
      · rw [hsend]
        exact hn.range hd hk
      · rw [hmarks]
        exact hd.closed hopen
  | accept env he => exact absurd ⟨env, he⟩ hacc
  | write env he => exact absurd ⟨env, he⟩ hw
  | start hc => exact absurd hc hstart

theorem step_flagInv (hs : s.FlagInv marks) (he : s.Enabled e) (hk : s.KeepsFlag e)
    (h : s.next e = some t) : t.FlagInv (s.sendMarks e ++ marks) := by
  refine ⟨?_, step_flagAt hs he hk h⟩
  rcases step_pool h with ⟨-, heq⟩ | ⟨env, rfl, heq⟩ | ⟨c, -, heq⟩ | ⟨c, -, -, heq⟩
  all_goals rw [heq]
  · exact hs.nodup
  · exact List.nodup_cons.mpr ⟨hk.2, hs.nodup⟩
  · exact hs.nodup.erase c
  · exact hs.nodup

theorem flagInv_boot (h : s.Booted) : s.FlagInv [] := by
  have hflag : ∀ c, (s.conn c).send.throwSendMsgCount = 0 := by
    refine h.induction (P := fun s => ∀ c, (s.conn c).send.throwSendMsgCount = 0)
      (fun cfg now _ _ _ c => ?_) fun s fd now hs c => ?_
    · simp only [init]
      split <;> rfl
    · by_cases hc : c = s.pool.front
      · simp [addListenSocket, getConnection, epollRegisterEvent, hc, Connection.getOneToUse]
      · simp [addListenSocket, getConnection, epollRegisterEvent, hc, hs c]
  have hclients := clients_boot h
  refine ⟨by simp [hclients], fun c => ⟨Or.inl (hflag c), fun hc => ?_, fun hc => ?_,
    fun _ => by simp [Unfinished]⟩⟩ <;> simp [hclients] at hc

/-- The flag is exact along a run that lowers it for finished messages only. -/
theorem sendFlag_exact {es : List Event}
    (h : ((process.restrict KeepsFlag).record sendMarks).Run es (s, marks)) :
    s.FlagExact marks := by
  have hrec : ∀ es p, ((process.restrict KeepsFlag).record sendMarks).Run es p →
      p.1.FlagInv p.2 := by
    intro es p hrun
    induction hrun with
    | start hb =>
      rw [hb.2]
      exact flagInv_boot hb.1
    | step _ hstep ih =>
      obtain ⟨⟨hk, he, ht⟩, hmarks⟩ := hstep
      rw [hmarks]
      exact step_flagInv ih he hk ht
  exact (hrec es (s, marks) h).exact

instance (s : Server) : (e : Event) → Decidable (s.KeepsFlag e)
  | .accept _ => inferInstanceAs (Decidable (_ ∧ ¬ _))
  | .outError _ => inferInstanceAs (Decidable (_ ∧ ¬ _ ∧ _))
  | .write _ _ => inferInstanceAs (Decidable (_ ∧ (_ → ¬ _ → _)))
  | .read _ _ | .take | .handle _ _ | .push _ _ | .release _ | .semWait | .semIntr | .sizeTest
  | .iterate _ | .close _ _ | .recycle _ | .clear | .monitor _ =>
    inferInstanceAs (Decidable (_ ∧ True))

/-- The rest of a suspended reply is sent: the flag is down again. -/
theorem sendFlag_exact_two_parts : ∃ s : Server, s.FlagExact [(1, false), (1, true)] ∧
    (s.conn 1).send.throwSendMsgCount = 0 := by
  obtain ⟨⟨s, marks⟩, hrun, hs⟩ := process_record_of_play KeepsFlag sendMarks smallConfig
    (suspendedReply ++ [.write 1 ⟨0, .accepted 5, true⟩])
    (fun p => (p.2, (p.1.conn 1).send.throwSendMsgCount)) ([(1, false), (1, true)], 0) (by decide)
  obtain ⟨rfl, hflag⟩ := Prod.mk.inj hs
  exact ⟨s, sendFlag_exact hrun, hflag⟩

/-- The peer shuts down its sending half while the reply is suspended: the event lowers the flag of
an open connection with an unfinished message. -/
theorem sendFlag_lowered_by_event : ¬ ∀ es s marks,
    (process.record sendMarks).Run es (s, marks) → s.FlagExact marks := by
  intro hall
  obtain ⟨⟨s, marks⟩, hrun, hs⟩ := process_record_of_play (fun _ _ => True) sendMarks smallConfig
    (suspendedReply ++ [.read 1 { HandlerEnv.idle with recv := .data [0] }, .outError 1])
    (fun p => (p.2, p.1.pool.clients, (p.1.conn 1).send.throwSendMsgCount)) ([(1, true)], [1], 0)
    (by decide)
  obtain ⟨rfl, hs⟩ := Prod.mk.inj hs
  obtain ⟨hclients, hflag⟩ := Prod.mk.inj hs
  have hexact := (hall _ s _ hrun.of_restrict_record).exact 1 (by simp_all)
  have hdown : (s.conn 1).send.throwSendMsgCount = 0 := hflag
  simp [hdown, Unfinished] at hexact

end Server
end XiaoHGServer
