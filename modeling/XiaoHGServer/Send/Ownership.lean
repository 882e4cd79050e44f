import XiaoHGServer.Library.Places
import XiaoHGServer.Send.Moves

/-!
# The owner of a send buffer

A reply is composed in a worker's buffer, pushed to the send list, taken by the
sender thread and freed there, unless its rest is suspended: then the connection
keeps it until the write handler has sent it or the recycler frees it. The code
has no other mark of a suspended message than `EPOLLOUT` in `epollEvents`, since
`pSendMsgMemPointer` is never cleared.
-/

namespace XiaoHGServer

inductive SendPlace
  | fresh
  | reply
  | list
  | conn (c : ConnId)
  | released
  deriving DecidableEq

/-- Who owns a send buffer that has been accepted and not released. -/
inductive SendOwner
  | conn (c : ConnId)
  | list (i : ℕ)

/-- What custody of send buffers depends on in a connection. -/
def Connection.sendView (k : Connection) : Option BufId × BitVec 32 :=
  (k.send.pSendMsgMemPointer, k.epoll.epollEvents)

namespace Server

variable {s t : Server} {c : ConnId} {b : BufId} {now : ℤ} {e : Event}

/-- The connection points to `b`, whose rest waits for `EPOLLOUT`, or the list holds `b` at
position `i`. -/
def OwnsSend (s : Server) : SendOwner → BufId → Prop
  | .conn c, b => (s.conn c).send.pSendMsgMemPointer = some b ∧ s.Armed c
  | .list i, b => s.sendQueue.sendMsgList[i]? = some b

/-- Each of the accepted buffers has exactly one owner until it is released, and none is released
twice. -/
structure SendOwned (s : Server) (accepted : List BufId) : Prop where
  owner : ∀ b ∈ accepted, b ∉ s.sendQueue.mem.released → ∃! o, s.OwnsSend o b
  once : ∀ b ∈ accepted, s.sendQueue.mem.released.count b ≤ 1

/-- The buffer that a step pushes within both limits. -/
def accepts (s : Server) : Event → List BufId
  | .push i _ =>
    match s.stage i with
    | some (.reply b) => if s.WithinLimits b then [b] else []
    | _ => []
  | _ => []

/-- A recycled connection has no send buffer or a suspended one and is not idle already; no message
is started while one is suspended; and no message starts or ends through an idle object. -/
def ReclaimsOwnSend (s : Server) (e : Event) : Prop :=
  (∀ c ∈ s.recycles e, c ∉ s.pool.freeConnectionList ∧
    ((s.conn c).send.pSendMsgMemPointer = none ∨ s.Armed c)) ∧
  (∀ c ∈ s.starts e, c ∉ s.pool.freeConnectionList ∧ ¬ s.Armed c) ∧
  match e with
  | .write c env =>
    env.ret = .accepted (s.conn c).send.sendMsgLen → c ∉ s.pool.freeConnectionList
  | _ => True

def replyOf (w : Worker) : Option BufId :=
  match w.stage with
  | .reply b => some b
  | _ => none

def replies (s : Server) : List BufId := s.workers.filterMap replyOf

/-- The lists and pointers of the process hold the buffers that `place` puts there; a pointer that
holds no buffer dangles. -/
structure SendCustody (s : Server) (place : BufId → SendPlace) : Prop where
  fresh : Unborn place .fresh s.sendQueue.mem.next
  reply : Holds place .reply s.replies
  list : Holds place .list s.sendQueue.sendMsgList
  conn : ∀ c b, place b = .conn c ↔
    (s.conn c).send.pSendMsgMemPointer = some b ∧ s.Armed c ∧ c ∉ s.pool.freeConnectionList
  pointer : ∀ c b, (s.conn c).send.pSendMsgMemPointer = some b →
    place b = .conn c ∨ place b = .released

/-- How often buffers have been released, given which were accepted. -/
structure Released (s : Server) (place : BufId → SendPlace) (accepted : List BufId) : Prop where
  before : ∀ b, place b = .fresh ∨ place b = .reply → s.sendQueue.mem.released.count b = 0
  accepted : ∀ b ∈ accepted, place b ≠ .fresh ∧ place b ≠ .reply ∧
    s.sendQueue.mem.released.count b = if place b = .released then 1 else 0

variable {place : BufId → SendPlace} {accepted : List BufId}

theorem SendCustody.owned (h : s.SendCustody place) (hr : s.Released place accepted) :
    s.SendOwned accepted where
  owner b hb hrel := by
    obtain ⟨hf, hy, hcount⟩ := hr.accepted b hb
    have hnr : place b ≠ .released := by
      intro hp
      rw [hp, if_pos rfl] at hcount
      exact hrel (List.count_pos_iff.mp (by omega))
    have of_conn {c : ConnId} (ho : s.OwnsSend (.conn c) b) : place b = .conn c :=
      (h.pointer c b ho.1).resolve_right hnr
    have of_list {i : ℕ} (ho : s.OwnsSend (.list i) b) : place b = .list :=
      h.list.place_eq (List.mem_of_getElem? ho)
    cases hp : place b with
    | fresh => exact absurd hp hf
    | reply => exact absurd hp hy
    | list =>
      obtain ⟨i, hi⟩ := List.mem_iff_getElem?.mp (h.list.mem_iff.mpr hp)
      refine ⟨.list i, hi, fun o ho => ?_⟩
      cases o with
      | conn c => cases hp.symm.trans (of_conn ho)
      | list j => rw [h.list.index_unique hi ho]
    | conn c =>
      obtain ⟨hptr, harmed, -⟩ := (h.conn c b).mp hp
      refine ⟨.conn c, ⟨hptr, harmed⟩, fun o ho => ?_⟩
      cases o with
      | conn d => rw [SendPlace.conn.inj (hp.symm.trans (of_conn ho))]
      | list j => cases hp.symm.trans (of_list ho)
    | released => exact absurd hp hnr
  once b hb := by
    rw [(hr.accepted b hb).2.2]
    split <;> simp

theorem sendView_eq (h : ∀ c, (t.conn c).sendView = (s.conn c).sendView) :
    (∀ c, (t.conn c).send.pSendMsgMemPointer = (s.conn c).send.pSendMsgMemPointer) ∧
      ∀ c, t.Armed c ↔ s.Armed c := by
  refine ⟨fun c => congrArg Prod.fst (h c), fun c => ?_⟩
  have hevents : (t.conn c).epoll.epollEvents = (s.conn c).epoll.epollEvents :=
    congrArg Prod.snd (h c)
  rw [Armed, Armed, hevents]

/-- The connection keeps `b` until epoll reports it writable. -/
def Suspends (s : Server) (c : ConnId) (b : BufId) : Prop :=
  (s.conn c).send.pSendMsgMemPointer = some b ∧ s.Armed c ∧ c ∉ s.pool.freeConnectionList

theorem SendCustody.same (h : s.SendCustody place)
    (hnext : t.sendQueue.mem.next = s.sendQueue.mem.next) (hreply : t.replies = s.replies)
    (hlist : t.sendQueue.sendMsgList = s.sendQueue.sendMsgList)
    (hsusp : ∀ c b, t.Suspends c b ↔ s.Suspends c b)
    (hptr : ∀ c b, (t.conn c).send.pSendMsgMemPointer = some b →
      (s.conn c).send.pSendMsgMemPointer = some b) : t.SendCustody place where
  fresh := by rw [hnext]; exact h.fresh
  reply := by rw [hreply]; exact h.reply
  list := by rw [hlist]; exact h.list
  conn c b := by
    rw [h.conn]
    exact (hsusp c b).symm
  pointer c b hb := h.pointer c b (hptr c b hb)

theorem SendCustody.frame (h : s.SendCustody place)
    (hnext : t.sendQueue.mem.next = s.sendQueue.mem.next) (hreply : t.replies = s.replies)
    (hlist : t.sendQueue.sendMsgList = s.sendQueue.sendMsgList)
    (hview : ∀ c, (t.conn c).sendView = (s.conn c).sendView)
    (hfree : t.pool.freeConnectionList = s.pool.freeConnectionList) : t.SendCustody place := by
  obtain ⟨hptr, harmed⟩ := sendView_eq hview
  exact h.same hnext hreply hlist (fun c b => by rw [Suspends, Suspends, hptr, harmed, hfree])
    fun c b hb => by rwa [hptr] at hb

theorem Released.same (h : s.Released place accepted)
    (hrel : t.sendQueue.mem.released = s.sendQueue.mem.released) : t.Released place accepted := by
  constructor <;> rw [hrel]
  exacts [h.before, h.accepted]

theorem Released.move {p : SendPlace} (h : s.Released place accepted)
    (hrel : t.sendQueue.mem.released = s.sendQueue.mem.released)
    (hp : p = .reply → place b = .fresh) (hpf : p ≠ .fresh) (hpr : p ≠ .released)
    (hb : place b ≠ .released) (hacc : b ∈ accepted → p ≠ .reply) :
    t.Released (Function.update place b p) accepted := by
  constructor
  · intro u hu
    rw [hrel]
    by_cases hub : u = b
    · subst hub
      simp only [Function.update_self] at hu
      exact h.before u (Or.inl (hp (hu.resolve_left hpf)))
    · rw [Function.update_of_ne hub] at hu
      exact h.before u hu
  · intro u hu
    rw [hrel]
    by_cases hub : u = b
    · subst hub
      simpa [hpf, hpr, hb, hacc hu] using (h.accepted u hu).2.2
    · rw [Function.update_of_ne hub]
      exact h.accepted u hu

theorem Released.free (h : s.Released place accepted)
    (hrel : t.sendQueue.mem.released = b :: s.sendQueue.mem.released)
    (hb : place b ≠ .released) :
    t.Released (Function.update place b .released) accepted := by
  constructor
  · intro u hu
    rw [hrel]
    by_cases hub : u = b
    · subst hub
      simp at hu
    · rw [Function.update_of_ne hub] at hu
      rw [List.count_cons_of_ne (Ne.symm hub)]
      exact h.before u hu
  · intro u hu
    rw [hrel]
    by_cases hub : u = b
    · subst hub
      have := (h.accepted u hu).2.2
      rw [if_neg hb] at this
      simp [this]
    · rw [Function.update_of_ne hub, List.count_cons_of_ne (Ne.symm hub)]
      exact h.accepted u hu

namespace SendCustody

theorem ne_conn (h : s.SendCustody place) (hc : ¬ s.Armed c ∨ c ∈ s.pool.freeConnectionList)
    (u : BufId) : place u ≠ .conn c := by
  intro hu
  obtain ⟨-, harmed, hfree⟩ := (h.conn c u).mp hu
  exact hc.elim (fun hna => hna harmed) hfree

theorem compose_step {i : ℕ} {w : Worker} (h : s.SendCustody place) (hw : s.workers[i]? = some w)
    (hstage : w.stage = .taken)
    (hnext : t.sendQueue.mem.next = s.sendQueue.mem.next + 1)
    (hworkers : t.workers = s.workers.modify i fun w =>
      { w with stage := .reply s.sendQueue.mem.next })
    (hlist : t.sendQueue.sendMsgList = s.sendQueue.sendMsgList)
    (hview : ∀ c, (t.conn c).sendView = (s.conn c).sendView)
    (hfree : t.pool.freeConnectionList = s.pool.freeConnectionList) :
    t.SendCustody (Function.update place s.sendQueue.mem.next .reply) := by
  have hnew := h.fresh.next
  obtain ⟨hptr, harmed⟩ := sendView_eq hview
  refine ⟨?_, ?_, ?_, fun c u => ?_, fun c u hu => ?_⟩
  · rw [hnext]
    exact h.fresh.create (by simp)
  · refine (h.reply.cons (t := s.sendQueue.mem.next) (by simp [hnew])).perm ?_
    rw [replies, hworkers]
    exact filterMap_modify_new hw (by simp [replyOf, hstage]) (by simp [replyOf])
  · rw [hlist]
    exact h.list.other (by simp [hnew]) (by simp)
  · rw [update_place_iff (by simp [hnew]) (by simp), hptr, harmed, hfree, h.conn]
  · rw [hptr] at hu
    rw [update_place_iff (by simp [hnew]) (by simp), update_place_iff (by simp [hnew]) (by simp)]
    exact h.pointer c u hu

theorem push_step {i : ℕ} {w : Worker} (h : s.SendCustody place) (hw : s.workers[i]? = some w)
    (hstage : w.stage = .reply b)
    (hnext : t.sendQueue.mem.next = s.sendQueue.mem.next)
    (hworkers : t.workers = s.workers.modify i fun w => { w with stage := .handled })
    (hlist : t.sendQueue.sendMsgList = s.sendQueue.sendMsgList ++ [b])
    (hview : ∀ c, (t.conn c).sendView = (s.conn c).sendView)
    (hfree : t.pool.freeConnectionList = s.pool.freeConnectionList) :
    place b = .reply ∧ t.SendCustody (Function.update place b .list) := by
  obtain ⟨hptr, harmed⟩ := sendView_eq hview
  have hp : place b = .reply :=
    h.reply.place_eq
      (List.mem_filterMap.mpr ⟨w, List.mem_of_getElem? hw, by simp [replyOf, hstage]⟩)
  have hgone : s.replies.Perm (b :: t.replies) := by
    rw [replies, replies, hworkers]
    exact filterMap_modify_gone hw (by simp [replyOf, hstage]) (by simp [replyOf])
  refine ⟨hp, ?_, ?_, ?_, fun c u => ?_, fun c u hu => ?_⟩
  · rw [hnext]
    exact h.fresh.move (by simp [hp]) (by simp)
  · exact (h.reply.perm hgone.symm).tail (by simp)
  · rw [hlist]
    exact h.list.append (by simp [hp])
  · rw [update_place_iff (by simp [hp]) (by simp), hptr, harmed, hfree, h.conn]
  · rw [hptr] at hu
    rw [update_place_iff (by simp [hp]) (by simp), update_place_iff (by simp [hp]) (by simp)]
    exact h.pointer c u hu

/-- A message leaves the list and is freed, stale or after its start; `ptr` says which pointers
still show it. -/
theorem drop_step {pos : ℕ} (h : s.SendCustody place)
    (hb : s.sendQueue.sendMsgList[pos]? = some b)
    (hnext : t.sendQueue.mem.next = s.sendQueue.mem.next) (hreply : t.replies = s.replies)
    (hlist : t.sendQueue.sendMsgList = s.sendQueue.sendMsgList.eraseIdx pos)
    (hptr : ∀ c, (t.conn c).send.pSendMsgMemPointer = (s.conn c).send.pSendMsgMemPointer ∨
      (t.conn c).send.pSendMsgMemPointer = some b ∧ ¬ s.Armed c)
    (harmed : ∀ c, t.Armed c ↔ s.Armed c)
    (hfree : t.pool.freeConnectionList = s.pool.freeConnectionList) :
    place b = .list ∧ t.SendCustody (Function.update place b .released) := by
  have hp : place b = .list := h.list.place_eq (List.mem_of_getElem? hb)
  refine ⟨hp, ?_, ?_, ?_, fun c u => ?_, fun c u hu => ?_⟩
  · rw [hnext]
    exact h.fresh.move (by simp [hp]) (by simp)
  · rw [hreply]
    exact h.reply.other (by simp [hp]) (by simp)
  · rw [hlist]
    exact h.list.eraseIdx hb (by simp)
  · rw [update_place_iff (by simp [hp]) (by simp), harmed, hfree]
    rcases hptr c with heq | ⟨-, hna⟩
    · rw [heq, h.conn]
    · exact ⟨fun hu => absurd hu (h.ne_conn (Or.inl hna) u), fun hu => absurd hu.2.1 hna⟩
  · by_cases hub : u = b
    · exact Or.inr (by simp [hub])
    · rw [Function.update_of_ne hub]
      rcases hptr c with heq | ⟨heq, -⟩
      · exact h.pointer c u (heq ▸ hu)
      · rw [heq] at hu
        exact absurd (Option.some.inj hu).symm hub

theorem suspend_step {pos : ℕ} (h : s.SendCustody place)
    (hb : s.sendQueue.sendMsgList[pos]? = some b)
    (hnext : t.sendQueue.mem.next = s.sendQueue.mem.next) (hreply : t.replies = s.replies)
    (hlist : t.sendQueue.sendMsgList = s.sendQueue.sendMsgList.eraseIdx pos)
    (hna : ¬ s.Armed c) (hc : c ∉ s.pool.freeConnectionList)
    (hself : (t.conn c).send.pSendMsgMemPointer = some b ∧ t.Armed c)
    (hother : ∀ d, d ≠ c → t.conn d = s.conn d)
    (hfree : t.pool.freeConnectionList = s.pool.freeConnectionList) :
    place b = .list ∧ t.SendCustody (Function.update place b (.conn c)) := by
  have hp : place b = .list := h.list.place_eq (List.mem_of_getElem? hb)
  refine ⟨hp, ?_, ?_, ?_, fun d u => ?_, fun d u hu => ?_⟩
  · rw [hnext]
    exact h.fresh.move (by simp [hp]) (by simp)
  · rw [hreply]
    exact h.reply.other (by simp [hp]) (by simp)
  · rw [hlist]
    exact h.list.eraseIdx hb (by simp)
  · rw [hfree]
    by_cases hd : d = c
    · subst hd
      rw [hself.1]
      by_cases hub : u = b
      · simp [hub, hself.2, hc]
      · simp only [Function.update_of_ne hub, Option.some.injEq]
        exact ⟨fun hu => absurd hu (h.ne_conn (Or.inl hna) u), fun hu => absurd hu.1.symm hub⟩
    · have hpc : SendPlace.conn c ≠ .conn d := fun heq => hd (SendPlace.conn.inj heq).symm
      rw [update_place_iff (by simp [hp]) hpc, Armed, hother d hd]
      exact h.conn d u
  · by_cases hd : d = c
    · subst hd
      rw [hself.1] at hu
      exact Or.inl (by simp [Option.some.inj hu])
    · rw [hother d hd] at hu
      by_cases hub : u = b
      · subst hub
        rcases h.pointer d u hu with hu' | hu' <;> cases hp.symm.trans hu'
      · rw [Function.update_of_ne hub]
        exact h.pointer d u hu

theorem release_step (h : s.SendCustody place) (hb : place b = .conn c)
    (hnext : t.sendQueue.mem.next = s.sendQueue.mem.next) (hreply : t.replies = s.replies)
    (hlist : t.sendQueue.sendMsgList = s.sendQueue.sendMsgList)
    (hptr : ∀ d, (t.conn d).send.pSendMsgMemPointer = (s.conn d).send.pSendMsgMemPointer)
    (hself : ¬ t.Armed c ∨ c ∈ t.pool.freeConnectionList)
    (hother : ∀ d, d ≠ c → ((t.Armed d ∧ d ∉ t.pool.freeConnectionList) ↔
      (s.Armed d ∧ d ∉ s.pool.freeConnectionList))) :
    t.SendCustody (Function.update place b .released) := by
  refine ⟨?_, ?_, ?_, fun d u => ?_, fun d u hu => ?_⟩
  · rw [hnext]
    exact h.fresh.move (by simp [hb]) (by simp)
  · rw [hreply]
    exact h.reply.other (by simp [hb]) (by simp)
  · rw [hlist]
    exact h.list.other (by simp [hb]) (by simp)
  · by_cases hd : d = c
    · subst hd
      have hno : ¬ (t.Armed d ∧ d ∉ t.pool.freeConnectionList) := fun hh =>
        hself.elim (fun hna => hna hh.1) hh.2
      refine ⟨fun hu => ?_, fun hu => absurd hu.2 hno⟩
      by_cases hub : u = b
      · simp [hub] at hu
      · rw [Function.update_of_ne hub] at hu
        have h₁ := ((h.conn d u).mp hu).1
        rw [((h.conn d b).mp hb).1] at h₁
        exact absurd (Option.some.inj h₁).symm hub
    · have hbd : place b ≠ .conn d := fun heq => hd (SendPlace.conn.inj (heq.symm.trans hb))
      rw [update_place_iff hbd (by simp), hptr, hother d hd, h.conn]
  · rw [hptr] at hu
    by_cases hub : u = b
    · exact Or.inr (by simp [hub])
    · rw [Function.update_of_ne hub]
      exact h.pointer d u hu

end SendCustody

/-- The buffers of the send side are in custody, and those accepted are released at most once. -/
def SendInv (s : Server) (accepted : List BufId) : Prop :=
  ∃ place, s.SendCustody place ∧ s.Released place accepted

theorem SendInv.frame (h : s.SendInv accepted) (hmem : t.sendQueue.mem = s.sendQueue.mem)
    (hreply : t.replies = s.replies) (hlist : t.sendQueue.sendMsgList = s.sendQueue.sendMsgList)
    (hview : ∀ c, (t.conn c).sendView = (s.conn c).sendView)
    (hfree : t.pool.freeConnectionList = s.pool.freeConnectionList) : t.SendInv accepted := by
  obtain ⟨place, hc, hr⟩ := h
  exact ⟨place, hc.frame (by rw [hmem]) hreply hlist hview hfree, hr.same (by rw [hmem])⟩

theorem SendInv.start {pos : ℕ} {env : SendEnv} (h : s.SendInv accepted)
    (hb : s.sendQueue.sendMsgList[pos]? = some b) (hc : c ∉ s.pool.freeConnectionList)
    (hna : ¬ s.Armed c) (ht : (s.takeSendMsg pos b c).startSend c env = some t) :
    t.SendInv accepted := by
  obtain ⟨place, hcust, hrel⟩ := h
  have hself : ((s.takeSendMsg pos b c).conn c).send.pSendMsgMemPointer = some b := by
    rw [takeSendMsg_send]
  have hother : ∀ d, d ≠ c → (s.takeSendMsg pos b c).conn d = s.conn d := fun d hd =>
    takeSendMsg_conn_ne hd
  have harmed : ∀ d, (s.takeSendMsg pos b c).Armed d ↔ s.Armed d := by
    intro d
    rw [Armed, Armed, takeSendMsg_field Connection.epoll fun _ _ _ => rfl]
  have suspended {k : Connection} (hk : k.send.pSendMsgMemPointer = some b)
      (hka : has k.epoll.epollEvents epollOut = true)
      (htk : t = { s.takeSendMsg pos b c with
        kernel := (s.takeSendMsg pos b c).sentKernel c env
        conn := Function.update (s.takeSendMsg pos b c).conn c k }) : t.SendInv accepted := by
    subst htk
    obtain ⟨hp, hcust'⟩ := hcust.suspend_step (c := c)
      (t := { s.takeSendMsg pos b c with
        kernel := (s.takeSendMsg pos b c).sentKernel c env
        conn := Function.update (s.takeSendMsg pos b c).conn c k })
      hb rfl rfl rfl hna hc (by simp [Armed, hk, hka])
      (fun d hd => by simp [hd, hother d hd]) rfl
    exact ⟨_, hcust', hrel.move rfl (by simp) (by simp) (by simp) (by simp [hp]) (by simp)⟩
  rcases startSend_cases ht with ⟨-, rfl⟩ | ⟨n, -, -, -, htk⟩ | ⟨-, htk⟩
  · have hptr (d : ConnId) : ((s.takeSendMsg pos b c).conn d).send.pSendMsgMemPointer =
          (s.conn d).send.pSendMsgMemPointer ∨
        ((s.takeSendMsg pos b c).conn d).send.pSendMsgMemPointer = some b ∧ ¬ s.Armed d := by
      by_cases hd : d = c
      · subst hd
        exact Or.inr ⟨hself, hna⟩
      · exact Or.inl (by rw [hother d hd])
    obtain ⟨hp, hcust'⟩ := hcust.drop_step
      (t := { s.takeSendMsg pos b c with
        kernel := (s.takeSendMsg pos b c).sentKernel c env
        sendQueue := { (s.takeSendMsg pos b c).sendQueue with
          mem := (s.takeSendMsg pos b c).sendQueue.mem.freeMemory
            ((s.takeSendMsg pos b c).conn c).send.pSendMsgMemPointer } })
      hb (by simp [takeSendMsg, eraseSendMsg]) rfl rfl hptr harmed rfl
    exact ⟨_, hcust', hrel.free (by simp [takeSendMsg, eraseSendMsg]) (by simp [hp])⟩
  · exact suspended (by simp [Connection.suspend, SendState.advance, hself])
      (by simp [Connection.suspend, has_armed]) htk
  · exact suspended (by simp [Connection.suspend, hself])
      (by simp [Connection.suspend, has_armed]) htk

theorem SendInv.iterate_step {pos : ℕ} {env : SendEnv} (h : s.SendInv accepted)
    (hsender : s.sender = .pass pos)
    (hstart : ∀ c ∈ s.starts (.iterate env), c ∉ s.pool.freeConnectionList ∧ ¬ s.Armed c)
    (ht : s.sendMsgThreadIter pos env = some t) : t.SendInv accepted := by
  rcases iterate_cases ht with ⟨-, rfl⟩ | ⟨b, hb, ⟨-, rfl⟩ | ⟨-, -, rfl⟩ | ⟨hseq, hthrow, hs⟩⟩
  · exact h.frame rfl rfl rfl (fun _ => rfl) rfl
  · obtain ⟨place, hcust, hrel⟩ := h
    obtain ⟨hp, hcust'⟩ := hcust.drop_step (t := (s.eraseSendMsg pos).freeSendMsg (some b)) hb
      rfl rfl rfl (fun d => Or.inl rfl) (fun d => Iff.rfl) rfl
    exact ⟨_, hcust', hrel.free rfl (by simp [hp])⟩
  · exact h.frame rfl rfl rfl (fun _ => rfl) rfl
  · have hc : s.starts (.iterate env) = some (s.sendHeader b).pConn := by
      simp [starts, hsender, hb, hseq, hthrow]
    obtain ⟨hfree, hna⟩ := hstart _ hc
    exact h.start hb hfree hna hs

theorem SendInv.write_step {env : SendEnv} (h : s.SendInv accepted) (harmed : s.Armed c)
    (hc : env.ret = .accepted (s.conn c).send.sendMsgLen → c ∉ s.pool.freeConnectionList)
    (ht : s.epollEventWriteRequestHandler c env = some t) : t.SendInv accepted := by
  rcases write_cases ht with ⟨n, -, -, -, rfl⟩ | ⟨-, rfl⟩ | ⟨n, hret, -, hn, rfl⟩ | ⟨-, rfl⟩
  · exact h.frame rfl rfl rfl (fun d => update_field Connection.sendView (by rfl) d) rfl
  · exact h.frame rfl rfl rfl (fun _ => rfl) rfl
  · have hfree := hc (by rw [hret, hn])
    obtain ⟨place, hcust, hrel⟩ := h
    set t : Server := { s with
      kernel := s.sentKernel c env
      conn := Function.update s.conn c (s.conn c).complete
      sendQueue := { s.sendQueue with
        mem := s.sendQueue.mem.freeMemory (s.conn c).send.pSendMsgMemPointer
        sendMsgPushEventSem := s.sendQueue.sendMsgPushEventSem + 1 } } with htdef
    have hptr : ∀ d, (t.conn d).send.pSendMsgMemPointer =
        (s.conn d).send.pSendMsgMemPointer := fun d =>
      update_field (fun k => k.send.pSendMsgMemPointer) (by rfl) d
    have hself : ¬ t.Armed c := by
      simp [Armed, htdef, Connection.complete, has_disarmed]
    have hother : ∀ d, d ≠ c → (t.Armed d ↔ s.Armed d) := by
      intro d hd
      simp [Armed, htdef, hd]
    cases hp : (s.conn c).send.pSendMsgMemPointer with
    | none =>
      refine ⟨place, hcust.same (by simp [htdef]) rfl rfl (fun d u => ?_) (fun d u hu => ?_),
        hrel.same (by simp [htdef, hp])⟩
      · rw [Suspends, Suspends, hptr]
        by_cases hd : d = c
        · subst hd
          simp [hp]
        · rw [hother d hd]
      · rwa [hptr] at hu
    | some b =>
      have hplace : place b = .conn c := (hcust.conn c b).mpr ⟨hp, harmed, hfree⟩
      refine ⟨_, hcust.release_step hplace (by simp [htdef]) rfl rfl hptr (Or.inl hself)
        fun d hd => ?_, hrel.free (by simp [htdef, hp]) (by simp [hplace])⟩
      rw [hother d hd]
  · exact h.frame rfl rfl rfl (fun _ => rfl) rfl

theorem SendInv.recycle_step {n : ℤ} (h : s.SendInv accepted)
    (hc : c ∉ s.pool.freeConnectionList)
    (hown : (s.conn c).send.pSendMsgMemPointer = none ∨ s.Armed c) :
    (s.recycled c n).SendInv accepted := by
  obtain ⟨place, hcust, hrel⟩ := h
  have hptr : ∀ d, ((s.recycled c n).conn d).send.pSendMsgMemPointer =
      (s.conn d).send.pSendMsgMemPointer := fun d =>
    update_field (fun k => k.send.pSendMsgMemPointer) (by rfl) d
  have harmed : ∀ d, (s.recycled c n).Armed d ↔ s.Armed d := by
    intro d
    have : ((s.recycled c n).conn d).epoll = (s.conn d).epoll :=
      update_field Connection.epoll (by rfl) d
    rw [Armed, Armed, this]
  have hmem : ∀ d, d ∈ (s.recycled c n).pool.freeConnectionList ↔
      d ∈ s.pool.freeConnectionList ∨ d = c := by
    intro d
    simp [recycled, ConnectionPool.freeConnection, ConnectionPool.takeFromRecyQueue]
  cases hp : (s.conn c).send.pSendMsgMemPointer with
  | none =>
    refine ⟨place, hcust.same (by simp [recycled]) rfl rfl (fun d u => ?_) (fun d u hu => ?_),
      hrel.same (by simp [recycled, hp])⟩
    · rw [Suspends, Suspends, hptr, harmed, hmem]
      by_cases hd : d = c
      · subst hd
        simp [hp]
      · simp [hd]
    · rwa [hptr] at hu
  | some b =>
    have hplace : place b = .conn c :=
      (hcust.conn c b).mpr ⟨hp, hown.resolve_left (by simp [hp]), hc⟩
    refine ⟨_, hcust.release_step hplace (by simp [recycled]) rfl rfl hptr
      (Or.inr ((hmem c).mpr (Or.inr rfl))) fun d hd => ?_,
      hrel.free (by simp [recycled, hp]) (by simp [hplace])⟩
    rw [harmed, hmem]
    simp [hd]

theorem SendInv.accept_step {fd : ℕ} {b : Bool} (h : s.SendInv accepted) (hs : s.Numbered)
    (hout : ∀ c, c ∉ s.pool.connectionList → (s.conn c).send.pSendMsgMemPointer = none) :
    ({ s.admitted fd now with iIsAccept4 := b } : Server).SendInv accepted := by
  obtain ⟨place, hcust, hrel⟩ := h
  have hself : ((s.admitted fd now).conn s.pool.front).send.pSendMsgMemPointer = none := by
    simp [admitted, Connection.installed, Connection.getOneToUse]
  have hother {d : ConnId} (hd : d ≠ s.pool.front) : (s.admitted fd now).conn d = s.conn d := by
    simp [admitted, hd]
  refine ⟨place, hcust.same rfl rfl rfl (fun d u => ?_) (fun d u hu => ?_), hrel.same rfl⟩
  · change (((s.admitted fd now).conn d).send.pSendMsgMemPointer = some u ∧
      has ((s.admitted fd now).conn d).epoll.epollEvents epollOut = true ∧
      d ∉ s.pool.getConnection.freeConnectionList) ↔ s.Suspends d u
    by_cases hd : d = s.pool.front
    · subst hd
      refine ⟨fun hu => by simp [hself] at hu, fun hu => ?_⟩
      have := hout _ (hs.front_cases.resolve_left hu.2.2)
      rw [hu.1] at this
      cases this
    · rw [hother hd, mem_getConnection_free hd]
      rfl
  · change ((s.admitted fd now).conn d).send.pSendMsgMemPointer = some u at hu
    by_cases hd : d = s.pool.front
    · rw [hd, hself] at hu
      cases hu
    · rwa [hother hd] at hu

theorem write_sendPtr {env : SendEnv} (h : s.epollEventWriteRequestHandler c env = some t)
    (d : ConnId) :
    (t.conn d).send.pSendMsgMemPointer = (s.conn d).send.pSendMsgMemPointer := by
  rcases write_cases h with ⟨n, -, -, -, rfl⟩ | ⟨-, rfl⟩ | ⟨n, -, -, -, rfl⟩ | ⟨-, rfl⟩
  · exact update_field (fun k => k.send.pSendMsgMemPointer) (by rfl) d
  · rfl
  · exact update_field (fun k => k.send.pSendMsgMemPointer) (by rfl) d
  · rfl

theorem closeConnectionToRecy_sendView (d : ConnId) :
    ((s.closeConnectionToRecy c now).conn d).sendView = (s.conn d).sendView := by
  rw [closeConnectionToRecy_eq]
  exact update_field Connection.sendView (by rfl) d

theorem SendInv.close_step (h : s.SendInv accepted) (c : ConnId) (now : ℤ) :
    (s.closeConnectionToRecy c now).SendInv accepted := by
  have hsend : (s.closeConnectionToRecy c now).sendQueue = s.sendQueue ∧
      (s.closeConnectionToRecy c now).workers = s.workers := by
    rw [closeConnectionToRecy_eq]
    exact ⟨rfl, rfl⟩
  exact h.frame (by rw [hsend.1]) (by rw [replies, hsend.2]; rfl) (by rw [hsend.1])
    closeConnectionToRecy_sendView (by rw [closeConnectionToRecy_pool, closed_free])

theorem push_sendView {b : BufId} (h : s.pushSendMsgToSendListAndSem b now = some t)
    (d : ConnId) : (t.conn d).sendView = (s.conn d).sendView := by
  obtain ⟨size, discard, mem, k, rfl, -⟩ := push_cases h
  rw [update_field Connection.sendView (by rfl) d, pushBase]
  split
  · exact closeConnectionToRecy_sendView d
  · rfl

/-- Pointer and mask of a connection change in the write handler, at the start of a message and
when it is accepted. -/
theorem step_sendView (h : s.next e = some t) (d : ConnId) :
    (t.conn d).sendView = (s.conn d).sendView ∨ (∃ env, e = .write d env) ∨
      s.starts e = some d ∨ ∃ env, e = .accept env := by
  cases step_sendMove h d with
  | same hsend hepoll => exact Or.inl (by rw [Connection.sendView, hsend, hepoll]; rfl)
  | flag n _ hsend hepoll => exact Or.inl (by rw [Connection.sendView, hsend, hepoll]; rfl)
  | write env he => exact Or.inr (Or.inl ⟨env, he⟩)
  | start hd => exact Or.inr (Or.inr (Or.inl hd))
  | accept env he => exact Or.inr (Or.inr (Or.inr ⟨env, he⟩))

/-- An object that does not exist yet points to no send buffer. -/
def UnusedUnsent (s : Server) : Prop :=
  ∀ c, c ∉ s.pool.connectionList → (s.conn c).send.pSendMsgMemPointer = none

theorem starts_isClient (h : s.SendCustody place) (hp : s.SendPointers)
    (hc : s.starts e = some c) : s.IsClient c := by
  cases e with
  | iterate env =>
    simp only [starts] at hc
    split at hc
    · split at hc
      · rename_i b hb
        split_ifs at hc
        obtain rfl := Option.some.inj hc
        refine hp.header b (not_le.mp fun hle => ?_)
        have hlist := h.list.place_eq (List.mem_of_getElem? hb)
        cases hlist.symm.trans ((h.fresh b).mpr hle)
      · cases hc
    · cases hc
  | _ => cases hc

theorem step_unusedUnsent (hu : s.UnusedUnsent) (hs : s.SendCustody place) (hn : s.Numbered)
    (hp : s.SendPointers) (h : s.next e = some t) : t.UnusedUnsent := by
  intro c hc
  have hc' : c ∉ s.pool.connectionList := fun hm => hc ((step_pool h).lists.1 hm)
  rcases step_sendView h c with heq | ⟨env, rfl⟩ | hstart | ⟨env, rfl⟩
  · exact (congrArg Prod.fst heq).trans (hu c hc')
  · exact (write_sendPtr h c).trans (hu c hc')
  · exact absurd (hn.clients c (starts_isClient hs hp hstart)) hc'
  · rcases accept_cases h with ⟨b, calls, rfl, -⟩ | ⟨fd, b, -, rfl⟩
    · exact hu c hc
    · by_cases hcf : c = s.pool.front
      · rw [hcf]
        exact absurd hn.front.2.1 (hcf ▸ hc)
      · simpa [admitted, hcf] using hu c hc'

theorem Released.push {k : ℕ} {new : List BufId} (h : s.Released place accepted)
    (hrel : t.sendQueue.mem.released = List.replicate k b ++ s.sendQueue.mem.released)
    (hb : place b = .reply) (hnew : ∀ u ∈ new, u = b ∧ k = 0) :
    t.Released (Function.update place b .list) (new ++ accepted) := by
  constructor
  · intro u hu
    by_cases hub : u = b
    · simp [hub] at hu
    · rw [Function.update_of_ne hub] at hu
      rw [hrel, List.count_append, List.count_replicate, h.before u hu]
      simp [Ne.symm hub]
  · intro u hu
    by_cases hub : u = b
    · subst hub
      have hk : k = 0 := by
        rcases List.mem_append.mp hu with hu | hu
        · exact (hnew u hu).2
        · exact absurd hb (h.accepted u hu).2.1
      simp [hrel, hk, h.before u (Or.inr hb)]
    · have hold : u ∈ accepted := by
        rcases List.mem_append.mp hu with hu | hu
        · exact absurd (hnew u hu).1 hub
        · exact hu
      rw [Function.update_of_ne hub, hrel, List.count_append, List.count_replicate]
      simpa [Ne.symm hub] using h.accepted u hold

theorem SendInv.handle_step {i : ℕ} {w : Worker} {r : Option BufId} {u : Server} {h : MsgHeader}
    (hs : s.SendInv accepted) (hw : s.workers[i]? = some w) (hstage : w.stage = .taken)
    (hu : Handled h s u r) :
    (u.setStage i (r.elim .handled .reply)).SendInv accepted := by
  obtain ⟨place, hcust, hrel⟩ := hs
  obtain ⟨m, m', x, rfl, -, ⟨rfl, rfl⟩ | ⟨rfl, hc⟩⟩ := hu
  · refine SendInv.frame ⟨place, hcust, hrel⟩ rfl ?_ rfl
      (fun d => update_field Connection.sendView (by rfl) d) rfl
    exact filterMap_modify_none hw (by simp [replyOf, hstage]) (by simp [replyOf])
  · have hnew := hcust.fresh.next
    refine ⟨_, hcust.compose_step hw hstage hc.next rfl rfl
      (fun d => update_field Connection.sendView (by rfl) d) rfl,
      hrel.move hc.released (fun _ => hnew) (by simp) (by simp) (by simp [hnew]) fun hmem => ?_⟩
    exact absurd hnew (hrel.accepted _ hmem).1

theorem SendInv.push_step {i : ℕ} {u : Server} (hs : s.SendInv accepted)
    (hstage : s.stage i = some (.reply b)) (hu : s.pushSendMsgToSendListAndSem b now = some u) :
    (u.setStage i .handled).SendInv ((if s.WithinLimits b then [b] else []) ++ accepted) := by
  obtain ⟨place, hcust, hrel⟩ := hs
  obtain ⟨w, hw, hwb⟩ := Option.map_eq_some_iff.mp hstage
  obtain ⟨size, discard, mem, k, hform, hnext, -, hreleased, hk⟩ := push_cases hu
  have hbase : (s.pushBase b now).workers = s.workers ∧
      (s.pushBase b now).pool.freeConnectionList = s.pool.freeConnectionList := by
    unfold pushBase
    split
    · exact ⟨by rw [closeConnectionToRecy_eq], by rw [closeConnectionToRecy_pool, closed_free]⟩
    · exact ⟨rfl, rfl⟩
  have hqueue : u.sendQueue.mem = mem ∧ u.sendQueue.sendMsgList = s.sendQueue.sendMsgList ++ [b] ∧
      u.workers = s.workers ∧ u.pool.freeConnectionList = s.pool.freeConnectionList := by
    rw [hform]
    exact ⟨rfl, rfl, hbase⟩
  obtain ⟨hmem, hlist, hworkers, hfree⟩ := hqueue
  rw [← hmem] at hnext hreleased
  obtain ⟨hp, hcust'⟩ := hcust.push_step (t := u.setStage i .handled) hw hwb hnext
    (by rw [setStage, hworkers]) hlist (fun d => push_sendView hu d) hfree
  refine ⟨_, hcust', hrel.push hreleased hp fun v hv => ?_⟩
  split_ifs at hv with hwithin
  · exact ⟨List.mem_singleton.mp hv, hk hwithin⟩
  · simp at hv

theorem step_sendInv (hs : s.SendInv accepted) (hn : s.Numbered) (hu : s.UnusedUnsent)
    (he : s.Enabled e) (hown : s.ReclaimsOwnSend e) (ht : s.next e = some t) :
    t.SendInv (s.accepts e ++ accepted) := by
  cases e with
  | accept env =>
    rcases accept_cases ht with ⟨b, calls, rfl, -⟩ | ⟨fd, b, -, rfl⟩
    · exact hs.frame rfl rfl rfl (fun _ => rfl) rfl
    · exact hs.accept_step hn hu
  | read c env =>
    obtain rfl := Option.some.inj ht
    obtain ⟨q, r, f, hform⟩ := onlyRecv_readBase s c env.recv env.currTime
    have hbase : (s.readBase c env.recv env.currTime).1.SendInv accepted := by
      rw [hform]
      exact hs.frame rfl rfl rfl (fun d => update_field Connection.sendView (by rfl) d) rfl
    simp only [read_eq]
    split
    · exact hbase.close_step _ _
    · exact hbase
  | outError c =>
    obtain rfl := Option.some.inj ht
    exact hs.frame rfl rfl rfl (fun d => update_field Connection.sendView (by rfl) d) rfl
  | write c env => exact hs.write_step he.2.1 hown.2.2 ht
  | take =>
    obtain rfl := Option.some.inj ht
    unfold takeRecvMsg
    split
    · exact hs
    · refine hs.frame rfl ?_ rfl (fun _ => rfl) rfl
      simp [replies, replyOf]
  | handle i now =>
    obtain rfl | ⟨w, u, r, hw, hu', rfl⟩ := workerHandle_cases ht
    · exact hs
    · have hstage : w.stage = .taken := by simpa [Enabled, stage, hw] using he
      exact hs.handle_step hw hstage hu'
  | push i now =>
    obtain ⟨rfl, hno⟩ | ⟨b, u, hstage, hu', rfl⟩ := workerPush_cases ht
    · simpa [accepts, hno] using hs
    · simpa only [accepts, hstage] using hs.push_step hstage hu'
  | release i =>
    obtain ⟨w, hw, hstage⟩ := Option.map_eq_some_iff.mp he
    obtain rfl := Option.some.inj ht
    refine hs.frame ?_ ?_ ?_ (fun d => ?_) ?_
    all_goals simp only [workerRelease, hw]
    exact filterMap_eraseIdx_none hw (by simp [replyOf, hstage])
  | semWait =>
    cases ht
    exact hs.frame rfl rfl rfl (fun _ => rfl) rfl
  | semIntr =>
    cases ht
    exact hs.frame rfl rfl rfl (fun _ => rfl) rfl
  | sizeTest =>
    cases ht
    exact hs.frame rfl rfl rfl (fun _ => rfl) rfl
  | iterate env =>
    obtain rfl | ⟨pos, hsender, ht⟩ := iterate_pass ht
    · exact hs
    · exact hs.iterate_step hsender hown.2.1 ht
  | close c now =>
    obtain rfl := Option.some.inj ht
    exact hs.close_step c now
  | recycle now =>
    obtain ⟨c, hc, rfl⟩ := lblRRTD_eq_some ht
    obtain ⟨hfree, hptr⟩ := hown.1 c hc
    exact hs.recycle_step hfree hptr
  | clear =>
    obtain ⟨c, hc, rfl⟩ := lblRRTD2_eq_some ht
    obtain ⟨hfree, hptr⟩ := hown.1 c hc
    exact hs.recycle_step hfree hptr
  | monitor now =>
    obtain ⟨hd, q, -, -, ⟨-, rfl⟩ | ⟨-, rfl⟩⟩ := monitor_cases ht
    · exact (hs.close_step hd.pConn now).frame rfl rfl rfl (fun _ => rfl) rfl
    · exact hs.frame rfl rfl rfl (fun _ => rfl) rfl

theorem sendInv_boot (h : s.Booted) : s.SendInv [] ∧ s.UnusedUnsent := by
  have hb := noBuffers_boot h
  refine ⟨⟨fun _ => .fresh, ⟨fun b => ?_, ?_, ?_, fun c b => ?_, fun c b hr => ?_⟩, fun b _ => ?_,
    by simp⟩, fun c _ => hb.sendPointer c⟩
  · simp [hb.sendNext]
  · rw [replies, hb.workers]
    exact .nil (by simp)
  · rw [hb.sendList]
    exact .nil (by simp)
  · simp [hb.sendPointer c]
  · simp [hb.sendPointer c] at hr
  · simp [hb.sendReleased]

/-- The custody of send buffers along a run that reclaims only what it owns. -/
theorem run_sendInv {es : List Event}
    (h : ((process.restrict ReclaimsOwnSend).record accepts).Run es (s, accepted)) :
    s.SendInv accepted ∧ s.UnusedUnsent := by
  have hrec : ∀ es p, ((process.restrict ReclaimsOwnSend).record accepts).Run es p →
      p.1.SendInv p.2 ∧ p.1.UnusedUnsent := by
    intro es p hrun
    induction hrun with
    | start hb =>
      rw [hb.2]
      exact sendInv_boot hb.1
    | step hrun hstep ih =>
      obtain ⟨hinv, hunused⟩ := ih
      obtain ⟨hnum, hptr⟩ := run_numbered hrun.of_record.of_restrict
      obtain ⟨⟨hown, he, ht⟩, hacc⟩ := hstep
      rw [hacc]
      refine ⟨step_sendInv hinv hnum hunused he hown ht, ?_⟩
      obtain ⟨place, hcust, -⟩ := hinv
      exact step_unusedUnsent hunused hcust hnum hptr.send ht
  exact hrec es (s, accepted) h

instance (s : Server) : (e : Event) → Decidable (s.ReclaimsOwnSend e)
  | .write _ _ => inferInstanceAs (Decidable (_ ∧ _ ∧ (_ → ¬ _)))
  | .accept _ | .read _ _ | .outError _ | .take | .handle _ _ | .push _ _ | .release _
  | .semWait | .semIntr | .sizeTest | .iterate _ | .close _ _ | .recycle _ | .clear
  | .monitor _ => inferInstanceAs (Decidable (_ ∧ _ ∧ True))

/-- Every accepted send buffer has one owner and is released at most once, as long as a recycled
connection still owns the buffer it points to and a suspended message is not overtaken. -/
theorem sendBuffer_owned {es : List Event}
    (h : ((process.restrict ReclaimsOwnSend).record accepts).Run es (s, accepted)) :
    s.SendOwned accepted := by
  obtain ⟨⟨place, hcust, hrel⟩, -⟩ := run_sendInv h
  exact hcust.owned hrel

/-- A heartbeat is answered: the reply is accepted, sent in one piece and freed. -/
theorem sendBuffer_owned_heartbeat :
    ∃ s : Server, s.SendOwned [0] ∧ s.sendQueue.mem.released = [0] := by
  obtain ⟨⟨s, accepted⟩, hrun, hs⟩ := process_record_of_play ReclaimsOwnSend accepts smallConfig
    [.accept { HandlerEnv.idle with accept := [.accepted 4] },
      .read 1 { HandlerEnv.idle with recv := .data [0, 8, 0, 0, 0, 0, 0, 0] },
      .take, .handle 0 0, .push 0 0, .semWait, .sizeTest, .iterate ⟨0, .accepted 8, true⟩]
    (fun p => (p.2, p.1.sendQueue.mem.released)) ([0], [0]) (by decide)
  obtain ⟨rfl, hreleased⟩ := Prod.mk.inj hs
  exact ⟨s, sendBuffer_owned hrun, hreleased⟩

/-- The client goes after it was answered: the recycler frees the reply that `SendMsgThread` has
freed. -/
theorem sendBuffer_released_twice :
    ¬ ∀ es s accepted, (process.record accepts).Run es (s, accepted) → s.SendOwned accepted := by
  intro hall
  obtain ⟨⟨s, accepted⟩, hrun, hs⟩ := process_record_of_play (fun _ _ => True) accepts smallConfig
    [.accept { HandlerEnv.idle with accept := [.accepted 4] },
      .read 1 { HandlerEnv.idle with recv := .data [0, 8, 0, 0, 0, 0, 0, 0] },
      .take, .handle 0 0, .push 0 0, .semWait, .sizeTest, .iterate ⟨0, .accepted 8, true⟩,
      .read 1 { HandlerEnv.idle with recv := .eof }, .recycle 0]
    (fun p => (p.2, p.1.sendQueue.mem.released)) ([0], [0, 0]) (by decide)
  obtain ⟨rfl, hreleased⟩ := Prod.mk.inj hs
  have honce := (hall _ s [0] hrun.of_restrict_record).once 0 (by simp)
  rw [show s.sendQueue.mem.released = [0, 0] from hreleased] at honce
  simp at honce

end Server
end XiaoHGServer
