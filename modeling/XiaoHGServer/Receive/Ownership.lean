import XiaoHGServer.Library.Places
import XiaoHGServer.Pool.Partition

/-!
# The owner of a receive buffer

A buffer is allocated for the connection that receives it, travels through the
receive list to a worker thread and is freed there, or it is freed by the flood
check or with its connection. The map `place` says where each buffer is; the
lists and pointers of the process agree with it in every run in which a recycled
connection does not hold on to a buffer it has given away.
-/

namespace XiaoHGServer

inductive RecvPlace
  | fresh
  | conn (c : ConnId)
  | list
  | worker
  | released
  deriving DecidableEq

/-- Who owns a receive buffer that has not been released. -/
inductive RecvOwner
  | conn (c : ConnId)
  | list (i : ℕ)
  | worker (i : ℕ)

namespace Server

variable {s t : Server} {c : ConnId} {b : BufId} {now : ℤ} {e : Event}

/-- The connection still receives the packet in `b`, the list holds `b` at position `i`, or the
worker `i` handles it. -/
def Owns (s : Server) : RecvOwner → BufId → Prop
  | .conn c, b => (s.conn c).recv.receiving = some b
  | .list i, b => s.recvQueue.recvMsgList[i]? = some b
  | .worker i, b => s.jobs[i]? = some b

/-- A buffer that was allocated and not released has exactly one owner, and no buffer is released
twice. -/
structure RecvOwned (s : Server) : Prop where
  owner : ∀ b < s.recvQueue.mem.next, b ∉ s.recvQueue.mem.released → ∃! o, s.Owns o b
  once : s.recvQueue.mem.released.Nodup

/-- A recycled connection has no receive buffer, or it is in the middle of a packet body and not
idle already; and nothing is received through an idle object. -/
def ReclaimsOwnRecv (s : Server) (e : Event) : Prop :=
  (∀ c ∈ s.recycles e, (s.conn c).recv.pRecvMsgMemPointer = none ∨
    (s.conn c).recv.receiving ≠ none ∧ c ∉ s.pool.freeConnectionList) ∧
  match e with
  | .read c env =>
    match env.recv with
    | .data _ => c ∉ s.pool.freeConnectionList
    | _ => True
  | _ => True

/-- The lists and pointers of the process hold the buffers that `place` puts there. -/
structure RecvCustody (s : Server) (place : BufId → RecvPlace) : Prop where
  fresh : Unborn place .fresh s.recvQueue.mem.next
  list : Holds place .list s.recvQueue.recvMsgList
  jobs : Holds place .worker s.jobs
  released : Holds place .released s.recvQueue.mem.released
  conn : ∀ c b, place b = .conn c ↔
    (s.conn c).recv.receiving = some b ∧ c ∉ s.pool.freeConnectionList
  idle : ∀ c b, (s.conn c).recv.receiving = some b → c ∈ s.pool.freeConnectionList →
    place b = .released

variable {place : BufId → RecvPlace}

namespace RecvCustody

theorem place_of_owns {o : RecvOwner} (h : s.RecvCustody place)
    (hb : b ∉ s.recvQueue.mem.released) (ho : s.Owns o b) :
    match o with
    | .conn c => place b = .conn c
    | .list _ => place b = .list
    | .worker _ => place b = .worker := by
  cases o with
  | conn c =>
    by_cases hc : c ∈ s.pool.freeConnectionList
    · exact absurd (h.released.mem_iff.mpr (h.idle c b ho hc)) hb
    · exact (h.conn c b).mpr ⟨ho, hc⟩
  | list i => exact h.list.place_eq (List.mem_of_getElem? ho)
  | worker i => exact h.jobs.place_eq (List.mem_of_getElem? ho)

theorem owner_unique {o o' : RecvOwner} (h : s.RecvCustody place)
    (hb : b ∉ s.recvQueue.mem.released) (ho : s.Owns o b) (ho' : s.Owns o' b) : o' = o := by
  have hp := h.place_of_owns hb ho
  have hp' := h.place_of_owns hb ho'
  cases o with
  | conn c =>
    cases o' with
    | conn c' =>
      have : RecvPlace.conn c' = .conn c := hp'.symm.trans hp
      rw [RecvPlace.conn.inj this]
    | list i => cases hp.symm.trans hp'
    | worker i => cases hp.symm.trans hp'
  | list i =>
    cases o' with
    | conn c => cases hp.symm.trans hp'
    | list j => rw [h.list.index_unique ho ho']
    | worker j => cases hp.symm.trans hp'
  | worker i =>
    cases o' with
    | conn c => cases hp.symm.trans hp'
    | list j => cases hp.symm.trans hp'
    | worker j => rw [h.jobs.index_unique ho ho']

theorem owned (h : s.RecvCustody place) : s.RecvOwned where
  owner b hb hrel := by
    have unique {o : RecvOwner} (ho : s.Owns o b) : ∃! o, s.Owns o b :=
      ⟨o, ho, fun o' ho' => h.owner_unique hrel ho ho'⟩
    cases hp : place b with
    | fresh => exact absurd ((h.fresh b).mp hp) (not_le.mpr hb)
    | conn c => exact unique (o := .conn c) ((h.conn c b).mp hp).1
    | list =>
      obtain ⟨i, hi⟩ := List.mem_iff_getElem?.mp (h.list.mem_iff.mpr hp)
      exact unique (o := .list i) hi
    | worker =>
      obtain ⟨i, hi⟩ := List.mem_iff_getElem?.mp (h.jobs.mem_iff.mpr hp)
      exact unique (o := .worker i) hi
    | released => exact absurd (h.released.mem_iff.mpr hp) hrel
  once := h.released.1

theorem same (h : s.RecvCustody place) (hnext : t.recvQueue.mem.next = s.recvQueue.mem.next)
    (hlist : t.recvQueue.recvMsgList = s.recvQueue.recvMsgList)
    (hrel : t.recvQueue.mem.released = s.recvQueue.mem.released) (hjobs : t.jobs = s.jobs)
    (hrecv : ∀ c, (t.conn c).recv.receiving = (s.conn c).recv.receiving)
    (hfree : t.pool.freeConnectionList = s.pool.freeConnectionList) : t.RecvCustody place where
  fresh := by rw [hnext]; exact h.fresh
  list := by rw [hlist]; exact h.list
  jobs := by rw [hjobs]; exact h.jobs
  released := by rw [hrel]; exact h.released
  conn c b := by rw [hrecv, hfree, h.conn]
  idle c b := by rw [hrecv, hfree]; exact h.idle c b

/-- A step that moves buffer `b`, which is new or connection `c`'s, and touches no other
connection. -/
theorem moved {q : RecvPlace} (h : s.RecvCustody place) (hc : c ∉ s.pool.freeConnectionList)
    (hb : place b = .fresh ∨ place b = .conn c) (hq : ∀ d, d ≠ c → q ≠ .conn d) (hqw : q ≠ .worker)
    (hother : ∀ d, d ≠ c → (t.conn d).recv = (s.conn d).recv) (hjobs : t.jobs = s.jobs)
    (hfree : t.pool.freeConnectionList = s.pool.freeConnectionList)
    (hfresh : Unborn (Function.update place b q) .fresh t.recvQueue.mem.next)
    (hlist : Holds (Function.update place b q) .list t.recvQueue.recvMsgList)
    (hrel : Holds (Function.update place b q) .released t.recvQueue.mem.released)
    (hself : ∀ u, Function.update place b q u = .conn c ↔
      (t.conn c).recv.receiving = some u) : t.RecvCustody (Function.update place b q) := by
  have hfrom {r : RecvPlace} (hf : r ≠ .fresh) (hr : r ≠ .conn c) : place b ≠ r := by
    rintro rfl
    exact hb.elim hf hr
  refine ⟨hfresh, hlist, ?_, hrel, ?_, ?_⟩
  · rw [hjobs]
    exact h.jobs.other (hfrom (by simp) (by simp)) hqw
  · intro d u
    rw [hfree]
    by_cases hd : d = c
    · subst hd
      rw [hself]
      exact ⟨fun hu => ⟨hu, hc⟩, fun hu => hu.1⟩
    · have hbd : place b ≠ .conn d := hfrom (by simp) fun heq => hd (RecvPlace.conn.inj heq)
      rw [update_place_iff hbd (hq d hd), hother d hd, h.conn]
  · intro d u hu hd
    rw [hfree] at hd
    have hdc : d ≠ c := fun heq => hc (heq ▸ hd)
    rw [hother d hdc] at hu
    have hu' := h.idle d u hu hd
    rw [Function.update_of_ne]
    · exact hu'
    · rintro rfl
      exact hfrom (by simp) (by simp) hu'

/-- What reading through an object in use does to the buffers is a move of at most one of them. -/
theorem read_step (h : s.RecvCustody place) (hc : c ∉ s.pool.freeConnectionList)
    (hmove : RecvMove s.recvQueue (s.conn c).recv t.recvQueue (t.conn c).recv)
    (hother : ∀ d, d ≠ c → (t.conn d).recv = (s.conn d).recv) (hjobs : t.jobs = s.jobs)
    (hfree : t.pool.freeConnectionList = s.pool.freeConnectionList) :
    ∃ place', t.RecvCustody place' := by
  have hnew := h.fresh.next
  -- `c` owns the buffer it receives, and nothing else
  have hnone (hr : (s.conn c).recv.receiving = none) (u : BufId) : place u ≠ .conn c := by
    intro hu
    have := ((h.conn c u).mp hu).1
    rw [hr] at this
    cases this
  have honly {b : BufId} (hr : (s.conn c).recv.receiving = some b) (u : BufId) (hu : u ≠ b) :
      place u ≠ .conn c := by
    intro hu'
    have := ((h.conn c u).mp hu').1
    rw [hr] at this
    exact hu (Option.some.inj this).symm
  rcases hmove with ⟨hn, hl, hr, hb⟩ | ⟨hn, hl, hr, hs, hb⟩ | ⟨hn, hl, hr, hs, hb⟩ |
    ⟨hn, hl, hr, hs, hb⟩ | ⟨b, hn, hl, hr, hs, hb⟩ | ⟨b, hn, hl, hr, hs, hb⟩
  · refine ⟨place, h.same hn hl hr hjobs (fun d => ?_) hfree⟩
    by_cases hd : d = c
    · subst hd
      exact hb
    · rw [hother d hd]
  · refine ⟨_, h.moved hc (Or.inl hnew) (q := .conn c)
      (fun d hd heq => hd (RecvPlace.conn.inj heq).symm) (by simp) hother hjobs hfree ?_ ?_ ?_ ?_⟩
    · rw [hn]
      exact h.fresh.create (by simp)
    · rw [hl]
      exact h.list.other (by simp [hnew]) (by simp)
    · rw [hr]
      exact h.released.other (by simp [hnew]) (by simp)
    · intro u
      rw [hb]
      by_cases hu : u = s.recvQueue.mem.next
      · simp [hu]
      · simp [hu, hnone hs u, Ne.symm hu]
  · refine ⟨_, h.moved hc (Or.inl hnew) (q := .list) (by simp) (by simp) hother hjobs hfree
      ?_ ?_ ?_ ?_⟩
    · rw [hn]
      exact h.fresh.create (by simp)
    · rw [hl]
      exact h.list.append (by simp [hnew])
    · rw [hr]
      exact h.released.other (by simp [hnew]) (by simp)
    · intro u
      rw [hb, update_place_iff (by simp [hnew]) (by simp)]
      simp [hnone hs u]
  · refine ⟨_, h.moved hc (Or.inl hnew) (q := .released) (by simp) (by simp) hother hjobs hfree
      ?_ ?_ ?_ ?_⟩
    · rw [hn]
      exact h.fresh.create (by simp)
    · rw [hl]
      exact h.list.other (by simp [hnew]) (by simp)
    · rw [hr]
      exact h.released.cons (by simp [hnew])
    · intro u
      rw [hb, update_place_iff (by simp [hnew]) (by simp)]
      simp [hnone hs u]
  · have hp : place b = .conn c := (h.conn c b).mpr ⟨hs, hc⟩
    refine ⟨_, h.moved hc (Or.inr hp) (q := .list) (by simp) (by simp) hother hjobs hfree
      ?_ ?_ ?_ ?_⟩
    · rw [hn]
      exact h.fresh.move (by simp [hp]) (by simp)
    · rw [hl]
      exact h.list.append (by simp [hp])
    · rw [hr]
      exact h.released.other (by simp [hp]) (by simp)
    · intro u
      rw [hb]
      by_cases hu : u = b
      · simp [hu]
      · simp [hu, honly hs u hu]
  · have hp : place b = .conn c := (h.conn c b).mpr ⟨hs, hc⟩
    refine ⟨_, h.moved hc (Or.inr hp) (q := .released) (by simp) (by simp) hother hjobs hfree
      ?_ ?_ ?_ ?_⟩
    · rw [hn]
      exact h.fresh.move (by simp [hp]) (by simp)
    · rw [hl]
      exact h.list.other (by simp [hp]) (by simp)
    · rw [hr]
      exact h.released.cons (by simp [hp])
    · intro u
      rw [hb]
      by_cases hu : u = b
      · simp [hu]
      · simp [hu, honly hs u hu]

theorem take_step (h : s.RecvCustody place) : ∃ place', s.takeRecvMsg.RecvCustody place' := by
  cases hl : s.recvQueue.recvMsgList with
  | nil => exact ⟨place, by simpa only [takeRecvMsg, hl] using h⟩
  | cons b rest =>
    have hlist := h.list
    rw [hl] at hlist
    have hp : place b = .list := hlist.place_eq (List.mem_cons_self ..)
    refine ⟨Function.update place b .worker, ?_⟩
    simp only [takeRecvMsg, hl]
    refine ⟨h.fresh.move (by simp [hp]) (by simp), hlist.tail (by simp), ?_,
      h.released.other (by simp [hp]) (by simp), fun c u => ?_, fun c u hu hc => ?_⟩
    · change Holds _ _ (List.map Worker.pJobBuf (s.workers ++ [⟨b, .taken⟩]))
      rw [List.map_append]
      exact h.jobs.append (by simp [hp])
    · rw [update_place_iff (by simp [hp]) (by simp), h.conn]
    · rw [update_place_iff (by simp [hp]) (by simp)]
      exact h.idle c u hu hc

theorem release_step (h : s.RecvCustody place) (i : ℕ) :
    ∃ place', (s.workerRelease i).RecvCustody place' := by
  unfold workerRelease
  cases hw : s.workers[i]? with
  | none => exact ⟨place, h⟩
  | some w =>
    have hj : s.jobs[i]? = some w.pJobBuf := by
      rw [Server.jobs, List.getElem?_map, hw]
      rfl
    have hp : place w.pJobBuf = .worker := h.jobs.place_eq (List.mem_of_getElem? hj)
    refine ⟨Function.update place w.pJobBuf .released, h.fresh.move (by simp [hp]) (by simp),
      h.list.other (by simp [hp]) (by simp), ?_, h.released.cons (by simp [hp]),
      fun c u => ?_, fun c u hu hc => ?_⟩
    · change Holds _ _ (List.map Worker.pJobBuf (s.workers.eraseIdx i))
      rw [← List.eraseIdx_map]
      exact h.jobs.eraseIdx hj (by simp)
    · rw [update_place_iff (by simp [hp]) (by simp), h.conn]
    · by_cases hub : u = w.pJobBuf
      · simp [hub]
      · rw [Function.update_of_ne hub]
        exact h.idle c u hu hc

theorem recycle_step {n : ℤ} (h : s.RecvCustody place)
    (hown : (s.conn c).recv.pRecvMsgMemPointer = none ∨
      (s.conn c).recv.receiving ≠ none ∧ c ∉ s.pool.freeConnectionList) :
    ∃ place', (s.recycled c n).RecvCustody place' := by
  have hrecv : ∀ d, ((s.recycled c n).conn d).recv = (s.conn d).recv := fun d =>
    update_field Connection.recv (by rfl) d
  have hfree : (s.recycled c n).pool.freeConnectionList = s.pool.freeConnectionList ++ [c] := rfl
  have hptr : ∀ b, (s.conn c).recv.receiving = some b →
      (s.conn c).recv.pRecvMsgMemPointer = some b := by
    intro b hb
    unfold RecvState.receiving at hb
    split at hb <;> first | exact hb | cases hb
  rcases hown with hnone | ⟨hsome, hc⟩
  · have hidle (b : BufId) : (s.conn c).recv.receiving ≠ some b := by
      intro hb
      have := hptr b hb
      rw [hnone] at this
      cases this
    refine ⟨place, by simpa [recycled] using h.fresh, h.list, h.jobs, ?_, fun d u => ?_,
      fun d u hu hd => ?_⟩
    · simpa [recycled, hnone] using h.released
    · rw [hrecv, hfree, h.conn, List.mem_append, List.mem_singleton, not_or]
      constructor
      · rintro ⟨hu, hd⟩
        exact ⟨hu, hd, fun hdc => hidle u (hdc ▸ hu)⟩
      · rintro ⟨hu, hd, -⟩
        exact ⟨hu, hd⟩
    · rw [hrecv] at hu
      rw [hfree] at hd
      rcases List.mem_append.mp hd with hd | hd
      · exact h.idle d u hu hd
      · rw [List.mem_singleton.mp hd] at hu
        exact absurd hu (hidle u)
  · obtain ⟨b, hb⟩ := Option.ne_none_iff_exists'.mp hsome
    have hp : place b = .conn c := (h.conn c b).mpr ⟨hb, hc⟩
    refine ⟨Function.update place b .released, ?_, h.list.other (by simp [hp]) (by simp),
      h.jobs.other (by simp [hp]) (by simp), ?_, fun d u => ?_, fun d u hu hd => ?_⟩
    · simpa [recycled] using h.fresh.move (by simp [hp]) (by simp)
    · simpa [recycled, hptr b hb] using h.released.cons (t := b) (by simp [hp])
    · rw [hrecv, hfree, List.mem_append, List.mem_singleton, not_or]
      by_cases hub : u = b
      · subst hub
        simp only [Function.update_self, reduceCtorEq, false_iff, not_and, not_not]
        intro hu hd
        exact RecvPlace.conn.inj (((h.conn d u).mpr ⟨hu, hd⟩).symm.trans hp)
      · rw [Function.update_of_ne hub, h.conn]
        constructor
        · rintro ⟨hu, hd⟩
          refine ⟨hu, hd, fun hdc => hub ?_⟩
          rw [hdc, hb] at hu
          exact (Option.some.inj hu).symm
        · rintro ⟨hu, hd, -⟩
          exact ⟨hu, hd⟩
    · rw [hrecv] at hu
      rw [hfree] at hd
      by_cases hub : u = b
      · simp [hub]
      · rw [Function.update_of_ne hub]
        rcases List.mem_append.mp hd with hd | hd
        · exact h.idle d u hu hd
        · rw [List.mem_singleton.mp hd, hb] at hu
          exact absurd (Option.some.inj hu).symm hub

theorem accept_step {fd : ℕ} {b : Bool} (h : s.RecvCustody place) (hs : s.Numbered)
    (hout : ∀ c, c ∉ s.pool.connectionList → (s.conn c).recv.receiving = none) :
    ({ s.admitted fd now with iIsAccept4 := b } : Server).RecvCustody place := by
  have hfront (u : BufId) : ¬ ((s.conn s.pool.front).recv.receiving = some u ∧
      s.pool.front ∉ s.pool.freeConnectionList) := by
    rintro ⟨hu, hf⟩
    rw [hout _ (hs.front_cases.resolve_left hf)] at hu
    cases hu
  have hself : ((s.admitted fd now).conn s.pool.front).recv.receiving = none := by
    simp [admitted, Connection.installed, Connection.getOneToUse, RecvState.receiving]
  have hother {d : ConnId} (hd : d ≠ s.pool.front) : (s.admitted fd now).conn d = s.conn d := by
    simp [admitted, hd]
  refine ⟨h.fresh, h.list, h.jobs, h.released, fun d u => ?_, fun d u hu hd => ?_⟩
  · rw [h.conn]
    change _ ↔ ((s.admitted fd now).conn d).recv.receiving = some u ∧
      d ∉ s.pool.getConnection.freeConnectionList
    by_cases hd : d = s.pool.front
    · subst hd
      rw [hself]
      exact ⟨fun hu => absurd hu (hfront u), fun hu => by cases hu.1⟩
    · rw [hother hd, mem_getConnection_free hd]
  · change ((s.admitted fd now).conn d).recv.receiving = some u at hu
    change d ∈ s.pool.getConnection.freeConnectionList at hd
    by_cases hdf : d = s.pool.front
    · rw [hdf, hself] at hu
      cases hu
    · rw [hother hdf] at hu
      exact h.idle d u hu ((mem_getConnection_free hdf).mp hd)

end RecvCustody

/-- The receive state of an object changes when it is read through, and when it is taken. -/
theorem step_recv (h : s.next e = some t) (d : ConnId) :
    (t.conn d).recv = (s.conn d).recv ∨ (∃ env, e = .read d env) ∨
      d = s.pool.front ∧ ∃ fd now b, t = { s.admitted fd now with iIsAccept4 := b } :=
  (step_reception h d).imp_left (congrArg Prod.fst)

/-- Nothing is received through an object that does not exist yet. -/
def UnusedIdle (s : Server) : Prop :=
  ∀ c, c ∉ s.pool.connectionList → (s.conn c).recv.receiving = none

theorem step_unusedIdle (hs : s.UnusedIdle) (hn : s.Numbered) (he : s.Enabled e)
    (h : s.next e = some t) : t.UnusedIdle := by
  intro c hc
  have hc' : c ∉ s.pool.connectionList := fun hm => hc ((step_pool h).lists.1 hm)
  rcases step_recv h c with heq | ⟨env, rfl⟩ | ⟨rfl, fd, now, b, rfl⟩
  · rw [heq]
    exact hs c hc'
  · exact absurd (hn.clients c he.1) hc'
  · exact absurd hn.front.2.1 hc

theorem RecvCustody.close_step (h : s.RecvCustody place) (c : ConnId) (now : ℤ) :
    (s.closeConnectionToRecy c now).RecvCustody place := by
  have hq : (s.closeConnectionToRecy c now).recvQueue = s.recvQueue := by
    rw [closeConnectionToRecy_eq]
  refine h.same (by rw [hq]) (by rw [hq]) (by rw [hq]) closeConnectionToRecy_jobs
    (fun d => by rw [closeConnectionToRecy_recv]) ?_
  rw [closeConnectionToRecy_pool, closed_free]

theorem RecvCustody.iterate_step {pos : ℕ} {env : SendEnv} (h : s.RecvCustody place)
    (ht : s.sendMsgThreadIter pos env = some t) : t.RecvCustody place := by
  have hside : t.recvQueue = s.recvQueue ∧ t.workers = s.workers := by
    rcases iterate_cases ht with ⟨-, rfl⟩ | ⟨b, -, ⟨-, rfl⟩ | ⟨-, -, rfl⟩ | ⟨-, -, hstart⟩⟩
    · exact ⟨rfl, rfl⟩
    · exact ⟨rfl, rfl⟩
    · exact ⟨rfl, rfl⟩
    · rcases startSend_cases hstart with ⟨-, rfl⟩ | ⟨n, -, -, -, rfl⟩ | ⟨-, rfl⟩ <;>
        exact ⟨rfl, rfl⟩
  exact h.same (by rw [hside.1]) (by rw [hside.1]) (by rw [hside.1])
    (by rw [Server.jobs, hside.2]; rfl)
    (fun d => congrArg (fun r => r.1.1.receiving) (iterate_receiveSide ht d))
    (by rw [iterate_pool ht])

theorem RecvCustody.write_step {env : SendEnv} (h : s.RecvCustody place)
    (ht : s.epollEventWriteRequestHandler c env = some t) : t.RecvCustody place := by
  have hside : t.recvQueue = s.recvQueue ∧ t.workers = s.workers := by
    rcases write_cases ht with ⟨n, -, -, -, rfl⟩ | ⟨-, rfl⟩ | ⟨n, -, -, -, rfl⟩ | ⟨-, rfl⟩ <;>
      exact ⟨rfl, rfl⟩
  exact h.same (by rw [hside.1]) (by rw [hside.1]) (by rw [hside.1])
    (by rw [Server.jobs, hside.2]; rfl)
    (fun d => congrArg (fun r => r.1.1.receiving) (write_receiveSide ht d)) (by rw [write_pool ht])

theorem RecvCustody.push_step {i : ℕ} {b : BufId} {u : Server} (h : s.RecvCustody place)
    (hu : s.pushSendMsgToSendListAndSem b now = some u) :
    (u.setStage i .handled).RecvCustody place := by
  have hbase : (s.pushBase b now).RecvCustody place := by
    unfold pushBase
    split
    · exact h.close_step _ _
    · exact h
  obtain ⟨size, discard, mem, k, rfl, -⟩ := push_cases hu
  exact hbase.same rfl rfl rfl (jobs_setStage i _)
    (fun d => congrArg RecvState.receiving (update_field Connection.recv (by rfl) d)) rfl

/-- One step moves at most one buffer, and the lists and pointers follow. -/
theorem step_recvCustody (h : s.RecvCustody place) (hs : s.Numbered) (hidle : s.UnusedIdle)
    (hown : s.ReclaimsOwnRecv e) (ht : s.next e = some t) : ∃ place', t.RecvCustody place' := by
  cases e with
  | accept env =>
    rcases accept_cases ht with ⟨b, calls, rfl, -⟩ | ⟨fd, b, -, rfl⟩
    · exact ⟨place, h.same rfl rfl rfl rfl (fun _ => rfl) rfl⟩
    · exact ⟨place, h.accept_step hs hidle⟩
  | read c env =>
    obtain rfl := Option.some.inj ht
    have hmove := readBase_move s c env.recv env.currTime
    obtain ⟨q, r, f, hform⟩ := onlyRecv_readBase s c env.recv env.currTime
    have hbase : ∃ place', (s.readBase c env.recv env.currTime).1.RecvCustody place' := by
      cases hret : env.recv with
      | data bytes =>
        rw [hret] at hmove hform
        have hc : c ∉ s.pool.freeConnectionList := by
          have := hown.2
          simpa only [hret] using this
        refine h.read_step hc hmove (fun d hd => ?_) ?_ ?_ <;> rw [hform]
        · simp [hd]
        · rfl
        · rfl
      | _ => exact ⟨place, h.same rfl rfl rfl rfl (fun _ => rfl) rfl⟩
    obtain ⟨place', hbase⟩ := hbase
    refine ⟨place', ?_⟩
    simp only [read_eq]
    split
    · exact hbase.close_step _ _
    · exact hbase
  | outError c =>
    obtain rfl := Option.some.inj ht
    exact ⟨place, h.same rfl rfl rfl rfl
      (fun d => congrArg RecvState.receiving (update_field Connection.recv (by rfl) d)) rfl⟩
  | write c env => exact ⟨place, h.write_step ht⟩
  | take =>
    obtain rfl := Option.some.inj ht
    exact h.take_step
  | handle i now =>
    obtain rfl | ⟨w, u, r, -, ⟨m, m', x, rfl, hm, -⟩, rfl⟩ := workerHandle_cases ht
    · exact ⟨place, h⟩
    · exact ⟨place, h.same hm.next rfl hm.released (jobs_setStage i _)
        (fun d => congrArg RecvState.receiving (update_field Connection.recv (by rfl) d)) rfl⟩
  | push i now =>
    obtain ⟨rfl, -⟩ | ⟨b, u, -, hu, rfl⟩ := workerPush_cases ht
    · exact ⟨place, h⟩
    · exact ⟨place, h.push_step hu⟩
  | release i =>
    obtain rfl := Option.some.inj ht
    exact h.release_step i
  | semWait =>
    cases ht
    exact ⟨place, h.same rfl rfl rfl rfl (fun _ => rfl) rfl⟩
  | semIntr =>
    cases ht
    exact ⟨place, h.same rfl rfl rfl rfl (fun _ => rfl) rfl⟩
  | sizeTest =>
    cases ht
    exact ⟨place, h.same rfl rfl rfl rfl (fun _ => rfl) rfl⟩
  | iterate env =>
    obtain rfl | ⟨pos, -, ht⟩ := iterate_pass ht
    · exact ⟨place, h⟩
    · exact ⟨place, h.iterate_step ht⟩
  | close c now =>
    obtain rfl := Option.some.inj ht
    exact ⟨place, h.close_step c now⟩
  | recycle now =>
    obtain ⟨c, hc, rfl⟩ := lblRRTD_eq_some ht
    exact h.recycle_step (hown.1 c hc)
  | clear =>
    obtain ⟨c, hc, rfl⟩ := lblRRTD2_eq_some ht
    exact h.recycle_step (hown.1 c hc)
  | monitor now =>
    obtain ⟨hd, q, -, -, ⟨-, rfl⟩ | ⟨-, rfl⟩⟩ := monitor_cases ht
    · exact ⟨place, (h.close_step hd.pConn now).same rfl rfl rfl rfl (fun _ => rfl) rfl⟩
    · exact ⟨place, h.same rfl rfl rfl rfl (fun _ => rfl) rfl⟩

theorem recvCustody_boot (h : s.Booted) : s.RecvCustody fun _ => .fresh := by
  have hb := noBuffers_boot h
  refine ⟨fun b => ?_, ?_, ?_, ?_, fun c b => ?_, fun c b hr => ?_⟩
  · simp [hb.recvNext]
  · rw [hb.recvList]
    exact .nil (by simp)
  · rw [jobs, hb.workers]
    exact .nil (by simp)
  · rw [hb.recvReleased]
    exact .nil (by simp)
  · simp [hb.receiving c]
  · simp [hb.receiving c] at hr

/-- The custody of receive buffers along a run that reclaims only what it owns. -/
theorem run_recvCustody {es : List Event} (h : (process.restrict ReclaimsOwnRecv).Run es s) :
    (∃ place, s.RecvCustody place) ∧ s.UnusedIdle := by
  induction h with
  | start hb => exact ⟨⟨_, recvCustody_boot hb⟩, fun c _ => (noBuffers_boot hb).receiving c⟩
  | step hrun hstep ih =>
    obtain ⟨⟨place, hcust⟩, hidle⟩ := ih
    have hnum := (run_numbered hrun.of_restrict).1
    exact ⟨step_recvCustody hcust hnum hidle hstep.1 hstep.2.2,
      step_unusedIdle hidle hnum hstep.2.1 hstep.2.2⟩

instance (s : Server) : (e : Event) → Decidable (s.ReclaimsOwnRecv e)
  | .read _ ⟨_, _, .data _, _, _, _, _⟩ => inferInstanceAs (Decidable (_ ∧ ¬ _))
  | .read _ ⟨_, _, .eof, _, _, _, _⟩ | .read _ ⟨_, _, .again, _, _, _, _⟩
  | .read _ ⟨_, _, .intr, _, _, _, _⟩ | .read _ ⟨_, _, .error, _, _, _, _⟩
  | .accept _ | .outError _ | .write _ _ | .take | .handle _ _ | .push _ _ | .release _
  | .semWait | .semIntr | .sizeTest | .iterate _ | .close _ _ | .recycle _ | .clear
  | .monitor _ => inferInstanceAs (Decidable (_ ∧ True))

/-- Every receive buffer has one owner and is released at most once, as long as a recycled
connection still owns the buffer it points to. -/
theorem recvBuffer_owned {es : List Event} (h : (process.restrict ReclaimsOwnRecv).Run es s) :
    s.RecvOwned := by
  obtain ⟨⟨place, hcust⟩, -⟩ := run_recvCustody h
  exact hcust.owned

/-- A client goes in the middle of a packet: the recycler frees the buffer, once. -/
theorem recvBuffer_owned_half_packet :
    ∃ s : Server, s.RecvOwned ∧ s.recvQueue.mem.released = [0] := by
  obtain ⟨s, hrun, hs⟩ := process_run_of_play ReclaimsOwnRecv smallConfig
    [.accept { HandlerEnv.idle with accept := [.accepted 4] },
      .read 1 { HandlerEnv.idle with recv := .data [0, 12, 0, 0, 0, 0, 0, 0] },
      .read 1 { HandlerEnv.idle with recv := .eof }, .recycle 0]
    (fun s => s.recvQueue.mem.released) [0] (by decide)
  exact ⟨s, recvBuffer_owned hrun, hs⟩

/-- A client sends one heartbeat, is answered, and goes: the recycler frees the buffer that the
worker thread has freed. -/
theorem recvBuffer_released_twice : ¬ ∀ es s, process.Run es s → s.RecvOwned := by
  intro hall
  obtain ⟨s, hrun, hs⟩ := process_run_of_play (fun _ _ => True) smallConfig
    [.accept { HandlerEnv.idle with accept := [.accepted 4] },
      .read 1 { HandlerEnv.idle with recv := .data [0, 8, 0, 0, 0, 0, 0, 0] },
      .take, .handle 0 0, .push 0 0, .release 0,
      .read 1 { HandlerEnv.idle with recv := .eof }, .recycle 0]
    (fun s => s.recvQueue.mem.released) [0, 0] (by decide)
  have hnodup := (hall _ s hrun.of_restrict).once
  rw [hs] at hnodup
  simp at hnodup

end Server
end XiaoHGServer
