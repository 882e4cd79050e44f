import XiaoHGServer.Process.Tree

/-!
# The creation of the workers

`RegisterSignals` blocks the first two signals of its array, `SIGCHLD` and
`SIGALRM`, until the master sleeps. So `waitpid` is not called before the last
worker has been created, and only the master creates any.
-/

namespace XiaoHGServer

namespace ProgramPc

/-- The master registers its signals or creates its workers. -/
def IsCreating : ProgramPc → Prop
  | setMasterTitle => True
  | forkWorker _ => True
  | setSigEmpty => True
  | _ => False

def IsWorker : ProgramPc → Prop
  | setWorkerTitle => True
  | setMask => True
  | createThreads => True
  | openListening _ => True
  | initEpoll => True
  | serving _ => True
  | _ => False

def IsMaster (count n : ℕ) : ProgramPc → Prop
  | registerSignals => n = 1
  | setMasterTitle => n = 1
  | forkWorker i => n = i + 1 ∧ i ≤ count
  | setSigEmpty => n = count + 1
  | setSigSuspend => n = count + 1
  | suspended _ => n = count + 1
  | _ => False

end ProgramPc

def blockedSignals : Finset ℕ := {sigAlrm, sigChld}

namespace Process

variable {p : Process} {f : SigFrame} {fs : List SigFrame} {sig : ℕ} {pc : HandlerPc}

/-- The mask of the program, when the handlers have returned. -/
def programMask (p : Process) : Finset ℕ := (p.frames.getLast?.map SigFrame.mask).getD p.mask

theorem programMask_nil (hf : p.frames = []) : p.programMask = p.mask := by
  rw [programMask, hf]
  rfl

theorem programMask_cons (hf : p.frames = f :: fs) :
    p.programMask = (fs.getLast?.getD f).mask := by
  rw [programMask, hf, List.getLast?_cons]
  rfl

/-- Only `SIGCHLD` takes `SignalHandler` into `ProcessGetStatus`; and the blocked signals are not
handled while workers are created. -/
structure Shielded (p : Process) : Prop where
  status : ∀ f ∈ p.frames, ∀ iOne, f.pc = .getStatus iOne → f.signalNo = sigChld
  mask : p.pc.IsCreating → blockedSignals ⊆ p.mask
  frames : p.pc.IsCreating → ∀ f ∈ p.frames, f.signalNo ≠ sigChld ∧ blockedSignals ⊆ f.mask
  program : p.pc = .setSigSuspend → blockedSignals ⊆ p.programMask
  suspended : ∀ mask, p.pc = .suspended mask → blockedSignals ⊆ mask ∧ p.frames = []

/-- A process that is not the master's program, or has not come to `RegisterSignals` yet. -/
theorem shielded_of_pc (hstatus : ∀ f ∈ p.frames, ∀ iOne, f.pc = .getStatus iOne →
    f.signalNo = sigChld) (hcreating : ¬ p.pc.IsCreating) (hsuspend : p.pc ≠ .setSigSuspend)
    (hsuspended : ∀ mask, p.pc ≠ .suspended mask) : p.Shielded where
  status := hstatus
  mask h := absurd h hcreating
  frames h := absurd h hcreating
  program h := absurd h hsuspend
  suspended mask h := absurd h (hsuspended mask)

theorem shielded_of_creating (hf : p.frames = []) (hmask : blockedSignals ⊆ p.mask)
    (hsuspended : ∀ mask, p.pc ≠ .suspended mask) : p.Shielded where
  status := by simp [hf]
  mask _ := hmask
  frames _ := by simp [hf]
  program _ := by rwa [programMask_nil hf]
  suspended mask h := absurd h (hsuspended mask)

theorem Shielded.raise (h : p.Shielded) : (p.raise sig).Shielded :=
  ⟨h.status, h.mask, h.frames, h.program, h.suspended⟩

theorem Shielded.discard (h : p.Shielded) : (p.discard sig).Shielded :=
  ⟨h.status, h.mask, h.frames, h.program, h.suspended⟩

theorem Shielded.interrupt (h : p.Shielded) (hmask : sig ∉ p.mask) :
    (p.interrupt sig).Shielded := by
  unfold Process.interrupt
  split
  · rename_i mask hpc
    obtain ⟨hblocked, hframes⟩ := h.suspended mask hpc
    refine ⟨?_, nofun, nofun, fun _ => ?_, nofun⟩
    · simp [hframes]
    · rw [programMask_cons rfl, hframes]
      exact hblocked
  · rename_i hne
    refine ⟨?_, fun hc => ?_, fun hc => ?_, fun hpc => ?_, fun mask hpc => absurd hpc (hne mask)⟩
    · intro f hf
      rcases List.mem_cons.mp hf with rfl | hf
      · exact nofun
      · exact h.status f hf
    · exact (h.mask hc).trans (Finset.subset_insert _ _)
    · intro f hf
      rcases List.mem_cons.mp hf with rfl | hf
      · refine ⟨?_, h.mask hc⟩
        rintro rfl
        exact hmask (h.mask hc (by decide))
      · exact h.frames hc f hf
    · have hprogram := h.program hpc
      rw [programMask_cons rfl]
      cases hf : p.frames with
      | nil => rwa [programMask_nil hf] at hprogram
      | cons g gs =>
        rw [programMask_cons hf] at hprogram
        rwa [List.getLast?_cons]

theorem Shielded.setHandler (h : p.Shielded) (hf : p.frames = f :: fs)
    (hpc : ∀ iOne, pc = .getStatus iOne → f.signalNo = sigChld) : (p.setHandler pc).Shielded := by
  have hframes : (p.setHandler pc).frames = { f with pc := pc } :: fs := by
    rw [Process.setHandler, hf]
    rfl
  refine ⟨?_, h.mask, fun hc => ?_, fun hs => ?_, fun mask hs => ?_⟩
  · rw [hframes]
    intro g hg
    rcases List.mem_cons.mp hg with rfl | hg
    · exact hpc
    · exact h.status g (by rw [hf]; exact List.mem_cons_of_mem _ hg)
  · rw [hframes]
    have hold := h.frames hc
    rw [hf] at hold
    intro g hg
    rcases List.mem_cons.mp hg with rfl | hg
    · exact hold f List.mem_cons_self
    · exact hold g (List.mem_cons_of_mem _ hg)
  · have hprogram := h.program hs
    rw [programMask_cons hf] at hprogram
    rw [programMask_cons hframes]
    cases hlast : fs.getLast? <;> simpa [hlast] using hprogram
  · rw [(h.suspended mask hs).2] at hf
    cases hf

theorem Shielded.leaveHandler (h : p.Shielded) (hf : p.frames = f :: fs) :
    (p.leaveHandler f).Shielded := by
  have hframes : (p.leaveHandler f).frames = fs := by rw [Process.leaveHandler, hf]; rfl
  have hmem {g : SigFrame} (hg : g ∈ fs) : g ∈ p.frames := by
    rw [hf]
    exact List.mem_cons_of_mem _ hg
  refine ⟨?_, fun hc => ?_, fun hc => ?_, fun hs => ?_, fun mask hs => ?_⟩
  · rw [hframes]
    exact fun g hg => h.status g (hmem hg)
  · exact (h.frames hc f (by rw [hf]; exact List.mem_cons_self)).2
  · rw [hframes]
    exact fun g hg => h.frames hc g (hmem hg)
  · have hprogram := h.program hs
    rw [programMask_cons hf] at hprogram
    cases hfs : fs with
    | nil =>
      rw [programMask_nil (by rw [hframes, hfs])]
      rwa [hfs] at hprogram
    | cons g gs =>
      rw [programMask_cons (by rw [hframes, hfs])]
      simpa [hfs, List.getLast?_cons] using hprogram
  · rw [(h.suspended mask hs).2] at hf
    cases hf

theorem shielded_registerSignals (hf : p.frames = []) : (p.registerSignals true).Shielded := by
  refine ⟨?_, fun _ => ?_, fun _ => ?_, nofun, nofun⟩
  · simp [Process.registerSignals, hf]
  · exact Finset.subset_union_right
  · simp [Process.registerSignals, hf]

end Process

namespace ProcessTree

variable {cfg : ProcConfig} {t t' : ProcessTree} {e : TreeEvent} {es : List TreeEvent}
  {pid q i : ℕ} {p p' : Process}

/-- `sigprocmask` does not fail in `RegisterSignals`. -/
def Registers (t : ProcessTree) : TreeEvent → Prop
  | .advance pid env =>
    (t.process pid).any (fun p => match p.pc with | .registerSignals => true | _ => false) = true →
      env.ok = true
  | _ => True

instance (t : ProcessTree) : (e : TreeEvent) → Decidable (t.Registers e)
  | .advance _ _ => inferInstanceAs (Decidable (_ → _))
  | .send _ _ | .deliver _ _ | .work _ _ => isTrue trivial

theorem Change.shielded (hc : Change cfg t p e p') (hallow : t.Registers e)
    (hp : t.process e.pid = some p) (h : p.Shielded) : p'.Shielded := by
  cases hc with
  | raise sig => exact h.raise
  | discard sig => exact h.discard
  | interrupt sig hm hmask => exact h.interrupt hmask
  | @enterHandler pid env f fs hf hpc =>
    have hset :
        (p.setHandler (if f.signalNo = sigChld then .getStatus false else .leave)).Shielded := by
      refine h.setHandler hf fun iOne heq => ?_
      split_ifs at heq with hsig
      exact hsig
    exact ⟨hset.status, hset.mask, hset.frames, hset.program, hset.suspended⟩
  | stopStatus hf hpc => exact h.setHandler hf nofun
  | leaveHandler hf hpc => exact h.leaveHandler hf
  | @registerSignals pid env hf hpc =>
    have hok : env.ok = true := hallow (by rw [show t.process pid = some p from hp]; simp [hpc])
    rw [hok]
    exact Process.shielded_registerSignals hf
  | setMasterTitle hf hpc =>
    exact Process.shielded_of_creating hf (h.mask (by rw [hpc]; trivial)) nofun
  | created hf hpc =>
    exact Process.shielded_of_creating hf (h.mask (by rw [hpc]; trivial)) nofun
  | setSigEmpty hf hpc =>
    exact Process.shielded_of_creating hf (h.mask (by rw [hpc]; trivial)) nofun
  | sigsuspend hf hpc =>
    have hprogram := h.program hpc
    rw [Process.programMask_nil hf] at hprogram
    refine ⟨h.status, nofun, nofun, nofun, fun mask heq => ⟨?_, hf⟩⟩
    exact ProgramPc.suspended.inj heq ▸ hprogram
  | _ => exact Process.shielded_of_pc h.status (by simp [ProgramPc.IsCreating]) nofun nofun

theorem length_modify {f : Process → Process} :
    (t.modify pid f).processes.length = t.processes.length := List.length_modify ..

theorem length_finish {status : ℕ} :
    (t.finish pid status).processes.length = t.processes.length := by
  unfold finish
  split_ifs
  · exact List.length_modify ..
  · exact length_modify.trans (List.length_modify ..)

theorem length_reap : (t.reap i).processes.length = t.processes.length := by
  unfold reap
  split
  · exact List.length_modify ..
  · rfl

theorem Change.isWorker (hc : Change cfg t p e p') (h : p.pc.IsWorker) : p'.pc.IsWorker := by
  cases hc with
  | interrupt sig =>
    unfold Process.interrupt
    split
    · rename_i hpc
      rw [hpc] at h
      exact h.elim
    · exact h
  | registerSignals hf hpc => exact absurd h (by simp [hpc, ProgramPc.IsWorker])
  | setMasterTitle hf hpc => exact absurd h (by simp [hpc, ProgramPc.IsWorker])
  | created hf hpc => exact absurd h (by simp [hpc, ProgramPc.IsWorker])
  | setSigEmpty hf hpc => exact absurd h (by simp [hpc, ProgramPc.IsWorker])
  | sigsuspend hf hpc => exact absurd h (by simp [hpc, ProgramPc.IsWorker])
  | raise => exact h
  | discard => exact h
  | enterHandler => exact h
  | stopStatus => exact h
  | leaveHandler => exact h
  | _ => trivial

theorem Change.isMaster {n : ℕ} (hc : Change cfg t p e p')
    (h : p.pc.IsMaster cfg.workProcessCount n) : p'.pc.IsMaster cfg.workProcessCount n := by
  cases hc with
  | interrupt sig =>
    unfold Process.interrupt
    split
    · rename_i hpc
      rw [hpc] at h
      exact h
    · exact h
  | registerSignals hf hpc => rwa [hpc] at h
  | setMasterTitle hf hpc =>
    rw [hpc] at h
    exact ⟨h, Nat.zero_le _⟩
  | created hf hpc hi =>
    rw [hpc] at h
    obtain ⟨hn, hle⟩ := h
    exact hn.trans (by omega)
  | setSigEmpty hf hpc => rwa [hpc] at h
  | sigsuspend hf hpc => rwa [hpc] at h
  | raise => exact h
  | discard => exact h
  | enterHandler => exact h
  | stopStatus => exact h
  | leaveHandler => exact h
  | setWorkerTitle hf hpc => rwa [hpc] at h
  | setMask hf hpc => rwa [hpc] at h
  | createThreads hf hpc => rwa [hpc] at h
  | openListening hf hpc => rwa [hpc] at h
  | opened hf hpc => rwa [hpc] at h
  | initEpoll hf hpc => rwa [hpc] at h
  | work hpc => rwa [hpc] at h

/-- The master has created as many processes as its place says, and its signals are blocked
meanwhile. -/
structure Created (cfg : ProcConfig) (t : ProcessTree) : Prop where
  shielded : ∀ q p, t.process q = some p → p.Shielded
  master : ∀ p, t.process 0 = some p →
    p.pc.IsMaster cfg.workProcessCount t.processes.length
  worker : ∀ q p, q ≠ 0 → t.process q = some p → p.pc.IsWorker
  few : t.processes.length ≤ cfg.workProcessCount + 1
  last : t.notices ≠ [] → t.processes.length = cfg.workProcessCount + 1

theorem created_start (h : Start t) : Created cfg t := by
  have hone : t.processes.length = 1 ∧ t.notices = [] := by
    obtain ⟨actions, mask, stSet, signalNo, -, -, rfl⟩ := h
    exact ⟨rfl, rfl⟩
  have hall := h.forall_process (P := fun q p => q = 0 ∧ p.pc = .registerSignals ∧ p.frames = [])
    fun _ _ _ _ _ _ => ⟨rfl, rfl, rfl⟩
  refine ⟨fun q p hp => ?_, fun p hp => ?_, fun q p hq hp => absurd (hall q p hp).1 hq, ?_, ?_⟩
  · obtain ⟨-, hpc, hf⟩ := hall q p hp
    refine Process.shielded_of_pc (by simp [hf]) (by simp [hpc, ProgramPc.IsCreating]) ?_ ?_ <;>
      simp [hpc]
  · rw [(hall 0 p hp).2.1]
    exact hone.1
  · omega
  · exact fun hne => absurd hone.2 hne

theorem Created.fork (h : Created cfg t) (hp : t.process pid = some p)
    (hpc : p.pc = .forkWorker i) : pid = 0 ∧ t.processes.length = i + 1 := by
  have hpid : pid = 0 := by
    by_contra hne
    have := h.worker pid p hne hp
    rw [hpc] at this
    exact this
  subst hpid
  have hmaster := h.master p hp
  rw [hpc] at hmaster
  exact ⟨rfl, hmaster.1⟩

theorem Created.reap (h : Created cfg t) (hp : t.process 0 = some p) {f : SigFrame}
    {fs : List SigFrame} {iOne : Bool} {status : ℕ} (hf : p.frames = f :: fs)
    (hpc : f.pc = .getStatus iOne) (hi : i ≠ 0) (hl : t.processes[i]? = some (.ended status)) :
    t.processes.length = cfg.workProcessCount + 1 := by
  have hshielded := h.shielded 0 p hp
  have hmem : f ∈ p.frames := by
    rw [hf]
    exact List.mem_cons_self
  have hcreating : ¬ p.pc.IsCreating := fun hc =>
    (hshielded.frames hc f hmem).1 (hshielded.status f hmem iOne hpc)
  have hmaster := h.master p hp
  have hlt : i < t.processes.length := (List.getElem?_eq_some_iff.mp hl).1
  cases hpc : p.pc with
  | registerSignals =>
    rw [hpc] at hmaster
    have hone : t.processes.length = 1 := hmaster
    omega
  | setMasterTitle => exact absurd (by rw [hpc]; trivial) hcreating
  | forkWorker i => exact absurd (by rw [hpc]; trivial) hcreating
  | setSigEmpty => exact absurd (by rw [hpc]; trivial) hcreating
  | setSigSuspend =>
    rw [hpc] at hmaster
    exact hmaster
  | suspended mask =>
    rw [hpc] at hmaster
    exact hmaster
  | _ =>
    rw [hpc] at hmaster
    exact hmaster.elim

theorem Created.counts (h : Created cfg t) (he : Effect cfg t e t') :
    t'.processes.length = t.processes.length ∧
      (t'.notices = t.notices ∨ t.processes.length = cfg.workProcessCount + 1) ∨
    t'.processes.length = t.processes.length + 1 ∧
      t.processes.length ≤ cfg.workProcessCount ∧ t'.notices = t.notices := by
  cases he with
  | change => exact Or.inl ⟨length_modify, Or.inl rfl⟩
  | signalled => exact Or.inl ⟨length_finish, Or.inl notices_finish⟩
  | exited => exact Or.inl ⟨length_finish, Or.inl notices_finish⟩
  | forked hp hf hpc hi =>
    obtain ⟨-, hlen⟩ := h.fork hp hpc
    refine Or.inr ⟨length_modify.trans (by simp), by omega, rfl⟩
  | reaped hp hf hpc hi hl =>
    exact Or.inl ⟨length_modify.trans length_reap, Or.inr (h.reap hp hf hpc hi hl)⟩
  | interrupted => exact Or.inl ⟨rfl, Or.inl rfl⟩

/-- The master goes on from place to place, and counts the workers. -/
theorem Created.step_master (h : Created cfg t) (he : Effect cfg t e t') :
    ∀ p, t'.process 0 = some p → p.pc.IsMaster cfg.workProcessCount t'.processes.length := by
  have hone {u : ProcessTree} {f : Process → Process} (hu : u.process 0 = t.process 0)
      (hf : ∀ p, t.process 0 = some p →
        (f p).pc.IsMaster cfg.workProcessCount u.processes.length) :
      ∀ p, (u.modify 0 f).process 0 = some p →
        p.pc.IsMaster cfg.workProcessCount (u.modify 0 f).processes.length := by
    intro p' hp'
    rw [process_modify, if_pos rfl, hu] at hp'
    obtain ⟨p, hp, rfl⟩ := Option.map_eq_some_iff.mp hp'
    rw [length_modify]
    exact hf p hp
  have hfinish {pid status : ℕ} : ∀ p, (t.finish pid status).process 0 = some p →
      p.pc.IsMaster cfg.workProcessCount (t.finish pid status).processes.length := by
    intro p' hp'
    rw [process_finish, if_pos rfl] at hp'
    split_ifs at hp'
    obtain ⟨p, hp, rfl⟩ := Option.map_eq_some_iff.mp hp'
    rw [length_finish]
    exact h.master p hp
  cases he with
  | @change e p f hp hc =>
    by_cases hpid : e.pid = 0
    · rw [hpid] at hp ⊢
      refine hone rfl fun p' hp' => ?_
      obtain rfl := Option.some.inj (hp.symm.trans hp')
      exact hc.isMaster (h.master p hp)
    · intro p' hp'
      rw [process_modify_of_ne hpid] at hp'
      rw [length_modify]
      exact h.master p' hp'
  | signalled => exact hfinish
  | exited => exact hfinish
  | @forked pid env p i hp hf hpc hi =>
    obtain ⟨rfl, hlen⟩ := h.fork hp hpc
    refine hone ?_ fun p' _ => ⟨by simp [hlen], hi⟩
    rw [process_append, if_neg (by omega)]
  | reaped hp hf hpc hi hl =>
    refine hone (process_reap ..) fun p' hp' => ?_
    rw [length_reap]
    exact h.master p' hp'
  | interrupted => exact h.master

theorem Created.step (h : Created cfg t) (hallow : t.Registers e) (he : Effect cfg t e t') :
    Created cfg t' where
  shielded := he.forall_process h.shielded
    (fun p p' hp hs hc => hc.shielded hallow hp hs) (fun p hs => hs.raise)
    (fun p i hp hs hf hpc hi =>
      ⟨Process.shielded_of_creating hf (hs.mask (by rw [hpc]; trivial)) nofun,
        Process.shielded_of_pc (by simp [Process.child]) (by simp [Process.child,
          ProgramPc.IsCreating]) nofun nofun⟩)
    fun p f fs iOne hp hs hf hpc => hs.setHandler hf fun _ _ =>
      hs.status f (by rw [hf]; exact List.mem_cons_self) iOne hpc
  master := h.step_master he
  worker := by
    have hall := he.forall_process (P := fun q p => q ≠ 0 → p.pc.IsWorker)
      (fun q p hp hq => h.worker q p hq hp) (fun p p' hp hw hc hq => hc.isWorker (hw hq))
      (fun p _ hq => absurd rfl hq)
      (fun p i hp hw hf hpc hi => ⟨fun hq => absurd (h.fork hp hpc).1 hq, fun _ => trivial⟩)
      (fun p f fs iOne hp hw hf hpc hq => absurd rfl hq)
    exact fun q p hq hp => hall q p hp hq
  few := by
    have := h.few
    rcases h.counts he with ⟨hlen, -⟩ | ⟨hlen, hle, -⟩ <;> omega
  last hne := by
    rcases h.counts he with ⟨hlen, hsame | hlast⟩ | ⟨hlen, hle, hsame⟩
    · rw [hlen]
      exact h.last (hsame ▸ hne)
    · rw [hlen, hlast]
    · have := h.last (hsame ▸ hne)
      omega

/-- At most the configured number of workers is created, by the master, which has `SIGCHLD` and
`SIGALRM` blocked meanwhile; it waits for a worker, or sleeps, with all of them created. -/
theorem workers_created (h : ((processTree cfg).restrict Registers).Run es t) :
    t.processes.length ≤ cfg.workProcessCount + 1 ∧
      (t.notices ≠ [] → t.processes.length = cfg.workProcessCount + 1) ∧
      (∀ q p, q ≠ 0 → t.process q = some p → p.pc.IsWorker) ∧
      ∀ p, t.process 0 = some p →
        p.pc.IsMaster cfg.workProcessCount t.processes.length ∧
        (p.pc.IsCreating → blockedSignals ⊆ p.mask ∧ ∀ f ∈ p.frames, f.signalNo ≠ sigChld) := by
  have hcreated : Created cfg t := run_restrict_invariant h (fun _ hs => created_start hs)
    fun _ _ _ hs hallow he => hs.step hallow he
  refine ⟨hcreated.few, hcreated.last, hcreated.worker, fun p hp => ⟨hcreated.master p hp, ?_⟩⟩
  intro hc
  have hshielded := hcreated.shielded 0 p hp
  exact ⟨hshielded.mask hc, fun f hf => (hshielded.frames hc f hf).1⟩

/-- The first worker ends before the second one is created, and the master does not hear of it
yet. -/
theorem workers_created_early : ∃ (cfg : ProcConfig) (t : ProcessTree) (p : Process),
    t.processes.map Life.status = [none, some 0] ∧ t.process 0 = some p ∧ sigChld ∈ p.pending ∧
      p.pc.IsMaster cfg.workProcessCount t.processes.length ∧ blockedSignals ⊆ p.mask := by
  let call (pid : ℕ) (ok : Bool) : TreeEvent :=
    .advance pid (.of ok .zero ⟨none, false, 0, false, false⟩)
  obtain ⟨t, hrun, ht⟩ := processTree_run_of_play Registers ⟨2, 0, fun _ => 0, Server.smallConfig⟩
    [call 0 true, call 0 true, call 0 true, call 1 false]
    (fun t => (t.processes.map Life.status, (t.process 0).map fun p : Process =>
      (decide (sigChld ∈ p.pending), match p.pc with | .forkWorker _ => true | _ => false)))
    ([none, some 0], some (true, true)) (by decide +kernel)
  obtain ⟨hstatus, hmaster⟩ := Prod.mk.inj ht
  obtain ⟨p, hp, hpt⟩ := Option.map_eq_some_iff.mp hmaster
  obtain ⟨hpending, hpc⟩ := Prod.mk.inj hpt
  obtain ⟨-, -, -, hall⟩ := workers_created hrun
  obtain ⟨hplace, hcreating⟩ := hall p hp
  refine ⟨_, t, p, hstatus, hp, of_decide_eq_true hpending, hplace, (hcreating ?_).1⟩
  cases heq : p.pc <;> simp [heq] at hpc
  trivial

end ProcessTree
end XiaoHGServer
