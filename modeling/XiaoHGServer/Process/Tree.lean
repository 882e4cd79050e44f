import XiaoHGServer.Model.Master

/-!
# What a step of the processes does

Every step changes one running process, ends one, adds one or waits for one. The
invariants of the process tree are proved from `Effect` and `Change`, which say all
that a step can do, and not from the functions behind them.
-/

namespace XiaoHGServer

namespace Life

variable {f : Process → Process}

@[simp] theorem process_map (l : Life) : (l.map f).process = l.process.map f := by
  cases l <;> rfl

@[simp] theorem reapedStatus_map (l : Life) : (l.map f).reapedStatus = l.reapedStatus := by
  cases l <;> rfl

@[simp] theorem isEnded_map (l : Life) : (l.map f).isEnded = l.isEnded := by
  cases l <;> rfl

end Life

namespace ProcessTree

/-! ### Steps -/

/-- Nobody waits to be waited for. -/
def Quiet (t : ProcessTree) : Prop := ∀ i status, i ≠ 0 → t.processes[i]? ≠ some (.ended status)

inductive Change (cfg : ProcConfig) (t : ProcessTree) (p : Process) : TreeEvent → Process → Prop
  | raise {pid} (sig : ℕ) : Change cfg t p (.send pid sig) (p.raise sig)
  | discard {pid} (sig : ℕ) : p.actions sig ≠ .handler →
    Change cfg t p (.deliver pid sig) (p.discard sig)
  | interrupt {pid} (sig : ℕ) : sig ∈ p.pending → sig ∉ p.mask → p.actions sig = .handler →
    Change cfg t p (.deliver pid sig) (p.interrupt sig)
  | enterHandler {pid env f fs} : p.frames = f :: fs → f.pc = .enter →
    Change cfg t p (.advance pid env) (p.enterHandler f)
  | stopStatus {pid env f fs iOne} : p.frames = f :: fs → f.pc = .getStatus iOne →
    (pid = 0 → t.Quiet) → Change cfg t p (.advance pid env) (p.setHandler .leave)
  | leaveHandler {pid env f fs} : p.frames = f :: fs → f.pc = .leave →
    Change cfg t p (.advance pid env) (p.leaveHandler f)
  | registerSignals {pid env} : p.frames = [] → p.pc = .registerSignals →
    Change cfg t p (.advance pid env) (p.registerSignals env.ok)
  | setMasterTitle {pid env} : p.frames = [] → p.pc = .setMasterTitle →
    Change cfg t p (.advance pid env) { p with pc := .forkWorker 0 }
  | created {pid env i} : p.frames = [] → p.pc = .forkWorker i → cfg.workProcessCount ≤ i →
    Change cfg t p (.advance pid env) { p with pc := .setSigEmpty }
  | setSigEmpty {pid env} : p.frames = [] → p.pc = .setSigEmpty →
    Change cfg t p (.advance pid env) { p with stSet := ∅, pc := .setSigSuspend }
  | sigsuspend {pid env} : p.frames = [] → p.pc = .setSigSuspend →
    Change cfg t p (.advance pid env) p.sigsuspend
  | setWorkerTitle {pid env} : p.frames = [] → p.pc = .setWorkerTitle →
    Change cfg t p (.advance pid env) { p with processID := workerProcess, pc := .setMask }
  | setMask {pid env} : p.frames = [] → p.pc = .setMask →
    Change cfg t p (.advance pid env) { p with mask := ∅, pc := .createThreads }
  | createThreads {pid env} : p.frames = [] → p.pc = .createThreads →
    Change cfg t p (.advance pid env) { p with pc := .openListening 0 }
  | openListening {pid env i sockFd bound} : p.frames = [] → p.pc = .openListening i →
    i < cfg.listenPortCount → bound ∉ t.boundPorts →
    (cfg.listenPort i ≠ 0 → bound = cfg.listenPort i) →
    Change cfg t p (.advance pid env) { p with
      listenSocketList := p.listenSocketList ++ [⟨cfg.listenPort i, sockFd, bound⟩]
      pc := .openListening (i + 1) }
  | opened {pid env i} : p.frames = [] → p.pc = .openListening i → cfg.listenPortCount ≤ i →
    p.listenSocketList ≠ [] → Change cfg t p (.advance pid env) { p with pc := .initEpoll }
  | initEpoll {pid env} : p.frames = [] → p.pc = .initEpoll →
    Change cfg t p (.advance pid env) { p with pc := .serving (Server.boot cfg.server env.now
      env.recvMem env.sendMem env.timerMem (p.listenSocketList.map Listening.sockFd)) }
  | work {pid e s s'} : p.pc = .serving s → s.Enabled e → s.next e = some s' →
    Change cfg t p (.work pid e) { p with pc := .serving s' }

/-- Why a process calls `exit(0)`: a call fails, its ports cannot be opened, or what happens while
it serves ends it. -/
def Exits (p : Process) : TreeEvent → Prop
  | .advance _ env => p.frames = [] ∧ (env.ok = false ∨ ∃ i, p.pc = .openListening i)
  | .work _ e => ∃ s, p.pc = .serving s ∧ s.Enabled e ∧ s.next e = none
  | _ => False

inductive Effect (cfg : ProcConfig) (t : ProcessTree) : TreeEvent → ProcessTree → Prop
  | change {e p} (f : Process → Process) : t.process e.pid = some p → Change cfg t p e (f p) →
    Effect cfg t e (t.modify e.pid f)
  | signalled {pid sig p} : t.process pid = some p → sig ∈ p.pending →
    p.actions sig = .default → endsByDefault sig = true →
    Effect cfg t (.deliver pid sig) (t.finish pid sig)
  | exited {e p} : t.process e.pid = some p → Exits p e → Effect cfg t e (t.finish e.pid 0)
  | forked {pid env p i} : t.process pid = some p → p.frames = [] → p.pc = .forkWorker i →
    i < cfg.workProcessCount → Effect cfg t (.advance pid env)
      ({ t with processes := t.processes ++ [Life.running p.child] }.modify pid
        fun p => { p with pc := .forkWorker (i + 1) })
  | reaped {env p f fs iOne i status} : t.process 0 = some p → p.frames = f :: fs →
    f.pc = .getStatus iOne → i ≠ 0 → t.processes[i]? = some (.ended status) →
    Effect cfg t (.advance 0 env) ((t.reap i).modify 0 fun p => p.setHandler (.getStatus true))
  | interrupted {e} : Effect cfg t e t

variable {cfg : ProcConfig} {t : ProcessTree} {e : TreeEvent} {pid q i : ℕ} {p : Process}
  {f : Process → Process} {env : CallEnv}

/-! ### Running processes -/

theorem process_modify (t : ProcessTree) (pid : ℕ) (f : Process → Process) (q : ℕ) :
    (t.modify pid f).process q = if pid = q then (t.process q).map f else t.process q := by
  unfold process modify
  rw [List.getElem?_modify]
  cases t.processes[q]? with
  | none => simp
  | some l => by_cases h : pid = q <;> simp [h]

theorem process_modify_self (h : t.process pid = some p) :
    (t.modify pid f).process pid = some (f p) := by
  rw [process_modify, if_pos rfl, h]
  rfl

theorem process_modify_of_ne (h : pid ≠ q) : (t.modify pid f).process q = t.process q := by
  rw [process_modify, if_neg h]

theorem process_eq_some_iff : t.process pid = some p ↔ t.processes[pid]? = some (.running p) := by
  unfold process
  rw [Option.bind_eq_some_iff]
  constructor
  · rintro ⟨l, hl, hp⟩
    cases l with
    | running p' => rw [hl, ← Option.some.inj hp]
    | ended status => cases hp
    | reaped status => cases hp
  · exact fun h => ⟨_, h, rfl⟩

theorem lt_length_of_process (h : t.process pid = some p) : pid < t.processes.length :=
  (List.getElem?_eq_some_iff.mp (process_eq_some_iff.mp h)).1

theorem process_gone (t : ProcessTree) (pid q : ℕ) (l : Life) (hl : l.process = none)
    (notices : List ℕ) :
    process ⟨t.processes.modify pid fun _ => l, notices⟩ q =
      if pid = q then none else t.process q := by
  unfold process
  rw [List.getElem?_modify]
  cases t.processes[q]? with
  | none => simp
  | some l' => by_cases h : pid = q <;> simp [h, hl]

theorem process_finish (t : ProcessTree) (pid status q : ℕ) : (t.finish pid status).process q =
    if pid = q then none else
      if q = 0 then (t.process 0).map fun p => p.raise sigChld else t.process q := by
  have hset := process_gone t pid q (.ended status) rfl t.notices
  unfold finish
  by_cases hpid : pid = 0
  · subst hpid
    rw [if_pos rfl, hset]
    by_cases hq : 0 = q
    · simp [hq]
    · rw [if_neg hq, if_neg hq, if_neg fun h => hq h.symm]
  · rw [if_neg hpid, process_modify, hset]
    by_cases hq : pid = q
    · simp [hq]
    · by_cases hq₀ : q = 0
      · subst hq₀
        simp [hq]
      · rw [if_neg hq, if_neg fun h => hq₀ h.symm, if_neg hq, if_neg hq₀]

theorem process_reap (t : ProcessTree) (i q : ℕ) : (t.reap i).process q = t.process q := by
  unfold reap
  split
  · rename_i status hi
    rw [process_gone t _ _ (.reaped status) rfl]
    split
    · rename_i h
      subst h
      simp [process, hi, Life.process]
    · rfl
  · rfl

theorem process_append (t : ProcessTree) (c : Process) (q : ℕ) :
    process { t with processes := t.processes ++ [Life.running c] } q =
      if q = t.processes.length then some c else t.process q := by
  unfold process
  dsimp only
  by_cases h : q = t.processes.length
  · subst h
    simp [Life.process]
  · rw [if_neg h]
    by_cases hlt : q < t.processes.length
    · rw [List.getElem?_append_left hlt]
    · rw [List.getElem?_eq_none (by simp; omega), List.getElem?_eq_none (by omega)]

theorem notices_finish {status : ℕ} : (t.finish pid status).notices = t.notices := by
  unfold finish
  split_ifs <;> rfl

/-! ### Inversion -/

theorem quiet_of_tail (h : t.processes.tail.any Life.isEnded = false) : t.Quiet := by
  intro i status hi hl
  obtain ⟨i, rfl⟩ := Nat.exists_eq_succ_of_ne_zero hi
  rw [← List.getElem?_tail] at hl
  have := (List.any_eq_false.mp h) _ (List.mem_of_getElem? hl)
  simp [Life.isEnded] at this

theorem effect_deliver {sig : ℕ} (hp : t.process pid = some p) (hpending : sig ∈ p.pending)
    (hmask : sig ∉ p.mask) : Effect cfg t (.deliver pid sig) (t.deliver pid p sig) := by
  unfold deliver
  cases hact : p.actions sig with
  | handler => exact .change (e := .deliver pid sig) _ hp (.interrupt sig hpending hmask hact)
  | ignore => exact .change (e := .deliver pid sig) _ hp (.discard sig (by simp [hact]))
  | default =>
    dsimp only
    split_ifs with hends
    · exact .signalled hp hpending hact hends
    · exact .change (e := .deliver pid sig) _ hp (.discard sig (by simp [hact]))

theorem effect_advanceHandler {f : SigFrame} {fs : List SigFrame} (hp : t.process pid = some p)
    (hf : p.frames = f :: fs) (hlegal : t.AdvanceLegal pid p env) :
    Effect cfg t (.advance pid env) (t.advanceHandler pid f env) := by
  have hwait : ∀ iOne, f.pc = .getStatus iOne → t.WaitLegal pid env.wait := by
    intro iOne hpc
    simpa [AdvanceLegal, hf, hpc] using hlegal
  unfold advanceHandler
  cases hpc : f.pc with
  | enter => exact .change (e := .advance pid env) _ hp (.enterHandler hf hpc)
  | leave => exact .change (e := .advance pid env) _ hp (.leaveHandler hf hpc)
  | getStatus iOne =>
    have hlegal := hwait iOne hpc
    dsimp only
    generalize env.wait = w at hlegal
    cases w with
    | interrupted => exact .interrupted
    | zero =>
      exact .change (e := .advance pid env) _ hp
        (.stopStatus hf hpc fun _ => quiet_of_tail hlegal.2.1)
    | noChild =>
      refine .change (e := .advance pid env) _ hp (.stopStatus hf hpc fun hpid => ?_)
      rcases hlegal with hne | hnone
      · exact absurd hpid hne
      · exact quiet_of_tail hnone.1
    | child i =>
      obtain ⟨rfl, hi, hended⟩ := hlegal
      cases hl : t.processes[i]? with
      | none => simp [hl] at hended
      | some l =>
        cases l with
        | ended status => exact .reaped hp hf hpc hi hl
        | running p => simp [hl, Life.isEnded] at hended
        | reaped status => simp [hl, Life.isEnded] at hended

theorem effect_openListening (hp : t.process pid = some p) (hf : p.frames = [])
    (hpc : p.pc = .openListening i) (hi : i < cfg.listenPortCount) :
    Effect cfg t (.advance pid env) (t.openListening cfg pid i env.listen) := by
  have hexit : Effect cfg t (.advance pid env) (t.finish pid 0) :=
    .exited (e := .advance pid env) hp ⟨hf, Or.inr ⟨i, hpc⟩⟩
  unfold openListening
  dsimp only
  generalize hbound : (if cfg.listenPort i = 0 then env.listen.ephemeral else cfg.listenPort i) =
    bound
  split
  · exact hexit
  split
  · exact hexit
  rename_i hbind
  split
  · exact hexit
  refine .change (e := .advance pid env) (fun p => { p with
    listenSocketList := p.listenSocketList ++ [⟨cfg.listenPort i, _, bound⟩]
    pc := .openListening (i + 1) }) hp (.openListening hf hpc hi ?_ ?_)
  · simp only [Bool.or_eq_true, not_or, List.contains_iff_mem] at hbind
    exact hbind.2
  · exact fun hport => by rw [← hbound, if_neg hport]

theorem effect_advanceProgram (hp : t.process pid = some p) (hf : p.frames = []) :
    Effect cfg t (.advance pid env) (t.advanceProgram cfg pid p env) := by
  have hchange {f : Process → Process} (h : Change cfg t p (.advance pid env) (f p)) :
      Effect cfg t (.advance pid env) (t.modify pid f) := .change (e := .advance pid env) f hp h
  have hexit (hok : ¬ env.ok = true) : Effect cfg t (.advance pid env) (t.finish pid 0) :=
    .exited (e := .advance pid env) hp ⟨hf, Or.inl (Bool.not_eq_true _ ▸ hok)⟩
  unfold advanceProgram
  cases hpc : p.pc with
  | registerSignals => exact hchange (.registerSignals hf hpc)
  | setMasterTitle =>
    dsimp only
    split_ifs with hok
    · exact hchange (.setMasterTitle hf hpc)
    · exact hexit hok
  | forkWorker i =>
    dsimp only
    split_ifs with hi hok
    · exact .forked hp hf hpc hi
    · exact hexit hok
    · exact hchange (.created hf hpc (Nat.le_of_not_lt hi))
  | setSigEmpty => exact hchange (.setSigEmpty hf hpc)
  | setSigSuspend => exact hchange (.sigsuspend hf hpc)
  | suspended mask => exact .interrupted
  | setWorkerTitle =>
    dsimp only
    split_ifs with hok
    · exact hchange (.setWorkerTitle hf hpc)
    · exact hexit hok
  | setMask =>
    dsimp only
    split_ifs with hok
    · exact hchange (.setMask hf hpc)
    · exact hexit hok
  | createThreads =>
    dsimp only
    split_ifs with hok
    · exact hchange (.createThreads hf hpc)
    · exact hexit hok
  | openListening i =>
    dsimp only
    split_ifs with hi hnone
    · exact effect_openListening hp hf hpc hi
    · exact .exited (e := .advance pid env) hp ⟨hf, Or.inr ⟨i, hpc⟩⟩
    · exact hchange (.opened hf hpc (Nat.le_of_not_lt hi) fun hnil => hnone (by simp [hnil]))
  | initEpoll =>
    dsimp only
    split_ifs with hok
    · exact hchange (.initEpoll hf hpc)
    · exact hexit hok
  | serving s => exact .interrupted

theorem effect_of_enabled (h : t.Enabled e) : Effect cfg t e (t.next cfg e) := by
  cases e with
  | send pid sig =>
    obtain ⟨p, hp⟩ := Option.isSome_iff_exists.mp h.1
    exact .change (e := .send pid sig) _ hp (.raise sig)
  | deliver pid sig =>
    cases hp : t.process pid with
    | none => simp [Enabled, hp] at h
    | some p =>
      have hsig : sig ∈ p.pending ∧ sig ∉ p.mask := by simpa [Enabled, hp] using h
      simp only [next, hp]
      exact effect_deliver hp hsig.1 hsig.2
  | advance pid env =>
    obtain ⟨p, hp, hlegal⟩ := h
    simp only [next, hp]
    cases hf : p.frames with
    | nil => exact effect_advanceProgram hp hf
    | cons f fs => exact effect_advanceHandler hp hf hlegal
  | work pid e =>
    obtain ⟨p, s, hp, hpc, he⟩ := h
    simp only [next, hp, hpc]
    cases hs : s.next e with
    | none => exact .exited (e := .work pid e) hp ⟨s, hpc, he, hs⟩
    | some s' => exact .change (e := .work pid e) _ hp (.work hpc he hs)

/-! ### What is true of every process -/

/-- What survives a step of its process, a signal, `fork` and `waitpid` holds of every process. -/
theorem Effect.forall_process {P : ℕ → Process → Prop} {t' : ProcessTree} (h : Effect cfg t e t')
    (hP : ∀ q p, t.process q = some p → P q p)
    (change : ∀ p p', t.process e.pid = some p → P e.pid p → Change cfg t p e p' → P e.pid p')
    (raise : ∀ p, P 0 p → P 0 (p.raise sigChld))
    (fork : ∀ p i, t.process e.pid = some p → P e.pid p → p.frames = [] →
      p.pc = .forkWorker i → i < cfg.workProcessCount →
        P e.pid { p with pc := .forkWorker (i + 1) } ∧ P t.processes.length p.child)
    (reap : ∀ p f fs iOne, t.process 0 = some p → P 0 p → p.frames = f :: fs →
      f.pc = .getStatus iOne → P 0 (p.setHandler (.getStatus true))) :
    ∀ q p, t'.process q = some p → P q p := by
  have hmodify {u : ProcessTree} {f : Process → Process} {pid : ℕ} {p : Process}
      (hp : u.process pid = some p) (hu : ∀ q p, u.process q = some p → pid ≠ q → P q p)
      (hf : P pid (f p)) : ∀ q p, (u.modify pid f).process q = some p → P q p := by
    intro q p' hq
    rw [process_modify] at hq
    split_ifs at hq with heq
    · subst heq
      rw [hp] at hq
      exact Option.some.inj hq ▸ hf
    · exact hu q p' hq heq
  have hfinish {pid status : ℕ} : ∀ q p, (t.finish pid status).process q = some p → P q p := by
    intro q p' hq
    rw [process_finish] at hq
    split_ifs at hq with heq hq₀
    · subst hq₀
      obtain ⟨p, hp, rfl⟩ := Option.map_eq_some_iff.mp hq
      exact raise p (hP 0 p hp)
    · exact hP q p' hq
  cases h with
  | @change e p f hp hc =>
    exact hmodify hp (fun q p hq _ => hP q p hq) (change p _ hp (hP _ p hp) hc)
  | signalled => exact hfinish
  | exited => exact hfinish
  | @forked pid env p i hp hf hpc hi =>
    obtain ⟨hparent, hchild⟩ := fork p i hp (hP _ p hp) hf hpc hi
    refine hmodify (by rw [process_append, if_neg (lt_length_of_process hp).ne, hp]) ?_ hparent
    intro q p' hq _
    rw [process_append] at hq
    split_ifs at hq with hnew
    · exact hnew ▸ Option.some.inj hq ▸ hchild
    · exact hP q p' hq
  | @reaped env p f fs iOne i status hp hf hpc hi hl =>
    refine hmodify (by rw [process_reap, hp]) (fun q p' hq _ => ?_)
      (reap p f fs iOne hp (hP 0 p hp) hf hpc)
    rw [process_reap] at hq
    exact hP q p' hq
  | interrupted => exact hP

theorem Start.forall_process {P : ℕ → Process → Prop} (h : Start t)
    (master : ∀ actions mask stSet signalNo, (∀ sig, actions sig ≠ .handler) → signalNo ≠ 0 →
      P 0 (.master actions mask stSet signalNo)) :
    ∀ q p, t.process q = some p → P q p := by
  obtain ⟨actions, mask, stSet, signalNo, hdefault, hne, rfl⟩ := h
  intro q p hp
  rw [process_eq_some_iff] at hp
  cases q with
  | zero =>
    have := master actions mask stSet signalNo hdefault hne
    simp only [List.getElem?_cons_zero, Option.some.injEq, Life.running.injEq] at hp
    rwa [hp] at this
  | succ q => simp at hp

/-- What every start state has and every step keeps. -/
theorem run_invariant {I : ProcessTree → Prop} {es : List TreeEvent}
    (h : (processTree cfg).Run es t) (h₀ : ∀ t, Start t → I t)
    (h₁ : ∀ t e t', I t → Effect cfg t e t' → I t') : I t := by
  refine h.invariant h₀ fun s e s' hs hstep => ?_
  obtain ⟨he, hnext⟩ := hstep
  obtain rfl := Option.some.inj hnext
  exact h₁ s e _ hs (effect_of_enabled he)

/-- The same for runs whose steps meet a condition. -/
theorem run_restrict_invariant {I : ProcessTree → Prop} {allow : ProcessTree → TreeEvent → Prop}
    {es : List TreeEvent} (h : ((processTree cfg).restrict allow).Run es t)
    (h₀ : ∀ t, Start t → I t)
    (h₁ : ∀ t e t', I t → allow t e → Effect cfg t e t' → I t') : I t := by
  refine h.invariant h₀ fun s e s' hs hstep => ?_
  obtain ⟨hallow, he, hnext⟩ := hstep
  obtain rfl := Option.some.inj hnext
  exact h₁ s e _ hs hallow (effect_of_enabled he)

end ProcessTree
end XiaoHGServer
