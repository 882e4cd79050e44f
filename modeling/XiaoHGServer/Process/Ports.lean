import XiaoHGServer.Pool.Growth
import XiaoHGServer.Process.Tree

/-!
# The ports of the workers

Every worker opens all listening ports by itself, and `bind` gives a port to one
socket. So workers exclude each other: one serves, and the others call `exit(0)`
when they come to its port.
-/

namespace XiaoHGServer

/-- The place in the program when `n` of `count` listening sockets are open. -/
def ProgramPc.HasOpened (count n : ℕ) : ProgramPc → Prop
  | openListening i => n = i ∧ i ≤ count
  | initEpoll => n = count ∧ 0 < count
  | serving _ => n = count ∧ 0 < count
  | _ => n = 0

namespace Process

variable {cfg : ProcConfig} {p : Process}

def bounds (p : Process) : List ℕ := p.listenSocketList.map Listening.bound

/-- The sockets are those of the first ports of the configuration. -/
structure Listens (cfg : ProcConfig) (p : Process) : Prop where
  opened : p.pc.HasOpened cfg.listenPortCount p.listenSocketList.length
  ports : p.listenSocketList.map Listening.port =
    (List.range p.listenSocketList.length).map cfg.listenPort
  bound : ∀ l ∈ p.listenSocketList, l.port ≠ 0 → l.bound = l.port

theorem listens_nil (hpc : p.pc.HasOpened cfg.listenPortCount 0)
    (hnil : p.listenSocketList = []) : Listens cfg p := by
  refine ⟨?_, ?_, ?_⟩ <;> simp [hnil, hpc]

theorem Listens.bounds_getElem? (h : Listens cfg p) {i : ℕ} (hi : i < p.listenSocketList.length)
    (hport : cfg.listenPort i ≠ 0) : p.bounds[i]? = some (cfg.listenPort i) := by
  have hget : (p.listenSocketList.map Listening.port)[i]? = some (cfg.listenPort i) := by
    rw [h.ports]
    simp [hi]
  rw [List.getElem?_map] at hget
  obtain ⟨l, hl, hlp⟩ := Option.map_eq_some_iff.mp hget
  rw [bounds, List.getElem?_map, hl, ← hlp]
  exact congrArg some (h.bound l (List.mem_of_getElem? hl) (by rwa [hlp]))

end Process

namespace ProcessTree

variable {cfg : ProcConfig} {t t' : ProcessTree} {e : TreeEvent} {es : List TreeEvent}
  {pid q i : ℕ} {p p' : Process} {s : Server}

/-- Only the loop of `OpenListeningSockets` opens a socket. -/
theorem Change.listenSocketList (hc : Change cfg t p e p') :
    p'.listenSocketList = p.listenSocketList ∨
      ∃ i l, p.pc = .openListening i ∧ i < cfg.listenPortCount ∧ p'.pc = .openListening (i + 1) ∧
        p'.listenSocketList = p.listenSocketList ++ [l] ∧ l.port = cfg.listenPort i ∧
        (l.port ≠ 0 → l.bound = l.port) ∧ l.bound ∉ t.boundPorts := by
  cases hc with
  | interrupt sig =>
    unfold Process.interrupt
    split <;> exact Or.inl rfl
  | openListening hf hpc hi hbound hport =>
    exact Or.inr ⟨_, _, hpc, hi, rfl, rfl, rfl, hport, hbound⟩
  | _ => exact Or.inl rfl

theorem Change.hasOpened {n : ℕ} (hc : Change cfg t p e p')
    (h : p.pc.HasOpened cfg.listenPortCount n) (hn : p.listenSocketList.length = n)
    (hlist : p'.listenSocketList = p.listenSocketList) :
    p'.pc.HasOpened cfg.listenPortCount n := by
  cases hc with
  | interrupt sig =>
    unfold Process.interrupt
    split
    · rename_i hpc
      rw [hpc] at h
      exact h
    · exact h
  | raise => exact h
  | discard => exact h
  | enterHandler => exact h
  | stopStatus => exact h
  | leaveHandler => exact h
  | createThreads hf hpc =>
    rw [hpc] at h
    exact ⟨h, Nat.zero_le _⟩
  | openListening hf hpc => simp at hlist
  | opened hf hpc hi hne =>
    rw [hpc] at h
    have hpos := List.length_pos_of_ne_nil hne
    have hle : n = _ ∧ _ := h
    exact ⟨by omega, by omega⟩
  | registerSignals hf hpc => rwa [hpc] at h
  | setMasterTitle hf hpc => rwa [hpc] at h
  | created hf hpc => rwa [hpc] at h
  | setSigEmpty hf hpc => rwa [hpc] at h
  | sigsuspend hf hpc => rwa [hpc] at h
  | setWorkerTitle hf hpc => rwa [hpc] at h
  | setMask hf hpc => rwa [hpc] at h
  | initEpoll hf hpc => rwa [hpc] at h
  | work hpc => rwa [hpc] at h

theorem Change.listens (hc : Change cfg t p e p') (h : Process.Listens cfg p) :
    Process.Listens cfg p' := by
  rcases hc.listenSocketList with hlist | ⟨i, l, hpc, hi, hpc', hlist, hport, hbound, -⟩
  · have hopened := hc.hasOpened h.opened rfl hlist
    exact ⟨by rwa [hlist], by rw [hlist]; exact h.ports, by rw [hlist]; exact h.bound⟩
  · have hopened := h.opened
    rw [hpc] at hopened
    obtain ⟨hn, -⟩ := hopened
    refine ⟨?_, ?_, ?_⟩
    · rw [hpc', hlist, List.length_append, hn]
      exact ⟨rfl, hi⟩
    · rw [hlist, List.map_append, h.ports, List.length_append, List.length_singleton,
        List.range_succ, List.map_append, hn]
      simp [hport]
    · rw [hlist]
      intro x hx
      rcases List.mem_append.mp hx with hx | hx
      · exact h.bound x hx
      · rw [List.mem_singleton.mp hx]
        exact hbound

theorem mem_boundPorts {b : ℕ} (hp : t.process pid = some p) (hb : b ∈ p.bounds) :
    b ∈ t.boundPorts :=
  List.mem_flatMap.mpr ⟨_, List.mem_of_getElem? (process_eq_some_iff.mp hp), hb⟩

/-- Sockets have different ports. -/
structure Exclusive (cfg : ProcConfig) (t : ProcessTree) : Prop where
  listens : ∀ q p, t.process q = some p → Process.Listens cfg p
  nodup : ∀ q p, t.process q = some p → p.bounds.Nodup
  disjoint : ∀ q q' p p', q ≠ q' → t.process q = some p → t.process q' = some p' →
    p.bounds.Disjoint p'.bounds

theorem Exclusive.bounds (h : Exclusive cfg t) (he : Effect cfg t e t') :
    ∀ q p', t'.process q = some p' → p'.bounds = [] ∨
      ∃ p, t.process q = some p ∧ (p'.bounds = p.bounds ∨
        q = e.pid ∧ ∃ b, p'.bounds = p.bounds ++ [b] ∧ b ∉ t.boundPorts) := by
  refine he.forall_process (fun q p hp => Or.inr ⟨p, hp, Or.inl rfl⟩) ?_ ?_ ?_ ?_
  · intro p p' hp _ hc
    refine Or.inr ⟨p, hp, ?_⟩
    rcases hc.listenSocketList with hlist | ⟨i, l, -, -, -, hlist, -, -, hfree⟩
    · exact Or.inl (congrArg (List.map Listening.bound) hlist)
    · exact Or.inr ⟨rfl, l.bound, by simp [Process.bounds, hlist], hfree⟩
  · exact fun p hp => hp
  · intro p i hp _ hf hpc hi
    have hopened := (h.listens _ p hp).opened
    rw [hpc] at hopened
    exact ⟨Or.inr ⟨p, hp, Or.inl rfl⟩,
      Or.inl (by simp [Process.bounds, Process.child, List.length_eq_zero_iff.mp hopened])⟩
  · exact fun p f fs iOne _ hp _ _ => hp

theorem exclusive_start (h : Start t) : Exclusive cfg t := by
  have hnil := h.forall_process (P := fun _ p => p.listenSocketList = [] ∧ p.pc = .registerSignals)
    fun _ _ _ _ _ _ => ⟨rfl, rfl⟩
  refine ⟨fun q p hp => ?_, fun q p hp => ?_, fun q q' p p' _ hp _ => ?_⟩
  · obtain ⟨hlist, hpc⟩ := hnil q p hp
    exact Process.listens_nil (by rw [hpc]; rfl) hlist
  · simp [Process.bounds, (hnil q p hp).1]
  · simp [Process.bounds, (hnil q p hp).1]

theorem Exclusive.step (h : Exclusive cfg t) (he : Effect cfg t e t') : Exclusive cfg t' where
  listens := by
    refine he.forall_process h.listens (fun p p' _ hp hc => hc.listens hp)
      (fun p hp => ⟨hp.opened, hp.ports, hp.bound⟩) ?_
      (fun p f fs iOne _ hp _ _ => ⟨hp.opened, hp.ports, hp.bound⟩)
    intro p i _ hp _ hpc _
    have hopened := hp.opened
    rw [hpc] at hopened
    have hnil := List.length_eq_zero_iff.mp hopened
    exact ⟨Process.listens_nil rfl hnil, Process.listens_nil rfl hnil⟩
  nodup q p' hp' := by
    rcases h.bounds he q p' hp' with hnil | ⟨p, hp, hsame | ⟨-, b, hnew, hfree⟩⟩
    · simp [hnil]
    · rw [hsame]
      exact h.nodup q p hp
    · rw [hnew]
      refine List.nodup_append.mpr ⟨h.nodup q p hp, List.nodup_singleton b, ?_⟩
      rintro x hx y hy rfl
      rw [List.mem_singleton.mp hy] at hx
      exact hfree (mem_boundPorts hp hx)
  disjoint q q' p₁ p₂ hne hp₁ hp₂ := by
    have hfree {q : ℕ} {p : Process} {b : ℕ} (hp : t.process q = some p)
        (hb : b ∉ t.boundPorts) : p.bounds.Disjoint [b] := by
      rw [List.disjoint_singleton]
      exact fun hmem => hb (mem_boundPorts hp hmem)
    rcases h.bounds he q p₁ hp₁ with hnil | ⟨p, hp, hp₁⟩
    · simp [hnil]
    rcases h.bounds he q' p₂ hp₂ with hnil | ⟨p', hp', hp₂⟩
    · simp [hnil]
    have hold := h.disjoint q q' p p' hne hp hp'
    rcases hp₁ with hsame | ⟨hq, b, hnew, hb⟩ <;> rcases hp₂ with hsame' | ⟨hq', b', hnew', hb'⟩
    · rwa [hsame, hsame']
    · rw [hsame, hnew', List.disjoint_append_right]
      exact ⟨hold, hfree hp hb'⟩
    · rw [hnew, hsame', List.disjoint_append_left]
      exact ⟨hold, (hfree hp' hb).symm⟩
    · exact absurd (hq.trans hq'.symm) hne

theorem exclusive_of_run (h : (processTree cfg).Run es t) : Exclusive cfg t :=
  run_invariant h (fun _ hs => exclusive_start hs) fun _ _ _ hs he => hs.step he

/-- What a worker that serves has opened: the ports of the configuration, in their order. -/
theorem Exclusive.serving (h : Exclusive cfg t) (hp : t.process q = some p)
    (hpc : p.pc = .serving s) :
    p.listenSocketList.map Listening.port = (List.range cfg.listenPortCount).map cfg.listenPort ∧
      0 < cfg.listenPortCount ∧
      ∀ i < cfg.listenPortCount, cfg.listenPort i ≠ 0 → p.bounds[i]? = some (cfg.listenPort i) := by
  have hlistens := h.listens q p hp
  obtain ⟨hlen, hpos⟩ :
      p.listenSocketList.length = cfg.listenPortCount ∧ 0 < cfg.listenPortCount := by
    have hopened := hlistens.opened
    rwa [hpc] at hopened
  have hports := hlistens.ports
  rw [hlen] at hports
  exact ⟨hports, hpos, fun i hi hport => hlistens.bounds_getElem? (by rwa [hlen]) hport⟩

theorem isServing_iff : ∀ {l : Life}, l.isServing = true ↔ ∃ p s, l = .running p ∧ p.pc = .serving s
  | .running p => by cases hpc : p.pc <;> simp [Life.isServing, Life.process, hpc]
  | .ended status => by simp [Life.isServing, Life.process]
  | .reaped status => by simp [Life.isServing, Life.process]

theorem countP_le_one {α : Type*} {c : α → Bool} : ∀ {l : List α},
    (∀ (i j : ℕ) (a b : α), l[i]? = some a → l[j]? = some b → c a = true → c b = true → i = j) →
      l.countP c ≤ 1
  | [], _ => by simp
  | x :: l, h => by
    have htail : l.countP c ≤ 1 := countP_le_one fun i j a b ha hb hca hcb =>
      Nat.succ.inj (h (i + 1) (j + 1) a b ha hb hca hcb)
    by_cases hx : c x = true
    · have hnone : l.countP c = 0 := by
        rw [List.countP_eq_zero]
        intro y hy hcy
        obtain ⟨j, hj⟩ := List.mem_iff_getElem?.mp hy
        exact absurd (h 0 (j + 1) x y rfl hj hx hcy) (Nat.succ_ne_zero j).symm
      rw [List.countP_cons, hnone, if_pos hx]
    · rwa [List.countP_cons_of_neg hx]

/-- At most one worker serves at a time, if one of the ports of the configuration is not 0. -/
theorem one_worker_serves (h : (processTree cfg).Run es t) (hi : i < cfg.listenPortCount)
    (hport : cfg.listenPort i ≠ 0) : t.processes.countP Life.isServing ≤ 1 := by
  have hexclusive := exclusive_of_run h
  refine countP_le_one fun q q' l l' hl hl' hserves hserves' => ?_
  obtain ⟨p, s, rfl, hpc⟩ := isServing_iff.mp hserves
  obtain ⟨p', s', rfl, hpc'⟩ := isServing_iff.mp hserves'
  have hp := process_eq_some_iff.mpr hl
  have hp' := process_eq_some_iff.mpr hl'
  have hmem := List.mem_of_getElem? ((hexclusive.serving hp hpc).2.2 i hi hport)
  have hmem' := List.mem_of_getElem? ((hexclusive.serving hp' hpc').2.2 i hi hport)
  by_contra hne
  exact hexclusive.disjoint q q' p p' hne hp hp' hmem hmem'

/-- Two workers: the first one serves, and the second one cannot bind its port. -/
theorem one_worker_serves_two : ∃ (cfg : ProcConfig) (t : ProcessTree), cfg.workProcessCount = 2 ∧
    t.processes.map Life.isServing = [false, true, false] ∧
    t.processes.map Life.isEnded = [false, false, true] ∧
    t.processes.countP Life.isServing ≤ 1 := by
  let cfg : ProcConfig := ⟨2, 1, fun _ => 80, Server.smallConfig⟩
  let call (pid fd : ℕ) : TreeEvent :=
    .advance pid (.of true .zero ⟨some fd, true, 0, true, true⟩)
  let es : List TreeEvent := List.replicate 4 (call 0 3) ++ List.replicate 4 (call 1 3) ++
    List.replicate 2 (call 1 4) ++ List.replicate 4 (call 2 3)
  obtain ⟨t, hrun, ht⟩ := processTree_run_of_play (fun _ _ => True) cfg es
    (fun t => (t.processes.map Life.isServing, t.processes.map Life.isEnded))
    ([false, true, false], [false, false, true]) (by decide +kernel)
  obtain ⟨hserving, hended⟩ := Prod.mk.inj ht
  exact ⟨cfg, t, rfl, hserving, hended,
    one_worker_serves hrun.of_restrict (i := 0) (by decide) (by decide)⟩

/-! ### The worker's own runs -/

/-- A worker that serves is in a state of a worker process. -/
def Serves (cfg : ProcConfig) (p : Process) : Prop :=
  ∀ s, p.pc = .serving s → s.config = cfg.server ∧ ∃ es, XiaoHGServer.process.Run es s

theorem Change.serves (hc : Change cfg t p e p') (h : Serves cfg p) : Serves cfg p' := by
  intro s hpc
  cases hc with
  | interrupt sig =>
    unfold Process.interrupt at hpc
    split at hpc
    · cases hpc
    · exact h s hpc
  | initEpoll hf hpc₀ =>
    obtain rfl := ProgramPc.serving.inj hpc
    exact ⟨(Server.length_addListenSockets _ _ _).1, [], .start ⟨_, _, _, _, _, _, rfl⟩⟩
  | work hpc₀ he hs =>
    obtain rfl := ProgramPc.serving.inj hpc
    obtain ⟨hcfg, es, hrun⟩ := h _ hpc₀
    exact ⟨(Server.step_config hs).trans hcfg, _, hrun.step ⟨he, hs⟩⟩
  | raise => exact h s hpc
  | discard => exact h s hpc
  | enterHandler => exact h s hpc
  | stopStatus => exact h s hpc
  | leaveHandler => exact h s hpc
  | _ => cases hpc

theorem serves_of_run (h : (processTree cfg).Run es t) :
    ∀ q p, t.process q = some p → Serves cfg p := by
  have hother {p : Process} (hpc : ∀ s, p.pc ≠ .serving s) : Serves cfg p :=
    fun s hs => absurd hs (hpc s)
  refine run_invariant (I := fun t => ∀ q p, t.process q = some p → Serves cfg p) h ?_ ?_
  · exact fun t ht => ht.forall_process fun _ _ _ _ _ _ => hother (by simp [Process.master])
  · intro t e t' hserves he
    refine he.forall_process (P := fun _ p => Serves cfg p) hserves ?_ ?_ ?_ ?_
    · exact fun p p' _ hp hc => hc.serves hp
    · exact fun p hp => hp
    · exact fun p i _ _ _ _ _ => ⟨hother (by simp), hother (by simp [Process.child])⟩
    · exact fun p f fs iOne _ hp _ _ => hp

/-- The ports of a worker that serves are different ones. -/
theorem Exclusive.injective (h : Exclusive cfg t) (hp : t.process q = some p)
    (hpc : p.pc = .serving s) {j : ℕ} (hi : i < cfg.listenPortCount)
    (hj : j < cfg.listenPortCount) (heq : cfg.listenPort i = cfg.listenPort j)
    (hne : cfg.listenPort i ≠ 0) : i = j := by
  obtain ⟨-, -, hbound⟩ := h.serving hp hpc
  have hi' := hbound i hi hne
  have hj' := hbound j hj (heq ▸ hne)
  rw [← heq, ← hi'] at hj'
  exact (List.getElem?_inj (List.getElem?_eq_some_iff.mp hi').1 (h.nodup q p hp)).mp hj'.symm

/-- A worker serves on the ports of the configuration, which are different ones, and what it has
done since is a run of the worker process. -/
theorem worker_serves (h : (processTree cfg).Run es t) (hp : t.process q = some p)
    (hpc : p.pc = .serving s) :
    p.listenSocketList.map Listening.port = (List.range cfg.listenPortCount).map cfg.listenPort ∧
      0 < cfg.listenPortCount ∧
      (∀ i < cfg.listenPortCount, ∀ j < cfg.listenPortCount,
        cfg.listenPort i = cfg.listenPort j → cfg.listenPort i ≠ 0 → i = j) ∧
      s.config = cfg.server ∧ ∃ es', XiaoHGServer.process.Run es' s := by
  have hexclusive := exclusive_of_run h
  obtain ⟨hports, hpos, -⟩ := hexclusive.serving hp hpc
  exact ⟨hports, hpos, fun i hi j hj => hexclusive.injective hp hpc hi hj,
    serves_of_run h q p hp s hpc⟩

/-- One worker serves on two ports, one of which the kernel has chosen. -/
theorem worker_serves_two : ∃ (cfg : ProcConfig) (p : Process) (s : Server),
    p.pc = .serving s ∧ p.listenSocketList = [⟨80, 3, 80⟩, ⟨0, 4, 40000⟩] ∧
      p.listenSocketList.map Listening.port =
        (List.range cfg.listenPortCount).map cfg.listenPort ∧
      s.config = cfg.server ∧ ∃ es', XiaoHGServer.process.Run es' s := by
  let cfg : ProcConfig := ⟨1, 2, fun i => if i = 0 then 80 else 0, Server.smallConfig⟩
  let call (pid fd : ℕ) : TreeEvent :=
    .advance pid (.of true .zero ⟨some fd, true, 40000, true, true⟩)
  let es : List TreeEvent := List.replicate 3 (call 0 3) ++ List.replicate 4 (call 1 3) ++
    call 1 4 :: List.replicate 2 (call 1 5)
  obtain ⟨t, hrun, ht⟩ := processTree_run_of_play (fun _ _ => True) cfg es
    (fun t => (t.process 1).map fun p =>
      ((Life.running p).isServing, p.listenSocketList))
    (some (true, [⟨80, 3, 80⟩, ⟨0, 4, 40000⟩])) (by decide +kernel)
  obtain ⟨p, hp, hpt⟩ := Option.map_eq_some_iff.mp ht
  obtain ⟨hserving, hlist⟩ := Prod.mk.inj hpt
  obtain ⟨p', s, heq, hpc⟩ := isServing_iff.mp hserving
  obtain rfl := Life.running.inj heq
  obtain ⟨hports, -, -, hcfg, hworker⟩ := worker_serves hrun.of_restrict hp hpc
  exact ⟨cfg, p, s, hpc, hlist, hports, hcfg, hworker⟩

/-- The loop of `OpenListeningSockets` does not get past a port that the process has bound. -/
theorem openListening_again (h : Exclusive cfg t) (hp : t.process q = some p) {j : ℕ}
    (hpc : p.pc = .openListening j) (hij : i < j) (hsame : cfg.listenPort i = cfg.listenPort j)
    (hne : cfg.listenPort j ≠ 0) (env : ListenEnv) :
    t.openListening cfg q j env = t.finish q 0 := by
  have hlistens := h.listens q p hp
  obtain ⟨hlen, -⟩ : p.listenSocketList.length = j ∧ j ≤ cfg.listenPortCount := by
    have hopened := hlistens.opened
    rwa [hpc] at hopened
  have hbound : p.bounds[i]? = some (cfg.listenPort j) := by
    rw [← hsame]
    exact hlistens.bounds_getElem? (by rwa [hlen]) (by rwa [hsame])
  have hused : cfg.listenPort j ∈ t.boundPorts := mem_boundPorts hp (List.mem_of_getElem? hbound)
  unfold openListening
  cases env.setNonBlocking with
  | false => rfl
  | true => simp [hne, hused]

/-- A port that the configuration file does not name is 30723. With two of them the second `bind`
fails, whatever the kernel does, and no worker ever serves. -/
theorem missing_ports {items : List ConfItem} (h : (processTree (.read items)).Run es t) {j : ℕ}
    (hij : i ≠ j) (hi : i < (ProcConfig.read items).listenPortCount)
    (hj : j < (ProcConfig.read items).listenPortCount)
    (hmissing : ∀ k ∈ [i, j], ∀ x ∈ items, strcasecmp x.itemName (listeningPortInfo k) ≠ 0) :
    (∀ k ∈ [i, j], (ProcConfig.read items).listenPort k = 30723) ∧
      (∀ q p env, t.process q = some p → p.pc = .openListening (max i j) →
        t.openListening (.read items) q (max i j) env = t.finish q 0) ∧
      t.processes.countP Life.isServing = 0 := by
  have hport : ∀ k ∈ [i, j], (ProcConfig.read items).listenPort k = 30723 := by
    intro k hk
    have hnone : items.find? (fun x => strcasecmp x.itemName (listeningPortInfo k) == 0) = none :=
      List.find?_eq_none.mpr fun x hx => by simpa using hmissing k hk x hx
    simp [ProcConfig.read, CConfig.getIntDefault, hnone]
  have hi' := hport i (by simp)
  have hj' := hport j (by simp)
  refine ⟨hport, fun q p env hp hpc => ?_, ?_⟩
  · have hlt : min i j < max i j := min_lt_max.mpr hij
    have hmin : (ProcConfig.read items).listenPort (min i j) = 30723 := by
      rcases min_choice i j with heq | heq <;> rw [heq] <;> assumption
    have hmax : (ProcConfig.read items).listenPort (max i j) = 30723 := by
      rcases max_choice i j with heq | heq <;> rw [heq] <;> assumption
    exact openListening_again (exclusive_of_run h) hp hpc hlt (hmin.trans hmax.symm)
      (by rw [hmax]; decide) env
  · rw [List.countP_eq_zero]
    intro l hl hserves
    obtain ⟨q, hq⟩ := List.mem_iff_getElem?.mp hl
    obtain ⟨p, s, rfl, hpc⟩ := isServing_iff.mp hserves
    exact hij ((exclusive_of_run h).injective (process_eq_some_iff.mpr hq) hpc hi hj
      (hi'.trans hj'.symm) (by rw [hi']; decide))

/-- The file gives a number of ports and no port. -/
theorem missing_ports_two : ∃ items : List ConfItem,
    (ProcConfig.read items).listenPortCount = 2 ∧
      (∀ k ∈ [0, 1], (ProcConfig.read items).listenPort k = 30723) ∧
      ∀ es t, (processTree (.read items)).Run es t → t.processes.countP Life.isServing = 0 := by
  let items := [newConfItem (ascii "ListenPortCount=2") 15]
  have hcount : (ProcConfig.read items).listenPortCount = 2 := by decide +kernel
  have hports {es : List TreeEvent} {t : ProcessTree} (h : (processTree (.read items)).Run es t) :=
    missing_ports h (i := 0) (j := 1) Nat.zero_ne_one (by omega) (by omega) (by decide +kernel)
  obtain ⟨t, hrun, -⟩ := processTree_run_of_play (fun _ _ => True) (.read items) [] (fun _ => ()) ()
    rfl
  exact ⟨items, hcount, (hports hrun.of_restrict).1, fun es t h => (hports h).2.2⟩

end ProcessTree
end XiaoHGServer
