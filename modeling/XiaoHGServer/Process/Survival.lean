import XiaoHGServer.Process.Creation

/-!
# Signals that end nothing

`SignalHandler` writes a line to the log and returns, for `SIGTERM`, `SIGINT` and
`SIGQUIT` as for any other signal of the table. A server that is sent no others goes
on; its workers end by their own `exit(0)` only.
-/

namespace XiaoHGServer

def InTable (sig : ℕ) : Prop := sig ∈ (signals.map SignalT.signalNo).filter (· ≠ 0)

instance (sig : ℕ) : Decidable (InTable sig) := inferInstanceAs (Decidable (_ ∈ _))

/-- A process with the table installed goes on when it gets this signal. -/
def Survived (sig : ℕ) : Prop := InTable sig ∨ endsByDefault sig = false

instance (sig : ℕ) : Decidable (Survived sig) := inferInstanceAs (Decidable (_ ∨ _))

/-- Every signal of the table is handled or ignored, and those that are pending are survived. -/
structure Process.Hardy (p : Process) : Prop where
  pending : ∀ sig ∈ p.pending, Survived sig
  actions : ∀ sig, InTable sig → p.actions sig ≠ .default

namespace ProcessTree

variable {cfg : ProcConfig} {t t' : ProcessTree} {e : TreeEvent} {es : List TreeEvent}
  {pid q status : ℕ} {p p' : Process}

/-- Nobody sends other signals, and the master's own calls succeed. -/
def Mild (_ : ProcessTree) : TreeEvent → Prop
  | .send _ sig => Survived sig
  | .advance pid env => pid = 0 → env.ok = true
  | _ => True

instance (t : ProcessTree) : (e : TreeEvent) → Decidable (t.Mild e)
  | .send _ _ => inferInstanceAs (Decidable (Survived _))
  | .advance _ _ => inferInstanceAs (Decidable (_ → _))
  | .deliver _ _ | .work _ _ => isTrue trivial

theorem signalCtlInit_inTable {actions : ℕ → SigAction} {sig : ℕ} (h : InTable sig) :
    signalCtlInit actions signals sig ≠ .default := by
  have hcases : sig = sigHup ∨ sig = sigInt ∨ sig = sigTerm ∨ sig = sigChld ∨ sig = sigQuit ∨
      sig = sigIo ∨ sig = sigSys := by
    simpa [InTable, signals, sigHup, sigInt, sigTerm, sigChld, sigQuit, sigIo, sigSys] using h
  rcases hcases with rfl | rfl | rfl | rfl | rfl | rfl | rfl <;>
    simp [signalCtlInit, signals, sigaction, sigHup, sigInt, sigTerm, sigChld, sigQuit, sigIo,
      sigSys, sigKill, sigStop, sigMax, Function.update]

theorem Change.hardy (hc : Change cfg t p e p') (hallow : t.Mild e) (h : p.Hardy) : p'.Hardy := by
  cases hc with
  | raise sig =>
    refine ⟨fun s hs => ?_, h.actions⟩
    rcases Finset.mem_insert.mp hs with rfl | hs
    · exact hallow
    · exact h.pending s hs
  | discard sig => exact ⟨fun s hs => h.pending s (Finset.mem_of_mem_erase hs), h.actions⟩
  | interrupt sig =>
    unfold Process.interrupt
    split <;> exact ⟨fun s hs => h.pending s (Finset.mem_of_mem_erase hs), h.actions⟩
  | _ => exact ⟨h.pending, h.actions⟩

def Clean (t : ProcessTree) : Prop :=
  ∀ l ∈ t.processes, ∀ status, l.status = some status → status = 0

theorem clean_modify {f : Process → Process} (h : t.Clean) : (t.modify pid f).Clean := by
  intro l hl status hs
  obtain ⟨i, hi⟩ := List.mem_iff_getElem?.mp hl
  rw [modify, List.getElem?_modify] at hi
  obtain ⟨l', hl', heq⟩ := Option.map_eq_some_iff.mp hi
  refine h l' (List.mem_of_getElem? hl') status ?_
  rw [← hs, ← heq]
  split_ifs <;> cases l' <;> rfl

theorem clean_finish (h : t.Clean) : (t.finish pid 0).Clean := by
  have hended : Clean { t with processes := t.processes.modify pid fun _ => Life.ended 0 } := by
    intro l hl status hs
    obtain ⟨i, hi⟩ := List.mem_iff_getElem?.mp hl
    rw [List.getElem?_modify] at hi
    obtain ⟨l', hl', heq⟩ := Option.map_eq_some_iff.mp hi
    split_ifs at heq
    · rw [← heq] at hs
      exact (Option.some.inj hs).symm
    · exact h l' (List.mem_of_getElem? hl') status (heq ▸ hs)
  unfold finish
  split_ifs
  · exact hended
  · exact clean_modify hended

theorem clean_reap {i : ℕ} (h : t.Clean) : (t.reap i).Clean := by
  unfold reap
  split
  · rename_i status hi
    intro l hl s hs
    obtain ⟨j, hj⟩ := List.mem_iff_getElem?.mp hl
    rw [List.getElem?_modify] at hj
    obtain ⟨l', hl', heq⟩ := Option.map_eq_some_iff.mp hj
    split_ifs at heq
    · refine h (.ended status) (List.mem_of_getElem? hi) s ?_
      rw [← hs, ← heq]
      rfl
    · exact h l' (List.mem_of_getElem? hl') s (heq ▸ hs)
  · exact h

/-- The master runs, and nobody has been ended by a signal. -/
structure Unharmed (t : ProcessTree) : Prop where
  hardy : ∀ q p, t.process q = some p → p.Hardy
  master : (t.process 0).isSome
  clean : t.Clean

theorem unharmed_start (h : Start t) : t.Unharmed where
  hardy := h.forall_process fun actions mask stSet signalNo _ _ =>
    ⟨by simp [Process.master], fun sig hsig => signalCtlInit_inTable hsig⟩
  master := by
    obtain ⟨actions, mask, stSet, signalNo, -, -, rfl⟩ := h
    rfl
  clean := by
    obtain ⟨actions, mask, stSet, signalNo, -, -, rfl⟩ := h
    intro l hl status hs
    rw [List.mem_singleton.mp hl] at hs
    cases hs

theorem Unharmed.not_signalled (h : t.Unharmed) {sig : ℕ} (hp : t.process pid = some p)
    (hpending : sig ∈ p.pending) (hact : p.actions sig = .default) : endsByDefault sig = false := by
  have hardy := h.hardy pid p hp
  exact (hardy.pending sig hpending).resolve_left fun htable => hardy.actions sig htable hact

theorem Unharmed.not_exited (hcreated : Created cfg t) (hallow : t.Mild e)
    (hp : t.process e.pid = some p) (hexit : Exits p e) : e.pid ≠ 0 := by
  intro hpid
  have hmaster := hcreated.master p (hpid ▸ hp)
  cases e with
  | send pid sig => exact hexit
  | deliver pid sig => exact hexit
  | advance pid env =>
    obtain ⟨-, hfail | ⟨i, hpc⟩⟩ := hexit
    · rw [hallow hpid] at hfail
      cases hfail
    · rw [hpc] at hmaster
      exact hmaster
  | work pid e =>
    obtain ⟨s, hpc, -⟩ := hexit
    rw [hpc] at hmaster
    exact hmaster

theorem Unharmed.step (h : t.Unharmed) (hcreated : Created cfg t) (hallow : t.Mild e)
    (he : Effect cfg t e t') : t'.Unharmed where
  hardy := he.forall_process h.hardy (fun _ _ _ hp hc => hc.hardy hallow hp)
    (fun p hp => ⟨fun sig hsig => by
      rcases Finset.mem_insert.mp hsig with rfl | hsig
      · exact Or.inl (by decide)
      · exact hp.pending sig hsig, hp.actions⟩)
    (fun p i _ hp _ _ _ => ⟨⟨hp.pending, hp.actions⟩, ⟨by simp [Process.child], hp.actions⟩⟩)
    fun p f fs iOne _ hp _ _ => ⟨hp.pending, hp.actions⟩
  master := by
    have hmodify {u : ProcessTree} {pid : ℕ} {f : Process → Process}
        (hu : (u.process 0).isSome) : ((u.modify pid f).process 0).isSome := by
      rw [process_modify]
      split_ifs
      · rwa [Option.isSome_map]
      · exact hu
    cases he with
    | change => exact hmodify h.master
    | signalled hp hpending hact hends =>
      rw [h.not_signalled hp hpending hact] at hends
      cases hends
    | exited hp hexit =>
      have hne := Unharmed.not_exited hcreated hallow hp hexit
      rw [process_finish, if_neg hne, if_pos rfl, Option.isSome_map]
      exact h.master
    | forked hp =>
      refine hmodify ?_
      have := lt_length_of_process hp
      rw [process_append, if_neg (by omega)]
      exact h.master
    | reaped =>
      refine hmodify ?_
      rw [process_reap]
      exact h.master
    | interrupted => exact h.master
  clean := by
    cases he with
    | change => exact clean_modify h.clean
    | signalled hp hpending hact hends =>
      rw [h.not_signalled hp hpending hact] at hends
      cases hends
    | exited => exact clean_finish h.clean
    | forked =>
      refine clean_modify fun l hl status hs => ?_
      rcases List.mem_append.mp hl with hl | hl
      · exact h.clean l hl status hs
      · rw [List.mem_singleton.mp hl] at hs
        cases hs
    | reaped => exact clean_modify (clean_reap h.clean)
    | interrupted => exact h.clean

theorem Created.registers (h : Created cfg t) (hallow : t.Mild e) : t.Registers e := by
  cases e with
  | advance pid env =>
    intro hpc
    obtain ⟨p, hp, hpc⟩ := (Option.any_eq_true _ _).mp hpc
    refine hallow ?_
    by_contra hne
    have hworker := h.worker pid p hne hp
    cases heq : p.pc <;> simp [heq, ProgramPc.IsWorker] at hpc hworker
  | _ => trivial

/-- A server that gets no signals but those of its table, and those that are ignored by default,
keeps its master, and every worker that has ended has called `exit(0)`. -/
theorem signals_survived (h : ((processTree cfg).restrict Mild).Run es t) :
    (t.process 0).isSome ∧ ∀ l ∈ t.processes, ∀ status, l.status = some status → status = 0 := by
  have hboth : Created cfg t ∧ t.Unharmed :=
    run_restrict_invariant (I := fun t => Created cfg t ∧ t.Unharmed) h
      (fun _ hs => ⟨created_start hs, unharmed_start hs⟩)
      fun _ _ _ hs hallow he =>
        ⟨hs.1.step (hs.1.registers hallow) he, hs.2.step hs.1 hallow he⟩
  exact ⟨hboth.2.master, hboth.2.clean⟩

/-- The master gets `SIGTERM` while its worker gives up. -/
theorem signals_survived_term : ∃ t : ProcessTree,
    t.processes.map Life.status = [none, some 0] ∧ (t.process 0).isSome ∧
      ∀ l ∈ t.processes, ∀ status, l.status = some status → status = 0 := by
  let call (pid : ℕ) (ok : Bool) : TreeEvent :=
    .advance pid (.of ok .zero ⟨none, false, 0, false, false⟩)
  obtain ⟨t, hrun, ht⟩ := processTree_run_of_play Mild ⟨1, 0, fun _ => 0, Server.smallConfig⟩
    [call 0 true, .send 0 sigTerm, .deliver 0 sigTerm, call 0 true, call 0 true, call 0 true,
      call 0 true, call 1 false]
    (fun t => t.processes.map Life.status) [none, some 0] (by decide +kernel)
  exact ⟨t, ht, signals_survived hrun⟩

end ProcessTree
end XiaoHGServer
