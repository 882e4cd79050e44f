import XiaoHGServer.Library.Places
import XiaoHGServer.Process.Tree

/-!
# Workers that have ended

`SIGCHLD` is pending once however many workers have ended, so `ProcessGetStatus`
waits for all it can find. No worker is left unnoticed: while one has not been
waited for, either the signal is pending or a handler will look again.
-/

namespace XiaoHGServer

/-- A call of `SignalHandler` that has a call of `waitpid` ahead. -/
def SigFrame.Collects (f : SigFrame) : Prop :=
  match f.pc with
  | .enter => f.signalNo = sigChld
  | .getStatus _ => True
  | .leave => False

def Process.Alert (p : Process) : Prop := sigChld ∈ p.pending ∨ ∃ f ∈ p.frames, f.Collects

namespace ProcessTree

variable {cfg : ProcConfig} {t t' : ProcessTree} {e : TreeEvent} {es : List TreeEvent}
  {pid q i status : ℕ} {p p' : Process} {f : Process → Process}

/-! ### Handlers -/

theorem setHandler_frames {pc : HandlerPc} {f : SigFrame} {fs : List SigFrame}
    (hf : p.frames = f :: fs) : (p.setHandler pc).frames = { f with pc := pc } :: fs := by
  rw [Process.setHandler, hf]
  rfl

/-- The call that an alert process owes is not lost, unless there is nobody to wait for. -/
theorem Change.alert (hc : Change cfg t p e p') (hact : p.actions sigChld = .handler)
    (hpid : e.pid = 0) (h : p.Alert) : p'.Alert ∨ t.Quiet := by
  cases hc with
  | raise sig => exact Or.inl (h.imp_left fun hm => Finset.mem_insert_of_mem hm)
  | discard sig hne =>
    refine Or.inl (h.imp_left fun hm => Finset.mem_erase.mpr ⟨?_, hm⟩)
    rintro rfl
    exact hne hact
  | interrupt sig hm _ _ =>
    refine Or.inl ?_
    have hpending : (p.interrupt sig).pending = p.pending.erase sig := by
      unfold Process.interrupt
      split <;> rfl
    obtain ⟨f, hframes, hsig⟩ : ∃ f, (p.interrupt sig).frames = f :: p.frames ∧
        f.pc = .enter ∧ f.signalNo = sig := by
      unfold Process.interrupt
      split <;> exact ⟨_, rfl, rfl, rfl⟩
    unfold Process.Alert
    rw [hframes, hpending]
    by_cases hchld : sig = sigChld
    · refine Or.inr ⟨f, List.mem_cons_self, ?_⟩
      rw [SigFrame.Collects, hsig.1]
      exact hsig.2.trans hchld
    · rcases h with hm | ⟨g, hg, hcol⟩
      · exact Or.inl (Finset.mem_erase.mpr ⟨fun heq => hchld heq.symm, hm⟩)
      · exact Or.inr ⟨g, List.mem_cons_of_mem _ hg, hcol⟩
  | @enterHandler pid env f fs hf hpc =>
    refine Or.inl ?_
    rcases h with hm | ⟨g, hg, hcol⟩
    · exact Or.inl hm
    · refine Or.inr ?_
      change ∃ g ∈ (p.setHandler _).frames, _
      rw [setHandler_frames hf]
      rw [hf] at hg
      rcases List.mem_cons.mp hg with rfl | hg
      · rw [SigFrame.Collects, hpc] at hcol
        exact ⟨_, List.mem_cons_self, by simp [SigFrame.Collects, if_pos hcol]⟩
      · exact ⟨g, List.mem_cons_of_mem _ hg, hcol⟩
  | stopStatus hf hpc hquiet => exact Or.inr (hquiet hpid)
  | @leaveHandler pid env f fs hf hpc =>
    refine Or.inl (h.imp_right ?_)
    rintro ⟨g, hg, hcol⟩
    rw [hf] at hg
    refine ⟨g, ?_, hcol⟩
    change g ∈ p.frames.tail
    rcases List.mem_cons.mp hg with rfl | hg
    · rw [SigFrame.Collects, hpc] at hcol
      exact hcol.elim
    · rwa [hf]
  | _ => exact Or.inl h

theorem Change.actions (hc : Change cfg t p e p') : p'.actions = p.actions := by
  cases hc with
  | interrupt sig =>
    unfold Process.interrupt
    split <;> rfl
  | _ => rfl

/-! ### Lives -/

theorem quiet_modify (h : t.Quiet) : (t.modify pid f).Quiet := by
  intro i status hi hl
  unfold modify at hl
  rw [List.getElem?_modify] at hl
  have hquiet := h i status hi
  cases hl' : t.processes[i]? with
  | none => simp [hl'] at hl
  | some l =>
    rw [hl'] at hl hquiet
    cases l with
    | running p => by_cases heq : pid = i <;> simp [heq, Life.map] at hl
    | ended s => by_cases heq : pid = i <;> simp_all [Life.map]
    | reaped s => by_cases heq : pid = i <;> simp [heq, Life.map] at hl

theorem quiet_append (h : t.Quiet) (c : Process) :
    Quiet { t with processes := t.processes ++ [Life.running c] } := by
  intro i status hi hl
  dsimp only at hl
  rw [List.getElem?_append] at hl
  split_ifs at hl with hlt
  · exact h i status hi hl
  · rw [List.getElem?_singleton] at hl
    split_ifs at hl
    exact nomatch hl

def reapedStatuses (t : ProcessTree) : List ℕ := t.processes.filterMap Life.reapedStatus

theorem reapedStatuses_modify : (t.modify pid f).reapedStatuses = t.reapedStatuses := by
  unfold reapedStatuses modify
  generalize t.processes = ls
  induction ls generalizing pid with
  | nil => simp
  | cons l ls ih =>
    cases pid with
    | zero => simp [List.filterMap_cons]
    | succ pid => simp [List.filterMap_cons, ih]

theorem reapedStatuses_finish (hp : t.process pid = some p) :
    (t.finish pid status).reapedStatuses = t.reapedStatuses := by
  have hgone : reapedStatuses
      { t with processes := t.processes.modify pid fun _ => Life.ended status } =
        t.reapedStatuses :=
    filterMap_modify_none (process_eq_some_iff.mp hp) rfl rfl
  unfold finish
  split_ifs
  · exact hgone
  · rw [reapedStatuses_modify, hgone]

theorem reapedStatuses_reap (hi : t.processes[i]? = some (.ended status)) :
    (t.reap i).reapedStatuses.Perm (status :: t.reapedStatuses) ∧
      (t.reap i).notices = statusNotice status :: t.notices := by
  unfold reap
  rw [hi]
  exact ⟨filterMap_modify_new hi rfl rfl, rfl⟩

theorem alert_of_finish (hp : (t.finish pid status).process 0 = some p) : p.Alert := by
  rw [process_finish, if_pos rfl] at hp
  split_ifs at hp with hpid
  obtain ⟨p', -, rfl⟩ := Option.map_eq_some_iff.mp hp
  exact Or.inl (Finset.mem_insert_self _ _)

/-! ### The invariant -/

/-- The master has `SignalHandler` installed, will wait for the workers that have ended, and has
entered in the log each of those that it has waited for. -/
structure Attentive (t : ProcessTree) : Prop where
  handled : ∀ q p, t.process q = some p → p.actions sigChld = .handler
  alert : t.Quiet ∨ ∀ p, t.process 0 = some p → p.Alert
  logged : t.notices.Perm (t.reapedStatuses.map statusNotice)

theorem attentive_start (h : Start t) : t.Attentive where
  handled := by
    refine h.forall_process fun actions mask stSet signalNo hdefault hne => ?_
    simp [Process.master, signalCtlInit, signals, sigaction, sigHup, sigInt, sigTerm, sigChld,
      sigQuit, sigIo, sigSys, sigKill, sigStop, sigMax, Function.update]
  alert := by
    obtain ⟨actions, mask, stSet, signalNo, hdefault, hne, rfl⟩ := h
    refine Or.inl fun i status hi hl => ?_
    obtain ⟨i, rfl⟩ := Nat.exists_eq_succ_of_ne_zero hi
    simp at hl
  logged := by
    obtain ⟨actions, mask, stSet, signalNo, hdefault, hne, rfl⟩ := h
    exact .refl _

theorem Attentive.step (h : t.Attentive) (he : Effect cfg t e t') : t'.Attentive where
  handled := he.forall_process h.handled (fun _ _ _ hact hc => hc.actions ▸ hact)
    (fun _ hact => hact) (fun _ _ _ hact _ _ _ => ⟨hact, hact⟩) fun _ _ _ _ _ hact _ _ => hact
  alert := by
    by_cases hquiet : t.Quiet
    · cases he with
      | change f hp hc => exact Or.inl (quiet_modify hquiet)
      | signalled hp => exact Or.inr fun _ hp' => alert_of_finish hp'
      | exited hp => exact Or.inr fun _ hp' => alert_of_finish hp'
      | forked => exact Or.inl (quiet_modify (quiet_append hquiet _))
      | reaped hp hf hpc hi hl => exact absurd hl (hquiet _ _ hi)
      | interrupted => exact Or.inl hquiet
    · have halert := h.alert.resolve_left hquiet
      refine Or.inr fun p hp => ?_
      have hall := he.forall_process (P := fun q p => q = 0 → p.Alert)
        (fun q p hp hq => halert p (hq ▸ hp))
        (fun p p' hp hp' hc hq =>
          (hc.alert (h.handled _ p hp) hq (hp' hq)).resolve_right hquiet)
        (fun p _ _ => Or.inl (Finset.mem_insert_self _ _))
        (fun p i hp hp' _ _ _ => ⟨hp', fun hq => ?_⟩)
        (fun p f fs iOne _ _ hf _ _ => Or.inr ?_)
      · exact hall 0 p hp rfl
      · exact absurd hq (Nat.zero_lt_of_lt (lt_length_of_process hp)).ne'
      · rw [setHandler_frames hf]
        exact ⟨_, List.mem_cons_self, trivial⟩
  logged := by
    cases he with
    | change f hp hc => rw [reapedStatuses_modify]; exact h.logged
    | signalled hp => rw [reapedStatuses_finish hp, notices_finish]; exact h.logged
    | exited hp => rw [reapedStatuses_finish hp, notices_finish]; exact h.logged
    | @forked pid env p i hp hf hpc hi =>
      rw [reapedStatuses_modify]
      simpa [reapedStatuses, modify, List.filterMap_cons, Life.reapedStatus] using h.logged
    | @reaped env p f fs iOne i status hp hf hpc hi hl =>
      obtain ⟨hperm, hnotices⟩ := reapedStatuses_reap hl
      rw [reapedStatuses_modify]
      change (t.reap i).notices.Perm _
      rw [hnotices]
      exact ((h.logged.cons _).trans (hperm.map statusNotice).symm)
    | interrupted => exact h.logged

theorem attentive_of_run (h : (processTree cfg).Run es t) : t.Attentive :=
  run_invariant h (fun _ hs => attentive_start hs) fun _ _ _ hs he => hs.step he

/-- When the master sleeps and no `SIGCHLD` is pending, every worker that has ended has been waited
for; and at any time the log has one entry for each worker that has been waited for. -/
theorem workers_reaped (h : (processTree cfg).Run es t) :
    t.notices.Perm ((t.processes.filterMap Life.reapedStatus).map statusNotice) ∧
      ∀ p, t.process 0 = some p → p.frames = [] → sigChld ∉ p.pending → t.Quiet := by
  have hattentive := attentive_of_run h
  refine ⟨hattentive.logged, fun p hp hf hno => ?_⟩
  rcases hattentive.alert with hquiet | halert
  · exact hquiet
  · rcases halert p hp with hm | ⟨f, hmem, -⟩
    · exact absurd hm hno
    · rw [hf] at hmem
      cases hmem

/-- Two workers end while one `SIGCHLD` is pending, and one call of `SignalHandler` waits for
both. -/
theorem workers_reaped_two : ∃ t : ProcessTree,
    t.processes.map Life.status = [none, some 0, some 0] ∧ t.notices = [0, 0] ∧
      t.notices.Perm ((t.processes.filterMap Life.reapedStatus).map statusNotice) ∧ t.Quiet := by
  let call (pid : ℕ) (ok : Bool) (w : WaitRet) : TreeEvent :=
    .advance pid (.of ok w ⟨none, false, 0, false, false⟩)
  let es : List TreeEvent := List.replicate 4 (call 0 true .zero) ++
    [call 1 false .zero, call 2 false .zero] ++ List.replicate 3 (call 0 true .zero) ++
    [.deliver 0 sigChld, call 0 true .zero, call 0 true (.child 2), call 0 true (.child 1),
      call 0 true .noChild, call 0 true .zero]
  obtain ⟨t, hrun, ht⟩ := processTree_run_of_play (fun _ _ => True)
    ⟨2, 0, fun _ => 0, Server.smallConfig⟩ es
    (fun t => (t.processes.map Life.status, t.notices,
      (t.process 0).map fun p : Process =>
        (p.frames.isEmpty, decide (sigChld ∈ p.pending))))
    ([none, some 0, some 0], [0, 0], some (true, false)) (by decide +kernel)
  obtain ⟨hstatus, hrest⟩ := Prod.mk.inj ht
  obtain ⟨hnotices, hmaster⟩ := Prod.mk.inj hrest
  obtain ⟨p, hp, hidle⟩ := Option.map_eq_some_iff.mp hmaster
  obtain ⟨hframes, hpending⟩ := Prod.mk.inj hidle
  obtain ⟨hlogged, hquiet⟩ := workers_reaped hrun.of_restrict
  exact ⟨t, hstatus, hnotices, hlogged,
    hquiet p hp (List.isEmpty_iff.mp hframes) (of_decide_eq_false hpending)⟩

/-! ### The master alone -/

def endedCount (t : ProcessTree) : ℕ := t.processes.tail.countP Life.isEnded

theorem countP_modify {α : Type*} {c : α → Bool} {g : α → α} {a : α} : ∀ {l : List α} {i : ℕ},
    l[i]? = some a → c a = true → c (g a) = false → (l.modify i g).countP c + 1 = l.countP c
  | [], i, hi, _, _ => by simp at hi
  | x :: l, 0, hi, ha, hg => by
    obtain rfl : x = a := by simpa using hi
    simp [ha, hg]
  | x :: l, i + 1, hi, ha, hg => by
    have ih := countP_modify (l := l) (i := i) (by simpa using hi) ha hg
    rw [List.modify_succ_cons, List.countP_cons, List.countP_cons]
    omega

theorem endedCount_reap (hi : t.processes[i + 1]? = some (.ended status)) :
    ((t.reap (i + 1)).modify 0 f).endedCount + 1 = t.endedCount := by
  have htail : t.processes.tail[i]? = some (.ended status) := by rwa [List.getElem?_tail]
  unfold endedCount
  rw [← countP_modify (g := fun _ => Life.reaped status) htail rfl rfl]
  unfold modify reap
  rw [hi]
  cases hls : t.processes with
  | nil => simp [hls] at hi
  | cons l ls => rfl

def waitEnv (w : WaitRet) : CallEnv := .of true w ⟨none, false, 0, false, false⟩

def MasterStep : TreeEvent → Prop
  | .deliver pid sig => pid = 0 ∧ sig = sigChld
  | .advance pid _ => pid = 0
  | _ => False

theorem run_advance (h : (processTree cfg).Run es t) (env : CallEnv) (hp : t.process pid = some p)
    (hlegal : t.AdvanceLegal pid p env) :
    (processTree cfg).Run (es ++ [.advance pid env]) (t.next cfg (.advance pid env)) :=
  h.step ⟨⟨p, hp, hlegal⟩, rfl⟩

theorem run_getStatus_last {fr : SigFrame} {fs : List SigFrame} {iOne : Bool}
    (h : (processTree cfg).Run es t) (hp : t.process 0 = some p)
    (hf : p.frames = { fr with pc := .getStatus iOne } :: fs) (hn : t.endedCount = 0) :
    ∃ e t', (processTree cfg).Run (es ++ [e]) t' ∧ MasterStep e ∧ t'.Quiet ∧
      t'.process 0 = some { p with frames := { fr with pc := .leave } :: fs } ∧
      ∀ q, q ≠ 0 → t'.process q = t.process q := by
  have hnone : t.processes.tail.any Life.isEnded = false := by
    rw [List.any_eq_false]
    exact fun l hl => List.countP_eq_zero.mp hn l hl
  obtain ⟨w, hw, hlegal⟩ : ∃ w, (w = .zero ∨ w = .noChild) ∧ t.WaitLegal 0 w := by
    cases hrun : t.processes.tail.any Life.isRunning with
    | true => exact ⟨.zero, Or.inl rfl, rfl, hnone, hrun⟩
    | false => exact ⟨.noChild, Or.inr rfl, Or.inr ⟨hnone, hrun⟩⟩
  have hstep := run_advance h (waitEnv w) hp
    (by simpa [AdvanceLegal, hf, waitEnv, CallEnv.of] using hlegal)
  have hnext : t.next cfg (.advance 0 (waitEnv w)) =
      t.modify 0 fun p => p.setHandler .leave := by
    rcases hw with rfl | rfl <;> simp [next, hp, hf, advanceHandler, waitEnv, CallEnv.of]
  rw [hnext] at hstep
  refine ⟨_, _, hstep, by simp [MasterStep], quiet_modify (quiet_of_tail hnone), ?_, ?_⟩
  · rw [process_modify_self hp, Process.setHandler, hf]
    rfl
  · exact fun q hq => process_modify_of_ne hq.symm

theorem run_getStatus_child {fr : SigFrame} {fs : List SigFrame} {iOne : Bool}
    (h : (processTree cfg).Run es t) (hp : t.process 0 = some p)
    (hf : p.frames = { fr with pc := .getStatus iOne } :: fs) (hpos : 0 < t.endedCount) :
    ∃ e t', (processTree cfg).Run (es ++ [e]) t' ∧ MasterStep e ∧
      t'.endedCount + 1 = t.endedCount ∧
      t'.process 0 = some { p with frames := { fr with pc := .getStatus true } :: fs } ∧
      ∀ q, q ≠ 0 → t'.process q = t.process q := by
  obtain ⟨l, hl, hended⟩ := List.countP_pos_iff.mp hpos
  obtain ⟨i, hi⟩ := List.mem_iff_getElem?.mp hl
  rw [List.getElem?_tail] at hi
  cases l with
  | running p => cases hended
  | reaped status => cases hended
  | ended status =>
    have hlegal : t.WaitLegal 0 (.child (i + 1)) :=
      ⟨rfl, Nat.succ_ne_zero i, by rw [hi]; rfl⟩
    have hstep := run_advance h (waitEnv (.child (i + 1))) hp
      (by simpa [AdvanceLegal, hf, waitEnv, CallEnv.of] using hlegal)
    have hnext : t.next cfg (.advance 0 (waitEnv (.child (i + 1)))) =
        (t.reap (i + 1)).modify 0 fun p => p.setHandler (.getStatus true) := by
      simp [next, hp, hf, advanceHandler, waitEnv, CallEnv.of]
    rw [hnext] at hstep
    refine ⟨_, _, hstep, rfl, endedCount_reap hi, ?_, fun q hq => ?_⟩
    · rw [process_modify_self (by rw [process_reap, hp]), Process.setHandler, hf]
      rfl
    · rw [process_modify_of_ne hq.symm, process_reap]

/-- `ProcessGetStatus` ends when nobody is left, after one call for each worker and one more. -/
theorem run_getStatus (fr : SigFrame) {fs : List SigFrame} :
    ∀ (n : ℕ) {t : ProcessTree} {es : List TreeEvent} {p : Process} {iOne : Bool},
      (processTree cfg).Run es t → t.process 0 = some p →
      p.frames = { fr with pc := .getStatus iOne } :: fs → t.endedCount = n →
      ∃ es' t', (processTree cfg).Run (es ++ es') t' ∧ (∀ e ∈ es', MasterStep e) ∧
        es'.length = n + 1 ∧ t'.Quiet ∧
        t'.process 0 = some { p with frames := { fr with pc := .leave } :: fs } ∧
        ∀ q, q ≠ 0 → t'.process q = t.process q := by
  intro n
  induction n with
  | zero =>
    intro t es p iOne h hp hf hn
    obtain ⟨e, t', hrun, he, hquiet, hpt, hothers⟩ := run_getStatus_last h hp hf hn
    exact ⟨[e], t', hrun, by simpa using he, rfl, hquiet, hpt, hothers⟩
  | succ n ih =>
    intro t es p iOne h hp hf hn
    obtain ⟨e, t₁, hrun₁, he, hcount, hp₁, hothers₁⟩ :=
      run_getStatus_child h hp hf (hn ▸ n.succ_pos)
    obtain ⟨es', t', hrun, hall, hlen, hquiet, hpt, hothers⟩ := ih hrun₁ hp₁ rfl (by omega)
    refine ⟨e :: es', t', by simpa using hrun, ?_, by simp [hlen], hquiet, hpt, ?_⟩
    · intro x hx
      rcases List.mem_cons.mp hx with rfl | hx
      · exact he
      · exact hall x hx
    · intro q hq
      rw [hothers q hq, hothers₁ q hq]

/-- `sigsuspend` waits with an empty mask, and not inside a handler. -/
structure Rests (p : Process) : Prop where
  stSet : p.pc = .setSigSuspend → p.stSet = ∅
  suspended : ∀ mask, p.pc = .suspended mask → p.stSet = ∅ ∧ p.mask = ∅ ∧ p.frames = []

theorem Change.rests (hc : Change cfg t p e p') (h : Rests p) : Rests p' := by
  have hhandler {f : SigFrame} {fs : List SigFrame} (hf : p.frames = f :: fs) (mask : Finset ℕ) :
      p.pc ≠ .suspended mask := by
    intro hpc
    rw [(h.suspended mask hpc).2.2] at hf
    cases hf
  cases hc with
  | raise sig => exact ⟨h.stSet, h.suspended⟩
  | discard sig hne => exact ⟨h.stSet, h.suspended⟩
  | interrupt sig hm hmask hact =>
    unfold Process.interrupt
    split
    · rename_i mask hpc
      exact ⟨fun _ => (h.suspended mask hpc).1, fun mask' hpc' => by cases hpc'⟩
    · rename_i hne
      exact ⟨h.stSet, fun mask hpc => absurd hpc (hne mask)⟩
  | enterHandler hf => exact ⟨h.stSet, fun mask hpc => absurd hpc (hhandler hf mask)⟩
  | stopStatus hf => exact ⟨h.stSet, fun mask hpc => absurd hpc (hhandler hf mask)⟩
  | leaveHandler hf => exact ⟨h.stSet, fun mask hpc => absurd hpc (hhandler hf mask)⟩
  | setSigEmpty hf hpc => exact ⟨fun _ => rfl, nofun⟩
  | sigsuspend hf hpc =>
    exact ⟨nofun, fun mask _ => ⟨h.stSet hpc, h.stSet hpc, hf⟩⟩
  | _ => exact ⟨nofun, nofun⟩

theorem rests_of_run (h : (processTree cfg).Run es t) :
    ∀ q p, t.process q = some p → Rests p := by
  refine run_invariant (I := fun t => ∀ q p, t.process q = some p → Rests p) h ?_ ?_
  · exact fun t ht => ht.forall_process fun _ _ _ _ _ _ => ⟨nofun, nofun⟩
  · intro t e t' hrest he
    refine he.forall_process hrest (fun _ _ _ hp hc => hc.rests hp)
      (fun _ hp => ⟨hp.stSet, hp.suspended⟩)
      (fun _ _ _ _ _ _ _ => ⟨⟨nofun, nofun⟩, ⟨nofun, nofun⟩⟩) ?_
    intro p f fs iOne _ hp hf _
    refine ⟨hp.stSet, fun mask hpc => ?_⟩
    rw [(hp.suspended mask hpc).2.2] at hf
    cases hf

theorem run_master (h : (processTree cfg).Run es t) (hp : t.process 0 = some p)
    (he : t.Enabled e) (hnext : t.next cfg e = t.modify 0 f) :
    ∃ t', (processTree cfg).Run (es ++ [e]) t' ∧ t'.process 0 = some (f p) ∧
      (∀ q, q ≠ 0 → t'.process q = t.process q) ∧ t'.endedCount = t.endedCount ∧
      (t.Quiet → t'.Quiet) := by
  refine ⟨t.modify 0 f, h.step ⟨he, congrArg some hnext⟩, process_modify_self hp,
    fun q hq => process_modify_of_ne hq.symm, ?_, quiet_modify⟩
  unfold endedCount modify
  cases t.processes <;> rfl

theorem run_interrupt (h : (processTree cfg).Run es t) (hp : t.process 0 = some p)
    {mask : Finset ℕ} (hpc : p.pc = .suspended mask) (hpending : sigChld ∈ p.pending) :
    ∃ e₁ e₂ t' p', MasterStep e₁ ∧ MasterStep e₂ ∧ (processTree cfg).Run (es ++ [e₁, e₂]) t' ∧
      t'.process 0 = some p' ∧ p'.frames = [⟨sigChld, mask, .getStatus false⟩] ∧
      p'.pc = .setSigSuspend ∧
      (∀ q, q ≠ 0 → t'.process q = t.process q) ∧ t'.endedCount = t.endedCount := by
  obtain ⟨-, hmask, hframes⟩ := (rests_of_run h 0 p hp).suspended mask hpc
  have hact := (attentive_of_run h).handled 0 p hp
  obtain ⟨t₁, hrun₁, hp₁, hothers₁, hcount₁, -⟩ := run_master (e := .deliver 0 sigChld)
    (f := fun p => p.interrupt sigChld) h hp (by simp [Enabled, hp, hpending, hmask])
    (by simp [next, hp, deliver, hact])
  obtain ⟨p₁, hp₁', hframes₁, hpc₁⟩ : ∃ p₁, p.interrupt sigChld = p₁ ∧
      p₁.frames = [⟨sigChld, mask, .enter⟩] ∧ p₁.pc = .setSigSuspend := by
    simp [Process.interrupt, hpc, hframes]
  rw [hp₁'] at hp₁
  have hlegal : t₁.Enabled (.advance 0 (waitEnv .zero)) :=
    ⟨p₁, hp₁, by simp [AdvanceLegal, hframes₁]⟩
  obtain ⟨t₂, hrun₂, hp₂, hothers₂, hcount₂, -⟩ := run_master (e := .advance 0 (waitEnv .zero))
    (f := fun p => p.enterHandler ⟨sigChld, mask, .enter⟩) hrun₁ hp₁ hlegal
    (by simp [next, hp₁, hframes₁, advanceHandler])
  refine ⟨.deliver 0 sigChld, .advance 0 (waitEnv .zero), t₂, _, ⟨rfl, rfl⟩, rfl,
    by simpa using hrun₂, hp₂, ?_, hpc₁, ?_, ?_⟩
  · change (p₁.setHandler _).frames = _
    rw [setHandler_frames hframes₁]
    rfl
  · exact fun q hq => (hothers₂ q hq).trans (hothers₁ q hq)
  · rw [hcount₂, hcount₁]

theorem run_resume (h : (processTree cfg).Run es t) (hp : t.process 0 = some p)
    {mask : Finset ℕ} (hframes : p.frames = [⟨sigChld, mask, .leave⟩])
    (hpc : p.pc = .setSigSuspend) :
    ∃ e₁ e₂ t', MasterStep e₁ ∧ MasterStep e₂ ∧ (processTree cfg).Run (es ++ [e₁, e₂]) t' ∧
      t'.process 0 = some { p with frames := [], mask := p.stSet, pc := .suspended mask } ∧
      (∀ q, q ≠ 0 → t'.process q = t.process q) ∧ (t.Quiet → t'.Quiet) := by
  have hlegal : t.Enabled (.advance 0 (waitEnv .zero)) :=
    ⟨p, hp, by simp [AdvanceLegal, hframes]⟩
  obtain ⟨t₁, hrun₁, hp₁, hothers₁, -, hquiet₁⟩ := run_master (e := .advance 0 (waitEnv .zero))
    (f := fun p => p.leaveHandler ⟨sigChld, mask, .leave⟩) h hp hlegal
    (by simp [next, hp, hframes, advanceHandler])
  have hframes₁ : (p.leaveHandler ⟨sigChld, mask, .leave⟩).frames = [] := by
    simp [Process.leaveHandler, hframes]
  have hpc₁ : (p.leaveHandler ⟨sigChld, mask, .leave⟩).pc = .setSigSuspend := hpc
  have hlegal₁ : t₁.Enabled (.advance 0 (waitEnv .zero)) :=
    ⟨_, hp₁, by simp [AdvanceLegal, hframes₁, hpc₁]⟩
  obtain ⟨t₂, hrun₂, hp₂, hothers₂, -, hquiet₂⟩ := run_master (e := .advance 0 (waitEnv .zero))
    (f := Process.sigsuspend) hrun₁ hp₁ hlegal₁
    (by simp [next, hp₁, hframes₁, advanceProgram, hpc₁])
  refine ⟨.advance 0 (waitEnv .zero), .advance 0 (waitEnv .zero), t₂, rfl, rfl,
    by simpa using hrun₂, ?_, ?_, fun hq => hquiet₂ (hquiet₁ hq)⟩
  · rw [hp₂]
    simp [Process.sigsuspend, Process.leaveHandler, hframes]
  · exact fun q hq => (hothers₂ q hq).trans (hothers₁ q hq)

/-- A sleeping master that is left alone waits for all workers that have ended, and sleeps again. -/
theorem workers_collected (h : (processTree cfg).Run es t) {mask : Finset ℕ}
    (hp : t.process 0 = some p) (hpc : p.pc = .suspended mask) :
    ∃ es' t', (processTree cfg).Run (es ++ es') t' ∧ (∀ e ∈ es', MasterStep e) ∧
      es'.length ≤ t.endedCount + 5 ∧ t'.Quiet ∧
      (∃ p', t'.process 0 = some p' ∧ p'.pc = .suspended mask) ∧
      ∀ q, q ≠ 0 → t'.process q = t.process q := by
  rcases (attentive_of_run h).alert with hquiet | halert
  · exact ⟨[], t, by simpa using h, by simp, by simp, hquiet, ⟨p, hp, hpc⟩, fun _ _ => rfl⟩
  have hpending : sigChld ∈ p.pending := by
    have hframes := ((rests_of_run h 0 p hp).suspended mask hpc).2.2
    rcases halert p hp with hm | ⟨f, hf, -⟩
    · exact hm
    · rw [hframes] at hf
      cases hf
  obtain ⟨e₁, e₂, t₁, p₁, he₁, he₂, hrun₁, hp₁, hframes₁, hpc₁, hothers₁, hcount₁⟩ :=
    run_interrupt h hp hpc hpending
  obtain ⟨es₂, t₂, hrun₂, hes₂, hlen₂, hquiet₂, hp₂, hothers₂⟩ :=
    run_getStatus ⟨sigChld, mask, .leave⟩ t₁.endedCount hrun₁ hp₁ hframes₁ rfl
  obtain ⟨e₃, e₄, t₃, he₃, he₄, hrun₃, hp₃, hothers₃, hquiet₃⟩ := run_resume hrun₂ hp₂ rfl hpc₁
  refine ⟨[e₁, e₂] ++ es₂ ++ [e₃, e₄], t₃, by simpa using hrun₃, ?_, ?_, hquiet₃ hquiet₂,
    ⟨_, hp₃, rfl⟩, fun q hq => ?_⟩
  · intro e he
    simp only [List.mem_append, List.mem_cons, List.not_mem_nil, or_false] at he
    rcases he with ((rfl | rfl) | he) | rfl | rfl
    · exact he₁
    · exact he₂
    · exact hes₂ e he
    · exact he₃
    · exact he₄
  · simp [hlen₂, hcount₁]
  · rw [hothers₃ q hq, hothers₂ q hq, hothers₁ q hq]

/-- The signals that were blocked when `sigsuspend` began to wait. -/
def blockedBefore : ProgramPc → Option (Finset ℕ)
  | .suspended mask => some mask
  | _ => none

theorem eq_suspended_of_blockedBefore {pc : ProgramPc} {mask : Finset ℕ}
    (h : blockedBefore pc = some mask) : pc = .suspended mask := by
  cases pc with
  | suspended mask' => exact congrArg _ (Option.some.inj h)
  | _ => cases h

/-- The only worker cannot set its title and ends before the master sleeps. -/
theorem workers_collected_early : ∃ (cfg : ProcConfig) (es : List TreeEvent) (t : ProcessTree),
    (processTree cfg).Run es t ∧ t.endedCount = 1 ∧
      ∃ es' t', (processTree cfg).Run (es ++ es') t' ∧ (∀ e ∈ es', MasterStep e) ∧
        es'.length ≤ t.endedCount + 5 ∧ t'.Quiet := by
  let call (pid : ℕ) (ok : Bool) : TreeEvent := .advance pid { waitEnv .zero with ok := ok }
  obtain ⟨t, hrun, ht⟩ := processTree_run_of_play (fun _ _ => True)
    ⟨1, 0, fun _ => 0, Server.smallConfig⟩
    [call 0 true, call 0 true, call 0 true, call 1 false, call 0 true, call 0 true, call 0 true]
    (fun t => ((t.process 0).bind fun p => blockedBefore p.pc, t.endedCount))
    (some {sigAlrm, sigChld}, 1)
    (by decide +kernel)
  obtain ⟨hmask, hcount⟩ := Prod.mk.inj ht
  obtain ⟨p, hp, hpc⟩ := Option.bind_eq_some_iff.mp hmask
  obtain ⟨es', t', hrun', hall, hlen, hquiet, -⟩ :=
    workers_collected hrun.of_restrict hp (eq_suspended_of_blockedBefore hpc)
  exact ⟨_, _, t, hrun.of_restrict, hcount, es', t', hrun', hall, hlen, hquiet⟩

end ProcessTree
end XiaoHGServer
