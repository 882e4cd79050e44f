import XiaoHGServer.Model.Process

/-!
# A pass of the recycler

`DelayRecoveryConnectionThread` starts over at the front of its queue after each
connection that it frees. All the same a pass is one scan: the connections that are
due leave the queue in their order, and nothing happens to the others.
-/

namespace XiaoHGServer

/-- The first element that is looked for is the first of all, and the others are behind it. -/
theorem filter_eq_cons_of_find? {α : Type*} [DecidableEq α] {p : α → Bool} {a : α} :
    ∀ {l : List α}, l.find? p = some a → l.filter p = a :: (l.erase a).filter p ∧
      (l.erase a).filter (fun x => !p x) = l.filter fun x => !p x
  | [], h => by simp at h
  | x :: l, h => by
    cases hx : p x with
    | true =>
      obtain rfl : x = a := by simpa [hx] using h
      simp [hx]
    | false =>
      have hne : x ≠ a := by
        rintro rfl
        have ha := List.find?_some h
        rw [hx] at ha
        cases ha
      obtain ⟨hdue, hrest⟩ := filter_eq_cons_of_find? (l := l) (by simpa [hx] using h)
      rw [List.erase_cons_tail (by simpa using hne)]
      simp [hx, hdue, hrest]

namespace Server

variable {s t : Server} {c d : ConnId} {now : ℤ}

/-- The connections of the recycling queue whose waiting time is over. -/
def dueRecy (s : Server) (now : ℤ) : List ConnId :=
  s.pool.recyConnectionList.filter (s.recoveryDue now)

/-- A pass of the recycler at time `now` that ends in `t`. -/
structure Recycles (s : Server) (now : ℤ) (t : Server) : Prop where
  ends : t.lblRRTD now = none
  once : (s.dueRecy now).Nodup
  free : t.pool.freeConnectionList = s.pool.freeConnectionList ++ s.dueRecy now
  recy : t.pool.recyConnectionList =
    s.pool.recyConnectionList.filter fun c => !s.recoveryDue now c
  moved : ∀ c ∈ s.dueRecy now,
    (t.conn c).currSequence = u64 ((s.conn c).currSequence + 1) ∧
      (t.conn c).send.throwSendMsgCount ≤ 0
  kept : ∀ c, c ∉ s.dueRecy now → t.conn c = s.conn c
  delayCount : t.pool.delayRecoveryConnectionCount =
    s.pool.delayRecoveryConnectionCount - (s.dueRecy now).length
  freeCount : t.pool.freeConnectionCount =
    s.pool.freeConnectionCount + (s.dueRecy now).length

theorem Recycles.total (h : s.Recycles now t) :
    t.pool.freeConnectionList.length + t.pool.recyConnectionList.length =
      s.pool.freeConnectionList.length + s.pool.recyConnectionList.length := by
  have hsplit := s.pool.recyConnectionList.length_eq_length_filter_add (s.recoveryDue now)
  rw [h.free, h.recy, List.length_append, hsplit, dueRecy]
  omega

theorem recycles_of_none (h : s.lblRRTD now = none) : s.Recycles now s := by
  have hnone : s.pool.recyConnectionList.find? (s.recoveryDue now) = none := by
    unfold lblRRTD at h
    split at h
    · assumption
    · cases h
  have hlate : ∀ c ∈ s.pool.recyConnectionList, s.recoveryDue now c = false := by
    intro c hc
    simpa using List.find?_eq_none.mp hnone c hc
  have hdue : s.dueRecy now = [] :=
    List.filter_eq_nil_iff.mpr fun c hc => by simp [hlate c hc]
  refine ⟨h, by simp [hdue], by rw [hdue, List.append_nil], ?_, by simp [hdue], fun _ _ => rfl,
    by simp [hdue], by simp [hdue]⟩
  exact (List.filter_eq_self.mpr fun c hc => by simp [hlate c hc]).symm

theorem recoveryDue_recycled (n : ℤ) : (s.recycled c n).recoveryDue now = s.recoveryDue now := by
  funext d
  have htime : ((s.recycled c n).conn d).putRecyConnQueueTime = (s.conn d).putRecyConnQueueTime :=
    update_field Connection.putRecyConnQueueTime (by rfl) d
  simp only [recoveryDue, htime]
  rfl

theorem Recycles.cons {u : Server} {n : ℤ} (hn : n ≤ 0) (hnodup : s.pool.recyConnectionList.Nodup)
    (hc : s.pool.recyConnectionList.find? (s.recoveryDue now) = some c)
    (h : (s.recycled c n).Recycles now u) : s.Recycles now u := by
  obtain ⟨hfirst, hrest⟩ := filter_eq_cons_of_find? hc
  have hdue : s.dueRecy now = c :: (s.recycled c n).dueRecy now := by
    rw [dueRecy, hfirst, dueRecy, recoveryDue_recycled]
    rfl
  have hnot : c ∉ (s.recycled c n).dueRecy now := by
    have hall : (s.dueRecy now).Nodup := hnodup.filter _
    rw [hdue] at hall
    exact (List.nodup_cons.mp hall).1
  have hother {d : ConnId} (hd : d ≠ c) : (s.recycled c n).conn d = s.conn d :=
    Function.update_of_ne hd _ _
  refine ⟨h.ends, hnodup.filter _, ?_, ?_, ?_, ?_, ?_, ?_⟩
  · rw [h.free, hdue]
    simp [recycled, ConnectionPool.takeFromRecyQueue, ConnectionPool.freeConnection]
  · rw [h.recy, recoveryDue_recycled]
    exact hrest
  · intro d hd
    rw [hdue] at hd
    rcases List.mem_cons.mp hd with rfl | hd
    · rw [h.kept _ hnot]
      simp [recycled, hn]
    · have hne : d ≠ c := fun heq => hnot (heq ▸ hd)
      obtain ⟨hseq, hthrow⟩ := h.moved d hd
      rw [hother hne] at hseq
      exact ⟨hseq, hthrow⟩
  · intro d hd
    rw [hdue, List.mem_cons, not_or] at hd
    rw [h.kept d hd.2, hother hd.1]
  · rw [h.delayCount, hdue, List.length_cons]
    simp only [recycled, ConnectionPool.takeFromRecyQueue, ConnectionPool.freeConnection]
    push_cast
    ring
  · rw [h.freeCount, hdue, List.length_cons]
    simp only [recycled, ConnectionPool.takeFromRecyQueue, ConnectionPool.freeConnection]
    push_cast
    ring

/-- With as many rounds as connections are due the scan reaches the end of the queue. -/
theorem goto_lblRRTD_recycles : ∀ (fuel : ℕ) {s : Server}, s.pool.recyConnectionList.Nodup →
    s.pool.recyConnectionList.length ≤ fuel →
    s.Recycles now (goto (fun s => s.lblRRTD now) fuel s) := by
  intro fuel
  induction fuel with
  | zero =>
    intro s _ hlen
    have hnil : s.pool.recyConnectionList = [] :=
      List.eq_nil_of_length_eq_zero (Nat.le_zero.mp hlen)
    exact recycles_of_none (by simp [lblRRTD, hnil])
  | succ fuel ih =>
    intro s hnodup hlen
    unfold goto
    cases hs : s.lblRRTD now with
    | none => exact recycles_of_none hs
    | some t =>
      obtain ⟨c, hc, rfl⟩ := lblRRTD_eq_some hs
      have hlt := length_recycled (n := min (s.conn c).send.throwSendMsgCount 0)
        (List.mem_of_find?_eq_some hc)
      exact (ih (hnodup.erase c) (by omega)).cons (min_le_right _ _) hnodup hc

/-- A pass frees the connections that are due, each once and in their order, and leaves the
others. -/
theorem pass_recycles (hnodup : s.pool.recyConnectionList.Nodup)
    (hcount : s.pool.delayRecoveryConnectionCount = s.pool.recyConnectionList.length) (now : ℤ) :
    s.Recycles now (s.delayRecoveryConnectionPass now) ∧
      (s.delayRecoveryConnectionPass now).pool.freeConnectionList.length +
        (s.delayRecoveryConnectionPass now).pool.recyConnectionList.length =
      s.pool.freeConnectionList.length + s.pool.recyConnectionList.length := by
  have h : s.Recycles now (s.delayRecoveryConnectionPass now) := by
    unfold delayRecoveryConnectionPass
    split_ifs with hpos
    · exact goto_lblRRTD_recycles _ hnodup le_rfl
    · have hnil : s.pool.recyConnectionList = [] := by
        apply List.eq_nil_of_length_eq_zero
        omega
      exact recycles_of_none (by simp [lblRRTD, hnil])
  exact ⟨h, h.total⟩

/-- Of two connections the second is due. -/
theorem pass_recycles_second : ∃ s : Server, s.Recycles 5 (s.delayRecoveryConnectionPass 5) ∧
    s.pool.recyConnectionList = [1, 0] ∧ s.dueRecy 5 = [0] := by
  let s : Server := { smallBoot smallConfig with
    conn := fun c => { newConnection with putRecyConnQueueTime := 10 * c }
    pool := { (smallBoot smallConfig).pool with
      freeConnectionList := []
      recyConnectionList := [1, 0]
      delayRecoveryConnectionCount := 2 } }
  exact ⟨s, (pass_recycles (s := s) (by decide) (by decide) 5).1, rfl, by decide⟩

end Server
end XiaoHGServer
