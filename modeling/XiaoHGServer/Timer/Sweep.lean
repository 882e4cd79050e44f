import XiaoHGServer.Library.Sweep
import XiaoHGServer.Timer.Heartbeat

/-!
# A sweep of the heartbeat monitor

The loop of `HeartBeatMonitorThread` takes the first timer as long as its time has
come. It puts the timer back for later unless clients are kicked at once, and a kick
deletes the other timers of its connection. The loop ends, since what is put back is
not due at the time of the sweep.
-/

namespace XiaoHGServer

/-- What a turn of the sweep makes of the first timer. -/
structure Examination where
  item : TimerItem
  kicked : Bool
  rearmed : List TimerItem
  deriving DecidableEq, Repr

namespace TimerQueue

variable {q q' : TimerQueue} {time now : ℤ} {b : BufId} {c : ConnId} {hd : MsgHeader}
  {held : List BufId} {cfg : Config}

theorem Represented.items_late (h : q.Represented held)
    (hget : (q.getOverTimeTimer cfg now).2 = none) : ∀ x ∈ q.items, now < x.key := by
  intro x hx
  obtain ⟨e, he, rfl⟩ := List.mem_map.mp hx
  exact h.lt_of_getOverTimeTimer_none hget _ (List.mem_map_of_mem he)

end TimerQueue

namespace Server

variable {s t u : Server} {now : ℤ} {x : TimerItem}

def examine (s : Server) (x : TimerItem) (now : ℤ) : Examination where
  item := x
  kicked := s.kicks x.header now
  rearmed := if s.config.isTimeOutKick ≠ 1 then
    [⟨now + s.config.waitTime, s.timer.mem.next, x.header⟩] else []

/-- The `while` loop of `HeartBeatMonitorThread` at time `now`, with the timers it has looked at. -/
def heartBeatSweep (now : ℤ) : ℕ → Server → List Examination × Server
  | 0, s => ([], s)
  | fuel + 1, s =>
    match s.timer.items, s.heartBeatMonitorIter now with
    | x :: _, some t =>
      let r := heartBeatSweep now fuel t
      (s.examine x now :: r.1, r.2)
    | _, _ => ([], s)

/-- A turn as that of a queue: a kick drops the other timers of its connection. -/
def turnOf (cfg : Config) (x : Examination) : QueueTurn TimerItem where
  item := x.item
  fresh := x.rearmed
  drops y := x.kicked && decide (cfg.isHBTimeOutCheckEnable = 1) &&
    y.header.pConn == x.item.header.pConn

theorem heartBeatMonitorIter_items (h : s.timer.Represented [])
    (ht : s.heartBeatMonitorIter now = some t) :
    t.config = s.config ∧ t.timer.Represented [] ∧ ∃ x rest, s.timer.items = x :: rest ∧
      x.key ≤ now ∧ (∀ y ∈ rest, x.key ≤ y.key) ∧
      t.timer.items.Perm (((s.examine x now).rearmed ++ rest).filter fun y =>
        !(turnOf s.config (s.examine x now)).drops y) := by
  have hrep := heartBeatMonitorIter_represented h ht
  unfold heartBeatMonitorIter at ht
  split at ht
  · cases ht
  · rename_i q b hget
    obtain ⟨x, rest, hitems, hhead, hdue, hmin, hperm⟩ := h.getOverTimeTimer_items hget
    have hq : q.Represented [b] := h.getOverTimeTimer hget
    obtain rfl := Option.some.inj ht
    set v : Server := { s with timer := q }
    have hkicks : v.kicks (q.mem.buffer b).header now = s.kicks x.header now := by rw [hhead]; rfl
    have heq : v.heartBeatTimeOutCheck b now = (if s.kicks x.header now then
        v.closeConnectionToRecy x.header.pConn now else v).freeTimerHeader b := by
      rw [Monitored.heartBeatTimeOutCheck_eq, hkicks, hhead]
    refine ⟨?_, hrep, x, rest, hitems, hdue, hmin, ?_⟩
    · rw [heq]
      split
      · rw [closeConnectionToRecy_eq]
        rfl
      · rfl
    · rw [heq]
      cases hk : s.kicks x.header now with
      | false =>
        have hall : (fun y => !(turnOf s.config (s.examine x now)).drops y) = fun _ => true := by
          simp [turnOf, examine, hk]
        rw [hall, List.filter_true]
        exact hperm
      | true =>
        have htimer : ((v.closeConnectionToRecy x.header.pConn now).freeTimerHeader b).timer.items =
            q.items.filter fun y => !(turnOf s.config (s.examine x now)).drops y := by
          rw [closeConnectionToRecy_eq]
          by_cases hon : s.config.isHBTimeOutCheckEnable = 1
          · have hdrop : (fun y => !(turnOf s.config (s.examine x now)).drops y) =
                fun y : TimerItem => y.header.pConn != x.header.pConn := by
              funext y
              simp [turnOf, examine, hk, hon, bne]
            rw [hdrop, ← hq.deleteFromTimerQueue_items]
            simp [freeTimerHeader, hon, v, TimerQueue.items]
          · have hall : (fun y => !(turnOf s.config (s.examine x now)).drops y) =
                fun _ => true := by
              simp [turnOf, hon]
            rw [hall, List.filter_true]
            simp [freeTimerHeader, hon, v, TimerQueue.items]
        rw [if_pos rfl, htimer]
        exact hperm.filter _

theorem items_late_of_none (h : s.timer.Represented []) (ht : s.heartBeatMonitorIter now = none) :
    ∀ x ∈ s.timer.items, now < x.key := by
  have hget : (s.timer.getOverTimeTimer s.config now).2 = none := by
    unfold heartBeatMonitorIter at ht
    split at ht
    · rename_i hget
      rw [hget]
    · cases ht
  exact h.items_late hget

theorem heartBeatSweep_none (fuel : ℕ) (ht : s.heartBeatMonitorIter now = none) :
    heartBeatSweep now fuel s = ([], s) := by
  cases fuel with
  | zero => rfl
  | succ fuel =>
    simp only [heartBeatSweep, ht]
    cases s.timer.items <;> rfl

theorem heartBeatSweep_some {rest : List TimerItem} (fuel : ℕ) (hitems : s.timer.items = x :: rest)
    (ht : s.heartBeatMonitorIter now = some t) :
    heartBeatSweep now (fuel + 1) s =
      (s.examine x now :: (heartBeatSweep now fuel t).1, (heartBeatSweep now fuel t).2) := by
  simp only [heartBeatSweep, hitems, ht]

theorem heartBeatSweep_goto (fuel : ℕ) :
    (heartBeatSweep now fuel s).2 = goto (fun s => s.heartBeatMonitorIter now) fuel s := by
  induction fuel generalizing s with
  | zero => rfl
  | succ fuel ih =>
    unfold goto
    cases ht : s.heartBeatMonitorIter now with
    | none => rw [heartBeatSweep_none _ ht]
    | some t =>
      have hne : s.timer.items ≠ [] := by
        unfold heartBeatMonitorIter at ht
        split at ht
        · cases ht
        · rename_i hget
          obtain ⟨⟨key, rest, hmap⟩, -⟩ := TimerQueue.getOverTimeTimer_some hget
          simp [TimerQueue.items, hmap]
      obtain ⟨x, rest, hitems⟩ := List.exists_cons_of_ne_nil hne
      rw [heartBeatSweep_some fuel hitems ht]
      exact ih

/-- A sweep is a run of `monitor` events. -/
theorem run_heartBeatSweep {es : List Event} (h : process.Run es s) (now : ℤ) (fuel : ℕ) :
    ∃ n, process.Run (es ++ List.replicate n (.monitor now)) (heartBeatSweep now fuel s).2 := by
  rw [heartBeatSweep_goto]
  exact run_goto (fun s => s.heartBeatMonitorIter now) (.monitor now) (fun _ he => he)
    (fun _ => rfl) fuel h

def dueCount (s : Server) (now : ℤ) : ℕ := (s.timer.items.filter fun x => x.key ≤ now).length

theorem examine_fresh (hwait : 0 < s.config.waitTime) :
    ∀ y ∈ (s.examine x now).rearmed, now < y.key := by
  intro y hy
  unfold examine at hy
  split_ifs at hy
  · obtain rfl := List.mem_singleton.mp hy
    dsimp only
    omega
  · cases hy

/-- Every turn leaves fewer timers that are due. -/
theorem dueCount_lt (hwait : 0 < s.config.waitTime) (h : s.timer.Represented [])
    (ht : s.heartBeatMonitorIter now = some t) : t.dueCount now < s.dueCount now := by
  obtain ⟨-, -, x, rest, hitems, hdue, -, hperm⟩ := heartBeatMonitorIter_items h ht
  have hleft := (Sweep.due_perm (t := turnOf s.config (s.examine x now)) (examine_fresh hwait)
    hperm).length_eq
  have hle := (rest.filter fun y => y.key ≤ now).length_filter_le
    fun y => !(turnOf s.config (s.examine x now)).drops y
  rw [dueCount, dueCount, hleft, hitems, List.filter_cons_of_pos (by simpa using hdue),
    List.length_cons]
  exact Nat.lt_succ_of_le hle

/-- What a turn puts back: the timer again, for later, unless clients are kicked at once. -/
def Rearms (cfg : Config) (now : ℤ) (x : Examination) : Prop :=
  x.rearmed.map (fun y => (y.key, y.header)) =
    if cfg.isTimeOutKick ≠ 1 then [(now + cfg.waitTime, x.item.header)] else []

theorem rearms_examine : Rearms s.config now (s.examine x now) := by
  unfold Rearms examine
  split <;> rfl

theorem heartBeatSweep_sweep : ∀ (fuel : ℕ) {s : Server}, 0 < s.config.waitTime →
    s.timer.Represented [] → s.dueCount now ≤ fuel →
    let r := heartBeatSweep now fuel s
    r.2.heartBeatMonitorIter now = none ∧ (∀ x ∈ r.1, Rearms s.config now x) ∧
      Sweep TimerItem.key now s.timer.items (r.1.map (turnOf s.config)) r.2.timer.items := by
  intro fuel
  induction fuel with
  | zero =>
    intro s hwait h hlen
    cases ht : s.heartBeatMonitorIter now with
    | none => exact ⟨ht, by simp [heartBeatSweep], .done (items_late_of_none h ht)⟩
    | some t => exact absurd (dueCount_lt hwait h ht) (by omega)
  | succ fuel ih =>
    intro s hwait h hlen
    cases ht : s.heartBeatMonitorIter now with
    | none =>
      rw [heartBeatSweep_none _ ht]
      exact ⟨ht, by simp, .done (items_late_of_none h ht)⟩
    | some t =>
      have hlt := dueCount_lt hwait h ht
      obtain ⟨hcfg, ht', x, rest, hitems, hdue, hmin, hperm⟩ := heartBeatMonitorIter_items h ht
      obtain ⟨hend, hrearm, hsweep⟩ := ih (hcfg ▸ hwait) ht' (by omega)
      rw [heartBeatSweep_some fuel hitems ht, hitems]
      rw [hcfg] at hrearm hsweep
      refine ⟨hend, ?_, .turn hdue hmin (examine_fresh hwait) hperm hsweep⟩
      intro y hy
      rcases List.mem_cons.mp hy with rfl | hy
      · exact rearms_examine
      · exact hrearm y hy

def kickedIn (log : List Examination) (c : ConnId) : Bool :=
  log.any fun x => x.kicked && x.item.header.pConn == c

theorem kickedIn_of_drops {log : List Examination} {y : Examination} (hy : y ∈ log) {cfg : Config}
    (hdrop : (turnOf cfg y).drops x = true) : kickedIn log x.header.pConn = true := by
  simp only [turnOf, Bool.and_eq_true, beq_iff_eq] at hdrop
  refine List.any_eq_true.mpr ⟨y, hy, ?_⟩
  simp [hdrop.1.1, hdrop.2]

/-- What the sweep is to do with the timers of `s`: it has looked at those of `log` and ends in
`u`. -/
structure Swept (s : Server) (now : ℤ) (log : List Examination) (u : Server) : Prop where
  ends : u.heartBeatMonitorIter now = none
  ordered : log.Pairwise fun x y => x.item.key ≤ y.item.key
  /-- What is looked at was due, and is looked at once. -/
  due : ∀ x ∈ log, x.item ∈ s.timer.items ∧ x.item.key ≤ now
  once : (log.map Examination.item).Nodup
  all : ∀ x ∈ s.timer.items, x.key ≤ now → x ∈ log.map Examination.item ∨
    kickedIn log x.header.pConn = true
  untouched : ∀ x ∈ s.timer.items, now < x.key → kickedIn log x.header.pConn = false →
    x ∈ u.timer.items
  rearmed : s.config.isTimeOutKick ≠ 1 → ∀ x ∈ log, kickedIn log x.item.header.pConn = false →
    ∃ y ∈ u.timer.items, y.key = now + s.config.waitTime ∧ y.header = x.item.header
  gone : s.config.isTimeOutKick = 1 → ∀ y ∈ u.timer.items, kickedIn log y.header.pConn = false →
    y ∈ s.timer.items ∧ now < y.key
  rearms : ∀ x ∈ log, Rearms s.config now x
  /-- All timers of connections that were not kicked are those that were not due, and what the turns
  put back. -/
  accounts : (u.timer.items.filter fun x => !kickedIn log x.header.pConn).Perm
    (((s.timer.items.filter fun x => now < x.key) ++ log.flatMap Examination.rearmed).filter
      fun x => !kickedIn log x.header.pConn)
  late : ∀ x ∈ u.timer.items, now < x.key

theorem nodup_items (h : s.timer.Represented []) : s.timer.items.Nodup := by
  have hids : (s.timer.items.map TimerItem.pMsgHeader).Nodup := by
    have heq : s.timer.items.map TimerItem.pMsgHeader = s.timer.headers := by
      simp [TimerQueue.items, TimerQueue.headers]
    rw [heq]
    exact h.ledger.held_nodup
  exact hids.of_map _

theorem heartBeatSweep_swept {fuel : ℕ} (hwait : 5 ≤ s.config.waitTime)
    (h : s.timer.Represented []) (hfuel : s.timer.timerQueueMultiMap.length ≤ fuel) :
    s.Swept now (heartBeatSweep now fuel s).1 (heartBeatSweep now fuel s).2 := by
  have hcount : s.dueCount now ≤ fuel := by
    have hle : s.dueCount now ≤ s.timer.items.length := List.length_filter_le _ _
    rw [TimerQueue.items, List.length_map] at hle
    exact hle.trans hfuel
  obtain ⟨hend, hrearm, hsweep⟩ := heartBeatSweep_sweep fuel (by omega) h hcount
  set log := (heartBeatSweep now fuel s).1
  set u := (heartBeatSweep now fuel s).2
  have hmap : (log.map (turnOf s.config)).map QueueTurn.item = log.map Examination.item := by
    rw [List.map_map]
    rfl
  have hitems := hsweep.items
  rw [hmap] at hitems
  have hacc := hsweep.accounts (p := fun x => !kickedIn log x.header.pConn) (by
    intro t ht y hy
    obtain ⟨x, hx, rfl⟩ := List.mem_map.mp ht
    rw [← Bool.not_eq_true]
    intro hdrop
    rw [kickedIn_of_drops hx hdrop] at hy
    cases hy)
  rw [List.flatMap_map] at hacc
  have hthere {y : TimerItem} (hy : kickedIn log y.header.pConn = false) :
      y ∈ u.timer.items ↔
        (y ∈ s.timer.items ∧ now < y.key) ∨ ∃ x ∈ log, y ∈ x.rearmed := by
    have hmem := hacc.mem_iff (a := y)
    simpa [hy, turnOf] using hmem
  have hdue : ∀ x ∈ log, x.item ∈ s.timer.items ∧ x.item.key ≤ now := by
    intro x hx
    have hmem := hitems.subset (List.mem_map_of_mem hx)
    simpa using hmem
  refine ⟨hend, ?_, hdue, ?_, ?_, ?_, ?_, ?_, hrearm, hacc, hsweep.late⟩
  · have hordered := hsweep.ordered
    rwa [List.pairwise_map] at hordered
  · obtain ⟨l, hperm, hsub⟩ := hitems
    exact hperm.nodup_iff.mp ((nodup_items h).filter _ |>.sublist hsub)
  · intro x hx hkey
    rcases hsweep.all x hx hkey with hmem | ⟨t, ht, hdrop⟩
    · exact Or.inl (hmap ▸ hmem)
    · obtain ⟨y, hy, rfl⟩ := List.mem_map.mp ht
      exact Or.inr (kickedIn_of_drops hy hdrop)
  · intro x hx hkey hno
    exact (hthere hno).mpr (Or.inl ⟨hx, hkey⟩)
  · intro hpatient x hx hno
    have hre := hrearm x hx
    rw [Rearms, if_pos hpatient, List.map_eq_singleton_iff] at hre
    obtain ⟨y, hy, hval⟩ := hre
    obtain ⟨hkey, hhead⟩ := Prod.mk.inj hval
    have hmem : y ∈ x.rearmed := by rw [hy]; exact List.mem_singleton_self y
    exact ⟨y, (hthere (hhead ▸ hno)).mpr (Or.inr ⟨x, hx, hmem⟩), hkey, hhead⟩
  · intro hkick y hy hno
    rcases (hthere hno).mp hy with hold | ⟨x, hx, hmem⟩
    · exact hold
    · have hre := hrearm x hx
      rw [Rearms, if_neg (not_not.mpr hkick), List.map_eq_nil_iff] at hre
      rw [hre] at hmem
      cases hmem

/-- Two clients were entered at different times; neither has been silent for too long. -/
theorem heartBeatSweep_swept_patient : ∃ s : Server,
    s.Swept 30 (heartBeatSweep 30 2 s).1 (heartBeatSweep 30 2 s).2 ∧
      (heartBeatSweep 30 2 s).1.map (fun x => x.item.key) = [20, 25] ∧
      (heartBeatSweep 30 2 s).2.timer.items.map TimerItem.key = [50, 50] := by
  let q : TimerQueue := ⟨[], 0, 0, .empty fun _ _ => 0⟩
  have hempty : q.Represented [] := ⟨⟨rfl, by simp [q], .nil, .empty⟩, by simp [q]⟩
  have hone : (q.addToTimerList 20 0 ⟨1, 0⟩).Represented [] := hempty.addToTimerList (by decide)
  have htwo : ((q.addToTimerList 20 0 ⟨1, 0⟩).addToTimerList 20 5 ⟨2, 0⟩).Represented [] :=
    hone.addToTimerList (by decide)
  exact ⟨{ smallBoot smallConfig with timer := _ },
    heartBeatSweep_swept (by decide) htwo (by decide), by decide +kernel, by decide +kernel⟩

end Server
end XiaoHGServer
