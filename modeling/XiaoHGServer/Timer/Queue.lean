import XiaoHGServer.Library.Ledger
import XiaoHGServer.Library.Transition
import XiaoHGServer.Model.Epoll
import XiaoHGServer.Model.Process

/-!
# The timer queue and its cached values

`m_CurrentHeartBeatListSize` counts the entries of the map, `m_HBListEarliestTime`
is its smallest key, and the map owns the message headers that its entries point
to. The operations change the three in several steps, and `HeartBeatTimeOutCheck`
may delete entries while it holds the header it was given.
-/

namespace XiaoHGServer

structure TimerItem where
  key : ℤ
  pMsgHeader : BufId
  header : MsgHeader
  deriving DecidableEq, Repr

/-- The operations on the timer queue, and what other code does to connections. -/
inductive TimerOp
  | addToTimerList (c : ConnId) (now : ℤ)
  /-- `GetOverTimeTimer`, and `HeartBeatTimeOutCheck` of what it returns. -/
  | overTime (now : ℤ)
  | deleteFromTimerQueue (c : ConnId)
  | clearAllFromTimerQueue
  | connections (conn : ConnId → Connection)

namespace TimerQueue

variable {q q' : TimerQueue} {time now : ℤ} {b : BufId} {c : ConnId} {hd : MsgHeader}
  {held : List BufId} {cfg : Config}

def headers (q : TimerQueue) : List BufId := q.timerQueueMultiMap.map Prod.snd

/-- The size and the earliest time are those of the map, an entry whose time is over is seen by
the test of the monitor, and every header is either the entry's alone or released, once. -/
structure Consistent (q : TimerQueue) : Prop where
  size : q.currentHeartBeatListSize = q.timerQueueMultiMap.length
  earliest : q.timerQueueMultiMap ≠ [] →
    (∃ e ∈ q.timerQueueMultiMap, e.1 = q.hbListEarliestTime) ∧
      ∀ e ∈ q.timerQueueMultiMap, q.hbListEarliestTime ≤ e.1
  seen : ∀ now, (∃ e ∈ q.timerQueueMultiMap, e.1 < now) →
    0 < q.currentHeartBeatListSize ∧ q.hbListEarliestTime < now
  live : ∀ b ∈ q.headers, b ∉ q.mem.released
  distinct : q.headers.Nodup
  freed : ∀ b < q.mem.next, b ∉ q.headers → b ∈ q.mem.released
  once : q.mem.released.Nodup

/-- The map is sorted and counted, and its headers and those in `held` are owned. -/
structure Entries (held : List BufId) (q : TimerQueue) : Prop where
  size : q.currentHeartBeatListSize = q.timerQueueMultiMap.length
  bound : q.timerQueueMultiMap.length < 2 ^ 64
  sorted : q.timerQueueMultiMap.Pairwise fun e e' => e.1 ≤ e'.1
  ledger : Balanced q.mem.next (held ++ q.headers) q.mem.released

/-- The same with the earliest time. -/
structure Represented (held : List BufId) (q : TimerQueue) : Prop extends Entries held q where
  earliest : ∀ e ∈ q.timerQueueMultiMap.head?, q.hbListEarliestTime = e.1

theorem Represented.consistent (h : q.Represented []) : q.Consistent := by
  have hmin (hne : q.timerQueueMultiMap ≠ []) :
      (∃ e ∈ q.timerQueueMultiMap, e.1 = q.hbListEarliestTime) ∧
        ∀ e ∈ q.timerQueueMultiMap, q.hbListEarliestTime ≤ e.1 := by
    obtain ⟨e, rest, hmap⟩ := List.exists_cons_of_ne_nil hne
    have hfirst : q.hbListEarliestTime = e.1 := h.earliest e (by simp [hmap])
    have hsorted := h.sorted
    rw [hmap] at hsorted ⊢
    refine ⟨⟨e, List.mem_cons_self .., hfirst.symm⟩, fun e' he' => ?_⟩
    rcases List.mem_cons.mp he' with rfl | he'
    · exact hfirst.le
    · exact hfirst.le.trans (List.rel_of_pairwise_cons hsorted he')
  exact {
    size := h.size
    earliest := hmin
    seen := by
      rintro now ⟨e, he, hlt⟩
      rw [h.size]
      exact ⟨List.length_pos_of_mem he, ((hmin (List.ne_nil_of_mem he)).2 e he).trans_lt hlt⟩
    live := fun b hb => h.ledger.notMem_freed hb
    distinct := h.ledger.held_nodup
    freed := fun b hb hno => h.ledger.mem_freed hb hno
    once := h.ledger.freed_nodup }

/-- `insert` keeps the map sorted. -/
theorem sorted_insert (h : q.timerQueueMultiMap.Pairwise fun e e' => e.1 ≤ e'.1) :
    (q.insert time b).timerQueueMultiMap.Pairwise fun e e' => e.1 ≤ e'.1 := by
  have main : ∀ l : List (ℤ × BufId), l.Pairwise (fun e e' => e.1 ≤ e'.1) →
      (l.takeWhile (fun e => e.1 ≤ time) ++ (time, b) :: l.dropWhile
        (fun e => e.1 ≤ time)).Pairwise fun e e' => e.1 ≤ e'.1 := by
    intro l
    induction l with
    | nil => simp
    | cons e l ih =>
      intro hl
      obtain ⟨hfirst, hrest⟩ := List.pairwise_cons.mp hl
      by_cases hle : e.1 ≤ time
      · rw [List.takeWhile_cons_of_pos (by simp [hle]), List.dropWhile_cons_of_pos (by simp [hle]),
          List.cons_append]
        refine List.pairwise_cons.mpr ⟨fun e' he' => ?_, ih hrest⟩
        rcases mem_insert (q := { q with timerQueueMultiMap := l }) he' with rfl | he'
        · exact hle
        · exact hfirst e' he'
      · rw [List.takeWhile_cons_of_neg (by simp [hle]), List.dropWhile_cons_of_neg (by simp [hle])]
        refine List.pairwise_cons.mpr ⟨fun e' he' => ?_, hl⟩
        rcases List.mem_cons.mp he' with rfl | he'
        · exact (not_le.mp hle).le
        · exact (not_le.mp hle).le.trans (hfirst e' he')
  exact main _ h

theorem perm_insert :
    (q.insert time b).timerQueueMultiMap.Perm ((time, b) :: q.timerQueueMultiMap) := by
  have h : (q.insert time b).timerQueueMultiMap.Perm
      ((time, b) :: (q.timerQueueMultiMap.takeWhile (fun e => e.1 ≤ time) ++
        q.timerQueueMultiMap.dropWhile fun e => e.1 ≤ time)) := List.perm_middle
  rwa [List.takeWhile_append_dropWhile] at h

theorem Entries.insertHeader (h : q.Entries held)
    (hlen : q.timerQueueMultiMap.length + 1 < 2 ^ 64) :
    (q.insertHeader time hd).Entries held := by
  have hperm : (q.insertHeader time hd).timerQueueMultiMap.Perm
      ((time, q.mem.next) :: q.timerQueueMultiMap) := perm_insert
  have hlength : (q.insertHeader time hd).timerQueueMultiMap.length =
      q.timerQueueMultiMap.length + 1 := hperm.length_eq
  refine ⟨?_, by rwa [hlength], sorted_insert h.sorted, ?_⟩
  · rw [hlength, ← h.size]
    rw [← h.size] at hlen
    exact Nat.mod_eq_of_lt hlen
  · refine h.ledger.alloc.perm ((List.Perm.append_left held (hperm.map Prod.snd)).trans ?_)
    exact List.perm_middle

theorem Entries.refresh (h : q.Entries held) :
    ({ q with hbListEarliestTime := q.getTimerListEarliestTime } : TimerQueue).Represented
      held where
  toEntries := ⟨h.size, h.bound, h.sorted, h.ledger⟩
  earliest e he := by
    have hhead : q.timerQueueMultiMap.head? = some e := he
    simp only [getTimerListEarliestTime, List.headD_eq_head?_getD, hhead, Option.getD_some]

/-- `if(m_CurrentHeartBeatListSize > 0) m_HBListEarliestTime = GetTimerListEarliestTime()`. -/
theorem Entries.refresh_if (h : q.Entries held) :
    (if q.currentHeartBeatListSize > 0 then
      { q with hbListEarliestTime := q.getTimerListEarliestTime } else q).Represented held := by
  split_ifs with hpos
  · exact h.refresh
  · refine ⟨h, fun e he => ?_⟩
    have hnil : q.timerQueueMultiMap = [] :=
      List.eq_nil_of_length_eq_zero (by rw [← h.size]; omega)
    simp [hnil] at he

theorem Represented.addToTimerList (h : q.Represented held)
    (hlen : q.timerQueueMultiMap.length + 1 < 2 ^ 64) {waitTime : ℤ} :
    (q.addToTimerList waitTime now hd).Represented held :=
  (h.toEntries.insertHeader hlen).refresh

theorem Represented.free (h : q.Represented (b :: held)) :
    ({ q with mem := q.mem.freeMemory (some b) } : TimerQueue).Represented held where
  size := h.size
  bound := h.bound
  sorted := h.sorted
  ledger := by
    simpa [headers] using Balanced.free h.ledger
  earliest := h.earliest

theorem sub64_succ {n : ℕ} (hn : n + 1 < 2 ^ 64) : sub64 (n + 1) 1 = n := by
  unfold sub64 u64
  omega

theorem Entries.removeTimerQueueFirstTime (h : q.Entries held)
    (hrem : q.removeTimerQueueFirstTime = (q', some b)) :
    q'.Entries (b :: held) ∧ q'.timerQueueMultiMap.length + 1 = q.timerQueueMultiMap.length := by
  unfold TimerQueue.removeTimerQueueFirstTime at hrem
  split at hrem
  · simp at hrem
  · split at hrem
    · simp at hrem
    · rename_i e rest hmap
      simp only [Prod.mk.injEq, Option.some.injEq] at hrem
      obtain ⟨rfl, rfl⟩ := hrem
      have hsize := h.size
      have hbound := h.bound
      have hsorted := h.sorted
      have hledger := h.ledger
      simp only [headers, hmap, List.length_cons, List.map_cons] at hsize hbound hsorted hledger
      refine ⟨⟨?_, by dsimp only; omega, (List.pairwise_cons.mp hsorted).2, ?_⟩, ?_⟩
      · dsimp only
        rw [hsize, sub64_succ hbound]
      · exact hledger.perm List.perm_middle.symm
      · rw [hmap, List.length_cons]

/-- `GetOverTimeTimer` takes out a header, and puts another one back unless clients are kicked. -/
theorem Represented.getOverTimeTimer (h : q.Represented held)
    (hget : q.getOverTimeTimer cfg now = (q', some b)) : q'.Represented (b :: held) := by
  obtain ⟨key, rest, q₁, q₂, -, -, hrem, -, -, hq₂, rfl⟩ := getOverTimeTimer_cases hget
  obtain ⟨h₁, hlen⟩ := h.toEntries.removeTimerQueueFirstTime hrem
  have hbound := h.bound
  refine Entries.refresh_if ?_
  rw [hq₂]
  split
  · exact h₁.insertHeader (by omega)
  · exact h₁

/-- The loop of `DeleteFromTimerQueue` erases the entries of the connection, and no others. -/
theorem Entries.lblMTQM : ∀ (fuel : ℕ) {q : TimerQueue}, q.Entries held →
    q.timerQueueMultiMap.length ≤ fuel →
      (lblMTQM fuel q c).Entries held ∧ (lblMTQM fuel q c).timerQueueMultiMap =
        q.timerQueueMultiMap.filter fun e => !q.ofConn c e
  | 0, q, h, hlen => by
    have hnil : q.timerQueueMultiMap = [] := List.eq_nil_of_length_eq_zero (Nat.le_zero.mp hlen)
    exact ⟨h, by simp [TimerQueue.lblMTQM, hnil]⟩
  | fuel + 1, q, h, hlen => by
    rw [TimerQueue.lblMTQM]
    split
    · rename_i hnone
      refine ⟨h, (List.filter_eq_self.mpr fun e he => ?_).symm⟩
      simpa using List.find?_eq_none.mp hnone e he
    · rename_i e hfind
      have hperm := perm_cons_eraseP hfind
      have hlength := hperm.length_eq
      rw [List.length_cons] at hlength
      set q₁ : TimerQueue := { q with
        mem := q.mem.freeMemory (some e.2)
        timerQueueMultiMap := q.timerQueueMultiMap.eraseP (q.ofConn c)
        currentHeartBeatListSize := sub64 q.currentHeartBeatListSize 1 } with hq₁
      have hof : q₁.ofConn c = q.ofConn c := by
        funext e'
        simp [ofConn, hq₁]
      have h₁ : q₁.Entries held := by
        have hbound := h.bound
        refine ⟨?_, ?_, h.sorted.sublist List.eraseP_sublist, ?_⟩
        · change sub64 q.currentHeartBeatListSize 1 = _
          rw [h.size, hlength, sub64_succ (by omega)]
        · change (q.timerQueueMultiMap.eraseP (q.ofConn c)).length < _
          omega
        · have hheld : (e.2 :: (held ++ q₁.headers)).Perm (held ++ q.headers) :=
            List.perm_middle.symm.trans ((hperm.map Prod.snd).symm.append_left held)
          simpa [hq₁] using (h.ledger.perm hheld).free
      have hlen₁ : q₁.timerQueueMultiMap.length ≤ fuel := by
        change (q.timerQueueMultiMap.eraseP (q.ofConn c)).length ≤ fuel
        omega
      obtain ⟨hents, hmap⟩ := Entries.lblMTQM fuel h₁ hlen₁
      refine ⟨hents, hmap.trans ?_⟩
      rw [hof]
      exact filter_eraseP_not (q.ofConn c) q.timerQueueMultiMap

theorem Represented.deleteFromTimerQueue (h : q.Represented held) :
    (q.deleteFromTimerQueue c).Represented held :=
  (h.toEntries.lblMTQM _ le_rfl).1.refresh_if

theorem deleteFromTimerQueue_map (h : q.Represented held) :
    (q.deleteFromTimerQueue c).timerQueueMultiMap =
      q.timerQueueMultiMap.filter fun e => !q.ofConn c e := by
  rw [← (h.toEntries.lblMTQM _ le_rfl).2]
  unfold TimerQueue.deleteFromTimerQueue
  dsimp only
  split <;> rfl

theorem clearLoop : ∀ (l : List (ℤ × BufId)) {q : TimerQueue},
    q.currentHeartBeatListSize = l.length → l.length < 2 ^ 64 →
    Balanced q.mem.next (l.map Prod.snd) q.mem.released →
    ∃ mem, l.foldl (fun q e => { q with
        mem := q.mem.freeMemory (some e.2)
        currentHeartBeatListSize := sub64 q.currentHeartBeatListSize 1 }) q =
        { q with mem := mem, currentHeartBeatListSize := 0 } ∧
      Balanced mem.next [] mem.released
  | [], q, hsize, _, hledger => by
    refine ⟨q.mem, ?_, hledger⟩
    rw [← show q.currentHeartBeatListSize = 0 from hsize]
    rfl
  | e :: l, q, hsize, hlen, hledger => by
    have hsub : sub64 q.currentHeartBeatListSize 1 = l.length := by
      rw [hsize, List.length_cons, sub64_succ hlen]
    obtain ⟨mem, hfold, hend⟩ := clearLoop l (q := { q with
      mem := q.mem.freeMemory (some e.2)
      currentHeartBeatListSize := sub64 q.currentHeartBeatListSize 1 }) hsub
      (Nat.lt_of_succ_lt hlen) (by simpa using Balanced.free hledger)
    exact ⟨mem, by rw [List.foldl_cons, hfold], hend⟩

theorem Represented.clearAllFromTimerQueue (h : q.Represented []) :
    q.clearAllFromTimerQueue.Represented [] := by
  obtain ⟨mem, hfold, hend⟩ := clearLoop q.timerQueueMultiMap h.size h.bound h.ledger
  rw [TimerQueue.clearAllFromTimerQueue, hfold]
  exact ⟨⟨rfl, by simp, .nil, hend⟩, by simp⟩

def items (q : TimerQueue) : List TimerItem :=
  q.timerQueueMultiMap.map fun e => ⟨e.1, e.2, (q.mem.buffer e.2).header⟩

def entries (q : TimerQueue) : List (ℤ × MsgHeader) :=
  q.timerQueueMultiMap.map fun e => (e.1, (q.mem.buffer e.2).header)

theorem entries_eq (q : TimerQueue) : q.entries = q.items.map fun x => (x.key, x.header) := by
  rw [items, List.map_map]
  rfl

theorem Entries.lt_next (h : q.Entries held) {e : ℤ × BufId} (he : e ∈ q.timerQueueMultiMap) :
    e.2 < q.mem.next :=
  h.ledger.lt (List.mem_append_right _ (List.mem_map_of_mem he))

theorem Entries.insertHeader_items (h : q.Entries held) :
    (q.insertHeader time hd).items.Perm (⟨time, q.mem.next, hd⟩ :: q.items) := by
  have hperm : (q.insertHeader time hd).timerQueueMultiMap.Perm
      ((time, q.mem.next) :: q.timerQueueMultiMap) := perm_insert
  refine (hperm.map _).trans ?_
  have hold : q.timerQueueMultiMap.map (fun e => (⟨e.1, e.2,
      ((q.insertHeader time hd).mem.buffer e.2).header⟩ : TimerItem)) = q.items := by
    refine List.map_congr_left fun e he => ?_
    simp [TimerQueue.insertHeader, insert, Nat.ne_of_lt (h.lt_next he)]
  rw [List.map_cons, hold]
  simp [TimerQueue.insertHeader, insert]

theorem Represented.addToTimerList_entries (h : q.Represented held) {waitTime : ℤ} :
    (q.addToTimerList waitTime now hd).entries.Perm ((now + waitTime, hd) :: q.entries) := by
  have hitems : (q.addToTimerList waitTime now hd).items.Perm
      (⟨now + waitTime, q.mem.next, hd⟩ :: q.items) := h.toEntries.insertHeader_items
  rw [entries_eq (q.addToTimerList waitTime now hd), entries_eq q]
  exact hitems.map _

theorem deleteFromTimerQueue_mem : (q.deleteFromTimerQueue c).mem.buffer = q.mem.buffer := by
  have hloop : ∀ (fuel : ℕ) (q : TimerQueue),
      (TimerQueue.lblMTQM fuel q c).mem.buffer = q.mem.buffer := by
    intro fuel
    induction fuel with
    | zero => exact fun _ => rfl
    | succ fuel ih =>
      intro q
      rw [TimerQueue.lblMTQM]
      split
      · rfl
      · rw [ih]
        simp
  unfold deleteFromTimerQueue
  dsimp only
  split <;> exact hloop _ _

theorem Represented.deleteFromTimerQueue_items (h : q.Represented held) :
    (q.deleteFromTimerQueue c).items = q.items.filter fun x => x.header.pConn != c := by
  rw [items, deleteFromTimerQueue_map h, deleteFromTimerQueue_mem, items, List.filter_map]
  congr 1

theorem Represented.deleteFromTimerQueue_entries (h : q.Represented held) :
    (q.deleteFromTimerQueue c).entries = q.entries.filter fun x => x.2.pConn != c := by
  rw [entries_eq, h.deleteFromTimerQueue_items, entries_eq, List.filter_map]
  rfl

/-- The earliest timer is taken out, and put back unless clients are kicked at once. -/
theorem Represented.getOverTimeTimer_items (h : q.Represented held)
    (hget : q.getOverTimeTimer cfg now = (q', some b)) :
    ∃ x rest, q.items = x :: rest ∧ x.header = (q'.mem.buffer b).header ∧ x.key ≤ now ∧
      (∀ y ∈ rest, x.key ≤ y.key) ∧ q'.items.Perm ((if cfg.isTimeOutKick ≠ 1 then
        [⟨now + cfg.waitTime, q.mem.next, x.header⟩] else []) ++ rest) := by
  have hhead := (getOverTimeTimer_some hget).2.1
  obtain ⟨key, rest, q₁, q₂, hmap, hkey, hrem, hmap₁, hmem₁, hq₂, hq'⟩ :=
    getOverTimeTimer_cases hget
  obtain ⟨h₁, -⟩ := h.toEntries.removeTimerQueueFirstTime hrem
  have hitems : q'.items = q₂.items := by
    rw [hq']
    split <;> rfl
  refine ⟨⟨key, b, (q.mem.buffer b).header⟩, q₁.items, ?_, hhead.symm, hkey, ?_, ?_⟩
  · rw [items, hmap, items, hmap₁, hmem₁, List.map_cons]
  · intro y hy
    obtain ⟨e, he, rfl⟩ := List.mem_map.mp hy
    have hsorted := h.sorted
    rw [hmap] at hsorted
    rw [hmap₁] at he
    exact List.rel_of_pairwise_cons hsorted he
  · rw [hitems, hq₂]
    split
    · rw [← hmem₁]
      exact h₁.insertHeader_items
    · exact .refl _

/-- The timer that is taken out is the earliest; it is set again for the waiting time. -/
theorem Represented.getOverTimeTimer_entries (h : q.Represented held)
    (hkick : cfg.isTimeOutKick ≠ 1) (hget : q.getOverTimeTimer cfg now = (q', some b)) :
    ∃ key rest, q.entries = (key, (q'.mem.buffer b).header) :: rest ∧ key ≤ now ∧
      q'.entries.Perm ((now + cfg.waitTime, (q'.mem.buffer b).header) :: rest) := by
  obtain ⟨x, rest, hitems, hhead, hkey, -, hperm⟩ := h.getOverTimeTimer_items hget
  rw [if_pos hkick] at hperm
  refine ⟨x.key, rest.map fun y => (y.key, y.header), ?_, hkey, ?_⟩
  · rw [entries_eq, hitems, ← hhead]
    rfl
  · rw [entries_eq, ← hhead]
    exact hperm.map _

/-- When no timer is due any more, all are set for later. -/
theorem Represented.lt_of_getOverTimeTimer_none (h : q.Represented held)
    (hget : (q.getOverTimeTimer cfg now).2 = none) : ∀ x ∈ q.entries, now < x.1 := by
  intro x hx
  obtain ⟨e, he, rfl⟩ := List.mem_map.mp hx
  obtain ⟨e₀, rest, hmap⟩ := List.exists_cons_of_ne_nil (List.ne_nil_of_mem he)
  have hsize : q.currentHeartBeatListSize ≠ 0 := by
    rw [h.size]
    exact (List.length_pos_of_mem he).ne'
  have hlate : now < e₀.1 := by
    by_contra hdue
    simp [TimerQueue.getOverTimeTimer, hsize, hmap, getTimerListEarliestTime, not_lt.mp hdue,
      TimerQueue.removeTimerQueueFirstTime] at hget
  have hsorted := h.sorted
  rw [hmap] at hsorted he
  rcases List.mem_cons.mp he with rfl | he
  · exact hlate
  · exact hlate.trans_le (List.rel_of_pairwise_cons hsorted he)

theorem Represented.le_of_not_due (h : q.Represented [])
    (hnot : ¬ (0 < q.currentHeartBeatListSize ∧ q.hbListEarliestTime < now)) :
    ∀ x ∈ q.entries, now ≤ x.1 := by
  intro x hx
  obtain ⟨e, he, rfl⟩ := List.mem_map.mp hx
  by_contra hlt
  exact hnot (h.consistent.seen now ⟨e, he, not_le.mp hlt⟩)

end TimerQueue

namespace Server

variable {s t : Server} {b : BufId} {now : ℤ} {c : ConnId}

/-- A timer queue as `CSocket` starts with it. -/
def TimerIdle (s : Server) : Prop :=
  ∃ earliest stale, s.timer = ⟨[], 0, earliest, .empty stale⟩

/-- The entries are objects in a 64-bit address space. -/
def timerEnabled (s : Server) : TimerOp → Prop
  | .addToTimerList _ _ => s.timer.timerQueueMultiMap.length + 1 < 2 ^ 64
  | _ => True

def timerNext (s : Server) : TimerOp → Option Server
  | .addToTimerList c now => some { s with
      timer := s.timer.addToTimerList s.config.waitTime now ⟨c, (s.conn c).currSequence⟩ }
  | .overTime now => some ((s.heartBeatMonitorIter now).getD s)
  | .deleteFromTimerQueue c => some { s with timer := s.timer.deleteFromTimerQueue c }
  | .clearAllFromTimerQueue => some { s with timer := s.timer.clearAllFromTimerQueue }
  | .connections conn => some { s with conn := conn }

end Server

def timerOps : System Server TimerOp :=
  .ofNext Server.TimerIdle Server.timerEnabled Server.timerNext

namespace Server

variable {s t : Server} {b : BufId} {now : ℤ} {c : ConnId}

theorem closeConnectionToRecy_represented {held : List BufId} (h : s.timer.Represented held) :
    (s.closeConnectionToRecy c now).timer.Represented held := by
  rw [closeConnectionToRecy_eq]
  dsimp only
  split
  · exact h.deleteFromTimerQueue
  · exact h

/-- `HeartBeatTimeOutCheck` may delete entries and releases the header it was given. -/
theorem heartBeatTimeOutCheck_represented (h : s.timer.Represented [b]) :
    (s.heartBeatTimeOutCheck b now).timer.Represented [] := by
  unfold heartBeatTimeOutCheck
  dsimp only
  refine TimerQueue.Represented.free ?_
  split_ifs
  · exact closeConnectionToRecy_represented h
  · exact closeConnectionToRecy_represented h
  · exact h
  · exact h

theorem heartBeatMonitorIter_represented (h : s.timer.Represented [])
    (ht : s.heartBeatMonitorIter now = some t) : t.timer.Represented [] := by
  unfold heartBeatMonitorIter at ht
  split at ht
  · cases ht
  · rename_i q b hget
    rw [← Option.some.inj ht]
    exact heartBeatTimeOutCheck_represented (s := { s with timer := q }) (h.getOverTimeTimer hget)

theorem timerNext_represented {op : TimerOp} (h : s.timer.Represented [])
    (hen : s.timerEnabled op) (ht : s.timerNext op = some t) : t.timer.Represented [] := by
  cases op with
  | addToTimerList c now =>
    rw [← Option.some.inj ht]
    exact h.addToTimerList hen
  | overTime now =>
    rw [← Option.some.inj ht]
    cases hiter : s.heartBeatMonitorIter now with
    | none => exact h
    | some u => exact heartBeatMonitorIter_represented h hiter
  | deleteFromTimerQueue c =>
    rw [← Option.some.inj ht]
    exact h.deleteFromTimerQueue
  | clearAllFromTimerQueue =>
    rw [← Option.some.inj ht]
    exact h.clearAllFromTimerQueue
  | connections conn =>
    rw [← Option.some.inj ht]
    exact h

/-- After any sequence of operations the cached values are right and every header has one owner,
and `DeleteFromTimerQueue` deletes the entries of its connection only. -/
theorem timerQueue_consistent {ops : List TimerOp} (h : timerOps.Run ops s) :
    s.timer.Consistent ∧ ∀ c, (s.timer.deleteFromTimerQueue c).timerQueueMultiMap =
      s.timer.timerQueueMultiMap.filter fun e => (s.timer.mem.buffer e.2).header.pConn ≠ c := by
  have hrep : s.timer.Represented [] := by
    refine h.invariant (I := fun s => s.timer.Represented []) (fun s hs => ?_) ?_
    · obtain ⟨earliest, stale, hidle⟩ := hs
      rw [hidle]
      exact ⟨⟨rfl, by simp, .nil, .empty⟩, by simp⟩
    · intro s op t hs hstep
      exact timerNext_represented hs hstep.1 hstep.2
  refine ⟨hrep.consistent, fun c => ?_⟩
  rw [TimerQueue.deleteFromTimerQueue_map hrep]
  simp [TimerQueue.ofConn]

instance (s : Server) : (op : TimerOp) → Decidable (s.timerEnabled op)
  | .addToTimerList _ _ => inferInstanceAs (Decidable (_ < _))
  | .overTime _ | .deleteFromTimerQueue _ | .clearAllFromTimerQueue | .connections _ =>
    inferInstanceAs (Decidable True)

/-- Two clients are entered, the first is checked in time and the second leaves. -/
theorem timerQueue_consistent_checked : ∃ s : Server, s.timer.Consistent ∧
    s.timer.timerQueueMultiMap = [(40, 2)] ∧ s.timer.mem.released = [1, 0] := by
  have hidle : (smallBoot smallConfig).TimerIdle := ⟨0, _, rfl⟩
  obtain ⟨s, hplay, hv⟩ := Option.map_eq_some_iff.mp (show (System.play timerEnabled timerNext
      [.addToTimerList 1 0, .addToTimerList 0 5, .overTime 20, .deleteFromTimerQueue 0]
      (smallBoot smallConfig)).map (fun s => (s.timer.timerQueueMultiMap, s.timer.mem.released)) =
    some ([(40, 2)], [1, 0]) by decide)
  obtain ⟨hmap, hrel⟩ := Prod.mk.inj hv
  exact ⟨s, (timerQueue_consistent (System.run_of_play hidle hplay)).1, hmap, hrel⟩

end Server
end XiaoHGServer
