import XiaoHGServer.Model.State

/-!
# The heartbeat timer queue

`m_TimerQueueMultiMap` is a list of entries sorted by key; a new entry goes after
the entries whose key is not larger, as `std::multimap::insert` places it.
-/

namespace XiaoHGServer
namespace TimerQueue

/-- `m_TimerQueueMultiMap.insert(std::make_pair(time, b))`. -/
def insert (q : TimerQueue) (time : ℤ) (b : BufId) : TimerQueue :=
  { q with
    timerQueueMultiMap := q.timerQueueMultiMap.takeWhile (fun e => e.1 ≤ time) ++
      (time, b) :: q.timerQueueMultiMap.dropWhile (fun e => e.1 ≤ time) }

def getTimerListEarliestTime (q : TimerQueue) : ℤ := (q.timerQueueMultiMap.headD (0, 0)).1

/-- Allocate a `MSG_HEADER_T`, fill it, and insert it under `time`. -/
def insertHeader (q : TimerQueue) (time : ℤ) (h : MsgHeader) : TimerQueue :=
  let b := q.mem.next
  let q := { q with mem := (q.mem.allocMemory 0).modify b fun m => { m with header := h } }
  let q := q.insert time b
  { q with currentHeartBeatListSize := u64 (q.currentHeartBeatListSize + 1) }

def addToTimerList (q : TimerQueue) (waitTime now : ℤ) (h : MsgHeader) : TimerQueue :=
  let q := q.insertHeader (now + waitTime) h
  { q with hbListEarliestTime := q.getTimerListEarliestTime }

def removeTimerQueueFirstTime (q : TimerQueue) : TimerQueue × Option BufId :=
  if q.currentHeartBeatListSize ≤ 0 then (q, none)
  else
    match q.timerQueueMultiMap with
    | [] => (q, none)
    | e :: rest =>
      ({ q with
        timerQueueMultiMap := rest
        currentHeartBeatListSize := sub64 q.currentHeartBeatListSize 1 }, some e.2)

/-- `GetOverTimeTimer`: take out the earliest entry if its time has come and,
unless clients are kicked on time out, put a copy back for the next check. -/
def getOverTimeTimer (q : TimerQueue) (cfg : Config) (now : ℤ) : TimerQueue × Option BufId :=
  if q.currentHeartBeatListSize = 0 ∨ q.timerQueueMultiMap = [] then (q, none)
  else if q.getTimerListEarliestTime ≤ now then
    match q.removeTimerQueueFirstTime with
    | (q, none) => (q, none)
    | (q, some b) =>
      let q := if cfg.isTimeOutKick ≠ 1 then
          q.insertHeader (now + cfg.waitTime) (q.mem.buffer b).header
        else q
      let q := if q.currentHeartBeatListSize > 0 then
          { q with hbListEarliestTime := q.getTimerListEarliestTime }
        else q
      (q, some b)
  else (q, none)

def ofConn (q : TimerQueue) (c : ConnId) (e : ℤ × BufId) : Bool :=
  (q.mem.buffer e.2).header.pConn = c

/-- The loop of `DeleteFromTimerQueue` at label `lblMTQM`, which starts over from
`begin()` after every erased entry. -/
def lblMTQM : ℕ → TimerQueue → ConnId → TimerQueue
  | 0, q, _ => q
  | fuel + 1, q, c =>
    match q.timerQueueMultiMap.find? (q.ofConn c) with
    | none => q
    | some e =>
      lblMTQM fuel
        { q with
          mem := q.mem.freeMemory (some e.2)
          timerQueueMultiMap := q.timerQueueMultiMap.eraseP (q.ofConn c)
          currentHeartBeatListSize := sub64 q.currentHeartBeatListSize 1 } c

def deleteFromTimerQueue (q : TimerQueue) (c : ConnId) : TimerQueue :=
  let q := lblMTQM q.timerQueueMultiMap.length q c
  if q.currentHeartBeatListSize > 0 then
    { q with hbListEarliestTime := q.getTimerListEarliestTime }
  else q

/-- `ClearAllFromTimerQueue`. The loop also sets `pos->second` to null in the entries that
`clear()` then drops. -/
def clearAllFromTimerQueue (q : TimerQueue) : TimerQueue :=
  let q := q.timerQueueMultiMap.foldl (fun q e => { q with
    mem := q.mem.freeMemory (some e.2)
    currentHeartBeatListSize := sub64 q.currentHeartBeatListSize 1 }) q
  { q with timerQueueMultiMap := [] }

/-- Every entry is an allocated header of a connection in `P`. -/
def Sound (P : ConnId → Prop) (q : TimerQueue) : Prop :=
  ∀ e ∈ q.timerQueueMultiMap, e.2 < q.mem.next ∧ P (q.mem.buffer e.2).header.pConn

variable {P : ConnId → Prop} {q q' : TimerQueue} {b : BufId} {cfg : Config} {now : ℤ}

theorem Sound.mono {Q : ConnId → Prop} (h : q.Sound P) (hPQ : ∀ c, P c → Q c) : q.Sound Q :=
  fun e he => ⟨(h e he).1, hPQ _ (h e he).2⟩

theorem Sound.subset (h : q.Sound P) (hsub : q'.timerQueueMultiMap ⊆ q.timerQueueMultiMap)
    (hnext : q'.mem.next = q.mem.next) (hbuf : q'.mem.buffer = q.mem.buffer) : q'.Sound P := by
  intro e he
  rw [hnext, hbuf]
  exact h e (hsub he)

theorem mem_insert {time : ℤ} {e : ℤ × BufId}
    (h : e ∈ (q.insert time b).timerQueueMultiMap) :
    e = (time, b) ∨ e ∈ q.timerQueueMultiMap := by
  simp only [insert, List.mem_append, List.mem_cons] at h
  rcases h with h | rfl | h
  · exact Or.inr ((List.takeWhile_sublist _).subset h)
  · exact Or.inl rfl
  · exact Or.inr ((List.dropWhile_sublist _).subset h)

theorem Sound.insertHeader (h : q.Sound P) {time : ℤ} {hd : MsgHeader} (hP : P hd.pConn) :
    (q.insertHeader time hd).Sound P := by
  intro e he
  rcases mem_insert he with rfl | he
  · simp [TimerQueue.insertHeader, insert, hP]
  · obtain ⟨hlt, hPe⟩ := h e he
    have hne : e.2 ≠ q.mem.next := Nat.ne_of_lt hlt
    have hlt' : e.2 < q.mem.next + 1 := Nat.lt_succ_of_lt hlt
    simpa [TimerQueue.insertHeader, insert, hne, hlt'] using hPe

theorem Sound.addToTimerList (h : q.Sound P) {waitTime : ℤ} {hd : MsgHeader} (hP : P hd.pConn) :
    (q.addToTimerList waitTime now hd).Sound P :=
  (h.insertHeader hP).subset (List.Subset.refl _) rfl rfl

theorem Sound.lblMTQM (h : q.Sound P) (c : ConnId) :
    ∀ fuel, (TimerQueue.lblMTQM fuel q c).Sound P := by
  intro fuel
  induction fuel generalizing q with
  | zero => exact h
  | succ fuel ih =>
    rw [TimerQueue.lblMTQM]
    split
    · exact h
    · exact ih (h.subset List.eraseP_subset (by simp) (by simp))

theorem Sound.deleteFromTimerQueue (h : q.Sound P) (c : ConnId) :
    (q.deleteFromTimerQueue c).Sound P := by
  unfold TimerQueue.deleteFromTimerQueue
  dsimp only
  split
  · exact (h.lblMTQM c _).subset (List.Subset.refl _) rfl rfl
  · exact h.lblMTQM c _

theorem removeTimerQueueFirstTime_some
    (h : q.removeTimerQueueFirstTime = (q', some b)) :
    ∃ key rest, q.timerQueueMultiMap = (key, b) :: rest ∧ q'.timerQueueMultiMap = rest ∧
      q'.mem = q.mem := by
  unfold removeTimerQueueFirstTime at h
  split at h
  · simp at h
  · split at h
    · simp at h
    · rename_i e rest hmap
      simp only [Prod.mk.injEq, Option.some.injEq] at h
      obtain ⟨rfl, rfl⟩ := h
      exact ⟨e.1, rest, hmap, rfl, rfl⟩

/-- What `GetOverTimeTimer` takes out is the first entry, which is due; its header goes back for
later unless clients are kicked, and the earliest time is read again. -/
theorem getOverTimeTimer_cases (h : q.getOverTimeTimer cfg now = (q', some b)) :
    ∃ key rest q₁ q₂, q.timerQueueMultiMap = (key, b) :: rest ∧ key ≤ now ∧
      q.removeTimerQueueFirstTime = (q₁, some b) ∧ q₁.timerQueueMultiMap = rest ∧
      q₁.mem = q.mem ∧ q₂ = (if cfg.isTimeOutKick ≠ 1 then
        q₁.insertHeader (now + cfg.waitTime) (q.mem.buffer b).header else q₁) ∧
      q' = if q₂.currentHeartBeatListSize > 0 then
        { q₂ with hbListEarliestTime := q₂.getTimerListEarliestTime } else q₂ := by
  unfold getOverTimeTimer at h
  split at h
  · simp at h
  · split at h
    · rename_i hdue
      split at h
      · simp at h
      · rename_i q₁ b₁ hremove
        obtain ⟨key, rest, hmap, hmap₁, hmem⟩ := removeTimerQueueFirstTime_some hremove
        have hkey : key ≤ now := by simpa [getTimerListEarliestTime, hmap] using hdue
        rw [hmem] at h
        simp only [Prod.mk.injEq, Option.some.injEq] at h
        obtain ⟨hq', rfl⟩ := h
        exact ⟨key, rest, q₁, _, hmap, hkey, hremove, hmap₁, hmem, rfl, hq'.symm⟩
    · simp at h

theorem getOverTimeTimer_some (h : q.getOverTimeTimer cfg now = (q', some b)) :
    (∃ key rest, q.timerQueueMultiMap = (key, b) :: rest) ∧
      (q'.mem.buffer b).header = (q.mem.buffer b).header ∧ ∀ P, q.Sound P → q'.Sound P := by
  obtain ⟨key, rest, q₁, q₂, hmap, -, -, hmap₁, hmem, hq₂, rfl⟩ := getOverTimeTimer_cases h
  have hsound (P : ConnId → Prop) (hs : q.Sound P) : q₁.Sound P :=
    hs.subset (by rw [hmap, hmap₁]; exact List.subset_cons_self _ _) (by rw [hmem]) (by rw [hmem])
  have h₂ : (q₂.mem.buffer b).header = (q.mem.buffer b).header ∧
      ∀ P, q.Sound P → q₂.Sound P := by
    rw [hq₂]
    split
    · refine ⟨?_, fun P hs => (hsound P hs).insertHeader (hs (key, b) (by simp [hmap])).2⟩
      rw [← hmem]
      by_cases hb : b = q₁.mem.next
      · simp [TimerQueue.insertHeader, insert, hb]
      · simp [TimerQueue.insertHeader, insert, hb]
    · exact ⟨by rw [hmem], hsound⟩
  refine ⟨⟨key, rest, hmap⟩, ?_⟩
  split
  · exact ⟨h₂.1, fun P hs => (h₂.2 P hs).subset (List.Subset.refl _) rfl rfl⟩
  · exact h₂

end TimerQueue
end XiaoHGServer
