import XiaoHGServer.Library.Streaks
import XiaoHGServer.Pool.Descriptors
import XiaoHGServer.Receive.Sessions

/-!
# Flood protection

What a client has sent in its use of a connection, piece by piece, and what the
read handler made of it. The flood check counts the packets that came quickly one
after the other, and the connection is closed at the packet that ends too long a
streak of them.
-/

namespace XiaoHGServer

/-- A call of `recv` that brought bytes, when the clock was last read, the packets that went to
the receive list, and how often the connection was closed. -/
structure Reading where
  bytes : List Byte
  currTime : ℕ
  enqueued : List (List Byte)
  closings : ℕ
  deriving DecidableEq, Repr

inductive Arrival
  | accepted (c : ConnId)
  | read (c : ConnId) (r : Reading)
  | closed (c : ConnId)
  deriving DecidableEq, Repr

/-- A use of a connection, from `accept` to `CloseConnectionToRecy`; its readings newest first. -/
structure Use where
  isOpen : Bool
  readings : List Reading
  deriving DecidableEq, Repr

def useOf (c : ConnId) : List Arrival → Use
  | [] => ⟨false, []⟩
  | .accepted d :: hist => if d = c then ⟨true, []⟩ else useOf c hist
  | .read d r :: hist =>
    if d = c ∧ (useOf c hist).isOpen then ⟨true, r :: (useOf c hist).readings⟩ else useOf c hist
  | .closed d :: hist => if d = c then ⟨false, (useOf c hist).readings⟩ else useOf c hist

namespace Use

def pieces (u : Use) : List (List Byte × ℕ) := u.readings.map fun r => (r.bytes, r.currTime)

/-- The packets of the stream, each with the time of its completion. -/
def packets (u : Use) : List (List Byte × ℕ) := packetFormat.completed u.pieces

def times (u : Use) : List ℕ := u.packets.map Prod.snd

def enqueued (u : Use) : List (List Byte) := u.readings.reverse.flatMap Reading.enqueued

end Use

/-- A packet that is complete at `t`, when the one before was at `p`. -/
def Quick (interval : ℤ) (p t : ℕ) : Prop := p ≤ t ∧ t < p + interval

instance (interval : ℤ) : DecidableRel (Quick interval) :=
  fun _ _ => inferInstanceAs (Decidable (_ ∧ _))

/-- The flood check is on, and its numbers fit their types. -/
structure Config.ChecksFlood (cfg : Config) : Prop where
  enabled : cfg.floodAttackEnable = 1
  kick : 1 ≤ cfg.floodKickCount
  interval : 0 ≤ cfg.floodTimeInterval
  fits : cfg.floodTimeInterval < 2 ^ 31

namespace Config

/-- The packets complete at `times` end a streak of quick ones that is too long. -/
def Floods (cfg : Config) (times : List ℕ) : Prop :=
  EndsStreak (Quick cfg.floodTimeInterval) cfg.floodKickCount.toNat times

/-- No packet of those complete at `times` does. -/
def FloodFree (cfg : Config) (times : List ℕ) : Prop :=
  StreakFree (Quick cfg.floodTimeInterval) cfg.floodKickCount.toNat times

end Config

/-- The system call closes the descriptor of connection `c`. -/
def SysCall.closes (c : ConnId) : SysCall → Bool
  | .close o _ => o = some c
  | _ => false

namespace Server

/-- What the accept handler and the read handler enter in the history. -/
def received (s : Server) : Event → List Arrival
  | .accept env => (s.acceptedConn env).toList.map .accepted
  | .read c env =>
    match env.recv with
    | .data bytes =>
      let t := s.epollEventReadRequestHandler c env.recv env.now env.currTime
      [.read c ⟨bytes, env.currTime, handed s t, (newCalls s t).countP (SysCall.closes c)⟩]
    | _ => []
  | _ => []

def arrivals (s : Server) (e : Event) : List Arrival :=
  (s.closes e).toList.map .closed ++ s.received e

/-- The clock is read in milliseconds without overflow, and not within the first interval. -/
def ClockFits (s : Server) : Event → Prop
  | .read _ env => s.config.floodTimeInterval ≤ env.currTime ∧ env.currTime < 2 ^ 63
  | _ => True

/-- The packets before the first flood went to the receive list, and no others; at the first flood
the connection was closed, once, and a use starts without a past. -/
structure FloodGuarded (s : Server) (c : ConnId) (u : Use) : Prop where
  quiet : s.config.FloodFree u.times →
    u.enqueued = u.packets.map Prod.fst ∧ ∀ r ∈ u.readings, r.closings = 0
  flooded : ∀ pkts pkt rest, u.packets = pkts ++ pkt :: rest →
    s.config.FloodFree (pkts.map Prod.snd) → s.config.Floods ((pkts ++ [pkt]).map Prod.snd) →
      u.enqueued = pkts.map Prod.fst ∧ rest = [] ∧ u.isOpen = false ∧
      ∃ r past, u.readings = r :: past ∧ r.closings = 1 ∧ (∀ r ∈ past, r.closings = 0) ∧
        (Use.packets ⟨true, past⟩) = pkts
  fresh : u.isOpen = true → u.readings = [] → (s.conn c).flood = ⟨0, 0⟩

variable {s t : Server} {c d : ConnId} {now : ℤ} {currTime : ℕ} {e : Event} {u : Use}
  {hist : List Arrival} {times : List ℕ}

theorem floodAfter_eq (hcfg : s.config.ChecksFlood)
    (hclock : ∀ t ∈ times ++ [currTime], s.config.floodTimeInterval ≤ t ∧ t < 2 ^ 63)
    (hflood : (s.conn c).flood =
      ⟨times.getLastD 0, streak (Quick s.config.floodTimeInterval) times⟩) :
    s.floodAfter c currTime =
      ⟨currTime, streak (Quick s.config.floodTimeInterval) (times ++ [currTime])⟩ := by
  have hI := hcfg.interval
  have hfits := hcfg.fits
  obtain ⟨hlow, hhigh⟩ := hclock currTime (by simp)
  have hint : intToU64 s.config.floodTimeInterval = s.config.floodTimeInterval.toNat := by
    rw [intToU64, Int.emod_eq_of_lt hI (by omega)]
  have hsub (p : ℕ) (hp : p < 2 ^ 63) :
      sub64 currTime p < intToU64 s.config.floodTimeInterval ↔
        p ≤ currTime ∧ currTime - p < s.config.floodTimeInterval.toNat := by
    rw [hint, sub64, u64]
    omega
  rcases List.eq_nil_or_concat times with rfl | ⟨l, p, rfl⟩
  · -- the first packet of a use: its distance is taken from zero
    have hnot : ¬ sub64 currTime 0 < intToU64 s.config.floodTimeInterval := by
      rw [hsub 0 (by norm_num)]
      omega
    simp [floodAfter, hflood, hnot, streak_singleton]
  · rw [List.concat_eq_append] at hflood hclock ⊢
    obtain ⟨-, hp⟩ := hclock p (by simp)
    have hlast : (l ++ [p]).getLastD 0 = p := by simp [List.getLastD_eq_getLast?]
    have hquick : sub64 currTime p < intToU64 s.config.floodTimeInterval ↔
        Quick s.config.floodTimeInterval p currTime := by
      rw [hsub p hp, Quick]
      omega
    simp only [floodAfter, hflood, hlast, hquick, streak_concat]
    split_ifs <;> simp

/-- What holds of a use that goes on: the flood state knows the streak that the packets end, and
it is not too long. -/
structure Streaming (s : Server) (c : ConnId) (u : Use) : Prop where
  client : s.IsClient c
  parsed : packetFormat.Parsed (FrameFormat.joined u.pieces) (u.packets.map Prod.fst)
    (s.pending c)
  enqueued : u.enqueued = u.packets.map Prod.fst
  closings : ∀ r ∈ u.readings, r.closings = 0
  free : s.config.FloodFree u.times
  clock : ∀ t ∈ u.times, s.config.floodTimeInterval ≤ t ∧ t < 2 ^ 63
  flood : (s.conn c).flood =
    ⟨u.times.getLastD 0, streak (Quick s.config.floodTimeInterval) u.times⟩

theorem Streaming.guarded (h : s.Streaming c u) : s.FloodGuarded c u where
  quiet _ := ⟨h.enqueued, h.closings⟩
  flooded pkts pkt rest hpkts _ hflood := by
    refine absurd hflood (h.free _ ?_)
    rw [Use.times, hpkts]
    exact List.IsPrefix.map _ ⟨rest, by simp⟩
  fresh _ hnil := by
    have htimes : u.times = [] := by
      rw [Use.times, Use.packets, Use.pieces, hnil]
      rfl
    rw [h.flood, htimes]
    rfl

theorem Streaming.same (h : s.Streaming c u) (hcfg : t.config = s.config)
    (hclient : t.IsClient c) (hrecv : SameRecv c s t)
    (hflood : (t.conn c).flood = (s.conn c).flood) : t.Streaming c u where
  client := hclient
  parsed := by rw [hrecv.pending]; exact h.parsed
  enqueued := h.enqueued
  closings := h.closings
  free := by rw [hcfg]; exact h.free
  clock := by rw [hcfg]; exact h.clock
  flood := by rw [hcfg, hflood]; exact h.flood

theorem Streaming.accepted {fd : ℕ} {b : Bool} (hs : s.RecvApart)
    (ht : t = { s.admitted fd now with iIsAccept4 := b }) :
    t.Streaming s.pool.front ⟨true, []⟩ := by
  subst ht
  have harr : s.taken.recv.dataHeadInfo.length = msgHeaderLen := by
    unfold Server.taken
    split
    · rfl
    · exact hs.array _
  have hrecv : (({ s.admitted fd now with iIsAccept4 := b } : Server).conn s.pool.front).recv =
      (s.taken.getOneToUse now).recv := by simp [admitted, Connection.installed]
  obtain ⟨-, hpend⟩ := getOneToUse_window harr hrecv
  refine ⟨by simp [IsClient, admitted, Connection.installed], ?_, rfl, by simp, streakFree_nil,
    by simp [Use.times, Use.packets, Use.pieces, FrameFormat.completed], ?_⟩
  · rw [hpend]
    exact .nil
  · simp [admitted, Connection.installed, Connection.getOneToUse, Use.times, Use.packets,
      Use.pieces, FrameFormat.completed, streak, reverseStreak]

/-- The first flood ends the use: no packet before it was one, and none comes after it. -/
theorem flooded_last {cfg : Config} {pkts pkts' rest : List (List Byte × ℕ)}
    {pkt pkt' : List Byte × ℕ} (hfree : cfg.FloodFree (pkts.map Prod.snd))
    (hsplit : pkts ++ [pkt] = pkts' ++ pkt' :: rest)
    (hflood : cfg.Floods ((pkts' ++ [pkt']).map Prod.snd)) : pkts' = pkts ∧ rest = [] := by
  rcases List.eq_nil_or_concat rest with rfl | ⟨rest, x, rfl⟩
  · exact ⟨(List.append_inj_left' hsplit rfl).symm, rfl⟩
  · rw [List.concat_eq_append, ← List.cons_append, ← List.append_assoc] at hsplit
    have hpkts := List.append_inj_left' hsplit rfl
    refine absurd hflood (hfree _ ?_)
    rw [hpkts]
    exact List.IsPrefix.map _ ⟨rest, by simp⟩

theorem newCalls_read (s : Server) (c : ConnId) (now : ℤ) (currTime : ℕ) (bytes : List Byte) :
    (newCalls s (s.epollEventReadRequestHandler c (.data bytes) now currTime)).countP
      (SysCall.closes c) = if (s.readBase c (.data bytes) currTime).2 then 1 else 0 := by
  obtain ⟨q, r, f, hform⟩ := onlyRecv_readBase s c (.data bytes) currTime
  have hkernel : (s.readBase c (.data bytes) currTime).1.kernel.calls =
      .recv c (s.conn c).sockFd (s.conn c).recv.recvMsgLen :: s.kernel.calls := by
    rw [hform]
    rfl
  rw [read_eq]
  split_ifs
  · set v := (s.readBase c (.data bytes) currTime).1
    have hcalls : (v.closeConnectionToRecy c now).kernel.calls =
        [.close (some c) (v.conn c).sockFd,
          .recv c (s.conn c).sockFd (s.conn c).recv.recvMsgLen] ++ s.kernel.calls := by
      rw [closeConnectionToRecy_eq]
      simp only [hkernel]
      rfl
    rw [newCalls_eq hcalls]
    simp [SysCall.closes]
  · have hcalls : (s.readBase c (.data bytes) currTime).1.kernel.calls =
        [.recv c (s.conn c).sockFd (s.conn c).recv.recvMsgLen] ++ s.kernel.calls := hkernel
    rw [newCalls_eq hcalls]
    simp [SysCall.closes]

theorem packets_cons {r : Reading} {b : Bool} {new : List (List Byte)} {rest rest' : List Byte}
    (hp : packetFormat.Parsed (FrameFormat.joined u.pieces) (u.packets.map Prod.fst) rest)
    (hp' : packetFormat.Parsed (FrameFormat.joined u.pieces ++ r.bytes)
      (u.packets.map Prod.fst ++ new) rest') :
    (Use.mk b (r :: u.readings)).packets = u.packets ++ new.map fun f => (f, r.currTime) :=
  FrameFormat.completed_cons hp hp'

theorem Streaming.next {r : Reading} (new : List (List Byte)) (h : s.Streaming c u)
    (hcfg : t.config = s.config) (hclient : t.IsClient c) (hclosings : r.closings = 0)
    (henq : r.enqueued = new)
    (hp : packetFormat.Parsed (FrameFormat.joined u.pieces ++ r.bytes)
      (u.packets.map Prod.fst ++ new) (t.pending c))
    (hfree : s.config.FloodFree (u.times ++ new.map fun _ => r.currTime))
    (hclock : s.config.floodTimeInterval ≤ r.currTime ∧ r.currTime < 2 ^ 63)
    (hflood : (t.conn c).flood = ⟨(u.times ++ new.map fun _ => r.currTime).getLastD 0,
      streak (Quick s.config.floodTimeInterval) (u.times ++ new.map fun _ => r.currTime)⟩) :
    t.Streaming c ⟨true, r :: u.readings⟩ := by
  have hpackets : (Use.mk true (r :: u.readings)).packets =
      u.packets ++ new.map fun f => (f, r.currTime) := packets_cons h.parsed hp
  have hfst : (Use.mk true (r :: u.readings)).packets.map Prod.fst =
      u.packets.map Prod.fst ++ new := by
    simp [hpackets, Function.comp_def]
  have htimes : (Use.mk true (r :: u.readings)).times =
      u.times ++ new.map fun _ => r.currTime := by
    simp [Use.times, hpackets, Function.comp_def]
  refine ⟨hclient, ?_, ?_, ?_, ?_, ?_, ?_⟩
  · rw [hfst]
    exact hp
  · rw [hfst, ← h.enqueued, ← henq]
    simp [Use.enqueued]
  · intro r' hr'
    rcases List.mem_cons.mp hr' with rfl | hr'
    · exact hclosings
    · exact h.closings r' hr'
  · rw [hcfg, htimes]
    exact hfree
  · rw [hcfg, htimes]
    intro x hx
    rcases List.mem_append.mp hx with hx | hx
    · exact h.clock x hx
    · obtain ⟨-, -, rfl⟩ := List.mem_map.mp hx
      exact hclock
  · rw [hcfg, htimes]
    exact hflood

theorem Streaming.flooded {r : Reading} {pkg rest : List Byte} (h : s.Streaming c u)
    (hcfg : t.config = s.config) (hclosings : r.closings = 1) (henq : r.enqueued = [])
    (hp : packetFormat.Parsed (FrameFormat.joined u.pieces ++ r.bytes)
      (u.packets.map Prod.fst ++ [pkg]) rest)
    (hflood : s.config.Floods (u.times ++ [r.currTime])) :
    t.FloodGuarded c ⟨false, r :: u.readings⟩ := by
  have hpackets : (Use.mk false (r :: u.readings)).packets = u.packets ++ [(pkg, r.currTime)] :=
    packets_cons (r := r) h.parsed hp
  refine ⟨fun hfree => ?_, fun pkts pkt rest hpkts hfree hends => ?_, by simp⟩
  · rw [hcfg] at hfree
    refine absurd hflood (hfree _ ?_)
    simp [Use.times, hpackets]
  · rw [hcfg] at hends
    rw [hpackets] at hpkts
    obtain ⟨rfl, rfl⟩ := flooded_last h.free hpkts hends
    refine ⟨?_, rfl, rfl, r, u.readings, rfl, hclosings, h.closings, rfl⟩
    rw [← h.enqueued]
    simp [Use.enqueued, henq]

theorem handed_congr {t' : Server} (h : t'.recvQueue = t.recvQueue) :
    handed s t' = handed s t := by
  unfold handed recvPkg
  rw [h]

theorem Streaming.read {bytes : List Byte} (h : s.Streaming c u) (now : ℤ)
    (hcfg : s.config.ChecksFlood) (hw : s.Window c) (hret : (RecvRet.data bytes).Legal s c)
    (hclock : s.config.floodTimeInterval ≤ currTime ∧ currTime < 2 ^ 63) :
    let t := s.epollEventReadRequestHandler c (.data bytes) now currTime
    let rs := ⟨bytes, currTime, handed s t, (newCalls s t).countP (SysCall.closes c)⟩ :: u.readings
    if (s.readBase c (.data bytes) currTime).2 then t.FloodGuarded c ⟨false, rs⟩
    else t.Streaming c ⟨true, rs⟩ := by
  have hcalls := s.newCalls_read c now currTime bytes
  obtain ⟨hw', hparse⟩ := readBase_parses hw h.parsed currTime hret.1 hret.2.1
  obtain ⟨q, r, f, hform⟩ := onlyRecv_readBase s c (.data bytes) currTime
  have hsame : (s.readBase c (.data bytes) currTime).1.config = s.config ∧
      (s.readBase c (.data bytes) currTime).1.IsClient c := by
    rw [hform]
    exact ⟨rfl, by simpa [IsClient] using h.client⟩
  rw [read_eq] at hcalls ⊢
  set v := (s.readBase c (.data bytes) currTime).1
  have hverdict : s.floodVerdict c currTime = (s.floodAfter c currTime,
      decide (s.config.floodKickCount ≤ (s.floodAfter c currTime).floodAttackCount)) :=
    if_pos hcfg.enabled
  have hclock' : ∀ t ∈ u.times ++ [currTime],
      s.config.floodTimeInterval ≤ t ∧ t < 2 ^ 63 := by
    intro t ht
    rcases List.mem_append.mp ht with ht | ht
    · exact h.clock t ht
    · rw [List.mem_singleton.mp ht]
      exact hclock
  have hafter := floodAfter_eq hcfg hclock' h.flood
  have hfloods : s.config.floodKickCount ≤ (s.floodAfter c currTime).floodAttackCount ↔
      s.config.Floods (u.times ++ [currTime]) := by
    have hkick := hcfg.kick
    rw [hafter, Config.Floods, endsStreak_iff]
    dsimp only
    omega
  rcases hparse with ⟨hflag, hflood, hout, hp⟩ | ⟨pkg, hflag, hflood, hout, hp⟩
  · simp only [hflag, Bool.false_eq_true, if_false] at hcalls ⊢
    refine h.next [] hsame.1 hsame.2 hcalls hout (by simpa using hp)
      (by simpa using h.free) hclock ?_
    rw [hflood, h.flood]
    simp
  · rw [hverdict] at hflag hflood
    by_cases hkick : s.config.floodKickCount ≤ (s.floodAfter c currTime).floodAttackCount
    · simp only [hkick, decide_true] at hflag
      simp only [hflag, if_true] at hcalls hout ⊢
      have hclose : (v.closeConnectionToRecy c now).config = v.config ∧
          (v.closeConnectionToRecy c now).recvQueue = v.recvQueue := by
        rw [closeConnectionToRecy_eq]
        exact ⟨rfl, rfl⟩
      exact h.flooded (hclose.1.trans hsame.1) hcalls ((handed_congr hclose.2).trans hout) hp
        (hfloods.mp hkick)
    · simp only [hkick, decide_false] at hflag
      simp only [hflag, Bool.false_eq_true, if_false] at hcalls hout ⊢
      refine h.next [pkg] hsame.1 hsame.2 hcalls hout hp ?_ hclock ?_
      · exact streakFree_concat.mpr ⟨h.free, mt hfloods.mpr hkick⟩
      · rw [hflood, hafter]
        simp [List.getLastD_eq_getLast?]

theorem FloodGuarded.close (h : s.FloodGuarded c u) (hcfg : t.config = s.config) :
    t.FloodGuarded c ⟨false, u.readings⟩ where
  quiet := by rw [hcfg]; exact h.quiet
  flooded pkts pkt rest := by
    rw [hcfg]
    intro hpkts hfree hflood
    obtain ⟨henq, hrest, -, hpast⟩ := h.flooded pkts pkt rest hpkts hfree hflood
    exact ⟨henq, hrest, rfl, hpast⟩
  fresh hopen := by cases hopen

/-- Use `u` of connection `c` is guarded, and if it goes on its flood state is right. -/
structure Follows (s : Server) (c : ConnId) (u : Use) : Prop where
  guarded : s.FloodGuarded c u
  streaming : u.isOpen = true → s.Streaming c u

theorem Streaming.follows (h : s.Streaming c u) : s.Follows c u := ⟨h.guarded, fun _ => h⟩

theorem FloodGuarded.follows {rs : List Reading} (h : s.FloodGuarded c ⟨false, rs⟩) :
    s.Follows c ⟨false, rs⟩ := ⟨h, by simp⟩

theorem Follows.closed (h : s.Follows c u) (hcfg : t.config = s.config)
    (hopen : u.isOpen = false) : t.Follows c u := by
  obtain ⟨isOpen, readings⟩ := u
  obtain rfl := hopen
  exact (h.guarded.close hcfg).follows

theorem useOf_closed (o : Option ConnId) :
    useOf c (o.toList.map .closed ++ hist) =
      if o = some c then ⟨false, (useOf c hist).readings⟩ else useOf c hist := by
  cases o <;> simp [useOf]

theorem useOf_other (hread : ∀ env, e ≠ .read c env)
    (hacc : ∀ env, e = .accept env → s.acceptedConn env ≠ some c) :
    useOf c (s.received e ++ hist) = useOf c hist := by
  cases e with
  | accept env =>
    simp only [received]
    cases hd : s.acceptedConn env with
    | none => rfl
    | some d =>
      have hne : d ≠ c := fun heq => hacc env rfl (heq ▸ hd)
      simp [useOf, hne]
  | read d env =>
    have hne : d ≠ c := by
      rintro rfl
      exact hread env rfl
    simp only [received]
    split
    · simp [useOf, hne]
    · rfl
  | _ => rfl

theorem Follows.other (h : s.Follows c (useOf c hist)) (hs : s.RecvApart) (hp : s.ClientPointers)
    (he : s.Enabled e) (ht : s.next e = some t) (hread : ∀ env, e ≠ .read c env)
    (hacc : ∀ env, e = .accept env → s.acceptedConn env ≠ some c) :
    t.Follows c (useOf c (s.arrivals e ++ hist)) := by
  have hcfg := step_config ht
  rw [arrivals, List.append_assoc, useOf_closed, useOf_other hread hacc]
  split_ifs
  · exact (h.guarded.close hcfg).follows
  · cases hopen : (useOf c hist).isOpen with
    | false => exact h.closed hcfg hopen
    | true =>
      have hst := h.streaming hopen
      have hside : (t.conn c).receiveSide = (s.conn c).receiveSide := by
        rcases step_receiveSide ht c with hsame | ⟨env, heq⟩ | ⟨hfront, env, fd, b, rfl, -⟩
        · exact hsame
        · exact absurd heq (hread env)
        · rcases accept_taken ht with ⟨-, b', k, rfl⟩ | ⟨htaken, -⟩
          · rfl
          · exact absurd (hfront ▸ htaken) (hacc env rfl)
      have hrecv := step_sameRecv hs hp he ht hst.client hread (congrArg (fun r => r.1.1) hside)
      exact (hst.same hcfg (step_isClient ht hst.client) hrecv (congrArg Prod.snd hside)).follows

theorem Follows.read {env : HandlerEnv} (h : s.Follows c (useOf c hist)) (hs : s.RecvApart)
    (hcfg : s.config.ChecksFlood) (he : s.Enabled (.read c env))
    (hclock : s.ClockFits (.read c env)) (ht : s.next (.read c env) = some t) :
    t.Follows c (useOf c (s.arrivals (.read c env) ++ hist)) := by
  have hconfig := step_config ht
  obtain rfl := Option.some.inj ht
  rw [arrivals, List.append_assoc, useOf_closed]
  have hcloses : s.closes (.read c env) = some c ↔
      (s.readBase c env.recv env.currTime).2 = true := by
    simp [closes]
  simp only [hcloses]
  by_cases hdata : ∃ bytes, env.recv = .data bytes
  · obtain ⟨bytes, hret⟩ := hdata
    cases hopen : (useOf c hist).isOpen with
    | false =>
      simp only [received, hret, useOf, List.singleton_append, hopen, Bool.false_eq_true,
        and_false, if_false]
      split_ifs
      · exact (h.guarded.close (hret ▸ hconfig)).follows
      · exact h.closed (hret ▸ hconfig) hopen
    | true =>
      have hst := h.streaming hopen
      have hlegal := he.2
      rw [hret] at hlegal
      have hstep := hst.read env.now hcfg (hs.windows c hst.client).1 hlegal hclock
      simp only [received, hret, useOf, List.singleton_append, hopen, and_self, if_true]
      dsimp only at hstep
      split_ifs at hstep ⊢
      · exact hstep.follows
      · exact hstep.follows
  · have hnone : s.received (.read c env) = [] := by
      simp only [received]
      split
      · rename_i bytes hret
        exact absurd ⟨bytes, hret⟩ hdata
      · rfl
    rw [hnone, List.nil_append]
    split_ifs with hflag
    · exact (h.guarded.close hconfig).follows
    · cases hopen : (useOf c hist).isOpen with
      | false => exact h.closed hconfig hopen
      | true =>
        have hst := h.streaming hopen
        have hidle : env.recv = .again ∨ env.recv = .intr := by
          cases hret : env.recv with
          | data bytes => exact absurd ⟨bytes, hret⟩ hdata
          | again => exact Or.inl rfl
          | intr => exact Or.inr rfl
          | eof => exact absurd (by rw [hret]; rfl) hflag
          | error => exact absurd (by rw [hret]; rfl) hflag
        have hsame := (read_idle (s := s) (c := c) hidle env.now env.currTime).1
        have hflood : ((s.epollEventReadRequestHandler c env.recv env.now env.currTime).conn
            c).flood = (s.conn c).flood := by
          rcases hidle with hret | hret <;> rw [hret] <;> rfl
        exact (hst.same hconfig (step_isClient ht hst.client) hsame hflood).follows

theorem Follows.accept {env : HandlerEnv} (hs : s.RecvApart) (ht : s.next (.accept env) = some t)
    (hc : s.acceptedConn env = some c) :
    t.Follows c (useOf c (s.arrivals (.accept env) ++ hist)) := by
  rcases accept_taken ht with ⟨hnone, -⟩ | ⟨hfront, -, fd, b, heq⟩
  · rw [hnone] at hc
    cases hc
  · obtain rfl := Option.some.inj (hc.symm.trans hfront)
    have huse : useOf s.pool.front (s.arrivals (.accept env) ++ hist) = ⟨true, []⟩ := by
      simp [arrivals, received, closes, hfront, useOf]
    rw [huse]
    exact (Streaming.accepted hs heq).follows

/-- The flood protection works in every run: whatever a client sends, however its stream is cut and
whenever its packets are complete. -/
theorem flood_guarded {es : List Event} (hcfg : s.config.ChecksFlood)
    (h : ((process.restrict ClockFits).record arrivals).Run es (s, hist)) (c : ConnId) :
    s.FloodGuarded c (useOf c hist) := by
  have hinv : ∀ es p, ((process.restrict ClockFits).record arrivals).Run es p →
      p.1.config.ChecksFlood → ∀ c, p.1.Follows c (useOf c p.2) := by
    intro es p hr
    refine hr.trace_invariant (I := fun _ p => p.1.config.ChecksFlood →
      ∀ c, p.1.Follows c (useOf c p.2)) ?_ ?_
    · rintro ⟨s, hist⟩ ⟨hb, rfl⟩ - c
      exact ⟨⟨fun _ => ⟨rfl, by simp [useOf]⟩, fun pkts pkt rest hpkts => by
        simp [useOf, Use.packets, Use.pieces, FrameFormat.completed] at hpkts,
        by simp [useOf]⟩, by simp [useOf]⟩
    · rintro es ⟨s, hist⟩ e ⟨t, hist'⟩ hrun hs ⟨⟨hclock, he, ht⟩, rfl⟩ hcfg c
      have hconfig := step_config ht
      replace hcfg : s.config.ChecksFlood := hconfig ▸ hcfg
      have hold := hs hcfg c
      have hprocess := hrun.of_record.of_restrict
      have hapart := run_recvApart hprocess
      by_cases hread : ∃ env, e = .read c env
      · obtain ⟨env, rfl⟩ := hread
        exact hold.read hapart hcfg he hclock ht
      by_cases hacc : ∃ env, e = .accept env ∧ s.acceptedConn env = some c
      · obtain ⟨env, rfl, hc⟩ := hacc
        exact .accept hapart ht hc
      · exact hold.other hapart (run_clientPointers hprocess) he ht
          (fun env heq => hread ⟨env, heq⟩) fun env heq hc => hacc ⟨env, heq, hc⟩
  exact (hinv es (s, hist) h hcfg c).guarded

instance (s : Server) : (e : Event) → Decidable (s.ClockFits e)
  | .read _ _ => inferInstanceAs (Decidable (_ ∧ _))
  | .accept _ | .outError _ | .write _ _ | .take | .handle _ _ | .push _ _ | .release _
  | .semWait | .semIntr | .sizeTest | .iterate _ | .close _ _ | .recycle _ | .clear
  | .monitor _ => inferInstanceAs (Decidable True)

/-- Two heartbeats within 50 ms, where one quick packet is one too many. -/
theorem flood_guarded_second_packet : ∃ s : Server, s.FloodGuarded 1
    ⟨false, [⟨[0, 8, 0, 0, 0, 0, 0, 0], 150, [], 1⟩,
      ⟨[0, 8, 0, 0, 0, 0, 0, 0], 100, [[0, 8, 0, 0, 0, 0, 0, 0]], 0⟩]⟩ := by
  let cfg := { smallConfig with floodAttackEnable := 1, floodKickCount := 1 }
  let use : Use := ⟨false, [⟨[0, 8, 0, 0, 0, 0, 0, 0], 150, [], 1⟩,
    ⟨[0, 8, 0, 0, 0, 0, 0, 0], 100, [[0, 8, 0, 0, 0, 0, 0, 0]], 0⟩]⟩
  obtain ⟨⟨s, hist⟩, hrun, hv⟩ := process_record_of_play ClockFits arrivals cfg
    [.accept { HandlerEnv.idle with accept := [.accepted 4] },
      .read 1 { HandlerEnv.idle with currTime := 100, recv := .data [0, 8, 0, 0, 0, 0, 0, 0] },
      .read 1 { HandlerEnv.idle with currTime := 150, recv := .data [0, 8, 0, 0, 0, 0, 0, 0] }]
    (fun p => (p.1.config, useOf 1 p.2)) (cfg, use) (by decide +kernel)
  obtain ⟨hcfg, huse⟩ := Prod.mk.inj hv
  have hchecks : s.config.ChecksFlood := by
    rw [show s.config = cfg from hcfg]
    exact ⟨rfl, by decide, by decide, by decide⟩
  have hguarded := flood_guarded hchecks hrun 1
  rw [show useOf 1 hist = use from huse] at hguarded
  exact ⟨s, hguarded⟩

end Server
end XiaoHGServer
