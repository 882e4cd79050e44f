import XiaoHGServer.Client.Messages

/-!
# The stream of a client

The calls of `send` of three threads go into one stream. If no thread sends while
another one is in the middle of a message, the stream is one message after the
other, and so is every beginning of it that has arrived.
-/

namespace XiaoHGServer

theorem frameLen_message (code : TestCode) (mem : ℕ → Byte) :
    packetFormat.frameLen ((code.message mem).take packetFormat.headerLen) =
      some (code.message mem).length := by
  obtain ⟨body, hlen, hmsg⟩ := message_eq mem code
  have hmem : code.message mem ∈ packetFormat.frames (code.message mem) := by
    rw [hmsg, frames_reply _ hlen]
    exact List.mem_singleton_self _
  exact FrameFormat.frameLen_of_mem_frames hmem

def IsMessage (pkg : List Byte) : Prop :=
  ∃ (code : TestCode) (mem : ℕ → Byte), pkg = code.message mem

theorem IsMessage.frameLen {pkg : List Byte} (h : IsMessage pkg) :
    packetFormat.frameLen (pkg.take packetFormat.headerLen) = some pkg.length := by
  obtain ⟨code, mem, rfl⟩ := h
  exact frameLen_message code mem

theorem IsMessage.length_pos {pkg : List Byte} (h : IsMessage pkg) : 0 < pkg.length :=
  packetFormat.headerLen_pos.trans_le (packetFormat.headerLen_le _ _ h.frameLen)

namespace Client

variable {k : Client} {e : ClientEvent} {es : List ClientEvent} {hist : List (List Byte)}
  {th th' : Sender} {p : List Byte} {n w : ℕ}

/-- Thread `th` has sent a part of its message. -/
def Midway (k : Client) (th : Sender) : Prop := ∃ p w, k.stage th = .sends p w ∧ 0 < w

/-- A thread sends only while no other one is in the middle of a message. -/
def Undivided (k : Client) : ClientEvent → Prop
  | .send th _ => ∀ th', th' ≠ th → ¬ k.Midway th'
  | _ => True

def begun (k : Client) : ClientEvent → List (List Byte)
  | .send th _ =>
    match k.stage th with
    | .sends p 0 => [p]
    | _ => []
  | _ => []

/-- The stream goes through the messages begun, newest first in `hist`, and as long as it is open
it lacks at most the rest of the message that a thread is in the middle of. -/
structure Streams (k : Client) (hist : List (List Byte)) : Prop where
  messages : ∀ p ∈ hist, IsMessage p
  composed : ∀ th p w, k.stage th = .sends p w → IsMessage p ∧ w < p.length
  sent : k.sent <+: hist.reverse.flatten
  midway : k.isOpen = true → ∀ th p w, k.stage th = .sends p w → 0 < w →
    ∃ past, k.sent = past ++ p.take w ∧ hist.reverse.flatten = past ++ p
  quiet : k.isOpen = true → (∀ th, ¬ k.Midway th) → k.sent = hist.reverse.flatten

theorem streams_start : start.Streams [] where
  messages := by simp
  composed := by simp [start]
  sent := List.nil_prefix
  midway := by simp [start]
  quiet _ _ := rfl

theorem stage_setStage_self (k : Client) (th : Sender) (x : SendStage) :
    (k.setStage th x).stage th = x := by
  simp [setStage]

theorem stage_setStage_of_ne (k : Client) (x : SendStage) (h : th' ≠ th) :
    (k.setStage th x).stage th' = k.stage th' := by
  simp [setStage, h]

theorem Streams.compose (h : k.Streams hist) (hwaits : k.stage th = .waits) (hp : IsMessage p) :
    (k.setStage th (.sends p 0)).Streams hist := by
  have hstage {th' : Sender} {q : List Byte} {w : ℕ}
      (hq : (k.setStage th (.sends p 0)).stage th' = .sends q w) :
      k.stage th' = .sends q w ∨ q = p ∧ w = 0 := by
    by_cases hth : th' = th
    · subst hth
      rw [stage_setStage_self] at hq
      injection hq with hq hw
      exact Or.inr ⟨hq.symm, hw.symm⟩
    · rw [stage_setStage_of_ne k _ hth] at hq
      exact Or.inl hq
  constructor
  · exact h.messages
  · intro th' q w hq
    rcases hstage hq with hq | ⟨rfl, rfl⟩
    · exact h.composed th' q w hq
    · exact ⟨hp, hp.length_pos⟩
  · exact h.sent
  · intro hopen th' q w hq hw
    rcases hstage hq with hq | ⟨-, rfl⟩
    · exact h.midway hopen th' q w hq hw
    · exact absurd hw (lt_irrefl 0)
  · intro hopen hno
    apply h.quiet hopen
    rintro th' ⟨q, w, hq, hw⟩
    have hth : th' ≠ th := by
      rintro rfl
      rw [hwaits] at hq
      cases hq
    exact hno th' ⟨q, w, by rwa [stage_setStage_of_ne k _ hth], hw⟩

theorem Streams.closed {k' : Client} (h : k.Streams hist) (hsent : k'.sent = k.sent)
    (hstage : ∀ th p w, k'.stage th = .sends p w → k.stage th = .sends p w)
    (hclosed : k'.isOpen = false) : k'.Streams hist where
  messages := h.messages
  composed th p w hq := h.composed th p w (hstage th p w hq)
  sent := hsent ▸ h.sent
  midway hopen := absurd hopen (by simp [hclosed])
  quiet hopen := absurd hopen (by simp [hclosed])

/-- A thread sends more of its message, or the rest of it, while the others wait: `hist'` has the
messages begun now, and `past` is what was sent before this message. -/
theorem Streams.piece {k' : Client} {hist' : List (List Byte)} {past : List Byte} (th : Sender)
    (hmessages : ∀ q ∈ hist', IsMessage q) (hp : IsMessage p)
    (hothers : ∀ th', th' ≠ th → ∀ q w, k'.stage th' = .sends q w →
      IsMessage q ∧ w < q.length ∧ w = 0)
    (hsent : k'.sent = past ++ p.take n) (hhist : hist'.reverse.flatten = past ++ p)
    (hstage : n < p.length ∧ 0 < n ∧ k'.stage th = .sends p n ∨
      p.length ≤ n ∧ k'.stage th = .waits) : k'.Streams hist' := by
  have hself {q : List Byte} {w : ℕ} (hq : k'.stage th = .sends q w) :
      q = p ∧ w = n ∧ n < p.length ∧ 0 < n := by
    rcases hstage with ⟨hlt, hpos, hth⟩ | ⟨-, hth⟩
    · rw [hth] at hq
      injection hq with hq hw
      exact ⟨hq.symm, hw.symm, hlt, hpos⟩
    · rw [hth] at hq
      cases hq
  constructor
  · exact hmessages
  · intro th' q w hq
    by_cases hth : th' = th
    · subst hth
      obtain ⟨rfl, rfl, hlt, -⟩ := hself hq
      exact ⟨hp, hlt⟩
    · obtain ⟨hq, hw, -⟩ := hothers th' hth q w hq
      exact ⟨hq, hw⟩
  · rw [hsent, hhist]
    exact (List.prefix_append_right_inj past).mpr (List.take_prefix n p)
  · intro _ th' q w hq hw
    by_cases hth : th' = th
    · subst hth
      obtain ⟨rfl, rfl, -⟩ := hself hq
      exact ⟨past, hsent, hhist⟩
    · obtain ⟨-, -, rfl⟩ := hothers th' hth q w hq
      exact absurd hw (lt_irrefl 0)
  · intro _ hno
    rcases hstage with ⟨-, hpos, hth⟩ | ⟨hle, -⟩
    · exact absurd ⟨p, n, hth, hpos⟩ (hno th)
    · rw [hsent, hhist, List.take_of_length_le hle]

theorem begun_eq (hstage : k.stage th = .sends p w) :
    k.begun (.send th n) = if w = 0 then [p] else [] := by
  cases w with
  | zero => simp [begun, hstage]
  | succ w => simp [begun, hstage]

theorem Streams.past (h : k.Streams hist) (hopen : k.isOpen = true)
    (hstage : k.stage th = .sends p w) (hothers : ∀ th', th' ≠ th → ¬ k.Midway th') :
    ∃ past, k.sent = past ++ p.take w ∧
      (k.begun (.send th n) ++ hist).reverse.flatten = past ++ p := by
  rw [begun_eq hstage]
  split_ifs with hw
  · -- the first bytes: all messages before have been sent whole
    subst hw
    have hquiet : k.sent = hist.reverse.flatten := by
      apply h.quiet hopen
      intro th' hmid
      by_cases hth : th' = th
      · obtain ⟨q, w, hq, hw⟩ := hmid
        rw [hth, hstage] at hq
        cases hq
        exact absurd hw (lt_irrefl 0)
      · exact hothers th' hth hmid
    exact ⟨k.sent, by simp, by simp [hquiet]⟩
  · obtain ⟨past, hpast, hhist⟩ := h.midway hopen th p w hstage (Nat.pos_of_ne_zero hw)
    exact ⟨past, hpast, hhist⟩

theorem Streams.send (h : k.Streams hist) (hu : k.Undivided (.send th n))
    (he : k.Enabled (.send th n)) :
    (k.next (.send th n)).Streams (k.begun (.send th n) ++ hist) := by
  obtain ⟨hopen, htakes⟩ := he
  cases hstage : k.stage th with
  | waits =>
    rw [hstage] at htakes
    exact htakes.elim
  | ended =>
    rw [hstage] at htakes
    exact htakes.elim
  | sends p w =>
    rw [hstage] at htakes
    obtain ⟨hpos, hle⟩ := htakes
    obtain ⟨hp, hw⟩ := h.composed th p w hstage
    have hidle {th' : Sender} (hth : th' ≠ th) {q : List Byte} {w : ℕ}
        (hq : k.stage th' = .sends q w) : IsMessage q ∧ w < q.length ∧ w = 0 := by
      obtain ⟨hq', hw'⟩ := h.composed th' q w hq
      refine ⟨hq', hw', ?_⟩
      by_contra hne
      exact hu th' hth ⟨q, w, hq, Nat.pos_of_ne_zero hne⟩
    obtain ⟨past, hpast, hhist⟩ := h.past (n := n) hopen hstage hu
    have hmessages : ∀ q ∈ k.begun (.send th n) ++ hist, IsMessage q := by
      intro q hq
      rw [begun_eq hstage, List.mem_append] at hq
      rcases hq with hq | hq
      · have hqp : q = p := by
          split_ifs at hq
          · exact List.mem_singleton.mp hq
          · cases hq
        exact hqp ▸ hp
      · exact h.messages q hq
    have hsent : k.sent ++ (p.drop w).take n = past ++ p.take (w + n) := by
      rw [hpast, List.append_assoc, List.take_add]
    by_cases hlt : w + n < p.length
    · have hnext : k.next (.send th n) =
          ({ k with sent := k.sent ++ (p.drop w).take n } : Client).setStage th
            (.sends p (w + n)) := by
        simp [next, hstage, hlt]
      rw [hnext]
      refine .piece th hmessages hp (fun th' hth q w' hq => ?_) hsent hhist
        (Or.inl ⟨hlt, by omega, stage_setStage_self _ th _⟩)
      rw [stage_setStage_of_ne _ _ hth] at hq
      exact hidle hth hq
    · have hnext : k.next (.send th n) =
          ({ k with sent := k.sent ++ (p.drop w).take n } : Client).finish th := by
        simp [next, hstage, hlt]
      rw [hnext]
      refine .piece th hmessages hp (fun th' hth q w' hq => ?_) hsent hhist
        (Or.inr ⟨Nat.le_of_not_lt hlt, stage_setStage_self _ th _⟩)
      refine hidle hth ((stage_setStage_of_ne _ _ hth).symm.trans hq)

theorem Streams.step (h : k.Streams hist) (hu : k.Undivided e) (he : k.Enabled e) :
    (k.next e).Streams (k.begun e ++ hist) := by
  cases e with
  | compose th code mem => exact h.compose he.1 ⟨code, mem, rfl⟩
  | send th n => exact h.send hu he
  | sendFailed th =>
    refine h.closed rfl (fun th' p w hq => ?_) rfl
    by_cases hth : th' = th
    · subst hth
      cases (stage_setStage_self k th' .ended).symm.trans hq
    · exact (stage_setStage_of_ne k .ended hth).symm.trans hq
  | recvFailed => exact h.closed rfl (fun _ _ _ hq => hq) rfl
  | quit => exact h.closed rfl (fun _ _ _ hq => by cases hq) rfl

theorem streams_of_run
    (h : ((clientProcess.restrict Undivided).record begun).Run es (k, hist)) : k.Streams hist := by
  refine h.invariant (I := fun q => q.1.Streams q.2) ?_ ?_
  · rintro ⟨k, hist⟩ ⟨rfl, rfl⟩
    exact streams_start
  · rintro ⟨k, hist⟩ e ⟨k', hist'⟩ hs ⟨⟨hu, he, hnext⟩, rfl⟩
    obtain rfl := Option.some.inj hnext
    exact hs.step hu he

theorem Streams.frameLen (h : k.Streams hist) : ∀ p ∈ hist.reverse,
    packetFormat.frameLen (p.take packetFormat.headerLen) = some p.length :=
  fun p hp => (h.messages p (List.mem_reverse.mp hp)).frameLen

/-- Whatever beginning of the stream has arrived, its packets are the first messages of the client,
whole and in order, and all of them once nothing is left of a message. -/
theorem stream_framed
    (h : ((clientProcess.restrict Undivided).record begun).Run es (k, hist)) :
    (∀ p ∈ hist, IsMessage p) ∧
      (∀ stream, stream <+: k.sent → packetFormat.frames stream <+: hist.reverse) ∧
      (k.isOpen = true → (∀ th, ¬ k.Midway th) → packetFormat.frames k.sent = hist.reverse) := by
  have hs := streams_of_run h
  refine ⟨hs.messages, fun stream hstream => ?_, fun hopen hno => ?_⟩
  · exact FrameFormat.frames_of_isPrefix hs.frameLen (hstream.trans hs.sent)
  · rw [hs.quiet hopen hno, FrameFormat.frames_flatten hs.frameLen]

/-- A login in the middle of a heartbeat: the first packet of the stream is one that the server
throws away. -/
theorem divided_rejected : ∃ es k pkg rest, clientProcess.Run es k ∧
    packetFormat.frames k.sent = pkg :: rest ∧
      ∀ (s : Server) b, s.recvPkg b = pkg → s.Rejected b := by
  let mem : ℕ → Byte := fun _ => 0
  let es : List ClientEvent := [.compose .heartBeatThreadProc .hbCode mem,
    .compose .sendMsgThreadProc .linginCode mem, .send .heartBeatThreadProc 3,
    .send .sendMsgThreadProc 104, .send .heartBeatThreadProc 5]
  let pkg : List Byte := [0, 8, 0, 0, 104, 0, 6, 190]
  obtain ⟨k, hk, hpkg⟩ := Option.map_eq_some_iff.mp
    (show (System.play Enabled (fun k e => some (k.next e)) es start).map
      (fun k => k.sent.take 8) = some pkg by decide +kernel)
  have hframe : packetFormat.frameLen (pkg.take packetFormat.headerLen) = some pkg.length := by
    decide
  refine ⟨es, k, pkg, packetFormat.frames (k.sent.drop 8), System.run_of_play rfl hk, ?_, ?_⟩
  · rw [← FrameFormat.frames_cons hframe, ← hpkg, List.take_append_drop]
  · intro s b hb
    apply Server.Rejected.headerCrc
    · rw [hb]
      decide
    · rw [hb]
      decide

end Client

/-- The stream is a beginning of what a client may send that does not divide its messages, and
these are the messages. -/
def FromClient (stream : List Byte) (msgs : List (List Byte)) : Prop :=
  ∃ es k, ((clientProcess.restrict Client.Undivided).record Client.begun).Run es
    (k, msgs.reverse) ∧ stream <+: k.sent

/-- Of the messages `msgs`, those that the stream has the whole of are `whole`, the first ones. -/
structure ArrivedWhole (stream : List Byte) (msgs whole : List (List Byte)) : Prop where
  first : whole <+: msgs
  longest : ∀ first, first <+: msgs → (first.flatten <+: stream ↔ first <+: whole)

theorem FromClient.isMessage {stream : List Byte} {msgs : List (List Byte)}
    (h : FromClient stream msgs) : ∀ p ∈ msgs, IsMessage p := by
  obtain ⟨es, k, hrun, -⟩ := h
  exact fun p hp => (Client.stream_framed hrun).1 p (List.mem_reverse.mpr hp)

/-- The packets of the stream are the messages that have arrived whole. -/
theorem FromClient.arrivedWhole {stream : List Byte} {msgs : List (List Byte)}
    (h : FromClient stream msgs) : ArrivedWhole stream msgs (packetFormat.frames stream) := by
  obtain ⟨es, k, hrun, hstream⟩ := h
  have hs := Client.streams_of_run hrun
  have hframes := hs.frameLen
  have hmsgs := hstream.trans hs.sent
  rw [List.reverse_reverse] at hframes hmsgs
  exact ⟨FrameFormat.frames_of_isPrefix hframes hmsgs,
    fun first hfirst => FrameFormat.flatten_isPrefix_iff hframes hmsgs hfirst⟩

theorem fromClient_nil : FromClient [] [] :=
  ⟨[], Client.start, .start ⟨rfl, rfl⟩, List.nil_prefix⟩

theorem fromClient_heartbeat {stream : List Byte} (mem : ℕ → Byte)
    (h : stream <+: sendHeartBeatMsg mem) : FromClient stream [sendHeartBeatMsg mem] := by
  have hstart : ((clientProcess.restrict Client.Undivided).record Client.begun).Run []
      (Client.start, []) := .start ⟨rfl, rfl⟩
  let k := Client.start.setStage .heartBeatThreadProc (.sends (sendHeartBeatMsg mem) 0)
  have hbegun : ((clientProcess.restrict Client.Undivided).record Client.begun).Run
      [.compose .heartBeatThreadProc .hbCode mem] (k, []) :=
    hstart.step ⟨⟨trivial, ⟨rfl, rfl⟩, rfl⟩, rfl⟩
  have hstage : k.stage .heartBeatThreadProc = .sends (sendHeartBeatMsg mem) 0 :=
    Client.stage_setStage_self _ _ _
  have hlen : (sendHeartBeatMsg mem).length = 8 := by
    rw [sendHeartBeatMsg_eq]
    rfl
  have hundivided : k.Undivided (.send .heartBeatThreadProc 8) := by
    rintro th hth ⟨p, w, hq, -⟩
    rw [Client.stage_setStage_of_ne _ _ hth] at hq
    cases hq
  have henabled : k.Enabled (.send .heartBeatThreadProc 8) := by
    refine ⟨rfl, ?_⟩
    rw [hstage, SendStage.Takes, hlen]
    decide
  have hsent : (k.next (.send .heartBeatThreadProc 8)).sent = sendHeartBeatMsg mem := by
    have hall : (sendHeartBeatMsg mem).take 8 = sendHeartBeatMsg mem :=
      List.take_of_length_le hlen.le
    simp only [Client.next, hstage, hlen, Nat.zero_add, lt_irrefl, if_false, List.drop_zero, hall]
    rfl
  refine ⟨_, k.next (.send .heartBeatThreadProc 8),
    hbegun.step ⟨⟨hundivided, henabled, rfl⟩, ?_⟩, hsent ▸ h⟩
  simp [Client.begun, hstage]

end XiaoHGServer
