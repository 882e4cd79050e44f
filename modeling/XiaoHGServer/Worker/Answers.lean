import XiaoHGServer.Library.Desk
import XiaoHGServer.Receive.Sessions
import XiaoHGServer.Send.Ownership
import XiaoHGServer.Send.Stamps
import XiaoHGServer.Worker.Protocol

/-!
# Requests and replies of a whole run

Packets of all clients go through one receive list to the worker threads, which
drop them or push replies. Here the packets of a run are accounted for: none is
answered twice, no reply comes without its request, and no request that deserves
a reply is forgotten, in whatever order the threads run.
-/

namespace XiaoHGServer

/-- What tells a packet from the others: its message header, its code and its length. -/
structure Letter where
  header : MsgHeader
  code : ℕ
  len : ℕ
  deriving DecidableEq, Repr

def MsgBuffer.letter (m : MsgBuffer) : Letter := ⟨m.header, msgCode m.pkg, pkgLength m.pkg⟩

/-- A packet of this code and this length has a reply. -/
def Letter.Answerable (x : Letter) : Prop := (x.code, x.len) ∈ Server.answerable

instance (x : Letter) : Decidable x.Answerable := inferInstanceAs (Decidable (_ ∈ _))

/-- The events that concern the receive list or the worker threads. -/
def Event.atDesk : Event → Bool
  | .read _ _ => true
  | .take => true
  | .handle _ _ => true
  | .push _ _ => true
  | .release _ => true
  | _ => false

/-- Whole packets are received, replies are composed to answerable ones, and others are dropped. -/
def DeskEvent.Genuine : DeskEvent Letter → Prop
  | .received x => lenPkgHeader ≤ x.len
  | .composed x => x.Answerable
  | .dropped x => ¬ x.Answerable
  | _ => True

namespace Server

variable {s t : Server} {b : BufId} {c : ConnId} {i : ℕ} {e : Event} {single : Prop}
  {hist : List (DeskEvent Letter)}

def recvLetter (s : Server) (b : BufId) : Letter := (s.recvQueue.mem.buffer b).letter

def sendLetter (s : Server) (b : BufId) : Letter := (s.sendQueue.mem.buffer b).letter

/-- The packet of a worker that has not handled it yet. -/
def untouched (w : Worker) : Option BufId :=
  if w.stage = .taken then some w.pJobBuf else none

def takenJobs (s : Server) : List BufId := s.workers.filterMap untouched

/-- The receive list, the packets and the replies of the worker threads. -/
def desk (s : Server) : Desk Letter where
  waiting := s.recvQueue.recvMsgList.map s.recvLetter
  inHand := s.takenJobs.map s.recvLetter
  composed := s.replies.map s.sendLetter

def deskEvents (s : Server) : Event → List (DeskEvent Letter)
  | .read c env =>
    let t := s.epollEventReadRequestHandler c env.recv env.now env.currTime
    (t.recvQueue.recvMsgList.drop s.recvQueue.recvMsgList.length).map fun b =>
      .received (t.recvLetter b)
  | .take => [.taken]
  | .handle i now =>
    match s.workers[i]? with
    | none => []
    | some w =>
      match s.recvMsgHandleProc w.pJobBuf now with
      | none => []
      | some (_, none) => [.dropped (s.recvLetter w.pJobBuf)]
      | some (_, some _) => [.composed (s.recvLetter w.pJobBuf)]
  | .push i _ =>
    match s.stage i with
    | some (.reply b) => [.answered (s.sendLetter b)]
    | _ => []
  | _ => []

/-- No packet is in the receive list twice, or in two hands, or in both. -/
def PacketsApart (s : Server) : Prop := (s.recvQueue.recvMsgList ++ s.jobs).Nodup

theorem mem_replies (hb : b ∈ s.replies) : ∃ w ∈ s.workers, w.stage = .reply b := by
  obtain ⟨w, hw, hb⟩ := List.mem_filterMap.mp hb
  refine ⟨w, hw, ?_⟩
  unfold replyOf at hb
  split at hb
  · rename_i b' hstage
    rw [hstage, Option.some.inj hb]
  · cases hb

theorem takenJobs_subset : s.takenJobs ⊆ s.jobs := by
  intro b hb
  obtain ⟨w, hw, hb⟩ := List.mem_filterMap.mp hb
  simp only [untouched, Option.ite_none_right_eq_some, Option.some.injEq] at hb
  exact hb.2 ▸ List.mem_map_of_mem hw

theorem composed_congr (hp : s.ClientPointers) (hm : KeepsMail s t)
    (hworkers : t.workers = s.workers) :
    t.replies.map t.sendLetter = s.replies.map s.sendLetter := by
  rw [replies, hworkers]
  refine List.map_congr_left fun b hb => ?_
  obtain ⟨w, hw, hstage⟩ := mem_replies hb
  rw [sendLetter, hm.buffer b (hp.send.replies w hw b hstage), sendLetter]

theorem desk_congr (hp : s.ClientPointers) (hm : KeepsMail s t)
    (hlist : t.recvQueue.recvMsgList = s.recvQueue.recvMsgList) (hworkers : t.workers = s.workers)
    (hbuf : t.recvQueue.mem.buffer = s.recvQueue.mem.buffer) : t.desk = s.desk := by
  have hrecv : t.recvLetter = s.recvLetter := by
    funext b
    rw [recvLetter, hbuf, recvLetter]
  simp only [desk, takenJobs, hlist, hworkers, hrecv, composed_congr hp hm hworkers]

theorem handed_wellFormed {env : HandlerEnv} (hs : s.RecvApart) (he : s.Enabled (.read c env))
    {pkg : List Byte} (hpkg : pkg ∈ handed s
      (s.epollEventReadRequestHandler c env.recv env.now env.currTime)) : WellFormed pkg := by
  obtain ⟨hw, stream, out, hparsed⟩ := hs.windows c he.1
  have hbase : handed s (s.epollEventReadRequestHandler c env.recv env.now env.currTime) =
      handed s (s.readBase c env.recv env.currTime).1 := by
    have hq : (s.epollEventReadRequestHandler c env.recv env.now env.currTime).recvQueue =
        (s.readBase c env.recv env.currTime).1.recvQueue := by
      rw [read_eq]
      split
      · rw [closeConnectionToRecy_eq]
      · rfl
    unfold handed recvPkg
    rw [hq]
  rw [hbase] at hpkg
  cases hret : env.recv with
  | data bytes =>
    have hlegal := he.2
    rw [hret] at hlegal hpkg
    obtain ⟨-, ⟨-, -, hnone, -⟩ | ⟨pkg', -, -, hone, hp⟩⟩ :=
      readBase_parses hw hparsed env.currTime hlegal.1 hlegal.2.1
    · rw [hnone] at hpkg
      cases hpkg
    · rw [hone] at hpkg
      split_ifs at hpkg
      · cases hpkg
      · rw [List.mem_singleton.mp hpkg]
        exact wellFormed_of_mem_frames (by rw [hp.frames_eq]; simp)
  | _ => simp [hret, readBase, handed] at hpkg

/-- The packets that wait or are in hand stay as they are when another one is received. -/
theorem read_waiting {env : HandlerEnv} (hs : s.RecvApart) (hp : s.ClientPointers)
    (he : s.Enabled (.read c env)) (hb : b ∈ s.recvQueue.recvMsgList ∨ b ∈ s.jobs) :
    (s.epollEventReadRequestHandler c env.recv env.now env.currTime).recvPkg b =
      s.recvPkg b := by
  apply read_packet (hs.windows c he.1).1
  · exact fun hc => hb.elim (hs.own c b hc).1 (hs.own c b hc).2
  · exact hb.elim (hp.recv.list b) (hp.recv.jobs b)

theorem read_letter {env : HandlerEnv} (hs : s.RecvApart) (hp : s.ClientPointers)
    (he : s.Enabled (.read c env)) (hb : b ∈ s.recvQueue.recvMsgList ∨ b ∈ s.jobs) :
    (s.epollEventReadRequestHandler c env.recv env.now env.currTime).recvLetter b =
      s.recvLetter b := by
  have hlt : b < s.recvQueue.mem.next := hb.elim (hp.recv.list b) (hp.recv.jobs b)
  have hpkg := read_waiting hs hp he hb
  have hhead : (s.epollEventReadRequestHandler c env.recv env.now env.currTime).recvHeader b =
      s.recvHeader b := by
    rcases step_recvMem (e := .read c env) rfl with ⟨-, hhead⟩ | ⟨d, env', heq, hstamps, hq⟩
    · exact hhead b
    · cases heq
      rw [recvHeader, hq]
      rcases hstamps with ⟨-, -, hhead⟩ | ⟨-, -, -, hhead⟩
      · exact hhead b
      · exact hhead b (Nat.ne_of_lt hlt)
  simp only [recvPkg, recvHeader] at hpkg hhead
  simp only [recvLetter, MsgBuffer.letter, hpkg, hhead]

theorem read_list (env : HandlerEnv) :
    let t := s.epollEventReadRequestHandler c env.recv env.now env.currTime
    t.recvQueue.recvMsgList = s.recvQueue.recvMsgList ∨
      ∃ b, t.recvQueue.recvMsgList = s.recvQueue.recvMsgList ++ [b] := by
  rcases (read_move s c env.now env.recv env.currTime).1 with ⟨-, hl, -⟩ | ⟨-, hl, -⟩ |
    ⟨-, hl, -⟩ | ⟨-, hl, -⟩ | ⟨b, -, hl, -⟩ | ⟨b, -, hl, -⟩
  · exact Or.inl hl
  · exact Or.inl hl
  · exact Or.inr ⟨_, hl⟩
  · exact Or.inl hl
  · exact Or.inr ⟨b, hl⟩
  · exact Or.inl hl

theorem read_workers (s : Server) (c : ConnId) (env : HandlerEnv) :
    (s.epollEventReadRequestHandler c env.recv env.now env.currTime).workers = s.workers := by
  obtain ⟨q, r, f, hform⟩ := onlyRecv_readBase s c env.recv env.currTime
  have hbase : (s.readBase c env.recv env.currTime).1.workers = s.workers := by
    rw [hform]
    rfl
  rw [read_eq]
  split
  · rw [closeConnectionToRecy_eq]
    exact hbase
  · exact hbase

theorem read_desk {env : HandlerEnv} (hs : s.RecvApart) (hp : s.ClientPointers)
    (he : s.Enabled (.read c env)) (h : s.next (.read c env) = some t) :
    s.deskEvents (.read c env) = [] ∧ t.desk = s.desk ∨
      ∃ x, s.deskEvents (.read c env) = [.received x] ∧ lenPkgHeader ≤ x.len ∧
        t.desk = ⟨s.desk.waiting ++ [x], s.desk.inHand, s.desk.composed⟩ := by
  have hm := step_keepsMail h
  obtain rfl := Option.some.inj h
  set t := s.epollEventReadRequestHandler c env.recv env.now env.currTime with ht
  have hworkers : t.workers = s.workers := read_workers s c env
  have hwaiting : s.recvQueue.recvMsgList.map t.recvLetter =
      s.recvQueue.recvMsgList.map s.recvLetter :=
    List.map_congr_left fun b hb => read_letter hs hp he (Or.inl hb)
  have hinHand : t.takenJobs.map t.recvLetter = s.takenJobs.map s.recvLetter := by
    rw [takenJobs, hworkers]
    refine List.map_congr_left fun b hb => read_letter hs hp he (Or.inr ?_)
    exact takenJobs_subset hb
  have hcomposed := composed_congr hp hm hworkers
  rcases read_list (s := s) (c := c) env with hl | ⟨b, hl⟩
  · rw [← ht] at hl
    refine Or.inl ⟨by simp [deskEvents, ← ht, hl], ?_⟩
    simp only [desk, hl, hwaiting, hinHand, hcomposed]
  · rw [← ht] at hl
    refine Or.inr ⟨t.recvLetter b, by simp [deskEvents, ← ht, hl], ?_, ?_⟩
    · have hpkg : t.recvPkg b ∈ handed s t := by simp [handed, hl]
      have hwell := handed_wellFormed hs he hpkg
      exact hwell.2.trans_eq hwell.1
    · simp only [desk, hl, List.map_append, List.map_cons, List.map_nil, hwaiting, hinHand,
        hcomposed]

theorem take_desk (he : s.Enabled .take) (h : s.next .take = some t) :
    ∃ x w, s.desk.waiting = x :: w ∧
      t.desk = ⟨w, x ::ₘ s.desk.inHand, s.desk.composed⟩ := by
  obtain rfl := Option.some.inj h
  cases hl : s.recvQueue.recvMsgList with
  | nil => exact absurd hl he.1
  | cons b rest =>
    refine ⟨s.recvLetter b, rest.map s.recvLetter, by simp [desk, hl], ?_⟩
    have hrecv : s.takeRecvMsg.recvLetter = s.recvLetter := by
      funext b
      simp [recvLetter, takeRecvMsg, hl]
    have htaken : s.takeRecvMsg.takenJobs = s.takenJobs ++ [b] := by
      simp [takenJobs, takeRecvMsg, hl, untouched]
    have hreplies : s.takeRecvMsg.replies.map s.takeRecvMsg.sendLetter =
        s.replies.map s.sendLetter := by
      have hsend : s.takeRecvMsg.sendLetter = s.sendLetter := by
        funext b
        simp [sendLetter, takeRecvMsg, hl]
      rw [hsend]
      simp [replies, takeRecvMsg, hl, replyOf]
    have hlist : s.takeRecvMsg.recvQueue.recvMsgList = rest := by simp [takeRecvMsg, hl]
    have hperm : (s.takenJobs.map s.recvLetter ++ [s.recvLetter b]).Perm
        (s.recvLetter b :: s.takenJobs.map s.recvLetter) := List.perm_append_singleton _ _
    simp only [desk, hrecv, htaken, hreplies, hlist, List.map_append, List.map_cons, List.map_nil,
      Multiset.coe_eq_coe.mpr hperm, Multiset.cons_coe]

theorem takenJobs_sublist : s.takenJobs.Sublist s.jobs := by
  unfold takenJobs jobs
  induction s.workers with
  | nil => exact .slnil
  | cons w ws ih =>
    by_cases hw : w.stage = .taken
    · simpa [untouched, hw] using ih
    · simpa [untouched, hw] using ih.cons w.pJobBuf

theorem takenJobs_setStage {w : Worker} {x : WorkerStage} (hw : s.workers[i]? = some w)
    (hstage : w.stage = .taken) (hx : x ≠ .taken)
    (hd : s.PacketsApart) :
    s.takenJobs.Perm (w.pJobBuf :: (s.setStage i x).takenJobs) ∧
      w.pJobBuf ∉ s.recvQueue.recvMsgList ∧ w.pJobBuf ∉ (s.setStage i x).takenJobs := by
  have hperm : s.takenJobs.Perm (w.pJobBuf :: (s.setStage i x).takenJobs) :=
    filterMap_modify_gone hw (by simp [untouched, hstage]) (by simp [untouched, hx])
  have hmem : w.pJobBuf ∈ s.jobs := List.mem_map_of_mem (List.mem_of_getElem? hw)
  obtain ⟨-, hjobs, hout⟩ := List.nodup_append.mp hd
  refine ⟨hperm, fun hm => hout _ hm _ hmem rfl, ?_⟩
  exact (List.nodup_cons.mp (hperm.nodup_iff.mp (takenJobs_sublist.nodup hjobs))).1

theorem handled_letters {w : Worker} {u : Server} {r : Option BufId} {x : WorkerStage} {now : ℤ}
    (hw : s.workers[i]? = some w) (hstage : w.stage = .taken) (hd : s.PacketsApart)
    (hx : x ≠ .taken) (hu : s.recvMsgHandleProc w.pJobBuf now = some (u, r)) :
    (u.setStage i x).recvQueue.recvMsgList.map (u.setStage i x).recvLetter = s.desk.waiting ∧
      s.desk.inHand = s.recvLetter w.pJobBuf ::ₘ
        ((u.setStage i x).takenJobs.map (u.setStage i x).recvLetter : List Letter) := by
  obtain ⟨hperm, hlist, htaken⟩ := takenJobs_setStage hw hstage hx hd
  have hwrites := recvMsgHandleProc_writesOnly hu
  obtain ⟨m, m', y, hform, hcustody, -⟩ := recvMsgHandleProc_handled hu
  have hletter {b : BufId} (hb : b ≠ w.pJobBuf) : u.recvLetter b = s.recvLetter b := by
    have hpkg := hwrites b hb
    have hhead : u.recvHeader b = s.recvHeader b := by
      rw [hform]
      exact hcustody.header b
    simp only [recvPkg, recvHeader] at hpkg hhead
    simp only [recvLetter, MsgBuffer.letter, hpkg, hhead]
  have hq : u.recvQueue.recvMsgList = s.recvQueue.recvMsgList := by rw [hform]
  have hws : u.workers = s.workers := by rw [hform]
  have hsame : (u.setStage i x).takenJobs = (s.setStage i x).takenJobs := by
    simp only [takenJobs, setStage, hws]
  constructor
  · change u.recvQueue.recvMsgList.map u.recvLetter = _
    rw [hq]
    refine List.map_congr_left fun b hb => hletter ?_
    rintro rfl
    exact hlist hb
  · have hmap : ((u.setStage i x).takenJobs.map (u.setStage i x).recvLetter) =
        (s.setStage i x).takenJobs.map s.recvLetter := by
      rw [hsame]
      refine List.map_congr_left fun b hb => hletter ?_
      rintro rfl
      exact htaken hb
    rw [hmap, Multiset.cons_coe]
    exact Multiset.coe_eq_coe.mpr (hperm.map _)

/-- The reply of the handler has the letter of the request, and joins the other replies. -/
theorem composed_letters {w : Worker} {u : Server} {k : LogicHandler} {now : ℤ}
    (hp : s.ClientPointers) (hw : s.workers[i]? = some w) (hstage : w.stage = .taken)
    (hu : s.recvMsgHandleProc w.pJobBuf now = some (u, some s.sendQueue.mem.next))
    (hans : Answered k (s.recvHeader w.pJobBuf) now s u)
    (hcode : (s.recvLetter w.pJobBuf).code = k.code)
    (hlen : (s.recvLetter w.pJobBuf).len = lenPkgHeader + k.bodyLen)
    (hm : KeepsMail s (u.setStage i (.reply s.sendQueue.mem.next))) :
    (u.setStage i (.reply s.sendQueue.mem.next)).desk.composed =
      s.recvLetter w.pJobBuf ::ₘ s.desk.composed := by
  set t := u.setStage i (.reply s.sendQueue.mem.next) with ht
  have hnew : t.sendLetter s.sendQueue.mem.next = s.recvLetter w.pJobBuf := by
    have hbuf : t.sendLetter s.sendQueue.mem.next =
        (u.sendQueue.mem.buffer s.sendQueue.mem.next).letter := rfl
    rw [hbuf, hans.buffer, MsgBuffer.letter, msgCode_reply, pkgLength_reply, ← hcode, ← hlen]
    rfl
  have hreplies : t.replies.Perm (s.sendQueue.mem.next :: s.replies) := by
    have hws : u.workers = s.workers := by
      obtain ⟨m, m', y, rfl, -⟩ := recvMsgHandleProc_handled hu
      rfl
    rw [ht, replies, setStage, hws]
    exact filterMap_modify_new hw (by simp [replyOf, hstage]) (by simp [replyOf])
  have hold : s.replies.map t.sendLetter = s.replies.map s.sendLetter := by
    refine List.map_congr_left fun b hb => ?_
    obtain ⟨w', hw', hst⟩ := mem_replies hb
    rw [sendLetter, hm.buffer b (hp.send.replies w' hw' b hst), sendLetter]
  change (t.replies.map t.sendLetter : Multiset Letter) =
    s.recvLetter w.pJobBuf ::ₘ (s.replies.map s.sendLetter : List Letter)
  rw [Multiset.coe_eq_coe.mpr (hreplies.map _), List.map_cons, hnew, hold, Multiset.cons_coe]

theorem dropped_letters {w : Worker} {u : Server} {now : ℤ} (hw : s.workers[i]? = some w)
    (hstage : w.stage = .taken) (hu : s.recvMsgHandleProc w.pJobBuf now = some (u, none))
    (hq : u.sendQueue = s.sendQueue) : (u.setStage i .handled).desk.composed = s.desk.composed := by
  have hsend : (u.setStage i .handled).sendLetter = s.sendLetter := by
    funext b
    rw [sendLetter, setStage, hq, sendLetter]
  have hsame : (u.setStage i .handled).replies = s.replies := by
    have hws : u.workers = s.workers := by
      obtain ⟨m, m', y, rfl, -⟩ := recvMsgHandleProc_handled hu
      rfl
    rw [replies, setStage, hws]
    exact filterMap_modify_none hw (by simp [replyOf, hstage]) (by simp [replyOf])
  simp only [desk, hsend, hsame]

/-- The code of a packet has a handler, and then its length decides. -/
theorem answerable_iff {k : LogicHandler} (hcode : (s.recvLetter b).code = k.code) :
    (s.recvLetter b).Answerable ↔ (s.recvLetter b).len = lenPkgHeader + k.bodyLen := by
  rw [Letter.Answerable, mem_answerable_iff]
  refine ⟨?_, fun hl => ⟨k, hcode, hl⟩⟩
  rintro ⟨k', hk', hl⟩
  obtain rfl : k' = k := LogicHandler.code_inj (hk'.symm.trans hcode)
  exact hl

/-- A worker composes a reply to its packet if it is answerable, and drops it otherwise. -/
theorem handle_desk {now : ℤ} (hp : s.ClientPointers) (hd : s.PacketsApart)
    (hsize : ∀ x ∈ s.desk.inHand, lenPkgHeader ≤ x.len) (he : s.Enabled (.handle i now))
    (h : s.next (.handle i now) = some t) :
    ∃ x m, s.desk.inHand = x ::ₘ m ∧
      (s.deskEvents (.handle i now) = [.composed x] ∧ x.Answerable ∧
          t.desk = ⟨s.desk.waiting, m, x ::ₘ s.desk.composed⟩ ∨
        s.deskEvents (.handle i now) = [.dropped x] ∧ ¬ x.Answerable ∧
          t.desk = ⟨s.desk.waiting, m, s.desk.composed⟩) := by
  obtain ⟨w, hw, hstage⟩ := Option.map_eq_some_iff.mp (show s.workers[i]?.map _ = _ from he)
  have hok : ¬ s.Rejected w.pJobBuf := by
    intro hrej
    have hnone : s.next (.handle i now) = none := workerHandle_eq_none_iff.mpr ⟨w, hw, hrej⟩
    rw [hnone] at h
    cases h
  obtain ⟨k, hk⟩ := code_of_not_rejected hok
  have hcode : (s.recvLetter w.pJobBuf).code = k.code := hk
  have hlen : lenPkgHeader ≤ (s.recvLetter w.pJobBuf).len := by
    refine hsize _ (Multiset.mem_coe.mpr (List.mem_map_of_mem ?_))
    exact List.mem_filterMap.mpr ⟨w, List.mem_of_getElem? hw, by simp [untouched, hstage]⟩
  have hbody : u16 (pkgLength (s.recvPkg w.pJobBuf) - lenPkgHeader) = k.bodyLen ↔
      (s.recvLetter w.pJobBuf).len = lenPkgHeader + k.bodyLen := by
    have hlt := pkgLength_lt (s.recvPkg w.pJobBuf)
    have hsame : (s.recvLetter w.pJobBuf).len = pkgLength (s.recvPkg w.pJobBuf) := rfl
    rw [u16_of_lt (by omega), hsame]
    rw [hsame] at hlen
    omega
  have hans := recvMsgHandleProc_answer now hok hk
  simp only [hbody] at hans
  split_ifs at hans with hlength
  · obtain ⟨u, hu, hanswered⟩ := hans
    obtain rfl : u.setStage i (.reply s.sendQueue.mem.next) = t := by
      simpa only [next, workerHandle, hw, hu, Option.some.injEq] using h
    obtain ⟨hwaiting, hhand⟩ :=
      handled_letters (x := .reply s.sendQueue.mem.next) hw hstage hd (by simp) hu
    refine ⟨_, _, hhand, Or.inl ⟨by simp [deskEvents, hw, hu],
      (answerable_iff hcode).mpr hlength, ?_⟩⟩
    rw [← composed_letters hp hw hstage hu hanswered hcode hlength (step_keepsMail h), ← hwaiting]
    rfl
  · obtain ⟨u, hu, hq, -⟩ := hans
    obtain rfl : u.setStage i .handled = t := by
      simpa only [next, workerHandle, hw, hu, Option.some.injEq] using h
    obtain ⟨hwaiting, hhand⟩ := handled_letters (x := .handled) hw hstage hd (by simp) hu
    refine ⟨_, _, hhand, Or.inr ⟨by simp [deskEvents, hw, hu],
      fun ha => hlength ((answerable_iff hcode).mp ha), ?_⟩⟩
    rw [← dropped_letters hw hstage hu hq, ← hwaiting]
    rfl

theorem push_recv {now : ℤ} {u : Server}
    (hu : s.pushSendMsgToSendListAndSem b now = some u) :
    u.recvQueue = s.recvQueue ∧ u.workers = s.workers := by
  obtain ⟨size, discard, mem, k, rfl, -⟩ := push_cases hu
  unfold pushBase
  split
  · simp [closeConnectionToRecy_eq]
  · exact ⟨rfl, rfl⟩

theorem push_taken {now : ℤ} {u : Server} (hstage : s.stage i = some (.reply b))
    (hu : s.pushSendMsgToSendListAndSem b now = some u) :
    (u.setStage i .handled).takenJobs = s.takenJobs ∧
      (u.setStage i .handled).recvQueue = s.recvQueue := by
  obtain ⟨w, hw, hst⟩ := Option.map_eq_some_iff.mp hstage
  obtain ⟨hq, hws⟩ := push_recv hu
  refine ⟨?_, by rw [setStage, hq]⟩
  rw [takenJobs, setStage, hws]
  exact filterMap_modify_none hw (by simp [untouched, hst]) (by simp [untouched])

theorem push_desk {now : ℤ} (hp : s.ClientPointers) (he : s.Enabled (.push i now))
    (h : s.next (.push i now) = some t) :
    ∃ x m, s.deskEvents (.push i now) = [.answered x] ∧ s.desk.composed = x ::ₘ m ∧
      t.desk = ⟨s.desk.waiting, s.desk.inHand, m⟩ := by
  have hm := step_keepsMail h
  obtain ⟨rfl, hno⟩ | ⟨b, u, hstage, hu, ht⟩ := workerPush_cases h
  · have hreply := he.1
    split at hreply
    · exact absurd ‹_› (hno _)
    · exact hreply.elim
  · obtain ⟨w, hw, hst⟩ := Option.map_eq_some_iff.mp hstage
    obtain ⟨-, hws⟩ := push_recv hu
    obtain ⟨htaken, hq⟩ : t.takenJobs = s.takenJobs ∧ t.recvQueue = s.recvQueue :=
      ht ▸ push_taken hstage hu
    have hperm : s.replies.Perm (b :: t.replies) := by
      rw [ht, replies, replies, setStage, hws]
      exact filterMap_modify_gone hw (by simp [replyOf, hst]) (by simp [replyOf])
    have hrecv : t.recvLetter = s.recvLetter := by
      funext b
      rw [recvLetter, hq, recvLetter]
    have hmap : t.replies.map t.sendLetter = t.replies.map s.sendLetter := by
      refine List.map_congr_left fun b hb => ?_
      obtain ⟨w', hw', hst'⟩ := mem_replies (hperm.symm.subset (List.mem_cons_of_mem _ hb))
      rw [sendLetter, hm.buffer b (hp.send.replies w' hw' b hst'), sendLetter]
    refine ⟨s.sendLetter b, (t.replies.map s.sendLetter : List Letter),
      by simp [deskEvents, hstage], ?_, ?_⟩
    · rw [Multiset.cons_coe]
      exact Multiset.coe_eq_coe.mpr (hperm.map _)
    · simp only [desk, hrecv, htaken, hq, hmap]

theorem elsewhere (hno : e.atDesk = false) (h : s.next e = some t) :
    t.recvQueue.recvMsgList = s.recvQueue.recvMsgList ∧ t.workers = s.workers ∧
      t.recvQueue.mem.buffer = s.recvQueue.mem.buffer := by
  cases e with
  | accept env =>
    rcases accept_cases h with ⟨b, calls, rfl, -⟩ | ⟨fd, b, -, rfl⟩ <;> exact ⟨rfl, rfl, rfl⟩
  | read c env => cases hno
  | outError c =>
    obtain rfl := Option.some.inj h
    exact ⟨rfl, rfl, rfl⟩
  | write c env =>
    rcases write_cases h with ⟨n, -, -, -, rfl⟩ | ⟨-, rfl⟩ | ⟨n, -, -, -, rfl⟩ | ⟨-, rfl⟩ <;>
      exact ⟨rfl, rfl, rfl⟩
  | take => cases hno
  | handle i now => cases hno
  | push i now => cases hno
  | release i => cases hno
  | semWait => cases h; exact ⟨rfl, rfl, rfl⟩
  | semIntr => cases h; exact ⟨rfl, rfl, rfl⟩
  | sizeTest => cases h; exact ⟨rfl, rfl, rfl⟩
  | iterate env =>
    obtain rfl | ⟨pos, -, h⟩ := iterate_pass h
    · exact ⟨rfl, rfl, rfl⟩
    · rcases iterate_cases h with ⟨-, rfl⟩ | ⟨b, -, ⟨-, rfl⟩ | ⟨-, -, rfl⟩ | ⟨-, -, hstart⟩⟩
      · exact ⟨rfl, rfl, rfl⟩
      · exact ⟨rfl, rfl, rfl⟩
      · exact ⟨rfl, rfl, rfl⟩
      · rcases startSend_cases hstart with ⟨-, rfl⟩ | ⟨n, -, -, -, rfl⟩ | ⟨-, rfl⟩ <;>
          exact ⟨rfl, rfl, rfl⟩
  | close c now =>
    obtain rfl := Option.some.inj h
    simp [closeConnectionToRecy_eq]
  | recycle now =>
    obtain ⟨c, -, rfl⟩ := lblRRTD_eq_some h
    simp [recycled]
  | clear =>
    obtain ⟨c, -, rfl⟩ := lblRRTD2_eq_some h
    simp [recycled]
  | monitor now =>
    obtain ⟨hd, q, -, -, ⟨-, rfl⟩ | ⟨-, rfl⟩⟩ := monitor_cases h
    · simp [closeConnectionToRecy_eq]
    · exact ⟨rfl, rfl, rfl⟩

theorem release_taken (he : s.Enabled (.release i)) :
    (s.workerRelease i).takenJobs = s.takenJobs ∧
      (s.workerRelease i).recvQueue.recvMsgList = s.recvQueue.recvMsgList ∧
      (s.workerRelease i).recvPkg = s.recvPkg := by
  obtain ⟨w, hw, hstage⟩ := Option.map_eq_some_iff.mp (show s.workers[i]?.map _ = _ from he)
  refine ⟨?_, by simp [workerRelease, hw], ?_⟩
  · simp only [takenJobs, workerRelease, hw]
    exact filterMap_eraseIdx_none hw (by simp [untouched, hstage])
  · funext b
    simp [workerRelease, hw, recvPkg]

theorem release_desk (he : s.Enabled (.release i)) (h : s.next (.release i) = some t) :
    t.desk = s.desk := by
  obtain ⟨htaken, hlist, -⟩ := release_taken he
  obtain ⟨w, hw, hstage⟩ := Option.map_eq_some_iff.mp (show s.workers[i]?.map _ = _ from he)
  obtain rfl := Option.some.inj h
  have hbuf : (s.workerRelease i).recvLetter = s.recvLetter := by
    funext b
    simp [workerRelease, hw, recvLetter]
  have hreplies : (s.workerRelease i).replies = s.replies := by
    simp only [replies, workerRelease, hw]
    exact filterMap_eraseIdx_none hw (by simp [replyOf, hstage])
  have hsend : (s.workerRelease i).sendLetter = s.sendLetter := by
    funext b
    simp [workerRelease, hw, sendLetter]
  simp only [desk, hlist, hbuf, htaken, hreplies, hsend]

theorem step_packetsApart (hd : s.PacketsApart) (hs : s.RecvApart) (hp : s.ClientPointers)
    (h : s.next e = some t) : t.PacketsApart := by
  unfold PacketsApart at hd ⊢
  cases hdesk : e.atDesk with
  | false =>
    obtain ⟨hlist, hworkers, -⟩ := elsewhere hdesk h
    rwa [hlist, jobs, hworkers]
  | true =>
    cases e with
    | read c env =>
      obtain rfl := Option.some.inj h
      obtain ⟨hmove, hjobs⟩ := s.read_move c env.now env.recv env.currTime
      rw [hjobs]
      have fresh {b : BufId} (hlist : b ∉ s.recvQueue.recvMsgList) (hjob : b ∉ s.jobs) :
          (s.recvQueue.recvMsgList ++ [b] ++ s.jobs).Nodup := by
        rw [List.append_assoc]
        refine List.nodup_middle.mpr (List.nodup_cons.mpr ⟨?_, hd⟩)
        rw [List.mem_append, not_or]
        exact ⟨hlist, hjob⟩
      rcases hmove with ⟨-, hl, -⟩ | ⟨-, hl, -⟩ | ⟨-, hl, -⟩ | ⟨-, hl, -⟩ | ⟨b, -, hl, -, hb, -⟩ |
        ⟨b, -, hl, -⟩
      all_goals rw [hl]
      · exact hd
      · exact hd
      · exact fresh (fun hm => (hp.recv.list _ hm).false) fun hm => (hp.recv.jobs _ hm).false
      · exact hd
      · exact fresh (hs.own c b hb).1 (hs.own c b hb).2
      · exact hd
    | take =>
      obtain rfl := Option.some.inj h
      cases hl : s.recvQueue.recvMsgList with
      | nil => simpa [takeRecvMsg, hl] using hd
      | cons b rest =>
        rw [hl] at hd
        simp only [takeRecvMsg, hl, jobs, List.map_append, List.map_cons, List.map_nil]
        rw [← List.append_assoc]
        exact (List.perm_append_singleton b _).symm.nodup hd
    | handle i now =>
      obtain rfl | ⟨w, u, r, -, ⟨m, m', x, rfl, -⟩, rfl⟩ := workerHandle_cases h
      · exact hd
      · rw [jobs_setStage]
        exact hd
    | push i now =>
      obtain ⟨rfl, -⟩ | ⟨b, u, -, hu, rfl⟩ := workerPush_cases h
      · exact hd
      · obtain ⟨hq, hws⟩ := push_recv hu
        rw [jobs_setStage]
        simpa [setStage, jobs, hq, hws] using hd
    | release i =>
      obtain rfl := Option.some.inj h
      unfold workerRelease
      split
      · exact hd
      · refine hd.sublist (List.Sublist.append_left ?_ _)
        exact (List.eraseIdx_sublist ..).map _
    | _ => cases hdesk

structure Accounted (s : Server) (hist : List (DeskEvent Letter)) : Prop where
  conserved : (Desk.receivedOf hist.reverse : Multiset Letter) =
    Desk.answeredOf hist.reverse + Desk.droppedOf hist.reverse + s.desk.pending
  answered : ∀ x ∈ Desk.answeredOf hist.reverse, x.Answerable
  dropped : ∀ x ∈ Desk.droppedOf hist.reverse, ¬ x.Answerable
  owed : (((Desk.receivedOf hist.reverse).filter Letter.Answerable : List Letter) :
    Multiset Letter) = Desk.answeredOf hist.reverse + s.desk.pending.filter Letter.Answerable
  ordered : s.config.procMsgRecvWorkThreadCount = 1 →
    (Desk.answeredOf hist.reverse).Sublist (Desk.receivedOf hist.reverse)

/-- A step is one at the desk, or happens elsewhere. -/
theorem step_desk (hd : s.PacketsApart) (hs : s.RecvApart) (hp : s.ClientPointers)
    (hsize : ∀ x ∈ s.desk.inHand, lenPkgHeader ≤ x.len) (he : s.Enabled e)
    (h : s.next e = some t) :
    s.deskEvents e = [] ∧ t.desk = s.desk ∨ ∃ x, s.deskEvents e = [x] ∧ x.Genuine ∧
      (Desk.runs Letter (s.config.procMsgRecvWorkThreadCount = 1)).step s.desk x t.desk := by
  cases hdesk : e.atDesk with
  | false =>
    obtain ⟨hlist, hworkers, hbuf⟩ := elsewhere hdesk h
    refine Or.inl ⟨?_, desk_congr hp (step_keepsMail h) hlist hworkers hbuf⟩
    cases e <;> first | rfl | cases hdesk
  | true =>
    cases e with
    | read c env =>
      rcases read_desk hs hp he h with hno | ⟨x, hx, hlen, ht⟩
      · exact Or.inl hno
      · exact Or.inr ⟨_, hx, hlen, by simp, ht ▸ .received x⟩
    | take =>
      obtain ⟨x, w, hwaiting, ht⟩ := take_desk he h
      refine Or.inr ⟨.taken, rfl, trivial, fun hone _ => ?_, ?_⟩
      · have hnil : s.workers = [] := by
          have := he.2
          rw [hone] at this
          exact List.eq_nil_of_length_eq_zero (by omega)
        simp [desk, takenJobs, replies, hnil]
      · have hdesk' : s.desk = ⟨x :: w, s.desk.inHand, s.desk.composed⟩ := by rw [← hwaiting]
        rw [ht, hdesk']
        exact .taken x
    | handle i now =>
      obtain ⟨x, m, hhand, hcase⟩ := handle_desk hp hd hsize he h
      have hdesk' : s.desk = ⟨s.desk.waiting, x ::ₘ m, s.desk.composed⟩ := by rw [← hhand]
      rcases hcase with ⟨hx, hans, ht⟩ | ⟨hx, hans, ht⟩
      · refine Or.inr ⟨_, hx, hans, by simp, ?_⟩
        rw [ht, hdesk']
        exact .composed x
      · refine Or.inr ⟨_, hx, hans, by simp, ?_⟩
        rw [ht, hdesk']
        exact .dropped x
    | push i now =>
      obtain ⟨x, m, hx, hcomposed, ht⟩ := push_desk hp he h
      have hdesk' : s.desk = ⟨s.desk.waiting, s.desk.inHand, x ::ₘ m⟩ := by rw [← hcomposed]
      refine Or.inr ⟨_, hx, trivial, by simp, ?_⟩
      rw [ht, hdesk']
      exact .answered x
    | release i => exact Or.inl ⟨rfl, release_desk he h⟩
    | _ => cases hdesk

/-- Every run of the process is one of the desk. -/
theorem run_desk {es : List Event} (hr : (process.record deskEvents).Run es (s, hist)) :
    (Desk.runs Letter (s.config.procMsgRecvWorkThreadCount = 1)).Run hist.reverse s.desk ∧
      s.PacketsApart ∧ ∀ x ∈ hist, x.Genuine := by
  refine hr.trace_invariant (I := fun _ (p : Server × List (DeskEvent Letter)) =>
    (Desk.runs Letter (p.1.config.procMsgRecvWorkThreadCount = 1)).Run p.2.reverse p.1.desk ∧
      p.1.PacketsApart ∧ ∀ x ∈ p.2, x.Genuine) ?_ ?_
  · rintro ⟨s, hist⟩ ⟨hb, rfl⟩
    have hno : s.NoBuffers := noBuffers_boot hb
    refine ⟨.start ?_, ?_, by simp⟩
    · simp [Desk.runs, desk, takenJobs, replies, hno.recvList, hno.workers]
    · simp [PacketsApart, jobs, hno.recvList, hno.workers]
  · rintro es ⟨s, hist⟩ e ⟨t, hist'⟩ hrun ⟨ih, hd, hgen⟩ ⟨⟨he, ht⟩, rfl⟩
    have hs := run_recvApart hrun.of_record
    have hp := run_clientPointers hrun.of_record
    have hsize : ∀ x ∈ s.desk.inHand, lenPkgHeader ≤ x.len := by
      intro x hx
      have hrec := Desk.received_of_pending ih (x := x) (by simp [Desk.pending, hx])
      obtain ⟨y, hy, hxy⟩ := List.mem_filterMap.mp hrec
      cases y with
      | received y =>
        obtain rfl := Option.some.inj hxy
        exact hgen _ (List.mem_reverse.mp hy)
      | _ => cases hxy
    have hcfg : t.config = s.config := step_config ht
    refine ⟨?_, step_packetsApart hd hs hp ht, ?_⟩
    · rw [hcfg]
      rcases step_desk hd hs hp hsize he ht with ⟨hno, hdesk⟩ | ⟨x, hx, -, hstep⟩
      · simpa [hno, hdesk] using ih
      · simpa [hx] using ih.step hstep
    · rcases step_desk hd hs hp hsize he ht with ⟨hno, -⟩ | ⟨x, hx, hgenuine, -⟩
      · simpa [hno] using hgen
      · simpa [hx, hgenuine] using hgen

/-- Every run of the process is one of the desk. Every packet received waits, is in a worker's
hands, or has been answered or dropped, once; the answerable ones are answered and no others, and a
single worker answers them in their order. -/
theorem packets_accounted {es : List Event} (hr : (process.record deskEvents).Run es (s, hist)) :
    (Desk.runs Letter (s.config.procMsgRecvWorkThreadCount = 1)).Run hist.reverse s.desk ∧
      s.Accounted hist := by
  obtain ⟨hrun, -, hgen⟩ := run_desk hr
  have hgenuine {x : DeskEvent Letter} (hx : x ∈ hist.reverse) : x.Genuine :=
    hgen x (List.mem_reverse.mp hx)
  have hanswered : ∀ x ∈ Desk.answeredOf hist.reverse, x.Answerable := fun x hx =>
    Desk.composed_only hrun (fun y hy => hgenuine hy) x (Or.inr hx)
  have hdropped : ∀ x ∈ Desk.droppedOf hist.reverse, ¬ x.Answerable := by
    intro x hx
    obtain ⟨y, hy, hxy⟩ := List.mem_filterMap.mp hx
    cases y with
    | dropped y =>
      obtain rfl := Option.some.inj hxy
      exact hgenuine hy
    | _ => cases hxy
  refine ⟨hrun, ?_⟩
  exact {
    conserved := Desk.conserved hrun
    answered := hanswered
    dropped := hdropped
    owed := Desk.conserved_filter hrun _ hanswered hdropped
    ordered := fun hone => Desk.ordered (by rwa [eq_true hone] at hrun) }

/-- A client's heartbeat is answered, and nothing is left on the desk. -/
theorem packets_accounted_heartbeat : ∃ s : Server,
    (Desk.runs Letter (s.config.procMsgRecvWorkThreadCount = 1)).Run
      [.received ⟨⟨1, 2⟩, 0, 8⟩, .taken, .composed ⟨⟨1, 2⟩, 0, 8⟩, .answered ⟨⟨1, 2⟩, 0, 8⟩]
        s.desk ∧
    s.Accounted
      [.answered ⟨⟨1, 2⟩, 0, 8⟩, .composed ⟨⟨1, 2⟩, 0, 8⟩, .taken, .received ⟨⟨1, 2⟩, 0, 8⟩] := by
  obtain ⟨⟨s, hist⟩, hrun, hs⟩ := process_record_of_play (fun _ _ => True) deskEvents smallConfig
    (suspendedReply.take 5) (fun p => p.2)
    [.answered ⟨⟨1, 2⟩, 0, 8⟩, .composed ⟨⟨1, 2⟩, 0, 8⟩, .taken, .received ⟨⟨1, 2⟩, 0, 8⟩]
    (by decide)
  obtain rfl : hist = _ := hs
  exact ⟨s, packets_accounted hrun.of_restrict_record⟩

end Server
end XiaoHGServer
