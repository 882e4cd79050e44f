import XiaoHGServer.Library.Frames
import XiaoHGServer.Model.Steps

/-!
# Packet framing

The read handler cuts a byte stream into packets. The stream arrives in pieces of
the kernel's choosing, the handler stores them through a moving pointer into the
header array or into a message buffer, and the packets it hands over are the
frames of the stream. Between two of its calls the rest of the process may do
anything that leaves the receive state of the connection alone.
-/

namespace XiaoHGServer

def bigEndian (bs : List Byte) : ℕ := 256 * (bs.getD 0 0).toNat + (bs.getD 1 0).toNat

/-- The packets of a stream: `PkgLength` counts header and body, and a header whose
`PkgLength` is out of range is skipped. -/
def packetFormat : FrameFormat Byte where
  headerLen := lenPkgHeader
  frameLen h :=
    if bigEndian h < lenPkgHeader ∨ pkgMaxLength < bigEndian h then none else some (bigEndian h)
  headerLen_pos := by decide
  headerLen_le h n hn := by
    split_ifs at hn with hc
    obtain rfl := Option.some.inj hn
    exact Nat.le_of_not_lt fun hlt => hc (Or.inl hlt)

theorem pkgLength_eq_bigEndian (pkg : List Byte) : pkgLength pkg = bigEndian pkg :=
  ntohs_loadShort pkg 0

theorem packetFormat_frameLen (h : List Byte) :
    packetFormat.frameLen h =
      if pkgLength h < lenPkgHeader ∨ pkgMaxLength < pkgLength h then none
      else some (pkgLength h) := by
  rw [pkgLength_eq_bigEndian]
  rfl

theorem pkgLength_take {pkg : List Byte} {n : ℕ} (hn : 2 ≤ n) :
    pkgLength (pkg.take n) = pkgLength pkg :=
  pkgLength_congr (by rw [List.take_take, Nat.min_eq_left hn])

namespace Server

/-- The bytes of the unfinished header or packet of connection `c`. -/
def pending (s : Server) (c : ConnId) : List Byte :=
  match (s.conn c).recv.pRecvMsgBuff with
  | .dataHeadInfo off => (s.conn c).recv.dataHeadInfo.take off
  | .packet b off => (s.recvQueue.mem.buffer b).pkg.take off

/-- The packets that the receive list of `t` has in addition to that of `s`. -/
def handed (s t : Server) : List (List Byte) :=
  (t.recvQueue.recvMsgList.drop s.recvQueue.recvMsgList.length).map t.recvPkg

/-- `off` bytes of a packet header are in. -/
structure HeaderWindow (s : Server) (c : ConnId) (off : ℕ) : Prop where
  status : (s.conn c).recv.recvMsgCurStatus = .pkgHdInit ∧ off = 0 ∨
    (s.conn c).recv.recvMsgCurStatus = .pkgHdRecving
  ptr : (s.conn c).recv.pRecvMsgBuff = .dataHeadInfo off
  len : (s.conn c).recv.recvMsgLen + off = lenPkgHeader
  off_lt : off < lenPkgHeader
  array : (s.conn c).recv.dataHeadInfo.length = msgHeaderLen

/-- `off` bytes of the packet in buffer `b` are in, its header among them. -/
structure BodyWindow (s : Server) (c : ConnId) (b : BufId) (off : ℕ) : Prop where
  status : (s.conn c).recv.recvMsgCurStatus = .pkgBdInit ∨
    (s.conn c).recv.recvMsgCurStatus = .pkgBdRecving
  ptr : (s.conn c).recv.pRecvMsgBuff = .packet b off
  mem : (s.conn c).recv.pRecvMsgMemPointer = some b
  len : (s.conn c).recv.recvMsgLen + off = pkgLength (s.recvPkg b)
  header : lenPkgHeader ≤ off
  off_lt : off < pkgLength (s.recvPkg b)
  max : pkgLength (s.recvPkg b) ≤ pkgMaxLength
  size : (s.recvPkg b).length = pkgLength (s.recvPkg b)
  array : (s.conn c).recv.dataHeadInfo.length = msgHeaderLen

/-- Pointer, remaining length and stored bytes agree. -/
def Window (s : Server) (c : ConnId) : Prop :=
  (∃ off, s.HeaderWindow c off) ∨ ∃ b off, s.BodyWindow c b off

variable {s t : Server} {c : ConnId} {b : BufId} {off : ℕ} {chunk : List Byte} {now : ℤ}
  {currTime : ℕ}

/-- The flood state after the check that follows a complete packet, and `bIsFlood`. -/
def floodVerdict (s : Server) (c : ConnId) (currTime : ℕ) : FloodState × Bool :=
  if s.config.floodAttackEnable = 1 then
    (s.floodAfter c currTime,
      s.config.floodKickCount ≤ (s.floodAfter c currTime).floodAttackCount)
  else ((s.conn c).flood, false)

theorem floodCheck_eq : s.floodCheck c false currTime =
    (s.modifyConn c fun k => { k with flood := (s.floodVerdict c currTime).1 },
      (s.floodVerdict c currTime).2) := by
  unfold floodCheck floodVerdict
  split
  · rfl
  · simp [modifyConn]

theorem floodVerdict_congr (hcfg : t.config = s.config)
    (hflood : (t.conn c).flood = (s.conn c).flood) :
    t.floodVerdict c currTime = s.floodVerdict c currTime := by
  have hafter : t.floodAfter c currTime = s.floodAfter c currTime := by
    unfold floodAfter
    rw [hcfg, hflood]
  unfold floodVerdict
  rw [hafter, hcfg, hflood]

theorem expectHeader_window (harr : (s.conn c).recv.dataHeadInfo.length = msgHeaderLen) :
    (s.expectHeader c).HeaderWindow c 0 ∧ (s.expectHeader c).pending c = [] := by
  have hr : ((s.expectHeader c).conn c).recv = { (s.conn c).recv with
      recvMsgCurStatus := .pkgHdInit
      pRecvMsgBuff := .dataHeadInfo 0
      recvMsgLen := lenPkgHeader } := by
    simp [expectHeader]
  refine ⟨⟨Or.inl ⟨?_, rfl⟩, ?_, ?_, by decide, ?_⟩, ?_⟩
  · rw [hr]
  · rw [hr]
  · rw [hr]
    rfl
  · rw [hr]
    exact harr
  · simp only [pending, hr, List.take_zero]

/-- A complete packet leaves the connection: it goes to the receive list, unless it is flood. -/
theorem recvMsgPacketParseProc_window (harr : (s.conn c).recv.dataHeadInfo.length = msgHeaderLen)
    (hptr : (s.conn c).recv.pRecvMsgMemPointer = some b) (bIsFlood : Bool) :
    let t := s.recvMsgPacketParseProc c bIsFlood
    (t.conn c).flood = (s.conn c).flood ∧ t.HeaderWindow c 0 ∧ t.pending c = [] ∧
      handed s t = if bIsFlood then [] else [s.recvPkg b] := by
  cases bIsFlood with
  | false =>
    have hform : s.recvMsgPacketParseProc c false =
        (s.pushRecvMsgToRecvListAndCond b).expectHeader c := by
      simp [recvMsgPacketParseProc, hptr]
    obtain ⟨hw, hp⟩ := expectHeader_window (s := s.pushRecvMsgToRecvListAndCond b) harr
    rw [hform]
    refine ⟨by simp [expectHeader, pushRecvMsgToRecvListAndCond], hw, hp, ?_⟩
    have hlist : ((s.pushRecvMsgToRecvListAndCond b).expectHeader c).recvQueue.recvMsgList =
        s.recvQueue.recvMsgList ++ [b] := rfl
    rw [handed, hlist, List.drop_left]
    rfl
  | true =>
    set u := { s with recvQueue := { s.recvQueue with
      mem := s.recvQueue.mem.freeMemory (s.conn c).recv.pRecvMsgMemPointer } } with hu
    have hform : s.recvMsgPacketParseProc c true = u.expectHeader c := by
      simp [recvMsgPacketParseProc, hu]
    obtain ⟨hw, hp⟩ := expectHeader_window (s := u) harr
    rw [hform]
    exact ⟨by simp [expectHeader, hu], hw, hp, by simp [handed, expectHeader, hu]⟩

theorem allocRecvBuffer_pkg {n : ℕ} (hn : lenPkgHeader ≤ n)
    (harr : (s.conn c).recv.dataHeadInfo.length = msgHeaderLen) :
    ((s.allocRecvBuffer c n).recvPkg s.recvQueue.mem.next).length = n ∧
      ((s.allocRecvBuffer c n).recvPkg s.recvQueue.mem.next).take lenPkgHeader =
        (s.conn c).recv.dataHeadInfo.take lenPkgHeader := by
  have hhead : ((s.conn c).recv.dataHeadInfo.take lenPkgHeader).length = lenPkgHeader := by
    rw [List.length_take, harr]
    rfl
  have hpkg : (s.allocRecvBuffer c n).recvPkg s.recvQueue.mem.next =
      writeAt ((List.range n).map (s.recvQueue.mem.stale s.recvQueue.mem.next)) 0
        ((s.conn c).recv.dataHeadInfo.take lenPkgHeader) := by
    simp [allocRecvBuffer, recvPkg]
  have hfit : 0 + ((s.conn c).recv.dataHeadInfo.take lenPkgHeader).length ≤
      ((List.range n).map (s.recvQueue.mem.stale s.recvQueue.mem.next)).length := by
    simpa [hhead] using hn
  constructor
  · rw [hpkg, length_writeAt hfit]
    simp
  · have htake := take_writeAt hfit
    rw [hpkg]
    simpa [hhead] using htake

namespace HeaderWindow

theorem pending_eq (h : s.HeaderWindow c off) :
    s.pending c = (s.conn c).recv.dataHeadInfo.take off := by
  simp only [pending, h.ptr]

theorem length_pending (h : s.HeaderWindow c off) : (s.pending c).length = off := by
  have := h.off_lt
  rw [h.pending_eq, List.length_take, h.array, Nat.min_eq_left]
  exact (Nat.le_of_lt h.off_lt).trans (by decide)

theorem storeRecv_eq (h : s.HeaderWindow c off) :
    s.storeRecv c chunk = s.modifyConn c fun k => { k with recv := { k.recv with
      dataHeadInfo := writeAt k.recv.dataHeadInfo off chunk } } := by
  simp only [storeRecv, h.ptr]

theorem logCall (h : s.HeaderWindow c off) (call : SysCall) : (s.logCall call).HeaderWindow c off :=
  ⟨h.status, h.ptr, h.len, h.off_lt, h.array⟩

theorem stored (h : s.HeaderWindow c off) (hlen : off + chunk.length ≤ lenPkgHeader) :
    let t := (s.logCall (.recv c (s.conn c).sockFd (s.conn c).recv.recvMsgLen)).storeRecv c chunk
    t.recvQueue = s.recvQueue ∧ (t.config = s.config ∧ (t.conn c).flood = (s.conn c).flood) ∧
      (t.conn c).recv = { (s.conn c).recv with
        dataHeadInfo := writeAt (s.conn c).recv.dataHeadInfo off chunk } ∧
      (t.conn c).recv.dataHeadInfo.length = msgHeaderLen ∧
      (t.conn c).recv.dataHeadInfo.take (off + chunk.length) = s.pending c ++ chunk := by
  have hfit : off + chunk.length ≤ (s.conn c).recv.dataHeadInfo.length := by
    rw [h.array]
    exact hlen.trans (by decide)
  simp only [(h.logCall _).storeRecv_eq, h.pending_eq]
  refine ⟨rfl, ⟨rfl, by simp⟩, by simp, ?_, ?_⟩
  · simp [length_writeAt hfit, h.array]
  · simp [take_writeAt hfit]

theorem more (h : s.HeaderWindow c off) (currTime : ℕ) (hne : chunk ≠ [])
    (hlt : off + chunk.length < lenPkgHeader) :
    ∃ t, s.readBase c (.data chunk) currTime = (t, false) ∧
      (t.conn c).flood = (s.conn c).flood ∧ t.HeaderWindow c (off + chunk.length) ∧
      t.pending c = s.pending c ++ chunk ∧ handed s t = [] := by
  obtain ⟨hq, ⟨-, hflood⟩, hrecv, harr, htake⟩ := h.stored hlt.le
  set u := (s.logCall (.recv c (s.conn c).sockFd (s.conn c).recv.recvMsgLen)).storeRecv c chunk
    with hu
  have hpos : 0 < chunk.length := List.length_pos_of_ne_nil hne
  have hlen := h.len
  have hadv : u.recvAdvance c chunk.length currTime =
      (u.advanceRecv c .pkgHdRecving chunk.length, false) := by
    rcases h.status with ⟨hst, -⟩ | hst
    · simp only [recvAdvance, hrecv, hst]
      exact if_neg (by omega)
    · simp only [recvAdvance, hrecv, hst]
      exact if_neg (by omega)
  refine ⟨_, hadv, by simpa [advanceRecv] using hflood, ?_⟩
  have ht : ((u.advanceRecv c .pkgHdRecving chunk.length).conn c).recv =
      { (u.conn c).recv with
        recvMsgCurStatus := .pkgHdRecving
        pRecvMsgBuff := .dataHeadInfo (off + chunk.length)
        recvMsgLen := (s.conn c).recv.recvMsgLen - chunk.length } := by
    have hsub : sub16 (s.conn c).recv.recvMsgLen chunk.length =
        (s.conn c).recv.recvMsgLen - chunk.length := by
      apply sub16_of_le
      · have : lenPkgHeader < 2 ^ 16 := by decide
        omega
      · omega
    simp [advanceRecv, hrecv, h.ptr, RecvPtr.add, hsub]
  refine ⟨⟨?_, ?_, ?_, hlt, ?_⟩, ?_, ?_⟩
  · exact Or.inr (by rw [ht])
  · rw [ht]
  · rw [ht]
    simp only
    omega
  · rw [ht]
    exact harr
  · simp only [pending, ht, htake]
  · simp [handed, advanceRecv, hq]

theorem recvAdvance_complete (h : s.HeaderWindow c off)
    (heq : off + chunk.length = lenPkgHeader) {u : Server}
    (hu : (u.conn c).recv = { (s.conn c).recv with
      dataHeadInfo := writeAt (s.conn c).recv.dataHeadInfo off chunk }) :
    u.recvAdvance c chunk.length currTime = u.recvMsgHeaderParseProc c false currTime := by
  have hlen := h.len
  rcases h.status with ⟨hst, h0⟩ | hst
  · simp only [recvAdvance, hu, hst]
    exact if_pos (by omega)
  · simp only [recvAdvance, hu, hst]
    exact if_pos (by omega)

theorem skip (h : s.HeaderWindow c off) (currTime : ℕ)
    (heq : off + chunk.length = lenPkgHeader)
    (hbad : pkgLength (s.pending c ++ chunk) < lenPkgHeader ∨
      pkgMaxLength < pkgLength (s.pending c ++ chunk)) :
    ∃ t, s.readBase c (.data chunk) currTime = (t, false) ∧
      (t.conn c).flood = (s.conn c).flood ∧ t.HeaderWindow c 0 ∧ t.pending c = [] ∧
      handed s t = [] := by
  obtain ⟨hq, ⟨-, hflood⟩, hrecv, harr, htake⟩ := h.stored heq.le
  set u := (s.logCall (.recv c (s.conn c).sockFd (s.conn c).recv.recvMsgLen)).storeRecv c chunk
  have hpkg : pkgLength (u.conn c).recv.dataHeadInfo = pkgLength (s.pending c ++ chunk) := by
    rw [← htake, heq, pkgLength_take (by decide)]
  have hadv : u.recvAdvance c chunk.length currTime = (u.expectHeader c, false) := by
    rw [h.recvAdvance_complete heq hrecv, recvMsgHeaderParseProc]
    simp only [hpkg]
    exact if_pos hbad
  obtain ⟨hw, hp⟩ := expectHeader_window harr
  exact ⟨_, hadv, by simpa [expectHeader] using hflood, hw, hp, by simp [handed, expectHeader, hq]⟩

/-- A piece that completes the header of a packet without a body: the packet is handed over,
unless it is flood. -/
theorem emit (h : s.HeaderWindow c off) (currTime : ℕ)
    (heq : off + chunk.length = lenPkgHeader)
    (hlen : pkgLength (s.pending c ++ chunk) = lenPkgHeader) :
    ∃ t, s.readBase c (.data chunk) currTime = (t, (s.floodVerdict c currTime).2) ∧
      (t.conn c).flood = (s.floodVerdict c currTime).1 ∧ t.HeaderWindow c 0 ∧
      t.pending c = [] ∧
      handed s t = if (s.floodVerdict c currTime).2 then [] else [s.pending c ++ chunk] := by
  obtain ⟨hq, ⟨hcfg, hflood⟩, hrecv, harr, htake⟩ := h.stored heq.le
  set u := (s.logCall (.recv c (s.conn c).sockFd (s.conn c).recv.recvMsgLen)).storeRecv c chunk
  have hpkg : pkgLength (u.conn c).recv.dataHeadInfo = lenPkgHeader := by
    rw [← hlen, ← htake, heq, pkgLength_take (by decide)]
  let b := u.recvQueue.mem.next
  let v := u.allocRecvBuffer c lenPkgHeader
  let w := v.modifyConn c fun k => { k with flood := (s.floodVerdict c currTime).1 }
  have hverdict : v.floodVerdict c currTime = s.floodVerdict c currTime :=
    floodVerdict_congr hcfg (by simpa [v, allocRecvBuffer] using hflood)
  have hadv : u.recvAdvance c chunk.length currTime =
      (w.recvMsgPacketParseProc c (s.floodVerdict c currTime).2,
        (s.floodVerdict c currTime).2) := by
    rw [h.recvAdvance_complete heq hrecv, recvMsgHeaderParseProc]
    simp only [hpkg, lt_irrefl, false_or, if_true]
    rw [if_neg (by decide), floodCheck_eq, hverdict]
  have hptr : (w.conn c).recv.pRecvMsgMemPointer = some b := by simp [w, v, allocRecvBuffer, b]
  have harr' : (w.conn c).recv.dataHeadInfo.length = msgHeaderLen := by
    simpa [w, v, allocRecvBuffer] using harr
  have hall : w.recvPkg b = s.pending c ++ chunk := by
    obtain ⟨hsize, hhead⟩ := allocRecvBuffer_pkg (s := u) (c := c) le_rfl harr
    rw [← htake, heq, ← hhead, List.take_of_length_le hsize.le]
    rfl
  have hlist : w.recvQueue.recvMsgList = s.recvQueue.recvMsgList := by
    rw [← hq]
    rfl
  obtain ⟨hf, hw, hp, hout⟩ :=
    recvMsgPacketParseProc_window harr' hptr (s.floodVerdict c currTime).2
  rw [handed, hlist, hall] at hout
  exact ⟨_, hadv, hf.trans (by simp [w]), hw, hp, hout⟩

/-- A piece that completes the header of a packet with a body: the packet gets its buffer. -/
theorem toBody (h : s.HeaderWindow c off) (currTime : ℕ)
    (heq : off + chunk.length = lenPkgHeader)
    (hlo : lenPkgHeader < pkgLength (s.pending c ++ chunk))
    (hhi : pkgLength (s.pending c ++ chunk) ≤ pkgMaxLength) :
    ∃ t, s.readBase c (.data chunk) currTime = (t, false) ∧
      (t.conn c).flood = (s.conn c).flood ∧
      t.BodyWindow c s.recvQueue.mem.next lenPkgHeader ∧ t.pending c = s.pending c ++ chunk ∧
      handed s t = [] := by
  obtain ⟨hq, ⟨-, hflood⟩, hrecv, harr, htake⟩ := h.stored heq.le
  set u := (s.logCall (.recv c (s.conn c).sockFd (s.conn c).recv.recvMsgLen)).storeRecv c chunk
  set n := pkgLength (s.pending c ++ chunk) with hn
  have hpkg : pkgLength (u.conn c).recv.dataHeadInfo = n := by
    rw [hn, ← htake, heq, pkgLength_take (by decide)]
  let b := u.recvQueue.mem.next
  let v := u.allocRecvBuffer c n
  let t := v.modifyConn c fun k => { k with recv := { k.recv with
    recvMsgCurStatus := .pkgBdInit
    pRecvMsgBuff := .packet b lenPkgHeader
    recvMsgLen := u16 (n - lenPkgHeader) } }
  have hadv : u.recvAdvance c chunk.length currTime = (t, false) := by
    rw [h.recvAdvance_complete heq hrecv, recvMsgHeaderParseProc]
    simp only [hpkg]
    rw [if_neg (by omega), if_neg (by omega)]
  refine ⟨t, hadv, by simpa [t, v, allocRecvBuffer] using hflood, ?_⟩
  obtain ⟨hsize, hhead⟩ := allocRecvBuffer_pkg (s := u) (c := c) hlo.le harr
  have hrec : (t.conn c).recv = { (u.conn c).recv with
      recvMsgCurStatus := .pkgBdInit
      pRecvMsgBuff := .packet b lenPkgHeader
      recvMsgLen := u16 (n - lenPkgHeader)
      pRecvMsgMemPointer := some b } := by
    simp [t, v, b, allocRecvBuffer]
  have hb : b = s.recvQueue.mem.next := by simp only [b, hq]
  have hpkgt : (t.recvPkg b).take lenPkgHeader = s.pending c ++ chunk := by
    rw [← htake, heq]
    exact hhead
  have hlent : pkgLength (t.recvPkg b) = n := by
    rw [hn, ← hpkgt, pkgLength_take (by decide)]
  have hmax : pkgMaxLength < 2 ^ 16 := by decide
  rw [← hb]
  refine ⟨⟨Or.inl ?_, ?_, ?_, ?_, le_rfl, ?_, ?_, ?_, ?_⟩, ?_, ?_⟩
  · rw [hrec]
  · rw [hrec]
  · rw [hrec]
  · rw [hrec, hlent]
    simp only [u16_of_lt (show n - lenPkgHeader < 2 ^ 16 by omega)]
    omega
  · rwa [hlent]
  · rwa [hlent]
  · rw [hlent]
    exact hsize
  · rw [hrec]
    exact harr
  · simp only [pending, hrec]
    exact hpkgt
  · simp only [handed, t, v, modifyConn_recvQueue, allocRecvBuffer, hq]
    simp

end HeaderWindow

namespace BodyWindow

theorem pending_eq (h : s.BodyWindow c b off) : s.pending c = (s.recvPkg b).take off := by
  simp only [pending, h.ptr, recvPkg]

theorem stored (h : s.BodyWindow c b off)
    (hlen : off + chunk.length ≤ pkgLength (s.recvPkg b)) :
    let t := (s.logCall (.recv c (s.conn c).sockFd (s.conn c).recv.recvMsgLen)).storeRecv c chunk
    t.conn = s.conn ∧ t.config = s.config ∧
      t.recvQueue.recvMsgList = s.recvQueue.recvMsgList ∧
      (t.recvPkg b).length = pkgLength (s.recvPkg b) ∧
      pkgLength (t.recvPkg b) = pkgLength (s.recvPkg b) ∧
      (t.recvPkg b).take (off + chunk.length) = s.pending c ++ chunk := by
  have hfit : off + chunk.length ≤ (s.recvPkg b).length := by rwa [h.size]
  have hstore : (s.logCall (.recv c (s.conn c).sockFd (s.conn c).recv.recvMsgLen)).storeRecv c
      chunk = { s.logCall (.recv c (s.conn c).sockFd (s.conn c).recv.recvMsgLen) with
        recvQueue := { s.recvQueue with mem := s.recvQueue.mem.modify b fun m =>
          { m with pkg := writeAt m.pkg off chunk } } } := by
    simp only [storeRecv, logCall_conn, logCall_recvQueue, h.ptr]
  rw [hstore]
  have hpkg : (s.recvQueue.mem.modify b fun m =>
      { m with pkg := writeAt m.pkg off chunk }).buffer b =
        { s.recvQueue.mem.buffer b with pkg := writeAt (s.recvPkg b) off chunk } := by
    simp [recvPkg]
  have htake := take_writeAt hfit
  have hhead : (writeAt (s.recvPkg b) off chunk).take 2 = (s.recvPkg b).take 2 := by
    have h2 : 2 ≤ off := le_trans (by decide) h.header
    have h2' : 2 ≤ ((s.recvPkg b).take off).length := by
      rw [List.length_take, h.size]
      have := h.off_lt
      omega
    have := congrArg (List.take 2) htake
    rwa [List.take_take, Nat.min_eq_left (by omega), List.take_append_of_le_length h2',
      List.take_take, Nat.min_eq_left h2] at this
  refine ⟨rfl, rfl, rfl, ?_, ?_, ?_⟩
  · simp only [recvPkg, hpkg]
    exact (length_writeAt hfit).trans h.size
  · simp only [recvPkg, hpkg]
    exact pkgLength_congr hhead
  · simp only [recvPkg, hpkg, h.pending_eq]
    exact htake

theorem more (h : s.BodyWindow c b off) (currTime : ℕ) (hne : chunk ≠ [])
    (hlt : off + chunk.length < pkgLength (s.recvPkg b)) :
    ∃ t, s.readBase c (.data chunk) currTime = (t, false) ∧
      (t.conn c).flood = (s.conn c).flood ∧ t.BodyWindow c b (off + chunk.length) ∧
      t.pending c = s.pending c ++ chunk ∧ handed s t = [] := by
  obtain ⟨hconn, -, hlist, hsize, hpkg, htake⟩ := h.stored hlt.le
  set u := (s.logCall (.recv c (s.conn c).sockFd (s.conn c).recv.recvMsgLen)).storeRecv c chunk
  have hpos : 0 < chunk.length := List.length_pos_of_ne_nil hne
  have hlen := h.len
  have hmax := h.max
  have hbound : pkgMaxLength < 2 ^ 16 := by decide
  have hadv : u.recvAdvance c chunk.length currTime =
      (u.advanceRecv c .pkgBdRecving chunk.length, false) := by
    rcases h.status with hst | hst
    · simp only [recvAdvance, hconn, hst]
      exact if_neg (by omega)
    · simp only [recvAdvance, hconn, hst]
      exact if_neg (by omega)
  refine ⟨_, hadv, by simp [advanceRecv, hconn], ?_⟩
  have ht : ((u.advanceRecv c .pkgBdRecving chunk.length).conn c).recv =
      { (s.conn c).recv with
        recvMsgCurStatus := .pkgBdRecving
        pRecvMsgBuff := .packet b (off + chunk.length)
        recvMsgLen := (s.conn c).recv.recvMsgLen - chunk.length } := by
    have hsub : sub16 (s.conn c).recv.recvMsgLen chunk.length =
        (s.conn c).recv.recvMsgLen - chunk.length := sub16_of_le (by omega) (by omega)
    simp [advanceRecv, hconn, h.ptr, RecvPtr.add, hsub]
  have hmem : (u.advanceRecv c .pkgBdRecving chunk.length).recvPkg b = u.recvPkg b := rfl
  refine ⟨⟨Or.inr ?_, ?_, ?_, ?_, ?_, ?_, ?_, ?_, ?_⟩, ?_, ?_⟩
  · rw [ht]
  · rw [ht]
  · rw [ht]
    exact h.mem
  · rw [ht, hmem, hpkg]
    simp only
    omega
  · exact h.header.trans (Nat.le_add_right _ _)
  · rwa [hmem, hpkg]
  · rwa [hmem, hpkg]
  · rw [hmem, hpkg, hsize]
  · rw [ht]
    exact h.array
  · simp only [pending, ht]
    exact htake
  · simp [handed, advanceRecv, hlist]

theorem emit (h : s.BodyWindow c b off) (currTime : ℕ)
    (heq : off + chunk.length = pkgLength (s.recvPkg b)) :
    ∃ t, s.readBase c (.data chunk) currTime = (t, (s.floodVerdict c currTime).2) ∧
      (t.conn c).flood = (s.floodVerdict c currTime).1 ∧ t.HeaderWindow c 0 ∧
      t.pending c = [] ∧
      handed s t = if (s.floodVerdict c currTime).2 then [] else [s.pending c ++ chunk] := by
  obtain ⟨hconn, hcfg, hlist, hsize, hpkg, htake⟩ := h.stored heq.le
  set u := (s.logCall (.recv c (s.conn c).sockFd (s.conn c).recv.recvMsgLen)).storeRecv c chunk
  have hlen := h.len
  let w := u.modifyConn c fun k => { k with flood := (s.floodVerdict c currTime).1 }
  have hverdict : u.floodVerdict c currTime = s.floodVerdict c currTime :=
    floodVerdict_congr hcfg (by rw [hconn])
  have hbody : u.bodyComplete c currTime =
      (w.recvMsgPacketParseProc c (s.floodVerdict c currTime).2,
        (s.floodVerdict c currTime).2) := by
    rw [bodyComplete, floodCheck_eq, hverdict]
  have hadv : u.recvAdvance c chunk.length currTime =
      (w.recvMsgPacketParseProc c (s.floodVerdict c currTime).2,
        (s.floodVerdict c currTime).2) := by
    rw [← hbody]
    rcases h.status with hst | hst
    · simp only [recvAdvance, hconn, hst]
      exact if_pos (by omega)
    · simp only [recvAdvance, hconn, hst]
      exact if_pos (by omega)
  have hptr : (w.conn c).recv.pRecvMsgMemPointer = some b := by
    simp [w, hconn, h.mem]
  have harr : (w.conn c).recv.dataHeadInfo.length = msgHeaderLen := by
    simp [w, hconn, h.array]
  have hall : w.recvPkg b = s.pending c ++ chunk := by
    rw [← htake, heq, List.take_of_length_le hsize.le]
    rfl
  obtain ⟨hf, hw, hp, hout⟩ := recvMsgPacketParseProc_window harr hptr (s.floodVerdict c currTime).2
  have hlistw : w.recvQueue.recvMsgList = s.recvQueue.recvMsgList := hlist
  rw [handed, hlistw, hall] at hout
  exact ⟨_, hadv, hf.trans (by simp [w]), hw, hp, hout⟩

end BodyWindow

/-- The request is never for zero bytes, so that an answer of zero bytes is an end of file. -/
theorem Window.recvMsgLen_pos (h : s.Window c) : 0 < (s.conn c).recv.recvMsgLen := by
  rcases h with ⟨off, h⟩ | ⟨b, off, h⟩
  · have := h.len
    have := h.off_lt
    omega
  · have := h.len
    have := h.off_lt
    omega

/-- What is left when the read handler has stored `chunk` and run its state machine: a longer
unfinished packet, or a complete one more. -/
inductive Parses (s : Server) (c : ConnId) (currTime : ℕ) (stream : List Byte)
    (out : List (List Byte)) (t : Server) (bIsFlood : Bool) : Prop
  | more : bIsFlood = false → (t.conn c).flood = (s.conn c).flood → handed s t = [] →
      packetFormat.Parsed stream out (t.pending c) → Parses s c currTime stream out t bIsFlood
  | packet (pkg : List Byte) : bIsFlood = (s.floodVerdict c currTime).2 →
      (t.conn c).flood = (s.floodVerdict c currTime).1 →
      handed s t = (if bIsFlood then [] else [pkg]) →
      packetFormat.Parsed stream (out ++ [pkg]) (t.pending c) →
        Parses s c currTime stream out t bIsFlood

/-- One call of the read handler is one step of the frame parser. -/
theorem readBase_parses {stream : List Byte} {out : List (List Byte)} (hw : s.Window c)
    (hp : packetFormat.Parsed stream out (s.pending c)) (currTime : ℕ)
    (hne : chunk ≠ []) (hle : chunk.length ≤ (s.conn c).recv.recvMsgLen) :
    let r := s.readBase c (.data chunk) currTime
    r.1.Window c ∧ s.Parses c currTime (stream ++ chunk) out r.1 r.2 := by
  rcases hw with ⟨off, hw⟩ | ⟨b, off, hw⟩
  · have hlen := hw.len
    rcases Nat.lt_or_ge (off + chunk.length) lenPkgHeader with hlt | hge
    · obtain ⟨t, ht, hflood, hw', hpend, hout⟩ := hw.more currTime hne hlt
      rw [ht]
      refine ⟨Or.inl ⟨_, hw'⟩, .more rfl hflood hout ?_⟩
      rw [hpend]
      apply hp.more
      left
      rw [List.length_append, hw.length_pending]
      exact hlt
    · have heq : off + chunk.length = lenPkgHeader := by omega
      have hhead : (s.pending c ++ chunk).length = lenPkgHeader := by
        rw [List.length_append, hw.length_pending, heq]
      have hfmt := packetFormat_frameLen (s.pending c ++ chunk)
      by_cases hbad : pkgLength (s.pending c ++ chunk) < lenPkgHeader ∨
          pkgMaxLength < pkgLength (s.pending c ++ chunk)
      · obtain ⟨t, ht, hflood, hw', hpend, hout⟩ := hw.skip currTime heq hbad
        rw [ht]
        refine ⟨Or.inl ⟨_, hw'⟩, .more rfl hflood hout ?_⟩
        rw [hpend]
        exact hp.skip hhead (hfmt.trans (if_pos hbad))
      · rw [if_neg hbad] at hfmt
        rw [not_or, not_lt, not_lt] at hbad
        have htake : (s.pending c ++ chunk).take packetFormat.headerLen = s.pending c ++ chunk :=
          List.take_of_length_le hhead.le
        rcases hbad.1.eq_or_lt with hall | hbody
        · obtain ⟨t, ht, hflood, hw', hpend, hout⟩ := hw.emit currTime heq hall.symm
          rw [ht]
          refine ⟨Or.inl ⟨_, hw'⟩, .packet _ rfl hflood hout ?_⟩
          rw [hpend]
          apply hp.emit
          rw [htake, hfmt, hhead, ← hall]
        · obtain ⟨t, ht, hflood, hw', hpend, hout⟩ := hw.toBody currTime heq hbody hbad.2
          rw [ht]
          refine ⟨Or.inr ⟨_, _, hw'⟩, .more rfl hflood hout ?_⟩
          rw [hpend]
          apply hp.more
          right
          exact ⟨_, by rw [htake, hfmt], by rw [hhead]; exact hbody⟩
  · have hlen := hw.len
    have hpkg : pkgLength (s.pending c) = pkgLength (s.recvPkg b) := by
      rw [hw.pending_eq, pkgLength_take (le_trans (by decide) hw.header)]
    have hpl : (s.pending c).length = off := by
      rw [hw.pending_eq, List.length_take, hw.size, Nat.min_eq_left hw.off_lt.le]
    have hfmt : packetFormat.frameLen ((s.pending c ++ chunk).take packetFormat.headerLen) =
        some (pkgLength (s.recvPkg b)) := by
      have hge : lenPkgHeader ≤ (s.pending c).length := hpl ▸ hw.header
      rw [show packetFormat.headerLen = lenPkgHeader from rfl,
        List.take_append_of_le_length hge, packetFormat_frameLen, pkgLength_take (by decide), hpkg,
        if_neg]
      rw [not_or, not_lt, not_lt]
      exact ⟨hw.header.trans hw.off_lt.le, hw.max⟩
    rcases Nat.lt_or_ge (off + chunk.length) (pkgLength (s.recvPkg b)) with hlt | hge
    · obtain ⟨t, ht, hflood, hw', hpend, hout⟩ := hw.more currTime hne hlt
      rw [ht]
      refine ⟨Or.inr ⟨_, _, hw'⟩, .more rfl hflood hout ?_⟩
      rw [hpend]
      apply hp.more
      right
      exact ⟨_, hfmt, by rw [List.length_append, hpl]; exact hlt⟩
    · have heq : off + chunk.length = pkgLength (s.recvPkg b) := by omega
      obtain ⟨t, ht, hflood, hw', hpend, hout⟩ := hw.emit currTime heq
      rw [ht]
      refine ⟨Or.inl ⟨_, hw'⟩, .packet _ rfl hflood hout ?_⟩
      rw [hpend]
      apply hp.emit
      rw [hfmt, List.length_append, hpl, heq]

/-- Without the flood check every packet is handed over. -/
theorem read_parsed {stream : List Byte} {out : List (List Byte)} (hw : s.Window c)
    (hp : packetFormat.Parsed stream out (s.pending c)) (hoff : s.config.floodAttackEnable ≠ 1)
    (hne : chunk ≠ []) (hle : chunk.length ≤ (s.conn c).recv.recvMsgLen) :
    let t := s.epollEventReadRequestHandler c (.data chunk) now currTime
    t.Window c ∧ packetFormat.Parsed (stream ++ chunk) (out ++ handed s t) (t.pending c) := by
  obtain ⟨hw', hparse⟩ := readBase_parses hw hp currTime hne hle
  have hverdict : (s.floodVerdict c currTime).2 = false := by
    rw [floodVerdict, if_neg hoff]
  rcases hparse with ⟨hflag, -, hout, hp'⟩ | ⟨pkg, hflag, -, hout, hp'⟩
  · simp only [read_eq, hflag, Bool.false_eq_true, if_false, hout, List.append_nil]
    exact ⟨hw', hp'⟩
  · rw [hverdict] at hflag
    simp only [read_eq, hflag, Bool.false_eq_true, if_false] at hout ⊢
    rw [hout]
    exact ⟨hw', hp'⟩

/-- The receive state of connection `c` is the same in both states, and so is the packet that
its pointer is in. -/
def SameRecv (c : ConnId) (s t : Server) : Prop :=
  (t.conn c).recv = (s.conn c).recv ∧
    ∀ b off, (s.conn c).recv.pRecvMsgBuff = .packet b off → t.recvPkg b = s.recvPkg b

end Server

def RecvRet.bytes : RecvRet → List Byte
  | .data chunk => chunk
  | _ => []

/-- A read that the connection survives: some of the requested bytes, or none for now. -/
def RecvRet.Delivers (len : ℕ) : RecvRet → Prop
  | .data chunk => 1 ≤ chunk.length ∧ chunk.length ≤ len
  | .again => True
  | .intr => True
  | _ => False

instance (len : ℕ) : (ret : RecvRet) → Decidable (ret.Delivers len)
  | .data _ => inferInstanceAs (Decidable (_ ∧ _))
  | .again => isTrue trivial
  | .intr => isTrue trivial
  | .eof => isFalse id
  | .error => isFalse id

/-- The ways to deliver a stream: connection `c` has been taken into use by `GetOneToUse`, the
read handler has since received `stream` in pieces, and has handed over the packets `out`. -/
inductive Delivery (c : ConnId) : Server → List Byte → List (List Byte) → Prop
  | start {s : Server} (k : Connection) (now : ℤ) :
    k.recv.dataHeadInfo.length = msgHeaderLen → (s.conn c).recv = (k.getOneToUse now).recv →
      Delivery c s [] []
  | call {s : Server} {stream : List Byte} {out : List (List Byte)} (ret : RecvRet) (now : ℤ)
      (currTime : ℕ) :
    Delivery c s stream out → s.config.floodAttackEnable ≠ 1 →
      ret.Delivers (s.conn c).recv.recvMsgLen →
      Delivery c (s.epollEventReadRequestHandler c ret now currTime) (stream ++ ret.bytes)
        (out ++ s.handed (s.epollEventReadRequestHandler c ret now currTime))
  | other {s t : Server} {stream : List Byte} {out : List (List Byte)} :
    Delivery c s stream out → Server.SameRecv c s t → Delivery c t stream out

namespace Server

variable {s t : Server} {c : ConnId}

theorem SameRecv.pending (h : SameRecv c s t) : t.pending c = s.pending c := by
  unfold Server.pending
  rw [h.1]
  cases hptr : (s.conn c).recv.pRecvMsgBuff with
  | dataHeadInfo off => rfl
  | packet b off =>
    have := h.2 b off hptr
    simp only [recvPkg] at this
    simp only [this]

theorem SameRecv.window (h : SameRecv c s t) (hw : s.Window c) : t.Window c := by
  rcases hw with ⟨off, hw⟩ | ⟨b, off, hw⟩
  · left
    refine ⟨off, ?_, ?_, ?_, hw.off_lt, ?_⟩ <;> rw [h.1]
    exacts [hw.status, hw.ptr, hw.len, hw.array]
  · right
    have hpkg := h.2 b off hw.ptr
    refine ⟨b, off, ?_, ?_, ?_, ?_, hw.header, ?_, ?_, ?_, ?_⟩ <;> simp only [h.1, hpkg]
    exacts [hw.status, hw.ptr, hw.mem, hw.len, hw.off_lt, hw.max, hw.size, hw.array]

theorem read_idle {ret : RecvRet} (h : ret = .again ∨ ret = .intr) (now : ℤ) (currTime : ℕ) :
    SameRecv c s (s.epollEventReadRequestHandler c ret now currTime) ∧
      handed s (s.epollEventReadRequestHandler c ret now currTime) = [] := by
  rcases h with rfl | rfl <;>
    exact ⟨⟨rfl, fun _ _ _ => rfl⟩, by simp [handed, epollEventReadRequestHandler, recvMsgProc]⟩

end Server

theorem Server.getOneToUse_window {s : Server} {c : ConnId} {k : Connection} {now : ℤ}
    (harr : k.recv.dataHeadInfo.length = msgHeaderLen)
    (hrecv : (s.conn c).recv = (k.getOneToUse now).recv) :
    s.HeaderWindow c 0 ∧ s.pending c = [] := by
  have hw : s.HeaderWindow c 0 := by
    refine ⟨Or.inl ⟨?_, rfl⟩, ?_, ?_, by decide, ?_⟩ <;> rw [hrecv]
    · rfl
    · rfl
    · rfl
    · exact harr
  exact ⟨hw, by rw [hw.pending_eq, List.take_zero]⟩

/-- In every delivery the parser and the handler agree. -/
theorem Delivery.parsed {c : ConnId} {s : Server} {stream : List Byte} {out : List (List Byte)}
    (h : Delivery c s stream out) :
    s.Window c ∧ packetFormat.Parsed stream out (s.pending c) := by
  induction h with
  | start k now harr hrecv =>
    obtain ⟨hw, hpend⟩ := Server.getOneToUse_window harr hrecv
    refine ⟨Or.inl ⟨0, hw⟩, ?_⟩
    rw [hpend]
    exact .nil
  | @call s stream out ret now currTime _ hoff hret ih =>
    have idle (h : ret = .again ∨ ret = .intr) :
        (s.epollEventReadRequestHandler c ret now currTime).Window c ∧
          packetFormat.Parsed stream
            (out ++ s.handed (s.epollEventReadRequestHandler c ret now currTime))
            ((s.epollEventReadRequestHandler c ret now currTime).pending c) := by
      obtain ⟨hsame, hnone⟩ := Server.read_idle (s := s) (c := c) h now currTime
      rw [hsame.pending, hnone, List.append_nil]
      exact ⟨hsame.window ih.1, ih.2⟩
    cases ret with
    | data chunk =>
      exact Server.read_parsed ih.1 ih.2 hoff (List.ne_nil_of_length_pos hret.1) hret.2
    | again => simpa [RecvRet.bytes] using idle (Or.inl rfl)
    | intr => simpa [RecvRet.bytes] using idle (Or.inr rfl)
    | eof => exact hret.elim
    | error => exact hret.elim
  | other _ hsame ih => exact ⟨hsame.window ih.1, hsame.pending ▸ ih.2⟩

/-- The packets handed over are the packets of the stream, however it was cut. -/
theorem delivery_framing {c : ConnId} {s : Server} {stream : List Byte} {out : List (List Byte)}
    (h : Delivery c s stream out) :
    out = packetFormat.frames stream ∧
      ∀ c' s' out', Delivery c' s' stream out' → out' = out := by
  refine ⟨h.parsed.2.frames_eq.symm, fun c' s' out' h' => ?_⟩
  rw [← h'.parsed.2.frames_eq, ← h.parsed.2.frames_eq]

/-- A header-only packet that arrives as three bytes and five bytes. -/
theorem delivery_framing_heartbeat :
    packetFormat.frames [0, 8, 0, 0, 0, 0, 0, 0] = [[0, 8, 0, 0, 0, 0, 0, 0]] := by
  have h := ((Delivery.start (c := 1) (s := Server.smallBoot Server.smallConfig) newConnection 0
    rfl rfl).call (.data [0, 8, 0]) 0 0 (by decide) (by decide)).call (.data [0, 0, 0, 0, 0]) 0 0
      (by decide) (by decide)
  exact (delivery_framing h).1.symm

end XiaoHGServer
