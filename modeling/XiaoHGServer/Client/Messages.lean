import Mathlib.Data.List.GetD
import XiaoHGServer.Model.Client
import XiaoHGServer.Worker.Protocol

/-!
# What the client sends

The client writes its messages field by field over memory that `malloc` has not
cleared. Each is a packet of one of the three kinds that the server answers, with
a checksum of whatever is in its body.
-/

namespace XiaoHGServer

section Fields

variable {mem h body data data' : List Byte} {off i n : ℕ} {w : BitVec 32}

theorem getD_writeAt (hi : i < data.length) (hle : off + data.length ≤ mem.length) :
    (writeAt mem off data).getD (off + i) 0 = data.getD i 0 := by
  have hoff : (mem.take off).length = off := List.length_take_of_le (by omega)
  rw [writeAt, List.append_assoc, List.getD_append_right _ _ _ _ (by omega), hoff,
    Nat.add_sub_cancel_left, List.getD_append _ _ _ _ hi]

theorem writeAt_writeAt (hlen : data.length = data'.length)
    (hle : off + data.length ≤ mem.length) :
    writeAt (writeAt mem off data) off data' = writeAt mem off data' := by
  have hoff : (mem.take off).length = off := List.length_take_of_le (by omega)
  have htake : (mem.take off ++ data ++ mem.drop (off + data.length)).take off = mem.take off := by
    rw [List.append_assoc]
    exact List.take_left' hoff
  have hdrop : (mem.take off ++ data ++ mem.drop (off + data.length)).drop (off + data.length) =
      mem.drop (off + data.length) :=
    List.drop_left' (by simp [hoff])
  simp only [writeAt, ← hlen, htake, hdrop]

theorem writeAt_append_left (hle : off + data.length ≤ h.length) :
    writeAt (h ++ body) off data = writeAt h off data ++ body := by
  rw [writeAt, List.take_append_of_le_length (by omega), List.drop_append_of_le_length hle,
    ← List.append_assoc]
  rfl

theorem writeAt_append_right (off : ℕ) (hlen : h.length = n) :
    writeAt (h ++ body) (n + off) data = h ++ writeAt body off data := by
  subst hlen
  rw [writeAt, List.take_length_add_append, Nat.add_assoc, List.drop_length_add_append, writeAt]
  simp only [List.append_assoc]

theorem loadShort_writeAt (hn : n < 2 ^ 16) (hle : off + 2 ≤ mem.length) :
    loadShort (writeAt mem off (storeShort n)) off = n := by
  have hget (i : ℕ) (hi : i < 2) :
      (writeAt mem off (storeShort n)).getD (off + i) 0 = (storeShort n).getD i 0 :=
    getD_writeAt (by simpa [storeShort] using hi) hle
  have h0 := hget 0 (by omega)
  rw [Nat.add_zero] at h0
  rw [loadShort, h0, hget 1 (by omega)]
  simp only [storeShort, List.getD_cons_zero, List.getD_cons_succ, BitVec.toNat_ofNat]
  omega

theorem loadInt_writeAt (hle : off + 4 ≤ mem.length) :
    loadInt (writeAt mem off (storeInt w)) off = w := by
  have hget (i : ℕ) (hi : i < 4) :
      (writeAt mem off (storeInt w)).getD (off + i) 0 = (storeInt w).getD i 0 :=
    getD_writeAt (by simpa [storeInt] using hi) hle
  have h0 := hget 0 (by omega)
  rw [Nat.add_zero] at h0
  rw [loadInt, h0, hget 1 (by omega), hget 2 (by omega), hget 3 (by omega)]
  exact loadInt_storeInt w

theorem putMsgCode_htons (hn : n < 2 ^ 16) (hle : 4 ≤ mem.length) :
    putMsgCode (putMsgCode mem n) (ntohs (loadShort (putMsgCode mem n) 2)) =
      putMsgCode mem (ntohs n) := by
  have hload : loadShort (putMsgCode mem n) 2 = n := loadShort_writeAt hn hle
  rw [hload]
  exact writeAt_writeAt rfl hle

theorem putCrc32_htonl (hle : 8 ≤ mem.length) :
    putCrc32 (putCrc32 mem w) (ntohl (loadInt (putCrc32 mem w) 4)) = putCrc32 mem (ntohl w) := by
  have hload : loadInt (putCrc32 mem w) 4 = w := loadInt_writeAt hle
  rw [hload]
  exact writeAt_writeAt rfl hle

end Fields

def TestCode.handler : TestCode → LogicHandler
  | .hbCode => .handleHeartbeat
  | .registerCode => .handleRegister
  | .linginCode => .handleLogin

section Compose

variable {body data : List Byte} {off n len code : ℕ} {w : BitVec 32} (mem : ℕ → Byte)

/-- The bytes of a header before anything is written there. -/
def rawHeader : List Byte :=
  [mem 0, mem 1, mem 2, mem 3, mem 4, mem 5, mem 6, mem 7]

/-- The bytes of a body before anything is written there. -/
def rawBody (n : ℕ) : List Byte := (List.range n).map fun i => mem (lenPkgHeader + i)

theorem length_rawBody (n : ℕ) : (rawBody mem n).length = n := by
  simp [rawBody]

theorem malloc_split (n : ℕ) : malloc mem (lenPkgHeader + n) = rawHeader mem ++ rawBody mem n := by
  rw [malloc, lenPkgHeader, List.range_add, List.map_append, List.map_map]
  rfl

/-- The header of a message with a body, before its checksum. -/
def begunHeader (len code : ℕ) : List Byte :=
  putPkgLen (putMsgCode (rawHeader mem) (ntohs code)) (ntohs len)

theorem begin_message (hcode : code < 2 ^ 16) (len : ℕ) :
    let pSendBuf := malloc mem (lenPkgHeader + n)
    let pSendBuf := putMsgCode pSendBuf code
    putPkgLen (putMsgCode pSendBuf (ntohs (loadShort pSendBuf 2))) (ntohs len) =
      begunHeader mem len code ++ rawBody mem n := by
  have hle : 4 ≤ (malloc mem (lenPkgHeader + n)).length := by
    simp only [malloc, lenPkgHeader, List.length_map, List.length_range]
    omega
  dsimp only
  rw [putMsgCode_htons hcode hle, malloc_split, putMsgCode, putPkgLen,
    writeAt_append_left (by simp [rawHeader, storeShort]),
    writeAt_append_left (by simp [rawHeader, writeAt, storeShort])]
  rfl

theorem write_body (off : ℕ) :
    writeAt (begunHeader mem len code ++ body) (lenPkgHeader + off) data =
      begunHeader mem len code ++ writeAt body off data :=
  writeAt_append_right off rfl

theorem putText_body (off : ℕ) (text : String) :
    putText (begunHeader mem len code ++ body) (lenPkgHeader + off) text =
      begunHeader mem len code ++ putText body off text :=
  write_body mem off

theorem length_putText {text : String} (h : off + text.toList.length + 1 ≤ body.length) :
    (putText body off text).length = body.length := by
  apply length_writeAt
  simpa [ascii, Nat.add_assoc] using h

theorem finish_message (hbody : body.length = n) :
    let pSendBuf := begunHeader mem len code ++ body
    let pSendBuf := putCrc32 pSendBuf (getCRC ((pSendBuf.drop lenPkgHeader).take n))
    putCrc32 pSendBuf (ntohl (loadInt pSendBuf 4)) =
      packetHeader len code (getCRC body) ++ body := by
  have hdrop : (begunHeader mem len code ++ body).drop lenPkgHeader = body := List.drop_left' rfl
  have hle : 8 ≤ (begunHeader mem len code ++ body).length := by
    rw [List.length_append]
    exact Nat.le_add_right 8 body.length
  dsimp only
  rw [hdrop, List.take_of_length_le hbody.le, putCrc32_htonl hle, putCrc32,
    writeAt_append_left (le_of_eq rfl)]
  rfl

theorem sendHeartBeatMsg_eq : sendHeartBeatMsg mem = LogicHandler.handleHeartbeat.reply [] := by
  have hload : loadInt (putCrc32 (malloc mem lenPkgHeader) 0) 4 = 0 :=
    loadInt_writeAt (le_of_eq rfl)
  have hzero : putCrc32 (putCrc32 (malloc mem lenPkgHeader) 0)
      (.ofNat 32 (ntohs (u16 (0 : BitVec 32).toNat))) = putCrc32 (malloc mem lenPkgHeader) 0 :=
    writeAt_writeAt rfl (le_of_eq rfl)
  unfold sendHeartBeatMsg
  dsimp only
  rw [hload, hzero, putMsgCode_htons (by decide)]
  · rfl
  · exact Nat.le_add_left 4 4

/-- The body of a registration: a number, a name and a password, and what `malloc` left. -/
def registerBody : List Byte :=
  putText (putText (writeAt (rawBody mem sizeofRegister) 0 (storeInt (ntohl 100))) 4
    "XiaoHG_Register") (4 + 56) "xiaohaige"

def loginBody : List Byte :=
  putText (putText (rawBody mem sizeofLogin) 0 "XiaoHG_Login") 56 "xiaohaige"

theorem length_registerBody : (registerBody mem).length = sizeofRegister := by
  have htype : (writeAt (rawBody mem sizeofRegister) 0 (storeInt (ntohl 100))).length =
      sizeofRegister := by
    rw [length_writeAt (by rw [length_rawBody]; decide), length_rawBody]
  unfold registerBody
  rw [length_putText, length_putText, htype]
  · rw [htype]
    decide
  · rw [length_putText, htype]
    · decide
    · rw [htype]
      decide

theorem length_loginBody : (loginBody mem).length = sizeofLogin := by
  unfold loginBody
  rw [length_putText, length_putText, length_rawBody]
  · rw [length_rawBody]
    decide
  · rw [length_putText, length_rawBody]
    · decide
    · rw [length_rawBody]
      decide

theorem sendRegisterMsg_eq :
    sendRegisterMsg mem = LogicHandler.handleRegister.reply (registerBody mem) := by
  have hbody : putText (putText (writeAt (begunHeader mem (lenPkgHeader + sizeofRegister)
      TestCode.registerCode.value ++ rawBody mem sizeofRegister) lenPkgHeader
        (storeInt (ntohl 100))) (lenPkgHeader + 4) "XiaoHG_Register") (lenPkgHeader + 4 + 56)
        "xiaohaige" =
      begunHeader mem (lenPkgHeader + sizeofRegister) TestCode.registerCode.value ++
        registerBody mem := by
    rw [registerBody, ← putText_body, ← putText_body]
    exact congrArg (fun p => putText (putText p _ _) _ _) (write_body mem 0)
  unfold sendRegisterMsg
  dsimp only
  rw [begin_message mem (by decide), hbody, finish_message mem (length_registerBody mem)]
  rfl

theorem sendLoginMsg_eq :
    sendLoginMsg mem = LogicHandler.handleLogin.reply (loginBody mem) := by
  have hbody : putText (putText (begunHeader mem (lenPkgHeader + sizeofLogin)
      TestCode.linginCode.value ++ rawBody mem sizeofLogin) lenPkgHeader "XiaoHG_Login")
        (lenPkgHeader + 56) "xiaohaige" =
      begunHeader mem (lenPkgHeader + sizeofLogin) TestCode.linginCode.value ++
        loginBody mem := by
    rw [loginBody, ← putText_body]
    exact congrArg (fun p => putText p _ _) (putText_body mem 0 _)
  unfold sendLoginMsg
  dsimp only
  rw [begin_message mem (by decide), hbody, finish_message mem (length_loginBody mem)]
  rfl

/-- A message of the client is a packet of the kind that its handler answers. -/
theorem message_eq (code : TestCode) : ∃ body, body.length = code.handler.bodyLen ∧
    code.message mem = code.handler.reply body := by
  cases code with
  | hbCode => exact ⟨[], rfl, sendHeartBeatMsg_eq mem⟩
  | registerCode => exact ⟨registerBody mem, length_registerBody mem, sendRegisterMsg_eq mem⟩
  | linginCode => exact ⟨loginBody mem, length_loginBody mem, sendLoginMsg_eq mem⟩

end Compose
end XiaoHGServer
