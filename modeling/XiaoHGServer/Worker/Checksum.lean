import XiaoHGServer.Library.ShiftRegister
import XiaoHGServer.Worker.Discard

/-!
# The checksum of a packet

`InitCRC32Table` works on mirrored registers: it shifts to the left, and `Reflect`
turns its words around before and after. Its entries are what eight shifts of the
usual register leave, so that `Get_CRC` is a shift register; and the differences it
can miss are longer than the register.
-/

namespace XiaoHGServer

open ShiftRegister

/-- The polynomial of the CRC-32, for a register that is shifted right. -/
def crcPolynomial : BitVec 32 := 0xEDB88320

/-- The CRC-32 without a table: each byte goes to the low end of the register and is shifted
through. -/
def bitwiseCRC (bytes : List Byte) : BitVec 32 :=
  bytes.foldl (feed crcPolynomial) 0xffffffff ^^^ 0xffffffff

theorem and_one_ne_zero (x : BitVec 32) : x &&& 1 ≠ 0 ↔ x.getLsbD 0 = true := by
  have hbit : x &&& 1#32 = (BitVec.ofBool (x.getLsbD 0)).setWidth 32 :=
    BitVec.and_one_eq_setWidth_ofBool_getLsbD
  change x &&& 1#32 ≠ 0#32 ↔ _
  rw [hbit]
  cases x.getLsbD 0 <;> decide

theorem getLsbD_reflectStep {r : ℕ} (uiRef uiValue : BitVec 32) (j : ℕ) (hr : r < 32) :
    (if uiRef &&& 1 ≠ 0 then uiValue ||| (1 <<< r) else uiValue).getLsbD j =
      (uiValue.getLsbD j || (decide (j = r) && uiRef.getLsbD 0)) := by
  have hone : ((1 <<< r : ℕ) : BitVec 32).getLsbD j = decide (j = r) := by
    change (BitVec.ofNat 32 (1 <<< r)).getLsbD j = decide (j = r)
    rw [BitVec.getLsbD_ofNat, Nat.one_shiftLeft, Nat.testBit_two_pow]
    by_cases hj : j = r
    · simp [hj, hr]
    · simp [hj, Ne.symm hj]
  cases hbit : uiRef.getLsbD 0 with
  | true => rw [if_pos ((and_one_ne_zero _).mpr hbit), BitVec.getLsbD_or, hone, Bool.and_true]
  | false =>
    have hzero : ¬ uiRef &&& 1 ≠ 0 := fun h => by
      rw [(and_one_ne_zero _).mp h] at hbit
      cases hbit
    rw [if_neg hzero, Bool.and_false, Bool.or_false]

theorem getLsbD_reflectLoop : ∀ (r : ℕ) (uiRef uiValue : BitVec 32) (j : ℕ), r ≤ 32 →
    (reflectLoop r uiRef uiValue).getLsbD j =
      (uiValue.getLsbD j || (decide (j < r) && uiRef.getLsbD (r - 1 - j)))
  | 0, _, _, _, _ => by simp [reflectLoop]
  | r + 1, uiRef, uiValue, j, hr => by
    rw [reflectLoop, getLsbD_reflectLoop r _ _ j (by omega), getLsbD_reflectStep _ _ _ (by omega),
      BitVec.getLsbD_ushiftRight, Bool.or_assoc]
    congr 1
    rcases lt_trichotomy j r with hj | hj | hj
    · have hidx : 1 + (r - 1 - j) = r + 1 - 1 - j := by omega
      simp [hj, hj.ne, hidx, hj.le]
    · simp [hj]
    · simp [hj.not_gt, hj.ne', hj.not_ge]

theorem getLsbD_reflect {ch : ℕ} (uiRef : BitVec 32) (j : ℕ) (hch : ch ≤ 32) :
    (reflect uiRef ch).getLsbD j = (decide (j < ch) && uiRef.getLsbD (ch - 1 - j)) := by
  rw [reflect, getLsbD_reflectLoop _ _ _ _ hch]
  simp

theorem reflect_xor (a b : BitVec 32) : reflect (a ^^^ b) 32 = reflect a 32 ^^^ reflect b 32 := by
  apply BitVec.eq_of_getLsbD_eq
  intro i hi
  simp only [BitVec.getLsbD_xor, getLsbD_reflect _ _ le_rfl]
  cases decide (i < 32) <;> simp

theorem reflect_shiftLeft (w : BitVec 32) : reflect (w <<< 1) 32 = reflect w 32 >>> 1 := by
  apply BitVec.eq_of_getLsbD_eq
  intro i hi
  rw [BitVec.getLsbD_ushiftRight, getLsbD_reflect _ _ le_rfl, getLsbD_reflect _ _ le_rfl,
    BitVec.getLsbD_shiftLeft]
  by_cases hlast : i = 31
  · simp [hlast]
  · have hidx : 32 - 1 - i - 1 = 32 - 1 - (1 + i) := by omega
    have h0 : 32 - 1 - i < 32 := by omega
    have h1 : ¬ 32 - 1 - i < 1 := by omega
    have h2 : 1 + i < 32 := by omega
    simp only [hi, h0, h1, h2, hidx, decide_true, decide_false, Bool.not_false, Bool.true_and]

theorem and_high_ne_zero (w : BitVec 32) :
    w &&& (1 <<< 31) ≠ 0 ↔ (reflect w 32).getLsbD 0 = true := by
  rw [getLsbD_reflect _ _ le_rfl]
  have hhigh : w &&& BitVec.twoPow 32 31 =
      if w.getLsbD 31 then BitVec.twoPow 32 31 else 0#32 := BitVec.and_twoPow w 31
  change w &&& BitVec.twoPow 32 31 ≠ 0#32 ↔ _
  rw [hhigh]
  change _ ↔ w.getLsbD 31 = true
  cases w.getLsbD 31 <;> decide

/-- A round of the table is a shift of the mirrored register. -/
theorem reflect_tableRound (w : BitVec 32) :
    reflect (tableRound w) 32 = shift crcPolynomial (reflect w 32) := by
  have hpoly : reflect ulPolynomial 32 = crcPolynomial := by decide +kernel
  have hzero : reflect 0 32 = 0 := by decide +kernel
  rw [tableRound, reflect_xor, reflect_shiftLeft, shift]
  by_cases hlow : (reflect w 32).getLsbD 0 = true
  · rw [if_pos ((and_high_ne_zero w).mpr hlow), if_pos hlow, hpoly]
  · rw [if_neg (fun h => hlow ((and_high_ne_zero w).mp h)), if_neg hlow, hzero]

theorem reflect_iterate_tableRound (w : BitVec 32) (n : ℕ) :
    reflect (tableRound^[n] w) 32 = (shift crcPolynomial)^[n] (reflect w 32) := by
  induction n generalizing w with
  | zero => rfl
  | succ n ih => rw [Function.iterate_succ_apply, ih, reflect_tableRound]; rfl

theorem reflect_reflect_byte (i : Byte) :
    reflect (reflect (i.setWidth 32) 8 <<< 24) 32 = i.setWidth 32 := by
  apply BitVec.eq_of_getLsbD_eq
  intro j hj
  rw [getLsbD_reflect _ _ le_rfl, BitVec.getLsbD_shiftLeft, getLsbD_reflect _ _ (by decide)]
  have hfit : 32 - 1 - j < 32 := by omega
  by_cases hlow : j < 8
  · have hidx : 8 - 1 - (32 - 1 - j - 24) = j := by omega
    have hge : ¬ 32 - 1 - j < 24 := by omega
    have hlt : 32 - 1 - j - 24 < 8 := by omega
    simp only [hj, hidx, hge, hlt, hfit, decide_true, decide_false, Bool.not_false, Bool.true_and]
  · have hlt : 32 - 1 - j < 24 := by omega
    have hout : i.getLsbD j = false := BitVec.getLsbD_of_ge i j (by omega)
    simp [hlt, hout]

theorem crc32Table_eq (i : Byte) : crc32Table i = (shift crcPolynomial)^[8] (i.setWidth 32) := by
  rw [crc32Table, reflect_iterate_tableRound, reflect_reflect_byte]

theorem crcByte_eq_feed (crc : BitVec 32) (b : Byte) :
    crcByte crc b = feed crcPolynomial crc b := by
  rw [crcByte, crc32Table_eq, feed_eq]

theorem getCRC_eq_bitwiseCRC (bytes : List Byte) : getCRC bytes = bitwiseCRC bytes := by
  have hbyte : crcByte = feed crcPolynomial := by
    funext crc b
    exact crcByte_eq_feed crc b
  rw [getCRC, hbyte, bitwiseCRC]

theorem crcLoop_eq : ∀ (bytes : List Byte) (crc : BitVec 32),
    crcLoop crc bytes.length bytes = some (bytes.foldl crcByte crc)
  | [], _ => by simp [crcLoop]
  | b :: bytes, crc => by
    have hlen : ((b :: bytes).length : ℤ) - 1 = bytes.length := by simp
    rw [crcLoop, if_neg (by simp; omega), if_neg (by omega), hlen, crcLoop_eq]
    rfl

theorem getCRCSized_eq {bytes : List Byte} (h : bytes.length < 2 ^ 31) :
    getCRCSized bytes (BitVec.ofNat 32 bytes.length) = some (getCRC bytes) := by
  have hsize : (BitVec.ofNat 32 bytes.length).toInt = bytes.length := by
    have hnat : (BitVec.ofNat 32 bytes.length).toNat = bytes.length :=
      Nat.mod_eq_of_lt (h.trans (by decide))
    rw [BitVec.toInt_eq_toNat_of_lt (by omega), hnat]
  rw [getCRCSized, hsize, crcLoop_eq]
  rfl

/-- `Get_CRC` computes the CRC-32 of its buffer. -/
theorem getCRCSized_bitwise {bytes : List Byte} (h : bytes.length < 2 ^ 31) :
    getCRCSized bytes (BitVec.ofNat 32 bytes.length) = some (bitwiseCRC bytes) := by
  rw [getCRCSized_eq h, getCRC_eq_bitwiseCRC]

theorem getCRCSized_bitwise_check :
    getCRCSized [0x31, 0x32, 0x33] (BitVec.ofNat 32 3) = some (bitwiseCRC [0x31, 0x32, 0x33]) :=
  getCRCSized_bitwise (by decide)

/-! ### What the checksum detects -/

/-- `b'` and `b` are the same up to a window of `n` bytes from `k` on. -/
def SameOutside (k n : ℕ) (b b' : List Byte) : Prop :=
  b'.length = b.length ∧ ∀ i, i < k ∨ k + n ≤ i → b'[i]? = b[i]?

theorem SameOutside.take {k n : ℕ} {b b' : List Byte} (h : SameOutside k n b b') :
    b'.take k = b.take k := by
  apply List.ext_getElem?
  intro i
  by_cases hi : i < k
  · rw [List.getElem?_take_of_lt hi, List.getElem?_take_of_lt hi, h.2 i (Or.inl hi)]
  · rw [List.getElem?_take_eq_none (by omega), List.getElem?_take_eq_none (by omega)]

theorem SameOutside.drop {k n : ℕ} {b b' : List Byte} (h : SameOutside k n b b') :
    b'.drop (k + n) = b.drop (k + n) := by
  apply List.ext_getElem?
  intro i
  rw [List.getElem?_drop, List.getElem?_drop, h.2 _ (Or.inr (by omega))]

theorem getCRC_ne {k : ℕ} {b b' : List Byte} (h : SameOutside k 4 b b') (hne : b' ≠ b) :
    getCRC b' ≠ getCRC b := by
  have hparts (l : List Byte) : l = l.take k ++ ((l.drop k).take 4 ++ l.drop (k + 4)) := by
    rw [← List.drop_drop, List.take_append_drop, List.take_append_drop]
  have hwindow : (b'.drop k).take 4 ≠ (b.drop k).take 4 := by
    intro heq
    rw [hparts b', hparts b, h.take, h.drop, heq] at hne
    exact hne rfl
  intro heq
  rw [getCRC_eq_bitwiseCRC, getCRC_eq_bitwiseCRC, bitwiseCRC, bitwiseCRC] at heq
  have hreg := (BitVec.xor_left_inj _).mp heq
  rw [hparts b', hparts b, h.take, h.drop, List.foldl_append, List.foldl_append,
    List.foldl_append, List.foldl_append] at hreg
  have hmsb : crcPolynomial.msb = true := by decide
  refine foldl_feed_ne hmsb ?_ ?_ hwindow _ (foldl_feed_injective hmsb _ hreg)
  · simp [h.1]
  · simp
    omega

/-- A packet header that carries the length and the checksum of the body `b`. -/
structure HeaderOf (header b : List Byte) : Prop where
  length : header.length = lenPkgHeader
  pkgLength : pkgLength header = lenPkgHeader + b.length
  crc : ntohl (iCrc32 header) = getCRC b

namespace HeaderOf

variable {header b b' : List Byte}

theorem getD_append (h : HeaderOf header b) {i : ℕ} (hi : i < 8) :
    (header ++ b').getD i 0 = header.getD i 0 := by
  have hlt : i < header.length := by
    rw [h.length]
    exact hi
  simp only [List.getD_eq_getElem?_getD, List.getElem?_append_left hlt]

theorem pkgLength_append (h : HeaderOf header b) :
    XiaoHGServer.pkgLength (header ++ b') = lenPkgHeader + b.length := by
  rw [← h.pkgLength]
  apply pkgLength_congr
  rw [List.take_append_of_le_length]
  rw [h.length]
  decide

theorem iCrc32_append (h : HeaderOf header b) : iCrc32 (header ++ b') = iCrc32 header := by
  have h4 : (header ++ b').getD 4 0 = header.getD 4 0 := h.getD_append (by decide)
  have h5 : (header ++ b').getD 5 0 = header.getD 5 0 := h.getD_append (by decide)
  have h6 : (header ++ b').getD 6 0 = header.getD 6 0 := h.getD_append (by decide)
  have h7 : (header ++ b').getD 7 0 = header.getD 7 0 := h.getD_append (by decide)
  simp only [iCrc32, loadInt, Nat.reduceAdd, h4, h5, h6, h7]

theorem pkgBody_append (h : HeaderOf header b) (hlen : b'.length = b.length) :
    pkgBody (header ++ b') = b' := by
  rw [pkgBody, h.pkgLength_append, Nat.add_sub_cancel_left, ← h.length, List.drop_left, ← hlen,
    List.take_length]

end HeaderOf

/-- A packet whose body does not have the checksum of the header is not dispatched. -/
theorem discarded_of_header {header b b' : List Byte} (h : HeaderOf header b)
    (hlen : b'.length = b.length) (hcrc : getCRC b' ≠ getCRC b) {s : Server} {m : BufId} {now : ℤ}
    (hpkg : s.recvPkg m = header ++ b') : s.recvMsgHandleProc m now = none := by
  have hpkgLen : pkgLength (s.recvPkg m) = lenPkgHeader + b.length := by
    rw [hpkg, h.pkgLength_append]
  have hpos : 0 < b.length := by
    apply List.length_pos_of_ne_nil
    rintro rfl
    exact hcrc (by rw [List.eq_nil_of_length_eq_zero hlen])
  apply Server.recvMsgHandleProc_eq_none_iff.mpr
  apply Server.Rejected.bodyCrc
  · omega
  · rw [hpkg, h.pkgBody_append hlen, h.iCrc32_append, h.crc]
    exact hcrc

/-- A changed body is detected as long as the change is not longer than the register; the packet is
then not dispatched. -/
theorem crc_detects_window {k : ℕ} {b b' : List Byte} (h : SameOutside k 4 b b') (hne : b' ≠ b) :
    getCRC b' ≠ getCRC b ∧ ∀ header, HeaderOf header b → ∀ (s : Server) m now,
      s.recvPkg m = header ++ b' → s.recvMsgHandleProc m now = none := by
  have hcrc := getCRC_ne h hne
  exact ⟨hcrc, fun header hh s m now hpkg => discarded_of_header hh h.1 hcrc hpkg⟩

/-- One bit of a body of one byte is flipped. -/
theorem crc_detects_flip : getCRC [0x60] ≠ getCRC [0x61] ∧
    ({ Server.smallBoot Server.smallConfig with recvQueue :=
      { recvMsgList := [], recvMsgListSize := 0, mem :=
        (Heap.empty fun _ _ => 0).modify 0 fun _ =>
          ⟨⟨1, 0⟩, packetHeader 9 cmdLogin (getCRC [0x61]) ++ [0x60]⟩ } }).recvMsgHandleProc 0 0 =
      none := by
  have h : SameOutside 0 4 [0x61] [0x60] := by
    refine ⟨rfl, fun i hi => ?_⟩
    have hge : 4 ≤ i := by omega
    rw [List.getElem?_eq_none (by simp; omega), List.getElem?_eq_none (by simp; omega)]
  obtain ⟨hcrc, hproc⟩ := crc_detects_window h (by decide)
  exact ⟨hcrc, hproc (packetHeader 9 cmdLogin (getCRC [0x61]))
    ⟨by decide +kernel, by decide +kernel, by decide +kernel⟩ _ 0 0 (by decide +kernel)⟩

end XiaoHGServer
