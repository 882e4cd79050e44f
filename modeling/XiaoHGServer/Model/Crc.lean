import XiaoHGServer.Model.Comm

/-!
# CCRC32

The table and the loop of `CCRC32`, on 32-bit words.
-/

namespace XiaoHGServer

/-- The loop of `Reflect` with `r` bits to go. -/
def reflectLoop : ℕ → BitVec 32 → BitVec 32 → BitVec 32
  | 0, _, uiValue => uiValue
  | r + 1, uiRef, uiValue =>
    reflectLoop r (uiRef >>> 1) (if uiRef &&& 1 ≠ 0 then uiValue ||| (1 <<< r) else uiValue)

def reflect (uiRef : BitVec 32) (ch : ℕ) : BitVec 32 := reflectLoop ch uiRef 0

def ulPolynomial : BitVec 32 := 0x04c11db7

/-- One of the eight rounds in `InitCRC32Table`. -/
def tableRound (w : BitVec 32) : BitVec 32 :=
  (w <<< 1) ^^^ (if w &&& (1 <<< 31) ≠ 0 then ulPolynomial else 0)

/-- The entry `CRC32Table[i]` that `InitCRC32Table` computes. -/
def crc32Table (i : Byte) : BitVec 32 :=
  reflect (tableRound^[8] (reflect (i.setWidth 32) 8 <<< 24)) 32

/-- The loop body of `Get_CRC`. -/
def crcByte (crc : BitVec 32) (b : Byte) : BitVec 32 :=
  (crc >>> 8) ^^^ crc32Table (crc.setWidth 8 ^^^ b)

def getCRC (ucBuffer : List Byte) : BitVec 32 :=
  ucBuffer.foldl crcByte 0xffffffff ^^^ 0xffffffff

/-- The loop of `Get_CRC` with its `int` counter; `none` when it reads past the bytes at `ucBuffer`
or counts below the smallest `int`. -/
def crcLoop : BitVec 32 → ℤ → List Byte → Option (BitVec 32)
  | crc, iLen, [] => if iLen = 0 then some crc else none
  | crc, iLen, b :: ucBuffer =>
    if iLen = 0 then some crc
    else if iLen = -2 ^ 31 then none
    else crcLoop (crcByte crc b) (iLen - 1) ucBuffer

/-- `Get_CRC` with the number of bytes as its caller gives it. -/
def getCRCSized (ucBuffer : List Byte) (uiDWSize : BitVec 32) : Option (BitVec 32) :=
  (crcLoop 0xffffffff uiDWSize.toInt ucBuffer).map fun crc => crc ^^^ 0xffffffff

/-- The check value of the reflected CRC-32 of the string `123456789`. -/
example : getCRC [0x31, 0x32, 0x33, 0x34, 0x35, 0x36, 0x37, 0x38, 0x39] = 0xcbf43926 := by
  decide +kernel

end XiaoHGServer
