import Mathlib.Data.BitVec
import Mathlib.Data.List.Basic
import Mathlib.Tactic

/-!
# Bytes, machine words and the packet header

The layout of `COMM_PKG_HEADER` (packed): `PkgLength` in bytes 0 and 1, `MsgCode`
in 2 and 3, `iCrc32` in 4 to 7. The host is little-endian, the wire big-endian.
Fixed-width counters are natural numbers reduced by `u16`, `u32` and `u64` where
the source assigns them.
-/

namespace XiaoHGServer

abbrev Byte := BitVec 8

def u16 (n : ℕ) : ℕ := n % 2 ^ 16

def u32 (n : ℕ) : ℕ := n % 2 ^ 32

def u64 (n : ℕ) : ℕ := n % 2 ^ 64

def intToU64 (z : ℤ) : ℕ := (z % 2 ^ 64).toNat

def sub16 (a b : ℕ) : ℕ := u16 (a + (2 ^ 16 - b % 2 ^ 16))

def sub32 (a b : ℕ) : ℕ := u32 (a + (2 ^ 32 - b % 2 ^ 32))

def sub64 (a b : ℕ) : ℕ := u64 (a + (2 ^ 64 - b % 2 ^ 64))

theorem u16_of_lt {n : ℕ} (h : n < 2 ^ 16) : u16 n = n := Nat.mod_eq_of_lt h

theorem sub16_of_le {a b : ℕ} (ha : a < 2 ^ 16) (h : b ≤ a) : sub16 a b = a - b := by
  unfold sub16 u16
  omega

/-- What a descriptor field holds after `sockFd = -1`. -/
def closedFd : ℕ := u16 (2 ^ 16 - 1)

def pkgMaxLength : ℕ := 30000
def msgHeaderLen : ℕ := 20
def lenPkgHeader : ℕ := 8

def maxSendQueueCount : ℕ := 50000
def maxEachConnSendCount : ℤ := 400
/-- `sem_post` fails on a semaphore that holds this value. -/
def semValueMax : ℕ := 2147483647

def cmdHeartbeat : ℕ := 0
def cmdRegister : ℕ := 5
def cmdLogin : ℕ := 6

/-- `sizeof(REGISTER_T)`: `iType`, `UserName[56]`, `Password[40]`. -/
def sizeofRegister : ℕ := 4 + 56 + 40
def sizeofLogin : ℕ := 56 + 40

/-- Store `data` over the bytes of `mem` from `off` on. -/
def writeAt (mem : List Byte) (off : ℕ) (data : List Byte) : List Byte :=
  mem.take off ++ data ++ mem.drop (off + data.length)

theorem length_writeAt {mem data : List Byte} {off : ℕ} (h : off + data.length ≤ mem.length) :
    (writeAt mem off data).length = mem.length := by
  simp only [writeAt, List.length_append, List.length_take, List.length_drop]
  omega

theorem take_writeAt {mem data : List Byte} {off : ℕ} (h : off + data.length ≤ mem.length) :
    (writeAt mem off data).take (off + data.length) = mem.take off ++ data := by
  have ho : (mem.take off).length = off := by
    rw [List.length_take]
    omega
  rw [writeAt, List.take_append_of_le_length (by simp [ho]), List.take_of_length_le]
  simp [ho]

/-- The little-endian 16-bit load at `off`. -/
def loadShort (mem : List Byte) (off : ℕ) : ℕ :=
  (mem.getD off 0).toNat + 256 * (mem.getD (off + 1) 0).toNat

/-- `ntohs` and `htons`: exchange the two bytes of a 16-bit value. -/
def ntohs (n : ℕ) : ℕ := n % 256 * 256 + n / 256 % 256

/-- The little-endian 32-bit load at `off`. -/
def loadInt (mem : List Byte) (off : ℕ) : BitVec 32 :=
  mem.getD (off + 3) 0 ++ mem.getD (off + 2) 0 ++ mem.getD (off + 1) 0 ++ mem.getD off 0

/-- `ntohl` and `htonl`: reverse the four bytes of a 32-bit value. -/
def ntohl (w : BitVec 32) : BitVec 32 :=
  w.extractLsb' 0 8 ++ w.extractLsb' 8 8 ++ w.extractLsb' 16 8 ++ w.extractLsb' 24 8

/-- The bytes a little-endian host stores for a `uint16_t`. -/
def storeShort (n : ℕ) : List Byte := [BitVec.ofNat 8 n, BitVec.ofNat 8 (n / 256)]

/-- The bytes a little-endian host stores for an `int`. -/
def storeInt (w : BitVec 32) : List Byte :=
  [w.extractLsb' 0 8, w.extractLsb' 8 8, w.extractLsb' 16 8, w.extractLsb' 24 8]

def pkgLength (pkg : List Byte) : ℕ := ntohs (loadShort pkg 0)

def msgCode (pkg : List Byte) : ℕ := ntohs (loadShort pkg 2)

def iCrc32 (pkg : List Byte) : BitVec 32 := loadInt pkg 4

theorem ntohs_loadShort (mem : List Byte) (off : ℕ) :
    ntohs (loadShort mem off) =
      256 * (mem.getD off 0).toNat + (mem.getD (off + 1) 0).toNat := by
  have h0 := (mem.getD off 0).isLt
  have h1 := (mem.getD (off + 1) 0).isLt
  unfold ntohs loadShort
  omega

theorem pkgLength_lt (pkg : List Byte) : pkgLength pkg < 2 ^ 16 := by
  have h0 := (pkg.getD 0 0).isLt
  have h1 := (pkg.getD (0 + 1) 0).isLt
  rw [pkgLength, ntohs_loadShort]
  omega

theorem pkgLength_congr {a b : List Byte} (h : a.take 2 = b.take 2) :
    pkgLength a = pkgLength b := by
  have hd : ∀ i < 2, a.getD i 0 = b.getD i 0 := by
    intro i hi
    have := congrArg (fun l => l.getD i (0 : Byte)) h
    simpa [List.getD_eq_getElem?_getD, List.getElem?_take, hi] using this
  simp only [pkgLength, loadShort, Nat.zero_add, hd 0 Nat.two_pos, hd 1 Nat.one_lt_two]

end XiaoHGServer
