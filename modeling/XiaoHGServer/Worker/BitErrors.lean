import Mathlib.Tactic.NormNum.Prime
import XiaoHGServer.Library.RegisterPeriod
import XiaoHGServer.Worker.Checksum

/-!
# Flipped bits of a packet

The register of the CRC-32 has the period `2 ^ 32 - 1`, so that its state comes back
after more bits than a packet can have, and no two flipped bits of a body are missed.
-/

namespace XiaoHGServer

open ShiftRegister

theorem prime_dvd_period {q : ℕ} (hq : q.Prime) (h : q ∣ 2 ^ 32 - 1) :
    q = 3 ∨ q = 5 ∨ q = 17 ∨ q = 257 ∨ q = 65537 := by
  have hfactors : 2 ^ 32 - 1 = 3 * (5 * (17 * (257 * 65537))) := by norm_num
  have eq_of {r : ℕ} (hr : r.Prime) (h : q ∣ r) : q = r := (Nat.prime_dvd_prime_iff_eq hq hr).mp h
  rw [hfactors, hq.dvd_mul, hq.dvd_mul, hq.dvd_mul, hq.dvd_mul] at h
  rcases h with h | h | h | h | h
  · exact Or.inl (eq_of (by norm_num) h)
  · exact Or.inr (Or.inl (eq_of (by norm_num) h))
  · exact Or.inr (Or.inr (Or.inl (eq_of (by norm_num) h)))
  · exact Or.inr (Or.inr (Or.inr (Or.inl (eq_of (by norm_num) h))))
  · exact Or.inr (Or.inr (Or.inr (Or.inr (eq_of (by norm_num) h))))

def pieces01 (n k : ℕ) : List Bool :=
  (List.replicate n (List.replicate k false ++ List.replicate k true)).flatten

/-- The polynomial is primitive: the register runs through all states but zero. -/
theorem minimalPeriod_crc :
    Function.minimalPeriod (shift crcPolynomial) (unit 32) = 2 ^ 32 - 1 := by
  have hstate (bits : List Bool) : (shift crcPolynomial)^[ofBits bits] (unit 32) =
      stateOfBits crcPolynomial bits := (stateOfBits_eq _ _).symm
  apply minimalPeriod_eq
  · rw [show 2 ^ 32 - 1 = ofBits (List.replicate 32 true) by decide, hstate]
    decide +kernel
  · intro q hq hdvd
    rcases prime_dvd_period hq hdvd with rfl | rfl | rfl | rfl | rfl
    · rw [show (2 ^ 32 - 1) / 3 = ofBits (pieces01 16 1) by decide, hstate]
      decide +kernel
    · rw [show (2 ^ 32 - 1) / 5 = ofBits (pieces01 8 2) by decide, hstate]
      decide +kernel
    · rw [show (2 ^ 32 - 1) / 17 = ofBits (pieces01 4 4) by decide, hstate]
      decide +kernel
    · rw [show (2 ^ 32 - 1) / 257 = ofBits (pieces01 2 8) by decide, hstate]
      decide +kernel
    · rw [show (2 ^ 32 - 1) / 65537 = ofBits (pieces01 1 16) by decide, hstate]
      decide +kernel

/-- The number of bits in which two strings of bytes differ. -/
def flippedBits (b b' : List Byte) : ℕ := distance (bitsOf b) (bitsOf b')

theorem getCRC_ne_of_flippedBits {b b' : List Byte} (hlen : b'.length = b.length)
    (hshort : b.length < 2 ^ 29) (hne : b' ≠ b) (hflips : flippedBits b b' ≤ 2) :
    getCRC b' ≠ getCRC b := by
  intro heq
  rw [getCRC_eq_bitwiseCRC, getCRC_eq_bitwiseCRC, bitwiseCRC, bitwiseCRC] at heq
  have hreg := (BitVec.xor_left_inj _).mp heq
  rw [foldl_feed_eq_push (by decide), foldl_feed_eq_push (by decide)] at hreg
  have hbits : (bitsOf b).length = (bitsOf b').length := by
    rw [length_bitsOf, length_bitsOf, hlen]
  refine foldl_push_ne (by decide) (by decide) minimalPeriod_crc _ hbits ?_ ?_ hflips hreg.symm
  · rw [length_bitsOf]
    omega
  · exact fun h => hne (bitsOf_injective h).symm

/-- One or two flipped bits are detected, wherever they are; the packet is then not dispatched. -/
theorem crc_detects_two_flips {b b' : List Byte} (hlen : b'.length = b.length)
    (hshort : b.length < 2 ^ 29) (hne : b' ≠ b) (hflips : flippedBits b b' ≤ 2) :
    getCRC b' ≠ getCRC b ∧ ∀ header, HeaderOf header b → ∀ (s : Server) m now,
      s.recvPkg m = header ++ b' → s.recvMsgHandleProc m now = none := by
  have hcrc := getCRC_ne_of_flippedBits hlen hshort hne hflips
  exact ⟨hcrc, fun header h s m now hpkg => discarded_of_header h hlen hcrc hpkg⟩

/-- The first and the last bit of a body of six bytes are flipped. -/
theorem crc_detects_far_flips :
    getCRC [0x60, 0, 0, 0, 0, 0x80] ≠ getCRC [0x61, 0, 0, 0, 0, 0] :=
  (crc_detects_two_flips (by decide) (by decide) (by decide) (by decide)).1

end XiaoHGServer
