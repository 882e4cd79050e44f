import Mathlib.Logic.Function.Iterate
import Mathlib.Tactic.Common

/-!
# Shift registers

A register of `w` bits is shifted right, and a polynomial is added when the bit
shifted out was set. Bytes are added to the low end of the register and shifted
through. Both operations are linear in exclusive or, so that a byte can be looked
up in a table; and they lose nothing as long as the polynomial has its highest bit
set, so that different data of at most the register's width leave different
registers.
-/

namespace XiaoHGServer
namespace ShiftRegister

variable {w : ℕ} {p r r' : BitVec w}

def shift (p r : BitVec w) : BitVec w := (r >>> 1) ^^^ (if r.getLsbD 0 then p else 0)

/-- A byte is added to the low end and shifted through. -/
def feed (p r : BitVec w) (d : BitVec 8) : BitVec w := (shift p)^[8] (r ^^^ d.setWidth w)

theorem shift_xor (p r r' : BitVec w) : shift p (r ^^^ r') = shift p r ^^^ shift p r' := by
  simp only [shift, BitVec.getLsbD_xor, BitVec.ushiftRight_xor_distrib]
  cases r.getLsbD 0 <;> cases r'.getLsbD 0
  · simp
  · simp [BitVec.xor_assoc]
  · simp only [Bool.xor_false, if_true, Bool.false_eq_true, if_false]
    ac_rfl
  · have hcancel : p ^^^ (r' >>> 1 ^^^ p) = r' >>> 1 := by
      rw [BitVec.xor_comm, BitVec.xor_assoc, BitVec.xor_self, BitVec.xor_zero]
    simp [BitVec.xor_assoc, hcancel]

theorem iterate_xor (p r r' : BitVec w) (n : ℕ) :
    (shift p)^[n] (r ^^^ r') = (shift p)^[n] r ^^^ (shift p)^[n] r' := by
  induction n generalizing r r' with
  | zero => rfl
  | succ n ih => rw [Function.iterate_succ_apply, shift_xor, ih]; rfl

theorem iterate_shiftLeft (p r : BitVec w) (n : ℕ) :
    (shift p)^[n] (r <<< n) = r <<< n >>> n := by
  have aux : ∀ (n : ℕ) (r : BitVec w), (∀ i < n, r.getLsbD i = false) →
      (shift p)^[n] r = r >>> n := by
    intro n
    induction n with
    | zero => intro r _; simp
    | succ n ih =>
      intro r hr
      have hone : shift p r = r >>> 1 := by simp [shift, hr 0 (Nat.succ_pos n)]
      rw [Function.iterate_succ_apply, hone, ih, Nat.add_comm, BitVec.shiftRight_add]
      intro i hi
      rw [BitVec.getLsbD_ushiftRight, Nat.add_comm]
      exact hr _ (Nat.succ_lt_succ hi)
  exact aux n _ fun i hi => by simp [hi]

/-- A byte can be looked up: what it leaves depends on the low byte of the register only, apart
from the bits above, which move down. -/
theorem feed_eq (p r : BitVec w) (d : BitVec 8) :
    feed p r d = (r >>> 8) ^^^ (shift p)^[8] ((r.setWidth 8 ^^^ d).setWidth w) := by
  have hsplit : r ^^^ d.setWidth w = (r >>> 8 <<< 8) ^^^ (r.setWidth 8 ^^^ d).setWidth w := by
    ext i hi
    by_cases hlow : i < 8
    · simp [hlow, hi]
    · simp [hlow, hi, show 8 + (i - 8) = i by omega]
  have hback : r >>> 8 <<< 8 >>> 8 = r >>> 8 := by
    apply BitVec.eq_of_getLsbD_eq
    intro i hi
    by_cases hin : 8 + i < w
    · simp [hin]
    · simp [hin, BitVec.getLsbD_of_ge r (8 + i) (by omega)]
  rw [feed, hsplit, iterate_xor, iterate_shiftLeft, hback]

/-- The bit shifted out can be read off the result. -/
theorem msb_shift (hp : p.msb = true) (r : BitVec w) : (shift p r).msb = r.getLsbD 0 := by
  have hhigh : (r >>> 1).msb = false := by simp [BitVec.msb_ushiftRight]
  rw [shift, BitVec.msb_xor, hhigh, Bool.false_xor]
  cases r.getLsbD 0 <;> simp [hp]

theorem shift_injective (hp : p.msb = true) : Function.Injective (shift p) := by
  intro r r' h
  have hlow : r.getLsbD 0 = r'.getLsbD 0 := by rw [← msb_shift hp, h, msb_shift hp]
  have hhigh : r >>> 1 = r' >>> 1 := by
    rw [shift, shift, hlow] at h
    exact (BitVec.xor_left_inj _).mp h
  apply BitVec.eq_of_getLsbD_eq
  intro i hi
  cases i with
  | zero => exact hlow
  | succ i =>
    have hbit := congrArg (fun x => x.getLsbD i) hhigh
    simpa [Nat.add_comm] using hbit

/-- The bytes `ds` as they stand in a register, the first one lowest. -/
def word (w : ℕ) : List (BitVec 8) → BitVec w
  | [] => 0
  | d :: ds => d.setWidth w ^^^ (word w ds <<< 8)

theorem getLsbD_word : ∀ {ds : List (BitVec 8)} {i : ℕ}, 8 * ds.length ≤ i →
    (word w ds).getLsbD i = false
  | [], _, _ => by simp [word]
  | d :: ds, i, h => by
    rw [List.length_cons] at h
    have hlow : d.getLsbD i = false := BitVec.getLsbD_of_ge d i (by omega)
    have hhigh : (word w ds).getLsbD (i - 8) = false := getLsbD_word (by omega)
    simp [word, hlow, hhigh]

theorem word_shiftLeft {ds : List (BitVec 8)} (h : 8 * (ds.length + 1) ≤ w) :
    word w ds <<< 8 >>> 8 = word w ds := by
  apply BitVec.eq_of_getLsbD_eq
  intro i hi
  by_cases hin : 8 + i < w
  · simp [hin, hi]
  · have hhigh : (word w ds).getLsbD i = false := getLsbD_word (by omega)
    simp [hin, hhigh]

theorem foldl_feed : ∀ {ds : List (BitVec 8)} (r : BitVec w), 8 * ds.length ≤ w →
    ds.foldl (feed p) r = (shift p)^[8 * ds.length] (r ^^^ word w ds)
  | [], r, _ => by simp [word]
  | d :: ds, r, h => by
    rw [List.length_cons] at h
    have hword : (shift p)^[8] (word w ds <<< 8) = word w ds := by
      rw [iterate_shiftLeft, word_shiftLeft h]
    have hle : 8 * ds.length ≤ w := by omega
    calc (d :: ds).foldl (feed p) r
        = (shift p)^[8 * ds.length] (feed p r d ^^^ word w ds) := foldl_feed (feed p r d) hle
      _ = (shift p)^[8 * ds.length] ((shift p)^[8] (r ^^^ word w (d :: ds))) := by
        rw [word, ← BitVec.xor_assoc, iterate_xor p (r ^^^ _), hword, feed]
      _ = (shift p)^[8 * (d :: ds).length] (r ^^^ word w (d :: ds)) :=
        (Function.iterate_add_apply _ _ _ _).symm

theorem word_injective : ∀ {ds ds' : List (BitVec 8)}, ds.length = ds'.length →
    8 * ds.length ≤ w → word w ds = word w ds' → ds = ds'
  | [], [], _, _, _ => rfl
  | d :: ds, d' :: ds', hlen, hw, h => by
    rw [List.length_cons] at hw
    have hd : d = d' := by
      apply BitVec.eq_of_getLsbD_eq
      intro i hi
      have hbit := congrArg (fun x => x.getLsbD i) h
      simpa [word, hi, show i < w by omega] using hbit
    subst hd
    have hrest : word w ds <<< 8 = word w ds' <<< 8 := (BitVec.xor_right_inj _).mp h
    have hlen' : ds.length = ds'.length := Nat.succ.inj hlen
    have heq : word w ds = word w ds' := by
      rw [← word_shiftLeft hw, hrest, word_shiftLeft (hlen' ▸ hw)]
    rw [word_injective hlen' (by omega) heq]

theorem feed_injective (hp : p.msb = true) (d : BitVec 8) :
    Function.Injective fun r => feed p r d := by
  intro r r' h
  exact (BitVec.xor_left_inj _).mp ((shift_injective hp).iterate 8 h)

theorem foldl_feed_injective (hp : p.msb = true) (ds : List (BitVec 8)) :
    Function.Injective fun r => ds.foldl (feed p) r := by
  intro r r' h
  induction ds generalizing r r' with
  | nil => exact h
  | cons d ds ih => exact feed_injective hp d (ih h)

/-- Different bytes that fit into the register leave different registers. -/
theorem foldl_feed_ne (hp : p.msb = true) {ds ds' : List (BitVec 8)}
    (hlen : ds.length = ds'.length) (hw : 8 * ds.length ≤ w) (hne : ds ≠ ds') (r : BitVec w) :
    ds.foldl (feed p) r ≠ ds'.foldl (feed p) r := by
  intro h
  rw [foldl_feed r hw, foldl_feed r (hlen ▸ hw), ← hlen] at h
  have hword := (shift_injective hp).iterate _ h
  exact hne (word_injective hlen hw ((BitVec.xor_right_inj _).mp hword))

end ShiftRegister
end XiaoHGServer
