import Mathlib.Data.Nat.Prime.Basic
import Mathlib.Dynamics.PeriodicPts.Defs
import XiaoHGServer.Library.ShiftRegister

/-!
# The period of a shift register

The states that the register runs through from its highest bit span all states, so
that an operation that commutes with the shift is known once it is known on that
bit. Hence the state after `m + n` shifts is a product of the states after `m` and
after `n`, and far states are computed by squaring. Two bits that are fed to the
register at a distance below its period do not cancel.
-/

namespace XiaoHGServer
namespace ShiftRegister

variable {w : ℕ} {p : BitVec w}

/-- The highest bit alone. -/
def unit (w : ℕ) : BitVec w := BitVec.twoPow w (w - 1)

/-- The lowest `n` bits of `a` as a polynomial in the shift, applied to `b`. -/
def mulBits (p a b : BitVec w) : ℕ → BitVec w
  | 0 => 0#w
  | n + 1 => shift p (mulBits p a b n) ^^^ (if a.getLsbD n then b else 0#w)

def mul (p a b : BitVec w) : BitVec w := mulBits p a b w

theorem shift_zero (p : BitVec w) : shift p 0#w = 0#w := by simp [shift]

theorem shift_of_even (p : BitVec w) {r : BitVec w} (h : r.getLsbD 0 = false) :
    shift p r = r >>> 1 := by
  simp [shift, h]

theorem mulBits_shift (p a b : BitVec w) (n : ℕ) :
    mulBits p a (shift p b) n = shift p (mulBits p a b n) := by
  induction n with
  | zero => simp [mulBits, shift_zero]
  | succ n ih =>
    rw [mulBits, mulBits, ih, shift_xor]
    cases a.getLsbD n
    · simp [shift_zero]
    · simp

theorem mulBits_xor (p a b b' : BitVec w) (n : ℕ) :
    mulBits p a (b ^^^ b') n = mulBits p a b n ^^^ mulBits p a b' n := by
  induction n with
  | zero => simp [mulBits]
  | succ n ih =>
    rw [mulBits, mulBits, mulBits, ih, shift_xor]
    cases a.getLsbD n
    · simp
    · simp only [if_true]
      ac_rfl

theorem mulBits_zero (p a : BitVec w) (n : ℕ) : mulBits p a 0#w n = 0#w := by
  induction n with
  | zero => rfl
  | succ n ih => simp [mulBits, ih, shift_zero]

theorem getLsbD_unit {i : ℕ} (hi : i < w) : (unit w).getLsbD i = decide (i = w - 1) := by
  have hw : w - 1 < w := by omega
  simp [unit, BitVec.getLsbD_twoPow, hw, eq_comm]

theorem mulBits_unit (p a : BitVec w) : ∀ n ≤ w, mulBits p a (unit w) n = a <<< (w - n)
  | 0, _ => by
    apply BitVec.eq_of_getLsbD_eq
    intro i hi
    simp [mulBits, hi]
  | n + 1, hn => by
    have hlow : (a <<< (w - n)).getLsbD 0 = false := by
      simp [show 0 < w - n by omega]
    rw [mulBits, mulBits_unit p a n (by omega), shift_of_even p hlow]
    apply BitVec.eq_of_getLsbD_eq
    intro i hi
    have hbit : (if a.getLsbD n then unit w else 0#w).getLsbD i =
        (a.getLsbD n && decide (i = w - 1)) := by
      cases a.getLsbD n
      · simp
      · simp only [if_true, Bool.true_and, getLsbD_unit hi]
    rw [BitVec.getLsbD_xor, hbit, BitVec.getLsbD_ushiftRight, BitVec.getLsbD_shiftLeft,
      BitVec.getLsbD_shiftLeft]
    by_cases hlast : i = w - 1
    · have hout : ¬ 1 + i < w := by omega
      have hin : ¬ i < w - (n + 1) := by omega
      have hidx : i - (w - (n + 1)) = n := by omega
      rw [hidx, decide_eq_true hlast]
      simp only [hi, hout, hin, decide_true, decide_false, Bool.false_and, Bool.false_xor,
        Bool.and_true, Bool.not_false, Bool.true_and]
    · have hidx : 1 + i - (w - n) = i - (w - (n + 1)) := by omega
      have hlt : 1 + i < w := by omega
      have hiff : 1 + i < w - n ↔ i < w - (n + 1) := by omega
      simp only [hi, hlt, hidx, hiff, hlast, decide_true, decide_false, Bool.true_and,
        Bool.and_false, Bool.xor_false]

theorem mul_unit (p a : BitVec w) : mul p a (unit w) = a := by
  rw [mul, mulBits_unit p a w le_rfl]
  simp

theorem cyclic_induction {P : BitVec w → Prop} (hzero : P 0#w) (hunit : P (unit w))
    (hshift : ∀ b, P b → P (shift p b)) (hxor : ∀ b b', P b → P b' → P (b ^^^ b')) (b : BitVec w) :
    P b := by
  have hbits : ∀ n, P (mulBits p b (unit w) n) := by
    intro n
    induction n with
    | zero => exact hzero
    | succ n ih =>
      refine hxor _ _ (hshift _ ih) ?_
      split
      · exact hunit
      · exact hzero
  rw [← mul_unit p b]
  exact hbits w

theorem unit_mul (p b : BitVec w) : mul p (unit w) b = b := by
  induction b using cyclic_induction (p := p) with
  | hzero => exact mulBits_zero p _ w
  | hunit => exact mul_unit p _
  | hshift b ih => rw [mul, mulBits_shift, ← mul, ih]
  | hxor b b' ih ih' => rw [mul, mulBits_xor, ← mul, ← mul, ih, ih']

theorem shift_mul (p a b : BitVec w) : mul p (shift p a) b = shift p (mul p a b) := by
  induction b using cyclic_induction (p := p) with
  | hzero => rw [mul, mul, mulBits_zero, mulBits_zero, shift_zero]
  | hunit => rw [mul_unit, mul_unit]
  | hshift b ih => rw [mul, mul, mulBits_shift, mulBits_shift, ← mul, ← mul, ih]
  | hxor b b' ih ih' =>
    rw [mul, mul, mulBits_xor, mulBits_xor, ← mul, ← mul, ← mul, ← mul, ih, ih', shift_xor]

/-- The state after `n` shifts of the highest bit. -/
def state (p : BitVec w) (n : ℕ) : BitVec w := (shift p)^[n] (unit w)

theorem state_mul (p : BitVec w) (n : ℕ) (b : BitVec w) :
    mul p (state p n) b = (shift p)^[n] b := by
  induction n with
  | zero => exact unit_mul p b
  | succ n ih =>
    rw [state, Function.iterate_succ_apply', shift_mul, ← state, ih,
      Function.iterate_succ_apply']

theorem state_add (p : BitVec w) (m n : ℕ) : state p (m + n) = mul p (state p m) (state p n) := by
  rw [state_mul, state, state, Function.iterate_add_apply]

/-- The state after as many shifts as the bits say, highest first. -/
def stateOfBits (p : BitVec w) (bits : List Bool) : BitVec w :=
  bits.foldl (fun v b => if b then shift p (mul p v v) else mul p v v) (unit w)

/-- The number with these bits, highest first. -/
def ofBits (bits : List Bool) : ℕ := bits.foldl (fun n b => 2 * n + b.toNat) 0

theorem stateOfBits_eq (p : BitVec w) (bits : List Bool) :
    stateOfBits p bits = state p (ofBits bits) := by
  have hfold : ∀ (bits : List Bool) (n : ℕ),
      bits.foldl (fun v b => if b then shift p (mul p v v) else mul p v v) (state p n) =
        state p (bits.foldl (fun n b => 2 * n + b.toNat) n) := by
    intro bits
    induction bits with
    | nil => exact fun n => rfl
    | cons b bits ih =>
      intro n
      have hsquare : mul p (state p n) (state p n) = state p (2 * n) := by
        rw [← state_add, two_mul]
      rw [List.foldl_cons, List.foldl_cons, ← ih, hsquare]
      cases b
      · rfl
      · rw [if_pos rfl, Bool.toNat_true, state, state, Function.iterate_succ_apply']
  exact hfold bits 0

/-- A point whose period divides `n` but no `n / q` has period `n`. -/
theorem minimalPeriod_eq {α : Type*} {f : α → α} {x : α} {n : ℕ} (hn : f^[n] x = x)
    (hq : ∀ q, q.Prime → q ∣ n → f^[n / q] x ≠ x) : Function.minimalPeriod f x = n := by
  have hdvd : Function.minimalPeriod f x ∣ n :=
    Function.IsPeriodicPt.minimalPeriod_dvd hn
  obtain ⟨m, hm⟩ := hdvd
  by_contra hne
  have hone : m ≠ 1 := by
    rintro rfl
    exact hne (by rw [hm, Nat.mul_one])
  obtain ⟨q, hprime, k, hk⟩ := Nat.exists_prime_and_dvd hone
  have hmul : n = Function.minimalPeriod f x * k * q := by
    rw [hm, hk, Nat.mul_comm q, Nat.mul_assoc]
  apply hq q hprime (Dvd.intro_left _ hmul.symm)
  have hquot : n / q = Function.minimalPeriod f x * k := Nat.div_eq_of_eq_mul_left hprime.pos hmul
  rw [hquot]
  exact Function.isPeriodicPt_iff_minimalPeriod_dvd.mpr (Dvd.intro k rfl)

theorem state_one (p : BitVec w) (hw : 0 < w) : state p (w - 1) = 1#w := by
  have haux : ∀ n ≤ w - 1, state p n = BitVec.twoPow w (w - 1 - n) := by
    intro n
    induction n with
    | zero => exact fun _ => rfl
    | succ n ih =>
      intro hn
      have hlow : (BitVec.twoPow w (w - 1 - n)).getLsbD 0 = false := by
        simp [BitVec.getLsbD_twoPow]
        omega
      rw [state, Function.iterate_succ_apply', ← state, ih (by omega), shift_of_even p hlow]
      apply BitVec.eq_of_getLsbD_eq
      intro i hi
      rw [BitVec.getLsbD_ushiftRight, BitVec.getLsbD_twoPow, BitVec.getLsbD_twoPow]
      have h₁ : w - 1 - n < w := by omega
      have h₂ : w - 1 - (n + 1) < w := by omega
      simp only [h₁, h₂, decide_true, Bool.true_and, decide_eq_decide]
      omega
  rw [haux (w - 1) le_rfl, Nat.sub_self, BitVec.twoPow_zero]

/-- A bit at the low end that is shifted less often than the period says has not come back. -/
theorem iterate_one_ne (hp : p.msb = true) (hw : 0 < w) {k n : ℕ} (hk : 0 < k) (hkn : k < n)
    (hn : Function.minimalPeriod (shift p) (unit w) = n) : (shift p)^[k] 1#w ≠ 1#w := by
  rw [← state_one p hw, state, ← Function.iterate_add_apply, Nat.add_comm,
    Function.iterate_add_apply]
  intro h
  have hback : Function.IsPeriodicPt (shift p) k (unit w) := (shift_injective hp).iterate _ h
  have hle := hback.minimalPeriod_le hk
  omega

/-! ### Single bits -/

/-- One bit is added to the low end and shifted through. -/
def push (p r : BitVec w) (b : Bool) : BitVec w := shift p (r ^^^ (if b then 1#w else 0#w))

/-- The bits of a string of bytes, in the order in which the register takes them. -/
def bitsOf (ds : List (BitVec 8)) : List Bool := ds.flatMap fun d => (List.range 8).map d.getLsbD

theorem length_bitsOf (ds : List (BitVec 8)) : (bitsOf ds).length = 8 * ds.length := by
  induction ds with
  | nil => rfl
  | cons d ds ih =>
    rw [bitsOf, List.flatMap_cons, List.length_append, ← bitsOf, ih]
    simp
    omega

theorem bitsOf_injective : Function.Injective bitsOf := by
  intro ds
  induction ds with
  | nil =>
    intro ds' h
    have hlen := congrArg List.length h
    rw [length_bitsOf, length_bitsOf, List.length_nil] at hlen
    exact (List.eq_nil_of_length_eq_zero (by omega)).symm
  | cons d ds ih =>
    intro ds' h
    cases ds' with
    | nil =>
      have hlen := congrArg List.length h
      rw [length_bitsOf, length_bitsOf, List.length_nil, List.length_cons] at hlen
      omega
    | cons d' ds' =>
      rw [bitsOf, bitsOf, List.flatMap_cons, List.flatMap_cons] at h
      obtain ⟨hd, hds⟩ := List.append_inj h (by simp)
      have hbyte : d = d' := by
        apply BitVec.eq_of_getLsbD_eq
        intro i hi
        exact List.map_inj_left.mp hd i (List.mem_range.mpr hi)
      rw [hbyte, ih hds]

theorem one_shiftLeft_shiftRight {n : ℕ} (hn : n < w) (b : Bool) :
    (if b then 1#w else 0#w) <<< n >>> n = if b then 1#w else 0#w := by
  apply BitVec.eq_of_getLsbD_eq
  intro i hi
  cases b
  · simp
  · by_cases hzero : i = 0
    · simp [hzero, hn, Nat.zero_lt_of_lt hn]
    · simp [hzero]

theorem feed_eq_push (hw : 8 ≤ w) (p r : BitVec w) (d : BitVec 8) :
    feed p r d = ((List.range 8).map d.getLsbD).foldl (push p) r := by
  have hbits : ∀ n ≤ 8, ((List.range n).map d.getLsbD).foldl (push p) r =
      (shift p)^[n] (r ^^^ (d.setWidth n).setWidth w) := by
    intro n
    induction n with
    | zero =>
      intro _
      have hzero : (d.setWidth 0).setWidth w = 0#w := by
        apply BitVec.eq_of_getLsbD_eq
        intro i hi
        simp
      simp [hzero]
    | succ n ih =>
      intro hn
      have hsplit : (d.setWidth (n + 1)).setWidth w =
          (d.setWidth n).setWidth w ^^^ ((if d.getLsbD n then 1#w else 0#w) <<< n) := by
        apply BitVec.eq_of_getLsbD_eq
        intro i hi
        rcases lt_trichotomy i n with hin | rfl | hin
        · simp [hi, hin, hin.trans (Nat.lt_succ_self n)]
        · cases hbit : d.getLsbD i <;> simp [hi, hbit]
        · have hout : i - n ≠ 0 := by omega
          cases d.getLsbD n <;> simp [hi, hin.not_gt, hout, show ¬ i < n + 1 by omega]
      rw [List.range_succ, List.map_append, List.foldl_append, ih (by omega), hsplit,
        ← BitVec.xor_assoc, Function.iterate_succ_apply', iterate_xor p (r ^^^ _),
        iterate_shiftLeft, one_shiftLeft_shiftRight (by omega)]
      rfl
  simpa [feed] using (hbits 8 le_rfl).symm

theorem foldl_feed_eq_push (hw : 8 ≤ w) (p : BitVec w) : ∀ (ds : List (BitVec 8)) (r : BitVec w),
    ds.foldl (feed p) r = (bitsOf ds).foldl (push p) r
  | [], _ => rfl
  | d :: ds, r => by
    rw [List.foldl_cons, foldl_feed_eq_push hw p ds, feed_eq_push hw, bitsOf, bitsOf,
      List.flatMap_cons, List.foldl_append]

theorem foldl_push_xor (p : BitVec w) (bs : List Bool) (r r' : BitVec w) :
    bs.foldl (push p) (r ^^^ r') = bs.foldl (push p) r ^^^ (shift p)^[bs.length] r' := by
  induction bs generalizing r r' with
  | nil => rfl
  | cons b bs ih =>
    have hstep : push p (r ^^^ r') b = push p r b ^^^ shift p r' := by
      rw [push, push, ← shift_xor]
      congr 1
      ac_rfl
    rw [List.foldl_cons, hstep, ih]
    rfl

theorem push_not (p r : BitVec w) (b : Bool) : push p r (!b) = push p r b ^^^ shift p 1#w := by
  rw [push, push, ← shift_xor]
  congr 1
  have htwice : r ^^^ 1#w ^^^ 1#w = r := by
    rw [BitVec.xor_assoc, BitVec.xor_self, BitVec.xor_zero]
  cases b
  · simp
  · simp [htwice]

theorem foldl_push_injective (hp : p.msb = true) (bs : List Bool) :
    Function.Injective fun r => bs.foldl (push p) r := by
  intro r r' h
  induction bs generalizing r r' with
  | nil => exact h
  | cons b bs ih => exact (BitVec.xor_left_inj _).mp (shift_injective hp (ih h))

/-- The number of places where two strings of bits differ. -/
def distance (bs bs' : List Bool) : ℕ := (bs.zip bs').countP fun x => x.1 != x.2

@[simp] theorem distance_cons (b b' : Bool) (bs bs' : List Bool) :
    distance (b :: bs) (b' :: bs') = distance bs bs' + if b = b' then 0 else 1 := by
  rw [distance, List.zip_cons_cons, List.countP_cons, distance]
  cases b <;> cases b' <;> rfl

theorem eq_of_distance : ∀ {bs bs' : List Bool}, bs.length = bs'.length → distance bs bs' = 0 →
    bs = bs'
  | [], [], _, _ => rfl
  | b :: bs, b' :: bs', hlen, h => by
    rw [distance_cons] at h
    have hb : b = b' := by
      by_contra hne
      rw [if_neg hne] at h
      omega
    rw [hb, eq_of_distance (Nat.succ.inj hlen) (by omega)]

theorem eq_zero_of_xor {r x : BitVec w} (h : r = r ^^^ x) : x = 0#w :=
  (BitVec.xor_right_inj r).mp (h.symm.trans BitVec.xor_zero.symm)

/-- A difference in the register that does not come to the low end is not made up for by one
flipped bit. -/
theorem foldl_push_ne_of_distance_le_one (hp : p.msb = true) : ∀ {bs bs' : List Bool}
    (r x : BitVec w), bs.length = bs'.length → distance bs bs' ≤ 1 → x ≠ 0#w →
    (∀ k < bs.length, (shift p)^[k] x ≠ 1#w) →
    bs.foldl (push p) r ≠ bs'.foldl (push p) (r ^^^ x)
  | [], [], _, _, _, _, hx, _ => fun h => hx (eq_zero_of_xor h)
  | b :: bs, b' :: bs', r, x, hlen, hdist, hx, hlow => by
    have hshift : shift p x ≠ 0#w := by
      rw [← shift_zero p]
      exact fun h => hx (shift_injective hp h)
    have hpush : push p (r ^^^ x) b = push p r b ^^^ shift p x := foldl_push_xor p [b] r x
    rw [distance_cons] at hdist
    rw [List.foldl_cons, List.foldl_cons]
    by_cases hb : b = b'
    · subst hb
      rw [hpush]
      refine foldl_push_ne_of_distance_le_one hp _ _ (Nat.succ.inj hlen) (by omega) hshift ?_
      exact fun k hk => hlow (k + 1) (Nat.succ_lt_succ hk)
    · have hb' : b' = !b := by
        revert hb
        cases b <;> cases b' <;> simp
      rw [if_neg hb] at hdist
      obtain rfl := eq_of_distance (Nat.succ.inj hlen) (by omega)
      intro h
      have hreg := foldl_push_injective hp bs h
      rw [hb', push_not, hpush, BitVec.xor_assoc, ← shift_xor] at hreg
      have hzero : shift p (x ^^^ 1#w) = shift p 0#w := by rw [shift_zero, eq_zero_of_xor hreg]
      have hone : x = 1#w := BitVec.xor_eq_zero_iff.mp (shift_injective hp hzero)
      exact hlow 0 (Nat.succ_pos _) hone

/-- Two flipped bits leave different registers as long as the message is not longer than the
period. -/
theorem foldl_push_ne (hp : p.msb = true) (hw : 0 < w) {n : ℕ}
    (hn : Function.minimalPeriod (shift p) (unit w) = n) : ∀ {bs bs' : List Bool} (r : BitVec w),
    bs.length = bs'.length → bs.length ≤ n → bs ≠ bs' → distance bs bs' ≤ 2 →
    bs.foldl (push p) r ≠ bs'.foldl (push p) r
  | [], [], _, _, _, hne, _ => absurd rfl hne
  | b :: bs, b' :: bs', r, hlen, hle, hne, hdist => by
    rw [List.length_cons] at hle
    rw [distance_cons] at hdist
    rw [List.foldl_cons, List.foldl_cons]
    by_cases hb : b = b'
    · subst hb
      refine foldl_push_ne hp hw hn _ (Nat.succ.inj hlen) (by omega) ?_ (by omega)
      exact fun h => hne (by rw [h])
    · have hb' : b' = !b := by
        revert hb
        cases b <;> cases b' <;> simp
      rw [if_neg hb] at hdist
      rw [hb', push_not]
      refine foldl_push_ne_of_distance_le_one hp _ _ (Nat.succ.inj hlen) (by omega) ?_ ?_
      · rw [← shift_zero p]
        intro h
        have hone := shift_injective hp h
        simp at hone
        omega
      · intro k hk
        rw [← Function.iterate_succ_apply]
        exact iterate_one_ne hp hw (Nat.succ_pos k) (by omega) hn

end ShiftRegister
end XiaoHGServer
