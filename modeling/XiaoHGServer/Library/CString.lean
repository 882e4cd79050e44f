import Mathlib.Data.List.DropRight
import Mathlib.Data.List.TakeWhile
import Mathlib.Logic.Function.Basic
import Mathlib.Tactic.Common

/-!
# Strings in memory

A memory maps cells to values and keeps a record of the accesses to it. The string
at a cell is what is there up to the first zero. Every operation comes with the
strings it leaves behind and the cells it touches.
-/

namespace XiaoHGServer

inductive Access
  | read (i : ℕ)
  | write (i : ℕ)
  deriving DecidableEq, Repr

def Access.cell : Access → ℕ
  | .read i => i
  | .write i => i

/-- The values of the cells, and the accesses to them, newest first. -/
structure Memory (α : Type*) where
  cell : ℕ → α
  log : List Access

namespace Memory

variable {α : Type*} {m m' m'' : Memory α} {p q i lo hi : ℕ} {s vs : List α} {c : α}

def load (m : Memory α) (i : ℕ) : Memory α × α := ({ m with log := .read i :: m.log }, m.cell i)

def store (m : Memory α) (i : ℕ) (c : α) : Memory α :=
  ⟨Function.update m.cell i c, .write i :: m.log⟩

def storeAll (m : Memory α) (p : ℕ) : List α → Memory α
  | [] => m
  | c :: vs => (m.store p c).storeAll (p + 1) vs

@[simp] theorem load_cell : (m.load i).1.cell = m.cell := rfl

@[simp] theorem load_value : (m.load i).2 = m.cell i := rfl

@[simp] theorem store_cell_self : (m.store i c).cell i = c := by simp [store]

@[simp] theorem store_cell_ne {j : ℕ} (h : j ≠ i) : (m.store i c).cell j = m.cell j := by
  simp [store, h]

/-! ### What is touched -/

/-- From one memory to the other only cells from `lo` up to `hi` are touched. -/
structure Within (lo hi : ℕ) (m m' : Memory α) : Prop where
  frame : ∀ i, ¬ (lo ≤ i ∧ i < hi) → m'.cell i = m.cell i
  log : ∃ new, m'.log = new ++ m.log ∧ ∀ a ∈ new, lo ≤ a.cell ∧ a.cell < hi

namespace Within

theorem refl (lo hi : ℕ) (m : Memory α) : Within lo hi m m := ⟨fun _ _ => rfl, [], rfl, by simp⟩

theorem trans (h : Within lo hi m m') (h' : Within lo hi m' m'') : Within lo hi m m'' := by
  obtain ⟨hframe, new, hlog, hnew⟩ := h
  obtain ⟨hframe', new', hlog', hnew'⟩ := h'
  refine ⟨fun i hi => (hframe' i hi).trans (hframe i hi), new' ++ new, ?_, fun a ha => ?_⟩
  · rw [hlog', hlog, List.append_assoc]
  · rcases List.mem_append.mp ha with ha | ha
    · exact hnew' a ha
    · exact hnew a ha

theorem mono {lo' hi' : ℕ} (h : Within lo hi m m') (hlo : lo' ≤ lo) (hhi : hi ≤ hi') :
    Within lo' hi' m m' := by
  obtain ⟨hframe, new, hlog, hnew⟩ := h
  refine ⟨fun i hi => hframe i fun hin => hi ⟨hlo.trans hin.1, lt_of_lt_of_le hin.2 hhi⟩, new,
    hlog, fun a ha => ?_⟩
  exact ⟨hlo.trans (hnew a ha).1, lt_of_lt_of_le (hnew a ha).2 hhi⟩

theorem load (hlo : lo ≤ i) (hhi : i < hi) : Within lo hi m (m.load i).1 := by
  refine ⟨fun _ _ => rfl, [.read i], rfl, fun a ha => ?_⟩
  rw [List.mem_singleton.mp ha]
  exact ⟨hlo, hhi⟩

theorem store (hlo : lo ≤ i) (hhi : i < hi) : Within lo hi m (m.store i c) := by
  refine ⟨fun j hj => store_cell_ne ?_, [.write i], rfl, fun a ha => ?_⟩
  · rintro rfl
    exact hj ⟨hlo, hhi⟩
  · rw [List.mem_singleton.mp ha]
    exact ⟨hlo, hhi⟩

theorem log_subset (h : Within lo hi m m') : m.log ⊆ m'.log := by
  obtain ⟨-, new, hlog, -⟩ := h
  rw [hlog]
  exact List.subset_append_right new m.log

theorem below {k : ℕ} (h : Within lo hi m m') (hhi : hi ≤ k) (hm : ∀ a ∈ m.log, a.cell < k) :
    ∀ a ∈ m'.log, a.cell < k := by
  intro a ha
  obtain ⟨-, new, hlog, hnew⟩ := h
  rw [hlog] at ha
  rcases List.mem_append.mp ha with ha | ha
  · exact (hnew a ha).2.trans_le hhi
  · exact hm a ha

theorem mem_log {a : Access} (h : Within lo hi m m') (hm : m.log = []) (ha : a ∈ m'.log) :
    lo ≤ a.cell ∧ a.cell < hi := by
  obtain ⟨-, new, hlog, hnew⟩ := h
  rw [hlog, hm, List.append_nil] at ha
  exact hnew a ha

end Within

theorem storeAll_within : ∀ {vs : List α} {m : Memory α} {p : ℕ},
    Within p (p + vs.length) m (m.storeAll p vs)
  | [], m, p => .refl _ _ m
  | c :: vs, m, p => by
    have hfirst : Within p (p + (c :: vs).length) m (m.store p c) :=
      .store le_rfl (by simp)
    have hrest : Within (p + 1) (p + 1 + vs.length) (m.store p c)
        ((m.store p c).storeAll (p + 1) vs) := storeAll_within
    refine hfirst.trans (hrest.mono (Nat.le_succ p) ?_)
    rw [List.length_cons]
    omega

theorem storeAll_cell : ∀ {vs : List α} {m : Memory α} {p i : ℕ} (h : i < vs.length),
    (m.storeAll p vs).cell (p + i) = vs[i]
  | c :: vs, m, p, 0, _ => by
    have hrest : Within (p + 1) (p + 1 + vs.length) (m.store p c)
        ((m.store p c).storeAll (p + 1) vs) := storeAll_within
    change ((m.store p c).storeAll (p + 1) vs).cell p = c
    rw [hrest.frame p (by omega), store_cell_self]
  | c :: vs, m, p, i + 1, h => by
    have hi : i < vs.length := by simpa using h
    have hrest := storeAll_cell (m := m.store p c) (p := p + 1) hi
    rw [storeAll, show p + (i + 1) = p + 1 + i by omega, hrest]
    rfl

theorem storeAll_log : ∀ {vs : List α} {m : Memory α} {p : ℕ} {a : Access},
    a ∈ (m.storeAll p vs).log → a ∈ m.log ∨ ∃ i < vs.length, a = .write (p + i)
  | [], _, _, _, h => Or.inl h
  | c :: vs, m, p, a, h => by
    rw [storeAll] at h
    rcases storeAll_log h with h | ⟨i, hi, rfl⟩
    · rcases List.mem_cons.mp h with rfl | h
      · exact Or.inr ⟨0, by simp, rfl⟩
      · exact Or.inl h
    · refine Or.inr ⟨i + 1, by simpa using hi, ?_⟩
      rw [show p + (i + 1) = p + 1 + i by omega]

theorem write_mem_storeAll : ∀ {vs : List α} {m : Memory α} {p i : ℕ}, i < vs.length →
    .write (p + i) ∈ (m.storeAll p vs).log
  | c :: vs, m, p, 0, _ => by
    have hrest : Within (p + 1) (p + 1 + vs.length) (m.store p c)
        ((m.store p c).storeAll (p + 1) vs) := storeAll_within
    exact hrest.log_subset (List.mem_cons_self ..)
  | c :: vs, m, p, i + 1, h => by
    have hrest := write_mem_storeAll (m := m.store p c) (p := p + 1) (Nat.lt_of_succ_lt_succ h)
    rwa [Nat.add_assoc, Nat.add_comm 1] at hrest

/-! ### Strings -/

section Strings

variable [Zero α]

structure Holds (m : Memory α) (p : ℕ) (s : List α) : Prop where
  text : ∀ i (h : i < s.length), m.cell (p + i) = s[i]
  nul : m.cell (p + s.length) = 0
  nonzero : ∀ c ∈ s, c ≠ 0

namespace Holds

theorem congr (h : m.Holds p s) (hcell : ∀ i, p ≤ i → i ≤ p + s.length → m'.cell i = m.cell i) :
    m'.Holds p s := by
  refine ⟨fun i hi => ?_, ?_, h.nonzero⟩
  · rw [hcell _ (Nat.le_add_right p i) (by omega)]
    exact h.text i hi
  · rw [hcell _ (Nat.le_add_right p _) le_rfl]
    exact h.nul

theorem frame (h : m.Holds p s) (hw : Within lo hi m m')
    (hout : p + s.length < lo ∨ hi ≤ p) : m'.Holds p s :=
  h.congr fun i _ _ => hw.frame i (by omega)

theorem load (h : m.Holds p s) (i : ℕ) : (m.load i).1.Holds p s := ⟨h.text, h.nul, h.nonzero⟩

theorem record (h : m.Holds p s) (log : List Access) : Holds ⟨m.cell, log⟩ p s :=
  ⟨h.text, h.nul, h.nonzero⟩

theorem head (h : m.Holds p (c :: s)) : m.cell p = c := h.text 0 (by simp)

theorem tail (h : m.Holds p (c :: s)) : m.Holds (p + 1) s := by
  refine ⟨fun i hi => ?_, ?_, fun x hx => h.nonzero x (List.mem_cons_of_mem c hx)⟩
  · rw [show p + 1 + i = p + (i + 1) by omega]
    exact h.text (i + 1) (by simpa using hi)
  · rw [show p + 1 + s.length = p + (s.length + 1) by omega]
    exact h.nul

theorem append_right : ∀ {s t : List α} {p : ℕ}, m.Holds p (s ++ t) → m.Holds (p + s.length) t
  | [], _, _, h => h
  | c :: s, t, p, h => by
    have hrest := append_right (s := s) (Holds.tail h)
    rwa [List.length_cons, show p + (s.length + 1) = p + 1 + s.length by omega]

theorem cons (hc : m.cell p = c) (hne : c ≠ 0) (h : m.Holds (p + 1) s) : m.Holds p (c :: s) := by
  refine ⟨fun i hi => ?_, ?_, fun x hx => ?_⟩
  · cases i with
    | zero => exact hc
    | succ i =>
      rw [show p + (i + 1) = p + 1 + i by omega]
      exact h.text i (by simpa using hi)
  · rw [List.length_cons, show p + (s.length + 1) = p + 1 + s.length by omega]
    exact h.nul
  · rcases List.mem_cons.mp hx with rfl | hx
    · exact hne
    · exact h.nonzero x hx

end Holds

/-- `strcpy`, where `src` is the text of the source. -/
def strcpy (m : Memory α) (p : ℕ) (src : List α) : Memory α := m.storeAll p (src ++ [0])

/-- `strncpy`: exactly `n` cells are written, and no zero behind a source that fills them. -/
def strncpy (m : Memory α) (p : ℕ) (src : List α) (n : ℕ) : Memory α :=
  m.storeAll p (src.take n ++ List.replicate (n - src.length) 0)

theorem strcpy_within : Within p (p + s.length + 1) m (m.strcpy p s) := by
  have h : Within p (p + (s ++ [0]).length) m (m.storeAll p (s ++ [0])) := storeAll_within
  refine h.mono le_rfl ?_
  simp
  omega

theorem strcpy_holds (hs : ∀ c ∈ s, c ≠ 0) : (m.strcpy p s).Holds p s := by
  refine ⟨fun i hi => ?_, ?_, hs⟩
  · rw [strcpy, storeAll_cell (by simp; omega), List.getElem_append_left hi]
  · rw [strcpy, storeAll_cell (by simp)]
    simp

theorem exists_text : ∀ vs : List α, ∃ s rest, vs = s ++ rest ∧ (∀ c ∈ s, c ≠ 0) ∧
    (rest = [] ∨ ∃ rest', rest = 0 :: rest')
  | [] => ⟨[], [], rfl, by simp, Or.inl rfl⟩
  | c :: vs => by
    by_cases hc : c = 0
    · exact ⟨[], c :: vs, rfl, by simp, Or.inr ⟨vs, by rw [hc]⟩⟩
    · obtain ⟨s, rest, rfl, hs, hrest⟩ := exists_text vs
      refine ⟨c :: s, rest, rfl, fun x hx => ?_, hrest⟩
      rcases List.mem_cons.mp hx with rfl | hx
      · exact hc
      · exact hs x hx

end Strings

section Scan

variable [Zero α] [DecidableEq α]

def strlenFrom : ℕ → Memory α → ℕ → ℕ → Memory α × ℕ
  | 0, m, _, n => (m, n)
  | fuel + 1, m, p, n =>
    let (m, c) := m.load (p + n)
    if c = 0 then (m, n) else strlenFrom fuel m p (n + 1)

def strlen (size : ℕ) (m : Memory α) (p : ℕ) : Memory α × ℕ := strlenFrom size m p 0

theorem strlenFrom_succ (fuel : ℕ) (m : Memory α) (p n : ℕ) :
    strlenFrom (fuel + 1) m p n = if m.cell (p + n) = 0 then ((m.load (p + n)).1, n)
      else strlenFrom fuel (m.load (p + n)).1 p (n + 1) := rfl

theorem strlenFrom_spec : ∀ {fuel n : ℕ} {m : Memory α}, m.Holds p s → n ≤ s.length →
    s.length < n + fuel →
    (strlenFrom fuel m p n).2 = s.length ∧ (strlenFrom fuel m p n).1.cell = m.cell ∧
      Within p (p + s.length + 1) m (strlenFrom fuel m p n).1
  | 0, n, m, _, hn, hf => by omega
  | fuel + 1, n, m, h, hn, hf => by
    have hload : Within p (p + s.length + 1) m (m.load (p + n)).1 :=
      .load (Nat.le_add_right p n) (by omega)
    rw [strlenFrom_succ]
    rcases Nat.eq_or_lt_of_le hn with rfl | hlt
    · rw [if_pos h.nul]
      exact ⟨rfl, rfl, hload⟩
    · have hne : m.cell (p + n) ≠ 0 := by
        rw [h.text n hlt]
        exact h.nonzero _ (List.getElem_mem hlt)
      rw [if_neg hne]
      obtain ⟨hlen, hcell, hw⟩ := strlenFrom_spec (h.load (p + n)) hlt
        (show s.length < n + 1 + fuel by omega)
      exact ⟨hlen, hcell, hload.trans hw⟩

theorem strlen_spec {size : ℕ} (h : m.Holds p s) (hsize : s.length < size) :
    (strlen size m p).2 = s.length ∧ (strlen size m p).1.cell = m.cell ∧
      Within p (p + s.length + 1) m (strlen size m p).1 :=
  strlenFrom_spec h (Nat.zero_le _) (by omega)

theorem strlenFrom_log : ∀ {fuel n : ℕ} {m : Memory α}, m.log <:+ (strlenFrom fuel m p n).1.log
  | 0, _, m => List.suffix_refl _
  | fuel + 1, n, m => by
    have hload : m.log <:+ (m.load (p + n)).1.log := List.suffix_cons _ _
    rw [strlenFrom_succ]
    split
    · exact hload
    · exact hload.trans strlenFrom_log

/-- The scan reads on as long as it finds no zero. -/
theorem read_mem_strlenFrom : ∀ {fuel n k : ℕ} {m : Memory α},
    (∀ i < k, m.cell (p + (n + i)) ≠ 0) → k < fuel →
    .read (p + (n + k)) ∈ (strlenFrom fuel m p n).1.log
  | 0, _, _, _, _, hk => by omega
  | fuel + 1, n, 0, m, _, _ => by
    have hread : .read (p + n) ∈ (m.load (p + n)).1.log := List.mem_cons_self ..
    rw [strlenFrom_succ, Nat.add_zero]
    split
    · exact hread
    · exact strlenFrom_log.subset hread
  | fuel + 1, n, k + 1, m, hne, hk => by
    have hfirst : m.cell (p + n) ≠ 0 := hne 0 (Nat.succ_pos k)
    have hrest (i : ℕ) (hi : i < k) : (m.load (p + n)).1.cell (p + (n + 1 + i)) ≠ 0 := by
      rw [load_cell, show n + 1 + i = n + (i + 1) by omega]
      exact hne (i + 1) (by omega)
    rw [strlenFrom_succ, if_neg hfirst, show n + (k + 1) = n + 1 + k by omega]
    exact read_mem_strlenFrom hrest (Nat.lt_of_succ_lt_succ hk)

theorem read_mem_strlen {size k : ℕ} (hne : ∀ i < k, m.cell (p + i) ≠ 0) (hk : k < size) :
    .read (p + k) ∈ (strlen size m p).1.log := by
  have hne' (i : ℕ) (hi : i < k) : m.cell (p + (0 + i)) ≠ 0 := by
    rw [Nat.zero_add]
    exact hne i hi
  have hread := read_mem_strlenFrom hne' hk
  rwa [Nat.zero_add] at hread

/-- The text at cell `p`, which ends within `size` cells. -/
def textAt : ℕ → Memory α → ℕ → List α
  | 0, _, _ => []
  | size + 1, m, p => if m.cell p = 0 then [] else m.cell p :: textAt size m (p + 1)

theorem Holds.textAt_eq : ∀ {s : List α} {size p : ℕ}, m.Holds p s → s.length < size →
    textAt size m p = s
  | [], size + 1, p, h, _ => by
    have hnul : m.cell p = 0 := h.nul
    rw [textAt, if_pos hnul]
  | c :: s, size + 1, p, h, hsize => by
    have hne : m.cell p ≠ 0 := by
      rw [h.head]
      exact h.nonzero c (List.mem_cons_self ..)
    rw [textAt, if_neg hne, h.head, h.tail.textAt_eq (by simpa using hsize)]

end Scan

end Memory
end XiaoHGServer
