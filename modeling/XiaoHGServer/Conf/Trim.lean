import XiaoHGServer.Model.Conf

/-!
# `Rtrim` and `Ltrim`

Both take the spaces off one end of a string in place, and touch nothing behind the
zero that ends it.
-/

namespace XiaoHGServer

open Memory

variable {m : Memory Byte} {p q r n fuel : ℕ} {s : List Byte} {c : Byte}

theorem rtrimLoop_succ (m : Memory Byte) (string len : ℕ) : rtrimLoop m string (len + 1) =
    if m.cell (string + len) = space then
      rtrimLoop ((m.load (string + len)).1.store (string + len) 0) string len
    else (m.load (string + len)).1 := rfl

theorem rtrimLoop_spec (s : List Byte) : ∀ {m : Memory Byte}, m.Holds p s →
    (rtrimLoop m p s.length).Holds p (s.rdropWhile (· == space)) ∧
      Within p (p + s.length + 1) m (rtrimLoop m p s.length) := by
  induction s using List.reverseRecOn with
  | nil => exact fun h => ⟨h, .refl _ _ _⟩
  | append_singleton s c ih =>
    intro m h
    have hlast : m.cell (p + s.length) = c := by
      rw [h.text s.length (by simp)]
      simp
    have hload : Within p (p + (s.length + 1) + 1) m (m.load (p + s.length)).1 :=
      .load (Nat.le_add_right _ _) (by omega)
    rw [List.length_append, List.length_singleton, rtrimLoop_succ, hlast]
    by_cases hc : c = space
    · have hshort : ((m.load (p + s.length)).1.store (p + s.length) 0).Holds p s := by
        refine ⟨fun i hi => ?_, store_cell_self, fun x hx =>
          h.nonzero x (List.mem_append_left _ hx)⟩
        have hin : i < (s ++ [c]).length := by
          rw [List.length_append]
          exact Nat.lt_add_right _ hi
        rw [store_cell_ne (by omega), load_cell, h.text i hin, List.getElem_append_left hi]
      obtain ⟨hholds, hw⟩ := ih hshort
      rw [if_pos hc, List.rdropWhile_concat_pos _ _ _ (by simpa using hc)]
      refine ⟨hholds, hload.trans ?_⟩
      have hstore : Within p (p + (s.length + 1) + 1) (m.load (p + s.length)).1
          ((m.load (p + s.length)).1.store (p + s.length) 0) :=
        .store (Nat.le_add_right _ _) (by omega)
      exact hstore.trans (hw.mono le_rfl (by omega))
    · rw [if_neg hc, List.rdropWhile_concat_neg _ _ _ (by simpa using hc)]
      exact ⟨h.load _, hload⟩

theorem rtrim_spec (h : m.Holds p s) (hs : s.length < sizeofConfItem) :
    (rtrim m p).Holds p (s.rdropWhile (· == space)) ∧
      Within p (p + s.length + 1) m (rtrim m p) := by
  obtain ⟨hlen, hcell, hw⟩ := strlen_spec h hs
  have hholds : (strlen sizeofConfItem m p).1.Holds p s := h.congr fun i _ _ => by rw [hcell]
  obtain ⟨htrim, hw'⟩ := rtrimLoop_spec s hholds
  have hform : rtrim m p = rtrimLoop (strlen sizeofConfItem m p).1 p s.length := by
    rw [← hlen]
    rfl
  rw [hform]
  exact ⟨htrim, hw.trans hw'⟩

theorem rtrimLoop_log : ∀ {len : ℕ} {m : Memory Byte}, m.log <:+ (rtrimLoop m p len).log
  | 0, m => List.suffix_refl _
  | len + 1, m => by
    have hload : m.log <:+ (m.load (p + len)).1.log := List.suffix_cons _ _
    have hstore : (m.load (p + len)).1.log <:+ ((m.load (p + len)).1.store (p + len) 0).log :=
      List.suffix_cons _ _
    rw [rtrimLoop_succ]
    split
    · exact (hload.trans hstore).trans rtrimLoop_log
    · exact hload

/-- Without a zero among the first `n` bytes the scan for the end of the string gets beyond
them. -/
theorem read_mem_rtrim (hne : ∀ i < n, m.cell (p + i) ≠ 0) (hn : n < sizeofConfItem) :
    .read (p + n) ∈ (rtrim m p).log :=
  rtrimLoop_log.subset (read_mem_strlen hne hn)

theorem ltrimSkip_succ (fuel : ℕ) (m : Memory Byte) (q : ℕ) : ltrimSkip (fuel + 1) m q =
    if m.cell q = 0 then ((m.load q).1, q)
    else if m.cell q = space then ltrimSkip fuel ((m.load q).1.load q).1 (q + 1)
    else (((m.load q).1.load q).1, q) := rfl

theorem ltrimSkip_spec : ∀ {s : List Byte} {fuel q : ℕ} {m : Memory Byte}, m.Holds q s →
    s.length < fuel →
    (ltrimSkip fuel m q).1.cell = m.cell ∧
      (ltrimSkip fuel m q).2 = q + (s.takeWhile (· == space)).length ∧
      Within q (q + s.length + 1) m (ltrimSkip fuel m q).1
  | [], fuel + 1, q, m, h, _ => by
    have hnul : m.cell q = 0 := h.nul
    rw [ltrimSkip_succ, if_pos hnul]
    exact ⟨rfl, rfl, .load le_rfl (Nat.lt_succ_self _)⟩
  | c :: s, fuel + 1, q, m, h, hf => by
    have hne : m.cell q ≠ 0 := by
      rw [h.head]
      exact h.nonzero c (List.mem_cons_self ..)
    have hload {m : Memory Byte} : Within q (q + (c :: s).length + 1) m (m.load q).1 :=
      .load le_rfl (by rw [List.length_cons]; omega)
    rw [ltrimSkip_succ, if_neg hne, h.head]
    by_cases hc : c = space
    · have hrest : ((m.load q).1.load q).1.Holds (q + 1) s := (h.tail.load q).load q
      obtain ⟨hcell, hpos, hw⟩ := ltrimSkip_spec hrest (Nat.lt_of_succ_lt_succ hf)
      have htake : (c :: s).takeWhile (· == space) = c :: s.takeWhile (· == space) := by simp [hc]
      rw [if_pos hc, htake]
      refine ⟨hcell, ?_, ?_⟩
      · rw [hpos, List.length_cons]
        omega
      · refine (hload.trans hload).trans (hw.mono (Nat.le_succ q) ?_)
        rw [List.length_cons]
        omega
    · have htake : (c :: s).takeWhile (· == space) = [] := by simp [hc]
      rw [if_neg hc, htake]
      exact ⟨rfl, rfl, hload.trans hload⟩

theorem ltrimMove_succ (fuel : ℕ) (m : Memory Byte) (q r : ℕ) : ltrimMove (fuel + 1) m q r =
    if m.cell q = 0 then (m.load q).1.store r 0
    else ltrimMove fuel (((m.load q).1.load q).1.store r (m.cell q)) (q + 1) (r + 1) := rfl

/-- The second loop moves a string down, also onto itself. -/
theorem ltrimMove_spec : ∀ {s : List Byte} {fuel q r : ℕ} {m : Memory Byte}, m.Holds q s →
    s.length < fuel → r ≤ q →
    (ltrimMove fuel m q r).Holds r s ∧ Within r (q + s.length + 1) m (ltrimMove fuel m q r)
  | [], fuel + 1, q, r, m, h, _, hrq => by
    have hnul : m.cell q = 0 := h.nul
    have hload : Within r (q + 1) m (m.load q).1 := .load hrq (Nat.lt_succ_self q)
    rw [ltrimMove_succ, if_pos hnul]
    refine ⟨⟨fun i hi => absurd hi (Nat.not_lt_zero i), store_cell_self, by simp⟩,
      hload.trans (.store le_rfl (Nat.lt_succ_of_le hrq))⟩
  | c :: s, fuel + 1, q, r, m, h, hf, hrq => by
    have hne : m.cell q ≠ 0 := by
      rw [h.head]
      exact h.nonzero c (List.mem_cons_self ..)
    have hload {m : Memory Byte} : Within r (q + (c :: s).length + 1) m (m.load q).1 :=
      .load hrq (by rw [List.length_cons]; omega)
    have hstore {m : Memory Byte} : Within r (q + (c :: s).length + 1) m (m.store r c) :=
      .store le_rfl (by rw [List.length_cons]; omega)
    -- the write is below what has still to be read
    have hrest : (((m.load q).1.load q).1.store r c).Holds (q + 1) s :=
      h.tail.congr fun i hi _ => store_cell_ne (by omega)
    obtain ⟨hholds, hw⟩ := ltrimMove_spec hrest (Nat.lt_of_succ_lt_succ hf)
      (Nat.succ_le_succ hrq)
    rw [ltrimMove_succ, if_neg hne, h.head]
    refine ⟨.cons ?_ (h.nonzero c (List.mem_cons_self ..)) hholds, ?_⟩
    · rw [hw.frame r (by omega), store_cell_self]
    · refine ((hload.trans hload).trans hstore).trans (hw.mono (Nat.le_succ r) ?_)
      rw [List.length_cons]
      omega

theorem ltrim_spec (h : m.Holds p s) (hs : s.length < sizeofConfItem) :
    (ltrim m p).Holds p (s.dropWhile (· == space)) ∧
      Within p (p + s.length + 1) m (ltrim m p) := by
  obtain ⟨-, hcell, hw⟩ := strlen_spec h hs
  set m₁ := (strlen sizeofConfItem m p).1 with hm₁
  have hholds : m₁.Holds p s := h.congr fun i _ _ => by rw [hcell]
  have hload {m : Memory Byte} {i : ℕ} (hlo : p ≤ i) (hhi : i ≤ p + s.length) :
      Within p (p + s.length + 1) m (m.load i).1 := .load hlo (Nat.lt_succ_of_le hhi)
  have hw₁ := hw.trans (hload (m := m₁) le_rfl (Nat.le_add_right p _))
  by_cases hc : m₁.cell p = space
  · obtain ⟨hcell', hpos, hskip⟩ := ltrimSkip_spec (hholds.load p) hs
    set m₂ := (ltrimSkip sizeofConfItem (m₁.load p).1 p).1 with hm₂
    set q := (ltrimSkip sizeofConfItem (m₁.load p).1 p).2 with hq
    have hsplit : s.takeWhile (· == space) ++ s.dropWhile (· == space) = s :=
      List.takeWhile_append_dropWhile
    have hlen : (s.takeWhile (· == space)).length + (s.dropWhile (· == space)).length =
        s.length := by
      rw [← List.length_append, hsplit]
    have hrest : m₂.Holds q (s.dropWhile (· == space)) := by
      rw [hpos]
      refine Holds.append_right ?_
      rw [hsplit]
      exact hholds.congr fun i _ _ => by rw [hcell']; rfl
    have hw₂ := (hw₁.trans hskip).trans
      (hload (m := m₂) (i := q) (by omega) (by omega))
    have hform : ltrim m p = if m₂.cell q = 0 then (m₂.load q).1.store p 0
        else ltrimMove sizeofConfItem (m₂.load q).1 q p := by
      rw [ltrim]
      simp only [← hm₁, load_value, hc, ne_eq, not_true_eq_false, if_false, ← hm₂, ← hq]
    rw [hform]
    split
    · rename_i hnul
      have hnil : s.dropWhile (· == space) = [] := by
        cases hd : s.dropWhile (· == space) with
        | nil => rfl
        | cons c t =>
          rw [hd] at hrest
          rw [hrest.head] at hnul
          exact absurd hnul (hrest.nonzero c (List.mem_cons_self ..))
      rw [hnil]
      refine ⟨⟨fun i hi => absurd hi (Nat.not_lt_zero i), store_cell_self, by simp⟩,
        hw₂.trans (.store le_rfl (by omega))⟩
    · obtain ⟨hmove, hw₃⟩ := ltrimMove_spec (hrest.load q)
        (show _ < sizeofConfItem by omega) (show p ≤ q by omega)
      exact ⟨hmove, hw₂.trans (hw₃.mono le_rfl (by omega))⟩
  · have hkeep : s.dropWhile (· == space) = s := by
      cases s with
      | nil => rfl
      | cons c t =>
        rw [hholds.head] at hc
        exact List.dropWhile_cons_of_neg (by simpa using hc)
    have hform : ltrim m p = (m₁.load p).1 := by
      rw [ltrim]
      simp only [← hm₁, load_value, ne_eq, hc, not_false_eq_true, if_true]
    rw [hform, hkeep]
    exact ⟨hholds.load p, hw₁⟩

end XiaoHGServer
