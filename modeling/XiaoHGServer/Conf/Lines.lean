import Mathlib.Data.List.DropRight
import XiaoHGServer.Model.Conf

/-!
# The lines of a configuration file

`Init` reads a file in pieces: its lines, and long lines in several pieces. Each piece
makes one item at most, and which one depends on its bytes up to the first zero only.
-/

namespace XiaoHGServer

variable {n : ℕ} {s a v line rest buf : List Byte} {c : Byte}

/-! ### The line buffer -/

theorem cText_append (hs : ∀ c ∈ s, c ≠ 0) : cText (s ++ 0 :: rest) = s := by
  rw [cText, List.takeWhile_append_of_pos (by simpa using hs)]
  simp

theorem cText_ne_zero (buf : List Byte) : ∀ c ∈ cText buf, c ≠ 0 := by
  intro c hc
  have := List.mem_takeWhile_imp hc
  simpa using this

theorem cText_eq (buf : List Byte) : ∃ rest, buf = cText buf ++ rest ∧
    (rest = [] ∨ ∃ rest', rest = 0 :: rest') := by
  obtain ⟨s, rest, hbuf, hs, hrest⟩ := Memory.exists_text buf
  refine ⟨rest, ?_, hrest⟩
  have htext : cText buf = s := by
    rcases hrest with rfl | ⟨rest', rfl⟩
    · rw [hbuf, List.append_nil, cText, List.takeWhile_eq_self_iff]
      simpa using hs
    · rw [hbuf, cText_append hs]
  rw [htext]
  exact hbuf

theorem lblprocstring_text : ∀ {fuel : ℕ} {s rest : List Byte}, (∀ c ∈ s, c ≠ 0) →
    s.length ≤ fuel → cText (lblprocstring fuel (s ++ 0 :: rest)) = s.rdropWhile isTail
  | 0, s, rest, hs, hf => by
    obtain rfl := List.length_eq_zero_iff.mp (Nat.le_zero.mp hf)
    rw [lblprocstring, cText_append hs, List.rdropWhile_nil]
  | fuel + 1, s, rest, hs, hf => by
    rw [lblprocstring]
    simp only [cText_append hs]
    rcases List.eq_nil_or_concat s with rfl | ⟨t, c, rfl⟩
    · rw [if_neg (fun h => absurd h.1 (by simp)), cText_append hs, List.rdropWhile_nil]
    · rw [List.concat_eq_append] at hs hf ⊢
      have hlen : (t ++ [c]).length - 1 = t.length := by simp
      have hlast : (t ++ [c] ++ 0 :: rest).getD t.length 0 = c := by simp
      rw [hlen, hlast]
      by_cases hc : isTail c = true
      · have hset : (t ++ [c] ++ 0 :: rest).set t.length 0 = t ++ 0 :: 0 :: rest := by simp
        have ht : ∀ x ∈ t, x ≠ 0 := fun x hx => hs x (List.mem_append_left _ hx)
        rw [if_pos ⟨by simp, hc⟩, hset, List.rdropWhile_concat_pos _ _ _ hc]
        refine lblprocstring_text ht ?_
        rw [List.length_append, List.length_singleton] at hf
        exact Nat.le_of_succ_le_succ hf
      · rw [if_neg (fun h => hc h.2), cText_append hs, List.rdropWhile_concat_neg _ _ _ hc]

def itemOfText (s : List Byte) : Option ConfItem :=
  if isSkipped (s.headD 0) then none
  else
    let t := s.rdropWhile isTail
    (strchr t equalsSign).map fun n => newConfItem t n

theorem cText_of_getD_zero (h : buf.getD 0 0 = 0) : cText buf = [] := by
  cases buf with
  | nil => rfl
  | cons c rest =>
    have hc : c = 0 := h
    rw [cText, hc]
    rfl

theorem procLine_eq (hs : ∀ c ∈ s, c ≠ 0) : procLine (s ++ 0 :: rest) = itemOfText s := by
  have hhead : (s ++ 0 :: rest).getD 0 0 = s.headD 0 := by cases s <;> rfl
  have htext : cText (lblprocstring (s ++ 0 :: rest).length (s ++ 0 :: rest)) =
      s.rdropWhile isTail := by
    refine lblprocstring_text hs ?_
    rw [List.length_append]
    exact Nat.le_add_right _ _
  rw [procLine, itemOfText, hhead]
  split
  · rfl
  · simp only [htext]
    split
    · rename_i hzero
      have hnil := cText_of_getD_zero hzero
      rw [htext] at hnil
      rw [hnil]
      rfl
    · rfl

theorem procLine_stored (buf line : List Byte) :
    procLine (writeAt buf 0 (line ++ [0])) = itemOfText (cText line) := by
  have hbuf : writeAt buf 0 (line ++ [0]) = line ++ 0 :: buf.drop (line.length + 1) := by
    simp [writeAt]
  obtain ⟨rest, hline, hrest⟩ := cText_eq line
  rw [hbuf]
  rcases hrest with rfl | ⟨rest', rfl⟩
  · rw [List.append_nil] at hline
    rw [← hline]
    refine procLine_eq ?_
    rw [hline]
    exact cText_ne_zero line
  · conv_lhs => rw [hline, List.append_assoc]
    exact procLine_eq (cText_ne_zero line)

/-! ### The pieces of a file -/

/-- What one call of `fgets` returns after the other. -/
def piecesFrom : ℕ → List Byte → List (List Byte)
  | 0, _ => []
  | fuel + 1, rest =>
    if rest = [] then []
    else (getLine 499 rest).1 :: piecesFrom fuel (getLine 499 rest).2.rest

/-- The pieces in which `Init` reads a file: its lines, and long ones in several pieces. -/
def pieces (file : List Byte) : List (List Byte) := piecesFrom file.length file

theorem getLine_append : ∀ (n : ℕ) (rest : List Byte),
    (getLine n rest).1 ++ (getLine n rest).2.rest = rest
  | 0, _ => rfl
  | _ + 1, [] => rfl
  | n + 1, c :: rest => by
    rw [getLine]
    split
    · rfl
    · exact congrArg (c :: ·) (getLine_append n rest)

theorem length_getLine_le : ∀ (n : ℕ) (rest : List Byte), (getLine n rest).1.length ≤ n
  | 0, _ => le_rfl
  | _ + 1, [] => Nat.zero_le _
  | n + 1, c :: rest => by
    rw [getLine]
    split
    · simp
    · exact Nat.succ_le_succ (length_getLine_le n rest)

theorem getLine_ne_nil : (getLine (n + 1) (c :: rest)).1 ≠ [] := by
  rw [getLine]
  split <;> simp

theorem getLine_eof : ∀ (n : ℕ) (rest : List Byte), (getLine n rest).2.eof = true →
    (getLine n rest).2.rest = []
  | 0, _, h => by cases h
  | _ + 1, [], _ => rfl
  | n + 1, c :: rest, h => by
    rw [getLine] at h ⊢
    split at h
    · cases h
    · rename_i hc
      rw [if_neg hc]
      exact getLine_eof n rest h

theorem getLine_rest_lt : (getLine (n + 1) (c :: rest)).2.rest.length ≤ rest.length := by
  have happend := congrArg List.length (getLine_append (n + 1) (c :: rest))
  have hne : (getLine (n + 1) (c :: rest)).1 ≠ [] := getLine_ne_nil
  have hpos := List.length_pos_of_ne_nil hne
  rw [List.length_append, List.length_cons] at happend
  omega

/-- The loop ends, with the items of all pieces. -/
theorem initLoop_eq : ∀ {k fuel : ℕ} {fp : ConfFile} {buf : List Byte} {items : List ConfItem},
    fp.rest.length ≤ k → (fp.eof = true → fp.rest = []) → k + 2 ≤ fuel →
    initLoop fuel fp buf items =
      some (items ++ (piecesFrom k fp.rest).filterMap fun line => itemOfText (cText line)) := by
  have done {k fuel : ℕ} {fp : ConfFile} {buf : List Byte} {items : List ConfItem}
      (hrest : fp.rest = []) (hf : 2 ≤ fuel) : initLoop fuel fp buf items =
        some (items ++ (piecesFrom k fp.rest).filterMap fun line => itemOfText (cText line)) := by
    have hnone : piecesFrom k [] = [] := by cases k <;> rfl
    obtain ⟨fuel, rfl⟩ := Nat.exists_eq_add_of_le' hf
    rw [hrest, hnone, List.filterMap_nil, List.append_nil, initLoop]
    split
    · rfl
    · rw [show fgets 500 fp = (none, ⟨[], true⟩) by rw [fgets, hrest]; rfl]
      rfl
  intro k
  induction k with
  | zero =>
    intro fuel fp buf items hk _ hf
    exact done (List.length_eq_zero_iff.mp (Nat.le_zero.mp hk)) hf
  | succ k ih =>
    intro fuel fp buf items hk heof hf
    cases hrest : fp.rest with
    | nil =>
      rw [← hrest]
      exact done hrest (by omega)
    | cons c rest =>
      obtain ⟨fuel, rfl⟩ := Nat.exists_eq_add_of_le' (show 1 ≤ fuel by omega)
      have hopen : ¬ fp.eof = true := by
        intro h
        rw [heof h] at hrest
        cases hrest
      have hget : fgets 500 fp =
          (some (getLine 499 (c :: rest)).1, (getLine 499 (c :: rest)).2) := by
        rw [fgets, hrest]
        simp only
        rw [if_neg getLine_ne_nil]
      rw [hrest, List.length_cons] at hk
      rw [initLoop, if_neg hopen, hget]
      simp only [procLine_stored]
      rw [ih (getLine_rest_lt.trans (Nat.le_of_succ_le_succ hk)) (getLine_eof _ _) (by omega),
        piecesFrom, if_neg (List.cons_ne_nil _ _), List.filterMap_cons]
      cases itemOfText (cText (getLine 499 (c :: rest)).1) <;> simp

/-- `Init` reads every file to its end. -/
theorem init_eq (file : List Byte) : CConfig.init file =
    some ((pieces file).filterMap fun line => itemOfText (cText line)) := by
  have h : CConfig.init file =
      some ([] ++ (pieces file).filterMap fun line => itemOfText (cText line)) :=
    initLoop_eq le_rfl (fun h => by cases h) le_rfl
  rwa [List.nil_append] at h

theorem length_of_mem_pieces {file : List Byte} (h : line ∈ pieces file) : line.length ≤ 499 := by
  have hfrom : ∀ {fuel : ℕ} {rest : List Byte}, line ∈ piecesFrom fuel rest →
      line.length ≤ 499 := by
    intro fuel
    induction fuel with
    | zero => intro rest h; cases h
    | succ fuel ih =>
      intro rest h
      rw [piecesFrom] at h
      split at h
      · cases h
      · rcases List.mem_cons.mp h with rfl | h
        · exact length_getLine_le _ _
        · exact ih h
  exact hfrom h

/-! ### The item of a line -/

theorem isTail_equalsSign : ¬ isTail equalsSign = true := by decide

theorem rdropWhile_equalsSign (a v : List Byte) : (a ++ equalsSign :: v).rdropWhile isTail =
    a ++ equalsSign :: v.rdropWhile isTail := by
  induction v using List.reverseRecOn with
  | nil => rw [List.rdropWhile_concat_neg _ _ _ isTail_equalsSign, List.rdropWhile_nil]
  | append_singleton v c ih =>
    rw [← List.cons_append, ← List.append_assoc]
    by_cases hc : isTail c = true
    · rw [List.rdropWhile_concat_pos _ _ _ hc, List.rdropWhile_concat_pos _ _ _ hc, ih]
    · rw [List.rdropWhile_concat_neg _ _ _ hc, List.rdropWhile_concat_neg _ _ _ hc,
        List.append_assoc, List.cons_append]

theorem strchr_none (h : c ∉ s) : strchr s c = none := by
  rw [strchr, List.findIdx?_eq_none_iff]
  intro x hx
  rw [beq_eq_false_iff_ne]
  rintro rfl
  exact h hx

theorem strchr_append (h : c ∉ a) : strchr (a ++ c :: v) c = some a.length := by
  have hnone := strchr_none h
  rw [strchr] at hnone
  simp [strchr, List.findIdx?_append, hnone, List.findIdx?_cons]

theorem itemOfText_none (h : equalsSign ∉ s) : itemOfText s = none := by
  have htail : equalsSign ∉ s.rdropWhile isTail :=
    fun hm => h ((List.rdropWhile_prefix _ _).subset hm)
  rw [itemOfText]
  split
  · rfl
  · simp only [strchr_none htail, Option.map_none]

/-- A line with `=` is split at the first one, whatever trails it. -/
theorem itemOfText_some (hskip : isSkipped ((a ++ equalsSign :: v).headD 0) = false)
    (h : equalsSign ∉ a) : itemOfText (a ++ equalsSign :: v) =
      some (newConfItem (a ++ equalsSign :: v.rdropWhile isTail) a.length) := by
  rw [itemOfText, hskip]
  simp only [Bool.false_eq_true, if_false, rdropWhile_equalsSign, strchr_append h, Option.map_some]

theorem isSkipped_cText (line : List Byte) :
    isSkipped ((cText line).headD 0) = isSkipped (line.headD 0) := by
  cases line with
  | nil => rfl
  | cons c rest =>
    by_cases hc : c = 0
    · subst hc
      rfl
    · have hkeep : cText (c :: rest) = c :: cText rest :=
        List.takeWhile_cons_of_pos (by simpa using hc)
      rw [hkeep]
      rfl

end XiaoHGServer
