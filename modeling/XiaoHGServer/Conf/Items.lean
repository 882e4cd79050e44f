import XiaoHGServer.Conf.Fields

/-!
# Configuration files read back as written

A file of lines that fit the line buffer, whose names and values fit the fields of a
`CONF_ITEM`, is read line by line, and every name is answered with the value of the
first line that has it.
-/

namespace XiaoHGServer

open Memory

variable {m : Memory Byte} {p n : ℕ} {s a v line rest last name : List Byte} {c : Byte}
  {lines : List (List Byte)}

/-! ### What a file says -/

def isComment (c : Byte) : Bool := c == 59 || c == space || c == 91 || c == 35 || c == tab

def nameBytes (line : List Byte) : List Byte := line.takeWhile (· ≠ equalsSign)

def valueBytes (line : List Byte) : List Byte := (line.dropWhile (· ≠ equalsSign)).tail

def entryOfLine (line : List Byte) : Option (List Byte × List Byte) :=
  if isComment (line.headD 0) = true ∨ equalsSign ∉ line then none
  else some (strip (nameBytes line),
    ((valueBytes line).rdropWhile isTail).dropWhile (· == space))

/-- Equal up to the case of ASCII letters. -/
def SameName (s t : List Byte) : Prop := s.map toLower = t.map toLower

instance (s t : List Byte) : Decidable (SameName s t) := inferInstanceAs (Decidable (_ = _))

def lookup (lines : List (List Byte)) (name : List Byte) : Option (List Byte × List Byte) :=
  (lines.filterMap entryOfLine).find? fun entry => SameName entry.1 name

/-- A line that fits, and whose item fits. -/
structure ConfLine (line : List Byte) : Prop where
  text : ∀ c ∈ line, c ≠ 0 ∧ c ≠ newline
  short : line.length ≤ 498
  item : isComment (line.headD 0) = false → equalsSign ∈ line →
    (nameBytes line).length ≤ 40 ∧ (valueBytes line).length ≤ 400

/-- Lines that end in a newline, and one that does not, which may be empty. -/
def confText (lines : List (List Byte)) (last : List Byte) : List Byte :=
  lines.flatMap (· ++ [newline]) ++ last

/-! ### Reading the lines -/

theorem getLine_newline : ∀ {n : ℕ} {line : List Byte} (rest : List Byte), newline ∉ line →
    line.length < n → getLine n (line ++ newline :: rest) = (line ++ [newline], ⟨rest, false⟩)
  | n + 1, [], _, _, _ => rfl
  | n + 1, c :: line, rest, hno, hn => by
    have hc : c ≠ newline := fun h => hno (h ▸ List.mem_cons_self ..)
    have hno' : newline ∉ line := fun h => hno (List.mem_cons_of_mem _ h)
    have hrest := getLine_newline rest hno' (Nat.lt_of_succ_lt_succ hn)
    rw [List.cons_append, getLine, if_neg hc, hrest]
    rfl

theorem getLine_last : ∀ {n : ℕ} {line : List Byte}, newline ∉ line → line.length < n →
    getLine n line = (line, ⟨[], true⟩)
  | n + 1, [], _, _ => rfl
  | n + 1, c :: line, hno, hn => by
    have hc : c ≠ newline := fun h => hno (h ▸ List.mem_cons_self ..)
    have hno' : newline ∉ line := fun h => hno (List.mem_cons_of_mem _ h)
    rw [getLine, if_neg hc, getLine_last hno' (Nat.lt_of_succ_lt_succ hn)]

theorem ConfLine.newline_notMem (h : ConfLine line) : newline ∉ line := fun hm =>
  (h.text _ hm).2 rfl

theorem piecesFrom_confText : ∀ {lines : List (List Byte)} {fuel : ℕ},
    (∀ line ∈ lines ++ [last], ConfLine line) → (confText lines last).length ≤ fuel →
    piecesFrom fuel (confText lines last) =
      lines.map (· ++ [newline]) ++ if last = [] then [] else [last]
  | [], fuel, h, hf => by
    have hlast := h last (List.mem_cons_self ..)
    rw [List.map_nil, List.nil_append]
    change piecesFrom fuel last = _
    change last.length ≤ fuel at hf
    cases fuel with
    | zero =>
      obtain rfl := List.length_eq_zero_iff.mp (Nat.le_zero.mp hf)
      rfl
    | succ fuel =>
      rw [piecesFrom]
      split
      · rfl
      · rw [getLine_last hlast.newline_notMem (Nat.lt_succ_of_le hlast.short)]
        have hnil : piecesFrom fuel [] = [] := by cases fuel <;> rfl
        rw [hnil]
  | line :: lines, fuel, h, hf => by
    have hline := h line (List.mem_cons_self ..)
    have hform : confText (line :: lines) last = line ++ newline :: confText lines last := by
      simp [confText]
    rw [hform] at hf ⊢
    rw [List.length_append, List.length_cons] at hf
    obtain ⟨fuel, rfl⟩ := Nat.exists_eq_add_of_le' (show 1 ≤ fuel by omega)
    rw [piecesFrom, if_neg (by simp),
      getLine_newline _ hline.newline_notMem (Nat.lt_succ_of_le hline.short)]
    rw [piecesFrom_confText (fun l hl => h l (List.mem_cons_of_mem _ hl)) (by omega)]
    rfl

def ConfItem.entry (x : ConfItem) : List Byte × List Byte := (x.itemName, x.itemContent)

theorem nameBytes_append_valueBytes (h : equalsSign ∈ line) :
    line = nameBytes line ++ equalsSign :: valueBytes line ∧ equalsSign ∉ nameBytes line := by
  obtain ⟨a, v, rfl, hno⟩ := List.eq_append_cons_of_mem h
  have hkeep : ∀ c ∈ a, decide (c ≠ equalsSign) = true := fun c hc =>
    decide_eq_true fun heq => hno (heq ▸ hc)
  have hname : nameBytes (a ++ equalsSign :: v) = a := by
    rw [nameBytes, List.takeWhile_append_of_pos hkeep]
    simp
  have hvalue : valueBytes (a ++ equalsSign :: v) = v := by
    rw [valueBytes, List.dropWhile_append_of_pos hkeep]
    simp
  rw [hname, hvalue]
  exact ⟨rfl, hno⟩

theorem strip_rdropWhile (v : List Byte) :
    strip (v.rdropWhile isTail) = (v.rdropWhile isTail).dropWhile (· == space) := by
  have hself : (v.rdropWhile isTail).rdropWhile (· == space) = v.rdropWhile isTail := by
    rw [List.rdropWhile_eq_self_iff]
    intro hne hspace
    refine List.rdropWhile_last_not isTail v hne ?_
    rw [beq_iff_eq] at hspace
    rw [hspace]
    decide
  rw [strip, hself]

theorem isSkipped_eq_isComment (h : c ≠ 0 ∧ c ≠ newline) : isSkipped c = isComment c := by
  have h₀ : (c == 0) = false := beq_eq_false_iff_ne.mpr h.1
  have h₁ : (c == newline) = false := beq_eq_false_iff_ne.mpr h.2
  rw [isSkipped, isComment, h₀, h₁]
  simp

theorem ConfLine.ne_zero (h : ConfLine line) {tail : List Byte}
    (htail : tail = [] ∨ tail = [newline]) : ∀ c ∈ line ++ tail, c ≠ 0 := by
  intro c hc
  rcases List.mem_append.mp hc with hc | hc
  · exact (h.text c hc).1
  · rcases htail with rfl | rfl
    · cases hc
    · rw [List.mem_singleton.mp hc]
      decide

theorem itemOfText_pair (h : ConfLine line) {tail : List Byte}
    (htail : tail = [] ∨ tail = [newline]) (hmem : equalsSign ∈ line)
    (hskip : isSkipped ((line ++ tail).headD 0) = false)
    (hfit : (nameBytes line).length ≤ 40 ∧ (valueBytes line).length ≤ 400) :
    (itemOfText (line ++ tail)).map ConfItem.entry = some (strip (nameBytes line),
      ((valueBytes line).rdropWhile isTail).dropWhile (· == space)) := by
  obtain ⟨hsplit, hno⟩ := nameBytes_append_valueBytes hmem
  have hnz := h.ne_zero htail
  have hform : line ++ tail = nameBytes line ++ equalsSign :: (valueBytes line ++ tail) := by
    conv_lhs => rw [hsplit]
    simp
  have hdrop : (valueBytes line ++ tail).rdropWhile isTail =
      (valueBytes line).rdropWhile isTail := by
    rcases htail with rfl | rfl
    · rw [List.append_nil]
    · exact List.rdropWhile_concat_pos _ _ _ (by decide)
  rw [hform] at hskip hnz
  have hfront : (valueBytes line).rdropWhile isTail <+: valueBytes line :=
    List.rdropWhile_prefix _ _
  have hlen := hfront.length_le
  have hsizes : sizeofItemName = 50 ∧ sizeofItemContent = 500 := ⟨rfl, rfl⟩
  have hsize : sizeofConfItem = sizeofItemName + sizeofItemContent := rfl
  have hname : ∀ c ∈ nameBytes line, c ≠ 0 := fun c hc => hnz c (List.mem_append_left _ hc)
  have hvalue : ∀ c ∈ (valueBytes line).rdropWhile isTail, c ≠ 0 := fun c hc =>
    hnz c (List.mem_append_right _ (List.mem_cons_of_mem _
      (List.mem_append_left _ (hfront.subset hc))))
  obtain ⟨hitemName, hitemContent, -⟩ :=
    newConfItem_spec (by omega) (by omega) hname hvalue
  have hlen₁ := length_strip_le (nameBytes line)
  have hlen₂ := length_strip_le ((valueBytes line).rdropWhile isTail)
  rw [hform, itemOfText_some hskip hno, hdrop, Option.map_some, ConfItem.entry,
    ConfItem.itemName, ConfItem.itemContent, hitemName.textAt_eq (by omega),
    hitemContent.textAt_eq (by omega), strip_rdropWhile]

/-- The item of a line is what the line says, with or without its newline. -/
theorem itemOfText_entry (h : ConfLine line) {tail : List Byte}
    (htail : tail = [] ∨ tail = [newline]) :
    (itemOfText (cText (line ++ tail))).map ConfItem.entry = entryOfLine line := by
  have htext : cText (line ++ tail) = line ++ tail := by
    rw [cText, List.takeWhile_eq_self_iff]
    simpa using h.ne_zero htail
  rw [htext]
  by_cases hmem : equalsSign ∈ line
  · obtain ⟨c, t, hcons⟩ := List.exists_cons_of_ne_nil (List.ne_nil_of_mem hmem)
    have hhead : isSkipped ((line ++ tail).headD 0) = isComment (line.headD 0) := by
      rw [hcons]
      exact isSkipped_eq_isComment (h.text c (hcons ▸ List.mem_cons_self ..))
    by_cases hcomment : isComment (line.headD 0) = true
    · rw [itemOfText, hhead, if_pos hcomment, entryOfLine, if_pos (Or.inl hcomment)]
      rfl
    · have hitem : isComment (line.headD 0) = false := Bool.not_eq_true _ ▸ hcomment
      have hpair : ¬ (isComment (line.headD 0) = true ∨ equalsSign ∉ line) := fun hor =>
        hor.elim hcomment fun hno => hno hmem
      rw [itemOfText_pair h htail hmem (hhead.trans hitem) (h.item hitem hmem), entryOfLine,
        if_neg hpair]
  · have hno : equalsSign ∉ line ++ tail := by
      rw [List.mem_append, not_or]
      refine ⟨hmem, ?_⟩
      rcases htail with rfl | rfl <;> decide
    rw [itemOfText_none hno, entryOfLine, if_pos (Or.inr hmem)]
    rfl

theorem init_confText (h : ∀ line ∈ lines ++ [last], ConfLine line) :
    ∃ items, CConfig.init (confText lines last) = some items ∧
      items.map ConfItem.entry = (lines ++ [last]).filterMap entryOfLine := by
  refine ⟨_, init_eq _, ?_⟩
  have hlines : ∀ {lines : List (List Byte)}, (∀ line ∈ lines, ConfLine line) →
      ((lines.map (· ++ [newline])).filterMap fun line => itemOfText (cText line)).map
        ConfItem.entry = lines.filterMap entryOfLine := by
    intro lines h
    rw [List.map_filterMap, List.filterMap_map]
    refine List.filterMap_congr fun line hm => ?_
    exact itemOfText_entry (h line hm) (Or.inr rfl)
  have hlast : ((if last = [] then [] else [last]).filterMap fun line =>
      itemOfText (cText line)).map ConfItem.entry = [last].filterMap entryOfLine := by
    split
    · rename_i hnil
      rw [hnil]
      rfl
    · have hentry := itemOfText_entry (h last (by simp)) (Or.inl rfl)
      rw [List.append_nil] at hentry
      rw [List.map_filterMap, List.filterMap_cons, List.filterMap_cons, hentry]
      rfl
  rw [pieces, piecesFrom_confText h le_rfl, List.filterMap_append, List.map_append,
    List.filterMap_append, hlines fun line hm => h line (List.mem_append_left _ hm), hlast]

/-! ### Looking names up -/

theorem toLower_eq_zero (h : toLower c = 0) : c = 0 := by
  unfold toLower at h
  split at h
  · rename_i hc
    revert c
    decide
  · exact h

theorem strcasecmp_eq_zero : ∀ {s t : List Byte}, (∀ c ∈ s, c ≠ 0) → (∀ c ∈ t, c ≠ 0) →
    (strcasecmp s t = 0 ↔ SameName s t)
  | [], [], _, _ => by simp [strcasecmp, SameName]
  | [], d :: t, _, ht => by
    have hd : (toLower d).toNat ≠ 0 := fun h =>
      ht d (List.mem_cons_self ..) (toLower_eq_zero (BitVec.eq_of_toNat_eq h))
    refine ⟨fun h => ?_, fun h => ?_⟩
    · rw [strcasecmp] at h
      omega
    · cases h
  | c :: s, [], hs, _ => by
    have hc : (toLower c).toNat ≠ 0 := fun h =>
      hs c (List.mem_cons_self ..) (toLower_eq_zero (BitVec.eq_of_toNat_eq h))
    refine ⟨fun h => ?_, fun h => ?_⟩
    · rw [strcasecmp] at h
      omega
    · cases h
  | c :: s, d :: t, hs, ht => by
    have ih := strcasecmp_eq_zero (fun x hx => hs x (List.mem_cons_of_mem c hx))
      (fun x hx => ht x (List.mem_cons_of_mem d hx))
    have hsame : SameName (c :: s) (d :: t) ↔ toLower c = toLower d ∧ SameName s t := by
      simp only [SameName, List.map_cons, List.cons.injEq]
    rw [strcasecmp, hsame, ← ih]
    by_cases hcd : toLower c = toLower d
    · simp [hcd]
    · have hdiff : ((toLower c).toNat : ℤ) - (toLower d).toNat ≠ 0 := fun h =>
        hcd (BitVec.eq_of_toNat_eq (by omega))
      simp only [hdiff, hcd, ne_eq, not_false_eq_true, if_true, false_and]

theorem textAt_ne_zero : ∀ {n p : ℕ}, ∀ c ∈ textAt n m p, c ≠ 0
  | 0, _, c, hc => by cases hc
  | n + 1, p, c, hc => by
    rw [textAt] at hc
    split at hc
    · cases hc
    · rename_i hne
      rcases List.mem_cons.mp hc with rfl | hc
      · exact hne
      · exact textAt_ne_zero c hc

/-- `Init` finds the entry that the file has for a name. -/
theorem find_entry {items : List ConfItem} {entries : List (List Byte × List Byte)}
    (h : items.map ConfItem.entry = entries) (hname : ∀ c ∈ name, c ≠ 0) :
    (items.find? fun x => strcasecmp x.itemName name == 0).map ConfItem.entry =
      entries.find? fun entry => SameName entry.1 name := by
  have hpred : (fun x : ConfItem => strcasecmp x.itemName name == 0) =
      (fun entry : List Byte × List Byte => decide (SameName entry.1 name)) ∘ ConfItem.entry := by
    funext x
    have hiff := strcasecmp_eq_zero (s := x.itemName) textAt_ne_zero hname
    rw [Bool.eq_iff_iff, beq_iff_eq, hiff, Function.comp_apply, decide_eq_true_iff]
    rfl
  rw [← h, List.find?_map, hpred]

/-- Every name is answered with the value of the first line that has it. -/
theorem config_reads_back (h : ∀ line ∈ lines ++ [last], ConfLine line) :
    ∃ items, CConfig.init (confText lines last) = some items ∧
      ∀ name, (∀ c ∈ name, c ≠ 0) →
        CConfig.getString items name = (lookup (lines ++ [last]) name).map Prod.snd ∧
        ∀ d, CConfig.getIntDefault items name d =
          ((lookup (lines ++ [last]) name).map fun entry => atoi entry.2).getD d := by
  obtain ⟨items, hinit, hentries⟩ := init_confText h
  refine ⟨items, hinit, fun name hname => ?_⟩
  have hfind := find_entry hentries hname
  rw [lookup, ← hfind, CConfig.getString]
  refine ⟨by rw [Option.map_map]; rfl, fun d => ?_⟩
  rw [CConfig.getIntDefault]
  cases items.find? fun x => strcasecmp x.itemName name == 0 with
  | none => rfl
  | some x => rfl

/-- `"#c"`, `" Log=x"`, `"Log = a=b \r"` and, without a newline, `"LOG=7"`. -/
theorem config_reads_back_log : ∃ items,
    CConfig.init (confText [[35, 99], [32, 76, 111, 103, 61, 120],
      [76, 111, 103, 32, 61, 32, 97, 61, 98, 32, 13]] [76, 79, 71, 61, 55]) = some items ∧
    CConfig.getString items [108, 111, 103] = some [97, 61, 98] ∧
    CConfig.getIntDefault items [120] 5 = 5 := by
  have hlines : ∀ line ∈ [[35, 99], [32, 76, 111, 103, 61, 120],
      [76, 111, 103, 32, 61, 32, 97, 61, 98, 32, 13]] ++ [[76, 79, 71, 61, 55]], ConfLine line := by
    intro line hline
    fin_cases hline <;> exact ⟨by decide, by decide, by decide⟩
  obtain ⟨items, hinit, hget⟩ := config_reads_back hlines
  refine ⟨items, hinit, (hget _ (by decide)).1.trans ?_, ((hget _ (by decide)).2 5).trans ?_⟩
  · decide +kernel
  · decide +kernel

end XiaoHGServer
