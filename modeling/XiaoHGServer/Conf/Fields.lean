import XiaoHGServer.Conf.Lines
import XiaoHGServer.Conf.Trim

/-!
# The fields of a configuration item

`strncpy` copies as many bytes as stand before the `=` of a line, and the zeros of
the new object end the name if there is room for one. Then the four trims stay in
the fields they are given; otherwise the first of them reads on in the content.
-/

namespace XiaoHGServer

open Memory

variable {m : Memory Byte} {p n : ℕ} {s a v w line : List Byte} {c : Byte}

namespace ConfItem

/-- Both strings end within their fields, the copies stay in theirs, and the trims too. -/
structure FieldsKept (x : ConfItem) : Prop where
  nameEnds : ∃ i < sizeofItemName, x.contentLtrimmed.cell i = 0
  contentEnds : ∃ i < sizeofItemContent, x.contentLtrimmed.cell (sizeofItemName + i) = 0
  nameCopy : ∀ y ∈ x.nameCopied.log, y.cell < sizeofItemName
  contentCopy : ∀ i < sizeofItemName, x.contentCopied.cell i = x.nameCopied.cell i
  nameTrims : ∀ y ∈ x.nameRtrimmed.log ++ x.nameLtrimmed.log, y.cell < sizeofItemName
  contentTrims : ∀ y ∈ x.contentRtrimmed.log ++ x.contentLtrimmed.log,
    sizeofItemName ≤ y.cell ∧ y.cell < sizeofConfItem

/-- The calls of `Rtrim` and `Ltrim`, in their order. -/
structure Trimmed (x : ConfItem) : Prop where
  nameRtrimmed : x.nameRtrimmed = rtrim (unrecorded x.contentCopied) 0
  nameLtrimmed : x.nameLtrimmed = ltrim (unrecorded x.nameRtrimmed) 0
  contentRtrimmed : x.contentRtrimmed = rtrim (unrecorded x.nameLtrimmed) sizeofItemName
  contentLtrimmed : x.contentLtrimmed = ltrim (unrecorded x.contentRtrimmed) sizeofItemName

end ConfItem

theorem newConfItem_trimmed (line : List Byte) (n : ℕ) : (newConfItem line n).Trimmed := by
  constructor <;> simp only [newConfItem]

def strip (s : List Byte) : List Byte := (s.rdropWhile (· == space)).dropWhile (· == space)

theorem length_rdropWhile_le (f : Byte → Bool) (s : List Byte) :
    (s.rdropWhile f).length ≤ s.length := (List.rdropWhile_prefix f s).length_le

theorem Memory.Holds.unrecorded (h : m.Holds p s) : (unrecorded m).Holds p s := h.record []

theorem copied (a w : List Byte) :
    let x := newConfItem (a ++ equalsSign :: w) a.length
    (∀ i, (h : i < a.length) → x.nameCopied.cell i = a[i]) ∧
      (∀ i, a.length ≤ i → x.nameCopied.cell i = 0) ∧
      (∀ y ∈ x.nameCopied.log, y.cell < a.length) ∧
      Within sizeofItemName (sizeofItemName + w.length + 1) (unrecorded x.nameCopied)
        x.contentCopied ∧
      ((∀ c ∈ w, c ≠ 0) → x.contentCopied.Holds sizeofItemName w) := by
  have htake : (a ++ equalsSign :: w).take a.length = a := List.take_left
  have hdrop : (a ++ equalsSign :: w).drop (a.length + 1) = w := by
    rw [List.drop_append, List.drop_of_length_le (Nat.le_succ _)]
    simp
  have hname : (newConfItem (a ++ equalsSign :: w) a.length).nameCopied =
      (⟨fun _ => 0, []⟩ : Memory Byte).storeAll 0 a := by
    simp [newConfItem, strncpy, htake]
  have hcontent : (newConfItem (a ++ equalsSign :: w) a.length).contentCopied =
      (unrecorded (newConfItem (a ++ equalsSign :: w) a.length).nameCopied).strcpy
        sizeofItemName w := by
    simp only [newConfItem, hdrop]
  have hwithin : Within 0 (0 + a.length) (⟨fun _ => 0, []⟩ : Memory Byte)
      ((⟨fun _ => 0, []⟩ : Memory Byte).storeAll 0 a) := storeAll_within
  dsimp only
  rw [hcontent, hname]
  refine ⟨fun i hi => ?_, fun i hi => ?_, fun y hy => ?_, strcpy_within, strcpy_holds⟩
  · have hcell := storeAll_cell (m := (⟨fun _ => 0, []⟩ : Memory Byte)) (p := 0) hi
    rwa [Nat.zero_add] at hcell
  · rw [hwithin.frame i (by omega)]
  · have hy' := (hwithin.mem_log rfl hy).2
    rwa [Nat.zero_add] at hy'

theorem ConfItem.Trimmed.spec {x : ConfItem} (h : x.Trimmed)
    (hname : x.contentCopied.Holds 0 a) (hcontent : x.contentCopied.Holds sizeofItemName w)
    (ha : a.length < sizeofItemName) (hw : w.length < sizeofItemContent) :
    x.contentLtrimmed.Holds 0 (strip a) ∧ x.contentLtrimmed.Holds sizeofItemName (strip w) ∧
      (∀ y ∈ x.nameRtrimmed.log ++ x.nameLtrimmed.log, y.cell < sizeofItemName) ∧
      ∀ y ∈ x.contentRtrimmed.log ++ x.contentLtrimmed.log,
        sizeofItemName ≤ y.cell ∧ y.cell < sizeofConfItem := by
  obtain ⟨h₃, h₄, h₅, h₆⟩ := h
  have hsize : sizeofConfItem = sizeofItemName + sizeofItemContent := rfl
  -- the name
  obtain ⟨hname₃, hw₃⟩ := rtrim_spec hname.unrecorded (by omega)
  rw [← h₃] at hname₃ hw₃
  have hcontent₃ := hcontent.unrecorded.frame hw₃ (Or.inr (by omega))
  have hlen₃ := length_rdropWhile_le (· == space) a
  obtain ⟨hname₄, hw₄⟩ := ltrim_spec hname₃.unrecorded (by omega)
  rw [← h₄] at hname₄ hw₄
  have hcontent₄ := hcontent₃.unrecorded.frame hw₄ (Or.inr (by omega))
  have hlen₄ : (strip a).length ≤ a.length := (List.dropWhile_suffix _).length_le.trans hlen₃
  change x.nameLtrimmed.Holds 0 (strip a) at hname₄
  -- the content
  obtain ⟨hcontent₅, hw₅⟩ := rtrim_spec hcontent₄.unrecorded (by omega)
  rw [← h₅] at hcontent₅ hw₅
  have hname₅ := hname₄.unrecorded.frame hw₅ (Or.inl (by omega))
  have hlen₅ := length_rdropWhile_le (· == space) w
  obtain ⟨hcontent₆, hw₆⟩ := ltrim_spec hcontent₅.unrecorded (by omega)
  rw [← h₆] at hcontent₆ hw₆
  have hname₆ := hname₅.unrecorded.frame hw₆ (Or.inl (by omega))
  refine ⟨hname₆, hcontent₆, fun y hy => ?_, fun y hy => ?_⟩
  · rcases List.mem_append.mp hy with hy | hy
    · have := (hw₃.mem_log rfl hy).2
      omega
    · have := (hw₄.mem_log rfl hy).2
      omega
  · rcases List.mem_append.mp hy with hy | hy
    · have := hw₅.mem_log rfl hy
      omega
    · have := hw₆.mem_log rfl hy
      omega

theorem length_strip_le (s : List Byte) : (strip s).length ≤ s.length :=
  (List.dropWhile_suffix _).length_le.trans (length_rdropWhile_le _ s)

theorem newConfItem_spec (ha : a.length < sizeofItemName) (hw : w.length < sizeofItemContent)
    (hnz : ∀ c ∈ a, c ≠ 0) (hnz' : ∀ c ∈ w, c ≠ 0) :
    let x := newConfItem (a ++ equalsSign :: w) a.length
    x.contentLtrimmed.Holds 0 (strip a) ∧ x.contentLtrimmed.Holds sizeofItemName (strip w) ∧
      x.FieldsKept := by
  have htrimmed := newConfItem_trimmed (a ++ equalsSign :: w) a.length
  obtain ⟨htext, hzero, hlog, hcopy, hholds⟩ := copied a w
  generalize newConfItem (a ++ equalsSign :: w) a.length = x at *
  have hname : x.contentCopied.Holds 0 a := by
    have hname₁ : x.nameCopied.Holds 0 a := by
      refine ⟨fun i hi => ?_, ?_, hnz⟩
      · rw [Nat.zero_add]
        exact htext i hi
      · rw [Nat.zero_add]
        exact hzero _ le_rfl
    exact hname₁.unrecorded.frame hcopy (Or.inl (by omega))
  obtain ⟨hname₆, hcontent₆, hin, hin'⟩ := htrimmed.spec hname (hholds hnz') ha hw
  have hlen := length_strip_le a
  have hlen' := length_strip_le w
  refine ⟨hname₆, hcontent₆, ⟨(strip a).length, by omega, ?_⟩,
    ⟨(strip w).length, by omega, hcontent₆.nul⟩, fun y hy => (hlog y hy).trans ha,
    fun i hi => hcopy.frame i (by omega), hin, hin'⟩
  have hnul := hname₆.nul
  rwa [Nat.zero_add] at hnul

theorem newConfItem_overflow (ha : sizeofItemName ≤ a.length) (hnz : ∀ c ∈ a, c ≠ 0) :
    ¬ (newConfItem (a ++ equalsSign :: w) a.length).FieldsKept := by
  obtain ⟨htext, -, -, -, -⟩ := copied a w
  have htrimmed := newConfItem_trimmed (a ++ equalsSign :: w) a.length
  generalize newConfItem (a ++ equalsSign :: w) a.length = x at *
  intro h
  have hne : ∀ i < sizeofItemName, (unrecorded x.contentCopied).cell (0 + i) ≠ 0 := by
    intro i hi
    rw [Nat.zero_add]
    change x.contentCopied.cell i ≠ 0
    rw [h.contentCopy i hi, htext i (by omega)]
    exact hnz _ (List.getElem_mem _)
  have hread := read_mem_rtrim hne (by decide)
  rw [← htrimmed.nameRtrimmed] at hread
  have hin := h.nameTrims _ (List.mem_append_left _ hread)
  rw [Access.cell, Nat.zero_add] at hin
  exact lt_irrefl _ hin

/-- If the line makes an item, fewer bytes than `ItemName` has stand before its first `=`. -/
def NameFits (line : List Byte) : Prop :=
  isSkipped (line.headD 0) = true ∨ ∀ n ∈ strchr (cText line) equalsSign, n < sizeofItemName

instance (line : List Byte) : Decidable (NameFits line) :=
  inferInstanceAs (Decidable (_ ∨ _))

theorem fieldsKept_line (hlen : line.length ≤ 499) :
    (∀ x, itemOfText (cText line) = some x → x.FieldsKept) ↔ NameFits line := by
  have hshort : (cText line).length ≤ 499 :=
    ((List.takeWhile_prefix _).length_le).trans hlen
  have hnz := cText_ne_zero line
  rw [NameFits, ← isSkipped_cText]
  by_cases hskip : isSkipped ((cText line).headD 0) = true
  · have hnone : itemOfText (cText line) = none := by rw [itemOfText, if_pos hskip]
    refine ⟨fun _ => Or.inl hskip, fun _ x hx => ?_⟩
    rw [hnone] at hx
    cases hx
  · by_cases hmem : equalsSign ∈ cText line
    · obtain ⟨a, v, hsplit, hno⟩ := List.eq_append_cons_of_mem hmem
      rw [hsplit] at hskip hshort hnz ⊢
      have htail : v.rdropWhile isTail <+: v := List.rdropWhile_prefix _ _
      have hlen' := htail.length_le
      rw [List.length_append, List.length_cons] at hshort
      have hfit : (v.rdropWhile isTail).length < sizeofItemContent := by
        have : sizeofItemContent = 500 := rfl
        omega
      have hnza : ∀ c ∈ a, c ≠ 0 := fun c hc => hnz c (List.mem_append_left _ hc)
      have hnzv : ∀ c ∈ v.rdropWhile isTail, c ≠ 0 := fun c hc =>
        hnz c (List.mem_append_right _ (List.mem_cons_of_mem _ (htail.subset hc)))
      have hkept : (newConfItem (a ++ equalsSign :: v.rdropWhile isTail) a.length).FieldsKept ↔
          a.length < sizeofItemName := by
        refine ⟨fun h => ?_, fun ha => (newConfItem_spec ha hfit hnza hnzv).2.2⟩
        by_contra ha
        exact newConfItem_overflow (Nat.le_of_not_lt ha) hnza h
      rw [itemOfText_some (Bool.not_eq_true _ ▸ hskip) hno, strchr_append hno]
      constructor
      · intro h
        refine Or.inr fun n hn => ?_
        obtain rfl := Option.some.inj hn
        exact hkept.mp (h _ rfl)
      · rintro (h | h) x hx
        · exact absurd h hskip
        · obtain rfl := Option.some.inj hx
          exact hkept.mpr (h _ rfl)
    · rw [itemOfText_none hmem, strchr_none hmem]
      refine ⟨fun _ => Or.inr fun n hn => ?_, fun _ x hx => ?_⟩
      · cases hn
      · cases hx

/-- `Init` keeps every item within its fields exactly if the names of the file fit. -/
theorem fieldsKept_iff (file : List Byte) : ∃ items, CConfig.init file = some items ∧
    ((∀ x ∈ items, x.FieldsKept) ↔ ∀ line ∈ pieces file, NameFits line) := by
  refine ⟨_, init_eq file, ?_⟩
  have hline {line : List Byte} (h : line ∈ pieces file) := fieldsKept_line (length_of_mem_pieces h)
  simp only [List.mem_filterMap, forall_exists_index, and_imp]
  constructor
  · intro h line hmem
    exact (hline hmem).mp fun x hx => h x line hmem hx
  · intro h x line hmem hx
    exact (hline hmem).mpr (h line hmem) x hx

/-- A name of fifty bytes. -/
theorem name_overflows : ¬ ∀ file items, CConfig.init file = some items →
    ∀ x ∈ items, x.FieldsKept := by
  intro hall
  set a : List Byte := List.replicate 50 97 with ha
  have hitem : itemOfText (cText (a ++ equalsSign :: [98])) =
      some (newConfItem (a ++ equalsSign :: [98]) a.length) := by
    have htext : cText (a ++ equalsSign :: [98]) = a ++ equalsSign :: [98] := by decide +kernel
    rw [htext, itemOfText_some (by decide +kernel) (by decide +kernel)]
    rfl
  have hpieces : pieces (a ++ equalsSign :: [98]) = [a ++ equalsSign :: [98]] := by decide +kernel
  have hinit := init_eq (a ++ equalsSign :: [98])
  rw [hpieces, List.filterMap_cons, hitem] at hinit
  refine newConfItem_overflow (a := a) (w := [98]) (by decide +kernel) (by decide +kernel) ?_
  exact hall _ _ hinit _ (List.mem_cons_self ..)

end XiaoHGServer
