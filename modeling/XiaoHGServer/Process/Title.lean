import XiaoHGServer.Model.ProcTitle

/-!
# Titles and the environment

The sizes are added up on what the members held before, and `SetProcTitle` clears as
many bytes as they say. The title, the environment and what is behind the block are
kept if the two sizes give no more than the block and the copy has room.
-/

namespace XiaoHGServer

open Memory

variable {start : ProcStart} {members : CMainArgCtl} {newChar : ℕ → Option (ℕ → Byte)}
  {s s' : ArgState} {t : CText} {m m' m'' : Memory Byte} {mem : Region → Memory Byte}
  {size p q : ℕ} {n : BitVec 64} {text : List Byte} {ss : List (List Byte)}

/-! ### What `Init` reads and writes -/

structure Scanned (size : ℕ) (m m' : Memory Byte) : Prop where
  cell : m'.cell = m.cell
  within : Within 0 size m m'

theorem Scanned.refl (size : ℕ) (m : Memory Byte) : Scanned size m m := ⟨rfl, .refl 0 size m⟩

theorem Scanned.trans (h : Scanned size m m') (h' : Scanned size m' m'') : Scanned size m m'' :=
  ⟨h'.cell.trans h.cell, h.within.trans h'.within⟩

theorem Scanned.packed (h : Scanned size m m') (hm : m.Packed p ss) : m'.Packed p ss :=
  hm.congr fun i _ _ => congrFun h.cell i

theorem strlenAt_spec (h : (mem .block).Holds p text) (hsize : p + text.length < size) :
    (strlenAt size mem ⟨.block, p⟩).2 = text.length ∧
      Scanned size (mem .block) ((strlenAt size mem ⟨.block, p⟩).1 .block) ∧
      (strlenAt size mem ⟨.block, p⟩).1 .envMem = mem .envMem := by
  obtain ⟨hlen, hcell, hwithin⟩ := strlen_spec h (show text.length < size by omega)
  refine ⟨hlen, ⟨?_, ?_⟩, rfl⟩
  · simpa only [strlenAt, Function.update_self] using hcell
  · simpa only [strlenAt, Function.update_self] using hwithin.mono (Nat.zero_le p) hsize

theorem needMemSize_cons (src : CharPtr) (ps : List CharPtr) : needMemSize size mem n (src :: ps) =
    needMemSize size (strlenAt size mem src).1
      (n + (BitVec.ofNat 64 (strlenAt size mem src).2 + 1)) ps := rfl

theorem charPtrs_cons (region : Region) : charPtrs region p (text :: ss) =
    ⟨region, p⟩ :: charPtrs region (p + (text.length + 1)) ss := rfl

theorem needMemSize_spec : ∀ {ss : List (List Byte)} {p : ℕ} {mem : Region → Memory Byte}
    {n : BitVec 64}, (mem .block).Packed p ss → p + packedSize ss ≤ size →
    (needMemSize size mem n (charPtrs .block p ss)).2 = n + BitVec.ofNat 64 (packedSize ss) ∧
      Scanned size (mem .block) ((needMemSize size mem n (charPtrs .block p ss)).1 .block) ∧
      (needMemSize size mem n (charPtrs .block p ss)).1 .envMem = mem .envMem
  | [], _, mem, n, _, _ => ⟨(BitVec.add_zero n).symm, .refl size (mem .block), rfl⟩
  | text :: ss, p, mem, n, h, hsize => by
    rw [packedSize_cons] at hsize
    obtain ⟨hlen, hscan, henv⟩ := strlenAt_spec h.1 (show p + text.length < size by omega)
    obtain ⟨hrest, hscan', henv'⟩ := needMemSize_spec (n := n + (BitVec.ofNat 64 text.length + 1))
      (hscan.packed h.2) (by omega)
    rw [charPtrs_cons, needMemSize_cons, hlen]
    refine ⟨?_, hscan.trans hscan', henv'.trans henv⟩
    rw [hrest, packedSize_cons, BitVec.ofNat_add, BitVec.ofNat_add, BitVec.add_assoc]
    rfl

theorem moveEnv_cons (pTmp src : CharPtr) (ps : List CharPtr) :
    moveEnv size mem pTmp (src :: ps) =
      let mem₁ := (strlenAt size mem src).1
      let mem₂ := Function.update mem₁ pTmp.region ((mem₁ pTmp.region).strcpy pTmp.offset
        (textAt size (mem₁ src.region) src.offset))
      let r := moveEnv size mem₂ ⟨pTmp.region, pTmp.offset + ((strlenAt size mem src).2 + 1)⟩ ps
      (r.1, pTmp :: r.2) := rfl

theorem moveEnv_spec : ∀ {ss : List (List Byte)} {p q : ℕ} {mem : Region → Memory Byte},
    (mem .block).Packed p ss → p + packedSize ss ≤ size →
    (moveEnv size mem ⟨.envMem, q⟩ (charPtrs .block p ss)).2 = charPtrs .envMem q ss ∧
      Scanned size (mem .block)
        ((moveEnv size mem ⟨.envMem, q⟩ (charPtrs .block p ss)).1 .block) ∧
      (moveEnv size mem ⟨.envMem, q⟩ (charPtrs .block p ss)).1 .envMem = (mem .envMem).pack q ss
  | [], _, _, mem, _, _ => ⟨rfl, .refl size (mem .block), rfl⟩
  | text :: ss, p, q, mem, h, hsize => by
    rw [packedSize_cons] at hsize
    obtain ⟨hlen, hscan, henv⟩ := strlenAt_spec h.1 (show p + text.length < size by omega)
    set mem₁ := (strlenAt size mem ⟨.block, p⟩).1 with hmem₁
    have htext : textAt size (mem₁ .block) p = text :=
      (h.1.congr fun i _ _ => congrFun hscan.cell i).textAt_eq (by omega)
    set mem₂ := Function.update mem₁ .envMem ((mem₁ .envMem).strcpy q text) with hmem₂
    have hblock : mem₂ .block = mem₁ .block := Function.update_of_ne (by decide) _ _
    have hpacked : (mem₂ .block).Packed (p + (text.length + 1)) ss := by
      rw [hblock]
      exact hscan.packed h.2
    obtain ⟨hrest, hscan', henv'⟩ := moveEnv_spec (q := q + (text.length + 1)) hpacked (by omega)
    rw [charPtrs_cons, moveEnv_cons]
    simp only [← hmem₁, htext, hlen, ← hmem₂]
    refine ⟨?_, ?_, ?_⟩
    · rw [hrest, charPtrs_cons]
    · rw [← hblock] at hscan
      exact hscan.trans hscan'
    · rw [henv', hmem₂, Function.update_self, henv]
      rfl

/-! ### What should be kept -/

def ArgState.Reads (s : ArgState) (p : CharPtr) (text : List Byte) : Prop :=
  (s.mem p.region).Holds p.offset text

/-- Every string of the environment reads as at the start. -/
def EnvKept (start : ProcStart) (s : ArgState) : Prop :=
  List.Forall₂ s.Reads s.environ start.environText

/-- What a call of `SetProcTitle` should do. -/
structure TitleKept (start : ProcStart) (t : CText) (s s' : ArgState) (success : Bool) : Prop where
  refused : success = false ↔ start.totalSize ≤ t.text.length
  title : success = true → ∃ p, s'.pOsArgv.head? = some (some p) ∧ s'.Reads p t.text
  env : EnvKept start s'
  block : ∀ a ∈ (s'.mem .block).log, a.cell < start.totalSize
  envMem : s'.mem .envMem = s.mem .envMem

def TitlesKept (start : ProcStart) : ArgState → List CText → Prop
  | _, [] => True
  | s, t :: ts => ∃ s' success, s.setProcTitle t = some (s', success) ∧
      TitleKept start t s s' success ∧ TitlesKept start s' ts

/-- If `Init` returns, it has stayed within the memory it asked for and has kept the environment,
and so do the titles. -/
def Renames (start : ProcStart) (members : CMainArgCtl) (newChar : ℕ → Option (ℕ → Byte))
    (titles : List CText) : Prop :=
  ∀ s, start.init members newChar = some s →
    (∀ a ∈ (s.mem .envMem).log, a.cell < s.mainArgCtl.envNeedMemSize.toNat) ∧
      EnvKept start s ∧ TitlesKept start s titles

/-- The size that `Init` asks memory of. -/
def ProcStart.envNeed (start : ProcStart) (members : CMainArgCtl) : ℕ :=
  (members.envNeedMemSize.toNat + packedSize start.environText) % 2 ^ 64

/-- The size that `SetProcTitle` goes by. -/
def ProcStart.totalLen (start : ProcStart) (members : CMainArgCtl) : ℕ :=
  u32 (members.argvNeedMemSize.toNat + members.envNeedMemSize.toNat + start.totalSize)

/-- A title is too long by either size, or it is shorter than the size that `SetProcTitle` goes by,
which is no more than there is. -/
def ProcStart.TitleFits (start : ProcStart) (members : CMainArgCtl) (t : CText) : Prop :=
  (start.totalSize ≤ t.text.length ∧ start.totalLen members ≤ u32 t.text.length) ∨
    (start.argv ≠ [] ∧ t.text.length < start.totalLen members ∧
      start.totalLen members ≤ start.totalSize)

/-- There is no memory for the environment, or enough for it, and every title fits. -/
def ProcStart.Fits (start : ProcStart) (members : CMainArgCtl) (newChar : ℕ → Option (ℕ → Byte))
    (titles : List CText) : Prop :=
  newChar (start.envNeed members) = none ∨
    (packedSize start.environText ≤ start.envNeed members ∧
      ∀ t ∈ titles, start.TitleFits members t)

/-! ### After `Init` -/

theorem start_ne_zero (start : ProcStart) :
    ∀ s ∈ start.argvText ++ start.environText, ∀ c ∈ s, c ≠ 0 := by
  intro s hs
  rw [ProcStart.argvText, ProcStart.environText, ← List.map_append] at hs
  obtain ⟨t, -, rfl⟩ := List.mem_map.mp hs
  exact t.nonzero

theorem block_packed (start : ProcStart) :
    start.block.Packed 0 (start.argvText ++ start.environText) := by
  refine .of_image (start_ne_zero start) fun i hi => ?_
  rw [Nat.zero_add, ProcStart.block]
  dsimp only
  rw [List.getElem?_eq_getElem hi, Option.getD_some]

/-- The process between calls: what `SetProcTitle` goes by, and what it has to keep. -/
structure Ready (start : ProcStart) (members : CMainArgCtl) (s : ArgState) : Prop where
  total : ((s.mainArgCtl.argvNeedMemSize + s.mainArgCtl.envNeedMemSize).setWidth 32).toNat =
    start.totalLen members
  first : s.pOsArgv.head? = some start.argvPtrs.head?
  regions : ∀ p ∈ s.environ, p.region = .envMem
  env : EnvKept start s
  block : ∀ a ∈ (s.mem .block).log, a.cell < start.totalSize

theorem reads_packed {region : Region} : ∀ {ss : List (List Byte)} {p : ℕ},
    (s.mem region).Packed p ss → List.Forall₂ s.Reads (charPtrs region p ss) ss
  | [], _, _ => .nil
  | _ :: _, _, h => .cons h.1 (reads_packed h.2)

theorem region_of_mem_charPtrs {region : Region} {p : ℕ} {ptr : CharPtr}
    (h : ptr ∈ charPtrs region p ss) : ptr.region = region := by
  obtain ⟨i, -, rfl⟩ := List.mem_map.mp h
  rfl

theorem ArgState.init_eq (s : ArgState) (argv : List CharPtr) : s.init size newChar argv =
    let r₁ := needMemSize size s.mem s.mainArgCtl.argvNeedMemSize argv
    let r₂ := needMemSize size r₁.1 s.mainArgCtl.envNeedMemSize s.environ
    (newChar r₂.2.toNat).map fun contents =>
      let envMem := storeAll ⟨contents, []⟩ 0 (List.replicate r₂.2.toNat 0)
      let r₃ := moveEnv size (Function.update r₂.1 .envMem envMem) ⟨.envMem, 0⟩ s.environ
      ⟨r₃.1, r₃.2, argv.map some ++ [none],
        ⟨some ⟨.envMem, 0⟩, r₁.2, r₂.2, BitVec.ofNat 32 argv.length⟩⟩ := rfl

theorem argv_packed (start : ProcStart) : start.block.Packed 0 start.argvText :=
  (block_packed start).append_left

theorem environ_packed (start : ProcStart) :
    start.block.Packed (packedSize start.argvText) start.environText := by
  have hright := (block_packed start).append_right
  rwa [Nat.zero_add] at hright

theorem totalSize_eq (start : ProcStart) :
    start.totalSize = packedSize start.argvText + packedSize start.environText :=
  packedSize_append

theorem argInit_sizes (start : ProcStart) (members : CMainArgCtl)
    (newChar : ℕ → Option (ℕ → Byte)) :
    ∃ (mem : Region → Memory Byte) (a e : BitVec 64),
      a = members.argvNeedMemSize + BitVec.ofNat 64 (packedSize start.argvText) ∧
      e = members.envNeedMemSize + BitVec.ofNat 64 (packedSize start.environText) ∧
      e.toNat = start.envNeed members ∧ Scanned start.totalSize start.block (mem .block) ∧
      start.init members newChar = (newChar e.toNat).map fun contents =>
        let envMem := storeAll ⟨contents, []⟩ 0 (List.replicate e.toNat 0)
        let r := moveEnv start.totalSize (Function.update mem .envMem envMem) ⟨.envMem, 0⟩
          start.environPtrs
        ⟨r.1, r.2, start.argvPtrs.map some ++ [none],
          ⟨some ⟨.envMem, 0⟩, a, e, BitVec.ofNat 32 start.argvPtrs.length⟩⟩ := by
  have htotal := totalSize_eq start
  set r₁ := needMemSize start.totalSize (start.state members).mem
    (start.state members).mainArgCtl.argvNeedMemSize start.argvPtrs
  obtain ⟨hsum₁, hscan₁, -⟩ : r₁.2 = members.argvNeedMemSize +
      BitVec.ofNat 64 (packedSize start.argvText) ∧
      Scanned start.totalSize start.block (r₁.1 .block) ∧ _ :=
    needMemSize_spec (argv_packed start) (by omega)
  set r₂ := needMemSize start.totalSize r₁.1 (start.state members).mainArgCtl.envNeedMemSize
    (start.state members).environ
  obtain ⟨hsum₂, hscan₂, -⟩ : r₂.2 = members.envNeedMemSize +
      BitVec.ofNat 64 (packedSize start.environText) ∧
      Scanned start.totalSize (r₁.1 .block) (r₂.1 .block) ∧ _ :=
    needMemSize_spec (hscan₁.packed (environ_packed start)) (by omega)
  refine ⟨r₂.1, r₁.2, r₂.2, hsum₁, hsum₂, ?_, hscan₁.trans hscan₂, ?_⟩
  · rw [hsum₂, BitVec.toNat_add, BitVec.toNat_ofNat, ProcStart.envNeed, Nat.add_mod_mod]
  · rw [ProcStart.init, ArgState.init_eq]
    rfl

theorem argInit_none (h : start.init members newChar = none) :
    newChar (start.envNeed members) = none := by
  obtain ⟨mem, a, e, -, -, hneed, -, hinit⟩ := argInit_sizes start members newChar
  rw [hinit, Option.map_eq_none_iff, hneed] at h
  exact h

theorem argInit_spec (h : start.init members newChar = some s) :
    Ready start members s ∧ newChar (start.envNeed members) ≠ none ∧
      s.mainArgCtl.envNeedMemSize.toNat = start.envNeed members ∧
      ∃ m : Memory Byte, (∀ a ∈ m.log, a.cell < start.envNeed members) ∧
        s.mem .envMem = m.pack 0 start.environText := by
  have htotal := totalSize_eq start
  obtain ⟨mem, a, e, ha, he, hneed, hscanned, hinit⟩ := argInit_sizes start members newChar
  rw [hinit] at h
  obtain ⟨contents, hnew, hs⟩ := Option.map_eq_some_iff.mp h
  set envMem := storeAll ⟨contents, []⟩ 0 (List.replicate e.toNat (0 : Byte)) with henvMem
  set mem₂ := Function.update mem .envMem envMem with hmem₂
  have hscan : Scanned start.totalSize start.block (mem₂ .block) := by
    rw [hmem₂, Function.update_of_ne (by decide)]
    exact hscanned
  set r := moveEnv start.totalSize mem₂ ⟨.envMem, 0⟩ start.environPtrs
  obtain ⟨henviron, hscan', hmoved⟩ : r.2 = charPtrs .envMem 0 start.environText ∧
      Scanned start.totalSize (mem₂ .block) (r.1 .block) ∧
      r.1 .envMem = (mem₂ .envMem).pack 0 start.environText :=
    moveEnv_spec (hscan.packed (environ_packed start)) (by omega)
  rw [hmem₂, Function.update_self] at hmoved
  have hpacked : (r.1 .envMem).Packed 0 start.environText := by
    rw [hmoved]
    exact pack_packed fun t ht => start_ne_zero start t (List.mem_append_right _ ht)
  subst hs
  refine ⟨?_, ?_, hneed, envMem, ?_, hmoved⟩
  · constructor
    · change ((a + e).setWidth 32).toNat = _
      rw [ha, he, ProcStart.totalLen, htotal, u32]
      simp only [BitVec.toNat_setWidth, BitVec.toNat_add, BitVec.toNat_ofNat]
      omega
    · change (start.argvPtrs.map some ++ [none]).head? = _
      cases start.argvPtrs <;> rfl
    · change ∀ p ∈ r.2, p.region = .envMem
      rw [henviron]
      exact fun p hp => region_of_mem_charPtrs hp
    · change List.Forall₂ _ r.2 _
      rw [henviron]
      exact reads_packed hpacked
    · intro x hx
      exact ((hscan.trans hscan').within.mem_log rfl hx).2
  · rw [← hneed]
    exact Option.ne_none_iff_exists'.mpr ⟨contents, hnew⟩
  · intro x hx
    rcases storeAll_log hx with hx | ⟨i, hi, rfl⟩
    · exact absurd hx List.not_mem_nil
    · rw [List.length_replicate, hneed] at hi
      rwa [Access.cell, Nat.zero_add]

/-- The copy of the environment stays inside exactly if it has room. -/
theorem moved_inside_iff {k : ℕ} (hm : ∀ a ∈ m.log, a.cell < k) :
    (∀ a ∈ (m.pack 0 ss).log, a.cell < k) ↔ packedSize ss ≤ k := by
  constructor
  · intro h
    by_cases hss : ss = []
    · rw [hss]
      exact Nat.zero_le k
    · have hlast := h _ (write_mem_pack hss)
      rw [Access.cell] at hlast
      omega
  · intro hk
    exact pack_within.below (by omega) hm

/-! ### A call of `SetProcTitle` -/

def titled (m : Memory Byte) (t : CText) (total : ℕ) : Memory Byte :=
  (m.strcpy 0 t.text).storeAll (u32 t.text.length)
    (List.replicate (total - u32 t.text.length) 0)

def ArgState.titled (s : ArgState) (t : CText) (total : ℕ) : ArgState :=
  { s with
    mem := Function.update s.mem .block (XiaoHGServer.titled (s.mem .block) t total)
    pOsArgv := s.pOsArgv.set 1 none }

@[simp] theorem titled_block {total : ℕ} :
    (s.titled t total).mem .block = titled (s.mem .block) t total := by
  simp [ArgState.titled]

@[simp] theorem titled_envMem {total : ℕ} : (s.titled t total).mem .envMem = s.mem .envMem := by
  simp [ArgState.titled]

theorem head?_set_one {α : Type*} (l : List α) (x : α) : (l.set 1 x).head? = l.head? := by
  cases l <;> rfl

theorem argvPtrs_head? (hargv : start.argv ≠ []) : start.argvPtrs.head? = some ⟨.block, 0⟩ := by
  obtain ⟨t, ts, hcons⟩ := List.exists_cons_of_ne_nil hargv
  rw [ProcStart.argvPtrs, ProcStart.argvText, hcons]
  rfl

theorem titleLen_toNat (t : CText) :
    (BitVec.ofNat 32 t.text.length).toNat = u32 t.text.length := BitVec.toNat_ofNat ..

theorem Ready.totalLen_le_iff (h : Ready start members s) :
    (s.mainArgCtl.argvNeedMemSize + s.mainArgCtl.envNeedMemSize).setWidth 32 ≤
      BitVec.ofNat 32 t.text.length ↔ start.totalLen members ≤ u32 t.text.length := by
  rw [BitVec.le_def, h.total, titleLen_toNat]

theorem Ready.more_eq (h : Ready start members s)
    (hlt : u32 t.text.length < start.totalLen members) :
    ((s.mainArgCtl.argvNeedMemSize + s.mainArgCtl.envNeedMemSize).setWidth 32 -
      BitVec.ofNat 32 t.text.length).toNat = start.totalLen members - u32 t.text.length := by
  rw [BitVec.toNat_sub_of_le, h.total, titleLen_toNat]
  rw [BitVec.le_def, h.total, titleLen_toNat]
  exact hlt.le

theorem setProcTitle_refused (h : Ready start members s)
    (hle : start.totalLen members ≤ u32 t.text.length) : s.setProcTitle t = some (s, false) := by
  rw [ArgState.setProcTitle]
  exact if_pos (h.totalLen_le_iff.mpr hle)

theorem setProcTitle_null (h : Ready start members s) (hargv : start.argv = [])
    (hlt : u32 t.text.length < start.totalLen members) : s.setProcTitle t = none := by
  have hsize := mt h.totalLen_le_iff.mp (Nat.not_le_of_lt hlt)
  have hfirst : s.pOsArgv.head? = some none := by
    rw [h.first, ProcStart.argvPtrs, ProcStart.argvText, hargv]
    rfl
  rw [ArgState.setProcTitle]
  simp only [if_neg hsize, head?_set_one, hfirst]

theorem setProcTitle_done (h : Ready start members s) (hargv : start.argv ≠ [])
    (hlt : u32 t.text.length < start.totalLen members) :
    s.setProcTitle t = some (s.titled t (start.totalLen members), true) := by
  have hsize := mt h.totalLen_le_iff.mp (Nat.not_le_of_lt hlt)
  have hfirst : s.pOsArgv.head? = some (some ⟨.block, 0⟩) := by
    rw [h.first, argvPtrs_head? hargv]
  rw [ArgState.setProcTitle]
  simp only [if_neg hsize, head?_set_one, hfirst, h.more_eq hlt, titleLen_toNat, Nat.zero_add]
  rw [ArgState.titled, titled]

theorem titled_cell_zero {total i : ℕ} (hlo : u32 t.text.length ≤ i) (hhi : i < total) :
    (titled m t total).cell i = 0 := by
  have hi : i - u32 t.text.length <
      (List.replicate (total - u32 t.text.length) (0 : Byte)).length := by
    rw [List.length_replicate]
    omega
  have hcell := storeAll_cell (m := m.strcpy 0 t.text) (p := u32 t.text.length) hi
  rwa [Nat.add_sub_of_le hlo, List.getElem_replicate] at hcell

theorem titled_within (m : Memory Byte) (t : CText) (total : ℕ) :
    Within (u32 t.text.length) (max total (u32 t.text.length)) (m.strcpy 0 t.text)
      (titled m t total) := by
  have hclear : Within (u32 t.text.length) _ (m.strcpy 0 t.text) (titled m t total) :=
    storeAll_within
  refine hclear.mono le_rfl ?_
  rw [List.length_replicate]
  omega

theorem titled_holds_iff {total : ℕ} (hlt : u32 t.text.length < total) :
    (titled m t total).Holds 0 t.text ↔ t.text.length < 2 ^ 32 := by
  constructor
  · intro h
    by_contra hlong
    have hcut : u32 t.text.length < t.text.length :=
      (Nat.mod_lt _ (by decide)).trans_le (Nat.le_of_not_lt hlong)
    have hzero := h.text _ hcut
    rw [Nat.zero_add, titled_cell_zero le_rfl hlt] at hzero
    exact t.nonzero _ (List.getElem_mem hcut) hzero.symm
  · intro hshort
    have hlen : u32 t.text.length = t.text.length := Nat.mod_eq_of_lt hshort
    have hcopied : (m.strcpy 0 t.text).Holds 0 t.text := strcpy_holds t.nonzero
    refine ⟨fun i hi => ?_, ?_, t.nonzero⟩
    · rw [(titled_within m t total).frame _ (by omega), hcopied.text i hi]
    · exact titled_cell_zero (by omega) (by omega)

theorem titled_inside_iff {total k : ℕ} (hlt : u32 t.text.length < total)
    (hm : ∀ a ∈ m.log, a.cell < k) : (∀ a ∈ (titled m t total).log, a.cell < k) ↔
      t.text.length < k ∧ total ≤ k := by
  have hwithin := titled_within m t total
  constructor
  · intro h
    have hend : t.text.length < (t.text ++ [0]).length := by simp
    have hcleared : total - 1 - u32 t.text.length <
        (List.replicate (total - u32 t.text.length) (0 : Byte)).length := by
      rw [List.length_replicate]
      omega
    have hnul : Access.write (0 + t.text.length) ∈ (m.strcpy 0 t.text).log :=
      write_mem_storeAll hend
    have hlast : Access.write (u32 t.text.length + (total - 1 - u32 t.text.length)) ∈
        (titled m t total).log := write_mem_storeAll hcleared
    have hlo := h _ (hwithin.log_subset hnul)
    have hhi := h _ hlast
    rw [Access.cell] at hlo hhi
    omega
  · rintro ⟨hlen, htotal⟩
    have hcopied : Within 0 (0 + t.text.length + 1) m (m.strcpy 0 t.text) := strcpy_within
    exact hwithin.below (by omega) (hcopied.below (by omega) hm)

theorem reads_frame {ptrs : List CharPtr} {texts : List (List Byte)}
    (h : List.Forall₂ s.Reads ptrs texts) (hregions : ∀ p ∈ ptrs, p.region = .envMem)
    (henvMem : s'.mem .envMem = s.mem .envMem) : List.Forall₂ s'.Reads ptrs texts := by
  induction h with
  | nil => exact .nil
  | @cons ptr text ptrs texts hread _ ih =>
    have hregion : ptr.region = .envMem := hregions ptr (List.mem_cons_self ..)
    refine .cons ?_ (ih fun p hp => hregions p (List.mem_cons_of_mem ptr hp))
    rw [ArgState.Reads, hregion] at hread ⊢
    rwa [henvMem]

/-- An accepted title is kept, and everything else, exactly if it is shorter than what is cleared,
and that is no more than there is. -/
theorem titleKept_titled_iff (h : Ready start members s) (hargv : start.argv ≠ [])
    (hlt : u32 t.text.length < start.totalLen members) :
    TitleKept start t s (s.titled t (start.totalLen members)) true ↔
      t.text.length < start.totalLen members ∧ start.totalLen members ≤ start.totalSize := by
  set s' := s.titled t (start.totalLen members)
  have hfirst : s'.pOsArgv.head? = some (some ⟨.block, 0⟩) := by
    rw [← argvPtrs_head? hargv, ← h.first]
    exact head?_set_one s.pOsArgv none
  have hblock : s'.mem .block = titled (s.mem .block) t (start.totalLen members) := titled_block
  have hreads : s'.Reads ⟨.block, 0⟩ t.text ↔ t.text.length < 2 ^ 32 := by
    rw [ArgState.Reads, hblock]
    exact titled_holds_iff hlt
  have hinside := titled_inside_iff hlt h.block
  rw [← hblock] at hinside
  constructor
  · intro hkept
    obtain ⟨p, hp, hread⟩ := hkept.title rfl
    rw [hfirst] at hp
    cases hp
    have hlen : u32 t.text.length = t.text.length := Nat.mod_eq_of_lt (hreads.mp hread)
    exact ⟨hlen ▸ hlt, (hinside.mp hkept.block).2⟩
  · rintro ⟨hshort, htotal⟩
    have hbound : start.totalLen members < 2 ^ 32 := Nat.mod_lt _ (by decide)
    constructor
    · exact iff_of_false Bool.noConfusion (by omega)
    · exact fun _ => ⟨⟨.block, 0⟩, hfirst, hreads.mpr (by omega)⟩
    · exact reads_frame h.env h.regions titled_envMem
    · exact hinside.mpr ⟨by omega, htotal⟩
    · exact titled_envMem

/-- A call does what it should exactly if the title fits. -/
theorem titleKept_iff (h : Ready start members s) :
    (∃ s' success, s.setProcTitle t = some (s', success) ∧ TitleKept start t s s' success) ↔
      start.TitleFits members t := by
  have hu32 : u32 t.text.length ≤ t.text.length := Nat.mod_le ..
  rcases Nat.lt_or_ge (u32 t.text.length) (start.totalLen members) with hlt | hle
  · have haccepted : ¬ start.totalLen members ≤ u32 t.text.length := Nat.not_le_of_lt hlt
    by_cases hargv : start.argv = []
    · rw [setProcTitle_null h hargv hlt]
      constructor
      · rintro ⟨s', success, heq, -⟩
        cases heq
      · rintro (⟨-, hle⟩ | ⟨hne, -⟩)
        · exact absurd hle haccepted
        · exact absurd hargv hne
    · rw [setProcTitle_done h hargv hlt]
      have hkept := titleKept_titled_iff h hargv hlt
      constructor
      · rintro ⟨_, _, heq, htitle⟩
        cases heq
        exact Or.inr ⟨hargv, hkept.mp htitle⟩
      · rintro (⟨-, hle⟩ | ⟨-, hfits⟩)
        · exact absurd hle haccepted
        · exact ⟨_, true, rfl, hkept.mpr hfits⟩
  · rw [setProcTitle_refused h hle]
    constructor
    · rintro ⟨s', success, heq, hkept⟩
      cases heq
      exact Or.inl ⟨hkept.refused.mp rfl, hle⟩
    · rintro (⟨hlong, -⟩ | ⟨-, hshort, -⟩)
      · exact ⟨s, false, rfl, iff_of_true rfl hlong, nofun, h.env, h.block, rfl⟩
      · omega

theorem setProcTitle_frame {success : Bool} (hs : s.setProcTitle t = some (s', success)) :
    s'.mainArgCtl = s.mainArgCtl ∧ s'.environ = s.environ ∧
      s'.pOsArgv.head? = s.pOsArgv.head? := by
  rw [ArgState.setProcTitle] at hs
  dsimp only at hs
  split at hs
  · cases hs
    exact ⟨rfl, rfl, rfl⟩
  · split at hs
    · cases hs
      exact ⟨rfl, rfl, head?_set_one s.pOsArgv none⟩
    · cases hs

theorem Ready.next {success : Bool} (h : Ready start members s)
    (hs : s.setProcTitle t = some (s', success)) (hkept : TitleKept start t s s' success) :
    Ready start members s' := by
  obtain ⟨hctl, henviron, hfirst⟩ := setProcTitle_frame hs
  constructor
  · rw [hctl]
    exact h.total
  · rw [hfirst]
    exact h.first
  · rw [henviron]
    exact h.regions
  · exact hkept.env
  · exact hkept.block

theorem titlesKept_iff : ∀ {titles : List CText} {s : ArgState}, Ready start members s →
    (TitlesKept start s titles ↔ ∀ t ∈ titles, start.TitleFits members t)
  | [], _, _ => iff_of_true trivial fun t ht => absurd ht List.not_mem_nil
  | t :: titles, s, h => by
    rw [List.forall_mem_cons, ← titleKept_iff h]
    constructor
    · rintro ⟨s', success, hs, hkept, hrest⟩
      exact ⟨⟨s', success, hs, hkept⟩, (titlesKept_iff (h.next hs hkept)).mp hrest⟩
    · rintro ⟨⟨s', success, hs, hkept⟩, hrest⟩
      exact ⟨s', success, hs, hkept, (titlesKept_iff (h.next hs hkept)).mpr hrest⟩

/-- Everything fits if the members are zero, with sizes and titles of less than 4 GiB. -/
theorem fits_of_zero {titles : List CText} (hargv : start.argv ≠ [])
    (ha : members.argvNeedMemSize = 0) (he : members.envNeedMemSize = 0)
    (hsize : start.totalSize < 2 ^ 32) (htitles : ∀ t ∈ titles, t.text.length < 2 ^ 32) :
    start.Fits members newChar titles := by
  have htotal := totalSize_eq start
  have hzero : (0 : BitVec 64).toNat = 0 := rfl
  have hlen : start.totalLen members = start.totalSize := by
    rw [ProcStart.totalLen, ha, he, hzero, Nat.add_zero, Nat.zero_add]
    exact Nat.mod_eq_of_lt hsize
  refine Or.inr ⟨?_, fun t ht => ?_⟩
  · rw [ProcStart.envNeed, he, hzero, Nat.zero_add, Nat.mod_eq_of_lt (by omega)]
  · have hu32 : u32 t.text.length = t.text.length := Nat.mod_eq_of_lt (htitles t ht)
    rw [ProcStart.TitleFits, hlen, hu32]
    rcases Nat.lt_or_ge t.text.length start.totalSize with hlt | hge
    · exact Or.inr ⟨hargv, hlt, le_rfl⟩
    · exact Or.inl ⟨hge, hge⟩

/-- Titles may be set, and the environment is kept, exactly if everything fits. -/
theorem renames_iff (start : ProcStart) (members : CMainArgCtl)
    (newChar : ℕ → Option (ℕ → Byte)) (titles : List CText) :
    Renames start members newChar titles ↔ start.Fits members newChar titles := by
  rcases hinit : start.init members newChar with _ | s
  · refine iff_of_true (fun s hs => ?_) (Or.inl (argInit_none hinit))
    rw [hinit] at hs
    cases hs
  · obtain ⟨hready, hnew, hneed, m, hm, hmoved⟩ := argInit_spec hinit
    rw [ProcStart.Fits, or_iff_right hnew, ← titlesKept_iff hready, ← moved_inside_iff hm, ← hmoved,
      ← hneed]
    constructor
    · intro h
      obtain ⟨hinside, -, htitles⟩ := h s hinit
      exact ⟨hinside, htitles⟩
    · rintro ⟨hinside, htitles⟩ s' hs'
      rw [hinit] at hs'
      cases hs'
      exact ⟨hinside, hready.env, htitles⟩

/-- A title of ten characters for a block of six bytes. -/
theorem title_overruns : ¬ ∀ (start : ProcStart) (members : CMainArgCtl)
    (newChar : ℕ → Option (ℕ → Byte)) (titles : List CText),
    Renames start members newChar titles := by
  intro h
  let start : ProcStart := ⟨[⟨[97], by decide⟩], [⟨[98, 61, 99], by decide⟩], fun _ => 0⟩
  let members : CMainArgCtl := ⟨none, 100, 0, 0⟩
  let t : CText := ⟨List.replicate 10 120, by decide⟩
  have hrenames := h start members (fun _ => some fun _ => 0) [t]
  rcases hinit : start.init members (fun _ => some fun _ => 0) with _ | s
  · cases argInit_none hinit
  obtain ⟨hready, -⟩ := argInit_spec hinit
  obtain ⟨-, -, htitles⟩ := hrenames s hinit
  have hfits := (titlesKept_iff hready).mp htitles t (List.mem_singleton_self t)
  have hsize : start.totalSize = 6 := rfl
  have htotal : start.totalLen members = 106 := rfl
  rcases hfits with ⟨-, hle⟩ | ⟨-, -, hle⟩
  · rw [htotal] at hle
    exact absurd hle (by decide)
  · rw [htotal, hsize] at hle
    exact absurd hle (by decide)

end XiaoHGServer
