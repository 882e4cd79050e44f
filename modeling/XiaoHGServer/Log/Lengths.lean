import XiaoHGServer.Log.Texts

/-!
# The running length of a log line

`m_LogStrLen` is advanced by what `snprintf` returns, the length of the whole text,
and then used as offset and as length of the line. It is right as long as no text is
cut off, or if the excess is lost in the sixteen bits of the length.
-/

namespace XiaoHGServer

open Memory

variable {s t : CLog} {env : LogEnv} {all text : List Byte} {limit n : ℕ}

theorem log_limits : basicLogStrLen = 512 ∧ maxLogStrLen = 2048 := ⟨rfl, rfl⟩

/-! ### One call of `snprintf` -/

/-- `all` is in the buffer and nothing else, and `m_LogStrLen` is its length. -/
structure Filled (s : CLog) (all : List Byte) : Prop where
  text : ∀ i (h : i < all.length), s.pLogBuff.cell i = all[i]
  rest : ∀ i, all.length ≤ i → i < maxLogStrLen → s.pLogBuff.cell i = 0
  len : s.logStrLen = all.length
  inside : ∀ a ∈ s.pLogBuff.log, a.cell < maxLogStrLen

theorem intToU64_sub {n : ℕ} (hn : n ≤ limit) (hlimit : limit ≤ maxLogStrLen) :
    intToU64 ((limit : ℤ) - n) = limit - n := by
  have hlimits := log_limits
  rw [intToU64]
  omega

theorem Filled.format (h : Filled s all) (hroom : all.length < limit)
    (hlimit : limit ≤ maxLogStrLen)
    (hexact : u16 (all.length + u16 text.length) =
      all.length + (text.take (limit - 1 - all.length)).length) :
    Filled (s.format ((limit : ℤ) - s.logStrLen) text)
      (all ++ text.take (limit - 1 - all.length)) := by
  set kept := text.take (limit - 1 - all.length) with hkept
  have hsize : intToU64 ((limit : ℤ) - s.logStrLen) = limit - all.length := by
    rw [h.len, intToU64_sub hroom.le hlimit]
  have hform : (s.format ((limit : ℤ) - s.logStrLen) text).pLogBuff =
      s.pLogBuff.storeAll all.length (kept ++ [0]) := by
    have hcut : limit - all.length - 1 = limit - 1 - all.length := by omega
    rw [CLog.format]
    simp only [snprintf]
    rw [hsize, h.len, if_neg (by omega), hcut]
  have hlen : kept.length ≤ limit - 1 - all.length := List.length_take_le ..
  have hwithin : Within all.length (all.length + (kept ++ [0]).length) s.pLogBuff
      (s.pLogBuff.storeAll all.length (kept ++ [0])) := storeAll_within
  constructor
  · intro i hi
    rw [hform]
    by_cases hold : i < all.length
    · rw [hwithin.frame i (by omega), h.text i hold, List.getElem_append_left hold]
    · obtain ⟨j, rfl⟩ := Nat.exists_eq_add_of_le (Nat.le_of_not_lt hold)
      have hj : j < kept.length := by
        rw [List.length_append] at hi
        omega
      have hj' : j < (kept ++ [0]).length := by
        rw [List.length_append]
        omega
      rw [storeAll_cell hj', List.getElem_append_left hj, List.getElem_append_right (by omega)]
      simp
  · intro i hlo hhi
    rw [hform]
    rw [List.length_append] at hlo
    by_cases hnul : i = all.length + kept.length
    · have hj : kept.length < (kept ++ [0]).length := by simp
      rw [hnul, storeAll_cell hj]
      simp
    · rw [hwithin.frame i (by simp; omega)]
      exact h.rest i (by omega) hhi
  · rw [List.length_append, ← hexact, ← h.len]
    rfl
  · intro a ha
    rw [hform] at ha
    rcases storeAll_log ha with ha | ⟨i, hi, rfl⟩
    · exact h.inside a ha
    · rw [List.length_append, List.length_singleton] at hi
      rw [Access.cell]
      omega

/-! ### A call of `Log` -/

/-- After every call that formats, `m_LogStrLen` is the number of characters stored so far, which
is `n` before the first of them. -/
def Exact : ℕ → List FormatCall → Prop
  | _, [] => True
  | n, f :: fs => f.logStrLen = n + f.stored ∧ Exact (n + f.stored) fs

/-- What a call should leave, from empty histories on: it stays in the buffer, every size is
positive, the running length is exact, and what is written is what was stored and a newline. -/
structure CLog.Sound (s : CLog) : Prop where
  inside : ∀ a ∈ s.pLogBuff.log, a.cell < maxLogStrLen
  sizes : ∀ f ∈ s.formats, f.offset < maxLogStrLen ∧ 0 ≤ f.size
  exact : Exact 0 s.formats
  length : s.logStrLen = (s.formats.map FormatCall.stored).sum
  written : ∀ w ∈ s.written, w.2.length ≤ maxLogStrLen ∧
    w.2 = (s.formats.flatMap fun f => f.text.take f.stored) ++ [10]

/-- The members before a call, with empty histories. -/
def CLog.unrecorded (s : CLog) : CLog :=
  { s with pLogBuff := ⟨s.pLogBuff.cell, []⟩, formats := [], written := [] }

def LogCall.prefixLen (env : LogEnv) (call : LogCall) : ℕ :=
  env.basicText.length + (call.tag env).length

def LogCall.prefixKept (env : LogEnv) (call : LogCall) : ℕ :=
  min (call.prefixLen env) (basicLogStrLen - 1)

/-- Nothing is logged; or both lengths are those of what is kept, because nothing is cut off or
the excess is lost in sixteen bits, and no zero is kept of the message. -/
def LogCall.Fits (s : CLog) (env : LogEnv) (call : LogCall) : Prop :=
  s.logFd = -1 ∨ s.logLevel < call.logLevel ∨
    u16 (call.prefixLen env) = call.prefixKept env ∧
      u16 (call.prefixKept env + call.text.length) =
        min (call.prefixKept env + call.text.length) (maxLogStrLen - 1) ∧
      ∀ c ∈ call.text.take (maxLogStrLen - 1 - call.prefixKept env), c ≠ 0

@[simp] theorem clear_logFd (s : CLog) : s.clear.logFd = s.logFd := by rw [CLog.clear]

@[simp] theorem clear_logLevel (s : CLog) : s.clear.logLevel = s.logLevel := by rw [CLog.clear]

theorem clear_pLogBuff (s : CLog) :
    s.clear.pLogBuff = s.pLogBuff.storeAll 0 (List.replicate maxLogStrLen 0) := by
  rw [CLog.clear]

theorem logBasicStr_eq {level : ℤ} (hfd : s.logFd ≠ -1) (hlevel : ¬ s.logLevel < level) :
    s.logBasicStr env level = (s.clear.format basicLogStrLen env.basicText, true) := by
  simp only [CLog.logBasicStr, clear_logFd, clear_logLevel, if_neg hfd, if_neg hlevel]

theorem clear_filled (s : CLog) : Filled s.unrecorded.clear [] := by
  refine ⟨fun i hi => absurd hi (Nat.not_lt_zero i), fun i _ hi => ?_, rfl, fun a ha => ?_⟩
  · have hlt : i < (List.replicate maxLogStrLen (0 : Byte)).length := by
      rwa [List.length_replicate]
    have hcell := storeAll_cell (m := s.unrecorded.pLogBuff) (p := 0) hlt
    rwa [Nat.zero_add, List.getElem_replicate, ← clear_pLogBuff] at hcell
  · rw [clear_pLogBuff] at ha
    rcases storeAll_log ha with ha | ⟨i, hi, rfl⟩
    · cases ha
    · rw [List.length_replicate] at hi
      rwa [Access.cell, Nat.zero_add]

theorem basic_filled (s : CLog) (env : LogEnv) :
    Filled (s.unrecorded.clear.format basicLogStrLen env.basicText) env.basicText ∧
      (s.unrecorded.clear.format basicLogStrLen env.basicText).formats =
        [⟨0, basicLogStrLen, env.basicText, env.basicText.length⟩] := by
  have hlen := length_basicText_lt env
  have hlt : env.basicText.length < 2 ^ 16 := by omega
  have hwhole : env.basicText.take (basicLogStrLen - 1 - ([] : List Byte).length) =
      env.basicText := List.take_of_length_le hlen.le
  have hexact : u16 (0 + u16 env.basicText.length) = env.basicText.length := by
    rw [Nat.zero_add, u16_of_lt hlt, u16_of_lt hlt]
  have hfilled : Filled (s.unrecorded.clear.format
      ((basicLogStrLen : ℤ) - s.unrecorded.clear.logStrLen) env.basicText)
      ([] ++ env.basicText.take (basicLogStrLen - 1 - ([] : List Byte).length)) :=
    (clear_filled s).format (by decide) (by decide)
      (by rw [hwhole, List.length_nil, hexact, Nat.zero_add])
  rw [hwhole, List.nil_append] at hfilled
  refine ⟨hfilled, ?_⟩
  change [(⟨0, basicLogStrLen, env.basicText, u16 (0 + u16 env.basicText.length)⟩ :
    FormatCall)] = _
  rw [hexact]

theorem u16_add (a b : ℕ) : u16 (a + u16 b) = u16 (a + b) := by
  unfold u16
  omega

@[simp] theorem format_formats (size : ℤ) : (s.format size text).formats =
    s.formats ++ [⟨s.logStrLen, size, text, u16 (s.logStrLen + text.length)⟩] := by
  rw [CLog.format, u16_add]

@[simp] theorem format_logStrLen (size : ℤ) :
    (s.format size text).logStrLen = u16 (s.logStrLen + text.length) := by
  rw [CLog.format, u16_add]

@[simp] theorem format_written (size : ℤ) : (s.format size text).written = s.written := by
  rw [CLog.format]

@[simp] theorem clear_formats : s.clear.formats = s.formats := by rw [CLog.clear]

@[simp] theorem clear_written : s.clear.written = s.written := by rw [CLog.clear]

@[simp] theorem clear_logStrLen : s.clear.logStrLen = 0 := by rw [CLog.clear]

@[simp] theorem putLine_formats (size : ℕ) (stdFlag : ℤ) :
    (s.putLine size stdFlag).formats = s.formats := by
  rw [CLog.putLine]

@[simp] theorem putLine_logStrLen (size : ℕ) (stdFlag : ℤ) :
    (s.putLine size stdFlag).logStrLen = s.logStrLen := by
  rw [CLog.putLine]

theorem log_refused (call : LogCall) (h : s.logFd = -1 ∨ s.logLevel < call.logLevel) :
    call.log s.unrecorded env = s.unrecorded.clear := by
  have hrefused : s.unrecorded.logBasicStr env call.logLevel = (s.unrecorded.clear, false) := by
    rw [CLog.logBasicStr]
    simp only [clear_logFd, clear_logLevel]
    rcases h with h | h
    · exact if_pos h
    · split
      · rfl
      · exact if_pos h
  rw [LogCall.log, CLog.logTagged, hrefused]

/-- A call that is not: the date, the tag and the message are formatted and the line is put out. -/
theorem log_eq (env : LogEnv) (call : LogCall) (hfd : s.logFd ≠ -1)
    (hlevel : ¬ s.logLevel < call.logLevel) :
    ∃ basic tagged message : CLog,
      basic = s.unrecorded.clear.format basicLogStrLen env.basicText ∧
      tagged = basic.format ((basicLogStrLen : ℤ) - basic.logStrLen) (call.tag env) ∧
      message = tagged.format ((maxLogStrLen : ℤ) - tagged.logStrLen) call.text ∧
      message.written = [] ∧ call.log s.unrecorded env =
        message.putLine (2 ^ 16 + call.text.length + maxLogStrLen) call.stdFlag := by
  have hbasic : s.unrecorded.logBasicStr env call.logLevel =
      (s.unrecorded.clear.format basicLogStrLen env.basicText, true) := logBasicStr_eq hfd hlevel
  refine ⟨_, _, _, rfl, rfl, rfl, ?_, ?_⟩
  · rw [format_written, format_written, format_written, clear_written]
    rfl
  · rw [LogCall.log, CLog.logTagged, hbasic]
    simp only [CLog.writeLog]

/-! ### The line -/

theorem putLine_written (size : ℕ) (stdFlag : ℤ) (hw : s.written = []) :
    ∃ fd line, (s.putLine size stdFlag).written = [(fd, line)] ∧
      line.length = s.logStrLen + 1 := by
  rw [CLog.putLine]
  simp only [hw, List.nil_append]
  exact ⟨_, _, rfl, by rw [List.length_map, List.length_range]⟩

theorem stored_eq {f : FormatCall} (hsize : f.size = (limit : ℤ) - n) (hroom : n < limit)
    (hlimit : limit ≤ maxLogStrLen) : f.stored = min f.text.length (limit - 1 - n) := by
  rw [FormatCall.stored, hsize, intToU64_sub hroom.le hlimit]
  omega

theorem Filled.holds {txt rest : List Byte} (h : Filled s (txt ++ rest))
    (hall : (txt ++ rest).length < maxLogStrLen) (htxt : ∀ c ∈ txt, c ≠ 0)
    (hrest : rest = [] ∨ ∃ rest', rest = 0 :: rest') : s.pLogBuff.Holds 0 txt := by
  refine ⟨fun i hi => ?_, ?_, htxt⟩
  · rw [Nat.zero_add, h.text i (by rw [List.length_append]; omega),
      List.getElem_append_left hi]
  · rw [Nat.zero_add]
    rcases hrest with rfl | ⟨rest', rfl⟩
    · rw [List.append_nil] at h hall
      exact h.rest _ le_rfl hall
    · rw [h.text _ (by simp), List.getElem_append_right le_rfl]
      simp

/-- The newline takes the place of the first zero, and as many cells are put out as the running
length says, and one. -/
theorem Filled.putLine_cells {txt rest : List Byte} {size : ℕ} (h : Filled s (txt ++ rest))
    (hall : (txt ++ rest).length < maxLogStrLen) (htxt : ∀ c ∈ txt, c ≠ 0)
    (hrest : rest = [] ∨ ∃ rest', rest = 0 :: rest') (hw : s.written = [])
    (hsize : maxLogStrLen ≤ size) (stdFlag : ℤ) :
    ∃ (m : Memory Byte) (fd : ℤ), (s.putLine size stdFlag).pLogBuff = m ∧
      (s.putLine size stdFlag).written =
        [(fd, (List.range ((txt ++ rest).length + 1)).map m.cell)] ∧
      m.cell txt.length = 10 ∧ (∀ i ≠ txt.length, m.cell i = s.pLogBuff.cell i) ∧
      ∀ a ∈ m.log, a.cell < maxLogStrLen := by
  have hlen : txt.length ≤ (txt ++ rest).length := by
    rw [List.length_append]
    omega
  obtain ⟨hn, hcell, hscan⟩ :=
    strlen_spec (h.holds hall htxt hrest) (show txt.length < size by omega)
  set m := (strlen size s.pLogBuff 0).1.store txt.length 10 with hm
  refine ⟨m, if stdFlag = 2 then 2 else s.logFd, ?_, ?_, store_cell_self, ?_, ?_⟩
  · rw [hm, ← hn, CLog.putLine]
  · rw [hm, ← hn, ← h.len, CLog.putLine]
    simp only [hw, List.nil_append]
  · intro i hi
    rw [hm, store_cell_ne hi, hcell]
  · have hstore : Within 0 maxLogStrLen (strlen size s.pLogBuff 0).1 m :=
      .store (Nat.zero_le _) (by omega)
    exact hstore.below le_rfl (hscan.below (by omega) h.inside)

/-- The line is put out as it was formatted unless there is a zero in it, which is then found in
the place of the end. -/
theorem Filled.putLine {size : ℕ} (h : Filled s all) (hall : all.length < maxLogStrLen)
    (hw : s.written = []) (hsize : maxLogStrLen ≤ size) (stdFlag : ℤ) :
    (∀ a ∈ (s.putLine size stdFlag).pLogBuff.log, a.cell < maxLogStrLen) ∧
      ((∀ w ∈ (s.putLine size stdFlag).written, w.2.length ≤ maxLogStrLen ∧ w.2 = all ++ [10]) ↔
        ∀ c ∈ all, c ≠ 0) := by
  obtain ⟨txt, rest, rfl, htxt, hrest⟩ := exists_text all
  obtain ⟨m, fd, hbuff, hwritten, hself, hother, hinside⟩ :=
    h.putLine_cells hall htxt hrest hw hsize stdFlag
  rw [hwritten, hbuff]
  refine ⟨hinside, ?_⟩
  simp only [List.mem_singleton, forall_eq, List.length_map, List.length_range]
  constructor
  · rintro ⟨-, hline⟩ c hc
    have hlast : m.cell (txt ++ rest).length = 10 := by
      have hget := congrArg (fun l => l[(txt ++ rest).length]?) hline
      simpa using hget
    rcases hrest with rfl | ⟨rest', rfl⟩
    · exact htxt c (by simpa using hc)
    · rw [hother _ (by simp), h.rest _ le_rfl hall] at hlast
      exact absurd hlast (by decide)
  · intro hne
    have hnil : rest = [] := by
      rcases hrest with rfl | ⟨rest', rfl⟩
      · rfl
      · exact absurd rfl (hne 0 (by simp))
    subst hnil
    simp only [List.append_nil] at h hall ⊢
    refine ⟨hall, ?_⟩
    apply List.ext_getElem
    · simp
    · intro i hi _
      rw [List.getElem_map, List.getElem_range]
      rw [List.length_map, List.length_range] at hi
      rcases Nat.eq_or_lt_of_le (Nat.le_of_lt_succ hi) with rfl | hlt
      · rw [hself]
        simp
      · rw [hother i hlt.ne, h.text i hlt, List.getElem_append_left hlt]

theorem log_formats (env : LogEnv) (call : LogCall) (hfd : s.logFd ≠ -1)
    (hlevel : ¬ s.logLevel < call.logLevel) :
    (call.log s.unrecorded env).formats =
      [⟨0, basicLogStrLen, env.basicText, env.basicText.length⟩,
        ⟨env.basicText.length, (basicLogStrLen : ℤ) - env.basicText.length, call.tag env,
          u16 (call.prefixLen env)⟩,
        ⟨u16 (call.prefixLen env), (maxLogStrLen : ℤ) - u16 (call.prefixLen env), call.text,
          u16 (call.prefixLen env + call.text.length)⟩] := by
  obtain ⟨basic, tagged, message, hbasic, htagged, hmessage, -, hlog⟩ :=
    log_eq env call hfd hlevel
  obtain ⟨hfilled, hformats⟩ := basic_filled s env
  have hlen : tagged.logStrLen = u16 (call.prefixLen env) := by
    rw [htagged, format_logStrLen, hbasic, hfilled.len, LogCall.prefixLen]
  rw [hlog, putLine_formats, hmessage, format_formats, hlen, htagged, format_formats, hbasic,
    hformats, hfilled.len]
  simp only [Nat.add_comm (u16 _), u16_add]
  rw [Nat.add_comm call.text.length]
  rfl

/-- `write` is given one byte more than the sixteen bits of the untruncated length. -/
theorem log_written_length (env : LogEnv) (call : LogCall) (hfd : s.logFd ≠ -1)
    (hlevel : ¬ s.logLevel < call.logLevel) :
    ∃ fd line, (call.log s.unrecorded env).written = [(fd, line)] ∧
      line.length = u16 (call.prefixLen env + call.text.length) + 1 := by
  obtain ⟨basic, tagged, message, hbasic, htagged, hmessage, hempty, hlog⟩ :=
    log_eq env call hfd hlevel
  have hfilled := (basic_filled s env).1
  have hlen : message.logStrLen = u16 (call.prefixLen env + call.text.length) := by
    rw [hmessage, format_logStrLen, htagged, format_logStrLen, hbasic, hfilled.len,
      LogCall.prefixLen, Nat.add_comm, u16_add, Nat.add_comm]
  rw [hlog, ← hlen]
  exact putLine_written _ _ hempty

theorem stored_date (env : LogEnv) :
    FormatCall.stored ⟨0, basicLogStrLen, env.basicText, env.basicText.length⟩ =
      env.basicText.length := by
  have hdate := length_basicText_lt env
  have hlimits := log_limits
  have hstored : FormatCall.stored ⟨0, basicLogStrLen, env.basicText, env.basicText.length⟩ =
      min env.basicText.length (basicLogStrLen - 1 - 0) :=
    stored_eq (by simp) (by decide) (by decide)
  omega

theorem stored_tag (env : LogEnv) (call : LogCall) (k : ℕ) :
    FormatCall.stored ⟨env.basicText.length, (basicLogStrLen : ℤ) - env.basicText.length,
      call.tag env, k⟩ =
      min (call.tag env).length (basicLogStrLen - 1 - env.basicText.length) := by
  have hdate := length_basicText_lt env
  have hlimits := log_limits
  exact stored_eq rfl (by omega) (by decide)

theorem prefixKept_lt (env : LogEnv) (call : LogCall) :
    call.prefixKept env < basicLogStrLen := by
  have hlimits := log_limits
  rw [LogCall.prefixKept]
  omega

theorem stored_text (env : LogEnv) (call : LogCall) (k : ℕ) :
    FormatCall.stored ⟨call.prefixKept env, (maxLogStrLen : ℤ) - call.prefixKept env, call.text,
      k⟩ = min call.text.length (maxLogStrLen - 1 - call.prefixKept env) := by
  have hlt := prefixKept_lt env call
  have hlimits := log_limits
  exact stored_eq rfl (by omega) le_rfl

/-- The running length is exact after each of the three calls. -/
theorem exact_iff (env : LogEnv) (call : LogCall) (hfd : s.logFd ≠ -1)
    (hlevel : ¬ s.logLevel < call.logLevel) :
    Exact 0 (call.log s.unrecorded env).formats ↔
      u16 (call.prefixLen env) = call.prefixKept env ∧
        u16 (call.prefixKept env + call.text.length) =
          min (call.prefixKept env + call.text.length) (maxLogStrLen - 1) := by
  have hdate := length_basicText_lt env
  have hlt := prefixKept_lt env call
  have hlimits := log_limits
  have hkept : env.basicText.length + min (call.tag env).length
      (basicLogStrLen - 1 - env.basicText.length) = call.prefixKept env := by
    rw [LogCall.prefixKept, LogCall.prefixLen]
    omega
  rw [log_formats env call hfd hlevel]
  simp only [Exact, and_true, stored_date, stored_tag, Nat.zero_add, true_and, hkept]
  refine and_congr_right fun hfront => ?_
  have hwhole : u16 (call.prefixLen env + call.text.length) =
      u16 (call.prefixKept env + call.text.length) := by
    rw [← hfront, Nat.add_comm (u16 _), u16_add, Nat.add_comm]
  have hcut : call.prefixKept env + min call.text.length (maxLogStrLen - 1 - call.prefixKept env) =
      min (call.prefixKept env + call.text.length) (maxLogStrLen - 1) := by omega
  rw [hfront, stored_text, hcut, hwhole]

def LogCall.prefixText (env : LogEnv) (call : LogCall) : List Byte :=
  env.basicText ++ (call.tag env).take (basicLogStrLen - 1 - env.basicText.length)

def LogCall.line (env : LogEnv) (call : LogCall) : List Byte :=
  call.prefixText env ++ call.text.take (maxLogStrLen - 1 - call.prefixKept env)

theorem length_prefixText (env : LogEnv) (call : LogCall) :
    (call.prefixText env).length = call.prefixKept env := by
  have hdate := length_basicText_lt env
  have hlimits := log_limits
  rw [LogCall.prefixText, LogCall.prefixKept, LogCall.prefixLen, List.length_append,
    List.length_take]
  omega

theorem length_line (env : LogEnv) (call : LogCall) : (call.line env).length =
    min (call.prefixKept env + call.text.length) (maxLogStrLen - 1) := by
  have hlt := prefixKept_lt env call
  have hlimits := log_limits
  rw [LogCall.line, List.length_append, length_prefixText, List.length_take]
  omega

theorem prefixText_ne_zero (env : LogEnv) (call : LogCall) :
    ∀ c ∈ call.prefixText env, c ≠ 0 := by
  rw [LogCall.prefixText, List.forall_mem_append]
  exact ⟨basicText_ne_zero env, fun c hc => tag_ne_zero env call c (List.mem_of_mem_take hc)⟩

theorem log_filled (env : LogEnv) (call : LogCall) (hfd : s.logFd ≠ -1)
    (hlevel : ¬ s.logLevel < call.logLevel)
    (hfront : u16 (call.prefixLen env) = call.prefixKept env)
    (hwhole : u16 (call.prefixKept env + call.text.length) =
      min (call.prefixKept env + call.text.length) (maxLogStrLen - 1)) :
    ∃ (message : CLog) (size : ℕ), Filled message (call.line env) ∧ message.written = [] ∧
      maxLogStrLen ≤ size ∧ call.log s.unrecorded env = message.putLine size call.stdFlag := by
  obtain ⟨basic, tagged, message, hbasic, htagged, hmessage, hempty, hlog⟩ :=
    log_eq env call hfd hlevel
  have hdate := length_basicText_lt env
  have hlt := prefixKept_lt env call
  have hlimits := log_limits
  have hlen := length_prefixText env call
  have hline := length_line env call
  have hbasicFilled : Filled basic env.basicText := hbasic ▸ (basic_filled s env).1
  have htaggedFilled : Filled tagged (call.prefixText env) := by
    rw [htagged]
    refine hbasicFilled.format (by omega) (by omega) ?_
    rw [LogCall.prefixText, List.length_append] at hlen
    rw [u16_add, hlen, ← hfront, LogCall.prefixLen]
  have hmessageFilled : Filled message (call.line env) := by
    rw [hmessage, LogCall.line, ← hlen]
    refine htaggedFilled.format (by omega) le_rfl ?_
    rw [LogCall.line, List.length_append, hlen] at hline
    rw [u16_add, hlen, hline, hwhole]
  exact ⟨message, _, hmessageFilled, hempty, Nat.le_add_left _ _, hlog⟩

theorem take_min_length (k : ℕ) : text.take (min text.length k) = text.take k := by
  rw [← List.take_take, List.take_of_length_le (List.length_take_le' ..)]

theorem length_flatMap_stored (fs : List FormatCall) :
    (fs.flatMap fun f => f.text.take f.stored).length = (fs.map FormatCall.stored).sum := by
  rw [List.length_flatMap]
  congr 1
  apply List.map_congr_left
  intro f _
  rw [List.length_take]
  exact min_eq_left (min_le_left ..)

theorem log_stored (env : LogEnv) (call : LogCall) (hfd : s.logFd ≠ -1)
    (hlevel : ¬ s.logLevel < call.logLevel)
    (hfront : u16 (call.prefixLen env) = call.prefixKept env) :
    ((call.log s.unrecorded env).formats.flatMap fun f => f.text.take f.stored) =
      call.line env := by
  rw [log_formats env call hfd hlevel, hfront]
  simp only [List.flatMap_cons, List.flatMap_nil, List.append_nil, stored_date, stored_tag,
    stored_text, List.take_length, take_min_length]
  rw [LogCall.line, LogCall.prefixText, List.append_assoc]

theorem log_sizes (env : LogEnv) (call : LogCall) (hfd : s.logFd ≠ -1)
    (hlevel : ¬ s.logLevel < call.logLevel)
    (hfront : u16 (call.prefixLen env) = call.prefixKept env) :
    ∀ f ∈ (call.log s.unrecorded env).formats, f.offset < maxLogStrLen ∧ 0 ≤ f.size := by
  have hdate := length_basicText_lt env
  have hlt := prefixKept_lt env call
  have hlimits := log_limits
  rw [log_formats env call hfd hlevel, hfront]
  intro f hf
  simp only [List.mem_cons, List.not_mem_nil, or_false] at hf
  rcases hf with rfl | rfl | rfl <;> constructor <;> dsimp only <;> omega

theorem clear_sound (s : CLog) : s.unrecorded.clear.Sound := by
  have hformats : s.unrecorded.clear.formats = [] := by
    rw [clear_formats]
    rfl
  have hwritten : s.unrecorded.clear.written = [] := by
    rw [clear_written]
    rfl
  constructor
  · exact (clear_filled s).inside
  · rw [hformats]
    exact fun f hf => absurd hf List.not_mem_nil
  · rw [hformats]
    trivial
  · rw [hformats, clear_logStrLen]
    rfl
  · rw [hwritten]
    exact fun w hw => absurd hw List.not_mem_nil

/-- A call leaves what it should exactly if it fits. -/
theorem logSound_iff (s : CLog) (env : LogEnv) (call : LogCall) :
    (call.log s.unrecorded env).Sound ↔ call.Fits s env := by
  by_cases hrefused : s.logFd = -1 ∨ s.logLevel < call.logLevel
  · rw [log_refused call hrefused, LogCall.Fits, ← or_assoc]
    exact ⟨fun _ => Or.inl hrefused, fun _ => clear_sound s⟩
  obtain ⟨hfd, hlevel⟩ := not_or.mp hrefused
  have hexact := exact_iff env call hfd hlevel
  rw [LogCall.Fits, or_iff_right hfd, or_iff_right hlevel, ← and_assoc, ← hexact]
  by_cases hx : Exact 0 (call.log s.unrecorded env).formats
  swap
  · exact ⟨fun h => absurd h.exact hx, fun h => absurd h.1 hx⟩
  obtain ⟨hfront, hwhole⟩ := hexact.mp hx
  obtain ⟨message, size, hfilled, hempty, hsize, hlog⟩ :=
    log_filled env call hfd hlevel hfront hwhole
  have hall : (call.line env).length < maxLogStrLen := by
    have hlimits := log_limits
    rw [length_line]
    omega
  obtain ⟨hinside, hline⟩ := hfilled.putLine hall hempty hsize call.stdFlag
  rw [← hlog] at hinside hline
  have hstored := log_stored env call hfd hlevel hfront
  have hnul : (∀ c ∈ call.line env, c ≠ 0) ↔
      ∀ c ∈ call.text.take (maxLogStrLen - 1 - call.prefixKept env), c ≠ 0 := by
    rw [LogCall.line, List.forall_mem_append]
    exact and_iff_right (prefixText_ne_zero env call)
  rw [← hnul, ← hline]
  constructor
  · intro h
    exact ⟨h.exact, hstored ▸ h.written⟩
  · rintro ⟨-, hwritten⟩
    refine ⟨hinside, log_sizes env call hfd hlevel hfront, hx, ?_, ?_⟩
    · rw [← length_flatMap_stored, hstored, hlog, putLine_logStrLen, hfilled.len]
    · rw [hstored]
      exact hwritten

/-- A message of 3000 characters. -/
theorem log_cut_off : ¬ ∀ (s : CLog) (env : LogEnv) (call : LogCall),
    (call.log s.unrecorded env).Sound := by
  intro h
  let s : CLog := ⟨9, 3, ⟨fun _ => 0, []⟩, 0, 0, [], []⟩
  let env : LogEnv := ⟨⟨120, 3, 9, 20, 32, 40⟩, 30112, fun _ => ⟨[], by simp⟩⟩
  let call : LogCall := .level .emerg (List.replicate 3000 97)
  obtain ⟨fd, line, hwritten, hline⟩ :=
    log_written_length (s := s) env call (by decide) (by decide)
  have hshort : line.length ≤ maxLogStrLen := by
    have hsound := (h s env call).written (fd, line)
    rw [hwritten] at hsound
    exact (hsound (List.mem_singleton_self _)).1
  have htag : (call.tag env).length = 8 := by decide +kernel
  have hdate := length_basicText_lt env
  have htext : call.text.length = 3000 := List.length_replicate
  have hlimits := log_limits
  rw [hline, LogCall.prefixLen, htag, htext, u16_of_lt (by omega)] at hshort
  omega

end XiaoHGServer
