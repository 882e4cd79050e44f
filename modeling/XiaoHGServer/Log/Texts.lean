import XiaoHGServer.Model.Log

/-!
# The texts in front of a message

The date and the tag of a log line have no zeros in them, and the date is short. A
tag is as long as the name of a file or the text of an error makes it.
-/

namespace XiaoHGServer

variable {n : ℕ}

theorem length_digitsText_le (hn : n < 10 ^ 10) : (digitsText n).length ≤ 10 := by
  unfold digitsText
  split
  · simp
  · rw [List.length_map, List.length_reverse, Nat.digits_length_le_iff (by decide)]
    exact hn

theorem length_formatInt_le {width : ℕ} {fill : Byte} {v : BitVec 32} (hw : width ≤ 11) :
    (formatInt width fill v).length ≤ 11 := by
  have hdigits : (digitsText v.toInt.natAbs).length ≤ 10 := by
    refine length_digitsText_le ?_
    have hlo := BitVec.le_toInt v
    have hhi := BitVec.toInt_lt (x := v)
    omega
  have hsign : (if v.toInt < 0 then [45] else [] : List Byte).length ≤ 1 := by split <;> simp
  unfold formatInt
  dsimp only
  split <;> simp only [List.length_append, List.length_replicate] <;> omega

/-- The date always fits. -/
theorem length_basicText_lt (env : LogEnv) : env.basicText.length < 511 := by
  have field (width : ℕ) (fill : Byte) (v : BitVec 32) (hw : width ≤ 11) :
      (formatInt width fill v).length ≤ 11 := length_formatInt_le hw
  have hyear := field 4 32 (env.localtime.tmYear + 1900) (by decide)
  have hmon := field 2 48 (env.localtime.tmMon + 1) (by decide)
  have hmday := field 2 48 env.localtime.tmMday (by decide)
  have hhour := field 2 48 env.localtime.tmHour (by decide)
  have hmin := field 2 48 env.localtime.tmMin (by decide)
  have hsec := field 2 48 env.localtime.tmSec (by decide)
  have hpid := field 0 32 env.getpid (by decide)
  have hslash : (ascii "/").length = 1 := by simp [ascii]
  have hblank : (ascii " ").length = 1 := by simp [ascii]
  have hcolon : (ascii ":").length = 1 := by simp [ascii]
  have hopen : (ascii " [XiaoHG][pid:").length = 14 := by simp [ascii]
  have hclose : (ascii "]").length = 1 := by simp [ascii]
  simp only [LogEnv.basicText, formatD, List.length_append, hslash, hblank, hcolon, hopen, hclose]
  omega

theorem digitsText_ne_zero : ∀ c ∈ digitsText n, c ≠ 0 := by
  intro c hc
  unfold digitsText at hc
  split at hc
  · rw [List.mem_singleton.mp hc]
    decide
  · obtain ⟨d, hd, rfl⟩ := List.mem_map.mp hc
    have hlt : d < 10 := Nat.digits_lt_base (by decide) (List.mem_reverse.mp hd)
    intro h
    have := congrArg BitVec.toNat h
    rw [BitVec.toNat_ofNat, Nat.mod_eq_of_lt (by omega)] at this
    simp at this

theorem formatInt_ne_zero {width : ℕ} {fill : Byte} {v : BitVec 32} (hfill : fill ≠ 0) :
    ∀ c ∈ formatInt width fill v, c ≠ 0 := by
  have hsign : ∀ c ∈ (if v.toInt < 0 then [45] else [] : List Byte), c ≠ 0 := by
    split <;> simp
  have hpad (k : ℕ) : ∀ c ∈ List.replicate k fill, c ≠ 0 := by
    intro c hc
    rw [List.eq_of_mem_replicate hc]
    exact hfill
  unfold formatInt
  dsimp only
  split <;> simp only [List.forall_mem_append]
  · exact ⟨⟨hsign, hpad _⟩, digitsText_ne_zero⟩
  · exact ⟨⟨hpad _, hsign⟩, digitsText_ne_zero⟩

theorem basicText_ne_zero (env : LogEnv) : ∀ c ∈ env.basicText, c ≠ 0 := by
  have hzero {width : ℕ} {v : BitVec 32} : ∀ c ∈ formatInt width 48 v, c ≠ 0 :=
    formatInt_ne_zero (by decide)
  have hblank {width : ℕ} {v : BitVec 32} : ∀ c ∈ formatInt width 32 v, c ≠ 0 :=
    formatInt_ne_zero (by decide)
  simp only [LogEnv.basicText, formatD, List.forall_mem_append]
  refine ⟨⟨⟨⟨⟨⟨⟨⟨⟨⟨⟨⟨⟨hblank, ?_⟩, hzero⟩, ?_⟩, hzero⟩, ?_⟩, hzero⟩, ?_⟩, hzero⟩, ?_⟩, hzero⟩,
    ?_⟩, hblank⟩, ?_⟩ <;> simp [ascii]

theorem tag_ne_zero (env : LogEnv) (call : LogCall) : ∀ c ∈ call.tag env, c ≠ 0 := by
  have hlevel (l : LogLevel) : ∀ c ∈ errLevel l, c ≠ 0 := by cases l <;> simp [errLevel, ascii]
  have hint {v : BitVec 32} : ∀ c ∈ formatD v, c ≠ 0 := formatInt_ne_zero (by decide)
  have hopen : ∀ c ∈ ascii "[", c ≠ 0 := by simp [ascii]
  have hclose : ∀ c ∈ ascii "] ", c ≠ 0 := by simp [ascii]
  have hmid : ∀ c ∈ ascii "][", c ≠ 0 := by simp [ascii]
  have herrno : ∀ c ∈ ascii "][errno:", c ≠ 0 := by simp [ascii]
  have hcomma : ∀ c ∈ ascii ", ", c ≠ 0 := by simp [ascii]
  have hcolon : ∀ c ∈ ascii ": ", c ≠ 0 := by simp [ascii]
  cases call <;> simp only [LogCall.tag, List.forall_mem_append]
  case std => simp [ascii]
  case level l t => exact ⟨⟨hopen, hlevel l⟩, hclose⟩
  case errNo l e t =>
    exact ⟨⟨⟨⟨⟨⟨hopen, hlevel l⟩, herrno⟩, hint⟩, hcomma⟩, (env.strerror e).nonzero⟩, hclose⟩
  case file l f n t =>
    exact ⟨⟨⟨⟨⟨⟨hopen, hlevel l⟩, hmid⟩, f.nonzero⟩, hcolon⟩, hint⟩, hclose⟩
  case errNoFile l e f n t =>
    exact ⟨⟨⟨⟨⟨⟨⟨⟨⟨⟨hopen, hlevel l⟩, hmid⟩, f.nonzero⟩, hcolon⟩, hint⟩, herrno⟩, hint⟩, hcomma⟩,
      (env.strerror e).nonzero⟩, hclose⟩

end XiaoHGServer
