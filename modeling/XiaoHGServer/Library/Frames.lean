import Mathlib.Data.List.Basic
import Mathlib.Tactic.Common

/-!
# Frames in a stream

A format announces the length of a frame in a header of fixed length; a header it
rejects is skipped. `frames` cuts a whole stream. `Parsed` is what a parser that
sees the stream piece by piece has to maintain: the frames it has given out and
the unfinished rest stand for the stream, whatever comes next.
-/

namespace XiaoHGServer

/-- `frameLen` reads the length of a frame, header included, off its header. -/
structure FrameFormat (α : Type*) where
  headerLen : ℕ
  frameLen : List α → Option ℕ
  headerLen_pos : 0 < headerLen
  headerLen_le : ∀ h n, frameLen h = some n → headerLen ≤ n

namespace FrameFormat

variable {α : Type*} (F : FrameFormat α)

/-- The frames of a stream. An incomplete frame at its end is not given out. -/
def frames (bs : List α) : List (List α) :=
  if _hlen : bs.length < F.headerLen then []
  else
    match _hf : F.frameLen (bs.take F.headerLen) with
    | none => frames (bs.drop F.headerLen)
    | some n => if bs.length < n then [] else bs.take n :: frames (bs.drop n)
termination_by bs.length
decreasing_by
  · have := F.headerLen_pos
    simp only [List.length_drop]
    omega
  · have := F.headerLen_pos
    have := F.headerLen_le _ _ ‹_›
    simp only [List.length_drop]
    omega

/-- The beginning of a frame, or of a header, without its end. -/
def Incomplete (p : List α) : Prop :=
  p.length < F.headerLen ∨ ∃ n, F.frameLen (p.take F.headerLen) = some n ∧ p.length < n

variable {F} {p h f stream chunk rest : List α} {out : List (List α)} {n : ℕ}

theorem Incomplete.frames_eq_nil (hp : F.Incomplete p) : F.frames p = [] := by
  rw [frames]
  rcases hp with hp | ⟨n, hn, hp⟩
  · simp [hp]
  · split
    · rfl
    · rename_i hlong
      have hhead : ∀ m, F.frameLen (p.take F.headerLen) = some m → p.length < m := by
        intro m hm
        rw [hn, Option.some.injEq] at hm
        exact hm ▸ hp
      split
      · rename_i hnone
        rw [hn] at hnone
        cases hnone
      · rename_i m hm
        rw [if_pos (hhead m hm)]

theorem incomplete_nil : F.Incomplete [] := Or.inl F.headerLen_pos

theorem frames_skip (hlen : h.length = F.headerLen) (hf : F.frameLen h = none) (tail : List α) :
    F.frames (h ++ tail) = F.frames tail := by
  have ht : (h ++ tail).take F.headerLen = h := by simp [← hlen]
  have hd : (h ++ tail).drop F.headerLen = tail := by simp [← hlen]
  rw [frames, dif_neg (by simp [hlen])]
  split
  · rw [hd]
  · rename_i m hm
    rw [ht, hf] at hm
    cases hm

theorem frames_cons (hf : F.frameLen (f.take F.headerLen) = some f.length) (tail : List α) :
    F.frames (f ++ tail) = f :: F.frames tail := by
  have hle := F.headerLen_le _ _ hf
  have ht : (f ++ tail).take F.headerLen = f.take F.headerLen :=
    List.take_append_of_le_length hle
  rw [frames, dif_neg (by simp only [List.length_append]; omega)]
  split
  · rename_i hnone
    rw [ht, hf] at hnone
    cases hnone
  · rename_i m hm
    obtain rfl : m = f.length := by
      rw [ht, hf] at hm
      exact (Option.some.inj hm).symm
    simp

/-- Every frame has the length that its header announces. -/
theorem frameLen_of_mem_frames {bs : List α} (h : f ∈ F.frames bs) :
    F.frameLen (f.take F.headerLen) = some f.length := by
  fun_induction frames F bs with
  | case1 => simp at h
  | case2 bs _ _ ih => exact ih h
  | case3 => simp at h
  | case4 bs hlen n hn hlong ih =>
    rcases List.mem_cons.mp h with rfl | h
    · rw [List.take_take, Nat.min_eq_left (F.headerLen_le _ _ hn), hn, List.length_take,
        Nat.min_eq_left (Nat.le_of_not_lt hlong)]
    · exact ih h

theorem incomplete_of_isPrefix (hf : F.frameLen (f.take F.headerLen) = some f.length)
    (hp : p <+: f) (hlt : p.length < f.length) : F.Incomplete p := by
  by_cases hshort : p.length < F.headerLen
  · exact Or.inl hshort
  · have htake : p.take F.headerLen = f.take F.headerLen := by
      obtain ⟨rest, rfl⟩ := hp
      exact (List.take_append_of_le_length (Nat.le_of_not_lt hshort)).symm
    exact Or.inr ⟨f.length, by rw [htake, hf], hlt⟩

theorem frames_of_isPrefix {fs : List (List α)} :
    ∀ {stream : List α}, (∀ f ∈ fs, F.frameLen (f.take F.headerLen) = some f.length) →
      stream <+: fs.flatten → F.frames stream <+: fs := by
  induction fs with
  | nil =>
    intro stream _ h
    rw [List.flatten_nil, List.prefix_nil] at h
    have hnil : F.frames stream = [] := by rw [h, incomplete_nil.frames_eq_nil]
    exact hnil ▸ List.nil_prefix
  | cons f fs ih =>
    intro stream hall h
    have hf := hall f List.mem_cons_self
    rw [List.flatten_cons] at h
    by_cases hlt : stream.length < f.length
    · have hp : stream <+: f :=
        List.prefix_of_prefix_length_le h (List.prefix_append _ _) (Nat.le_of_lt hlt)
      rw [(incomplete_of_isPrefix hf hp hlt).frames_eq_nil]
      exact List.nil_prefix
    · obtain ⟨tail, rfl⟩ : f <+: stream :=
        List.prefix_of_prefix_length_le (List.prefix_append _ _) h (Nat.le_of_not_lt hlt)
      rw [frames_cons hf, List.cons_prefix_cons]
      refine ⟨rfl, ih (fun g hg => hall g (List.mem_cons_of_mem _ hg)) ?_⟩
      exact (List.prefix_append_right_inj f).mp h

/-- Of these frames, those are given out that the stream has the whole of. -/
theorem flatten_isPrefix_iff {fs : List (List α)} :
    ∀ {stream : List α} {first : List (List α)},
      (∀ f ∈ fs, F.frameLen (f.take F.headerLen) = some f.length) → stream <+: fs.flatten →
        first <+: fs → (first.flatten <+: stream ↔ first <+: F.frames stream) := by
  induction fs with
  | nil =>
    intro stream first _ _ hfirst
    rw [List.prefix_nil.mp hfirst]
    exact ⟨fun _ => List.nil_prefix, fun _ => List.nil_prefix⟩
  | cons f fs ih =>
    intro stream first hall h hfirst
    have hf := hall f List.mem_cons_self
    rw [List.flatten_cons] at h
    cases first with
    | nil => exact ⟨fun _ => List.nil_prefix, fun _ => List.nil_prefix⟩
    | cons g first =>
      obtain ⟨rfl, hrest⟩ := List.cons_prefix_cons.mp hfirst
      rw [List.flatten_cons]
      by_cases hlt : stream.length < g.length
      · have hp : stream <+: g :=
          List.prefix_of_prefix_length_le h (List.prefix_append _ _) (Nat.le_of_lt hlt)
        rw [(incomplete_of_isPrefix hf hp hlt).frames_eq_nil]
        constructor
        · intro hwhole
          have hle := hwhole.length_le
          rw [List.length_append] at hle
          omega
        · intro hnil
          cases List.prefix_nil.mp hnil
      · obtain ⟨tail, rfl⟩ : g <+: stream :=
          List.prefix_of_prefix_length_le (List.prefix_append _ _) h (Nat.le_of_not_lt hlt)
        rw [frames_cons hf, List.cons_prefix_cons, List.prefix_append_right_inj]
        have htail := (List.prefix_append_right_inj g).mp h
        rw [ih (fun f hf => hall f (List.mem_cons_of_mem _ hf)) htail hrest]
        exact (and_iff_right rfl).symm

/-- A sequence of frames is cut where the frames end. -/
theorem frames_flatten {fs : List (List α)}
    (hall : ∀ f ∈ fs, F.frameLen (f.take F.headerLen) = some f.length) :
    F.frames fs.flatten = fs := by
  induction fs with
  | nil => exact incomplete_nil.frames_eq_nil
  | cons f fs ih =>
    rw [List.flatten_cons, frames_cons (hall f List.mem_cons_self),
      ih fun g hg => hall g (List.mem_cons_of_mem _ hg)]

variable (F) in
/-- After `stream`, the frames `out` have been given out and `rest` is unfinished. -/
structure Parsed (stream : List α) (out : List (List α)) (rest : List α) : Prop where
  incomplete : F.Incomplete rest
  frames_append : ∀ tail, F.frames (stream ++ tail) = out ++ F.frames (rest ++ tail)

namespace Parsed

theorem nil : F.Parsed [] [] [] := ⟨incomplete_nil, fun _ => rfl⟩

theorem frames_eq (hp : F.Parsed stream out rest) : F.frames stream = out := by
  simpa [hp.incomplete.frames_eq_nil] using hp.frames_append []

theorem more (hp : F.Parsed stream out rest) (hi : F.Incomplete (rest ++ chunk)) :
    F.Parsed (stream ++ chunk) out (rest ++ chunk) :=
  ⟨hi, fun tail => by rw [List.append_assoc, hp.frames_append, List.append_assoc]⟩

theorem skip (hp : F.Parsed stream out rest) (hlen : (rest ++ chunk).length = F.headerLen)
    (hf : F.frameLen (rest ++ chunk) = none) : F.Parsed (stream ++ chunk) out [] := by
  refine ⟨incomplete_nil, fun tail => ?_⟩
  rw [List.append_assoc, hp.frames_append, ← List.append_assoc, frames_skip hlen hf,
    List.nil_append]

theorem emit (hp : F.Parsed stream out rest)
    (hf : F.frameLen ((rest ++ chunk).take F.headerLen) = some (rest ++ chunk).length) :
    F.Parsed (stream ++ chunk) (out ++ [rest ++ chunk]) [] := by
  refine ⟨incomplete_nil, fun tail => ?_⟩
  rw [List.append_assoc, hp.frames_append, ← List.append_assoc, frames_cons hf]
  simp

end Parsed

section Pieces

variable {τ : Type*} {pieces : List (List α × τ)} {t : τ} {rest' : List α} {new : List (List α)}

/-- The stream that arrived in these pieces, newest first, each with its time. -/
def joined : List (List α × τ) → List α
  | [] => []
  | piece :: pieces => joined pieces ++ piece.1

variable (F) in
/-- The frames that are complete, oldest first, each with the time of its last piece. -/
def completed : List (List α × τ) → List (List α × τ)
  | [] => []
  | piece :: pieces =>
    completed pieces ++ ((F.frames (joined pieces ++ piece.1)).drop
      (F.frames (joined pieces)).length).map fun f => (f, piece.2)

theorem completed_cons (hp : F.Parsed (joined pieces) out rest)
    (hp' : F.Parsed (joined pieces ++ chunk) (out ++ new) rest') :
    F.completed ((chunk, t) :: pieces) = F.completed pieces ++ new.map fun f => (f, t) := by
  rw [completed, hp.frames_eq, hp'.frames_eq, List.drop_left]

end Pieces
end FrameFormat
end XiaoHGServer
