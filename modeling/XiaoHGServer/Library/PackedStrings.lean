import Mathlib.Algebra.GroupWithZero.Nat
import XiaoHGServer.Library.CString

/-!
# Strings one behind the other

A list of strings is packed into a memory when each of them starts behind the zero of
the one before. They take up the sum of their lengths and a zero for each.
-/

namespace XiaoHGServer
namespace Memory

variable {α : Type*} {m m' : Memory α} {p q lo hi : ℕ} {s : List α} {ss ts : List (List α)}

def packedSize (ss : List (List α)) : ℕ := (ss.map fun s => s.length + 1).sum

/-- The cells at which strings start that are packed from cell `p` on. -/
def places : ℕ → List (List α) → List ℕ
  | _, [] => []
  | p, s :: ss => p :: places (p + (s.length + 1)) ss

@[simp] theorem packedSize_nil : packedSize ([] : List (List α)) = 0 := rfl

@[simp] theorem packedSize_cons : packedSize (s :: ss) = s.length + 1 + packedSize ss := by
  simp [packedSize]

@[simp] theorem packedSize_append : packedSize (ss ++ ts) = packedSize ss + packedSize ts := by
  simp [packedSize]

section Packed

variable [Zero α]

def Packed (m : Memory α) : ℕ → List (List α) → Prop
  | _, [] => True
  | p, s :: ss => m.Holds p s ∧ m.Packed (p + (s.length + 1)) ss

/-- What is in the cells of packed strings. -/
def packedImage (ss : List (List α)) : List α := ss.flatMap fun s => s ++ [0]

namespace Packed

theorem congr : ∀ {ss : List (List α)} {p : ℕ}, m.Packed p ss →
    (∀ i, p ≤ i → i < p + packedSize ss → m'.cell i = m.cell i) → m'.Packed p ss
  | [], _, _, _ => trivial
  | s :: ss, p, h, hcell => by
    rw [packedSize_cons] at hcell
    constructor
    · exact h.1.congr fun i hlo hhi => hcell i hlo (by omega)
    · exact h.2.congr fun i hlo hhi => hcell i (by omega) (by omega)

theorem append_left : ∀ {ss : List (List α)} {p : ℕ}, m.Packed p (ss ++ ts) → m.Packed p ss
  | [], _, _ => trivial
  | _ :: _, _, h => ⟨h.1, h.2.append_left⟩

theorem append_right : ∀ {ss : List (List α)} {p : ℕ}, m.Packed p (ss ++ ts) →
    m.Packed (p + packedSize ss) ts
  | [], _, h => h
  | s :: ss, p, h => by
    have hrest := h.2.append_right
    rwa [packedSize_cons, ← Nat.add_assoc]

theorem of_image : ∀ {ss : List (List α)} {p : ℕ}, (∀ s ∈ ss, ∀ c ∈ s, c ≠ 0) →
    (∀ i (h : i < (packedImage ss).length), m.cell (p + i) = (packedImage ss)[i]) → m.Packed p ss
  | [], _, _, _ => trivial
  | s :: ss, p, hs, himage => by
    have hcons : packedImage (s :: ss) = s ++ [0] ++ packedImage ss := rfl
    have hfirst (i : ℕ) (hi : i < (s ++ [0]).length) : m.cell (p + i) = (s ++ [0])[i] := by
      have hcell := himage i (by rw [hcons, List.length_append]; omega)
      simp only [hcons] at hcell
      rwa [List.getElem_append_left hi] at hcell
    refine ⟨⟨fun i hi => ?_, ?_, hs s (List.mem_cons_self ..)⟩, of_image ?_ fun i hi => ?_⟩
    · rw [hfirst i (by simp; omega), List.getElem_append_left hi]
    · rw [hfirst s.length (by simp)]
      simp
    · exact fun t ht => hs t (List.mem_cons_of_mem s ht)
    · have hcell := himage (s.length + 1 + i) (by simp [hcons]; omega)
      simp only [hcons] at hcell
      rw [List.getElem_append_right (by simp)] at hcell
      rw [Nat.add_assoc, hcell]
      simp

end Packed

def pack (m : Memory α) : ℕ → List (List α) → Memory α
  | _, [] => m
  | p, s :: ss => (m.strcpy p s).pack (p + (s.length + 1)) ss

theorem pack_within : ∀ {ss : List (List α)} {m : Memory α} {p : ℕ},
    Within p (p + packedSize ss) m (m.pack p ss)
  | [], m, p => .refl _ _ m
  | s :: ss, m, p => by
    have hfirst : Within p (p + s.length + 1) m (m.strcpy p s) := strcpy_within
    have hrest : Within (p + (s.length + 1)) (p + (s.length + 1) + packedSize ss) (m.strcpy p s)
        ((m.strcpy p s).pack (p + (s.length + 1)) ss) := pack_within
    rw [packedSize_cons]
    exact (hfirst.mono le_rfl (by omega)).trans (hrest.mono (by omega) (by omega))

theorem pack_packed : ∀ {ss : List (List α)} {m : Memory α} {p : ℕ},
    (∀ s ∈ ss, ∀ c ∈ s, c ≠ 0) → (m.pack p ss).Packed p ss
  | [], _, _, _ => trivial
  | s :: ss, m, p, hs => by
    have hfirst : (m.strcpy p s).Holds p s := strcpy_holds (hs s (List.mem_cons_self ..))
    have hrest : Within (p + (s.length + 1)) (p + (s.length + 1) + packedSize ss) (m.strcpy p s)
        ((m.strcpy p s).pack (p + (s.length + 1)) ss) := pack_within
    constructor
    · exact hfirst.frame hrest (Or.inl (by omega))
    · exact pack_packed fun t ht => hs t (List.mem_cons_of_mem s ht)

theorem write_mem_pack : ∀ {ss : List (List α)} {m : Memory α} {p : ℕ}, ss ≠ [] →
    .write (p + (packedSize ss - 1)) ∈ (m.pack p ss).log
  | [], _, _, h => absurd rfl h
  | [s], m, p, _ => by
    have hlen : s.length < (s ++ [0]).length := by simp
    exact write_mem_storeAll hlen
  | s :: t :: ss, m, p, _ => by
    have hrest : .write (p + (s.length + 1) + (packedSize (t :: ss) - 1)) ∈
        ((m.strcpy p s).pack (p + (s.length + 1)) (t :: ss)).log :=
      write_mem_pack (List.cons_ne_nil t ss)
    have hplace : p + (packedSize (s :: t :: ss) - 1) =
        p + (s.length + 1) + (packedSize (t :: ss) - 1) := by
      simp only [packedSize_cons]
      omega
    rw [hplace]
    exact hrest

end Packed
end Memory
end XiaoHGServer
