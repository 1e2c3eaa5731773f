import Mathlib.Tactic

/-! Byte-addressed memory: reading and writing ranges, and little-endian words. -/

namespace ByteMemory

abbrev Bytes := List (BitVec 8)

abbrev Mem := Nat → BitVec 8

def write (m : Mem) (a : Nat) (bs : List (BitVec 8)) : Mem := fun x =>
  if x < a then m x else bs.getD (x - a) (m x)

def read (m : Mem) (a n : Nat) : List (BitVec 8) := (List.range n).map fun i => m (a + i)

@[simp] theorem length_read (m : Mem) (a n : Nat) : (read m a n).length = n := by
  simp [read]

@[simp] theorem read_zero (m : Mem) (a : Nat) : read m a 0 = [] := rfl

@[simp] theorem write_nil (m : Mem) (a : Nat) : write m a [] = m := by
  funext x
  simp [write]

theorem write_of_lt {m : Mem} {a x : Nat} {bs : List (BitVec 8)} (h : x < a) :
    write m a bs x = m x := by simp [write, h]

theorem write_of_ge {m : Mem} {a x : Nat} {bs : List (BitVec 8)} (h : a + bs.length ≤ x) :
    write m a bs x = m x := by
  have hx : ¬ x < a := by omega
  have hlen : bs.length ≤ x - a := by omega
  simp [write, hx, hlen]

theorem write_of_mem {m : Mem} {a i : Nat} {bs : List (BitVec 8)} (h : i < bs.length) :
    write m a bs (a + i) = bs[i] := by
  simp [write, h]

theorem read_congr {m m' : Mem} {a n : Nat} (h : ∀ x, a ≤ x → x < a + n → m x = m' x) :
    read m a n = read m' a n := by
  simp only [read]
  apply List.map_congr_left
  intro i hi
  rw [List.mem_range] at hi
  exact h _ (by omega) (by omega)

theorem read_write_self (m : Mem) (a : Nat) (bs : List (BitVec 8)) :
    read (write m a bs) a bs.length = bs := by
  apply List.ext_getElem
  · simp
  · intro i h₁ h₂
    simp [read, write_of_mem h₂]

theorem read_append (m : Mem) (a n k : Nat) : read m a (n + k) = read m a n ++ read m (a + n) k := by
  simp only [read, List.range_add, List.map_append, List.map_map]
  congr 1
  apply List.map_congr_left
  intro i _
  simp [Nat.add_assoc]

theorem write_append (m : Mem) (a : Nat) (bs cs : List (BitVec 8)) :
    write m a (bs ++ cs) = write (write m a bs) (a + bs.length) cs := by
  funext x
  by_cases hlo : x < a
  · rw [write_of_lt hlo, write_of_lt (by omega), write_of_lt hlo]
  · by_cases hmid : x < a + bs.length
    · have hi : x - a < bs.length := by omega
      rw [write_of_lt hmid]
      simp [write, hlo, hi, List.getElem?_append_left hi]
    · have hi : bs.length ≤ x - a := by omega
      have hsub : x - (a + bs.length) = x - a - bs.length := by omega
      simp [write, hlo, hmid, hi, List.getElem?_append_right hi, hsub]

theorem read_infix {m : Mem} {a : Nat} (pre mid post : List (BitVec 8))
    (h : read m a (pre ++ mid ++ post).length = pre ++ mid ++ post) :
    read m (a + pre.length) mid.length = mid := by
  rw [List.length_append, List.length_append, read_append, read_append] at h
  have hpm := List.append_inj_left h (by simp)
  exact List.append_inj_right hpm (by simp)

def wordBytes (w : BitVec 32) : List (BitVec 8) :=
  [w.extractLsb' 0 8, w.extractLsb' 8 8, w.extractLsb' 16 8, w.extractLsb' 24 8]

def wordAt (m : Mem) (a : Nat) : BitVec 32 := m (a + 3) ++ m (a + 2) ++ m (a + 1) ++ m a

@[simp] theorem length_wordBytes (w : BitVec 32) : (wordBytes w).length = 4 := rfl

theorem bytes_append (w : BitVec 32) :
    (w.extractLsb' 24 8 ++ w.extractLsb' 16 8 ++ w.extractLsb' 8 8 ++ w.extractLsb' 0 8 :
      BitVec 32) = w := by
  apply BitVec.eq_of_getLsbD_eq
  intro i hi
  simp only [BitVec.getLsbD_append, BitVec.getLsbD_extractLsb']
  split_ifs with h0 h1 h2
  · simp [h0]
  · simp [h1, Nat.add_sub_cancel' (Nat.le_of_not_lt h0)]
  · have h : 16 + (i - 8 - 8) = i := by omega
    simp [h2, h]
  · have h3 : i - 8 - 8 - 8 < 8 := by omega
    have h : 24 + (i - 8 - 8 - 8) = i := by omega
    simp [h3, h]

theorem wordAt_of_read {m : Mem} {a : Nat} {w : BitVec 32} (h : read m a 4 = wordBytes w) :
    wordAt m a = w := by
  simp only [read, wordBytes, List.range, List.range.loop, List.map_cons, List.map_nil,
    List.cons.injEq, Nat.add_zero, and_true] at h
  obtain ⟨h0, h1, h2, h3⟩ := h
  rw [wordAt, h0, h1, h2, h3, bytes_append]

end ByteMemory
