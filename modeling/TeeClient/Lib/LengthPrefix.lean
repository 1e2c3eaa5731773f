import Mathlib.Tactic
import TeeClient.Lib.Memory

/-! Byte strings with their length in front, as a little-endian word. -/

namespace LengthPrefix

open ByteMemory

def field (bs : Bytes) : Bytes := wordBytes (BitVec.ofNat 32 bs.length) ++ bs

def takeWord : Bytes → Option (BitVec 32 × Bytes)
  | b₀ :: b₁ :: b₂ :: b₃ :: rest => some (b₃ ++ b₂ ++ b₁ ++ b₀, rest)
  | _ => none

def takeField (bs : Bytes) : Option (Bytes × Bytes) := do
  let (len, rest) ← takeWord bs
  if len.toNat ≤ rest.length then some (rest.take len.toNat, rest.drop len.toNat) else none

@[simp] theorem length_field (bs : Bytes) : (field bs).length = 4 + bs.length := by
  rw [field, List.length_append, length_wordBytes]

@[simp] theorem takeWord_append (w : BitVec 32) (rest : Bytes) :
    takeWord (wordBytes w ++ rest) = some (w, rest) := by
  simp only [wordBytes, List.cons_append, List.nil_append, takeWord, bytes_append]

theorem takeField_append {bs : Bytes} (h : bs.length < 2 ^ 32) (rest : Bytes) :
    takeField (field bs ++ rest) = some (bs, rest) := by
  have hlen : (BitVec.ofNat 32 bs.length).toNat = bs.length := by
    rw [BitVec.toNat_ofNat, Nat.mod_eq_of_lt h]
  rw [takeField, field, List.append_assoc, takeWord_append, Option.bind_eq_bind, Option.bind_some]
  simp only [hlen, List.length_append, Nat.le_add_right, if_true, List.take_left, List.drop_left]

end LengthPrefix
