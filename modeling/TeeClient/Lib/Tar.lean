import Mathlib.Data.Nat.Digits.Lemmas
import Mathlib.Tactic
import TeeClient.Lib.Memory

/-! Archives of 512-byte blocks: a header with octal numbers, then the content of a file, up to a
block of zeros. -/

namespace Tar

open ByteMemory (Bytes)

def blockSize : Nat := 512

section Octal

def octal (n : Nat) : Bytes :=
  if n = 0 then [0x30] else (Nat.digits 8 n).reverse.map fun d => BitVec.ofNat 8 (0x30 + d)

def IsOctalDigit (c : BitVec 8) : Prop := 0x30 ≤ c.toNat ∧ c.toNat < 0x38

instance (c : BitVec 8) : Decidable (IsOctalDigit c) := inferInstanceAs (Decidable (_ ∧ _))

def parseOctal (field : Bytes) : Option Nat :=
  let text := field.takeWhile (· ≠ 0)
  if 0 ∈ field ∧ text ≠ [] ∧ ∀ c ∈ text, IsOctalDigit c then
    some (Nat.ofDigits 8 (text.reverse.map fun c => c.toNat - 0x30))
  else none

end Octal

section Format

def sumBytes (bs : Bytes) : Nat := (bs.map BitVec.toNat).sum

def field (header : Bytes) (offset len : Nat) : Bytes := (header.drop offset).take len

def headerSum (header : Bytes) : Nat :=
  sumBytes (header.take 148) + 8 * 0x20 + sumBytes (header.drop 156)

def paddedLen (n : Nat) : Nat := (n + (blockSize - 1)) / blockSize * blockSize

def pad (bs : Bytes) : Bytes := bs ++ List.replicate (paddedLen bs.length - bs.length) 0

structure Entry where
  name : Bytes
  size : Nat
  content : Bytes
  deriving DecidableEq, Repr

def decode (bs : Bytes) : Option (List Entry) :=
  if bs.length < blockSize then none
  else if ∀ c ∈ bs.take blockSize, c = 0 then some []
  else
    match parseOctal (field bs 124 12), parseOctal (field bs 148 8) with
    | some size, some sum =>
      if sum = headerSum (bs.take blockSize) ∧ paddedLen size ≤ bs.length - blockSize then
        (decode (bs.drop (blockSize + paddedLen size))).map
          (⟨(field bs 0 100).takeWhile (· ≠ 0), size, (bs.drop blockSize).take size⟩ :: ·)
      else none
    | _, _ => none
termination_by bs.length
decreasing_by
  simp only [List.length_drop, blockSize] at *
  omega

end Format

section OctalLaws

variable {n k : Nat} {c : BitVec 8} {rest : Bytes}

theorem toNat_digit {d : Nat} (h : d < 8) : (BitVec.ofNat 8 (0x30 + d)).toNat = 0x30 + d := by
  rw [BitVec.toNat_ofNat, Nat.mod_eq_of_lt (by omega)]

theorem isOctalDigit_of_mem (h : c ∈ octal n) : IsOctalDigit c := by
  rw [octal] at h
  split_ifs at h with hn
  · rw [List.mem_singleton.mp h]
    decide
  · obtain ⟨d, hd, rfl⟩ := List.mem_map.mp h
    have hlt : d < 8 := Nat.digits_lt_base (by decide) (List.mem_reverse.mp hd)
    rw [IsOctalDigit, toNat_digit hlt]
    omega

theorem IsOctalDigit.ne_zero (h : IsOctalDigit c) : c ≠ 0 := by
  rintro rfl
  exact absurd h (by decide)

theorem octal_ne_nil (n : Nat) : octal n ≠ [] := by
  rw [octal]
  split_ifs with hn
  · exact List.cons_ne_nil _ _
  · simpa using Nat.digits_ne_nil_iff_ne_zero.mpr hn

theorem length_octal_le (h : n < 8 ^ k) (hk : 0 < k) : (octal n).length ≤ k := by
  rw [octal]
  split_ifs with hn
  · exact hk
  · rw [List.length_map, List.length_reverse]
    exact (Nat.digits_length_le_iff (by decide) n).mpr h

theorem ofDigits_octal (n : Nat) :
    Nat.ofDigits 8 ((octal n).reverse.map fun c => c.toNat - 0x30) = n := by
  rw [octal]
  split_ifs with hn
  · rw [hn]
    rfl
  · rw [← List.map_reverse, List.reverse_reverse, List.map_map]
    have hdigits : (Nat.digits 8 n).map
        ((fun c : BitVec 8 => c.toNat - 0x30) ∘ fun d => BitVec.ofNat 8 (0x30 + d)) =
        Nat.digits 8 n := by
      rw [List.map_congr_left (g := id), List.map_id]
      intro d hd
      have hlt : d < 8 := Nat.digits_lt_base (by decide) hd
      rw [Function.comp_apply, toNat_digit hlt, Nat.add_sub_cancel_left]
      rfl
    rw [hdigits, Nat.ofDigits_digits]

theorem takeWhile_text {text : Bytes} (h : ∀ c ∈ text, c ≠ 0) (rest : Bytes) :
    (text ++ 0 :: rest).takeWhile (· ≠ 0) = text := by
  rw [List.takeWhile_append_of_pos]
  · rw [List.takeWhile_cons_of_neg (by simp), List.append_nil]
  · intro c hc
    simpa using h c hc

theorem parseOctal_octal (n : Nat) (rest : Bytes) :
    parseOctal (octal n ++ 0 :: rest) = some n := by
  have htext : (octal n ++ 0 :: rest).takeWhile (· ≠ 0) = octal n :=
    takeWhile_text (fun c hc => (isOctalDigit_of_mem hc).ne_zero) rest
  rw [parseOctal, htext, if_pos, ofDigits_octal]
  exact ⟨by simp, octal_ne_nil n, fun c hc => isOctalDigit_of_mem hc⟩

end OctalLaws

section Padding

variable {bs : Bytes}

theorem paddedLen_add (n : Nat) : paddedLen (blockSize + n) = blockSize + paddedLen n := by
  rw [paddedLen, paddedLen, blockSize]
  omega

theorem le_paddedLen (n : Nat) : n ≤ paddedLen n := by
  rw [paddedLen, blockSize]
  omega

@[simp] theorem pad_nil : pad [] = [] := rfl

@[simp] theorem length_pad (bs : Bytes) : (pad bs).length = paddedLen bs.length := by
  rw [pad, List.length_append, List.length_replicate, Nat.add_sub_cancel' (le_paddedLen _)]

theorem take_pad (bs rest : Bytes) : (pad bs ++ rest).take bs.length = bs := by
  rw [pad, List.append_assoc, List.take_left]

theorem pad_eq_append (hne : bs ≠ []) :
    pad bs = bs.take blockSize ++ List.replicate (blockSize - (bs.take blockSize).length) 0 ++
      pad (bs.drop blockSize) := by
  by_cases hlong : blockSize ≤ bs.length
  · obtain ⟨more, hmore⟩ := Nat.exists_eq_add_of_le hlong
    have htake : (bs.take blockSize).length = blockSize := List.length_take_of_le hlong
    have hsub : blockSize + paddedLen more - (blockSize + more) = paddedLen more - more := by omega
    rw [htake, Nat.sub_self, List.replicate_zero, List.append_nil, pad, pad, List.length_drop, hmore,
      Nat.add_sub_cancel_left, paddedLen_add, hsub, ← List.append_assoc, List.take_append_drop]
  · have hpos := List.length_pos_of_ne_nil hne
    have hone : paddedLen bs.length = blockSize := by
      rw [paddedLen, blockSize] at *
      omega
    rw [List.take_of_length_le (by omega), List.drop_of_length_le (by omega), pad_nil,
      List.append_nil, pad, hone]

end Padding

section Decoding

variable {header content rest : Bytes}

theorem decode_zeros (rest : Bytes) : decode (List.replicate blockSize 0 ++ rest) = some [] := by
  have hlen : ¬ (List.replicate blockSize 0 ++ rest).length < blockSize := by
    rw [List.length_append, List.length_replicate]
    omega
  have htake : (List.replicate blockSize 0 ++ rest).take blockSize =
      List.replicate blockSize (0 : BitVec 8) :=
    List.take_left' List.length_replicate
  rw [decode, if_neg hlen, htake, if_pos fun c hc => List.eq_of_mem_replicate hc]

theorem field_append {offset len : Nat} (h : offset + len ≤ header.length) (rest : Bytes) :
    field (header ++ rest) offset len = field header offset len := by
  rw [field, field, List.drop_append_of_le_length (by omega), List.take_append_of_le_length]
  rw [List.length_drop]
  omega

theorem not_all_zero {offset len n : Nat} (h : parseOctal (field header offset len) = some n) :
    ¬ ∀ c ∈ header, c = 0 := by
  intro hzero
  rw [parseOctal] at h
  split_ifs at h with hdigits
  obtain ⟨-, hne, hall⟩ := hdigits
  obtain ⟨c, text, htext⟩ := List.exists_cons_of_ne_nil hne
  have hmem : c ∈ (field header offset len).takeWhile (· ≠ 0) := by
    rw [htext]
    exact List.mem_cons_self
  have hin : c ∈ header :=
    List.mem_of_mem_drop (List.mem_of_mem_take ((List.takeWhile_sublist _).mem hmem))
  exact (hall c hmem).ne_zero (hzero c hin)

theorem decode_append (hlen : header.length = blockSize)
    (hsize : parseOctal (field header 124 12) = some content.length)
    (hsum : parseOctal (field header 148 8) = some (headerSum header)) (rest : Bytes) :
    decode (header ++ (pad content ++ rest)) =
      (decode rest).map (⟨(field header 0 100).takeWhile (· ≠ 0), content.length, content⟩ :: ·) := by
  have hshort : ¬ (header ++ (pad content ++ rest)).length < blockSize := by
    rw [List.length_append]
    omega
  have htake : (header ++ (pad content ++ rest)).take blockSize = header := List.take_left' hlen
  have hdrop : (header ++ (pad content ++ rest)).drop blockSize = pad content ++ rest :=
    List.drop_left' hlen
  have hrest : (header ++ (pad content ++ rest)).drop (blockSize + paddedLen content.length) = rest := by
    rw [← List.drop_drop, hdrop, List.drop_left' (length_pad content)]
  have hroom : paddedLen content.length ≤ (header ++ (pad content ++ rest)).length - blockSize := by
    rw [List.length_append, List.length_append, length_pad]
    omega
  have hfield {offset len : Nat} (h : offset + len ≤ blockSize) :
      field (header ++ (pad content ++ rest)) offset len = field header offset len :=
    field_append (h.trans hlen.ge) _
  rw [decode, if_neg hshort, htake, if_neg (not_all_zero hsize), hfield (by decide),
    hfield (by decide), hfield (by decide), hsize, hsum]
  dsimp only
  rw [if_pos ⟨rfl, hroom⟩, hrest, hdrop, take_pad]

end Decoding

end Tar
