import Mathlib.Tactic
import TeeClient.Lib.Memory

/-! Base64 texts: groups of four letters, of which the last may be padded. -/

namespace Base64

open ByteMemory (Bytes)

def pad : BitVec 8 := 61

def sextet (c : BitVec 8) : Option (BitVec 6) :=
  if 65 ≤ c ∧ c ≤ 90 then some ((c - 65).setWidth 6)
  else if 97 ≤ c ∧ c ≤ 122 then some ((c - 71).setWidth 6)
  else if 48 ≤ c ∧ c ≤ 57 then some ((c + 4).setWidth 6)
  else if c = 43 then some 62
  else if c = 47 then some 63
  else none

def group (a b c d : BitVec 6) : Bytes :=
  let bits : BitVec 24 := a ++ b ++ c ++ d
  [bits.extractLsb' 16 8, bits.extractLsb' 8 8, bits.extractLsb' 0 8]

def decode : Bytes → Option Bytes
  | [] => some []
  | a :: b :: c :: d :: rest => do
    let a ← sextet a
    let b ← sextet b
    if rest = [] ∧ d = pad then
      if c = pad then some ((group a b 0 0).take 1)
      else
        let c ← sextet c
        some ((group a b c 0).take 2)
    else
      let c ← sextet c
      let d ← sextet d
      let bytes ← decode rest
      some (group a b c d ++ bytes)
  | _ => none

def padding (text : Bytes) : Nat := (text.reverse.takeWhile (· = pad)).length

theorem sextet_pad : sextet pad = none := by decide

theorem letter_or_pad {text bytes : Bytes} (h : decode text = some bytes) :
    ∀ c ∈ text, c = pad ∨ (sextet c).isSome := by
  induction text using decode.induct generalizing bytes with
  | case1 => simp
  | case2 a b c d rest ih =>
    simp only [decode, Option.bind_eq_bind, Option.bind_eq_some_iff] at h
    obtain ⟨na, ha, nb, hb, h⟩ := h
    simp only [List.forall_mem_cons]
    refine ⟨.inr (by simp [ha]), .inr (by simp [hb]), ?_⟩
    split_ifs at h with hlast hc
    · exact ⟨.inl hc, .inl hlast.2, by simp [hlast.1]⟩
    · obtain ⟨nc, hnc, -⟩ := Option.bind_eq_some_iff.mp h
      exact ⟨.inr (by simp [hnc]), .inl hlast.2, by simp [hlast.1]⟩
    · simp only [Option.bind_eq_some_iff] at h
      obtain ⟨nc, hc, nd, hd, tail, htail, -⟩ := h
      exact ⟨.inr (by simp [hc]), .inr (by simp [hd]), ih htail⟩
  | case3 text hempty hgroup =>
    rw [decode] at h
    · cases h
    · exact hempty
    · exact hgroup

theorem ne_pad_of_sextet {c : BitVec 8} {n : BitVec 6} (h : sextet c = some n) : c ≠ pad := by
  rintro rfl
  rw [sextet_pad] at h
  cases h

theorem padding_append_letter {text pads : Bytes} {c : BitVec 8} (hc : c ≠ pad)
    (hpads : ∀ p ∈ pads, p = pad) : padding (text ++ c :: pads) = pads.length := by
  have htake : (pads.reverse ++ [c] ++ text.reverse).takeWhile (· = pad) = pads.reverse := by
    rw [List.append_assoc, List.takeWhile_append_of_pos (by simpa using hpads)]
    simp [hc]
  rw [padding, List.reverse_append, List.reverse_cons, htake, List.length_reverse]

theorem exists_last_letter {text bytes : Bytes} (h : decode text = some bytes) (hne : text ≠ []) :
    ∃ front c pads, text = front ++ c :: pads ∧ c ≠ pad ∧ (∀ p ∈ pads, p = pad) ∧
      pads.length ≤ 2 ∧ text.length % 4 = 0 ∧
      bytes.length + pads.length = 3 * (text.length / 4) := by
  induction text using decode.induct generalizing bytes with
  | case1 => exact absurd rfl hne
  | case2 a b c d rest ih =>
    simp only [decode, Option.bind_eq_bind, Option.bind_eq_some_iff] at h
    obtain ⟨na, ha, nb, hb, h⟩ := h
    split_ifs at h with hlast hc
    · obtain ⟨rfl, rfl⟩ := hlast
      obtain rfl := hc
      obtain rfl := Option.some.inj h
      exact ⟨[a], b, [pad, pad], rfl, ne_pad_of_sextet hb, by simp, le_rfl, by simp,
        by simp [group]⟩
    · obtain ⟨rfl, rfl⟩ := hlast
      obtain ⟨nc, -, h⟩ := Option.bind_eq_some_iff.mp h
      obtain rfl := Option.some.inj h
      exact ⟨[a, b], c, [pad], rfl, hc, by simp, by simp, by simp, by simp [group]⟩
    · simp only [Option.bind_eq_some_iff] at h
      obtain ⟨nc, -, nd, hd, tail, htail, h⟩ := h
      obtain rfl := Option.some.inj h
      by_cases hrest : rest = []
      · subst hrest
        obtain rfl := Option.some.inj htail
        exact ⟨[a, b, c], d, [], rfl, ne_pad_of_sextet hd, by simp, by simp, by simp,
          by simp [group]⟩
      · obtain ⟨front, e, pads, rfl, he, hpads, hle, hmod, hlen⟩ := ih htail hrest
        refine ⟨a :: b :: c :: d :: front, e, pads, rfl, he, hpads, hle, ?_, ?_⟩
        · simp only [List.length_cons] at hmod ⊢
          omega
        · simp only [group, List.length_append, List.length_cons, List.length_nil] at hmod hlen ⊢
          omega
  | case3 text hempty hgroup =>
    rw [decode] at h
    · cases h
    · exact hempty
    · exact hgroup

theorem length_decode {text bytes : Bytes} (h : decode text = some bytes) (hne : text ≠ []) :
    text.length % 4 = 0 ∧ padding text ≤ 2 ∧ bytes.length + padding text = 3 * (text.length / 4) := by
  obtain ⟨front, c, pads, rfl, hc, hpads, hle, hmod, hlen⟩ := exists_last_letter h hne
  rw [padding_append_letter hc hpads]
  exact ⟨hmod, hle, hlen⟩

end Base64
