import Mathlib.Tactic
import TeeClient.Types

/-! The byte bitmaps of `tee_client_api.c`: `SetBit`, `CheckBit`, `ClearBit` and the
search of `IterateBitmap`.  `byteMax` is the length of the list. -/

namespace TeeClient.Vendor

abbrev Bitmap := List Byte

/-- `(uint8_t)(1U << (i & MASK))` -/
def bitMask (i : Nat) : Byte := 1 <<< (i % 8)

def setBit (i : Nat) (bitMap : Bitmap) : Bitmap :=
  bitMap.modify (i / 8) (· ||| bitMask i)

def checkBit (i : Nat) (bitMap : Bitmap) : Bool :=
  match bitMap[i / 8]? with
  | some b => b &&& bitMask i ≠ 0
  | none => false

def clearBit (i : Nat) (bitMap : Bitmap) : Bitmap :=
  bitMap.modify (i / 8) (· &&& ~~~bitMask i)

inductive BitmapOps
  | set
  | clear
  deriving DecidableEq

def refByte : BitmapOps → Byte
  | .set => 0xff
  | .clear => 0

/-- The inner loop of `IterateBitmap`: the first bit of `byte` that is clear, for
`SET`, or set, for `CLEAR`. -/
def validBitOf (ops : BitmapOps) (byte : Byte) : Option Nat :=
  (List.range 8).find? fun j => decide (byte &&& bitMask j = 0) = decide (ops = .set)

def searchBitmap (ops : BitmapOps) : Nat → Bitmap → Option Nat
  | _, [] => none
  | i, byte :: bitMap =>
    if byte = refByte ops then searchBitmap ops (i + 1) bitMap
    else
      match validBitOf ops byte with
      | some j => some (i * 8 + j)
      | none => searchBitmap ops (i + 1) bitMap

def iterateBitmap (ops : BitmapOps) (bitMap : Bitmap) : Option Nat × Bitmap :=
  match searchBitmap ops 0 bitMap with
  | none => (none, bitMap)
  | some validBit =>
    match ops with
    | .set => (some validBit, setBit validBit bitMap)
    | .clear => (some validBit, clearBit validBit bitMap)

def getAndSetBit (bitMap : Bitmap) : Option Nat × Bitmap := iterateBitmap .set bitMap

def getAndClearBit (bitMap : Bitmap) : Option Nat × Bitmap := iterateBitmap .clear bitMap

section Bits

variable {bitMap : Bitmap} {i j : Nat}

theorem and_bitMask {b : Byte} : b &&& bitMask i ≠ 0 ↔ b.getLsbD (i % 8) = true := by
  have hlt : i % 8 < 8 := Nat.mod_lt _ (by decide)
  rw [bitMask]
  generalize i % 8 = j at hlt
  revert b
  decide +revert

theorem getLsbD_bitMask {k : Nat} (hk : k < 8) : (bitMask i).getLsbD k = decide (k = i % 8) := by
  have hlt : i % 8 < 8 := Nat.mod_lt _ (by decide)
  rw [bitMask]
  generalize i % 8 = j at hlt
  decide +revert

theorem checkBit_eq : checkBit i bitMap = (bitMap[i / 8]?.map (·.getLsbD (i % 8))).getD false := by
  rw [checkBit]
  cases bitMap[i / 8]? with
  | none => rfl
  | some b =>
    change decide (b &&& bitMask i ≠ 0) = b.getLsbD (i % 8)
    rw [Bool.eq_iff_iff, decide_eq_true_iff]
    exact and_bitMask

@[simp] theorem length_setBit : (setBit i bitMap).length = bitMap.length := by simp [setBit]

@[simp] theorem length_clearBit : (clearBit i bitMap).length = bitMap.length := by simp [clearBit]

theorem checkBit_of_ge (h : 8 * bitMap.length ≤ i) : checkBit i bitMap = false := by
  have : bitMap.length ≤ i / 8 := by omega
  simp [checkBit_eq, this]

theorem checkBit_setBit (h : i < 8 * bitMap.length) :
    checkBit j (setBit i bitMap) = (decide (j = i) || checkBit j bitMap) := by
  have hmod : j % 8 < 8 := Nat.mod_lt _ (by decide)
  simp only [checkBit_eq, setBit, List.getElem?_modify]
  by_cases hbyte : i / 8 = j / 8
  · have hj : j / 8 < bitMap.length := by omega
    have hiff : j % 8 = i % 8 ↔ j = i := by omega
    simp [hbyte, hj, getLsbD_bitMask hmod, hiff, Bool.or_comm]
  · have hne : j ≠ i := fun h => hbyte (by rw [h])
    simp [hbyte, hne]

theorem checkBit_clearBit :
    checkBit j (clearBit i bitMap) = (decide (j ≠ i) && checkBit j bitMap) := by
  have hmod : j % 8 < 8 := Nat.mod_lt _ (by decide)
  simp only [checkBit_eq, clearBit, List.getElem?_modify]
  by_cases hbyte : i / 8 = j / 8
  · have hiff : j % 8 = i % 8 ↔ j = i := by omega
    cases hb : bitMap[j / 8]? with
    | none => simp
    | some b =>
      simp only [hbyte, if_true, Option.map_eq_map, Option.map_some, Option.getD_some, BitVec.getLsbD_and,
        BitVec.getLsbD_not, getLsbD_bitMask hmod, hiff, hmod, decide_true, Bool.true_and]
      rw [decide_not, Bool.and_comm]
  · have hne : j ≠ i := fun h => hbyte (by rw [h])
    simp [hbyte, hne]

theorem bitmap_ext {bitMap bitMap' : Bitmap} (hlen : bitMap.length = bitMap'.length)
    (hbits : ∀ i, checkBit i bitMap = checkBit i bitMap') : bitMap = bitMap' := by
  apply List.ext_getElem hlen
  intro k hk hk'
  apply BitVec.eq_of_getLsbD_eq
  intro j hj
  have hdiv : (8 * k + j) / 8 = k := by omega
  have hmod : (8 * k + j) % 8 = j := by omega
  simpa [checkBit_eq, hdiv, hmod, hk, hk'] using hbits (8 * k + j)

theorem clearBit_setBit (h : checkBit i bitMap = false) (hi : i < 8 * bitMap.length) :
    clearBit i (setBit i bitMap) = bitMap := by
  apply bitmap_ext (by simp)
  intro k
  rw [checkBit_clearBit, checkBit_setBit hi]
  by_cases hk : k = i
  · simp [hk, h]
  · simp [hk]

end Bits

section Search

variable {bitMap : Bitmap} {ops : BitmapOps} {byte : Byte} {v : Nat}

theorem checkBit_cons_of_lt (hv : v < 8) : checkBit v (byte :: bitMap) = byte.getLsbD v := by
  have hdiv : v / 8 = 0 := by omega
  simp [checkBit_eq, hdiv, Nat.mod_eq_of_lt hv]

theorem checkBit_cons_add (byte : Byte) (bitMap : Bitmap) (v : Nat) :
    checkBit (8 + v) (byte :: bitMap) = checkBit v bitMap := by
  have hdiv : (8 + v) / 8 = v / 8 + 1 := by omega
  simp [checkBit_eq, hdiv]

theorem checkBit_cons_skip (hbyte : ∀ j < 8, byte.getLsbD j = decide (ops = .set))
    (hrest : ∀ j < v, checkBit j bitMap = decide (ops = .set)) :
    ∀ j < 8 + v, checkBit j (byte :: bitMap) = decide (ops = .set) := by
  intro j hj
  by_cases h : j < 8
  · rw [checkBit_cons_of_lt h, hbyte j h]
  · obtain ⟨k, rfl⟩ := Nat.exists_eq_add_of_le (Nat.not_lt.mp h)
    rw [checkBit_cons_add, hrest k (by omega)]

theorem and_bitMask_eq_zero {j : Nat} (hj : j < 8) :
    decide (byte &&& bitMask j = 0) = !byte.getLsbD j := by
  have hand := and_bitMask (b := byte) (i := j)
  rw [Nat.mod_eq_of_lt hj] at hand
  rw [Bool.eq_iff_iff, decide_eq_true_iff, Bool.not_eq_true', ← Bool.not_eq_true, ← hand, not_not]

theorem getLsbD_of_refByte (h : byte = refByte ops) :
    ∀ j < 8, byte.getLsbD j = decide (ops = .set) := by
  subst h
  cases ops <;> decide

theorem validBitOf_test {j : Nat} (hj : j < 8) :
    decide (decide (byte &&& bitMask j = 0) = decide (ops = .set)) = true ↔
      byte.getLsbD j = decide (ops = .clear) := by
  rw [and_bitMask_eq_zero hj]
  cases ops <;> cases byte.getLsbD j <;> simp

theorem validBitOf_eq_some (h : validBitOf ops byte = some v) :
    v < 8 ∧ byte.getLsbD v = decide (ops = .clear) ∧
      ∀ j < v, byte.getLsbD j = decide (ops = .set) := by
  obtain ⟨htest, hmem, hfirst⟩ := List.find?_range_eq_some.mp h
  have hv : v < 8 := List.mem_range.mp hmem
  refine ⟨hv, (validBitOf_test hv).mp htest, fun j hj => ?_⟩
  have hother : ¬ byte.getLsbD j = decide (ops = .clear) :=
    (validBitOf_test (hj.trans hv)).not.mp (by simpa using hfirst j hj)
  cases ops <;> simpa using hother

theorem validBitOf_eq_none (h : validBitOf ops byte = none) :
    ∀ j < 8, byte.getLsbD j = decide (ops = .set) := by
  intro j hj
  have hnot := List.find?_eq_none.mp h j (List.mem_range.mpr hj)
  have hother : ¬ byte.getLsbD j = decide (ops = .clear) := (validBitOf_test hj).not.mp hnot
  cases ops <;> simpa using hother

theorem searchBitmap_eq_some {i : Nat} (h : searchBitmap ops i bitMap = some v) :
    ∃ w, v = i * 8 + w ∧ w < 8 * bitMap.length ∧ checkBit w bitMap = decide (ops = .clear) ∧
      ∀ j < w, checkBit j bitMap = decide (ops = .set) := by
  induction bitMap generalizing i with
  | nil => simp [searchBitmap] at h
  | cons byte bitMap ih =>
    have next (hbyte : ∀ j < 8, byte.getLsbD j = decide (ops = .set))
        (h : searchBitmap ops (i + 1) bitMap = some v) :
        ∃ w, v = i * 8 + w ∧ w < 8 * (byte :: bitMap).length ∧
          checkBit w (byte :: bitMap) = decide (ops = .clear) ∧
          ∀ j < w, checkBit j (byte :: bitMap) = decide (ops = .set) := by
      obtain ⟨w, rfl, hw, hbit, hfirst⟩ := ih h
      refine ⟨8 + w, by omega, ?_, ?_, checkBit_cons_skip hbyte hfirst⟩
      · rw [List.length_cons]
        omega
      · rw [checkBit_cons_add, hbit]
    simp only [searchBitmap] at h
    split_ifs at h with href
    · exact next (getLsbD_of_refByte href) h
    · cases hv : validBitOf ops byte with
      | none =>
        rw [hv] at h
        exact next (validBitOf_eq_none hv) h
      | some j =>
        rw [hv] at h
        obtain ⟨hj, hbit, hfirst⟩ := validBitOf_eq_some hv
        obtain rfl := Option.some.inj h
        refine ⟨j, rfl, ?_, ?_, fun k hk => ?_⟩
        · rw [List.length_cons]
          omega
        · rw [checkBit_cons_of_lt hj, hbit]
        · rw [checkBit_cons_of_lt (hk.trans hj), hfirst k hk]

theorem searchBitmap_eq_none {i : Nat} (h : searchBitmap ops i bitMap = none) :
    ∀ j < 8 * bitMap.length, checkBit j bitMap = decide (ops = .set) := by
  induction bitMap generalizing i with
  | nil => simp
  | cons byte bitMap ih =>
    have hlen : 8 * (byte :: bitMap).length = 8 + 8 * bitMap.length := by
      rw [List.length_cons]
      omega
    rw [hlen]
    simp only [searchBitmap] at h
    split_ifs at h with href
    · exact checkBit_cons_skip (getLsbD_of_refByte href) (ih h)
    · cases hv : validBitOf ops byte with
      | none =>
        rw [hv] at h
        exact checkBit_cons_skip (validBitOf_eq_none hv) (ih h)
      | some j =>
        rw [hv] at h
        cases h

theorem getAndSetBit_cases (bitMap : Bitmap) :
    getAndSetBit bitMap = (none, bitMap) ∨
    ∃ v, getAndSetBit bitMap = (some v, setBit v bitMap) ∧ v < 8 * bitMap.length ∧
      checkBit v bitMap = false := by
  simp only [getAndSetBit, iterateBitmap]
  cases hs : searchBitmap .set 0 bitMap with
  | none => exact .inl rfl
  | some v =>
    obtain ⟨w, rfl, hw, hbit, -⟩ := searchBitmap_eq_some hs
    exact .inr ⟨0 * 8 + w, rfl, by omega, by simpa using hbit⟩

end Search

section Laws

def validBit : Option Nat → BitVec 32
  | none => -1
  | some v => BitVec.ofNat 32 v

structure TakesFirst (want : Bool) (bitMap : Bitmap) (r : Option Nat × Bitmap) : Prop where
  found : ∀ v : Nat, (validBit r.1).toInt = v ↔
    v < 8 * bitMap.length ∧ checkBit v bitMap = want ∧ ∀ j < v, checkBit j bitMap = !want
  exhausted : (validBit r.1).toInt = -1 ↔ ∀ j < 8 * bitMap.length, checkBit j bitMap = !want
  unchanged : (validBit r.1).toInt = -1 → r.2 = bitMap
  flips : ∀ v : Nat, (validBit r.1).toInt = v → r.2.length = bitMap.length ∧
    checkBit v r.2 = !want ∧ ∀ j, j ≠ v → checkBit j r.2 = checkBit j bitMap

structure BitmapLaws (bitMap : Bitmap) : Prop where
  getAndSet : TakesFirst false bitMap (getAndSetBit bitMap)
  getAndClear : TakesFirst true bitMap (getAndClearBit bitMap)
  restores : clearBit (validBit (getAndSetBit bitMap).1).toNat (getAndSetBit bitMap).2 = bitMap
  readsSet : ∀ i < 8 * bitMap.length, ∀ j,
    checkBit j (setBit i bitMap) = (decide (j = i) || checkBit j bitMap)
  readsClear : ∀ i j, checkBit j (clearBit i bitMap) = (decide (j ≠ i) && checkBit j bitMap)
  outside : ∀ i, 8 * bitMap.length ≤ i →
    setBit i bitMap = bitMap ∧ clearBit i bitMap = bitMap ∧ checkBit i bitMap = false

variable {bitMap : Bitmap} {ops : BitmapOps} {v : Nat}

theorem toInt_validBit_none : (validBit none).toInt = -1 := by decide

theorem toNat_validBit_some (h : v < 2 ^ 31) : (validBit (some v)).toNat = v := by
  rw [validBit, BitVec.toNat_ofNat, Nat.mod_eq_of_lt (h.trans (by decide))]

theorem toInt_validBit_some (h : v < 2 ^ 31) : (validBit (some v)).toInt = v := by
  have hnat := toNat_validBit_some h
  rw [BitVec.toInt_eq_toNat_of_lt (by omega), hnat]

theorem setBit_of_ge (h : 8 * bitMap.length ≤ v) : setBit v bitMap = bitMap :=
  List.modify_eq_self (by omega)

theorem clearBit_of_ge (h : 8 * bitMap.length ≤ v) : clearBit v bitMap = bitMap :=
  List.modify_eq_self (by omega)

theorem checkBit_update {j : Nat} (hv : v < 8 * bitMap.length) :
    checkBit j (match ops with | .set => setBit v bitMap | .clear => clearBit v bitMap) =
      if j = v then decide (ops = .set) else checkBit j bitMap := by
  cases ops with
  | set => by_cases h : j = v <;> simp [checkBit_setBit hv, h]
  | clear => by_cases h : j = v <;> simp [checkBit_clearBit, h]

theorem iterateBitmap_eq (ops : BitmapOps) (bitMap : Bitmap) :
    iterateBitmap ops bitMap = (searchBitmap ops 0 bitMap,
      (searchBitmap ops 0 bitMap).elim bitMap fun v =>
        match ops with | .set => setBit v bitMap | .clear => clearBit v bitMap) := by
  rw [iterateBitmap]
  cases searchBitmap ops 0 bitMap with
  | none => rfl
  | some v => cases ops <;> rfl

theorem iterateBitmap_takesFirst (ops : BitmapOps) (h : 8 * bitMap.length < 2 ^ 31) :
    TakesFirst (decide (ops = .clear)) bitMap (iterateBitmap ops bitMap) := by
  have hother : decide (ops = .set) = !decide (ops = .clear) := by cases ops <;> rfl
  rw [iterateBitmap_eq]
  cases hs : searchBitmap ops 0 bitMap with
  | none =>
    have hall := searchBitmap_eq_none hs
    rw [hother] at hall
    refine ⟨fun w => ?_, ?_, fun _ => rfl, fun w hw => ?_⟩
    · rw [toInt_validBit_none]
      refine iff_of_false (by omega) fun hw => ?_
      rw [hall w hw.1] at hw
      simp at hw
    · exact iff_of_true toInt_validBit_none hall
    · rw [toInt_validBit_none] at hw
      omega
  | some w =>
    obtain ⟨v, rfl, hv, hbit, hfirst⟩ := searchBitmap_eq_some hs
    rw [Nat.zero_mul, Nat.zero_add] at hs ⊢
    rw [hother] at hfirst
    have hint := toInt_validBit_some (hv.trans h)
    refine ⟨fun w => ?_, ?_, fun hneg => ?_, fun w hw => ?_⟩
    · rw [hint, Nat.cast_inj]
      constructor
      · rintro rfl
        exact ⟨hv, hbit, hfirst⟩
      · -- of two first bits, neither comes before the other
        rintro ⟨hw, hwbit, hwfirst⟩
        rcases lt_trichotomy v w with hlt | heq | hlt
        · simp [hwfirst v hlt] at hbit
        · exact heq
        · simp [hfirst w hlt] at hwbit
    · rw [hint]
      refine iff_of_false (by omega) fun hall => ?_
      simp [hall v hv] at hbit
    · rw [hint] at hneg
      omega
    · obtain rfl : v = w := Nat.cast_inj.mp (hint.symm.trans hw)
      refine ⟨?_, ?_, fun j hj => ?_⟩
      · cases ops <;> simp
      · rw [Option.elim_some, checkBit_update hv, if_pos rfl, hother]
      · rw [Option.elim_some, checkBit_update hv, if_neg hj]

theorem clearBit_getAndSetBit (h : 8 * bitMap.length < 2 ^ 31) :
    clearBit (validBit (getAndSetBit bitMap).1).toNat (getAndSetBit bitMap).2 = bitMap := by
  rcases getAndSetBit_cases bitMap with heq | ⟨v, heq, hv, hclear⟩
  · -- the index that -1 is converted to lies behind every bitmap
    have hmax : (validBit none).toNat = 2 ^ 32 - 1 := by decide
    have hge : 8 * bitMap.length ≤ 2 ^ 32 - 1 := by omega
    rw [heq, hmax, clearBit_of_ge hge]
  · rw [heq, toNat_validBit_some (hv.trans h), clearBit_setBit hclear hv]

/-- The searches and updates of every bitmap whose indices an `int32_t` holds. -/
theorem bitmapLaws (bitMap : Bitmap) (h : 8 * bitMap.length < 2 ^ 31) : BitmapLaws bitMap where
  getAndSet := iterateBitmap_takesFirst .set h
  getAndClear := iterateBitmap_takesFirst .clear h
  restores := clearBit_getAndSetBit h
  readsSet _ hi _ := checkBit_setBit hi
  readsClear _ _ := checkBit_clearBit
  outside _ hi := ⟨setBit_of_ge hi, clearBit_of_ge hi, checkBit_of_ge hi⟩

theorem bitmapLaws_full :
    BitmapLaws [0xff, 0xfb] ∧ getAndSetBit [0xff, 0xfb] = (some 10, [0xff, 0xff]) :=
  ⟨bitmapLaws [0xff, 0xfb] (by decide), by decide⟩

end Laws

end TeeClient.Vendor
