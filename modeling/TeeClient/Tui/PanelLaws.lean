import Mathlib.Tactic
import TeeClient.Tui.Panel

/-! The rotation is that of the display, turned by the offset of the panel and back by the
corrections. -/

namespace TeeClient.Tui

section Split

variable {input delimiters rest : Text} {start : Nat}

def pieces (delimiters input : Text) : List Text :=
  (input.splitOnP (· ∈ delimiters)).filter (· ≠ [])

theorem pieces_cons {xs : Text} {d : Char} (hxs : ∀ x ∈ xs, x ∉ delimiters) (hd : d ∈ delimiters) :
    pieces delimiters (xs ++ d :: rest) =
      (if xs = [] then [] else [xs]) ++ pieces delimiters rest := by
  rw [pieces, List.splitOnP_append_cons_of_forall_mem (by simpa using hxs) d (by simpa using hd)]
  by_cases hnil : xs = []
  · simp [hnil, pieces]
  · simp [hnil, pieces]

theorem pieces_last (hinput : ∀ x ∈ input, x ∉ delimiters) :
    pieces delimiters input = if input = [] then [] else [input] := by
  rw [pieces, List.splitOnP_eq_singleton (by simpa using hinput)]
  by_cases hnil : input = []
  · simp [hnil]
  · simp [hnil]

theorem splitFrom_eq (rounds start : Nat) (result : List Text) (hle : start ≤ input.length)
    (hrounds : input.length < start + rounds) :
    splitFrom input delimiters rounds start result =
      result ++ pieces delimiters (input.drop start) := by
  induction rounds generalizing start result with
  | zero => omega
  | succ rounds ih =>
    rw [splitFrom, findFirstOf]
    cases hfind : (input.drop start).findIdx? (· ∈ delimiters) with
    | none =>
      have hnone : ∀ x ∈ input.drop start, x ∉ delimiters := by
        simpa using List.findIdx?_eq_none_iff.mp hfind
      rw [pieces_last hnone]
      simp only [Option.map_none, List.drop_eq_nil_iff]
      by_cases hlt : start < input.length
      · simp [hlt]
      · simp [hlt, not_lt.mp hlt]
    | some k =>
      obtain ⟨hk, hd, hbefore⟩ := List.findIdx?_eq_some_iff_getElem.mp hfind
      have hsplit : input.drop start = (input.drop start).take k ++
          (input.drop start)[k] :: input.drop (start + k + 1) := by
        conv_lhs => rw [← List.take_append_drop k (input.drop start), List.drop_eq_getElem_cons hk]
        rw [List.drop_drop, Nat.add_assoc]
      have hxs : ∀ x ∈ (input.drop start).take k, x ∉ delimiters := by
        intro x hx
        obtain ⟨j, hj, rfl⟩ := List.getElem_of_mem hx
        rw [List.length_take] at hj
        simpa using hbefore j (by omega)
      rw [List.length_drop] at hk
      simp only [Option.map_some]
      rw [ih (start + k + 1) _ (by omega) (by omega)]
      conv_rhs => rw [hsplit, pieces_cons hxs (by simpa using hd)]
      rw [← List.append_assoc]
      congr 1
      by_cases hzero : k = 0
      · simp [hzero]
      · have hne : (input.drop start).take k ≠ [] := by
          simp only [ne_eq, List.take_eq_nil_iff, List.drop_eq_nil_iff]
          omega
        simp [hne, hzero]

theorem tuiSplitString_eq : tuiSplitString input delimiters = pieces delimiters input := by
  rw [tuiSplitString, splitFrom_eq _ _ _ (Nat.zero_le _) (by omega)]
  simp

end Split

section Rotation

variable {st : Panel} {a : Answers} {orientation : U32} {q : Nat}

def quarters (degrees : Text) : Option Nat :=
  if degrees = "0".toList then some 0
  else if degrees = "90".toList then some 1
  else if degrees = "180".toList then some 2
  else if degrees = "270".toList then some 3
  else none

def panelOffset (a : Answers) : Option Nat :=
  if a.isFoldable then
    let screen := ((pieces ",".toList a.foldScreenType).head?.map
      (tuiGetPhyScreen · a.foldStatus)).getD 0
    (pieces ";".toList a.phyRotation)[screen]?.bind quarters
  else quarters a.phyRotation

def turnFor (displayMode : U32) (entry : Text) : Option Nat :=
  match pieces ",".toList entry with
  | [mode :: _, turn :: _] =>
    if ascii2Digit mode = displayMode.setWidth 8 then some (ascii2Digit turn).toNat else none
  | _ => none

def corrections (a : Answers) : List Nat :=
  if a.sensorCorrectEn = "1".toList then
    (pieces ";".toList a.rotationCorrect).filterMap (turnFor (tuiGetDisplayMode a.foldDisplayMode))
  else []

/-- The orientation of the display, which a 2-in-1 device counts from another side. -/
def orientationOf (a : Answers) (foldable : Bool) (orientation : U32) : U32 :=
  if tuiGetDeviceType a.deviceType = .twoInOne ∧ foldable = false then
    if orientation = 0 then tuiRotate270 else orientation - 1
  else orientation

theorem toNat_adapted {degrees screenRotation : U32} (hdegrees : degrees.toNat = 90 * q)
    (hroom : 90 * q + 90 * screenRotation.toNat < 4294967296) :
    (adapted degrees screenRotation).toNat = (q + screenRotation.toNat) % 4 := by
  have hmul : (screenRotation * 90).toNat = 90 * screenRotation.toNat := by
    rw [BitVec.toNat_mul, Nat.mod_eq_of_lt] <;> simp <;> omega
  have hadd : (degrees + screenRotation * 90).toNat = 90 * (q + screenRotation.toNat) := by
    rw [BitVec.toNat_add, hmul, hdegrees, Nat.mod_eq_of_lt (by omega)]
    omega
  have hmod : 90 * (q + screenRotation.toNat) % (90 * 4) = 90 * ((q + screenRotation.toNat) % 4) :=
    Nat.mul_mod_mul_left _ _ _
  rw [adapted, BitVec.toNat_udiv, BitVec.toNat_umod, hadd]
  change 90 * (q + screenRotation.toNat) % 360 / 90 = _
  rw [hmod]
  omega

theorem rotation_tuiAdaptRotation {degrees : Text} (hq : quarters degrees = some q)
    (hroom : st.mScreenRotation.toNat < 47721855) :
    (tuiAdaptRotation degrees st).rotation.toNat = (q + st.mScreenRotation.toNat) % 4 := by
  simp only [quarters] at hq
  simp only [tuiAdaptRotation]
  split_ifs at hq ⊢
  all_goals
    obtain rfl := Option.some.inj hq
    exact toNat_adapted rfl (by omega)

theorem turn_back (x y : U32) : x + 360 / 90 - y = x + (4 - y) := by
  have hturn : (360 / 90 : U32) = 4 := rfl
  rw [hturn]
  bv_omega

theorem correctOne_eq (entry : Text) :
    correctOne st entry = { st with mScreenRotation := st.mScreenRotation +
      ((turnFor st.displayMode entry).map fun d => 4 - BitVec.ofNat 32 d).getD 0 } := by
  have hsame : st = { st with mScreenRotation := st.mScreenRotation + 0 } := by simp
  rw [correctOne, turnFor, tuiSplitString_eq]
  rcases pieces ",".toList entry with _ | ⟨_ | ⟨mode, ms⟩, _ | ⟨_ | ⟨turn, ts⟩, _ | ⟨p, ps⟩⟩⟩
  case cons.cons.cons.cons.nil =>
    by_cases hmode : ascii2Digit mode = st.displayMode.setWidth 8
    · simp only [if_pos hmode, Option.map_some, Option.getD_some]
      rw [turn_back, BitVec.ofNat_toNat]
    · simp only [if_neg hmode]
      exact hsame
  all_goals exact hsame

def turnedBack (screenRotation : U32) (turns : List Nat) : U32 :=
  turns.foldl (fun x d => x + (4 - BitVec.ofNat 32 d)) screenRotation

theorem foldl_correctOne (entries : List Text) :
    entries.foldl correctOne st = { st with
      mScreenRotation :=
        turnedBack st.mScreenRotation (entries.filterMap (turnFor st.displayMode)) } := by
  induction entries generalizing st with
  | nil => rfl
  | cons entry entries ih =>
    rw [List.foldl_cons, ih, correctOne_eq]
    cases hturn : turnFor st.displayMode entry with
    | none => simp [hturn]
    | some d => simp [hturn, turnedBack]

theorem toNat_turnedBack (screenRotation : U32) {turns : List Nat} (hturns : ∀ d ∈ turns, d ≤ 4)
    (hroom : screenRotation.toNat + 4 * turns.length < 4294967296) :
    (turnedBack screenRotation turns).toNat + turns.sum =
      screenRotation.toNat + 4 * turns.length := by
  induction turns generalizing screenRotation with
  | nil => simp [turnedBack]
  | cons d turns ih =>
    obtain ⟨hd, hturns⟩ := List.forall_mem_cons.mp hturns
    simp only [List.length_cons] at hroom
    have hone : (4 - BitVec.ofNat 32 d).toNat = 4 - d := by
      rw [BitVec.toNat_sub_of_le]
      · simp
        omega
      · rw [BitVec.le_def]
        simp
        omega
    have hfirst : (screenRotation + (4 - BitVec.ofNat 32 d)).toNat =
        screenRotation.toNat + (4 - d) := by
      rw [BitVec.toNat_add, hone, Nat.mod_eq_of_lt (by omega)]
    have hrest := ih (screenRotation + (4 - BitVec.ofNat 32 d)) hturns (by omega)
    have hstep : turnedBack screenRotation (d :: turns) =
        turnedBack (screenRotation + (4 - BitVec.ofNat 32 d)) turns := rfl
    rw [hstep, List.sum_cons, List.length_cons]
    omega

theorem corrected_eq (hmode : st.displayMode = tuiGetDisplayMode a.foldDisplayMode) :
    (if a.sensorCorrectEn = "1".toList then tuiSensorCorrect a.rotationCorrect st else st) =
      { st with mScreenRotation := turnedBack st.mScreenRotation (corrections a) } := by
  by_cases henabled : a.sensorCorrectEn = "1".toList
  · rw [if_pos henabled, corrections, if_pos henabled, tuiSensorCorrect, tuiSplitString_eq,
      foldl_correctOne, hmode]
  · rw [if_neg henabled, corrections, if_neg henabled]
    rfl

theorem rotation_tuiGetRotation (hoffset : panelOffset a = some q)
    (hturns : ∀ d ∈ corrections a, d ≤ 4)
    (hroom : st.mScreenRotation.toNat + 4 * (corrections a).length < 47721855) :
    (tuiGetRotation a st).rotation.toNat < 4 ∧
      ((tuiGetRotation a st).rotation.toNat + (corrections a).sum) % 4 =
        (q + st.mScreenRotation.toNat) % 4 := by
  have hsum := toNat_turnedBack st.mScreenRotation hturns (by omega)
  -- The panel that is in use, with the corrections made.
  obtain ⟨degrees, st', hq, hst', heq⟩ : ∃ (degrees : Text) (st' : Panel),
      quarters degrees = some q ∧
      st'.mScreenRotation = turnedBack st.mScreenRotation (corrections a) ∧
      tuiGetRotation a st = tuiAdaptRotation degrees st' := by
    rw [tuiGetRotation, corrected_eq rfl, tuiGetFoldable]
    simp only [tuiSplitString_eq]
    cases hfoldable : a.isFoldable with
    | false =>
      simp only [panelOffset, hfoldable, Bool.false_eq_true, if_false] at hoffset
      exact ⟨_, _, hoffset, rfl, rfl⟩
    | true =>
      simp only [panelOffset, hfoldable, if_true] at hoffset
      obtain ⟨degrees, hdegrees, hq⟩ := Option.bind_eq_some_iff.mp hoffset
      cases hscreen : pieces ",".toList a.foldScreenType with
      | nil =>
        simp only [hscreen, List.head?_nil, Option.map_none, Option.getD_none] at hdegrees
        simp only [if_true, hdegrees]
        exact ⟨_, _, hq, rfl, rfl⟩
      | cons screenType rest =>
        simp only [hscreen, List.head?_cons, Option.map_some, Option.getD_some] at hdegrees
        simp only [if_true, hdegrees]
        exact ⟨_, _, hq, rfl, rfl⟩
  have hle : st'.mScreenRotation.toNat < 47721855 := by
    rw [hst']
    omega
  rw [heq, rotation_tuiAdaptRotation hq hle, hst']
  omega

/-- The rotation that the secure world is told: the display's orientation, turned by the offset of
the panel in use, and back by the corrections for its display mode. -/
theorem rotation_tuiGetPannelInfo (hready : a.displayReady = true)
    (horientation : a.displayOrientation = some orientation) (hoffset : panelOffset a = some q)
    (hturns : ∀ d ∈ corrections a, d ≤ 4)
    (hroom : (orientationOf a st.mTUIFoldable orientation).toNat + 4 * (corrections a).length <
      47721855) :
    (tuiGetPannelInfo a st).2.rotation.toNat < 4 ∧
      ((tuiGetPannelInfo a st).2.rotation.toNat + (corrections a).sum) % 4 =
        (q + (orientationOf a st.mTUIFoldable orientation).toNat) % 4 := by
  obtain ⟨st', hst', heq⟩ : ∃ st' : Panel,
      st'.mScreenRotation = orientationOf a st.mTUIFoldable orientation ∧
      (tuiGetPannelInfo a st).2 = tuiGetRotation a st' := by
    simp only [tuiGetPannelInfo, hready, if_true, horientation, orientationOf]
    split_ifs
    all_goals exact ⟨_, rfl, rfl⟩
  rw [heq, ← hst']
  exact rotation_tuiGetRotation hoffset hturns (hst' ▸ hroom)

def unfoldedPhone : Answers where
  displayReady := true
  displayOrientation := some 1
  deviceType := "phone".toList
  foldDisplayMode := 1
  isFoldable := true
  foldStatus := foldStateExpanded
  phyRotation := "90;270".toList
  sensorCorrectEn := "1".toList
  rotationCorrect := "1,3;2,1;".toList
  foldScreenType := "1,1,0,0".toList

def initialPanel : Panel := ⟨.invalid, 0, 0, 0, false, 0⟩

theorem rotation_unfoldedPhone :
    (tuiGetPannelInfo unfoldedPhone initialPanel).2.rotation.toNat < 4 ∧
      ((tuiGetPannelInfo unfoldedPhone initialPanel).2.rotation.toNat + 3) % 4 = (3 + 1) % 4 := by
  have hoffset : panelOffset unfoldedPhone = some 3 := rfl
  have hturns : corrections unfoldedPhone = [3] := rfl
  have horientation : orientationOf unfoldedPhone initialPanel.mTUIFoldable 1 = 1 := by
    decide +kernel
  have hlaw : (tuiGetPannelInfo unfoldedPhone initialPanel).2.rotation.toNat < 4 ∧
      ((tuiGetPannelInfo unfoldedPhone initialPanel).2.rotation.toNat +
        (corrections unfoldedPhone).sum) % 4 =
          (3 + (orientationOf unfoldedPhone initialPanel.mTUIFoldable 1).toNat) % 4 :=
    rotation_tuiGetPannelInfo rfl rfl hoffset (by simp [hturns]) (by
      rw [hturns, horientation]
      decide)
  rw [hturns, horientation] at hlaw
  exact hlaw

/-- A correction of more than a whole turn wraps around, and `TUI_ROTATION_360` does not divide
what it wraps around at. -/
example : (tuiGetPannelInfo { unfoldedPhone with
    displayOrientation := some 0, rotationCorrect := "1,9".toList } initialPanel).2.rotation = 0 ∧
      (0 + 9) % 4 ≠ (3 + 0) % 4 := by
  decide +kernel

end Rotation

end TeeClient.Tui
