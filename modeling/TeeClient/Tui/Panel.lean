import Mathlib.Tactic
import TeeClient.Types

/-! What the TUI daemon tells the secure world about the rotation of the screen, from the texts of
the system parameters (`tui_event.cpp`). -/

namespace TeeClient.Tui

abbrev Text := List Char

section Source

/-- `input.find_first_of(delimiters, start)` -/
def findFirstOf (input delimiters : Text) (start : Nat) : Option Nat :=
  ((input.drop start).findIdx? (· ∈ delimiters)).map (start + ·)

/-- The loop of `TUISplitString` with what follows it.  `start` grows in every round, so that there
are never more rounds than characters. -/
def splitFrom (input delimiters : Text) : Nat → Nat → List Text → List Text
  | 0, _, result => result
  | rounds + 1, start, result =>
    match findFirstOf input delimiters start with
    | some stop =>
      let item := (input.drop start).take (stop - start)
      splitFrom input delimiters rounds (stop + 1)
        (if stop ≠ start then result ++ [item] else result)
    | none => if start < input.length then result ++ [input.drop start] else result

def tuiSplitString (input delimiters : Text) : List Text :=
  splitFrom input delimiters (input.length + 1) 0 []

def ascii2Digit (a : Char) : Byte :=
  if '0' ≤ a ∧ a ≤ '9' then BitVec.ofNat 8 (a.toNat - '0'.toNat)
  else if 'a' ≤ a ∧ a ≤ 'f' then BitVec.ofNat 8 (a.toNat - 'a'.toNat + 10)
  else if 'A' ≤ a ∧ a ≤ 'F' then BitVec.ofNat 8 (a.toNat - 'A'.toNat + 10)
  else 0

inductive DeviceType
  | phone
  | tv
  | tablet
  | glasses
  | wearable
  | twoInOne
  | invalid
  deriving DecidableEq, Repr

def tuiGetDeviceType (deviceType : Text) : DeviceType :=
  if deviceType = "phone".toList then .phone
  else if deviceType = "tv".toList then .tv
  else if deviceType = "tablet".toList then .tablet
  else if deviceType = "glassed".toList then .glasses
  else if deviceType = "wearable".toList then .wearable
  else if deviceType = "2in1".toList then .twoInOne
  else .invalid

/-- What the display service answers and what the system parameters are: `phyRotation` is
`const.window.phyrotation.offset`, `sensorCorrectEn` is `const.system.sensor_correction_enable`,
`rotationCorrect` is `const.dms.rotation_correction`, and `foldScreenType` is
`const.window.foldscreen.type`. -/
structure Answers where
  displayReady : Bool
  displayOrientation : Option U32
  deviceType : Text
  foldDisplayMode : U32
  isFoldable : Bool
  foldStatus : U32
  phyRotation : Text
  sensorCorrectEn : Text
  rotationCorrect : Text
  foldScreenType : Text

structure Panel where
  deviceType : DeviceType
  foldState : U32
  displayMode : U32
  rotation : U32
  mTUIFoldable : Bool
  mScreenRotation : U32

def displayModeMax : U32 := 6
def foldStateExpanded : U32 := 1
def foldStateHalfFolded : U32 := 3
def foldStateExpandWithSecondExpand : U32 := 11
def foldStateExpandWithSecondHalfFolded : U32 := 21
def foldStateHalfFoldedWithSecondExpand : U32 := 13
def tuiRotate270 : U32 := 3

def adapted (degrees screenRotation : U32) : U32 := (degrees + screenRotation * 90) % 360 / 90

def tuiAdaptRotation (phyRotation : Text) (st : Panel) : Panel :=
  if phyRotation = "0".toList then { st with rotation := adapted 0 st.mScreenRotation }
  else if phyRotation = "90".toList then { st with rotation := adapted 90 st.mScreenRotation }
  else if phyRotation = "180".toList then { st with rotation := adapted 180 st.mScreenRotation }
  else if phyRotation = "270".toList then { st with rotation := adapted 270 st.mScreenRotation }
  else st

def tuiGetDisplayMode (displayMode : U32) : U32 :=
  if displayMode < displayModeMax then displayMode else 0

def tuiGetPhyScreen (screenType : Text) (foldState : U32) : Nat :=
  if screenType = "6".toList then
    if foldState = foldStateExpandWithSecondExpand then 0 else 1
  else if screenType = "8".toList then
    if foldState = foldStateExpandWithSecondHalfFolded ∨
        foldState = foldStateHalfFoldedWithSecondExpand then 1
    else 0
  else if foldState = foldStateExpanded ∨ foldState = foldStateHalfFolded then 1
  else 0

def correctOne (st : Panel) (entry : Text) : Panel :=
  match tuiSplitString entry ",".toList with
  | [mode :: _, turn :: _] =>
    if ascii2Digit mode = st.displayMode.setWidth 8 then
      { st with mScreenRotation := st.mScreenRotation + 360 / 90 - (ascii2Digit turn).setWidth 32 }
    else st
  | _ => st

def tuiSensorCorrect (rotationCorrect : Text) (st : Panel) : Panel :=
  (tuiSplitString rotationCorrect ";".toList).foldl correctOne st

def tuiGetFoldable (a : Answers) (st : Panel) : Panel :=
  { st with mTUIFoldable := a.isFoldable, foldState := if a.isFoldable then a.foldStatus else 0 }

def tuiGetRotation (a : Answers) (st : Panel) : Panel :=
  let st := { st with displayMode := tuiGetDisplayMode a.foldDisplayMode }
  let st := if a.sensorCorrectEn = "1".toList then tuiSensorCorrect a.rotationCorrect st else st
  let st := tuiGetFoldable a st
  if st.mTUIFoldable then
    let splitVec := tuiSplitString a.phyRotation ";".toList
    let phyScreen := match tuiSplitString a.foldScreenType ",".toList with
      | screenType :: _ => tuiGetPhyScreen screenType st.foldState
      | [] => 0
    match splitVec[phyScreen]? with
    | some phyRotation => tuiAdaptRotation phyRotation st
    | none => st
  else tuiAdaptRotation a.phyRotation st

/-- `TUIGetPannelInfo` without the sizes, the resolution and the notch. -/
def tuiGetPannelInfo (a : Answers) (st : Panel) : Bool × Panel :=
  if a.displayReady then
    match a.displayOrientation with
    | some orientation =>
      let st := { st with
        deviceType := tuiGetDeviceType a.deviceType, mScreenRotation := orientation }
      let st :=
        if st.deviceType = .twoInOne ∧ st.mTUIFoldable = false then
          { st with mScreenRotation :=
              if st.mScreenRotation = 0 then tuiRotate270 else st.mScreenRotation - 1 }
        else st
      (true, tuiGetRotation a st)
    | none => (false, st)
  else (false, st)

end Source

end TeeClient.Tui
