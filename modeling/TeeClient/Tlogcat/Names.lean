import Mathlib.Tactic
import TeeClient.Types

/-! The names of the log files of `tlogcat` and of their archives (`tlogcat.c`), and that no two
of them are one name. -/

namespace TeeClient.Tlogcat

abbrev Path := List Char

structure TeeUuid where
  timeLow : U32
  timeMid : BitVec 16
  timeHiAndVersion : BitVec 16
  clockSeqAndNode : Fin 8 → BitVec 8
  deriving DecidableEq

def TeeUuid.zero : TeeUuid := ⟨0, 0, 0, fun _ => 0⟩

def isTaUuid (uuid : TeeUuid) : Bool := uuid ≠ .zero

section Hex

def upperHexDigit (d : Nat) : Char := "0123456789ABCDEF".toList.getD d '0'

def upperHex : Nat → Nat → List Char
  | 0, _ => []
  | n + 1, v => upperHex n (v / 16) ++ [upperHexDigit (v % 16)]

@[simp] theorem length_upperHex (n v : Nat) : (upperHex n v).length = n := by
  induction n generalizing v with
  | zero => rfl
  | succ n ih => rw [upperHex, List.length_append, ih, List.length_singleton]

theorem upperHexDigit_inj {a b : Nat} (ha : a < 16) (hb : b < 16)
    (h : upperHexDigit a = upperHexDigit b) : a = b := by
  have hdigits : ∀ x y : Fin 16, upperHexDigit x = upperHexDigit y → x = y := by decide
  exact congrArg Fin.val (hdigits ⟨a, ha⟩ ⟨b, hb⟩ h)

theorem upperHex_inj {n a b : Nat} (ha : a < 16 ^ n) (hb : b < 16 ^ n)
    (h : upperHex n a = upperHex n b) : a = b := by
  induction n generalizing a b with
  | zero => omega
  | succ n ih =>
    rw [upperHex, upperHex] at h
    obtain ⟨hfront, hlast⟩ := List.append_inj' h rfl
    rw [pow_succ] at ha hb
    have hdiv : a / 16 = b / 16 := ih (by omega) (by omega) hfront
    have hmod : a % 16 = b % 16 := by
      apply upperHexDigit_inj (Nat.mod_lt a (by omega)) (Nat.mod_lt b (by omega))
      exact List.singleton_inj.mp hlast
    omega

theorem upperHex_toNat_inj {n w : Nat} (hw : 2 ^ w = 16 ^ n) {a b : BitVec w}
    (h : upperHex n a.toNat = upperHex n b.toNat) : a = b := by
  apply BitVec.eq_of_toNat_eq
  apply upperHex_inj _ _ h
  · rw [← hw]
    exact a.isLt
  · rw [← hw]
    exact b.isLt

theorem flatMap_blocks_inj {ι : Type} {f g : ι → List Char} (hlength : ∀ i, (f i).length = (g i).length)
    {l : List ι} (h : l.flatMap f = l.flatMap g) : ∀ i ∈ l, f i = g i := by
  induction l with
  | nil =>
    intro i hi
    cases hi
  | cons j l ih =>
    rw [List.flatMap_cons, List.flatMap_cons] at h
    obtain ⟨hj, hl⟩ := List.append_inj h (hlength j)
    intro i hi
    cases hi with
    | head => exact hj
    | tail _ hi => exact ih hl i hi

end Hex

section Uuid

def getUuidStr (uuid : TeeUuid) : List Char :=
  upperHex 8 uuid.timeLow.toNat ++ upperHex 4 uuid.timeMid.toNat ++
    upperHex 4 uuid.timeHiAndVersion.toNat ++
    (List.finRange 8).flatMap fun i => upperHex 2 (uuid.clockSeqAndNode i).toNat

theorem length_getUuidStr (u : TeeUuid) : (getUuidStr u).length = 32 := by
  simp only [getUuidStr, List.length_append, length_upperHex, List.length_flatMap]
  rfl

theorem getUuidStr_injective : Function.Injective getUuidStr := by
  intro u v h
  rw [getUuidStr, getUuidStr] at h
  obtain ⟨h, hclock⟩ := List.append_inj h (by simp only [List.length_append, length_upperHex])
  obtain ⟨h, hhi⟩ := List.append_inj h (by simp only [List.length_append, length_upperHex])
  obtain ⟨hlow, hmid⟩ := List.append_inj h (by simp only [length_upperHex])
  have hbytes := flatMap_blocks_inj (by simp only [length_upperHex, implies_true]) hclock
  cases u with
  | mk uLow uMid uHi uClock =>
    cases v with
    | mk vLow vMid vHi vClock =>
      congr 1
      · exact upperHex_toNat_inj (by decide) hlow
      · exact upperHex_toNat_inj (by decide) hmid
      · exact upperHex_toNat_inj (by decide) hhi
      · funext i
        exact upperHex_toNat_inj (by decide) (hbytes i (List.mem_finRange i))

end Uuid

section Names

structure FileNameAttr where
  uuidAscii : List Char
  isTa : Bool
  index : Nat

/-- `LogAssembleFilename`.  The indices that it is called with have one digit, so that the name
fits. -/
def logAssembleFilename (logPath : Path) (nameAttr : FileNameAttr) : Path :=
  if nameAttr.isTa then
    logPath ++ "LOG@".toList ++ nameAttr.uuidAscii ++ '-' :: Nat.toDigits 10 nameAttr.index
  else logPath ++ "teeOS_log".toList ++ '-' :: Nat.toDigits 10 nameAttr.index

def logAssembleCompressFilename (logPath : Path) (nameAttr : FileNameAttr) : Path :=
  if nameAttr.isTa then
    logPath ++ "LOG@".toList ++ nameAttr.uuidAscii ++ '-' :: Nat.toDigits 10 nameAttr.index ++
      ".tar.gz".toList
  else logPath ++ "teeos-log".toList ++ '-' :: Nat.toDigits 10 nameAttr.index ++ ".tar.gz".toList

def teeTempPath (teePath : Path) : Path := teePath ++ "/_tmp/".toList

def attrOf (u : TeeUuid) (i : Nat) : FileNameAttr := ⟨getUuidStr u, isTaUuid u, i⟩

def logFile (dir : Path) (u : TeeUuid) (i : Nat) : Path := logAssembleFilename dir (attrOf u i)

/-- `X-i.tar.gz` -/
def archiveFile (dir : Path) (u : TeeUuid) (i : Nat) : Path :=
  logAssembleCompressFilename dir (attrOf u i)

theorem toDigits_inj {i j : Nat} (h : Nat.toDigits 10 i = Nat.toDigits 10 j) : i = j := by
  rw [← Nat.ofDigitChars_ten_toDigits (n := i), h, Nat.ofDigitChars_ten_toDigits]

def stem (ta tee : List Char) (u : TeeUuid) (i : Nat) : List Char :=
  (if isTaUuid u then ta ++ getUuidStr u else tee) ++ '-' :: Nat.toDigits 10 i

theorem logFile_eq (dir : Path) (u : TeeUuid) (i : Nat) :
    logFile dir u i = dir ++ stem "LOG@".toList "teeOS_log".toList u i := by
  simp only [logFile, logAssembleFilename, attrOf, stem]
  by_cases h : isTaUuid u
  · simp only [if_pos h, List.append_assoc]
  · simp only [if_neg h, List.append_assoc]

theorem archiveFile_eq (dir : Path) (u : TeeUuid) (i : Nat) :
    archiveFile dir u i =
      dir ++ (stem "LOG@".toList "teeos-log".toList u i ++ ".tar.gz".toList) := by
  simp only [archiveFile, logAssembleCompressFilename, attrOf, stem]
  by_cases h : isTaUuid u
  · simp only [if_pos h, List.append_assoc]
  · simp only [if_neg h, List.append_assoc]

theorem head?_stem {ta tee : List Char} {a b : Char} (hta : ta.head? = some a)
    (htee : tee.head? = some b) (u : TeeUuid) (i : Nat) :
    (stem ta tee u i).head? = some (if isTaUuid u then a else b) := by
  cases hisTa : isTaUuid u with
  | true => simp only [stem, hisTa, if_true, List.head?_append, hta, Option.some_or]
  | false =>
    simp only [stem, hisTa, Bool.false_eq_true, if_false, List.head?_append, htee, Option.some_or]

theorem stem_inj {ta tee : List Char} {a b : Char} (hta : ta.head? = some a)
    (htee : tee.head? = some b) (hab : a ≠ b) {u v : TeeUuid} {i j : Nat}
    (h : stem ta tee u i = stem ta tee v j) : u = v ∧ i = j := by
  have hhead := congrArg List.head? h
  rw [head?_stem hta htee, head?_stem hta htee, Option.some.injEq] at hhead
  cases hu : isTaUuid u with
  | true =>
    cases hv : isTaUuid v with
    | true =>
      rw [stem, stem, hu, hv, if_pos rfl, if_pos rfl, List.append_assoc, List.append_assoc] at h
      have hlength : (getUuidStr u).length = (getUuidStr v).length := by
        rw [length_getUuidStr, length_getUuidStr]
      obtain ⟨huuid, hindex⟩ := List.append_inj (List.append_cancel_left h) hlength
      exact ⟨getUuidStr_injective huuid, toDigits_inj (List.cons.inj hindex).2⟩
    | false =>
      rw [hu, hv, if_pos rfl, if_neg Bool.false_ne_true] at hhead
      exact absurd hhead hab
  | false =>
    cases hv : isTaUuid v with
    | true =>
      rw [hu, hv, if_neg Bool.false_ne_true, if_pos rfl] at hhead
      exact absurd hhead.symm hab
    | false =>
      rw [stem, stem, hu, hv, if_neg Bool.false_ne_true] at h
      have hzero : u = .zero ∧ v = .zero := by
        rw [isTaUuid, decide_eq_false_iff_not, not_not] at hu hv
        exact ⟨hu, hv⟩
      have hindex := List.append_cancel_left h
      exact ⟨hzero.1.trans hzero.2.symm, toDigits_inj (List.cons.inj hindex).2⟩

end Names

section Distinct

variable {dir : Path} {u v : TeeUuid} {i j : Nat}

@[simp] theorem logFile_inj : logFile dir u i = logFile dir v j ↔ u = v ∧ i = j := by
  constructor
  · intro h
    rw [logFile_eq, logFile_eq] at h
    have hne : 'L' ≠ 't' := by decide
    exact stem_inj (by decide) (by decide) hne (List.append_cancel_left h)
  · rintro ⟨rfl, rfl⟩
    rfl

@[simp] theorem archiveFile_inj : archiveFile dir u i = archiveFile dir v j ↔ u = v ∧ i = j := by
  constructor
  · intro h
    rw [archiveFile_eq, archiveFile_eq] at h
    have hne : 'L' ≠ 't' := by decide
    have hstem := List.append_cancel_right (List.append_cancel_left h)
    exact stem_inj (by decide) (by decide) hne hstem
  · rintro ⟨rfl, rfl⟩
    rfl

@[simp] theorem logFile_ne_archiveFile : logFile dir u i ≠ archiveFile dir v j := by
  intro h
  have hlast := congrArg List.getLast? h
  have harchive : (archiveFile dir v j).getLast? = some 'z' := by
    have hz : ".tar.gz".toList.getLast? = some 'z' := by decide
    rw [archiveFile_eq, List.getLast?_append, List.getLast?_append, hz, Option.some_or, Option.some_or]
  obtain ⟨c, hc⟩ : ∃ c, (Nat.toDigits 10 i).getLast? = some c :=
    ⟨_, List.getLast?_eq_some_getLast Nat.toDigits_ne_nil⟩
  have hlog : (logFile dir u i).getLast? = some c := by
    rw [logFile_eq, stem, List.getLast?_append, List.getLast?_append, List.getLast?_cons, hc]
    rfl
  rw [hlog, harchive] at hlast
  have hdigit : c.isDigit := Nat.isDigit_of_mem_toDigits (by decide) (by decide)
    (List.mem_of_getLast? hc)
  rw [Option.some.inj hlast] at hdigit
  exact absurd hdigit (by decide)

@[simp] theorem archiveFile_ne_logFile : archiveFile dir u i ≠ logFile dir v j :=
  fun h => logFile_ne_archiveFile h.symm

theorem not_prefix_of_head? {rest : List Char} {c : Char} (hrest : rest.head? = some c)
    (hc : c ≠ '/') : ¬ teeTempPath dir <+: dir ++ rest := by
  intro h
  rw [teeTempPath, List.prefix_append_right_inj] at h
  obtain ⟨tail, htail⟩ := h
  have hhead := congrArg List.head? htail
  rw [hrest] at hhead
  exact hc (Option.some.inj hhead).symm

@[simp] theorem not_prefix_logFile : ¬ teeTempPath dir <+: logFile dir u i := by
  have hhead : (stem "LOG@".toList "teeOS_log".toList u i).head? =
      some (if isTaUuid u then 'L' else 't') := head?_stem (by decide) (by decide) u i
  rw [logFile_eq]
  apply not_prefix_of_head? hhead
  cases isTaUuid u with
  | true => decide
  | false => decide

@[simp] theorem not_prefix_archiveFile : ¬ teeTempPath dir <+: archiveFile dir u i := by
  have hhead : (stem "LOG@".toList "teeos-log".toList u i).head? =
      some (if isTaUuid u then 'L' else 't') := head?_stem (by decide) (by decide) u i
  rw [archiveFile_eq]
  apply not_prefix_of_head? (c := if isTaUuid u then 'L' else 't')
  · rw [List.head?_append, hhead, Option.some_or]
  · cases isTaUuid u with
    | true => decide
    | false => decide

@[simp] theorem prefix_tempFile : teeTempPath dir <+: logFile (teeTempPath dir) u i := by
  rw [logFile_eq]
  exact List.prefix_append _ _

@[simp] theorem tempFile_ne_logFile : logFile (teeTempPath dir) u i ≠ logFile dir v j := by
  intro h
  have hprefix : teeTempPath dir <+: logFile (teeTempPath dir) u i := prefix_tempFile
  rw [h] at hprefix
  exact not_prefix_logFile hprefix

@[simp] theorem tempFile_ne_archiveFile : logFile (teeTempPath dir) u i ≠ archiveFile dir v j := by
  intro h
  have hprefix : teeTempPath dir <+: logFile (teeTempPath dir) u i := prefix_tempFile
  rw [h] at hprefix
  exact not_prefix_archiveFile hprefix

@[simp] theorem logFile_ne_tempFile : logFile dir u i ≠ logFile (teeTempPath dir) v j :=
  fun h => tempFile_ne_logFile h.symm

@[simp] theorem archiveFile_ne_tempFile : archiveFile dir u i ≠ logFile (teeTempPath dir) v j :=
  fun h => tempFile_ne_archiveFile h.symm

end Distinct

end TeeClient.Tlogcat
