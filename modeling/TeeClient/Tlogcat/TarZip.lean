import Mathlib.Data.List.DropRight
import Mathlib.Data.List.TakeWhile
import Mathlib.Tactic
import TeeClient.Lib.Tar

/-! The archive of the log files (`tarzip.c`), before it is compressed; `gzwrite` writes all that
it gets. -/

namespace TeeClient.Tlogcat.TarZip

open Tar
open ByteMemory (Bytes)

def headerNum : Nat := 512
def checkSumAppend : Nat := 256
def nameLen : Nat := 100
def fileModeLen : Nat := 8
def uidLen : Nat := 8
def gidLen : Nat := 8
def fileSize : Nat := 12
def unixTimeLen : Nat := 12
def checkSumLen : Nat := 8
def fileNameInvalidLen : Nat := 8
def logFileIndexMax : Nat := 4
def slash : BitVec 8 := 0x2F

def fileMode : Bytes := [0x31, 0x30, 0x30, 0x36, 0x36, 0x36, 0x20, 0]

def idByte : Bytes :=
  [0x20, 0x20, 0x20, 0x20, 0x20, 0x30, 0x20, 0x00, 0x20, 0x20, 0x20, 0x20, 0x20, 0x30, 0x20, 0x00]

section Header

/-- A `char` as an `int32_t`; whether it is signed depends on the target. -/
def charInt (signed : Bool) (c : BitVec 8) : Int := if signed then c.toInt else c.toNat

def writeOneUint (signed : Bool) (startIndex unitLen : Nat) (input ouput : Bytes) : Int × Bytes :=
  (((input.take unitLen).map (charInt signed)).sum,
    ouput.take startIndex ++ input.take unitLen ++ ouput.drop (startIndex + unitLen))

def snprintfOctal (buf : Bytes) (n : Nat) : Option Bytes :=
  if buf.length ≤ (octal n).length then none
  else some (octal n ++ 0 :: buf.drop ((octal n).length + 1))

def writeHeader (signed : Bool) (header fileName : Bytes) (size : Nat) : Bytes :=
  if size = 0 then header
  else
    let len := if nameLen ≤ fileName.length then nameLen - 1 else fileName.length
    let (sumName, index) := writeOneUint signed 0 len fileName header
    let j := nameLen
    let (sumMode, index) := writeOneUint signed j fileModeLen fileMode index
    let j := j + fileModeLen
    let (sumId, index) := writeOneUint signed j (uidLen + gidLen) idByte index
    let j := j + (uidLen + gidLen)
    match snprintfOctal (List.replicate fileSize 0) (size % 2 ^ 32) with
    | none => index
    | some buf =>
      let (sumSize, index) := writeOneUint signed j fileSize buf index
      let j := j + (fileSize + unixTimeLen)
      let sumAppend := sumName + sumMode + sumId + sumSize + checkSumAppend
      -- the checksum is printed over the size, whose last digits stay behind it
      match snprintfOctal buf (BitVec.ofInt 32 sumAppend).toNat with
      | none => index
      | some buf => (writeOneUint signed j checkSumLen buf index).2

end Header

section Files

structure LogFile where
  regular : Bool
  size : Nat
  opened : Bool
  reads : Nat → Option Bytes

def writeBlocks (reads : Nat → Option Bytes) (i temFileSize : Nat) : Bytes :=
  if temFileSize = 0 then []
  else
    match reads i with
    | none => []
    | some bytes =>
      bytes ++ List.replicate (headerNum - bytes.length) 0 ++
        writeBlocks reads (i + 1) (temFileSize - headerNum)
termination_by temFileSize
decreasing_by
  simp only [headerNum] at *
  omega

def writeZipContent (file : LogFile) : Bytes :=
  if file.size = 0 ∨ file.opened = false then [] else writeBlocks file.reads 0 file.size

def judgeFileValidite (lstat : Bytes → Option LogFile) (index : Bytes) : Option LogFile :=
  (lstat index).filter (·.regular)

def baseName (path : Bytes) : Bytes := path.rtakeWhile (· ≠ slash)

/-- `strrchr(fileName, '/')` -/
def strrchr (fileName : Bytes) : Option Bytes :=
  if fileName.contains slash then some (slash :: baseName fileName) else none

/-- `WriteSingleFile`: what it writes, or `none` where it returns -1. -/
def writeSingleFile (signed : Bool) (lstat : Bytes → Option LogFile) (fileName : Bytes) :
    Option Bytes :=
  match judgeFileValidite lstat fileName with
  | none => some []
  | some file =>
    match strrchr fileName with
    | none => none
    | some s1 =>
      if s1.length < fileNameInvalidLen then none
      else
        some (writeHeader signed (List.replicate headerNum 0) (s1.drop 1) file.size ++
          writeZipContent file)

def zipFiles (signed : Bool) (lstat : Bytes → Option LogFile) : List (Option Bytes) → Bytes
  | [] => List.replicate headerNum 0
  | none :: names => zipFiles signed lstat names
  | some fileName :: names =>
    match writeSingleFile signed lstat fileName with
    | none => []
    | some bytes => bytes ++ zipFiles signed lstat names

/-- `TarZipFiles`: the stream, if one is written; `opened` is how `OpenZipFile` goes. -/
def tarZipFiles (signed opened : Bool) (lstat : Bytes → Option LogFile)
    (inputNames : List (Option Bytes)) : Option Bytes :=
  if inputNames.length ≠ logFileIndexMax then none
  else if opened then some (zipFiles signed lstat inputNames) else none

end Files

section Specification

structure ReadsCompletely (file : LogFile) (content : Bytes) : Prop where
  opened : file.opened = true
  size : file.size = content.length
  reads : ∀ i, file.reads i = some ((content.drop (headerNum * i)).take headerNum)

structure Archivable (path : Bytes) (file : LogFile) (content : Bytes) : Prop where
  ascii : ∀ c ∈ baseName path, 0 < c.toNat ∧ c.toNat < 128
  long : 7 ≤ (baseName path).length
  size_pos : 0 < content.length
  size_lt : content.length < 2 ^ 32
  complete : ReadsCompletely file content

def archived (lstat : Bytes → Option LogFile) (content : Bytes → Bytes) (path : Bytes) :
    Option Entry :=
  (judgeFileValidite lstat path).map fun _ =>
    ⟨(baseName path).take (nameLen - 1), (content path).length, content path⟩

end Specification

section Sums

variable {signed : Bool} {bs bs' : Bytes}

@[simp] theorem sumBytes_append (bs bs' : Bytes) : sumBytes (bs ++ bs') = sumBytes bs + sumBytes bs' := by
  rw [sumBytes, List.map_append, List.sum_append]
  rfl

@[simp] theorem sumBytes_zeros (n : Nat) : sumBytes (List.replicate n 0) = 0 := by
  simp [sumBytes]

theorem sumBytes_le (bs : Bytes) : sumBytes bs ≤ 255 * bs.length := by
  induction bs with
  | nil => rfl
  | cons b bs ih =>
    have hb := b.isLt
    rw [sumBytes, List.map_cons, List.sum_cons, List.length_cons]
    rw [sumBytes] at ih
    omega

theorem sum_charInt (signed : Bool) (h : ∀ c ∈ bs, c.toNat < 128) :
    (bs.map (charInt signed)).sum = sumBytes bs := by
  induction bs with
  | nil => rfl
  | cons b bs ih =>
    obtain ⟨hb, hbs⟩ := List.forall_mem_cons.mp h
    have hchar : charInt signed b = b.toNat := by
      cases signed with
      | false => rfl
      | true => exact BitVec.toInt_eq_toNat_of_lt (by omega)
    rw [List.map_cons, List.sum_cons, hchar, ih hbs, sumBytes, sumBytes, List.map_cons,
      List.sum_cons, Nat.cast_add]

end Sums

section Layout

variable {signed : Bool} {name buf checkSum input written : Bytes} {n k : Nat}

def zeros (n : Nat) : Bytes := List.replicate n 0

@[simp] theorem length_zeros (n : Nat) : (zeros n).length = n := List.length_replicate

theorem zeros_add (n k : Nat) : zeros (n + k) = zeros n ++ zeros k := List.replicate_add n k 0

theorem zeros_of_pos (h : 0 < n) : zeros n = 0 :: zeros (n - 1) := by
  obtain ⟨k, rfl⟩ := Nat.exists_eq_succ_of_ne_zero h.ne'
  exact List.replicate_succ

def headerOf (name buf checkSum : Bytes) : Bytes :=
  (name ++ zeros (nameLen - name.length)) ++ (fileMode ++ (idByte ++ (buf ++ (zeros unixTimeLen ++
    (checkSum ++ zeros 356)))))

theorem writeOneUint_zeros {startIndex unitLen : Nat} (hstart : written.length = startIndex)
    (k : Nat) :
    writeOneUint signed startIndex unitLen input (written ++ zeros (unitLen + k)) =
      (((input.take unitLen).map (charInt signed)).sum,
        written ++ input.take unitLen ++ zeros k) := by
  have hlen : (written ++ zeros unitLen).length = startIndex + unitLen := by
    rw [List.length_append, length_zeros, hstart]
  rw [writeOneUint, List.take_left' hstart, zeros_add, ← List.append_assoc, List.drop_left' hlen]

def sizeField (n : Nat) : Bytes := octal n ++ zeros (fileSize - (octal n).length)

def checkSumField (size sum : Nat) : Bytes :=
  octal sum ++ 0 :: (sizeField size).drop ((octal sum).length + 1)

theorem length_octal_size (h : n < 2 ^ 32) : (octal n).length ≤ 11 :=
  length_octal_le (h.trans (by decide)) (by decide)

theorem length_sizeField (h : n < 2 ^ 32) : (sizeField n).length = fileSize := by
  have hle := length_octal_size h
  rw [sizeField, List.length_append, length_zeros, fileSize]
  omega

theorem snprintfOctal_size (h : n < 2 ^ 32) :
    snprintfOctal (List.replicate fileSize 0) n = some (sizeField n) := by
  have hle := length_octal_size h
  have hsub : fileSize - (octal n).length = fileSize - ((octal n).length + 1) + 1 := by
    rw [fileSize]
    omega
  rw [snprintfOctal, List.length_replicate, if_neg (by rw [fileSize]; omega), List.drop_replicate,
    sizeField, hsub, zeros, List.replicate_succ]

theorem ascii_octal (n : Nat) : ∀ c ∈ octal n, c.toNat < 128 := by
  intro c hc
  have hdigit := (isOctalDigit_of_mem hc).2
  omega

theorem ascii_sizeField (n : Nat) : ∀ c ∈ sizeField n, c.toNat < 128 := by
  intro c hc
  rcases List.mem_append.mp hc with hc | hc
  · exact ascii_octal n c hc
  · rw [List.eq_of_mem_replicate hc]
    decide

def checkSumOf (name : Bytes) (size : Nat) : Nat :=
  sumBytes name + sumBytes fileMode + sumBytes idByte + sumBytes (sizeField size) + checkSumAppend

theorem checkSumOf_lt (hname : name.length ≤ nameLen) (hsize : n < 2 ^ 32) :
    checkSumOf name n < 8 ^ 7 := by
  have hname' := sumBytes_le name
  have hsize' := sumBytes_le (sizeField n)
  have hmode : sumBytes fileMode = 339 := by decide
  have hid : sumBytes idByte = 480 := by decide
  rw [length_sizeField hsize] at hsize'
  rw [checkSumOf, hmode, hid]
  simp only [nameLen, fileSize, checkSumAppend] at *
  omega

theorem snprintfOctal_checkSum (hname : name.length ≤ nameLen) (hsize : n < 2 ^ 32) :
    snprintfOctal (sizeField n) (checkSumOf name n) =
      some (checkSumField n (checkSumOf name n)) := by
  have hle := length_octal_le (checkSumOf_lt hname hsize) (by decide)
  rw [snprintfOctal, length_sizeField hsize, if_neg (by rw [fileSize]; omega), checkSumField]

theorem length_fileMode : fileMode.length = fileModeLen := rfl

theorem length_idByte : idByte.length = uidLen + gidLen := rfl

theorem writeOneUint_field {startIndex unitLen : Nat} (signed : Bool)
    (hstart : written.length = startIndex) (hinput : input.length = unitLen)
    (hascii : ∀ c ∈ input, c.toNat < 128) (k : Nat) :
    writeOneUint signed startIndex unitLen input (written ++ zeros (unitLen + k)) =
      ((sumBytes input : Int), written ++ input ++ zeros k) := by
  rw [writeOneUint_zeros hstart, List.take_of_length_le hinput.le, sum_charInt signed hascii]

theorem writeOneUint_name (signed : Bool) (hascii : ∀ c ∈ name, c.toNat < 128) :
    writeOneUint signed 0 (if nameLen ≤ name.length then nameLen - 1 else name.length) name
        (List.replicate headerNum 0) =
      ((sumBytes (name.take (nameLen - 1)) : Int),
        name.take (nameLen - 1) ++ zeros (nameLen - (name.take (nameLen - 1)).length) ++
          zeros (fileModeLen + 404)) := by
  have htake : name.take (if nameLen ≤ name.length then nameLen - 1 else name.length) =
      name.take (nameLen - 1) := by
    split_ifs with hlong
    · rfl
    · rw [List.take_of_length_le le_rfl, List.take_of_length_le (by omega)]
  have hlen : (if nameLen ≤ name.length then nameLen - 1 else name.length) =
      (name.take (nameLen - 1)).length := by
    rw [List.length_take]
    split_ifs <;> omega
  have hnum : headerNum = (name.take (nameLen - 1)).length +
      (nameLen - (name.take (nameLen - 1)).length + (fileModeLen + 404)) := by
    have hle : (name.take (nameLen - 1)).length ≤ nameLen - 1 := List.length_take_le _ _
    simp only [headerNum, nameLen, fileModeLen] at *
    omega
  have hzeros : List.replicate headerNum 0 = [] ++ zeros ((name.take (nameLen - 1)).length +
      (nameLen - (name.take (nameLen - 1)).length + (fileModeLen + 404))) := congrArg zeros hnum
  have hstart : ([] : Bytes).length = 0 := rfl
  have hchars : ∀ c ∈ name.take (nameLen - 1), c.toNat < 128 := fun c hc =>
    hascii c (List.mem_of_mem_take hc)
  rw [hlen, hzeros, writeOneUint_zeros hstart, ← hlen, htake, sum_charInt signed hchars,
    List.nil_append, zeros_add, List.append_assoc]

theorem writeHeader_eq (signed : Bool) (hascii : ∀ c ∈ name, c.toNat < 128) (hpos : 0 < n)
    (hlt : n < 2 ^ 32) :
    writeHeader signed (List.replicate headerNum 0) name n =
      headerOf (name.take (nameLen - 1)) (sizeField n)
        ((checkSumField n (checkSumOf (name.take (nameLen - 1)) n)).take checkSumLen) := by
  have hle : (name.take (nameLen - 1)).length ≤ nameLen :=
    (List.length_take_le _ _).trans (Nat.sub_le _ _)
  generalize hname : name.take (nameLen - 1) ++ zeros (nameLen - (name.take (nameLen - 1)).length) =
    field
  have hfield : field.length = nameLen := by
    rw [← hname, List.length_append, length_zeros, Nat.add_sub_cancel' hle]
  have hmode : writeOneUint signed nameLen fileModeLen fileMode (field ++ zeros (fileModeLen + 404)) =
      ((sumBytes fileMode : Int), field ++ fileMode ++ zeros (uidLen + gidLen + 388)) :=
    writeOneUint_field signed hfield length_fileMode (by decide) 404
  have hid : writeOneUint signed (nameLen + fileModeLen) (uidLen + gidLen) idByte
      (field ++ fileMode ++ zeros (uidLen + gidLen + 388)) =
      ((sumBytes idByte : Int), field ++ fileMode ++ idByte ++ zeros (fileSize + 376)) :=
    writeOneUint_field signed (by rw [List.length_append, hfield, length_fileMode]) length_idByte
      (by decide) 388
  have hsize : writeOneUint signed (nameLen + fileModeLen + (uidLen + gidLen)) fileSize (sizeField n)
      (field ++ fileMode ++ idByte ++ zeros (fileSize + 376)) =
      ((sumBytes (sizeField n) : Int), field ++ fileMode ++ idByte ++ sizeField n ++ zeros 376) :=
    writeOneUint_field signed
      (by rw [List.length_append, List.length_append, hfield, length_fileMode, length_idByte])
      (length_sizeField hlt) (ascii_sizeField n) 376
  have hsum : (BitVec.ofInt 32 ((sumBytes (name.take (nameLen - 1)) : Int) + sumBytes fileMode +
      sumBytes idByte + sumBytes (sizeField n) + checkSumAppend)).toNat =
      checkSumOf (name.take (nameLen - 1)) n := by
    have hcast : (sumBytes (name.take (nameLen - 1)) : Int) + sumBytes fileMode +
        sumBytes idByte + sumBytes (sizeField n) + checkSumAppend =
        (checkSumOf (name.take (nameLen - 1)) n : Nat) := by
      simp only [checkSumOf, Nat.cast_add]
    have hsmall := (checkSumOf_lt hle hlt).trans (by decide : 8 ^ 7 < 2 ^ 32)
    rw [hcast, BitVec.ofInt_natCast, BitVec.toNat_ofNat, Nat.mod_eq_of_lt hsmall]
  have hzeros : zeros 376 = zeros unixTimeLen ++ zeros (checkSumLen + 356) :=
    zeros_add unixTimeLen (checkSumLen + 356)
  have hlast : field ++ fileMode ++ idByte ++ sizeField n ++ zeros 376 =
      (field ++ fileMode ++ idByte ++ sizeField n ++ zeros unixTimeLen) ++
        zeros (checkSumLen + 356) := by
    rw [hzeros, List.append_assoc _ (zeros unixTimeLen)]
  have hstart : (field ++ fileMode ++ idByte ++ sizeField n ++ zeros unixTimeLen).length =
      nameLen + fileModeLen + (uidLen + gidLen) + (fileSize + unixTimeLen) := by
    simp only [List.length_append, hfield, length_fileMode, length_idByte, length_sizeField hlt,
      length_zeros, Nat.add_assoc]
  have hfirst := writeOneUint_name signed hascii
  rw [hname] at hfirst
  rw [writeHeader, if_neg hpos.ne', Nat.mod_eq_of_lt hlt]
  simp only [hfirst, hmode, hid, snprintfOctal_size hlt, hsize, hsum, snprintfOctal_checkSum hle hlt]
  rw [hlast, writeOneUint_zeros hstart, headerOf, hname]
  simp only [List.append_assoc]

end Layout

section HeaderFields

variable {name buf checkSum : Bytes} {n : Nat}

theorem length_headerOf (hname : name.length ≤ nameLen) (hbuf : buf.length = fileSize)
    (hsum : checkSum.length = checkSumLen) : (headerOf name buf checkSum).length = blockSize := by
  simp only [headerOf, List.length_append, length_zeros, length_fileMode, length_idByte, hbuf, hsum,
    Nat.add_sub_cancel' hname]
  rfl

theorem field_name (hname : name.length ≤ nameLen) (buf checkSum : Bytes) :
    field (headerOf name buf checkSum) 0 nameLen = name ++ zeros (nameLen - name.length) := by
  rw [field, List.drop_zero, headerOf, List.take_left']
  rw [List.length_append, length_zeros, Nat.add_sub_cancel' hname]

theorem drop_headerOf (hname : name.length ≤ nameLen) :
    (headerOf name buf checkSum).drop 124 =
      buf ++ (zeros unixTimeLen ++ (checkSum ++ zeros 356)) := by
  have hlen : (name ++ zeros (nameLen - name.length) ++ fileMode ++ idByte).length = 124 := by
    simp only [List.length_append, length_zeros, length_fileMode, length_idByte,
      Nat.add_sub_cancel' hname]
    rfl
  rw [headerOf, ← List.append_assoc, ← List.append_assoc, List.drop_left' hlen]

theorem field_size (hname : name.length ≤ nameLen) (hbuf : buf.length = fileSize) :
    field (headerOf name buf checkSum) 124 12 = buf := by
  rw [field, drop_headerOf hname]
  exact List.take_left' hbuf

theorem drop_checkSum (hname : name.length ≤ nameLen) (hbuf : buf.length = fileSize) :
    (headerOf name buf checkSum).drop 148 = checkSum ++ zeros 356 := by
  have hlen : (buf ++ zeros unixTimeLen).length = 24 := by
    rw [List.length_append, length_zeros, hbuf]
    rfl
  have hadd : 148 = 124 + 24 := rfl
  rw [hadd, ← List.drop_drop, drop_headerOf hname, ← List.append_assoc, List.drop_left' hlen]

theorem field_checkSum (hname : name.length ≤ nameLen) (hbuf : buf.length = fileSize)
    (hsum : checkSum.length = checkSumLen) : field (headerOf name buf checkSum) 148 8 = checkSum := by
  rw [field, drop_checkSum hname hbuf]
  exact List.take_left' hsum

theorem headerSum_headerOf (hname : name.length ≤ nameLen)
    (hsum : checkSum.length = checkSumLen) (hsize : n < 2 ^ 32) :
    headerSum (headerOf name (sizeField n) checkSum) = checkSumOf name n := by
  have hbuf := length_sizeField hsize
  have hfront : (headerOf name (sizeField n) checkSum).take 148 =
      name ++ zeros (nameLen - name.length) ++ fileMode ++ idByte ++ sizeField n ++
        zeros unixTimeLen := by
    have hlen : (name ++ zeros (nameLen - name.length) ++ fileMode ++ idByte ++ sizeField n ++
        zeros unixTimeLen).length = 148 := by
      simp only [List.length_append, length_zeros, length_fileMode, length_idByte, hbuf,
        Nat.add_sub_cancel' hname]
      rfl
    have happ : headerOf name (sizeField n) checkSum =
        name ++ zeros (nameLen - name.length) ++ fileMode ++ idByte ++ sizeField n ++
          zeros unixTimeLen ++ (checkSum ++ zeros 356) := by
      simp only [headerOf, List.append_assoc]
    rw [happ, List.take_left' hlen]
  have hback : (headerOf name (sizeField n) checkSum).drop 156 = zeros 356 := by
    have hadd : 156 = 148 + 8 := rfl
    rw [hadd, ← List.drop_drop, drop_checkSum hname hbuf]
    exact List.drop_left' hsum
  have hzero (k : Nat) : sumBytes (zeros k) = 0 := sumBytes_zeros k
  rw [headerSum, hfront, hback]
  simp only [sumBytes_append, hzero, checkSumOf, checkSumAppend, Nat.add_zero]

end HeaderFields

section Contents

variable {file : LogFile} {path content : Bytes} {lstat : Bytes → Option LogFile}

theorem writeBlocks_eq {reads : Nat → Option Bytes}
    (hreads : ∀ i, reads i = some ((content.drop (headerNum * i)).take headerNum)) (i : Nat) :
    writeBlocks reads i (content.length - headerNum * i) = pad (content.drop (headerNum * i)) := by
  induction hleft : content.length - headerNum * i using Nat.strong_induction_on generalizing i with
  | _ left ih =>
    rw [writeBlocks]
    by_cases hzero : left = 0
    · have hnil : content.drop (headerNum * i) = [] := List.drop_eq_nil_iff.mpr (by omega)
      rw [if_pos hzero, hnil, pad_nil]
    · have hne : content.drop (headerNum * i) ≠ [] := by
        rw [Ne, List.drop_eq_nil_iff]
        omega
      have hnext : headerNum * (i + 1) = headerNum * i + headerNum := Nat.mul_succ _ _
      have hpos : 0 < headerNum := by decide
      rw [if_neg hzero, hreads, pad_eq_append hne, List.drop_drop]
      dsimp only
      rw [ih (left - headerNum) (by omega) (i + 1) (by omega), hnext]
      rfl

theorem writeZipContent_eq (hpos : 0 < content.length) (h : ReadsCompletely file content) :
    writeZipContent file = pad content := by
  have hgo : ¬ (file.size = 0 ∨ file.opened = false) := by
    rw [h.size, h.opened]
    rintro (hzero | hclosed)
    · omega
    · cases hclosed
  rw [writeZipContent, if_neg hgo, h.size]
  exact writeBlocks_eq h.reads 0

theorem decode_file (signed : Bool) (h : Archivable path file content) (rest : Bytes) :
    decode (writeHeader signed (List.replicate headerNum 0) (baseName path) file.size ++
        (writeZipContent file ++ rest)) =
      (decode rest).map (⟨(baseName path).take (nameLen - 1), content.length, content⟩ :: ·) := by
  have hascii : ∀ c ∈ baseName path, c.toNat < 128 := fun c hc => (h.ascii c hc).2
  have hname : ((baseName path).take (nameLen - 1)).length ≤ nameLen :=
    (List.length_take_le _ _).trans (Nat.sub_le _ _)
  have hbuf := length_sizeField h.size_lt
  generalize hsum : checkSumOf ((baseName path).take (nameLen - 1)) content.length = sum
  have hsumLen : (octal sum).length ≤ 7 :=
    length_octal_le (hsum ▸ checkSumOf_lt hname h.size_lt) (by decide)
  have hchk : (checkSumField content.length sum).take checkSumLen =
      octal sum ++ 0 :: ((sizeField content.length).drop ((octal sum).length + 1)).take
        (checkSumLen - (octal sum).length - 1) := by
    obtain ⟨k, hk⟩ : ∃ k, checkSumLen - (octal sum).length = k + 1 :=
      ⟨7 - (octal sum).length, by rw [checkSumLen]; omega⟩
    rw [checkSumField, List.take_append, List.take_of_length_le (by rw [checkSumLen]; omega), hk,
      List.take_succ_cons, Nat.add_sub_cancel]
  have hchkLen : ((checkSumField content.length sum).take checkSumLen).length = checkSumLen := by
    apply List.length_take_of_le
    rw [checkSumField, List.length_append, List.length_cons, List.length_drop, hbuf, fileSize,
      checkSumLen]
    omega
  rw [writeZipContent_eq h.size_pos h.complete, h.complete.size,
    writeHeader_eq signed hascii h.size_pos h.size_lt, hsum, decode_append]
  · have hfield := field_name hname (sizeField content.length)
      ((checkSumField content.length sum).take checkSumLen)
    have hshort : 0 < nameLen - ((baseName path).take (nameLen - 1)).length := by
      have hle : ((baseName path).take (nameLen - 1)).length ≤ nameLen - 1 := List.length_take_le _ _
      rw [nameLen] at *
      omega
    have htext : ∀ c ∈ (baseName path).take (nameLen - 1), c ≠ 0 := by
      rintro c hc rfl
      exact absurd (h.ascii 0 (List.mem_of_mem_take hc)).1 (by decide)
    rw [zeros_of_pos hshort] at hfield
    have hdecoded : (field (headerOf ((baseName path).take (nameLen - 1)) (sizeField content.length)
        ((checkSumField content.length sum).take checkSumLen)) 0 100).takeWhile (· ≠ 0) =
        (baseName path).take (nameLen - 1) :=
      (congrArg (List.takeWhile (· ≠ 0)) hfield).trans (takeWhile_text htext _)
    rw [hdecoded]
  · exact length_headerOf hname hbuf hchkLen
  · have hroom : 0 < fileSize - (octal content.length).length := by
      have hle := length_octal_size h.size_lt
      rw [fileSize]
      omega
    rw [field_size hname hbuf, sizeField, zeros_of_pos hroom, parseOctal_octal]
  · rw [field_checkSum hname hbuf hchkLen, headerSum_headerOf hname hchkLen h.size_lt, hsum, hchk,
      parseOctal_octal]

theorem writeSingleFile_none (signed : Bool) (hfile : judgeFileValidite lstat path = none) :
    writeSingleFile signed lstat path = some [] := by
  rw [writeSingleFile, hfile]

theorem writeSingleFile_some (signed : Bool) (hfile : judgeFileValidite lstat path = some file)
    (hslash : slash ∈ path) (hlong : 7 ≤ (baseName path).length) :
    writeSingleFile signed lstat path =
      some (writeHeader signed (List.replicate headerNum 0) (baseName path) file.size ++
        writeZipContent file) := by
  have hlen : ¬ (slash :: baseName path).length < fileNameInvalidLen := by
    rw [List.length_cons, fileNameInvalidLen]
    omega
  rw [writeSingleFile, hfile, strrchr, if_pos (List.contains_iff_mem.mpr hslash)]
  dsimp only
  rw [if_neg hlen]
  rfl

/-- By induction over the paths: the stream is the entries of the files that are there. -/
theorem decode_zipFiles (signed : Bool) (content : Bytes → Bytes) {names : List (Option Bytes)}
    (h : ∀ path, some path ∈ names → ∀ file, judgeFileValidite lstat path = some file →
      slash ∈ path ∧ Archivable path file (content path)) :
    decode (zipFiles signed lstat names) =
      some (names.filterMap fun path => path.bind (archived lstat content)) := by
  induction names with
  | nil =>
    have hend := decode_zeros []
    rw [List.append_nil] at hend
    exact hend
  | cons path names ih =>
    have hrest := ih fun path hpath => h path (List.mem_cons_of_mem _ hpath)
    cases path with
    | none =>
      simp only [zipFiles, List.filterMap_cons, Option.bind_none]
      exact hrest
    | some path =>
      cases hfile : judgeFileValidite lstat path with
      | none =>
        simp only [zipFiles, writeSingleFile_none signed hfile, List.nil_append,
          List.filterMap_cons, Option.bind_some, archived, hfile, Option.map_none]
        exact hrest
      | some file =>
        obtain ⟨hslash, harch⟩ := h path List.mem_cons_self file hfile
        simp only [zipFiles, writeSingleFile_some signed hfile hslash harch.long,
          List.append_assoc, decode_file signed harch, hrest, List.filterMap_cons, Option.bind_some,
          archived, hfile, Option.map_some]

end Contents

/-- The stream is an archive of the regular files among the paths, in their order. -/
theorem tarZipFiles_decode (signed : Bool) (lstat : Bytes → Option LogFile)
    (content : Bytes → Bytes) (inputNames : List (Option Bytes))
    (hcount : inputNames.length = logFileIndexMax)
    (h : ∀ path, some path ∈ inputNames → ∀ file, judgeFileValidite lstat path = some file →
      slash ∈ path ∧ Archivable path file (content path)) :
    ∃ stream, tarZipFiles signed true lstat inputNames = some stream ∧
      decode stream = some (inputNames.filterMap fun path => path.bind (archived lstat content)) := by
  refine ⟨zipFiles signed lstat inputNames, ?_, decode_zipFiles signed content h⟩
  rw [tarZipFiles, if_neg (not_not.mpr hcount), if_pos rfl]

section Runs

def fileOf (content : Bytes) : LogFile where
  regular := true
  size := content.length
  opened := true
  reads i := some ((content.drop (headerNum * i)).take headerNum)

theorem archivable_fileOf {path content : Bytes}
    (hascii : ∀ c ∈ baseName path, 0 < c.toNat ∧ c.toNat < 128) (hlong : 7 ≤ (baseName path).length)
    (hpos : 0 < content.length) (hlt : content.length < 2 ^ 32) :
    Archivable path (fileOf content) content :=
  ⟨hascii, hlong, hpos, hlt, ⟨rfl, rfl, fun _ => rfl⟩⟩

theorem baseName_concat {base : Bytes} (hbase : slash ∉ base) (folder : Bytes) :
    baseName (folder ++ slash :: base) = base := by
  have hpos : ∀ c ∈ base.reverse, decide (c ≠ slash) = true := by
    intro c hc
    apply decide_eq_true
    rintro rfl
    exact hbase (List.mem_reverse.mp hc)
  rw [baseName, List.rtakeWhile, List.reverse_append, List.reverse_cons, List.append_assoc,
    List.takeWhile_append_of_pos hpos, List.singleton_append,
    List.takeWhile_cons_of_neg (by simp), List.append_nil, List.reverse_reverse]

def teelogs (folder : Bytes) : Bytes := folder ++ [0x74, 0x65, 0x65, 0x6C, 0x6F, 0x67, 0x73]

def longName : Bytes := List.replicate 120 0x78

def logFolder : List (Bytes × Bytes) :=
  [(teelogs [slash], [0x61]), (slash :: longName, List.replicate 600 0x62)]

theorem baseName_longName : baseName (slash :: longName) = longName :=
  baseName_concat (fun h => absurd (List.eq_of_mem_replicate h) (by decide)) []

theorem archivable_longName :
    Archivable (slash :: longName) (fileOf (List.replicate 600 0x62)) (List.replicate 600 0x62) := by
  apply archivable_fileOf
  · rw [baseName_longName]
    intro c hc
    rw [List.eq_of_mem_replicate hc]
    decide
  · rw [baseName_longName, longName, List.length_replicate]
    decide
  · rw [List.length_replicate]
    decide
  · rw [List.length_replicate]
    decide

theorem lookup_longName : logFolder.lookup (slash :: longName) = some (List.replicate 600 0x62) := by
  have hne : (slash :: longName == teelogs [slash]) = false := rfl
  simp only [logFolder, List.lookup_cons, hne, beq_self_eq_true]

theorem tarZipFiles_decode_logFolder : ∃ stream,
    tarZipFiles true true (fun path => (logFolder.lookup path).map fileOf)
        [some (teelogs [slash]), none, some (teelogs []), some (slash :: longName)] = some stream ∧
      decode stream = some [⟨teelogs [], 1, [0x61]⟩,
        ⟨List.replicate 99 0x78, 600, List.replicate 600 0x62⟩] := by
  let lstat (path : Bytes) : Option LogFile := (logFolder.lookup path).map fileOf
  let content (path : Bytes) : Bytes := (logFolder.lookup path).getD []
  obtain ⟨stream, hstream, hdecode⟩ := tarZipFiles_decode true lstat content
    [some (teelogs [slash]), none, some (teelogs []), some (slash :: longName)] rfl (by
      rintro path hpath file hfile
      simp only [List.mem_cons, Option.some_inj, reduceCtorEq, List.not_mem_nil, or_false,
        false_or] at hpath
      rcases hpath with rfl | rfl | rfl
      · obtain rfl : fileOf [0x61] = file := Option.some.inj hfile
        exact ⟨by decide, archivable_fileOf (by decide) (by decide) Nat.one_pos (by decide)⟩
      · cases hfile
      · have hcontent : content (slash :: longName) = List.replicate 600 0x62 := by
          simp only [content, lookup_longName, Option.getD_some]
        simp only [judgeFileValidite, lstat, lookup_longName, Option.map_some] at hfile
        obtain rfl : fileOf (List.replicate 600 0x62) = file := Option.some.inj hfile
        rw [hcontent]
        exact ⟨List.mem_cons_self, archivable_longName⟩)
  have hfirst : archived lstat content (teelogs [slash]) = some ⟨teelogs [], 1, [0x61]⟩ := rfl
  have hmissing : archived lstat content (teelogs []) = none := rfl
  have hlast : archived lstat content (slash :: longName) =
      some ⟨List.replicate 99 0x78, 600, List.replicate 600 0x62⟩ := by
    simp only [archived, judgeFileValidite, lstat, content, lookup_longName, baseName_longName,
      Option.map_some, Option.getD_some]
    rw [longName, List.take_replicate, List.length_replicate]
    rfl
  refine ⟨stream, hstream, hdecode.trans ?_⟩
  simp only [List.filterMap_cons, List.filterMap_nil, Option.bind_some, Option.bind_none, hfirst,
    hmissing, hlast]

/-- A path without a directory ends the archive before its last block. -/
theorem not_tarZipFiles_decode :
    (∀ path, some path ∈ [some (teelogs []), none, none, none] → ∀ file,
        judgeFileValidite (fun _ => some (fileOf [0x61])) path = some file →
        Archivable path file [0x61]) ∧
      ∀ signed stream, tarZipFiles signed true (fun _ => some (fileOf [0x61]))
          [some (teelogs []), none, none, none] = some stream →
        decode stream = none := by
  constructor
  · rintro path hpath file hfile
    obtain rfl : path = teelogs [] := by simpa using hpath
    obtain rfl : fileOf [0x61] = file := Option.some.inj hfile
    exact archivable_fileOf (by decide) (by decide) Nat.one_pos (by decide)
  · intro signed stream hstream
    obtain rfl : ([] : Bytes) = stream := Option.some.inj hstream
    rw [decode, if_pos (by decide)]

end Runs

end TeeClient.Tlogcat.TarZip
