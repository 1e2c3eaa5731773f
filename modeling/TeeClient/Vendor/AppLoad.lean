import Mathlib.Tactic
import TeeClient.Types
import TeeClient.Lib.Memory

/-! Loading the image of a trusted application (`tee_client_app_load.c`): the header formats,
and `TEEC_GetApp` with its attempts on a stream that is handed in or on the files it opens.
The answers of the C library are arguments. -/

namespace TeeClient.Vendor.AppLoad

open ByteMemory

section Format

structure ImageFile where
  bytes : Mem
  size : Nat

def halfAt (m : Mem) (a : Nat) : BitVec 16 := m (a + 1) ++ m a

structure ImageIdentity where
  magicNum1 : U32
  magicNum2 : BitVec 16
  versionNum : BitVec 16
  deriving DecidableEq, Repr

def identityAt (m : Mem) (a : Nat) : ImageIdentity where
  magicNum1 := wordAt m a
  magicNum2 := halfAt m (a + 4)
  versionNum := halfAt m (a + 6)

structure ImageHdrV3 where
  imgIdentity : ImageIdentity
  contextLen : U32
  taKeyVersion : U32
  deriving DecidableEq, Repr

def hdrV3At (m : Mem) (a : Nat) : ImageHdrV3 where
  imgIdentity := identityAt m a
  contextLen := wordAt m (a + 8)
  taKeyVersion := wordAt m (a + 12)

structure ImageHead where
  contextLen : U32
  manifestCryptoLen : U32
  manifestPlainLen : U32
  manifestStrLen : U32
  cipherBinLen : U32
  signLen : U32
  deriving DecidableEq, Repr

def imageHeadAt (m : Mem) (a : Nat) : ImageHead where
  contextLen := wordAt m a
  manifestCryptoLen := wordAt m (a + 4)
  manifestPlainLen := wordAt m (a + 8)
  manifestStrLen := wordAt m (a + 12)
  cipherBinLen := wordAt m (a + 16)
  signLen := wordAt m (a + 20)

def taHeadMagic1 : U32 := 0xA5A55A5A
def taHeadMagic2 : BitVec 16 := 0x55AA
def taOhHeadMagic2 : BitVec 16 := 0xAAAA
def cipherLayerVersion : U32 := 3
def maxImageLen : U32 := 0x800000

def sizeofHdrV3 : U32 := 16
def sizeofTaHead : U32 := 48
def sizeofImageHead : U32 := 24
def sizeofIdentity : U32 := 8

def ImageIdentity.isNew (id : ImageIdentity) : Bool :=
  id.magicNum1 = taHeadMagic1 ∧ (id.magicNum2 = taHeadMagic2 ∨ id.magicNum2 = taOhHeadMagic2) ∧
    1 < id.versionNum

end Format

section Streams

structure Stream where
  file : ImageFile
  pos : Nat

/-- `fread` of `n` bytes: where they stand, when all of them could be read.  `error` is the
position after a read that failed though the bytes are there. -/
def Stream.fread (fp : Stream) (n : Nat) (error : Option Nat) : Option Nat × Stream :=
  match error with
  | some left => (none, { fp with pos := left })
  | none =>
    if fp.pos + n ≤ fp.file.size then (some fp.pos, { fp with pos := fp.pos + n })
    else (none, { fp with pos := max fp.pos fp.file.size })

def Stream.fseek (fp : Stream) (offset : Nat) (ok : Bool) : Bool × Stream :=
  (ok, if ok then { fp with pos := offset } else fp)

/-- What the library answers during one attempt: errors of the three reads, in their order,
whether the two seeks succeed, and whether `malloc` does. -/
structure Answers where
  header : Option Nat
  seek : Bool
  imageHead : Option Nat
  rewind : Bool
  malloc : Bool
  image : Option Nat
  deriving DecidableEq, Repr

end Streams

section Attempt

structure ClientContext where
  fileSize : U32
  fileBuffer : Option (List (BitVec 8))
  deriving DecidableEq, Repr

def ClientContext.zeroed : ClientContext := ⟨0, none⟩

structure TaVersion where
  taHeadLen : U32
  version : U32
  contextLen : U32
  totalImgLen : U32
  deriving DecidableEq, Repr

def getTaVersion (a : Answers) (fp : Stream) : Option TaVersion × Stream :=
  let (place, fp) := fp.fread sizeofHdrV3.toNat a.header
  match place with
  | none => (none, fp)
  | some place =>
    let imgHdr := hdrV3At fp.file.bytes place
    if imgHdr.imgIdentity.isNew then
      let version := imgHdr.imgIdentity.versionNum.setWidth 32
      if cipherLayerVersion ≤ version then
        (some ⟨sizeofTaHead, version, imgHdr.contextLen, imgHdr.contextLen + sizeofHdrV3⟩, fp)
      else
        let (ok, fp) := fp.fseek sizeofIdentity.toNat a.seek
        (if ok then some ⟨sizeofTaHead, version, 0, 0⟩ else none, fp)
    else
      let (ok, fp) := fp.fseek 0 a.seek
      (if ok then some ⟨sizeofImageHead, 0, 0, 0⟩ else none, fp)

def checkLength (a : Answers) (contextLen totalImgLen : U32) (fp : Stream) : Option U32 × Stream :=
  if maxImageLen < contextLen ∨ maxImageLen < totalImgLen then (none, fp)
  else
    let (ok, fp) := fp.fseek 0 a.rewind
    (if ok then some totalImgLen else none, fp)

/-- `TEEC_GetImageLenth` -/
def getImageLength (a : Answers) (fp : Stream) : Option U32 × Stream :=
  let (found, fp) := getTaVersion a fp
  match found with
  | none => (none, fp)
  | some ta =>
    if cipherLayerVersion ≤ ta.version then checkLength a ta.contextLen ta.totalImgLen fp
    else
      let (place, fp) := fp.fread sizeofImageHead.toNat a.imageHead
      match place with
      | none => (none, fp)
      | some place =>
        let contextLen := (imageHeadAt fp.file.bytes place).contextLen
        checkLength a contextLen (contextLen + ta.taHeadLen) fp

def doReadApp (a : Answers) (cliContext : ClientContext) (fp : Stream) :
    Int × ClientContext × Stream :=
  let (length, fp) := getImageLength a fp
  match length with
  | none => (-1, cliContext, fp)
  | some totalImgLen =>
    if totalImgLen = 0 ∨ maxImageLen < totalImgLen then (-1, cliContext, fp)
    else if a.malloc then
      let (place, fp) := fp.fread totalImgLen.toNat a.image
      match place with
      | none => (-1, cliContext, fp)
      | some place => (0, ⟨totalImgLen, some (read fp.file.bytes place totalImgLen.toNat)⟩, fp)
    else (-1, cliContext, fp)

end Attempt

section GetApp

abbrev Path := List Char

inductive PathAnswer
  | unresolved
  | unopened
  | opened (file : ImageFile)

structure TaFileInfo where
  taPath : Option Path
  taFp : Option Stream

structure Uuid where
  timeLow : U32
  timeMid : BitVec 16
  timeHiAndVersion : BitVec 16
  clockSeqAndNode : Fin 8 → BitVec 8

/-- The state of a call: the context, the stream that was handed in, and the streams that an
attempt has been made on, each as it was found. -/
structure Loading where
  cliContext : ClientContext
  taFp : Option Stream
  attempts : List (Stream × Answers)

def readApp (fs : Path → PathAnswer) (a : Answers) (loadFile : Path) (defaultPath : Bool)
    (st : Loading) : Int × Loading :=
  match st.taFp with
  | some fp =>
    let (ret, cliContext, fp') := doReadApp a st.cliContext fp
    (ret, ⟨cliContext, some fp', st.attempts ++ [(fp, a)]⟩)
  | none =>
    match fs loadFile with
    | .unresolved => (if defaultPath then 1 else -1, st)
    | .unopened => (-1, st)
    | .opened file =>
      let (ret, cliContext, _) := doReadApp a st.cliContext ⟨file, 0⟩
      (ret, ⟨cliContext, none, st.attempts ++ [(⟨file, 0⟩, a)]⟩)

def maxPathLen : Nat := 256
def teeFeimaDefaultPath : Path := "/vendor/etc/passthrough/teeos/ta".toList
def teeDefaultPath : Path := "/vendor/bin".toList
def secSuffix : Path := ".sec".toList

/-- `%0nx` -/
def hex (n v : Nat) : Path :=
  let digits := Nat.toDigits 16 v
  List.replicate (n - digits.length) '0' ++ digits

/-- `fileName`, whose 36 characters fit their buffer, as the two paths made of it do. -/
def fileName (u : Uuid) : Path :=
  let byte i := hex 2 (u.clockSeqAndNode i).toNat
  hex 8 u.timeLow.toNat ++ '-' :: hex 4 u.timeMid.toNat ++ '-' :: hex 4 u.timeHiAndVersion.toNat ++
    '-' :: byte 0 ++ byte 1 ++ '-' :: byte 2 ++ byte 3 ++ byte 4 ++ byte 5 ++ byte 6 ++ byte 7

def defaultName (filePath : Path) (u : Uuid) : Path := filePath ++ '/' :: fileName u ++ secSuffix

def givenPath (taFile : TaFileInfo) : Option Path :=
  taFile.taPath.filter fun taPath => taPath.length < maxPathLen ∧ secSuffix <:+: taPath

/-- `TEEC_GetApp`, with the answers during its first and its second attempt.  It returns what
`snprintf_s` returned for `fileName` when the first default path works. -/
def getApp (fs : Path → PathAnswer) (a₁ a₂ : Answers) (taFile : Option TaFileInfo)
    (srvUuid : Option Uuid) (cliContext : ClientContext) : Int × Loading :=
  match taFile, srvUuid with
  | some taFile, some srvUuid =>
    let st : Loading := ⟨cliContext, taFile.taFp, []⟩
    match givenPath taFile with
    | some taPath =>
      let (ret, st) := readApp fs a₁ taPath false st
      (if ret < 0 then 0 else ret, st)
    | none =>
      let (ret, st) := readApp fs a₁ (defaultName teeFeimaDefaultPath srvUuid) true st
      if ret ≠ 0 then
        let (ret, st) := readApp fs a₂ (defaultName teeDefaultPath srvUuid) true st
        (if ret < 0 then -1 else 0, st)
      else ((fileName srvUuid).length, st)
  | taFile, _ => (-1, ⟨cliContext, taFile.bind (·.taFp), []⟩)

end GetApp

end TeeClient.Vendor.AppLoad
