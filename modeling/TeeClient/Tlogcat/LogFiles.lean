import Mathlib.Tactic
import TeeClient.Tlogcat.Names
import TeeClient.Lib.RotatingLog

/-! The log files that `tlogcat` writes (`tlogcat.c`): the table of open files, rotation and
compression.  File-system calls succeed, and nobody else touches the directory; what is written
to a stream is in its file.  Permissions are left out. -/

namespace TeeClient.Tlogcat

open RotatingLogs

section Directory

/-- A log file is the version header that it was created with and what is logged behind it. An
archive has its members, each by its name. -/
inductive Content
  | text (t : Segment Byte)
  | tarGz (members : List (Path × Segment Byte))
  deriving DecidableEq

/-- What has been done, for the properties: a renaming and whether its target was free, bytes
written for a UUID, a compression. -/
inductive Event
  | rename (src dst : Path) (free : Bool)
  | logged (uuid : TeeUuid) (bytes : List Byte)
  | compressed (uuid : TeeUuid)
  deriving DecidableEq

/-- The file system, the global buffers `g_logName`, `g_logNameCompress`, `g_uuidAscii`,
`g_compressFile` and `g_compressUuid`, and what has been done so far. -/
structure Directory where
  fs : Path → Option Content
  logName : Path
  logNameCompress : Path
  uuidAscii : List Char
  compressFile : Path
  compressUuid : TeeUuid
  trace : List Event

def Directory.initial : Directory := ⟨fun _ => none, [], [], [], [], .zero, []⟩

def Directory.access (d : Directory) (p : Path) : Bool := (d.fs p).isSome

def Directory.unlink (d : Directory) (p : Path) : Directory :=
  { d with fs := Function.update d.fs p none }

def Directory.rename (d : Directory) (src dst : Path) : Directory where
  fs := if d.access src then fun p => if p = dst then d.fs src else if p = src then none else d.fs p
    else d.fs
  logName := d.logName
  logNameCompress := d.logNameCompress
  uuidAscii := d.uuidAscii
  compressFile := d.compressFile
  compressUuid := d.compressUuid
  trace := d.trace ++ [.rename src dst (d.fs dst).isNone]

def Directory.record (d : Directory) (e : Event) : Directory := { d with trace := d.trace ++ [e] }

def logFileIndexMax : Nat := 4

end Directory

section Compress

variable (teePath : Path)

def baseName (p : Path) : Path := (p.reverse.takeWhile (· ≠ '/')).reverse

def writeSingleFile (d : Directory) (fileName : Path) : Option (Path × Segment Byte) :=
  match d.fs fileName with
  | some (.text t) => some (baseName fileName, t)
  | _ => none

def tarZipFiles (inputNames : List Path) (outputName : Path) (d : Directory) : Directory :=
  let members := inputNames.filterMap (writeSingleFile d)
  { d with fs := Function.update d.fs outputName (some (.tarGz members)) }

def triggerCompress (d : Directory) : Directory :=
  let filesToCompress := (List.range logFileIndexMax).map
    fun i => logAssembleFilename (teeTempPath teePath) (attrOf d.compressUuid i)
  filesToCompress.foldl Directory.unlink (tarZipFiles filesToCompress d.compressFile d)

def getCompressFile (uuid : TeeUuid) : List Nat → Directory → Option Path × Directory
  | [], d => (none, d)
  | i :: rest, d =>
    let name := logAssembleCompressFilename teePath ⟨d.uuidAscii, isTaUuid uuid, i⟩
    let d := { d with logNameCompress := name }
    if d.access name then getCompressFile uuid rest d else (some name, d)

def shiftCompressFile (uuid : TeeUuid) (d : Directory) (i : Nat) : Directory :=
  let name := logAssembleCompressFilename teePath ⟨d.uuidAscii, isTaUuid uuid, i⟩
  let d := { d with logNameCompress := name }
  let d := d.rename d.logNameCompress d.logName
  { d with logName := d.logNameCompress }

def arrangeCompressFile (uuid : TeeUuid) (d : Directory) : Directory :=
  let first := logAssembleCompressFilename teePath ⟨d.uuidAscii, isTaUuid uuid, 0⟩
  let d := { d with logName := first }
  let d := d.unlink d.logName
  (List.range' 1 (logFileIndexMax - 1)).foldl (shiftCompressFile teePath uuid) d

/-- `MkdirTmpPath`: whether `rmdir` finds no directory or an empty one, or `LogTmpDirClear` has to
unlink what is in it, a new directory is empty. -/
def mkdirTmpPath (tmpPath : Path) (d : Directory) : Directory :=
  { d with fs := fun p => if tmpPath <+: p then none else d.fs p }

def moveFileToTmpPath (isTa : Bool) (d : Directory) (index : Nat) : Directory :=
  let logName := logAssembleFilename teePath ⟨d.uuidAscii, isTa, index⟩
  let logNameCompress := logAssembleFilename (teeTempPath teePath) ⟨d.uuidAscii, isTa, index⟩
  let d := { d with logName := logName, logNameCompress := logNameCompress }
  d.rename d.logName d.logNameCompress

def logFilesCompress (uuid : TeeUuid) (d : Directory) : Directory :=
  let d := mkdirTmpPath (teeTempPath teePath) d
  let d := { d with uuidAscii := getUuidStr uuid }
  let d := (List.range logFileIndexMax).reverse.foldl (moveFileToTmpPath teePath (isTaUuid uuid)) d
  let found := getCompressFile teePath uuid (List.range logFileIndexMax) d
  let d := if found.1.isNone then arrangeCompressFile teePath uuid found.2 else found.2
  let d := { d with compressFile := d.logNameCompress, compressUuid := uuid }
  (triggerCompress teePath d).record (.compressed uuid)

end Compress

section Table

/-- An entry of `g_files`.  A stream is given by the name it was opened with: it is closed before
its file gets another name. -/
structure LogFile where
  file : Option Path
  uuid : TeeUuid
  fileLen : Nat
  fileIndex : Nat
  valid : Bool
  deriving DecidableEq

def LogFile.cleared : LogFile := ⟨none, .zero, 0, 0, false⟩

def logFilesMax : Nat := 128
def logFileLimit : Nat := 500 * 1024

structure State where
  dir : Directory
  files : Fin logFilesMax → LogFile
  teeVersion : List Byte

def State.initial (teeVersion : List Byte) : State := ⟨.initial, fun _ => .cleared, teeVersion⟩

def State.restart (teeVersion : List Byte) (st : State) : State where
  dir := { Directory.initial with fs := st.dir.fs, trace := st.dir.trace }
  files := fun _ => .cleared
  teeVersion := teeVersion

def State.clear (st : State) (i : Fin logFilesMax) : State :=
  { st with files := Function.update st.files i .cleared }

variable (teePath : Path)

def logFileFull (e : LogFile) (d : Directory) : Directory :=
  if logFileIndexMax ≤ e.fileIndex then d
  else
    let logName := logAssembleFilename teePath (attrOf e.uuid 0)
    let logName2 := logAssembleFilename teePath (attrOf e.uuid (e.fileIndex + 1))
    d.rename logName logName2

def fileReachedLimit (e : LogFile) (d : Directory) : Directory :=
  if logFileIndexMax - 1 ≤ e.fileIndex then logFilesCompress teePath e.uuid d
  else logFileFull teePath e d

def logFilesChecklimit (i : Fin logFilesMax) (st : State) : Bool × State :=
  if logFileLimit ≤ (st.files i).fileLen then
    (true, { st with dir := fileReachedLimit teePath (st.files i) st.dir }.clear i)
  else (false, st)

def getUsableFile (uuid : TeeUuid) :
    List (Fin logFilesMax) → State → Option (Fin logFilesMax) × State
  | [], st => (none, st)
  | i :: rest, st =>
    if (st.files i).uuid ≠ uuid then getUsableFile uuid rest st
    else if (st.files i).valid = false then getUsableFile uuid rest st
    else if (st.files i).file.isNone then getUsableFile uuid rest (st.clear i)
    else
      let checked := logFilesChecklimit teePath i st
      if checked.1 then getUsableFile uuid rest checked.2 else (some i, checked.2)

/-- `GetFileIndex`, with the indices that are left to try and what `*fileIndex` is. -/
def getFileIndex (uuidAscii : List Char) (isTa : Bool) (d : Directory) : List Nat → Nat → Nat
  | [], fileIndex => fileIndex
  | i :: rest, _ =>
    if d.access (logAssembleFilename teePath ⟨uuidAscii, isTa, i⟩) then i
    else getFileIndex uuidAscii isTa d rest i

/-- `LogFilesOpen`: the length of the file, which a new one has before its header is written.  An
archive has none of the names that are opened. -/
def logFilesOpen (logName : Path) (teeVersion : List Byte) (d : Directory) :
    Option Nat × Directory :=
  match d.fs logName with
  | some (.text t) => (some (t.header.length + t.body.length), d)
  | some (.tarGz _) => (none, d)
  | none => (some 0, { d with fs := Function.update d.fs logName (some (.text ⟨teeVersion, []⟩)) })

def logFilesAdd (uuid : TeeUuid) (file : Path) (fileLen index : Nat) (st : State) :
    Option (Fin logFilesMax) × State :=
  match (List.finRange logFilesMax).find? fun i =>
    (st.files i).file.isNone && !(st.files i).valid with
  | none => (none, st)
  | some i => (some i,
      { st with files := Function.update st.files i ⟨some file, uuid, fileLen, index, true⟩ })

def logFilesGet (uuid : TeeUuid) (isTa : Bool) (st : State) : Option (Fin logFilesMax) × State :=
  let found := getUsableFile teePath uuid (List.finRange logFilesMax) st
  match found.1 with
  | some i => (some i, found.2)
  | none =>
    let st := found.2
    let uuidAscii := getUuidStr uuid
    let fileIndex := getFileIndex teePath uuidAscii isTa st.dir (List.range logFileIndexMax).reverse 0
    let logName := logAssembleFilename teePath ⟨uuidAscii, isTa, 0⟩
    let file := logFilesOpen logName st.teeVersion st.dir
    match file.1 with
    | none => (none, { st with dir := file.2 })
    | some fileLen => logFilesAdd uuid logName fileLen fileIndex { st with dir := file.2 }

def Directory.fwrite (d : Directory) (bytes : List Byte) (p : Path) : Directory :=
  match d.fs p with
  | some (.text t) =>
    { d with fs := Function.update d.fs p (some (.text ⟨t.header, t.body ++ bytes⟩)) }
  | _ => d

def writePrivateLogFile (uuid : TeeUuid) (bytes : List Byte) (st : State) : State :=
  let logFile := logFilesGet teePath uuid (isTaUuid uuid) st
  let st := logFile.2
  match logFile.1 with
  | none => st
  | some i =>
    match (st.files i).file with
    | none => st
    | some file =>
      let e := st.files i
      { st with
        dir := (st.dir.fwrite bytes file).record (.logged uuid bytes)
        files := Function.update st.files i { e with fileLen := e.fileLen + bytes.length } }

def closeFile (st : State) (i : Fin logFilesMax) : State :=
  if (st.files i).file.isNone then st
  else if logFileLimit ≤ (st.files i).fileLen then
    { st with dir := fileReachedLimit teePath (st.files i) st.dir }.clear i
  else st.clear i

def logFilesClose (st : State) : State := (List.finRange logFilesMax).foldl (closeFile teePath) st

end Table

end TeeClient.Tlogcat
