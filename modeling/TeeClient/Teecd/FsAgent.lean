import Mathlib.Tactic
import TeeClient.Types
import TeeClient.Lib.Resumption
import TeeClient.Lib.Securec

/-! The commands of the file-system agent that take names (`fs_work_agent.c`), as built
without `CONFIG_BACKUP_PARTITION` and `CONFIG_SMART_LOCK_PLATFORM`.  A handler is a program
over the system calls it makes. -/

namespace TeeClient.Teecd

open Resumption
open Securec

/-- A C string without its terminator, one `Char` for each byte. -/
abbrev CString := List Char

def userDataDir : CString := "/data/service/el1/public/".toList
def rootDir : CString := "/".toList
def sfsPartitionPersistent : CString := "sec_storage/".toList
def sfsPartitionUserSymlink : CString := "sec_storage_data_users/".toList
def sfsPartitionTransient : CString := "sec_storage_data/".toList
def sfsPartitionTransientPrivate : CString := "sec_storage_data/_private".toList
def sfsPartitionTransientPerso : CString := "sec_storage_data/_perso".toList
def secStorageRootDir : CString := rootDir ++ sfsPartitionPersistent
def fileNameInvalidStr : CString := "../".toList
def secStorageDataCe : CString := "/data/service/el2/".toList
def secStorageDataCeSuffixDir : CString := "/tee/".toList ++ sfsPartitionTransient
def teeObjectStorageCe : U32 := 0x80000002
def fileNameMaxBuf : Nat := 256
def userPathSize : Nat := 10
def pathMax : Nat := 4096

section Library

def snprintfS (count : Nat) (text : CString) : Option CString :=
  if text.length ≤ count then some text else none

/-- `strtok_r` with the delimiter `/`: the token, and the text at the saved pointer.  Where no
delimiter ends the token, C leaves the pointer open: it stays at the terminator, as with glibc, or
is cleared, as with musl. -/
def strtokR (clearsSaved : Bool) (s : CString) : Option (CString × Option CString) :=
  match s.dropWhile (· = '/') with
  | [] => none
  | s =>
    let saved := match s.dropWhile (· ≠ '/') with
      | _ :: rest => some rest
      | [] => if clearsSaved then none else some []
    some (s.takeWhile (· ≠ '/'), saved)

end Library

section Join

structure Current where
  userId : U32
  storageId : U32
  deriving DecidableEq, Repr

def checkFileNameAndPath (name : CString) : Bool := ¬ fileNameInvalidStr <:+: name

def getTransientDir (pathLen : Nat) : Option CString := strncpyS pathLen userDataDir

def getPersistentDir (pathLen : Nat) : Option CString := strncpyS pathLen rootDir

def joinFileNameTransient (cur : Current) (name : CString) (pathLen : Nat) : Option CString := do
  let path ← getTransientDir pathLen
  if cur.userId ≠ 0 then
    let userPath ← snprintfS (userPathSize - 1) (Nat.toDigits 10 cur.userId.toNat ++ ['/'])
    let path ← strncatS path pathLen sfsPartitionUserSymlink
    let path ← strncatS path pathLen userPath
    guard (sfsPartitionTransient.length < name.length)
    strncatS path pathLen (name.drop sfsPartitionTransient.length)
  else strncatS path pathLen name

def getDefaultDir (pathLen : Nat) : Option CString := do
  let path ← getPersistentDir pathLen
  strncatS path pathLen sfsPartitionPersistent

def doJoinDir (name : CString) (pathLen : Nat) : Option CString :=
  if sfsPartitionTransientPerso <+: name ∨ sfsPartitionTransientPrivate <+: name then
    getTransientDir pathLen
  else if sfsPartitionPersistent <+: name then getPersistentDir pathLen
  else if secStorageRootDir <+: name then some []
  else getDefaultDir pathLen

def doJoinFileName (name : CString) (pathLen : Nat) : Option CString := do
  let path ← doJoinDir name pathLen
  strncatS path pathLen name

/-- What C does not say: the bytes behind `temp`, and what `strtok_r` does at the end of the
string. -/
structure Unspecified where
  behind : CString
  clearsSaved : Bool

def musl : Unspecified := ⟨[], true⟩

/-- The text in `temp`.  A name of 256 bytes fills it, and a search goes on in the bytes
behind it. -/
def ceTemp (unspec : Unspecified) (name : CString) : CString :=
  if name.length < fileNameMaxBuf then name else name ++ unspec.behind

def joinFileNameForStorageCe (unspec : Unspecified) (name : CString) (pathLen : Nat) : Option CString :=
  if fileNameMaxBuf < name.length then none
  else do
    let (idString, saved) ← strtokR unspec.clearsSaved (ceTemp unspec name)
    let path ← strncpyS pathLen secStorageDataCe
    let path ← strncatS path pathLen idString
    let path ← strncatS path pathLen secStorageDataCeSuffixDir
    -- `strlen` of a cleared pointer does not return
    let nameWithoutUserId ← saved
    strncatS path pathLen nameWithoutUserId

def joinFileName (unspec : Unspecified) (cur : Current) (name : CString) (pathLen : Nat) :
    Option CString :=
  if checkFileNameAndPath name then
    if cur.storageId = teeObjectStorageCe then joinFileNameForStorageCe unspec name pathLen
    else if sfsPartitionTransient <+: name then joinFileNameTransient cur name pathLen
    else doJoinFileName name pathLen
  else none

def isDataDir (path : CString) (isUsers : Bool) : Bool :=
  userDataDir ++ (if isUsers then sfsPartitionUserSymlink else sfsPartitionTransient) <+: path

def isRootDir (path : CString) : Bool := rootDir ++ sfsPartitionPersistent <+: path

def isValidFilePath (path : CString) : Bool :=
  isDataDir path false || isDataDir path true || isRootDir path || secStorageDataCe <+: path

end Join

section Calls

inductive FsAct
  | errno
  | malloc
  | lstat (path : CString)
  | unlink (path : CString)
  | opendir (path : CString)
  | closedir
  | rmdir (path : CString)
  | stat (path : CString)
  | statfs (path : CString)
  | access (path : CString) (mode : Int)
  | chmod (path : CString) (isFile : Bool)
  | mkdir (path : CString)
  | realpath (path : CString)
  | fopen (path mode : CString)
  | fclose
  | openRead (path : CString)
  | fstat
  | openWrite (path : CString)
  | copy
  | truncate (path : CString) (len : U32)
  | rename (old new : CString)
  deriving DecidableEq, Repr

/-- The answers: `lstat` says whether it found a directory, `opendir` gives the names that
`readdir` will hand out, `fopen` the number of its descriptor. -/
abbrev FsResp : FsAct → Type
  | .errno => Nat
  | .lstat _ => Option Bool
  | .opendir _ => Option (List CString)
  | .statfs _ => Option Nat
  | .realpath _ => Option CString
  | .fopen _ _ => Option Int
  | _ => Bool

def FsAct.paths : FsAct → List CString
  | .lstat p | .unlink p | .opendir p | .rmdir p | .stat p | .statfs p | .access p _ | .chmod p _
  | .mkdir p | .realpath p | .fopen p _ | .openRead p | .openWrite p | .truncate p _ => [p]
  | .rename p q => [p, q]
  | .errno | .malloc | .closedir | .fclose | .fstat | .copy => []

abbrev FsProgram := Prog FsAct FsResp

def call (a : FsAct) : FsProgram (FsResp a) := Prog.perform a

def enoent : Nat := 2
def enomem : Nat := 12
def eacces : Nat := 13
def enfile : Nat := 23
def eperm : Nat := 1

def parents : CString → CString → List CString
  | _, [] => []
  | seen, c :: rest =>
    if c = '/' then seen :: parents (seen ++ [c]) rest else parents (seen ++ [c]) rest

def makeDirs : List CString → FsProgram Bool
  | [] => pure true
  | dir :: dirs => do
    if ← call (.access dir 0) then
      let _ ← call (.chmod dir false)
      makeDirs dirs
    else if ← call (.mkdir dir) then makeDirs dirs
    else pure false

def createDir (path : CString) (pathLen : Nat) : FsProgram Bool := do
  if pathLen ≤ path.length then pure false
  else if ← call .malloc then
    let start := if "/".toList <+: path then 1 else if "./".toList <+: path then 2 else 0
    makeDirs (parents (path.take start) (path.drop start))
  else pure false

def getRealFilePath (originPath : CString) (tPathLen : Nat) : FsProgram (Except Nat CString) := do
  match ← call (.realpath originPath) with
  | some trustPath =>
    pure (if isValidFilePath trustPath then .ok trustPath else .error enfile)
  | none =>
    let errno ← call .errno
    if errno ≠ enoent ∧ errno ≠ eacces then pure (.error errno)
    else if isValidFilePath originPath then
      match strncpyS tPathLen originPath with
      | some trustPath => pure (.ok trustPath)
      | none => pure (.error eperm)
    else pure (.error enfile)

def unlinkEntries (unlink : CString → FsProgram Bool) : List CString → FsProgram Bool
  | [] => pure true
  | entry :: entries => do
    if entry = "..".toList ∨ entry = ".".toList then unlinkEntries unlink entries
    else if ← unlink entry then unlinkEntries unlink entries
    else pure false

def unlinkRecursiveDir (name : CString) (unlink : CString → FsProgram Bool) : FsProgram Bool := do
  match ← call (.opendir name) with
  | none => pure false
  | some entries =>
    if ← unlinkEntries unlink entries then
      if ← call .closedir then call (.rmdir name) else pure false
    else
      let _ ← call .closedir
      pure false

/-- `UnlinkRecursive`.  The path of an entry is printed into a buffer of `PATH_MAX` bytes,
which ends the recursion. -/
def unlinkRecursive (name : CString) : FsProgram Bool := do
  match ← call (.lstat name) with
  | none => pure false
  | some false => call (.unlink name)
  | some true =>
    unlinkRecursiveDir name fun entry =>
      if (name ++ '/' :: entry).length < pathMax then unlinkRecursive (name ++ '/' :: entry)
      else pure false
termination_by pathMax - name.length
decreasing_by
  simp only [List.length_append, List.length_cons] at *
  omega

end Calls

section Work

inductive FsCommand
  | secOpen (mode name : CString)
  | secCreate (name : CString)
  | secRemove (name : CString)
  | secTruncate (len : U32) (name : CString)
  | secRename (oldName newName : CString)
  | secAccess (mode : Int) (name : CString)
  | secAccess2 (mode : Int) (name : CString)
  | secCp (fromPath toPath : CString)
  | secDeleteAll (path : CString)
  deriving DecidableEq, Repr

structure SecStorage where
  userId : U32
  storageId : U32
  command : FsCommand
  deriving DecidableEq, Repr

/-- What a handler leaves in `ret` and `error`; `none` leaves `error` as it was. -/
structure FsReply where
  ret : Int
  error : Option Nat
  deriving DecidableEq, Repr

def errnoReply : FsProgram FsReply := do
  let errno ← call .errno
  pure ⟨-1, some errno⟩

def callReply (ok : Bool) : FsProgram FsReply := if ok then pure ⟨0, none⟩ else errnoReply

def doOpenFile (path mode : CString) : FsProgram FsReply := do
  match ← getRealFilePath path pathMax with
  | .error error => pure ⟨-1, some error⟩
  | .ok trustPath =>
    match ← call (.fopen trustPath mode) with
    | none => errnoReply
    | some fileno =>
      let _ ← call (.chmod trustPath true)
      if ← call .malloc then pure ⟨fileno, none⟩
      else
        let _ ← call .fclose
        pure ⟨-1, some enomem⟩

def checkPartitionReady (mntDir : CString) : FsProgram Bool := do
  match ← call (.statfs rootDir) with
  | none => pure false
  | some rootBlocks =>
    match ← call (.statfs mntDir) with
    | none => pure false
    | some blocks => pure (rootBlocks ≠ blocks)

/-- The part of `OpenWork` behind the partition check; `create` tells the two commands
apart. -/
def openJoined (create : Bool) (nameBuff mode : CString) : FsProgram FsReply := do
  let found ← if create then pure true else call (.stat nameBuff)
  let valid ← if found then pure true else do
    let errno ← call .errno
    pure (errno ≠ enoent)
  if valid then
    if ← createDir nameBuff fileNameMaxBuf then doOpenFile nameBuff mode else errnoReply
  else pure ⟨-1, some enoent⟩

def openWork (unspec : Unspecified) (cur : Current) (create : Bool) (mode name : CString) :
    FsProgram FsReply :=
  match joinFileName unspec cur name fileNameMaxBuf with
  | none => pure ⟨-1, none⟩
  | some nameBuff => do
    let ready ← if sfsPartitionPersistent <:+: nameBuff then
        checkPartitionReady "/sec_storage".toList
      else pure true
    if ready then openJoined create nameBuff mode else pure ⟨-1, none⟩

def removeWork (unspec : Unspecified) (cur : Current) (name : CString) : FsProgram FsReply :=
  match joinFileName unspec cur name fileNameMaxBuf with
  | none => pure ⟨-1, none⟩
  | some nameBuff => do callReply (← unlinkRecursive nameBuff)

def truncateWork (unspec : Unspecified) (cur : Current) (len : U32) (name : CString) :
    FsProgram FsReply :=
  match joinFileName unspec cur name fileNameMaxBuf with
  | none => pure ⟨-1, none⟩
  | some nameBuff => do callReply (← call (.truncate nameBuff len))

def renameWork (unspec : Unspecified) (cur : Current) (oldName newName : CString) :
    FsProgram FsReply :=
  match joinFileName unspec cur oldName fileNameMaxBuf,
    joinFileName unspec cur newName fileNameMaxBuf with
  | some nameBuff, some nameBuff2 => do callReply (← call (.rename nameBuff nameBuff2))
  | _, _ => pure ⟨-1, none⟩

def copyFile (fromPath toPath : CString) : FsProgram Bool := do
  match ← getRealFilePath fromPath pathMax with
  | .error _ => pure false
  | .ok realFromPath =>
    match ← getRealFilePath toPath pathMax with
    | .error _ => pure false
    | .ok realToPath =>
      if ← call (.openRead realFromPath) then
        if ← call .fstat then
          if ← call (.openWrite realToPath) then
            if ← call .copy then
              let _ ← call (.chmod realToPath true)
              pure true
            else pure false
          else pure false
        else pure false
      else pure false

def copyWork (unspec : Unspecified) (cur : Current) (fromPath toPath : CString) :
    FsProgram FsReply :=
  match joinFileName unspec cur fromPath fileNameMaxBuf,
    joinFileName unspec cur toPath fileNameMaxBuf with
  | some fromPath, some toPath => do callReply (← copyFile fromPath toPath)
  | _, _ => pure ⟨-1, none⟩

def accessReply (path : CString) (mode : Int) : FsProgram FsReply := do
  let ok ← call (.access path mode)
  let errno ← call .errno
  pure ⟨if ok then 0 else -1, some errno⟩

def fileAccessWork (unspec : Unspecified) (cur : Current) (mode : Int) (name : CString) :
    FsProgram FsReply :=
  match joinFileName unspec cur name fileNameMaxBuf with
  | none => pure ⟨-1, none⟩
  | some nameBuff => accessReply nameBuff mode

def deleteAllWork (pathIn : CString) : FsProgram FsReply :=
  match doJoinFileName pathIn fileNameMaxBuf with
  | none => pure ⟨-1, none⟩
  | some path => do callReply (← unlinkRecursive path)

def fsWork (unspec : Unspecified) (cur : Current) (t : SecStorage) : Current × FsProgram FsReply :=
  let set : Current := ⟨t.userId, t.storageId⟩
  match t.command with
  | .secOpen mode name => (set, openWork unspec set false mode name)
  | .secCreate name => (set, openWork unspec set true "w+".toList name)
  | .secRemove name => (set, removeWork unspec set name)
  | .secTruncate len name => (set, truncateWork unspec set len name)
  | .secRename oldName newName => (set, renameWork unspec set oldName newName)
  | .secAccess mode name => (set, fileAccessWork unspec set mode name)
  | .secAccess2 mode name => (cur, accessReply name mode)
  | .secCp fromPath toPath => (set, copyWork unspec set fromPath toPath)
  | .secDeleteAll path => ({ cur with userId := t.userId }, deleteAllWork path)

end Work

end TeeClient.Teecd
