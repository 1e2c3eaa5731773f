import Mathlib.Tactic
import TeeClient.Lib.Ring
import TeeClient.Teecd.FsAgent

/-! The opened files of the file-system agent (`fs_work_agent.c`): the circular list behind
`g_firstFile`, and the commands that add to it, search it and take from it.  A command
carries the answers of the C library to the calls that it makes. -/

namespace TeeClient.Teecd

open Rings

abbrev Ptr := Option Nat

/-- The nodes of the list (`struct OpenedFile`) with `g_firstFile`, and the streams of the C
library.  `fileno` of a stream that is closed reads what is left there. -/
structure FileTable where
  links : Links Ptr
  file : Ptr → Ptr
  firstFile : Ptr
  allocated : Ptr → Bool
  isOpen : Ptr → Bool
  fileno : Ptr → Int

def FileTable.init : FileTable where
  links := ⟨fun _ => none, fun _ => none⟩
  file := fun _ => none
  firstFile := none
  allocated := fun _ => false
  isOpen := fun _ => false
  fileno := fun _ => -1

namespace FileTable

section List

def free (st : FileTable) (node : Ptr) : FileTable :=
  { st with allocated := Function.update st.allocated node false }

def addOpenFile (st : FileTable) (newFile pFile : Ptr) : Bool × FileTable :=
  if newFile = none then (false, st)
  else
    let st := { st with
      allocated := Function.update st.allocated newFile true
      file := Function.update st.file newFile pFile }
    if st.firstFile = none then
      let links := st.links.setNext newFile newFile
      (true, { st with firstFile := newFile, links := links.setPrev newFile newFile })
    else if st.links.prev st.firstFile = none then (false, st.free newFile)
    else
      let links := st.links.setNext (st.links.prev st.firstFile) newFile
      let links := links.setPrev newFile (links.prev st.firstFile)
      let links := links.setNext newFile st.firstFile
      (true, { st with links := links.setPrev st.firstFile newFile })

def delOpenFile (st : FileTable) (file : Ptr) : FileTable :=
  if file = none then st
  else
    let next := st.links.next file
    if file = next then { st with firstFile := none }
    else if st.links.next file = none ∨ st.links.prev file = none then st
    else
      let links := st.links.setPrev next (st.links.prev file)
      { st with
        firstFile := if file = st.firstFile then st.links.next file else st.firstFile
        links := links.setNext (links.prev file) next }

def findFile (st : FileTable) (fd : Int) : Nat → Ptr → Option Ptr
  | 0, _ => none
  | fuel + 1, p =>
    if st.file p ≠ none ∧ st.fileno (st.file p) = fd then some p
    else if st.links.next p = st.firstFile ∨ st.links.next p = none then some none
    else findFile st fd fuel (st.links.next p)

/-- `FindOpenFile`: the node it found or `NULL`; `none` when its loop has not ended after
`fuel` rounds. -/
def findOpenFile (st : FileTable) (fuel : Nat) (fd : Int) : Option Ptr :=
  if st.firstFile = none then some none else st.findFile fd fuel st.firstFile

end List

section Streams

def opened (st : FileTable) (stream : Ptr) (fd : Int) : FileTable :=
  { st with
    isOpen := Function.update st.isOpen stream true
    fileno := Function.update st.fileno stream fd }

/-- `fclose`, whatever it returns; `left` is what stays in the memory of the stream. -/
def fclose (st : FileTable) (stream : Ptr) (left : Int) : FileTable :=
  { st with
    isOpen := Function.update st.isOpen stream false
    fileno := Function.update st.fileno stream left }

end Streams

end FileTable

section Commands

/-- What the commands read and leave of `struct SecStorageType`, their arguments apart. -/
structure Control where
  ret : Int
  ret2 : Int
  error : Nat
  fileLen : U32
  curPos : U32
  buffer : List (BitVec 8)
  deriving DecidableEq, Repr

def ebadf : Nat := 9
def secWriteSsa : Int := 1

/-- How far an opening gets: a check in front of `fopen` fails, with the error it reports, `fopen`
fails, or it returns a stream on a descriptor and `malloc` a node or `NULL`.  `left` is for
the stream that is closed again. -/
inductive OpenAnswer
  | refused (error : Option Nat)
  | failed (errno : Nat)
  | opened (stream : Nat) (fd : Int) (node : Ptr) (left : Int)
  deriving DecidableEq, Repr

structure Outcome where
  ret : Int
  errno : Nat
  deriving DecidableEq, Repr

/-- The commands on opened files.  `fread` and `fwrite` answer with what they read and how
much they wrote, `fstat` and `ftell` with a size and a position. -/
inductive FileCommand
  | secOpen (answer : OpenAnswer)
  | secCreate (answer : OpenAnswer)
  | secClose (fd : Int) (fclose : Outcome) (left : Int)
  | secRead (fd : Int) (count : U32) (fread : List (BitVec 8)) (feof : Bool) (errno : Nat)
  | secWrite (fd : Int) (count : U32) (fwrite : Nat) (fflush : Outcome) (errno : Nat)
  | secSeek (fd : Int) (fseek : Outcome)
  | secInfo (fd : Int) (fstat : Outcome) (size : U32) (ftell : U32)
  | secFsync (fd : Int) (fflush fsync : Outcome)
  deriving DecidableEq, Repr

/-- `OpenWork` -/
def openFileWork (answer : OpenAnswer) (tc : Control) (st : FileTable) : Control × FileTable :=
  match answer with
  | .refused error => ({ tc with ret := -1, error := error.getD tc.error }, st)
  | .failed errno => ({ tc with ret := -1, error := errno }, st)
  | .opened stream fd node left =>
    let added := (st.opened (some stream) fd).addOpenFile node (some stream)
    if added.1 then ({ tc with ret := fd }, added.2)
    else ({ tc with ret := -1, error := enomem }, added.2.fclose (some stream) left)

def asI32 (count : Nat) : Int := (BitVec.ofNat 32 count).toInt

def notFound (tc : Control) (ret : Int) : Control := { tc with ret := ret, error := ebadf }

def closeFound (selFile : Ptr) (fclose : Outcome) (left : Int) (tc : Control) (st : FileTable) :
    Control × FileTable :=
  let closed := st.fclose (st.file selFile) left
  if fclose.ret = 0 then ({ tc with ret := 0 }, (closed.delOpenFile selFile).free selFile)
  else ({ tc with ret := fclose.ret, error := fclose.errno }, closed)

def readFound (count : U32) (fread : List (BitVec 8)) (feof : Bool) (errno : Nat) (tc : Control) :
    Control :=
  let read := fread.take count.toNat
  let tc := { tc with ret := asI32 read.length, buffer := read }
  if read.length < count.toNat then
    if feof then { tc with ret2 := 0 } else { tc with ret2 := -1, error := errno }
  else { tc with ret2 := 0 }

def writeFound (count : U32) (fwrite : Nat) (fflush : Outcome) (errno : Nat) (tc : Control) :
    Control :=
  if fwrite < count.toNat then { tc with ret := asI32 fwrite, error := errno }
  else if tc.ret2 = secWriteSsa then
    if fflush.ret ≠ 0 then { tc with ret := 0, error := fflush.errno }
    else { tc with ret := asI32 count.toNat }
  else { tc with ret := asI32 count.toNat, error := 0 }

def seekFound (fseek : Outcome) (tc : Control) : Control :=
  { tc with ret := fseek.ret, error := if fseek.ret ≠ 0 then fseek.errno else tc.error }

def infoFound (fstat : Outcome) (size ftell : U32) (tc : Control) : Control :=
  if fstat.ret = 0 then { tc with ret := fstat.ret, fileLen := size, curPos := ftell }
  else { tc with ret := fstat.ret, error := fstat.errno }

def fsyncFound (fflush fsync : Outcome) (tc : Control) : Control :=
  if fflush.ret ≠ 0 then { tc with ret := -1, error := fflush.errno }
  else if fsync.ret ≠ 0 then { tc with ret := -1, error := fsync.errno }
  else { tc with ret := 0 }

def foundOr (missing found : Control) (selFile : Ptr) : Control :=
  if selFile = none then missing else found

/-- The handler of a command; `none` when the loop of its `FindOpenFile` has not ended after
`fuel` rounds. -/
def FileCommand.exec (fuel : Nat) (command : FileCommand) (tc : Control) (st : FileTable) :
    Option (Control × FileTable) :=
  match command with
  | .secOpen answer => some (openFileWork answer tc st)
  | .secCreate answer => some (openFileWork answer tc st)
  | .secClose fd fclose left => (st.findOpenFile fuel fd).map fun selFile =>
    if selFile = none then (notFound tc (-1), st) else closeFound selFile fclose left tc st
  | .secRead fd count fread feof errno => (st.findOpenFile fuel fd).map fun selFile =>
    (foundOr { notFound tc 0 with ret2 := -1 } (readFound count fread feof errno tc) selFile, st)
  | .secWrite fd count fwrite fflush errno => (st.findOpenFile fuel fd).map fun selFile =>
    (foundOr (notFound tc 0) (writeFound count fwrite fflush errno tc) selFile, st)
  | .secSeek fd fseek => (st.findOpenFile fuel fd).map fun selFile =>
    (foundOr (notFound tc (-1)) (seekFound fseek tc) selFile, st)
  | .secInfo fd fstat size ftell =>
    let tc := { tc with fileLen := 0, curPos := 0 }
    (st.findOpenFile fuel fd).map fun selFile =>
      (foundOr (notFound tc (-1)) (infoFound fstat size ftell tc) selFile, st)
  | .secFsync fd fflush fsync =>
    if fd = 0 then some (notFound tc (-1), st)
    else (st.findOpenFile fuel fd).map fun selFile =>
      (foundOr (notFound tc (-1)) (fsyncFound fflush fsync tc) selFile, st)

end Commands

section Runs

/-- The answers of an opening that the C library gives: the stream is not open, its
descriptor is that of no open stream, and the node is not allocated. -/
def OpenAnswer.Given (st : FileTable) : OpenAnswer → Prop
  | .opened stream fd node _ => st.isOpen (some stream) = false ∧
      (∀ s, st.isOpen s = true → st.fileno s ≠ fd) ∧ st.allocated node = false
  | _ => True

def FileCommand.Given (st : FileTable) : FileCommand → Prop
  | .secOpen answer | .secCreate answer => answer.Given st
  | _ => True

/-- Runs of the agent: the steps that were taken, each from its state, and the state that is
reached. -/
inductive FileRun : List (FileTable × FileCommand) → FileTable → Prop
  | init : FileRun [] .init
  | step {steps : List (FileTable × FileCommand)} {st st' : FileTable} {command : FileCommand}
      {fuel : Nat} {tc tc' : Control} (run : FileRun steps st) (given : command.Given st)
      (exec : command.exec fuel tc st = some (tc', st')) : FileRun (steps ++ [(st, command)]) st'

end Runs

end TeeClient.Teecd
