import Mathlib.Tactic
import TeeClient.Teecd.Confinement

/-! `SEC_CP` over a file system in which several paths can lead to one file. -/

namespace TeeClient.Teecd

open Resumption
open Securec
open ByteMemory (Bytes)

section Disk

structure Fd where
  ino : Nat
  offset : Nat
  deriving DecidableEq, Repr

/-- Where paths lead, and what the files hold; a directory holds `none`. -/
structure Disk where
  lookup : CString → Option Nat
  data : Nat → Option Bytes
  fromFd : Fd
  toFd : Fd

def Disk.content (d : Disk) (path : CString) : Option Bytes := (d.lookup path).bind d.data

def maxBSize : Nat := 65536

/-- A `read` of the source that gets at most `short + 1` bytes; a directory cannot be read. -/
def Disk.read (d : Disk) (short : Nat) : Option (Bytes × Disk) :=
  (d.data d.fromFd.ino).map fun bytes =>
    let got := (bytes.drop d.fromFd.offset).take (min (short + 1) maxBSize)
    (got, { d with fromFd := ⟨d.fromFd.ino, d.fromFd.offset + got.length⟩ })

def overwrite (old : Bytes) (offset : Nat) (new : Bytes) : Bytes :=
  old.take offset ++ List.replicate (offset - old.length) 0 ++ new ++ old.drop (offset + new.length)

def Disk.write (d : Disk) (bytes : Bytes) : Disk :=
  { d with
    data := Function.update d.data d.toFd.ino
      ((d.data d.toFd.ino).map fun old => overwrite old d.toFd.offset bytes)
    toFd := ⟨d.toFd.ino, d.toFd.offset + bytes.length⟩ }

/-- How a round of the loop goes: `read` fails, or it comes back `short` and `write` takes that
many bytes (`none`: it fails). -/
inductive Round
  | readFails
  | reads (short : Nat) (written : Option Nat)
  deriving DecidableEq, Repr

def copyLoop (synced : Bool) : List Round → Disk → Option (Bool × Disk)
  | [], _ => none
  | .readFails :: _, d => some (false, d)
  | .reads short written :: rounds, d =>
    match d.read short with
    | none => some (false, d)
    | some ([], d) => some (synced, d)
    | some (b :: bs, d) =>
      match written with
      | none => some (false, d)
      | some wcount =>
        let d := d.write ((b :: bs).take wcount)
        if wcount < (b :: bs).length then some (false, d) else copyLoop synced rounds d

structure CopyScript where
  allocated : Bool
  rounds : List Round
  synced : Bool
  deriving DecidableEq, Repr

def doCopy (script : CopyScript) (d : Disk) : Option (Bool × Disk) :=
  if script.allocated then copyLoop script.synced script.rounds d else some (false, d)

def Disk.truncated (d : Disk) (ino : Nat) : Disk :=
  { d with data := Function.update d.data ino (some []), toFd := ⟨ino, 0⟩ }

/-- `O_CREAT`: a file that no path led to; other spellings of its path may lead to it now. -/
structure Disk.Created (d : Disk) (path : CString) (ino : Nat) (d' : Disk) : Prop where
  fresh : ∀ p, d.lookup p ≠ some ino
  unused : ino ≠ d.fromFd.ino
  found : d'.lookup path = some ino
  lookup : ∀ p, d'.lookup p = d.lookup p ∨ d.lookup p = none ∧ d'.lookup p = some ino
  data : d'.data = Function.update d.data ino (some [])
  fromFd : d'.fromFd = d.fromFd
  toFd : d'.toFd = ⟨ino, 0⟩

def Disk.Step (d : Disk) : (a : FsAct) → FsResp a → Disk → Prop
  | .realpath path => fun (trustPath : Option CString) d' =>
    d' = d ∧ ∀ p ∈ trustPath, d.lookup path ≠ none ∧ d.lookup p = d.lookup path
  | .openRead path => fun (ok : Bool) d' =>
    if ok then ∃ ino, d.lookup path = some ino ∧ d' = { d with fromFd := ⟨ino, 0⟩ } else d' = d
  | .openWrite path => fun (ok : Bool) d' =>
    if ok then
      (∃ ino, d.lookup path = some ino ∧ d.data ino ≠ none ∧ d' = d.truncated ino) ∨
        d.lookup path = none ∧ ∃ ino, d.Created path ino d'
    else d' = d
  | .copy => fun (ok : Bool) d' => ∃ script, doCopy script d = some (ok, d')
  | .errno | .fstat | .chmod _ _ => fun _ d' => d' = d
  | _ => fun _ _ => False

end Disk

section Specification

/-- The source is as it was, and the destination has its bytes. -/
structure Disk.CopiedTo (d d' : Disk) (fromPath toPath : CString) : Prop where
  source : d'.content fromPath = d.content fromPath
  destination : d'.content toPath = d.content fromPath

end Specification

section Loop

variable {d d' : Disk} {bytes : Bytes} {i j o : Nat} {synced : Bool} {rounds : List Round}

structure Copying (bytes : Bytes) (i j o : Nat) (d : Disk) : Prop where
  fromFd : d.fromFd = ⟨i, o⟩
  toFd : d.toFd = ⟨j, o⟩
  source : d.data i = some bytes
  copied : d.data j = some (bytes.take o)

theorem overwrite_take (bytes new : Bytes) (o : Nat) (h : o ≤ bytes.length)
    (hnew : new <+: bytes.drop o) :
    overwrite (bytes.take o) o new = bytes.take (o + new.length) := by
  have hlen : (bytes.take o).length = o := List.length_take_of_le h
  have hpre : new = (bytes.drop o).take new.length := List.prefix_iff_eq_take.mp hnew
  rw [overwrite, List.take_take, Nat.min_self, hlen, Nat.sub_self, List.replicate_zero,
    List.append_nil, List.drop_of_length_le (by omega), List.append_nil, List.take_add, ← hpre]

theorem Disk.read_eq (h : d.data d.fromFd.ino = some bytes) (short : Nat) :
    ∃ new, new <+: bytes.drop d.fromFd.offset ∧
      (new = [] → bytes.length ≤ d.fromFd.offset) ∧
      d.read short = some (new, { d with fromFd := ⟨d.fromFd.ino, d.fromFd.offset + new.length⟩ }) := by
  refine ⟨(bytes.drop d.fromFd.offset).take (min (short + 1) maxBSize), List.take_prefix _ _, ?_, ?_⟩
  · intro hnil
    have hpos : min (short + 1) maxBSize ≠ 0 := by
      rw [maxBSize]; omega
    rcases List.take_eq_nil_iff.mp hnil with hzero | hdrop
    · exact absurd hzero hpos
    · exact List.drop_eq_nil_iff.mp hdrop
  · rw [Disk.read, h, Option.map_some]

theorem Copying.write (h : Copying bytes i j o d) (hij : i ≠ j) (ho : o ≤ bytes.length)
    {new : Bytes} (hnew : new <+: bytes.drop o) :
    Copying bytes i j (o + new.length)
      (({ d with fromFd := ⟨i, o + new.length⟩ } : Disk).write new) where
  fromFd := rfl
  toFd := by simp only [Disk.write, h.toFd]
  source := by
    simp only [Disk.write, h.toFd]
    rw [Function.update_of_ne hij, h.source]
  copied := by
    simp only [Disk.write, h.toFd]
    rw [Function.update_self, h.copied, Option.map_some, overwrite_take bytes new o ho hnew]

/-- By induction over the rounds: a loop between two files ends with a copy. -/
theorem copyLoop_copies (h : Copying bytes i j o d) (hij : i ≠ j) (ho : o ≤ bytes.length)
    (hrun : copyLoop synced rounds d = some (true, d')) :
    d'.lookup = d.lookup ∧ d'.data i = some bytes ∧ d'.data j = some bytes := by
  induction rounds generalizing d o with
  | nil => cases hrun
  | cons round rounds ih =>
    cases round with
    | readFails => cases hrun
    | reads short written =>
      obtain ⟨new, hnew, hend, hread⟩ := Disk.read_eq (by rw [h.fromFd, h.source]) short
      rw [h.fromFd] at hnew hend hread
      simp only [copyLoop, hread] at hrun
      cases new with
      | nil =>
        obtain ⟨-, rfl⟩ := Prod.mk.inj (Option.some.inj hrun)
        refine ⟨rfl, h.source, ?_⟩
        rw [← List.take_of_length_le (hend rfl)]
        exact h.copied
      | cons b bs =>
        cases written with
        | none => cases hrun
        | some wcount =>
          dsimp only at hrun
          split_ifs at hrun with hshort
          · cases hrun
          · rw [List.take_of_length_le (Nat.not_lt.mp hshort)] at hrun
            have hlen : o + (b :: bs).length ≤ bytes.length := by
              have hle : (b :: bs).length ≤ (bytes.drop o).length := hnew.length_le
              rw [List.length_drop] at hle
              omega
            have hrest := ih (h.write hij ho hnew) hlen hrun
            exact hrest

theorem copyLoop_empty (h : d.data d.fromFd.ino = some [])
    (hrun : copyLoop synced rounds d = some (true, d')) :
    d'.lookup = d.lookup ∧ d'.data = d.data := by
  cases rounds with
  | nil => cases hrun
  | cons round rounds =>
    cases round with
    | readFails => cases hrun
    | reads short written =>
      obtain ⟨new, hnew, -, hread⟩ := Disk.read_eq h short
      rw [List.drop_nil, List.prefix_nil] at hnew
      simp only [copyLoop, hread, hnew] at hrun
      obtain ⟨-, rfl⟩ := Prod.mk.inj (Option.some.inj hrun)
      exact ⟨rfl, rfl⟩

theorem copyLoop_readable (hrun : copyLoop synced rounds d = some (true, d')) :
    ∃ bytes, d.data d.fromFd.ino = some bytes := by
  cases rounds with
  | nil => cases hrun
  | cons round rounds =>
    cases round with
    | readFails => cases hrun
    | reads short written =>
      cases h : d.data d.fromFd.ino with
      | some bytes => exact ⟨bytes, rfl⟩
      | none =>
        simp only [copyLoop, Disk.read, h, Option.map_none] at hrun
        cases hrun

end Loop

section Opened

variable {d d' dOpen : Disk} {path path' : CString} {i j : Nat} {script : CopyScript}

theorem copyLoop_of_doCopy (h : doCopy script d = some (true, d')) :
    copyLoop script.synced script.rounds d = some (true, d') := by
  rw [doCopy] at h
  split_ifs at h
  · exact h
  · cases h

theorem copiedTo_of_ne (hcopy : doCopy script dOpen = some (true, d')) (hij : i ≠ j)
    (hfrom : dOpen.fromFd = ⟨i, 0⟩) (hto : dOpen.toFd = ⟨j, 0⟩)
    (hdata : dOpen.data = Function.update d.data j (some [])) (hsource : d.lookup path = some i)
    (hpath : dOpen.lookup path = some i) (hpath' : dOpen.lookup path' = some j) :
    d.CopiedTo d' path path' := by
  have hrun := copyLoop_of_doCopy hcopy
  obtain ⟨bytes, hbytes⟩ := copyLoop_readable hrun
  have hold : d.data i = some bytes := by
    rwa [hfrom, hdata, Function.update_of_ne hij] at hbytes
  have hcopying : Copying bytes i j 0 dOpen := by
    refine ⟨hfrom, hto, ?_, ?_⟩
    · rw [hdata, Function.update_of_ne hij, hold]
    · rw [hdata, Function.update_self, List.take_zero]
  obtain ⟨hlookup, hsrc, hcopied⟩ := copyLoop_copies hcopying hij (Nat.zero_le _) hrun
  constructor
  · rw [Disk.content, Disk.content, hlookup, hpath, hsource, Option.bind_some, Option.bind_some,
      hsrc, hold]
  · rw [Disk.content, Disk.content, hlookup, hpath', hsource, Option.bind_some, Option.bind_some,
      hcopied, hold]

theorem copiedTo_iff_of_eq (hcopy : doCopy script dOpen = some (true, d'))
    (hfrom : dOpen.fromFd = ⟨i, 0⟩) (hdata : dOpen.data i = some [])
    (hpath : dOpen.lookup path = some i) (hpath' : dOpen.lookup path' = some i) :
    d.CopiedTo d' path path' ↔ d.content path = some [] := by
  obtain ⟨hlookup, hsame⟩ := copyLoop_empty (by rw [hfrom, hdata]) (copyLoop_of_doCopy hcopy)
  have hsrc : d'.content path = some [] := by
    rw [Disk.content, hlookup, hsame, hpath, Option.bind_some, hdata]
  have hdest : d'.content path' = some [] := by
    rw [Disk.content, hlookup, hsame, hpath', Option.bind_some, hdata]
  constructor
  · intro h
    rw [← h.source, hsrc]
  · intro h
    exact ⟨by rw [hsrc, h], by rw [hdest, h]⟩

end Opened

section Runs

variable {unspec : Unspecified} {cur : Current} {d d' : Disk} {name name' path path' : CString}

theorem wp_getRealFilePath {Q : Except Nat CString → Disk → Prop}
    (hok : ∀ p, d.lookup p = d.lookup path → (d.lookup path = none → p = path) → Q (.ok p) d)
    (herr : ∀ e, Q (.error e) d) :
    wp Disk.Step (getRealFilePath path pathMax) Q d := by
  simp only [getRealFilePath, call, Prog.bind_eq, Prog.bind_perform]
  rintro (_ | trustPath) d' ⟨rfl, hreal⟩
  · rintro errno d' rfl
    dsimp only
    split_ifs
    · exact herr _
    · cases h : strncpyS pathMax path with
      | none => exact herr _
      | some p =>
        obtain ⟨-, -, rfl⟩ := strncatS_eq_some.mp h
        exact hok _ rfl fun _ => rfl
    · exact herr _
  · obtain ⟨hfound, hlookup⟩ := hreal trustPath rfl
    dsimp only
    split_ifs
    · exact hok _ hlookup fun hnone => absurd hnone hfound
    · exact herr _

theorem wp_copyFile : wp Disk.Step (copyFile path path')
    (fun ok d' => ok = true → (d.CopiedTo d' path path' ↔
      d.lookup path ≠ d.lookup path' ∨ d.content path = some [])) d := by
  rw [copyFile, Prog.bind_eq, wp_bind]
  apply wp_getRealFilePath
  case herr => exact fun _ => Bool.noConfusion
  intro realFrom hfrom _
  dsimp only
  rw [Prog.bind_eq, wp_bind]
  apply wp_getRealFilePath
  case herr => exact fun _ => Bool.noConfusion
  intro realTo hto hcreated
  simp only [call, Prog.bind_eq, Prog.bind_perform]
  rintro (_ | _) d₁ hread
  · exact Bool.noConfusion
  obtain ⟨i, hi, rfl⟩ : ∃ ino, d.lookup realFrom = some ino ∧ d₁ = { d with fromFd := ⟨ino, 0⟩ } := hread
  rintro (_ | _) d₁ rfl
  · exact Bool.noConfusion
  rintro (_ | _) dOpen hwrite
  · exact Bool.noConfusion
  rintro (_ | _) dCopied ⟨script, hcopy⟩
  · exact Bool.noConfusion
  rintro _ d' rfl -
  rw [hi] at hfrom
  rcases hwrite with ⟨j, hj, -, rfl⟩ | ⟨hnone, j, hnew⟩
  · have hdest : d.lookup path' = some j := hto.symm.trans hj
    by_cases hij : i = j
    · subst hij
      rw [copiedTo_iff_of_eq hcopy rfl (Function.update_self _ _ _) hfrom.symm hdest, ← hfrom,
        hdest]
      exact ⟨Or.inr, fun h => h.resolve_left fun hne => hne rfl⟩
    · refine iff_of_true (copiedTo_of_ne hcopy hij rfl rfl rfl hfrom.symm hfrom.symm hdest) ?_
      rw [← hfrom, hdest]
      exact Or.inl fun heq => hij (Option.some.inj heq)
  · -- the destination is a new file
    have hpath' : d.lookup path' = none := hto.symm.trans hnone
    obtain rfl := hcreated hpath'
    have hij : i ≠ j := hnew.unused.symm
    have hkept : dOpen.lookup path = some i := by
      rcases hnew.lookup path with hsame | ⟨hnot, -⟩
      · exact hsame.trans hfrom.symm
      · exact absurd (hfrom.trans hnot) (Option.some_ne_none i)
    refine iff_of_true (copiedTo_of_ne hcopy hij hnew.fromFd hnew.toFd hnew.data hfrom.symm hkept
      hnew.found) ?_
    rw [← hfrom, hpath']
    exact Or.inl (Option.some_ne_none i)

theorem runs_copyWork {i j : Nat} {script : CopyScript}
    (hjoin : joinFileName unspec cur name fileNameMaxBuf = some path)
    (hjoin' : joinFileName unspec cur name' fileNameMaxBuf = some path')
    (hvalid : isValidFilePath path) (hvalid' : isValidFilePath path')
    (hfrom : d.lookup path = some i) (hto : d.lookup path' = some j) (hfile : d.data j ≠ none)
    (hcopy : doCopy script (({ d with fromFd := ⟨i, 0⟩ } : Disk).truncated j) = some (true, d')) :
    Runs Disk.Step d (copyWork unspec cur name name') ⟨0, none⟩ d' := by
  simp only [copyWork, hjoin, hjoin', copyFile, getRealFilePath, call, Prog.bind_eq, Prog.pure_eq,
    Prog.bind_act, Prog.bind_perform]
  have hreal : Disk.Step d (.realpath path) (some path) d :=
    ⟨rfl, fun p hp => by cases hp; exact ⟨by rw [hfrom]; exact Option.some_ne_none i, rfl⟩⟩
  have hreal' : Disk.Step d (.realpath path') (some path') d :=
    ⟨rfl, fun p hp => by cases hp; exact ⟨by rw [hto]; exact Option.some_ne_none j, rfl⟩⟩
  refine .act hreal ?_
  simp only [if_pos hvalid, Prog.bind_pure, Prog.bind_act]
  refine .act hreal' ?_
  simp only [if_pos hvalid', Prog.bind_pure, Prog.bind_act]
  have hread : Disk.Step d (.openRead path) true { d with fromFd := ⟨i, 0⟩ } := ⟨i, hfrom, rfl⟩
  refine .act hread ?_
  let dRead : Disk := { d with fromFd := ⟨i, 0⟩ }
  have hstat : Disk.Step dRead .fstat true dRead := rfl
  refine .act hstat ?_
  have hwrite : Disk.Step dRead (.openWrite path') true (dRead.truncated j) :=
    .inl ⟨j, hto, hfile, rfl⟩
  refine .act hwrite ?_
  have hcopied : Disk.Step (dRead.truncated j) .copy true d' := ⟨script, hcopy⟩
  refine .act hcopied ?_
  have hchmod : Disk.Step d' (.chmod path' true) true d' := rfl
  exact .act hchmod (.pure _ _)

end Runs

/-- A copy that is reported is one exactly when the paths lead to two files, or the file that
both lead to is empty. -/
theorem copyWork_copies_iff {unspec : Unspecified} {cur : Current} {name name' : CString} {d d' : Disk}
    {r : FsReply} (hrun : Runs Disk.Step d (copyWork unspec cur name name') r d')
    (hret : r.ret = 0) :
    ∃ path path', joinFileName unspec cur name fileNameMaxBuf = some path ∧
      joinFileName unspec cur name' fileNameMaxBuf = some path' ∧
      (d.CopiedTo d' path path' ↔
        d.lookup path ≠ d.lookup path' ∨ d.content path = some []) := by
  rw [copyWork] at hrun
  cases hpath : joinFileName unspec cur name fileNameMaxBuf with
  | none =>
    rw [hpath] at hrun
    cases hrun
    cases hret
  | some path =>
    cases hpath' : joinFileName unspec cur name' fileNameMaxBuf with
    | none =>
      rw [hpath, hpath'] at hrun
      cases hrun
      cases hret
    | some path' =>
      rw [hpath, hpath'] at hrun
      refine ⟨path, path', rfl, rfl, ?_⟩
      have hwp : wp Disk.Step ((copyFile path path').bind callReply) (fun r d' => r.ret = 0 →
          (d.CopiedTo d' path path' ↔
            d.lookup path ≠ d.lookup path' ∨ d.content path = some [])) d := by
        rw [wp_bind]
        apply wp_mono _ wp_copyFile
        rintro (_ | _) s hcopied
        · rintro errno s' rfl hzero
          cases hzero
        · exact fun _ => hcopied rfl
      exact wp_sound hwp hrun hret

def twoFiles : Disk where
  lookup path :=
    if path = "/sec_storage/a".toList then some 0
    else if path = "/sec_storage/b".toList then some 1 else none
  data ino := if ino = 0 then some [1, 2, 3] else if ino = 1 then some [] else none
  fromFd := ⟨0, 0⟩
  toFd := ⟨0, 0⟩

def twoReads : CopyScript where
  allocated := true
  rounds := [.reads 1 (some 2), .reads 7 (some 1), .reads 7 none]
  synced := true

theorem copyWork_copies_twoFiles : ∃ d' path path',
    joinFileName musl ⟨0, 0⟩ "a".toList fileNameMaxBuf = some path ∧
      joinFileName musl ⟨0, 0⟩ "b".toList fileNameMaxBuf = some path' ∧
      (twoFiles.CopiedTo d' path path' ↔
        twoFiles.lookup path ≠ twoFiles.lookup path' ∨ twoFiles.content path = some []) := by
  have hcopy : (doCopy twoReads
      (({ twoFiles with fromFd := ⟨0, 0⟩ } : Disk).truncated 1)).map (·.1) = some true := by decide
  obtain ⟨⟨ok, d'⟩, hcopy, rfl⟩ := Option.map_eq_some_iff.mp hcopy
  have hjoin : joinFileName musl ⟨0, 0⟩ "a".toList fileNameMaxBuf = some "/sec_storage/a".toList := by
    decide
  have hjoin' : joinFileName musl ⟨0, 0⟩ "b".toList fileNameMaxBuf = some "/sec_storage/b".toList := by
    decide
  have hrun : Runs Disk.Step twoFiles (copyWork musl ⟨0, 0⟩ "a".toList "b".toList) ⟨0, none⟩ d' :=
    runs_copyWork hjoin hjoin' (by decide) (by decide) rfl rfl (by decide) hcopy
  exact ⟨d', copyWork_copies_iff hrun rfl⟩

/-- `SEC_CP` of a file onto itself leaves it empty, and reports a copy. -/
theorem copyWork_destroys : ∃ d',
    Runs Disk.Step twoFiles (copyWork musl ⟨0, 0⟩ "a".toList "a".toList) ⟨0, none⟩ d' ∧
      joinFileName musl ⟨0, 0⟩ "a".toList fileNameMaxBuf = some "/sec_storage/a".toList ∧
      twoFiles.content "/sec_storage/a".toList = some [1, 2, 3] ∧
      ¬ twoFiles.CopiedTo d' "/sec_storage/a".toList "/sec_storage/a".toList := by
  have hcopy : doCopy twoReads (({ twoFiles with fromFd := ⟨0, 0⟩ } : Disk).truncated 0) =
      some (true, ({ twoFiles with fromFd := ⟨0, 0⟩ } : Disk).truncated 0) := by rfl
  have hjoin : joinFileName musl ⟨0, 0⟩ "a".toList fileNameMaxBuf = some "/sec_storage/a".toList := by
    decide
  have hvalid : isValidFilePath "/sec_storage/a".toList := by decide
  refine ⟨_, runs_copyWork hjoin hjoin hvalid hvalid rfl rfl (by decide) hcopy, hjoin, rfl, ?_⟩
  intro h
  cases h.source

end TeeClient.Teecd
