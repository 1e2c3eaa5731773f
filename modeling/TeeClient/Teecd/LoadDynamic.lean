import Mathlib.Tactic
import TeeClient.Lib.Paths
import TeeClient.Teecd.FsAgent
import TeeClient.Vendor.AppLoad

/-! What `teecd` loads into the TEE: the files that the secure world asks for
(`secfile_load_agent.c`) and those of the dynamic directories (`tee_load_dynamic.c`).  What a
dynamic directory gives depends on the order of its entries. -/

namespace TeeClient.Teecd

open Paths
open Securec
open Vendor.AppLoad (Uuid teeDefaultPath teeFeimaDefaultPath secSuffix)

def dynamicDrvDir : CString := "/vendor/bin/tee_dynamic_drv/".toList
def dynamicSrvDir : CString := "/vendor/bin/tee_dynamic_srv/".toList
def dynamicDrvFeimaDir : CString := "/vendor/etc/passthrough/teeos/dynamic_drv".toList
def dynamicSrvFeimaDir : CString := "/vendor/etc/passthrough/teeos/dynamic_srv".toList
def maxFileNameLen : Nat := 128

inductive SecFileType
  | loadTa
  | loadService
  | loadLib
  | loadDynamicDrv
  deriving DecidableEq, Repr

structure Dirent where
  dName : CString
  isReg : Bool
  noSlash : '/' ∉ dName
  deriving DecidableEq

/-- What `realpath` and `fopen` say about a name, and what `LoadSecFile` makes of a file that is
open, on a descriptor of the driver. -/
structure FileSystem where
  realpath : CString → Option Canonical
  fopen : CString → Bool
  load : CString → SecFileType → Option Uuid → Int

abbrev Directories := CString → Option (List Dirent)

structure Loaded where
  ret : Int
  files : List (CString × Option Int)
  deriving DecidableEq, Repr

section Source

variable (fs : FileSystem) (dirs : Directories) (fd : Int)

def strnlen (s : CString) (maxlen : Nat) : Nat := min s.length maxlen

def endsWith (str suffix : CString) : Bool :=
  let strLen := strnlen str maxFileNameLen
  let suffixLen := strnlen suffix maxFileNameLen
  if strLen < suffixLen ∨ strLen = 0 ∨ maxFileNameLen ≤ strLen ∨ suffixLen = 0 then false
  else str.drop (strLen - suffixLen) = suffix

def loadSecFile (tzFd : Int) (name : CString) (fileType : SecFileType) (uuid : Option Uuid) : Int :=
  if tzFd < 0 then -1 else fs.load name fileType uuid

def openAndLoad (name : CString) (fileType : SecFileType) (uuid : Option Uuid) : Loaded :=
  if fs.fopen name then
    let ret := loadSecFile fs fd name fileType uuid
    ⟨ret, [(name, some ret)]⟩
  else ⟨-1, [(name, none)]⟩

def secFileLoadWork (filePath : CString) (fileType : SecFileType) (uuid : Option Uuid) : Loaded :=
  if fd < 0 then ⟨-1, []⟩
  else
    match fs.realpath filePath with
    | none => ⟨-1, []⟩
    | some realPath =>
      if ¬ teeDefaultPath <+: realPath.text ∧ ¬ teeFeimaDefaultPath <+: realPath.text then ⟨-1, []⟩
      else openAndLoad fs fd realPath.text fileType uuid

def fileName (dynDir : CString) (dirFile : Dirent) : Option CString := do
  let name ← strncatS [] maxFileNameLen dynDir
  strncatS name maxFileNameLen dirFile.dName

def loadOneFile (dynDir : CString) (dirFile : Dirent) (loadType : SecFileType) : Loaded :=
  if endsWith dirFile.dName secSuffix then
    match fileName dynDir dirFile with
    | none => ⟨-1, []⟩
    | some name => openAndLoad fs fd name loadType none
  else ⟨-1, []⟩

def loadEntries (dynDir : CString) (loadType : SecFileType) : List Dirent → Int → Loaded
  | [], ret => ⟨ret, []⟩
  | dirFile :: entries, ret =>
    if dirFile.isReg then
      let one := loadOneFile fs fd dynDir dirFile loadType
      let rest := loadEntries dynDir loadType entries one.ret
      ⟨rest.ret, one.files ++ rest.files⟩
    else loadEntries dynDir loadType entries ret

def loadOneDynamicDir (dynDir : CString) (loadType : SecFileType) : Loaded :=
  match dirs dynDir with
  | none => ⟨-1, []⟩
  | some entries => loadEntries fs fd dynDir loadType entries (-1)

abbrev LoadedDirs := List CString × List (CString × Option Int)

def loadFeimaFirst (feimaDir dir : CString) (loadType : SecFileType) : LoadedDirs :=
  let feima := loadOneDynamicDir fs dirs fd feimaDir loadType
  if feima.ret ≠ 0 then
    ([feimaDir, dir], feima.files ++ (loadOneDynamicDir fs dirs fd dir loadType).files)
  else ([feimaDir], feima.files)

def checkPath (drvPath : CString) (drvPathLen : U32) : Option CString :=
  let optLen := strnlen drvPath maxFileNameLen
  if optLen = 0 ∨ maxFileNameLen ≤ optLen ∨ drvPathLen.toNat ≠ optLen then none
  else if strnlen dynamicDrvDir maxFileNameLen = 0 ∨
      maxFileNameLen ≤ strnlen dynamicDrvDir maxFileNameLen then none
  else
    match fs.realpath drvPath, fs.realpath dynamicDrvDir with
    | some trustDrvPath, some trustDrvRootPath =>
      let rootLen := strnlen trustDrvRootPath.text maxFileNameLen
      if rootLen = 0 ∨ maxFileNameLen ≤ rootLen then none
      else
        let optLen := strnlen trustDrvPath.text maxFileNameLen
        if optLen ≤ rootLen ∨ maxFileNameLen ≤ optLen then none
        else if ¬ trustDrvRootPath.text <+: trustDrvPath.text then none
        else some trustDrvPath.text
    | _, _ => none

def loadDynamicDrvDir (drvPath : Option CString) (drvPathLen : U32) : LoadedDirs :=
  match drvPath with
  | none => loadFeimaFirst fs dirs fd dynamicDrvFeimaDir dynamicDrvDir .loadDynamicDrv
  | some drvPath =>
    if drvPathLen = 0 then
      loadFeimaFirst fs dirs fd dynamicDrvFeimaDir dynamicDrvDir .loadDynamicDrv
    else
      match checkPath fs drvPath drvPathLen with
      | none => ([], [])
      | some trustDrvPath =>
        match strncatS trustDrvPath pathMax ['/'] with
        | none => ([], [])
        | some _ => ([drvPath], (loadOneDynamicDir fs dirs fd drvPath .loadDynamicDrv).files)

def loadDynamicSrvDir : LoadedDirs :=
  loadFeimaFirst fs dirs fd dynamicSrvFeimaDir dynamicSrvDir .loadService

end Source

section Specification

variable (fs : FileSystem) (dirs : Directories) (fd : Int)

def SameContents (dirs dirs' : Directories) : Prop :=
  ∀ path, Option.Rel List.Perm (dirs path) (dirs' path)

/-- Loading a directory does the same in whatever order its entries come. -/
structure OrderFree (dynDir : CString) (loadType : SecFileType) : Prop where
  files : ∀ dirs₁ dirs₂, SameContents dirs dirs₁ → SameContents dirs dirs₂ →
    (loadOneDynamicDir fs dirs₁ fd dynDir loadType).files.Perm
      (loadOneDynamicDir fs dirs₂ fd dynDir loadType).files
  result : ∀ dirs₁ dirs₂, SameContents dirs dirs₁ → SameContents dirs dirs₂ →
    ((loadOneDynamicDir fs dirs₁ fd dynDir loadType).ret = 0 ↔
      (loadOneDynamicDir fs dirs₂ fd dynDir loadType).ret = 0)

def SameDecision (load : Directories → LoadedDirs) : Prop :=
  ∀ dirs₁ dirs₂, SameContents dirs dirs₁ → SameContents dirs dirs₂ → (load dirs₁).1 = (load dirs₂).1

def Uniform (dynDir : CString) (loadType : SecFileType) : Prop :=
  ∀ entries, dirs dynDir = some entries →
    (∀ e ∈ entries, e.isReg = true → (loadOneFile fs fd dynDir e loadType).ret = 0) ∨
      ∀ e ∈ entries, e.isReg = true → (loadOneFile fs fd dynDir e loadType).ret ≠ 0

end Specification

section Entries

variable {fs : FileSystem} {fd : Int} {dynDir : CString} {loadType : SecFileType}
  {entries : List Dirent}

theorem files_loadEntries (ret : Int) : (loadEntries fs fd dynDir loadType entries ret).files =
    (entries.filter (·.isReg)).flatMap fun e => (loadOneFile fs fd dynDir e loadType).files := by
  induction entries generalizing ret with
  | nil => rfl
  | cons e entries ih =>
    cases hreg : e.isReg with
    | true => simp [loadEntries, hreg, ih]
    | false => simp [loadEntries, hreg, ih]

theorem ret_loadEntries (ret : Int) : (loadEntries fs fd dynDir loadType entries ret).ret =
    ((entries.filter (·.isReg)).map fun e => (loadOneFile fs fd dynDir e loadType).ret).getLastD
      ret := by
  induction entries generalizing ret with
  | nil => rfl
  | cons e entries ih =>
    cases hreg : e.isReg with
    | true =>
      rw [List.filter_cons_of_pos hreg, List.map_cons, List.getLastD_cons]
      simp only [loadEntries, hreg, if_true, ih]
    | false =>
      rw [List.filter_cons_of_neg (by simp [hreg])]
      simp only [loadEntries, hreg, Bool.false_eq_true, if_false, ih]

theorem ret_append_last {e : Dirent} (hreg : e.isReg = true) (ret : Int) :
    (loadEntries fs fd dynDir loadType (entries ++ [e]) ret).ret =
      (loadOneFile fs fd dynDir e loadType).ret := by
  rw [ret_loadEntries, List.filter_append, List.filter_cons_of_pos hreg, List.filter_nil,
    List.map_append, List.map_singleton, List.getLastD_concat]

theorem ret_cases (fs : FileSystem) (fd : Int) (dynDir : CString) (loadType : SecFileType)
    (entries : List Dirent) (ret : Int) : (loadEntries fs fd dynDir loadType entries ret).ret = ret ∧
      (∀ e ∈ entries, e.isReg = false) ∨
    ∃ e ∈ entries, e.isReg = true ∧
      (loadEntries fs fd dynDir loadType entries ret).ret =
        (loadOneFile fs fd dynDir e loadType).ret := by
  rw [ret_loadEntries]
  rcases List.eq_nil_or_concat (entries.filter (·.isReg)) with hnil | ⟨files, e, hlast⟩
  · refine .inl ⟨by rw [hnil]; rfl, fun e he => ?_⟩
    simpa using List.filter_eq_nil_iff.mp hnil e he
  · have he : e ∈ entries.filter (·.isReg) := by simp [hlast]
    obtain ⟨hmem, hreg⟩ := List.mem_filter.mp he
    refine .inr ⟨e, hmem, hreg, ?_⟩
    rw [hlast, List.concat_eq_append, List.map_append, List.map_singleton, List.getLastD_concat]

theorem files_perm {entries' : List Dirent} (h : entries.Perm entries') (ret ret' : Int) :
    (loadEntries fs fd dynDir loadType entries ret).files.Perm
      (loadEntries fs fd dynDir loadType entries' ret').files := by
  rw [files_loadEntries, files_loadEntries]
  exact (h.filter _).flatMap_right _

theorem ret_eq_zero_iff
    (h : (∀ e ∈ entries, e.isReg = true → (loadOneFile fs fd dynDir e loadType).ret = 0) ∨
      ∀ e ∈ entries, e.isReg = true → (loadOneFile fs fd dynDir e loadType).ret ≠ 0) :
    (loadEntries fs fd dynDir loadType entries (-1)).ret = 0 ↔
      ∃ e ∈ entries, e.isReg = true ∧ (loadOneFile fs fd dynDir e loadType).ret = 0 := by
  rcases ret_cases fs fd dynDir loadType entries (-1) with ⟨hret, hnone⟩ | ⟨e, he, hreg, hret⟩
  · rw [hret]
    refine iff_of_false (by decide) ?_
    rintro ⟨e, he, hreg, -⟩
    rw [hnone e he] at hreg
    cases hreg
  · rw [hret]
    constructor
    · exact fun hzero => ⟨e, he, hreg, hzero⟩
    · rintro ⟨e', he', hreg', hzero⟩
      rcases h with hall | hnone
      · exact hall e he hreg
      · exact absurd hzero (hnone e' he' hreg')

end Entries

section Order

variable {fs : FileSystem} {dirs dirs₁ dirs₂ : Directories} {fd : Int} {dynDir : CString}
  {loadType : SecFileType} {entries : List Dirent}

theorem sameContents_update {entries' : List Dirent} (hdir : dirs dynDir = some entries)
    (h : entries.Perm entries') : SameContents dirs (Function.update dirs dynDir (some entries')) := by
  intro path
  by_cases hpath : path = dynDir
  · subst hpath
    rw [hdir, Function.update_self]
    exact .some h
  · rw [Function.update_of_ne hpath]
    cases dirs path with
    | none => exact .none
    | some others => exact .some (.refl others)

theorem SameContents.at (h₁ : SameContents dirs dirs₁) (h₂ : SameContents dirs dirs₂)
    (path : CString) : (dirs path = none ∧ dirs₁ path = none ∧ dirs₂ path = none) ∨
      ∃ entries entries₁ entries₂, dirs path = some entries ∧ dirs₁ path = some entries₁ ∧
        dirs₂ path = some entries₂ ∧ entries.Perm entries₁ ∧ entries.Perm entries₂ := by
  have hone := h₁ path
  have htwo := h₂ path
  generalize dirs path = o, dirs₁ path = o₁, dirs₂ path = o₂ at hone htwo
  cases hone with
  | none =>
    cases htwo with
    | none => exact .inl ⟨rfl, rfl, rfl⟩
  | some hperm₁ =>
    cases htwo with
    | some hperm₂ => exact .inr ⟨_, _, _, rfl, rfl, rfl, hperm₁, hperm₂⟩

theorem loadOneDynamicDir_files_perm (h₁ : SameContents dirs dirs₁) (h₂ : SameContents dirs dirs₂) :
    (loadOneDynamicDir fs dirs₁ fd dynDir loadType).files.Perm
      (loadOneDynamicDir fs dirs₂ fd dynDir loadType).files := by
  rcases h₁.at h₂ dynDir with ⟨-, hone, htwo⟩ | ⟨_, entries₁, entries₂, -, hone, htwo, hp₁, hp₂⟩
  · simp only [loadOneDynamicDir, hone, htwo]
    exact .refl []
  · simp only [loadOneDynamicDir, hone, htwo]
    exact files_perm (hp₁.symm.trans hp₂) _ _

/-- The order of the entries decides about success when some file can be loaded and another one
cannot: whichever comes last. -/
theorem sameResult_iff : (∀ dirs₁ dirs₂, SameContents dirs dirs₁ → SameContents dirs dirs₂ →
      ((loadOneDynamicDir fs dirs₁ fd dynDir loadType).ret = 0 ↔
        (loadOneDynamicDir fs dirs₂ fd dynDir loadType).ret = 0)) ↔
    Uniform fs dirs fd dynDir loadType := by
  constructor
  · intro h entries hdir
    by_contra hmixed
    push Not at hmixed
    obtain ⟨⟨bad, hbad, hbadReg, hbadRet⟩, good, hgood, hgoodReg, hgoodRet⟩ := hmixed
    have hlast (e : Dirent) (he : e ∈ entries) : ∃ entries', entries.Perm (entries' ++ [e]) :=
      ⟨entries.erase e, (List.perm_cons_erase he).trans (List.perm_append_singleton _ _).symm⟩
    obtain ⟨before, hpermBad⟩ := hlast bad hbad
    obtain ⟨before', hpermGood⟩ := hlast good hgood
    have hsame := h _ _ (sameContents_update hdir hpermBad) (sameContents_update hdir hpermGood)
    simp only [loadOneDynamicDir, Function.update_self] at hsame
    rw [ret_append_last hbadReg, ret_append_last hgoodReg] at hsame
    exact hbadRet (hsame.mpr hgoodRet)
  · intro h dirs₁ dirs₂ h₁ h₂
    rcases h₁.at h₂ dynDir with
      ⟨-, hone, htwo⟩ | ⟨entries, entries₁, entries₂, hdir, hone, htwo, hp₁, hp₂⟩
    · simp only [loadOneDynamicDir, hone, htwo]
    · simp only [loadOneDynamicDir, hone, htwo]
      have halike := h entries hdir
      rw [ret_eq_zero_iff (by simpa only [hp₁.mem_iff] using halike),
        ret_eq_zero_iff (by simpa only [hp₂.mem_iff] using halike)]
      simp only [← hp₁.mem_iff, ← hp₂.mem_iff]

theorem sameDecision_loadFeimaFirst {feimaDir dir : CString} :
    SameDecision dirs (loadFeimaFirst fs · fd feimaDir dir loadType) ↔
      Uniform fs dirs fd feimaDir loadType := by
  rw [← sameResult_iff]
  refine forall₄_congr fun dirs₁ dirs₂ _ _ => ?_
  by_cases hone : (loadOneDynamicDir fs dirs₁ fd feimaDir loadType).ret = 0 <;>
    by_cases htwo : (loadOneDynamicDir fs dirs₂ fd feimaDir loadType).ret = 0 <;>
    simp [loadFeimaFirst, hone, htwo]

/-- Loading a directory is independent of the order of its entries exactly when all of its regular
files can be loaded or none of them, and so is the choice of the directories. -/
theorem loadDynamic_orderFree_iff (fs : FileSystem) (dirs : Directories) (fd : Int) :
    (∀ dynDir loadType, OrderFree fs dirs fd dynDir loadType ↔
      Uniform fs dirs fd dynDir loadType) ∧
    (∀ drvPath drvPathLen, SameDecision dirs (loadDynamicDrvDir fs · fd drvPath drvPathLen) ↔
      (drvPath = none ∨ drvPathLen = 0 →
        Uniform fs dirs fd dynamicDrvFeimaDir .loadDynamicDrv)) ∧
    (SameDecision dirs (loadDynamicSrvDir fs · fd) ↔
      Uniform fs dirs fd dynamicSrvFeimaDir .loadService) := by
  refine ⟨fun dynDir loadType => ?_, fun drvPath drvPathLen => ?_, sameDecision_loadFeimaFirst⟩
  · rw [← sameResult_iff]
    exact ⟨OrderFree.result, fun h => ⟨fun _ _ => loadOneDynamicDir_files_perm, h⟩⟩
  · cases drvPath with
    | none => simpa [loadDynamicDrvDir] using sameDecision_loadFeimaFirst
    | some drvPath =>
      by_cases hlen : drvPathLen = 0
      · simpa [loadDynamicDrvDir, hlen] using sameDecision_loadFeimaFirst
      · refine iff_of_true (fun dirs₁ dirs₂ _ _ => ?_) fun h => ?_
        · simp only [loadDynamicDrvDir, hlen, if_false]
          cases checkPath fs drvPath drvPathLen with
          | none => rfl
          | some trustDrvPath =>
            cases hjoin : strncatS trustDrvPath pathMax ['/'] <;> simp only [hjoin]
        · rcases h with h | h
          · cases h
          · exact absurd h hlen

def loadedDrv : Dirent := ⟨"a.sec".toList, true, by decide⟩
def refusedDrv : Dirent := ⟨"b.sec".toList, true, by decide⟩

def oneDriver : FileSystem where
  realpath := fun _ => none
  fopen := fun _ => true
  load := fun name _ _ => if loadedDrv.dName <:+ name then 0 else -1

theorem not_orderFree_mixed :
    ¬ OrderFree oneDriver (fun _ => some [loadedDrv, refusedDrv]) 0 dynamicSrvDir .loadService ∧
      ¬ SameDecision (fun _ => some [loadedDrv, refusedDrv])
        (loadDynamicSrvDir oneDriver · 0) := by
  have hsame : SameContents (fun _ => some [loadedDrv, refusedDrv])
      fun _ => some [refusedDrv, loadedDrv] := fun _ => .some (.swap _ _ [])
  have hself : SameContents (fun _ => some [loadedDrv, refusedDrv])
      fun _ => some [loadedDrv, refusedDrv] := fun _ => .some (.refl _)
  refine ⟨fun h => ?_, fun h => ?_⟩
  · have hresult := h.result _ _ hself hsame
    revert hresult
    decide
  · have hdirs := h _ _ hself hsame
    revert hdirs
    decide

end Order

end TeeClient.Teecd
