import Mathlib.Tactic
import TeeClient.Lib.Paths
import TeeClient.Teecd.LoadDynamic

/-! Where the files lie that `teecd` loads: the checks of `secfile_load_agent.c` and
`tee_load_dynamic.c` compare texts, and a directory is more than the beginning of a text. -/

namespace TeeClient.Teecd

open Paths
open Securec
open Vendor.AppLoad (Uuid teeDefaultPath teeFeimaDefaultPath secSuffix)

section Specification

variable (fs : FileSystem) (dirs : Directories) (fd : Int)

/-- The directory that a name is looked up in: the text up to its last `/`. -/
def dirPart (name : CString) : CString :=
  match (name.reverse.dropWhile (· ≠ '/')).reverse with
  | [] => "./".toList
  | dir => dir

/-- A file that is opened for the secure world is inside one of the two directories. -/
def SecFileInside (filePath : CString) (fileType : SecFileType) (uuid : Option Uuid) : Prop :=
  ∀ file ∈ (secFileLoadWork fs fd filePath fileType uuid).files,
    Below (resolve teeDefaultPath) file.1 ∨ Below (resolve teeFeimaDefaultPath) file.1

/-- A directory that is accepted is inside `DYNAMIC_DRV_DIR`, and it is the one in which the files
are looked up. -/
def DrvDirInside (drvPath : CString) (drvPathLen : U32) : Prop :=
  (checkPath fs drvPath drvPathLen).isSome → ∃ root trust,
    fs.realpath dynamicDrvDir = some root ∧ fs.realpath drvPath = some trust ∧
      Below root.names trust.text ∧
      ∀ file ∈ (loadDynamicDrvDir fs dirs fd (some drvPath) drvPathLen).2,
        fs.realpath (dirPart file.1) = some trust

/-- What begins with the name of one of the directories goes on with a separator. -/
def SecFileBoundary (filePath : CString) : Prop :=
  0 ≤ fd → ∀ p, fs.realpath filePath = some p →
    teeDefaultPath <+: p.text ∨ teeFeimaDefaultPath <+: p.text →
    teeDefaultPath ++ ['/'] <+: p.text ∨ teeFeimaDefaultPath ++ ['/'] <+: p.text

structure Compares (drvPath : CString) (drvPathLen : U32) (root trust : Canonical) : Prop where
  nonempty : drvPath ≠ []
  short : drvPath.length < maxFileNameLen
  length : drvPathLen.toNat = drvPath.length
  longer : root.text.length < trust.text.length
  trustShort : trust.text.length < maxFileNameLen
  isPrefix : root.text <+: trust.text

def Loadable (drvPath : CString) (e : Dirent) : Prop :=
  e.isReg = true ∧ endsWith e.dName secSuffix = true ∧ (fileName drvPath e).isSome

/-- What begins with the name of the root goes on with a separator, and `drvPath` up to its last
`/` leads to the directory that was checked, unless nothing in there is loaded. -/
def DrvDirBoundary (drvPath : CString) (drvPathLen : U32) : Prop :=
  ∀ root trust, fs.realpath dynamicDrvDir = some root → fs.realpath drvPath = some trust →
    Compares drvPath drvPathLen root trust →
    (root.names = [] ∨ root.text ++ ['/'] <+: trust.text) ∧
      (fs.realpath (dirPart drvPath) = some trust ∨
        ∀ entries, dirs drvPath = some entries → ∀ e ∈ entries, ¬ Loadable drvPath e)

end Specification

section SecFiles

variable {fs : FileSystem} {fd : Int}

theorem forall_files_openAndLoad {p : CString → Prop} {name : CString} {fileType : SecFileType}
    {uuid : Option Uuid} :
    (∀ file ∈ (openAndLoad fs fd name fileType uuid).files, p file.1) ↔ p name := by
  rw [openAndLoad]
  split_ifs <;> simp

theorem below_resolve_iff {path : CString} (hcanon : (Canonical.ofPath path).text = path)
    (hne : resolve path ≠ []) (p : Canonical) :
    Below (resolve path) p.text ↔ path ++ ['/'] <+: p.text := by
  have hroot : (Canonical.ofPath path).names ≠ [] := hne
  have hbelow := Canonical.below_iff (p := p) hroot
  rwa [hcanon] at hbelow

theorem secFileInside_iff (filePath : CString) (fileType : SecFileType) (uuid : Option Uuid) :
    SecFileInside fs fd filePath fileType uuid ↔ SecFileBoundary fs fd filePath := by
  rw [SecFileInside, SecFileBoundary, secFileLoadWork]
  by_cases hfd : fd < 0
  · simp [hfd]
  cases hreal : fs.realpath filePath with
  | none => simp [hfd]
  | some p =>
    by_cases hprefix : ¬ teeDefaultPath <+: p.text ∧ ¬ teeFeimaDefaultPath <+: p.text
    · simp [hfd, hprefix]
    · simp only [hfd, hprefix, if_false]
      rw [forall_files_openAndLoad (p := fun name => Below (resolve teeDefaultPath) name ∨
          Below (resolve teeFeimaDefaultPath) name),
        below_resolve_iff (by decide) (by decide), below_resolve_iff (by decide) (by decide)]
      constructor
      · rintro h - q hq -
        cases hq
        exact h
      · intro h
        exact h (not_lt.mp hfd) p rfl (by tauto)

end SecFiles

section DrvDirs

variable {fs : FileSystem} {dirs : Directories} {fd : Int} {drvPath : CString} {drvPathLen : U32}

theorem dirPart_append {dir name : CString} (h : '/' ∉ name) : dirPart (dir ++ name) = dirPart dir := by
  have hskip : (name.reverse ++ dir.reverse).dropWhile (· ≠ '/') =
      dir.reverse.dropWhile (· ≠ '/') := by
    apply List.dropWhile_append_of_pos
    intro c hc
    simp only [decide_eq_true_eq]
    rintro rfl
    exact h (List.mem_reverse.mp hc)
  rw [dirPart, List.reverse_append, hskip, dirPart]

theorem Compares.drvPathLen_ne {root trust : Canonical} (h : Compares drvPath drvPathLen root trust) :
    drvPathLen ≠ 0 := by
  rintro rfl
  exact h.nonempty (List.length_eq_zero_iff.mp h.length.symm)

theorem compares_iff {root trust : Canonical} : Compares drvPath drvPathLen root trust ↔
    ¬ (strnlen drvPath maxFileNameLen = 0 ∨ maxFileNameLen ≤ strnlen drvPath maxFileNameLen ∨
      drvPathLen.toNat ≠ strnlen drvPath maxFileNameLen) ∧
    ¬ (strnlen root.text maxFileNameLen = 0 ∨ maxFileNameLen ≤ strnlen root.text maxFileNameLen) ∧
    ¬ (strnlen trust.text maxFileNameLen ≤ strnlen root.text maxFileNameLen ∨
      maxFileNameLen ≤ strnlen trust.text maxFileNameLen) ∧
    root.text <+: trust.text := by
  have hrootPos := List.length_pos_iff.mpr root.text_ne_nil
  simp only [strnlen, maxFileNameLen]
  constructor
  · rintro ⟨hne, hshort, hlen, hlonger, htrust, hprefix⟩
    rw [← List.length_pos_iff] at hne
    rw [maxFileNameLen] at hshort htrust
    exact ⟨by omega, by omega, by omega, hprefix⟩
  · rintro ⟨hopt, -, htrust, hprefix⟩
    refine ⟨List.length_pos_iff.mp ?_, ?_, ?_, ?_, ?_, hprefix⟩
    all_goals
      try rw [maxFileNameLen]
      omega

theorem checkPath_eq_some_iff {path : CString} : checkPath fs drvPath drvPathLen = some path ↔
    ∃ root trust, fs.realpath dynamicDrvDir = some root ∧ fs.realpath drvPath = some trust ∧
      Compares drvPath drvPathLen root trust ∧ path = trust.text := by
  have hroot : ¬ (strnlen dynamicDrvDir maxFileNameLen = 0 ∨
      maxFileNameLen ≤ strnlen dynamicDrvDir maxFileNameLen) := by decide
  rw [checkPath]
  simp only [hroot, if_false, compares_iff]
  cases fs.realpath drvPath with
  | none => simp
  | some trust =>
    cases fs.realpath dynamicDrvDir with
    | none => simp
    | some root =>
      dsimp only
      constructor
      · intro h
        split_ifs at h with hopt hrootLen hlen hprefix
        exact ⟨root, trust, rfl, rfl, ⟨hopt, hrootLen, hlen, hprefix⟩, (Option.some.inj h).symm⟩
      · rintro ⟨_, _, ⟨⟩, ⟨⟩, ⟨hopt, hrootLen, hlen, hprefix⟩, rfl⟩
        simp only [hopt, hrootLen, hlen, hprefix, not_true, if_false]

theorem isSome_checkPath_iff : (checkPath fs drvPath drvPathLen).isSome ↔
    ∃ root trust, fs.realpath dynamicDrvDir = some root ∧ fs.realpath drvPath = some trust ∧
      Compares drvPath drvPathLen root trust := by
  rw [Option.isSome_iff_exists]
  simp only [checkPath_eq_some_iff]
  constructor
  · rintro ⟨_, root, trust, hroot, htrust, hcmp, rfl⟩
    exact ⟨root, trust, hroot, htrust, hcmp⟩
  · rintro ⟨root, trust, hroot, htrust, hcmp⟩
    exact ⟨_, root, trust, hroot, htrust, hcmp, rfl⟩

theorem loadDynamicDrvDir_of_compares {root trust : Canonical}
    (hroot : fs.realpath dynamicDrvDir = some root) (htrust : fs.realpath drvPath = some trust)
    (hcmp : Compares drvPath drvPathLen root trust) :
    (loadDynamicDrvDir fs dirs fd (some drvPath) drvPathLen).2 =
      (loadOneDynamicDir fs dirs fd drvPath .loadDynamicDrv).files := by
  have hcheck := checkPath_eq_some_iff.mpr ⟨root, trust, hroot, htrust, hcmp, rfl⟩
  have hjoin : strncatS trust.text pathMax ['/'] = some (trust.text ++ ['/']) := by
    have hshort := hcmp.trustShort
    rw [maxFileNameLen] at hshort
    exact strncatS_eq_some.mpr ⟨by decide, by rw [pathMax, List.length_singleton]; omega, rfl⟩
  simp only [loadDynamicDrvDir, hcmp.drvPathLen_ne, if_false, hcheck, hjoin]

theorem fileName_eq_some {e : Dirent} {name : CString} (h : fileName drvPath e = some name) :
    name = drvPath ++ e.dName := by
  simp only [fileName, strncatS, Option.bind_eq_bind, List.nil_append] at h
  split_ifs at h <;> simp_all

theorem forall_files_iff {p : CString → Prop} {loadType : SecFileType} :
    (∀ file ∈ (loadOneDynamicDir fs dirs fd drvPath loadType).files, p (dirPart file.1)) ↔
      ∀ entries, dirs drvPath = some entries → ∀ e ∈ entries, Loadable drvPath e →
        p (dirPart drvPath) := by
  have hone (e : Dirent) (hreg : e.isReg = true) :
      (∀ file ∈ (loadOneFile fs fd drvPath e loadType).files, p (dirPart file.1)) ↔
        (Loadable drvPath e → p (dirPart drvPath)) := by
    rw [loadOneFile]
    by_cases hsec : endsWith e.dName secSuffix = true
    · cases hname : fileName drvPath e with
      | none => simp [Loadable, hname]
      | some name =>
        rw [if_pos hsec, forall_files_openAndLoad (p := fun name => p (dirPart name)),
          fileName_eq_some hname, dirPart_append e.noSlash]
        simp [Loadable, hname, hsec, hreg]
    · simp [Loadable, hsec]
  rw [loadOneDynamicDir]
  cases dirs drvPath with
  | none => simp
  | some entries =>
    simp only [Option.some.injEq, forall_eq', files_loadEntries, List.mem_flatMap, List.mem_filter]
    constructor
    · intro h e he hload
      exact (hone e hload.1).mp (fun file hfile => h file ⟨e, ⟨he, hload.1⟩, hfile⟩) hload
    · rintro h file ⟨e, ⟨he, hreg⟩, hfile⟩
      exact (hone e hreg).mpr (h e he) file hfile

theorem drvDirInside_iff : DrvDirInside fs dirs fd drvPath drvPathLen ↔
    DrvDirBoundary fs dirs drvPath drvPathLen := by
  have hbelow {root trust : Canonical} (hcmp : Compares drvPath drvPathLen root trust) :
      Below root.names trust.text ↔ (root.names = [] ∨ root.text ++ ['/'] <+: trust.text) := by
    by_cases hroot : root.names = []
    · refine iff_of_true ?_ (.inl hroot)
      rw [Below, Canonical.resolve_text, hroot]
      refine ⟨List.nil_prefix, fun htrust => ?_⟩
      have hlonger := hcmp.longer
      rw [Canonical.text, Canonical.text, if_pos hroot, if_pos htrust.symm] at hlonger
      exact lt_irrefl _ hlonger
    · rw [Canonical.below_iff hroot, or_iff_right hroot]
  have hfiles {root trust : Canonical} (hroot : fs.realpath dynamicDrvDir = some root)
      (htrust : fs.realpath drvPath = some trust) (hcmp : Compares drvPath drvPathLen root trust) :
      (∀ file ∈ (loadDynamicDrvDir fs dirs fd (some drvPath) drvPathLen).2,
        fs.realpath (dirPart file.1) = some trust) ↔
      (fs.realpath (dirPart drvPath) = some trust ∨
        ∀ entries, dirs drvPath = some entries → ∀ e ∈ entries, ¬ Loadable drvPath e) := by
    rw [loadDynamicDrvDir_of_compares hroot htrust hcmp,
      forall_files_iff (p := fun dir => fs.realpath dir = some trust)]
    by_cases hdir : fs.realpath (dirPart drvPath) = some trust
    · simp [hdir]
    · simp [hdir]
  rw [DrvDirInside, DrvDirBoundary, isSome_checkPath_iff]
  constructor
  · rintro h root trust hroot htrust hcmp
    obtain ⟨_, _, hroot', htrust', hin, hlook⟩ := h ⟨root, trust, hroot, htrust, hcmp⟩
    obtain rfl := Option.some.inj (hroot'.symm.trans hroot)
    obtain rfl := Option.some.inj (htrust'.symm.trans htrust)
    exact ⟨(hbelow hcmp).mp hin, (hfiles hroot htrust hcmp).mp hlook⟩
  · rintro h ⟨root, trust, hroot, htrust, hcmp⟩
    obtain ⟨hin, hlook⟩ := h root trust hroot htrust hcmp
    exact ⟨root, trust, hroot, htrust, (hbelow hcmp).mpr hin, (hfiles hroot htrust hcmp).mpr hlook⟩

end DrvDirs

section Boundaries

/-- Both checks keep to their directories exactly where the names that begin like one of them go on
with a separator, and the directory that is opened is the one that was checked. -/
theorem loads_inside_iff (fs : FileSystem) (dirs : Directories) (fd : Int)
    (filePath : CString) (fileType : SecFileType) (uuid : Option Uuid) (drvPath : CString)
    (drvPathLen : U32) :
    (SecFileInside fs fd filePath fileType uuid ↔ SecFileBoundary fs fd filePath) ∧
      (DrvDirInside fs dirs fd drvPath drvPathLen ↔ DrvDirBoundary fs dirs drvPath drvPathLen) :=
  ⟨secFileInside_iff filePath fileType uuid, drvDirInside_iff⟩

def plainFiles : FileSystem where
  realpath path := some (.ofPath path)
  fopen _ := true
  load _ _ _ := 0

def siblingFile : CString := "/vendor/bin/../binevil/x.sec".toList
def siblingDir : CString := "/vendor/bin/tee_dynamic_drv_evil/".toList
def bareDir : CString := "/vendor/bin/tee_dynamic_drv/x".toList

/-- A file and a directory beside the ones that are trusted, and a directory without its last
separator, whose files are looked up in the directory above it. -/
theorem not_inside_plainFiles : ¬ SecFileInside plainFiles 0 siblingFile .loadTa none ∧
    ¬ DrvDirInside plainFiles (fun _ => some [loadedDrv]) 0 siblingDir 33 ∧
    ¬ DrvDirInside plainFiles (fun _ => some [loadedDrv]) 0 bareDir 29 := by
  refine ⟨fun h => ?_, fun h => ?_, fun h => ?_⟩
  · have hfile := h ("/vendor/binevil/x.sec".toList, some 0) (by decide)
    revert hfile
    decide
  · obtain ⟨_, _, ⟨⟩, ⟨⟩, hbelow, -⟩ := h (by decide)
    revert hbelow
    decide
  · obtain ⟨_, _, ⟨⟩, ⟨⟩, -, hlook⟩ := h (by decide)
    have hname := hlook ("/vendor/bin/tee_dynamic_drv/xa.sec".toList, some 0) (by decide)
    have hnames := congrArg Canonical.names (Option.some.inj hname)
    revert hnames
    decide

end Boundaries

end TeeClient.Teecd
