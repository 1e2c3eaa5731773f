import Mathlib.Data.List.TakeWhile
import Mathlib.Tactic
import TeeClient.Lib.Paths
import TeeClient.Teecd.FsAgent

/-! Where the paths lead that the file-system agent joins from the names of its commands:
exactly when they stay below the roots of the secure storage. -/

namespace TeeClient.Teecd

open Resumption Paths
open Securec

section Roots

def transientNames : List Name :=
  ["data".toList, "service".toList, "el1".toList, "public".toList]

def persistentRoot : List Name := ["sec_storage".toList]

def transientRoot : List Name := transientNames ++ ["sec_storage_data".toList]

def usersRoot (userId : U32) : List Name :=
  transientNames ++ ["sec_storage_data_users".toList, Nat.toDigits 10 userId.toNat]

def ceRoot (id : Name) : List Name :=
  ["data".toList, "service".toList, "el2".toList, id, "tee".toList, "sec_storage_data".toList]

inductive SecureRoot (t : SecStorage) : List Name → Prop
  | persistent : SecureRoot t persistentRoot
  | transient : SecureRoot t transientRoot
  | users : SecureRoot t (usersRoot t.userId)
  | ce {id : Name} (hce : t.storageId = teeObjectStorageCe) (hid : Ordinary id) :
      SecureRoot t (ceRoot id)

end Roots

section Joined

def joinedPaths (unspec : Unspecified) (t : SecStorage) : List CString :=
  let join name := joinFileName unspec ⟨t.userId, t.storageId⟩ name fileNameMaxBuf
  match t.command with
  | .secOpen _ name | .secCreate name | .secRemove name | .secTruncate _ name | .secAccess _ name =>
    (join name).toList
  | .secRename name name' | .secCp name name' =>
    if (join name).isSome ∧ (join name').isSome then (join name).toList ++ (join name').toList
    else []
  | .secAccess2 _ _ => []
  | .secDeleteAll path => (doJoinFileName path fileNameMaxBuf).toList

/-- Every file-system call on a joined path is strictly below a root. -/
def Confined (unspec : Unspecified) (cur : Current) (t : SecStorage) : Prop :=
  Prog.All (fun a => ∀ p ∈ a.paths, p ∈ joinedPaths unspec t → ∃ root, SecureRoot t root ∧ Below root p)
    (fsWork unspec cur t).2

structure Place where
  dir : List Name
  rest : CString
  deriving DecidableEq, Repr

def Place.path (pl : Place) : CString := '/' :: (pl.dir.flatMap (· ++ ['/']) ++ pl.rest)

def doJoinPlace (name : CString) : Place :=
  if sfsPartitionTransientPerso <+: name ∨ sfsPartitionTransientPrivate <+: name then
    ⟨transientRoot, name.drop sfsPartitionTransient.length⟩
  else if sfsPartitionPersistent <+: name then
    ⟨persistentRoot, name.drop sfsPartitionPersistent.length⟩
  else if secStorageRootDir <+: name then ⟨persistentRoot, name.drop secStorageRootDir.length⟩
  else ⟨persistentRoot, name⟩

def joinPlace (unspec : Unspecified) (t : SecStorage) (name : CString) : Place :=
  if t.storageId = teeObjectStorageCe then
    match strtokR unspec.clearsSaved (ceTemp unspec name) with
    | some (id, some rest) => ⟨ceRoot id, rest⟩
    | _ => ⟨[], []⟩
  else if sfsPartitionTransient <+: name then
    ⟨if t.userId ≠ 0 then usersRoot t.userId else transientRoot,
      name.drop sfsPartitionTransient.length⟩
  else doJoinPlace name

variable {unspec : Unspecified} {name path : CString} {cur : Current} {t : SecStorage}

theorem getTransientDir_eq : getTransientDir fileNameMaxBuf = some userDataDir := by decide

theorem getPersistentDir_eq : getPersistentDir fileNameMaxBuf = some rootDir := by decide

theorem getDefaultDir_eq : getDefaultDir fileNameMaxBuf = some secStorageRootDir := by decide

theorem doJoinFileName_path (h : doJoinFileName name fileNameMaxBuf = some path) :
    path.length < fileNameMaxBuf ∧ path = (doJoinPlace name).path := by
  simp only [doJoinFileName, Option.bind_eq_bind, Option.bind_eq_some_iff] at h
  obtain ⟨dir, hdir, hpath⟩ := h
  obtain ⟨-, hlen, rfl⟩ := strncatS_eq_some.mp hpath
  rw [← List.length_append] at hlen
  refine ⟨hlen, ?_⟩
  simp only [doJoinDir, getTransientDir_eq, getPersistentDir_eq, getDefaultDir_eq] at hdir
  simp only [doJoinPlace]
  split_ifs at hdir ⊢ with htrans hpers hroot
  · obtain rfl := Option.some.inj hdir
    have hpre : sfsPartitionTransient <+: name := by
      rcases htrans with hpre | hpre
      · exact List.IsPrefix.trans (by decide) hpre
      · exact List.IsPrefix.trans (by decide) hpre
    obtain ⟨rest, rfl⟩ := hpre
    rw [List.drop_left]
    rfl
  · obtain rfl := Option.some.inj hdir
    obtain ⟨rest, rfl⟩ := hpers
    rw [List.drop_left]
    rfl
  · obtain rfl := Option.some.inj hdir
    obtain ⟨rest, rfl⟩ := hroot
    rw [List.drop_left]
    rfl
  · obtain rfl := Option.some.inj hdir
    rfl

theorem ceRoot_path (id rest : CString) :
    [] ++ secStorageDataCe ++ id ++ secStorageDataCeSuffixDir ++ rest =
      (Place.mk (ceRoot id) rest).path := by
  simp only [Place.path, ceRoot, List.flatMap_cons, List.flatMap_nil, List.append_assoc,
    List.nil_append]
  rfl

theorem usersRoot_path (userId : U32) (rest : CString) :
    userDataDir ++ sfsPartitionUserSymlink ++ (Nat.toDigits 10 userId.toNat ++ ['/']) ++ rest =
      (Place.mk (usersRoot userId) rest).path := by
  simp only [Place.path, usersRoot, transientNames, List.flatMap_cons, List.flatMap_nil,
    List.flatMap_append, List.append_assoc, List.nil_append]
  rfl

theorem joinFileNameForStorageCe_path
    (h : joinFileNameForStorageCe unspec name fileNameMaxBuf = some path) :
    ∃ id rest, strtokR unspec.clearsSaved (ceTemp unspec name) = some (id, some rest) ∧
      path.length < fileNameMaxBuf ∧ path = (Place.mk (ceRoot id) rest).path := by
  rw [joinFileNameForStorageCe] at h
  by_cases hlong : fileNameMaxBuf < name.length
  · rw [if_pos hlong] at h
    cases h
  rw [if_neg hlong] at h
  simp only [Option.bind_eq_bind, Option.bind_eq_some_iff] at h
  obtain ⟨⟨id, saved⟩, htok, p, hp, q, hq, r, hr, rest, hrest, hpath⟩ := h
  obtain rfl : saved = some rest := hrest
  obtain ⟨-, -, rfl⟩ := strncatS_eq_some.mp hp
  obtain ⟨-, -, rfl⟩ := strncatS_eq_some.mp hq
  obtain ⟨-, -, rfl⟩ := strncatS_eq_some.mp hr
  obtain ⟨-, hlen, rfl⟩ := strncatS_eq_some.mp hpath
  rw [← List.length_append] at hlen
  exact ⟨id, rest, htok, hlen, ceRoot_path id rest⟩

theorem joinFileNameTransient_path {rest : CString}
    (h : joinFileNameTransient cur (sfsPartitionTransient ++ rest) fileNameMaxBuf = some path) :
    path.length < fileNameMaxBuf ∧
      path = (Place.mk (if cur.userId ≠ 0 then usersRoot cur.userId else transientRoot) rest).path := by
  rw [joinFileNameTransient, getTransientDir_eq, Option.bind_eq_bind, Option.bind_some] at h
  by_cases huser : cur.userId ≠ 0
  · rw [if_pos huser] at h ⊢
    simp only [Option.bind_eq_bind, Option.bind_eq_some_iff] at h
    obtain ⟨user, huserPath, p, hp, q, hq, -, -, h⟩ := h
    obtain ⟨-, -, rfl⟩ := strncatS_eq_some.mp hp
    obtain ⟨-, -, rfl⟩ := strncatS_eq_some.mp hq
    obtain ⟨-, hlen, rfl⟩ := strncatS_eq_some.mp h
    rw [← List.length_append] at hlen
    refine ⟨hlen, ?_⟩
    rw [snprintfS, Option.ite_none_right_eq_some, Option.some.injEq] at huserPath
    obtain ⟨-, rfl⟩ := huserPath
    rw [List.drop_left]
    exact usersRoot_path cur.userId rest
  · rw [if_neg huser] at h ⊢
    obtain ⟨-, hlen, rfl⟩ := strncatS_eq_some.mp h
    rw [← List.length_append] at hlen
    exact ⟨hlen, rfl⟩

theorem joinFileName_path
    (h : joinFileName unspec ⟨t.userId, t.storageId⟩ name fileNameMaxBuf = some path) :
    path.length < fileNameMaxBuf ∧ path = (joinPlace unspec t name).path := by
  simp only [joinFileName] at h
  simp only [joinPlace]
  split_ifs at h with hcheck hce htrans
  · obtain ⟨id, rest, htok, hpath⟩ := joinFileNameForStorageCe_path h
    rw [if_pos hce, htok]
    exact hpath
  · obtain ⟨rest, rfl⟩ := htrans
    rw [if_neg hce, if_pos (List.prefix_append _ _), List.drop_left]
    exact joinFileNameTransient_path h
  · rw [if_neg hce, if_neg htrans]
    exact doJoinFileName_path h

def joinedPlaces (unspec : Unspecified) (t : SecStorage) : List Place :=
  let join name := joinFileName unspec ⟨t.userId, t.storageId⟩ name fileNameMaxBuf
  let place name := (join name).toList.map fun _ => joinPlace unspec t name
  match t.command with
  | .secOpen _ name | .secCreate name | .secRemove name | .secTruncate _ name | .secAccess _ name =>
    place name
  | .secRename name name' | .secCp name name' =>
    if (join name).isSome ∧ (join name').isSome then place name ++ place name' else []
  | .secAccess2 _ _ => []
  | .secDeleteAll path =>
    (doJoinFileName path fileNameMaxBuf).toList.map fun _ => doJoinPlace path

theorem joinedPaths_eq (unspec : Unspecified) (t : SecStorage) :
    joinedPaths unspec t = (joinedPlaces unspec t).map Place.path := by
  have hjoin (name : CString) : (joinFileName unspec ⟨t.userId, t.storageId⟩ name fileNameMaxBuf).toList =
      ((joinFileName unspec ⟨t.userId, t.storageId⟩ name fileNameMaxBuf).toList.map
        fun _ => joinPlace unspec t name).map Place.path := by
    cases h : joinFileName unspec ⟨t.userId, t.storageId⟩ name fileNameMaxBuf with
    | none => rfl
    | some path => simp [(joinFileName_path h).2]
  have hdo (name : CString) : (doJoinFileName name fileNameMaxBuf).toList =
      ((doJoinFileName name fileNameMaxBuf).toList.map fun _ => doJoinPlace name).map Place.path := by
    cases h : doJoinFileName name fileNameMaxBuf with
    | none => rfl
    | some path => simp [(doJoinFileName_path h).2]
  simp only [joinedPaths, joinedPlaces]
  cases t.command with
  | secOpen _ name | secCreate name | secRemove name | secTruncate _ name | secAccess _ name =>
    exact hjoin name
  | secRename name name' | secCp name name' =>
    dsimp only
    split_ifs
    · rw [List.map_append, ← hjoin, ← hjoin]
    · rfl
  | secAccess2 _ _ => rfl
  | secDeleteAll path => exact hdo path

end Joined

section Resolved

def Place.lands (pl : Place) : List Name :=
  (reduce (components pl.rest)).down ++ (walk [] pl.dir).drop (reduce (components pl.rest)).up

theorem Place.resolve_path {pl : Place} (h : ∀ c ∈ pl.dir, '/' ∉ c) :
    resolve pl.path = pl.lands.reverse := by
  have hdir (dir : List Name) (hd : ∀ c ∈ dir, '/' ∉ c) (rest : CString) :
      components (dir.flatMap (· ++ ['/']) ++ rest) = dir ++ components rest := by
    induction dir with
    | nil => rfl
    | cons c dir ih =>
      rw [List.forall_mem_cons] at hd
      rw [List.flatMap_cons, List.append_assoc, List.append_assoc, List.singleton_append,
        components_append, components_of_notMem hd.1, ih hd.2]
      rfl
  have hpath : components pl.path = [] :: (pl.dir ++ components pl.rest) := by
    rw [Place.path, ← List.nil_append ('/' :: _), components_append, hdir pl.dir h]
    rfl
  rw [resolve, hpath, Place.lands, ← walk_eq_reduce, ← walk_append]
  rfl

def SecureBelow (t : SecStorage) (names : List Name) : Prop :=
  ∃ root, SecureRoot t root ∧ root <+: names ∧ root ≠ names

/-- The name stays in the directory it is put in, and names something there. -/
structure Place.Stays (pl : Place) : Prop where
  dir : ∀ c ∈ pl.dir, Ordinary c
  up : (reduce (components pl.rest)).up = 0
  down : (reduce (components pl.rest)).down ≠ []

/-- The name climbs out of the directory it is put in, or the directory is not what it
looks like, and the names that follow spell the way back below a root. -/
structure Place.Returns (t : SecStorage) (pl : Place) : Prop where
  leaves : (∀ c ∈ pl.dir, Ordinary c) → (reduce (components pl.rest)).up ≠ 0
  back : SecureBelow t pl.lands.reverse

inductive StorageDir (t : SecStorage) : List Name → Prop
  | persistent : StorageDir t persistentRoot
  | transient : StorageDir t transientRoot
  | users : StorageDir t (usersRoot t.userId)
  | ce {id : Name} (hce : t.storageId = teeObjectStorageCe) (hne : id ≠ []) (hid : '/' ∉ id) :
      StorageDir t (ceRoot id)

variable {t : SecStorage} {pl : Place} {dir root : List Name}

theorem slash_notMem_toDigits (n : Nat) : '/' ∉ Nat.toDigits 10 n := by
  intro h
  have := Nat.isDigit_of_mem_toDigits (by decide) (by decide) h
  exact absurd this (by decide)

theorem ordinary_usersRoot {userId : U32} : ∀ c ∈ usersRoot userId, Ordinary c := by
  have hfixed : ∀ c ∈ transientNames ++ ["sec_storage_data_users".toList], Ordinary c := by decide
  intro c hc
  rcases List.mem_append.mp hc with hc | hc
  · exact hfixed c (List.mem_append_left _ hc)
  rcases List.mem_cons.mp hc with rfl | hc
  · decide
  rw [List.mem_singleton.mp hc]
  have hdot : '.' ∉ Nat.toDigits 10 userId.toNat := by
    intro h
    have := Nat.isDigit_of_mem_toDigits (by decide) (by decide) h
    exact absurd this (by decide)
  refine ⟨Nat.toDigits_ne_nil, ?_, ?_⟩
  · intro h
    simp [h] at hdot
  · intro h
    simp [h] at hdot

theorem StorageDir.slash_notMem (h : StorageDir t dir) : ∀ c ∈ dir, '/' ∉ c := by
  cases h with
  | persistent => decide
  | transient => decide
  | users =>
    have hfixed : ∀ c ∈ transientNames ++ ["sec_storage_data_users".toList], '/' ∉ c := by decide
    intro c hc
    rcases List.mem_append.mp hc with hc | hc
    · exact hfixed c (List.mem_append_left _ hc)
    · rcases List.mem_cons.mp hc with rfl | hc
      · decide
      · rw [List.mem_singleton.mp hc]
        exact slash_notMem_toDigits _
  | @ce id hce hne hid =>
    intro c hc
    simp only [ceRoot, List.mem_cons, List.not_mem_nil, or_false] at hc
    rcases hc with rfl | rfl | rfl | rfl | rfl | rfl
    · decide
    · decide
    · decide
    · exact hid
    · decide
    · decide

theorem StorageDir.secureRoot (h : StorageDir t dir) (hord : ∀ c ∈ dir, Ordinary c) :
    SecureRoot t dir := by
  cases h with
  | persistent => exact .persistent
  | transient => exact .transient
  | users => exact .users
  | @ce id hce hne hid => exact .ce hce (hord id (by simp [ceRoot]))

theorem SecureRoot.eq_of_prefix (hroot : SecureRoot t root) (hdir : SecureRoot t dir)
    (h : root <+: dir) : root = dir := by
  cases hroot <;> cases hdir <;>
    simp_all [persistentRoot, transientRoot, usersRoot, ceRoot, transientNames,
      List.cons_prefix_cons]

theorem Place.lands_reverse (hord : ∀ c ∈ pl.dir, Ordinary c)
    (hup : (reduce (components pl.rest)).up = 0) :
    pl.lands.reverse = pl.dir ++ (reduce (components pl.rest)).down.reverse := by
  have hwalk : walk [] pl.dir = pl.dir.reverse := by simpa using walk_ordinary [] hord
  simp [Place.lands, hwalk, hup]

theorem below_iff (h : StorageDir t pl.dir) :
    (∃ root, SecureRoot t root ∧ Below root pl.path) ↔ pl.Stays ∨ pl.Returns t := by
  simp only [Below, Place.resolve_path h.slash_notMem]
  change SecureBelow t pl.lands.reverse ↔ _
  by_cases hord : ∀ c ∈ pl.dir, Ordinary c
  case neg =>
    constructor
    · intro hback
      exact .inr ⟨fun hord' => absurd hord' hord, hback⟩
    · rintro (hstays | hreturns)
      · exact absurd hstays.dir hord
      · exact hreturns.back
  by_cases hup : (reduce (components pl.rest)).up = 0
  case neg =>
    constructor
    · intro hback
      exact .inr ⟨fun _ => hup, hback⟩
    · rintro (hstays | hreturns)
      · exact absurd hstays.up hup
      · exact hreturns.back
  rw [Place.lands_reverse hord hup]
  have hdir := h.secureRoot hord
  constructor
  · rintro ⟨root, hroot, hpre, hne⟩
    refine .inl ⟨hord, hup, fun hdown => ?_⟩
    rw [hdown, List.reverse_nil, List.append_nil] at hpre hne
    exact hne (hroot.eq_of_prefix hdir hpre)
  · rintro (hstays | hreturns)
    · refine ⟨pl.dir, hdir, List.prefix_append _ _, fun heq => hstays.down ?_⟩
      simpa using heq
    · exact absurd hup (hreturns.leaves hord)

end Resolved

section Places

variable {unspec : Unspecified} {name id rest : CString} {t : SecStorage}

theorem strtokR_eq_some {clearsSaved : Bool} (h : strtokR clearsSaved name = some (id, some rest)) :
    id ≠ [] ∧ '/' ∉ id ∧ rest <:+ name := by
  simp only [strtokR] at h
  have hsuf : name.dropWhile (· = '/') <:+ name := List.dropWhile_suffix _
  cases hs : name.dropWhile (· = '/') with
  | nil =>
    rw [hs] at h
    cases h
  | cons c s =>
    rw [hs] at h hsuf
    obtain ⟨rfl, hsaved⟩ := Prod.mk.inj (Option.some.inj h)
    have hc : c ≠ '/' := by
      have := List.head?_dropWhile_not (p := fun x => decide (x = '/')) (l := name)
      rw [hs] at this
      simpa using this
    refine ⟨?_, ?_, ?_⟩
    · rw [List.takeWhile_cons_of_pos (by simpa using hc)]
      simp
    · intro hmem
      have := List.mem_takeWhile_imp hmem
      simp at this
    · have hstop := (List.dropWhile_suffix (l := c :: s) (· ≠ '/')).trans hsuf
      cases hd : (c :: s).dropWhile (· ≠ '/') with
      | nil =>
        rw [hd] at hsaved
        dsimp only at hsaved
        split_ifs at hsaved
        obtain rfl := Option.some.inj hsaved
        exact List.nil_suffix
      | cons d u =>
        rw [hd] at hsaved hstop
        obtain rfl := Option.some.inj hsaved
        exact (List.suffix_cons d u).trans hstop

theorem storageDir_doJoinPlace (name : CString) : StorageDir t (doJoinPlace name).dir := by
  simp only [doJoinPlace]
  split_ifs
  · exact .transient
  · exact .persistent
  · exact .persistent
  · exact .persistent

theorem storageDir_joinPlace
    (h : (joinFileName unspec ⟨t.userId, t.storageId⟩ name fileNameMaxBuf).isSome) :
    StorageDir t (joinPlace unspec t name).dir := by
  obtain ⟨path, hpath⟩ := Option.isSome_iff_exists.mp h
  simp only [joinFileName] at hpath
  simp only [joinPlace]
  split_ifs at hpath with hcheck hce htrans
  · obtain ⟨id, rest, htok, -⟩ := joinFileNameForStorageCe_path hpath
    rw [if_pos hce, htok]
    obtain ⟨hne, hid, -⟩ := strtokR_eq_some htok
    exact .ce hce hne hid
  · rw [if_neg hce, if_pos htrans]
    dsimp only
    split_ifs
    · exact .users
    · exact .transient
  · rw [if_neg hce, if_neg htrans]
    exact storageDir_doJoinPlace name

theorem storageDir_of_mem {pl : Place} (h : pl ∈ joinedPlaces unspec t) : StorageDir t pl.dir := by
  have hplace (name : CString) (hpl : pl ∈ (joinFileName unspec ⟨t.userId, t.storageId⟩ name
      fileNameMaxBuf).toList.map fun _ => joinPlace unspec t name) : StorageDir t pl.dir := by
    obtain ⟨path, hpath, rfl⟩ := List.mem_map.mp hpl
    exact storageDir_joinPlace (by simp [Option.mem_toList.mp hpath])
  simp only [joinedPlaces] at h
  cases hcmd : t.command with
  | secOpen _ name | secCreate name | secRemove name | secTruncate _ name | secAccess _ name =>
    rw [hcmd] at h
    exact hplace name h
  | secRename name name' | secCp name name' =>
    rw [hcmd] at h
    dsimp only at h
    split_ifs at h
    · rcases List.mem_append.mp h with h | h
      · exact hplace name h
      · exact hplace name' h
    · cases h
  | secAccess2 _ _ =>
    rw [hcmd] at h
    cases h
  | secDeleteAll path =>
    rw [hcmd] at h
    obtain ⟨path', -, rfl⟩ := List.mem_map.mp h
    exact storageDir_doJoinPlace path

def NameChecked (t : SecStorage) (name : CString) : Prop :=
  t.storageId = teeObjectStorageCe → name.length ≠ fileNameMaxBuf

theorem rest_part_of_name (hchecked : NameChecked t name)
    (h : (joinFileName unspec ⟨t.userId, t.storageId⟩ name fileNameMaxBuf).isSome) :
    (joinPlace unspec t name).rest <:+: name := by
  obtain ⟨path, hpath⟩ := Option.isSome_iff_exists.mp h
  simp only [joinFileName] at hpath
  simp only [joinPlace]
  split_ifs at hpath with hcheck hce htrans
  · obtain ⟨id, rest, htok, -⟩ := joinFileNameForStorageCe_path hpath
    rw [if_pos hce, htok]
    have hshort : name.length < fileNameMaxBuf := by
      have hlong : ¬ fileNameMaxBuf < name.length := by
        intro hlong
        rw [joinFileNameForStorageCe, if_pos hlong] at hpath
        cases hpath
      have := hchecked hce
      omega
    rw [ceTemp, if_pos hshort] at htok
    exact (strtokR_eq_some htok).2.2.isInfix
  · rw [if_neg hce, if_pos htrans]
    exact (List.drop_suffix _ _).isInfix
  · rw [if_neg hce, if_neg htrans]
    simp only [doJoinPlace]
    split_ifs
    · exact (List.drop_suffix _ _).isInfix
    · exact (List.drop_suffix _ _).isInfix
    · exact (List.drop_suffix _ _).isInfix
    · exact List.infix_rfl

theorem reduce_joinPlace (hchecked : NameChecked t name)
    (h : (joinFileName unspec ⟨t.userId, t.storageId⟩ name fileNameMaxBuf).isSome) :
    (reduce (components (joinPlace unspec t name).rest)).up = 0 ∨
      reduce (components (joinPlace unspec t name).rest) = ⟨1, []⟩ := by
  apply reduce_of_checked
  intro hdots
  have hname : ¬ fileNameInvalidStr <:+: name := by
    obtain ⟨path, hpath⟩ := Option.isSome_iff_exists.mp h
    simp only [joinFileName] at hpath
    split_ifs at hpath with hcheck
    all_goals simpa [checkFileNameAndPath] using hcheck
  exact hname (hdots.trans (rest_part_of_name hchecked h))

end Places

section NoReturn

variable {t : SecStorage} {dir root : List Name} {pl : Place}

theorem SecureRoot.shape (h : SecureRoot t root) (names : List Name) (hpre : root <+: names) :
    (∃ ns, names = "sec_storage".toList :: ns) ∨
    (∃ c ns, names = transientNames ++ c :: ns ∧
      (c = "sec_storage_data".toList ∨ c = "sec_storage_data_users".toList ∧ ns ≠ [])) ∨
    ∃ id ns, names = ceRoot id ++ ns := by
  obtain ⟨ns, rfl⟩ := hpre
  cases h with
  | persistent => exact .inl ⟨ns, rfl⟩
  | transient => exact .inr (.inl ⟨_, ns, rfl, .inl rfl⟩)
  | users => exact .inr (.inl ⟨_, _ :: ns, rfl, .inr ⟨rfl, by simp⟩⟩)
  | @ce id hce hid => exact .inr (.inr ⟨id, ns, rfl⟩)

theorem not_secureBelow {names : List Name} (hpers : ∀ ns, names ≠ "sec_storage".toList :: ns)
    (htrans : ∀ c ns, names = transientNames ++ c :: ns → c ≠ "sec_storage_data".toList ∧
      (c = "sec_storage_data_users".toList → ns = []))
    (hce : ∀ id ns, names ≠ ceRoot id ++ ns) : ¬ SecureBelow t names := by
  rintro ⟨root, hroot, hpre, -⟩
  rcases hroot.shape names hpre with ⟨ns, heq⟩ | ⟨c, ns, heq, hc⟩ | ⟨id, ns, heq⟩
  · exact hpers ns heq
  · rcases hc with hc | ⟨hc, hns⟩
    · exact (htrans c ns heq).1 hc
    · exact hns ((htrans c ns heq).2 hc)
  · exact hce id ns heq

theorem StorageDir.not_secureBelow_dropLast (h : StorageDir t dir) :
    ¬ SecureBelow t dir.dropLast := by
  cases h <;> refine not_secureBelow ?_ ?_ ?_ <;>
    simp [persistentRoot, transientRoot, usersRoot, ceRoot, transientNames]

theorem not_secureBelow_dots {id : Name} (h : id = ['.'] ∨ id = ['.', '.']) (down : List Name) :
    ¬ SecureBelow t (down ++ walk [] (ceRoot id)).reverse ∧
      ¬ SecureBelow t ((walk [] (ceRoot id)).drop 1).reverse := by
  rcases h with rfl | rfl <;> constructor <;> refine not_secureBelow ?_ ?_ ?_ <;>
    simp [ceRoot, walk, step, transientNames]

theorem StorageDir.ordinary_or_dots (h : StorageDir t dir) :
    (∀ c ∈ dir, Ordinary c) ∨ ∃ id, dir = ceRoot id ∧ (id = ['.'] ∨ id = ['.', '.']) := by
  cases h with
  | persistent => exact .inl (by decide)
  | transient => exact .inl (by decide)
  | users => exact .inl ordinary_usersRoot
  | @ce id hce hne hid =>
    by_cases hdots : id = ['.'] ∨ id = ['.', '.']
    · exact .inr ⟨id, rfl, hdots⟩
    rw [not_or] at hdots
    refine .inl fun c hc => ?_
    simp only [ceRoot, List.mem_cons, List.not_mem_nil, or_false] at hc
    rcases hc with rfl | rfl | rfl | rfl | rfl | rfl
    · decide
    · decide
    · decide
    · exact ⟨hne, hdots.1, hdots.2⟩
    · decide
    · decide

theorem not_returns (h : StorageDir t pl.dir)
    (hreduce : (reduce (components pl.rest)).up = 0 ∨ reduce (components pl.rest) = ⟨1, []⟩) :
    ¬ pl.Returns t := by
  rintro ⟨hleaves, hback⟩
  rcases h.ordinary_or_dots with hord | ⟨id, hdir, hdots⟩
  · have hwalk : walk [] pl.dir = pl.dir.reverse := by simpa using walk_ordinary [] hord
    have hone := hreduce.resolve_left (hleaves hord)
    have hlands : pl.lands.reverse = pl.dir.dropLast := by
      simp [Place.lands, hone, hwalk]
    rw [hlands] at hback
    exact h.not_secureBelow_dropLast hback
  · rcases hreduce with hzero | hone
    · simp only [Place.lands, hdir, hzero, List.drop_zero] at hback
      exact (not_secureBelow_dots hdots _).1 hback
    · simp only [Place.lands, hdir, hone, List.nil_append] at hback
      exact (not_secureBelow_dots hdots []).2 hback

end NoReturn

section Calls

variable {q : FsAct → Prop} {unspec : Unspecified} {name name' path path' : CString}
variable {cur : Current}

theorem yields_makeDirs (dirs : List CString) : Prog.Yields true (makeDirs dirs) := by
  induction dirs with
  | nil => rfl
  | cons dir dirs ih => exact ⟨true, true, ih⟩

theorem yields_createDir (h : path.length < fileNameMaxBuf) :
    Prog.Yields true (createDir path fileNameMaxBuf) := by
  rw [createDir, if_neg (by omega)]
  exact ⟨true, yields_makeDirs _⟩

theorem yields_checkPartitionReady (mntDir : CString) :
    Prog.Yields true (checkPartitionReady mntDir) := ⟨some 0, some 1, rfl⟩

theorem yields_getRealFilePath (path : CString) (tPathLen : Nat) :
    Prog.Yields (.ok secStorageRootDir) (getRealFilePath path tPathLen) :=
  ⟨some secStorageRootDir, rfl⟩

theorem all_unlinkRecursive (h : Prog.All q (unlinkRecursive path)) : q (.lstat path) := by
  rw [unlinkRecursive] at h
  exact h.1

theorem all_openWork {create : Bool} {mode : CString} (hlen : path.length < fileNameMaxBuf)
    (hjoin : joinFileName unspec cur name fileNameMaxBuf = some path)
    (h : Prog.All q (openWork unspec cur create mode name)) :
    q (.stat path) ∨ q (.realpath path) := by
  rw [openWork, hjoin] at h
  have hopen : Prog.All q (openJoined create path mode) := by
    by_cases hpers : sfsPartitionPersistent <:+: path
    · simp only [if_pos hpers] at h
      exact (yields_checkPartitionReady _).all_of_bind h
    · simp only [if_neg hpers] at h
      exact h
  cases create with
  | false => exact .inl hopen.1
  | true =>
    have hreal := (yields_createDir hlen).all_of_bind hopen
    exact .inr hreal.1

theorem all_copyFile (h : Prog.All q (copyFile path path')) :
    q (.realpath path) ∧ q (.realpath path') := by
  refine ⟨h.1, ?_⟩
  have hto := (yields_getRealFilePath path pathMax).all_of_bind h
  exact hto.1

end Calls

section Main

variable {unspec : Unspecified} {cur : Current} {t : SecStorage}

/-- A handler that has joined its names goes on to a call on each of the paths, for some
answers of the system. -/
theorem confined_iff_paths : Confined unspec cur t ↔
    ∀ p ∈ joinedPaths unspec t, ∃ root, SecureRoot t root ∧ Below root p := by
  constructor
  case mpr =>
    intro h
    have hall : ∀ a : FsAct, ∀ p ∈ a.paths, p ∈ joinedPaths unspec t →
        ∃ root, SecureRoot t root ∧ Below root p := fun _ p _ hp => h p hp
    exact Prog.All.of_forall hall
  intro h p hp
  -- what the handler's first call on a joined path gives
  have hcall {a : FsAct} (ha : ∀ p' ∈ a.paths, p' ∈ joinedPaths unspec t →
      ∃ root, SecureRoot t root ∧ Below root p') (hpa : p ∈ a.paths) :
      ∃ root, SecureRoot t root ∧ Below root p := ha p hpa hp
  have hmem := hp
  simp only [Confined] at h
  simp only [joinedPaths] at hmem
  cases hcmd : t.command with
  | secOpen mode name =>
    simp only [hcmd, Option.mem_toList] at hmem
    simp only [fsWork, hcmd] at h
    rcases all_openWork (joinFileName_path hmem).1 hmem h with h | h
    · exact hcall h (by simp [FsAct.paths])
    · exact hcall h (by simp [FsAct.paths])
  | secCreate name =>
    simp only [hcmd, Option.mem_toList] at hmem
    simp only [fsWork, hcmd] at h
    rcases all_openWork (joinFileName_path hmem).1 hmem h with h | h
    · exact hcall h (by simp [FsAct.paths])
    · exact hcall h (by simp [FsAct.paths])
  | secRemove name =>
    simp only [hcmd, Option.mem_toList] at hmem
    simp only [fsWork, hcmd, removeWork, hmem] at h
    exact hcall (all_unlinkRecursive (Prog.All.of_bind h)) (by simp [FsAct.paths])
  | secTruncate len name =>
    simp only [hcmd, Option.mem_toList] at hmem
    simp only [fsWork, hcmd, truncateWork, hmem] at h
    exact hcall h.1 (by simp [FsAct.paths])
  | secAccess mode name =>
    simp only [hcmd, Option.mem_toList] at hmem
    simp only [fsWork, hcmd, fileAccessWork, hmem] at h
    exact hcall h.1 (by simp [FsAct.paths])
  | secAccess2 mode name => simp [hcmd] at hmem
  | secDeleteAll name =>
    simp only [hcmd, Option.mem_toList] at hmem
    simp only [fsWork, hcmd, deleteAllWork, hmem] at h
    exact hcall (all_unlinkRecursive (Prog.All.of_bind h)) (by simp [FsAct.paths])
  | secRename name name' =>
    simp only [hcmd] at hmem
    split_ifs at hmem with hsome
    · obtain ⟨⟨path, hpath⟩, path', hpath'⟩ := And.imp Option.isSome_iff_exists.mp
        Option.isSome_iff_exists.mp hsome
      rw [hpath, hpath'] at hmem
      simp only [fsWork, hcmd, renameWork, hpath, hpath'] at h
      exact hcall h.1 hmem
    · cases hmem
  | secCp name name' =>
    simp only [hcmd] at hmem
    split_ifs at hmem with hsome
    · obtain ⟨⟨path, hpath⟩, path', hpath'⟩ := And.imp Option.isSome_iff_exists.mp
        Option.isSome_iff_exists.mp hsome
      rw [hpath, hpath'] at hmem
      simp only [fsWork, hcmd, copyWork, hpath, hpath'] at h
      obtain ⟨hfrom, hto⟩ := all_copyFile (Prog.All.of_bind h)
      rcases List.mem_append.mp hmem with hmem | hmem
      · exact hcall hfrom hmem
      · exact hcall hto hmem
    · cases hmem

/-- The names of a command go through `JoinFileName`, and none of them fills `temp`. -/
def Checked (t : SecStorage) : Prop :=
  match t.command with
  | .secOpen _ name | .secCreate name | .secRemove name | .secTruncate _ name | .secAccess _ name =>
    NameChecked t name
  | .secRename name name' | .secCp name name' => NameChecked t name ∧ NameChecked t name'
  | .secAccess2 _ _ => True
  | .secDeleteAll _ => False

theorem not_returns_of_checked (hchecked : Checked t) {pl : Place}
    (h : pl ∈ joinedPlaces unspec t) : ¬ pl.Returns t := by
  have hplace (name : CString) (hname : NameChecked t name)
      (hpl : pl ∈ (joinFileName unspec ⟨t.userId, t.storageId⟩ name fileNameMaxBuf).toList.map
        fun _ => joinPlace unspec t name) : ¬ pl.Returns t := by
    obtain ⟨path, hpath, rfl⟩ := List.mem_map.mp hpl
    have hsome : (joinFileName unspec ⟨t.userId, t.storageId⟩ name fileNameMaxBuf).isSome := by
      simp [Option.mem_toList.mp hpath]
    exact not_returns (storageDir_joinPlace hsome) (reduce_joinPlace hname hsome)
  simp only [joinedPlaces] at h
  simp only [Checked] at hchecked
  cases hcmd : t.command with
  | secOpen _ name | secCreate name | secRemove name | secTruncate _ name | secAccess _ name =>
    rw [hcmd] at h hchecked
    exact hplace name hchecked h
  | secRename name name' | secCp name name' =>
    rw [hcmd] at h hchecked
    dsimp only at h
    split_ifs at h
    · rcases List.mem_append.mp h with h | h
      · exact hplace name hchecked.1 h
      · exact hplace name' hchecked.2 h
    · cases h
  | secAccess2 _ _ =>
    rw [hcmd] at h
    cases h
  | secDeleteAll path =>
    rw [hcmd] at hchecked
    exact hchecked.elim

/-- Exactly when the file-system calls on joined paths are confined to the secure storage:
every name stays in the directory it is put in, or it leaves and spells the way back.
Names that were checked do not come back. -/
theorem confined_iff (unspec : Unspecified) (cur : Current) (t : SecStorage) :
    (Confined unspec cur t ↔ ∀ pl ∈ joinedPlaces unspec t, pl.Stays ∨ pl.Returns t) ∧
    (Checked t → (Confined unspec cur t ↔ ∀ pl ∈ joinedPlaces unspec t, pl.Stays)) := by
  have hiff : Confined unspec cur t ↔
      ∀ pl ∈ joinedPlaces unspec t, pl.Stays ∨ pl.Returns t := by
    rw [confined_iff_paths, joinedPaths_eq, List.forall_mem_map]
    exact forall₂_congr fun pl hpl => below_iff (storageDir_of_mem hpl)
  refine ⟨hiff, fun hchecked => hiff.trans (forall₂_congr fun pl hpl => ?_)⟩
  exact or_iff_left (not_returns_of_checked hchecked hpl)

def removeFile : SecStorage where
  userId := 0
  storageId := 0
  command := .secRemove "sec_storage/ta//./file".toList

theorem confined_removeFile : Checked removeFile ∧
    joinedPaths musl removeFile = ["/sec_storage/ta//./file".toList] ∧
    Confined musl ⟨0, 0⟩ removeFile := by
  have hchecked : Checked removeFile := fun h => absurd h (by decide)
  refine ⟨hchecked, by decide, ((confined_iff musl ⟨0, 0⟩ removeFile).2 hchecked).mpr ?_⟩
  intro pl hpl
  have hplaces : joinedPlaces musl removeFile = [⟨persistentRoot, "ta//./file".toList⟩] := by decide
  rw [hplaces, List.mem_singleton] at hpl
  subst hpl
  exact ⟨by decide, by decide, by decide⟩

def deleteOutside : SecStorage where
  userId := 0
  storageId := 0
  command := .secDeleteAll "sec_storage/../etc".toList

def removeParent : SecStorage where
  userId := 0
  storageId := 0
  command := .secRemove "..".toList

theorem confined_fails :
    joinedPaths musl deleteOutside = ["/sec_storage/../etc".toList] ∧
    resolve "/sec_storage/../etc".toList = ["etc".toList] ∧
    ¬ Confined musl ⟨0, 0⟩ deleteOutside ∧
    joinedPaths musl removeParent = ["/sec_storage/..".toList] ∧
    resolve "/sec_storage/..".toList = [] ∧
    ¬ Confined musl ⟨0, 0⟩ removeParent := by
  have hdelete : joinedPaths musl deleteOutside = ["/sec_storage/../etc".toList] := by decide
  have hremove : joinedPaths musl removeParent = ["/sec_storage/..".toList] := by decide
  have hetc : resolve "/sec_storage/../etc".toList = ["etc".toList] := by decide
  have hroot : resolve "/sec_storage/..".toList = [] := by decide
  refine ⟨hdelete, hetc, fun h => ?_, hremove, hroot, fun h => ?_⟩
  · obtain ⟨root, hsec, hpre, -⟩ := confined_iff_paths.mp h "/sec_storage/../etc".toList
      (by rw [hdelete]; exact List.mem_singleton_self _)
    rw [hetc] at hpre
    exact not_secureBelow (by simp) (by simp [transientNames]) (by simp [ceRoot]) ⟨root, hsec, hpre, by
      rintro rfl
      cases hsec⟩
  · obtain ⟨root, hsec, hpre, hne⟩ := confined_iff_paths.mp h "/sec_storage/..".toList
      (by rw [hremove]; exact List.mem_singleton_self _)
    rw [hroot] at hpre hne
    exact hne (List.prefix_nil.mp hpre)

end Main

end TeeClient.Teecd
