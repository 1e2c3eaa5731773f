import Mathlib.Data.List.ReduceOption
import Mathlib.Tactic
import TeeClient.Teecd.FsAgent
import TeeClient.Teecd.Confinement

/-! What `JoinFileName` reads, and what it leaves in `path`, for names around the size of its
buffers. -/

namespace TeeClient.Teecd

open Securec

section Cells

abbrev Cells := List (Option Char)

/-- A search through an array: what it goes over and where it stops, or `none` where it goes on
behind the end of the array. -/
def scan (p : Option Char → Bool) (cells : Cells) : Option (Cells × Cells) :=
  if cells.all p then none else some (cells.takeWhile p, cells.dropWhile p)

def strlenCells (cells : Cells) : Option CString := (scan (· ≠ none) cells).map fun r => r.1.reduceOption

def strtokCells (clearsSaved : Bool) (cells : Cells) :
    Option (Option (CString × Option Cells)) := do
  let (_, token) ← scan (· = some '/') cells
  match token with
  | some _ :: _ =>
    let (id, stop) ← scan (fun c => c ≠ some '/' ∧ c ≠ none) token
    let saved := match stop with
      | some _ :: rest => some rest
      | _ => if clearsSaved then none else some stop
    some (some (id.reduceOption, saved))
  | _ => some none

/-- `temp` in `JoinFileNameForStorageCE`, which is cleared before the name is copied. -/
def tempCells (name : CString) : Cells :=
  name.map some ++ List.replicate (fileNameMaxBuf - name.length) none

def ceUserDir (idString : CString) (pathLen : Nat) : Option CString := do
  let path ← strncpyS pathLen secStorageDataCe
  let path ← strncatS path pathLen idString
  strncatS path pathLen secStorageDataCeSuffixDir

/-- `JoinFileNameForStorageCE`, or `none` where it reads outside `temp`. -/
def ceJoinCells (clearsSaved : Bool) (name : CString) (pathLen : Nat) : Option (Option CString) :=
  if fileNameMaxBuf < name.length then some none
  else do
    match ← strtokCells clearsSaved (tempCells name) with
    | none => some none
    | some (idString, saved) =>
      match ceUserDir idString pathLen with
      | none => some none
      | some path =>
        -- `strlen` of a cleared pointer reads at NULL
        let nameWithoutUserId ← saved
        let rest ← strlenCells nameWithoutUserId
        some (strncatS path pathLen rest)

def joinFileNameCells (clearsSaved : Bool) (cur : Current) (name : CString) (pathLen : Nat) :
    Option (Option CString) :=
  if checkFileNameAndPath name ∧ cur.storageId = teeObjectStorageCe then
    ceJoinCells clearsSaved name pathLen
  else some (joinFileName ⟨[], clearsSaved⟩ cur name pathLen)

end Cells

section Specification

def userPart (name : CString) : CString := (name.dropWhile (· = '/')).takeWhile (· ≠ '/')

def behindUser (name : CString) : CString :=
  ((name.dropWhile (· = '/')).dropWhile (· ≠ '/')).drop 1

def intendedPath (cur : Current) (name : CString) : CString :=
  if cur.storageId = teeObjectStorageCe then
    secStorageDataCe ++ userPart name ++ secStorageDataCeSuffixDir ++ behindUser name
  else if sfsPartitionTransient <+: name then
    if cur.userId ≠ 0 then
      userDataDir ++ sfsPartitionUserSymlink ++ (Nat.toDigits 10 cur.userId.toNat ++ ['/']) ++
        name.drop sfsPartitionTransient.length
    else userDataDir ++ name
  else if sfsPartitionPersistent <+: name then rootDir ++ name
  else if secStorageRootDir <+: name then name
  else secStorageRootDir ++ name

/-- A name that is a user and nothing else, and whose directory fits. -/
structure OnlyUser (name : CString) : Prop where
  user : name.dropWhile (· = '/') ≠ []
  only : '/' ∉ name.dropWhile (· = '/')
  fits : (userPart name).length + 40 < fileNameMaxBuf

/-- Nothing is read outside the buffer, and what is joined is whole. -/
structure JoinsSafely (clearsSaved : Bool) (cur : Current) (name : CString) : Prop where
  inside : joinFileNameCells clearsSaved cur name fileNameMaxBuf ≠ none
  whole : ∀ behind path,
    joinFileName ⟨behind, clearsSaved⟩ cur name fileNameMaxBuf = some path →
      path.length < fileNameMaxBuf ∧ path = intendedPath cur name

end Specification

section Scan

variable {p : Option Char → Bool} {q : Char → Bool} {name : CString}

theorem takeWhile_cells (hp : ∀ c, p (some c) = q c) (hn : p none = false) (s : CString) (m : Nat) :
    (s.map some ++ List.replicate m none).takeWhile p = (s.takeWhile q).map some := by
  induction s with
  | nil =>
    cases m with
    | zero => rfl
    | succ m => rw [List.map_nil, List.nil_append, List.replicate_succ, List.takeWhile_cons, hn]; rfl
  | cons c s ih =>
    rw [List.map_cons, List.cons_append, List.takeWhile_cons, List.takeWhile_cons, hp, ih]
    cases q c <;> rfl

theorem dropWhile_cells (hp : ∀ c, p (some c) = q c) (hn : p none = false) (s : CString) (m : Nat) :
    (s.map some ++ List.replicate m none).dropWhile p =
      (s.dropWhile q).map some ++ List.replicate m none := by
  induction s with
  | nil =>
    cases m with
    | zero => rfl
    | succ m => rw [List.dropWhile_nil, List.map_nil, List.nil_append, List.replicate_succ,
        List.dropWhile_cons, hn]; rfl
  | cons c s ih =>
    rw [List.map_cons, List.cons_append, List.dropWhile_cons, List.dropWhile_cons, hp, ih]
    cases q c <;> rfl

theorem scan_cells (hp : ∀ c, p (some c) = q c) (hn : p none = false) (s : CString) (m : Nat) :
    scan p (s.map some ++ List.replicate m none) =
      if m = 0 ∧ s.all q then none
      else some ((s.takeWhile q).map some, (s.dropWhile q).map some ++ List.replicate m none) := by
  have hall : (s.map some ++ List.replicate m none).all p = true ↔ m = 0 ∧ s.all q = true := by
    rw [List.all_append, List.all_map, List.all_replicate, hn]
    simp only [Bool.and_eq_true, Function.comp_def, hp, Bool.ite_eq_true_distrib]
    by_cases hm : m = 0 <;> simp [hm]
  simp only [scan, hall, takeWhile_cells hp hn, dropWhile_cells hp hn]

@[simp] theorem reduceOption_map_some (s : CString) : (s.map some).reduceOption = s := by
  induction s with
  | nil => rfl
  | cons c s ih => rw [List.map_cons, List.reduceOption_cons_of_some, ih]

theorem strlenCells_eq (s : CString) (m : Nat) :
    strlenCells (s.map some ++ List.replicate m none) = if m = 0 then none else some s := by
  rw [strlenCells, scan_cells (q := fun _ => true) (by simp) (by simp)]
  by_cases hm : m = 0 <;> simp [hm]

theorem strtokCells_eq (clearsSaved : Bool) (s : CString) (m : Nat) :
    strtokCells clearsSaved (s.map some ++ List.replicate m none) =
      if m = 0 ∧ '/' ∉ s.dropWhile (· = '/') then none
      else some ((strtokR clearsSaved s).map fun r =>
        (r.1, r.2.map fun rest => rest.map some ++ List.replicate m none)) := by
  have hlead := scan_cells (p := fun c => c = some '/') (q := fun c => c = '/') (by simp) (by simp)
    s m
  have hid := scan_cells (p := fun c => c ≠ some '/' ∧ c ≠ none) (q := fun c => c ≠ '/')
    (by simp) (by simp) (s.dropWhile (· = '/')) m
  have hslashes : s.all (· = '/') = true ↔ s.dropWhile (· = '/') = [] := by
    rw [List.dropWhile_eq_nil_iff, List.all_eq_true]
  have hstop : (s.dropWhile (· = '/')).all (· ≠ '/') = true ↔ '/' ∉ s.dropWhile (· = '/') := by
    rw [List.all_eq_true]
    constructor
    · intro h hmem
      simpa using h '/' hmem
    · intro h c hc
      simpa using ne_of_mem_of_not_mem hc h
  simp only [hslashes] at hlead
  simp only [hstop] at hid
  simp only [strtokCells, hlead, strtokR]
  cases hs : s.dropWhile (· = '/') with
  | nil =>
    by_cases hm : m = 0
    · simp [hm]
    · obtain ⟨k, rfl⟩ := Nat.exists_eq_succ_of_ne_zero hm
      simp [List.replicate_succ]
  | cons c u =>
    rw [hs] at hid
    rw [if_neg (by simp)]
    simp only [Option.bind_eq_bind, Option.bind_some, List.map_cons, List.cons_append] at hid ⊢
    rw [hid]
    by_cases hout : m = 0 ∧ '/' ∉ c :: u
    · rw [if_pos hout, if_pos hout, Option.bind_none]
    · rw [if_neg hout, if_neg hout]
      simp only [Option.bind_some, Option.map_some, reduceOption_map_some]
      cases hd : (c :: u).dropWhile (· ≠ '/') with
      | cons d v => rfl
      | nil =>
        -- no delimiter, so a NUL ends the token
        have hmem : '/' ∉ c :: u := by
          intro hmem
          simpa using List.dropWhile_eq_nil_iff.mp hd '/' hmem
        have hm : m ≠ 0 := fun hm => hout ⟨hm, hmem⟩
        obtain ⟨k, rfl⟩ := Nat.exists_eq_succ_of_ne_zero hm
        cases clearsSaved <;> rfl

end Scan

section Ce

variable {name : CString}

theorem ceUserDir_eq (id : CString) : ceUserDir id fileNameMaxBuf =
    if id.length + 40 < fileNameMaxBuf then
      some (secStorageDataCe ++ id ++ secStorageDataCeSuffixDir) else none := by
  have hdir : strncpyS fileNameMaxBuf secStorageDataCe = some secStorageDataCe := by decide
  have hlen : secStorageDataCe.length = 18 := by decide
  have hsuf : secStorageDataCeSuffixDir.length = 22 := by decide
  rw [ceUserDir, hdir, Option.bind_eq_bind, Option.bind_some]
  by_cases hid : id.length + 40 < fileNameMaxBuf
  · have h₁ : strncatS secStorageDataCe fileNameMaxBuf id = some (secStorageDataCe ++ id) :=
      strncatS_eq_some.mpr ⟨by decide, by omega, rfl⟩
    rw [if_pos hid, h₁, Option.bind_some]
    exact strncatS_eq_some.mpr ⟨by decide, by rw [List.length_append]; omega, rfl⟩
  · rw [if_neg hid, Option.bind_eq_none_iff]
    intro path h
    obtain ⟨-, -, rfl⟩ := strncatS_eq_some.mp h
    rw [strncatS, if_neg]
    rw [List.length_append]
    omega

theorem strtokR_eq (clearsSaved : Bool) (s : CString) : strtokR clearsSaved s =
    if s.dropWhile (· = '/') = [] then none
    else some (userPart s,
      if '/' ∈ s.dropWhile (· = '/') ∨ clearsSaved = false then some (behindUser s) else none) := by
  rw [strtokR, userPart, behindUser]
  cases hs : s.dropWhile (· = '/') with
  | nil => rfl
  | cons c u =>
    rw [if_neg (List.cons_ne_nil c u)]
    cases hd : (c :: u).dropWhile (· ≠ '/') with
    | nil =>
      have hnone : '/' ∉ c :: u := by
        intro hmem
        simpa using List.dropWhile_eq_nil_iff.mp hd '/' hmem
      simp only [hd, hnone, false_or, List.drop_nil]
      cases clearsSaved <;> rfl
    | cons d v =>
      have hmem : '/' ∈ c :: u := by
        by_contra hnone
        have hall : ∀ x ∈ c :: u, decide (x ≠ '/') = true := fun x hx =>
          decide_eq_true (ne_of_mem_of_not_mem hx hnone)
        cases (List.dropWhile_eq_nil_iff.mpr hall).symm.trans hd
      simp only [hd, hmem, true_or, if_true, List.drop_one, List.tail_cons]

theorem joinFileNameForStorageCe_eq (unspec : Unspecified) (h : name.length ≤ fileNameMaxBuf) :
    joinFileNameForStorageCe unspec name fileNameMaxBuf =
      (strtokR unspec.clearsSaved (ceTemp unspec name)).bind fun r =>
        (ceUserDir r.1 fileNameMaxBuf).bind fun path =>
          r.2.bind fun rest => strncatS path fileNameMaxBuf rest := by
  rw [joinFileNameForStorageCe, if_neg (Nat.not_lt.mpr h)]
  simp only [ceUserDir, Option.bind_eq_bind, Option.bind_assoc]

theorem ceJoinCells_of_lt (unspec : Unspecified) (h : name.length < fileNameMaxBuf)
    (hsaved : unspec.clearsSaved = true → ¬ OnlyUser name) :
    ceJoinCells unspec.clearsSaved name fileNameMaxBuf =
      some (joinFileNameForStorageCe unspec name fileNameMaxBuf) := by
  have hm : fileNameMaxBuf - name.length ≠ 0 := by omega
  rw [joinFileNameForStorageCe_eq unspec h.le, ceTemp, if_pos h, ceJoinCells,
    if_neg (by omega), tempCells, strtokCells_eq, if_neg (fun hout => hm hout.1), strtokR_eq]
  by_cases hne : name.dropWhile (· = '/') = []
  · simp [hne]
  · simp only [if_neg hne, Option.map_some, Option.bind_eq_bind, Option.bind_some, ceUserDir_eq]
    by_cases hfits : (userPart name).length + 40 < fileNameMaxBuf
    · have hkept : '/' ∈ name.dropWhile (· = '/') ∨ unspec.clearsSaved = false := by
        by_contra hnot
        rw [not_or, Bool.not_eq_false] at hnot
        exact hsaved hnot.2 ⟨hne, hnot.1, hfits⟩
      simp only [if_pos hfits, if_pos hkept, Option.map_some, Option.bind_some, strlenCells_eq,
        if_neg hm]
    · simp only [if_neg hfits, Option.bind_none]

theorem ceJoinCells_of_onlyUser (h : name.length < fileNameMaxBuf) (honly : OnlyUser name) :
    ceJoinCells true name fileNameMaxBuf = none := by
  have hm : fileNameMaxBuf - name.length ≠ 0 := by omega
  have hcleared : ¬ ('/' ∈ name.dropWhile (· = '/') ∨ true = false) := by
    simp [honly.only]
  rw [ceJoinCells, if_neg (by omega), tempCells, strtokCells_eq, if_neg (fun hout => hm hout.1),
    strtokR_eq, if_neg honly.user, if_neg hcleared]
  simp only [Option.map_some, Option.map_none, Option.bind_eq_bind, Option.bind_some, ceUserDir_eq,
    if_pos honly.fits, Option.bind_none]

/-- A name that fills `temp` is refused in time only if it is all but a user. -/
theorem ceJoinCells_of_eq (clearsSaved : Bool) (h : name.length = fileNameMaxBuf) :
    ceJoinCells clearsSaved name fileNameMaxBuf =
      if '/' ∈ name.dropWhile (· = '/') ∧ fileNameMaxBuf ≤ (userPart name).length + 40 then some none
      else none := by
  rw [ceJoinCells, if_neg (by omega), tempCells, h, Nat.sub_self, strtokCells_eq]
  by_cases hmem : '/' ∈ name.dropWhile (· = '/')
  · have hne : name.dropWhile (· = '/') ≠ [] := List.ne_nil_of_mem hmem
    rw [if_neg (fun hout => hout.2 hmem), strtokR_eq, if_neg hne, if_pos (.inl hmem)]
    simp only [Option.map_some, Option.bind_eq_bind, Option.bind_some, ceUserDir_eq]
    by_cases hlen : (userPart name).length + 40 < fileNameMaxBuf
    · rw [if_pos hlen, if_neg (by omega)]
      simp only [strlenCells_eq, if_true, Option.bind_none]
    · rw [if_neg hlen, if_pos ⟨hmem, by omega⟩]
  · rw [if_pos ⟨rfl, hmem⟩, if_neg (fun hin => hmem hin.1)]
    rfl

theorem ceJoinCells_of_gt (clearsSaved : Bool) (h : fileNameMaxBuf < name.length) :
    ceJoinCells clearsSaved name fileNameMaxBuf = some none := if_pos h

end Ce

section Whole

variable {behind name path : CString} {cur : Current} {clearsSaved : Bool}

theorem dropWhile_append_of_ne_nil (hne : name.dropWhile (· = '/') ≠ []) :
    (name ++ behind).dropWhile (· = '/') = name.dropWhile (· = '/') ++ behind := by
  rw [List.dropWhile_append, if_neg (by rwa [List.isEmpty_iff])]

theorem userPart_append (hmem : '/' ∈ name.dropWhile (· = '/')) :
    userPart (name ++ behind) = userPart name := by
  rw [userPart, dropWhile_append_of_ne_nil (List.ne_nil_of_mem hmem), List.takeWhile_append, if_neg]
  · rfl
  · intro hlen
    have hall := List.takeWhile_eq_self_iff.mp
      ((List.takeWhile_prefix _).eq_of_length hlen) '/' hmem
    simp at hall

theorem joinFileName_of_inside {r : Option CString}
    (h : joinFileNameCells clearsSaved cur name fileNameMaxBuf = some r) (behind : CString) :
    joinFileName ⟨behind, clearsSaved⟩ cur name fileNameMaxBuf = r := by
  simp only [joinFileNameCells, joinFileName] at h ⊢
  by_cases hcheck : checkFileNameAndPath name
  · by_cases hce : cur.storageId = teeObjectStorageCe
    · rw [if_pos ⟨hcheck, hce⟩] at h
      rw [if_pos hcheck, if_pos hce]
      rcases lt_trichotomy name.length fileNameMaxBuf with hlt | heq | hgt
      · by_cases honly : clearsSaved = true ∧ OnlyUser name
        · obtain ⟨rfl, honly⟩ := honly
          rw [ceJoinCells_of_onlyUser hlt honly] at h
          cases h
        · rw [ceJoinCells_of_lt ⟨behind, clearsSaved⟩ hlt fun hs ho => honly ⟨hs, ho⟩] at h
          exact Option.some.inj h
      · rw [ceJoinCells_of_eq clearsSaved heq] at h
        split_ifs at h with hin
        obtain ⟨hmem, hlen⟩ := hin
        have hne := List.ne_nil_of_mem hmem
        have hmore : (name ++ behind).dropWhile (· = '/') ≠ [] := by
          rw [dropWhile_append_of_ne_nil hne]
          exact List.append_ne_nil_of_left_ne_nil hne behind
        have hfull : ceUserDir (userPart (name ++ behind)) fileNameMaxBuf = none := by
          rw [userPart_append hmem, ceUserDir_eq, if_neg (by omega)]
        rw [← Option.some.inj h, joinFileNameForStorageCe_eq ⟨behind, clearsSaved⟩ heq.le, ceTemp,
          if_neg (by omega), strtokR_eq, if_neg hmore, Option.bind_some, hfull, Option.bind_none]
      · rw [ceJoinCells_of_gt clearsSaved hgt] at h
        rw [← Option.some.inj h, joinFileNameForStorageCe, if_pos hgt]
    · rw [if_neg (fun hand => hce hand.2), if_pos hcheck, if_neg hce] at h
      rw [if_pos hcheck, if_neg hce]
      exact Option.some.inj h
  · rw [if_neg (fun hand => hcheck hand.1), if_neg hcheck] at h
    rw [if_neg hcheck]
    exact Option.some.inj h

theorem joinFileNameTransient_whole (hpre : sfsPartitionTransient <+: name)
    (h : joinFileNameTransient cur name fileNameMaxBuf = some path) :
    path.length < fileNameMaxBuf ∧ path =
      if cur.userId ≠ 0 then
        userDataDir ++ sfsPartitionUserSymlink ++ (Nat.toDigits 10 cur.userId.toNat ++ ['/']) ++
          name.drop sfsPartitionTransient.length
      else userDataDir ++ name := by
  obtain ⟨rest, rfl⟩ := hpre
  obtain ⟨hlen, rfl⟩ := joinFileNameTransient_path h
  refine ⟨hlen, ?_⟩
  rw [List.drop_left]
  split_ifs with huser
  · exact (usersRoot_path cur.userId rest).symm
  · rfl

theorem doJoinFileName_whole (htrans : ¬ sfsPartitionTransient <+: name)
    (h : doJoinFileName name fileNameMaxBuf = some path) :
    path.length < fileNameMaxBuf ∧ path =
      if sfsPartitionPersistent <+: name then rootDir ++ name
      else if secStorageRootDir <+: name then name
      else secStorageRootDir ++ name := by
  have hperso : ¬ (sfsPartitionTransientPerso <+: name ∨ sfsPartitionTransientPrivate <+: name) := by
    rintro (hpre | hpre)
    · exact htrans (List.IsPrefix.trans (by decide) hpre)
    · exact htrans (List.IsPrefix.trans (by decide) hpre)
  obtain ⟨hlen, rfl⟩ := doJoinFileName_path h
  refine ⟨hlen, ?_⟩
  rw [doJoinPlace, if_neg hperso]
  split_ifs with hpers hroot
  · obtain ⟨rest, rfl⟩ := hpers
    rw [List.drop_left]
    rfl
  · obtain ⟨rest, rfl⟩ := hroot
    rw [List.drop_left]
    rfl
  · rfl

theorem joinFileName_whole
    (hin : joinFileNameCells clearsSaved cur name fileNameMaxBuf ≠ none)
    (h : joinFileName ⟨behind, clearsSaved⟩ cur name fileNameMaxBuf = some path) :
    path.length < fileNameMaxBuf ∧ path = intendedPath cur name := by
  obtain ⟨r, hr⟩ := Option.ne_none_iff_exists'.mp hin
  -- what is behind the buffer may as well be nothing
  have hnil : joinFileName ⟨[], clearsSaved⟩ cur name fileNameMaxBuf = some path := by
    rw [joinFileName_of_inside hr, ← h, joinFileName_of_inside hr]
  simp only [joinFileName] at hnil
  rw [intendedPath]
  split_ifs at hnil with hcheck hce htrans
  · rw [if_pos hce]
    have htemp : ceTemp ⟨[], clearsSaved⟩ name = name := by
      rw [ceTemp, List.append_nil, ite_self]
    obtain ⟨id, rest, htok, hlen, rfl⟩ := joinFileNameForStorageCe_path hnil
    rw [htemp, strtokR_eq] at htok
    split_ifs at htok with hnone hkept
    · obtain ⟨rfl, hrest⟩ := Prod.mk.inj (Option.some.inj htok)
      obtain rfl := Option.some.inj hrest
      exact ⟨hlen, (ceRoot_path _ _).symm⟩
    · obtain ⟨-, hrest⟩ := Prod.mk.inj (Option.some.inj htok)
      cases hrest
  · rw [if_neg hce, if_pos htrans]
    exact joinFileNameTransient_whole htrans hnil
  · rw [if_neg hce, if_neg htrans]
    exact doJoinFileName_whole htrans hnil

/-- A name in credential-encrypted storage that is not followed out of `temp`: one that fills
`temp` is refused for its user alone, and behind a user there is something, unless the saved
pointer stays in `temp`. -/
structure StaysInTemp (clearsSaved : Bool) (name : CString) : Prop where
  full : name.length = fileNameMaxBuf →
    '/' ∈ name.dropWhile (· = '/') ∧ fileNameMaxBuf ≤ (userPart name).length + 40
  saved : clearsSaved = true → name.length < fileNameMaxBuf → ¬ OnlyUser name

theorem ceJoinCells_ne_none :
    ceJoinCells clearsSaved name fileNameMaxBuf ≠ none ↔ StaysInTemp clearsSaved name := by
  rcases lt_trichotomy name.length fileNameMaxBuf with hlt | heq | hgt
  · have hfull : name.length ≠ fileNameMaxBuf := hlt.ne
    by_cases honly : clearsSaved = true ∧ OnlyUser name
    · obtain ⟨rfl, honly⟩ := honly
      rw [ceJoinCells_of_onlyUser hlt honly]
      exact iff_of_false (fun h => h rfl) fun h => h.saved rfl hlt honly
    · have hnot : clearsSaved = true → ¬ OnlyUser name := fun hs ho => honly ⟨hs, ho⟩
      rw [ceJoinCells_of_lt ⟨[], clearsSaved⟩ hlt hnot]
      exact iff_of_true (Option.some_ne_none _) ⟨fun h => absurd h hfull, fun hs _ => hnot hs⟩
  · rw [ceJoinCells_of_eq clearsSaved heq]
    constructor
    · intro h
      refine ⟨fun _ => ?_, fun _ hlt => absurd heq hlt.ne⟩
      by_contra hnot
      exact h (if_neg hnot)
    · intro h
      rw [if_pos (h.full heq)]
      exact Option.some_ne_none _
  · rw [ceJoinCells_of_gt clearsSaved hgt]
    exact iff_of_true (Option.some_ne_none _)
      ⟨fun heq => absurd heq hgt.ne', fun _ hlt => absurd hlt hgt.not_gt⟩

theorem joinFileNameCells_ne_none : joinFileNameCells clearsSaved cur name fileNameMaxBuf ≠ none ↔
    (checkFileNameAndPath name → cur.storageId = teeObjectStorageCe →
      StaysInTemp clearsSaved name) := by
  rw [joinFileNameCells]
  by_cases hce : checkFileNameAndPath name ∧ cur.storageId = teeObjectStorageCe
  · rw [if_pos hce, ceJoinCells_ne_none]
    exact ⟨fun h _ _ => h, fun h => h hce.1 hce.2⟩
  · rw [if_neg hce]
    exact iff_of_true (Option.some_ne_none _) fun hcheck hid => absurd ⟨hcheck, hid⟩ hce

end Whole

/-- A name is joined whole and without a look outside the buffers, unless its way in
credential-encrypted storage leaves `temp`. -/
theorem joinsSafely_iff (clearsSaved : Bool) (cur : Current) (name : CString) :
    JoinsSafely clearsSaved cur name ↔
      (checkFileNameAndPath name → cur.storageId = teeObjectStorageCe →
        StaysInTemp clearsSaved name) := by
  constructor
  · intro h
    exact joinFileNameCells_ne_none.mp h.inside
  · intro h
    have hin := joinFileNameCells_ne_none.mpr h
    exact ⟨hin, fun _ _ => joinFileName_whole hin⟩

def fullName : CString := '0' :: '/' :: List.replicate 254 'a'

/-- A name that fills `temp`, whatever `strtok_r` does, and a name that is a user where it clears
its saved pointer. -/
theorem not_joinsSafely_fullName : (∀ clearsSaved,
    ¬ JoinsSafely clearsSaved ⟨0, teeObjectStorageCe⟩ fullName) ∧
      ¬ JoinsSafely true ⟨0, teeObjectStorageCe⟩ "abc".toList := by
  refine ⟨fun clearsSaved h => ?_, fun h => ?_⟩
  · have hcheck : checkFileNameAndPath fullName = true := by
      have hdot : '.' ∉ fullName := by
        simp only [fullName, List.mem_cons, List.mem_replicate]
        decide
      exact decide_eq_true fun hdots => hdot (hdots.subset (by decide))
    have hstays := joinFileNameCells_ne_none.mp h.inside hcheck rfl
    have hlength : fullName.length = fileNameMaxBuf := by
      simp only [fullName, List.length_cons, List.length_replicate]
      rfl
    exact absurd (hstays.full hlength).2 (by decide)
  · exact h.inside (by decide)

end TeeClient.Teecd
