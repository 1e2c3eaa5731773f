import Mathlib.Tactic
import TeeClient.Teecd.TransientStorage

/-! `SEC_DELETE_ALL` on a directory, and the files that `SEC_CREATE` makes in it: the two
join their paths by different rules. -/

namespace TeeClient.Teecd

open Paths
open Securec

section Prefixes

variable {q p rest : CString}

theorem prefix_of_joined (h : q <+: p ++ '/' :: rest) : q <+: p ∨ p ++ ['/'] <+: q := by
  have hdir : p ++ ['/'] <+: p ++ '/' :: rest := ⟨rest, by simp⟩
  rcases List.prefix_or_prefix_of_prefix h hdir with hq | hq
  · rcases List.prefix_concat_iff.mp hq with rfl | hq
    · exact .inr (List.prefix_refl _)
    · exact .inl hq
  · exact .inr hq

theorem prefix_joined_cases (dirs : List CString)
    (hdirs : ∀ l ∈ q.inits, l.getLast? = some '/' → l ∈ dirs.map (· ++ ['/']))
    (h : q <+: p ++ '/' :: rest) : q <+: p ∨ p ∈ dirs := by
  apply Or.imp_right _ (prefix_of_joined h)
  intro hp
  obtain ⟨d, hd, heq⟩ := List.mem_map.mp (hdirs _ ((List.mem_inits _ _).mpr hp) (by simp))
  rwa [← List.append_cancel_right heq]

theorem persistent_joined (h : sfsPartitionPersistent <+: p ++ '/' :: rest) :
    sfsPartitionPersistent <+: p ∨ p = "sec_storage".toList := by
  have := prefix_joined_cases ["sec_storage".toList] (by decide) h
  rwa [List.mem_singleton] at this

theorem secStorageRoot_joined (h : secStorageRootDir <+: p ++ '/' :: rest) :
    secStorageRootDir <+: p ∨ p = "/sec_storage".toList ∨
      p = [] ∧ sfsPartitionPersistent <+: rest := by
  rcases prefix_joined_cases [[], "/sec_storage".toList] (by decide) h with hp | hp
  · exact .inl hp
  · rcases List.mem_cons.mp hp with rfl | hp
    · exact .inr (.inr ⟨rfl, (List.cons_prefix_cons.mp h).2⟩)
    · exact .inr (.inl (List.mem_singleton.mp hp))

end Prefixes

section Deleted

variable {p rest del path : CString}

theorem dir_doJoinPlace (p : CString) :
    (doJoinPlace p).dir = if sfsPartitionTransientPerso <+: p ∨ sfsPartitionTransientPrivate <+: p
      then transientRoot else persistentRoot := by
  simp only [doJoinPlace]
  split_ifs <;> rfl

theorem rest_doJoinPlace (p : CString) : (doJoinPlace p).rest <:+ p := by
  simp only [doJoinPlace]
  split_ifs
  · exact List.drop_suffix _ _
  · exact List.drop_suffix _ _
  · exact List.drop_suffix _ _
  · exact List.suffix_refl _

theorem dir_prefix_lands (hcheck : ¬ fileNameInvalidStr <:+: p ++ '/' :: rest) :
    (doJoinPlace p).dir <+: (doJoinPlace p).lands.reverse := by
  have hord : ∀ c ∈ (doJoinPlace p).dir, Ordinary c := by
    rw [dir_doJoinPlace]
    split_ifs
    · decide
    · decide
  have hup : (reduce (components (doJoinPlace p).rest)).up = 0 := by
    apply reduce_up_of_noClimb
    apply noClimb_of_followed (t := rest)
    intro hdots
    apply hcheck
    obtain ⟨pre, hpre⟩ := rest_doJoinPlace p
    refine hdots.trans (List.IsSuffix.isInfix ⟨pre, ?_⟩)
    rw [← List.append_assoc, hpre]
  rw [Place.lands_reverse hord hup]
  exact List.prefix_append _ _

theorem resolve_doJoinPlace (p : CString) :
    resolve (doJoinPlace p).path = (doJoinPlace p).lands.reverse :=
  Place.resolve_path (storageDir_doJoinPlace (t := ⟨0, 0, .secDeleteAll p⟩) p).slash_notMem

theorem resolve_deleted (hcheck : ¬ fileNameInvalidStr <:+: p ++ '/' :: rest)
    (h : doJoinFileName p fileNameMaxBuf = some del) :
    (doJoinPlace p).dir <+: resolve del := by
  obtain ⟨-, rfl⟩ := doJoinFileName_path h
  rw [resolve_doJoinPlace]
  exact dir_prefix_lands hcheck

theorem dir_ne_nil (p : CString) : (doJoinPlace p).dir ≠ [] := by
  rw [dir_doJoinPlace]
  split_ifs
  · decide
  · decide

/-- When the same directory is put in front of both, the file is made in what is deleted. -/
theorem doJoin_same (hdir : doJoinDir (p ++ '/' :: rest) fileNameMaxBuf = doJoinDir p fileNameMaxBuf)
    (h : doJoinFileName (p ++ '/' :: rest) fileNameMaxBuf = some path) :
    ∃ del, doJoinFileName p fileNameMaxBuf = some del ∧ path = del ++ '/' :: rest := by
  simp only [doJoinFileName, Option.bind_eq_bind, Option.bind_eq_some_iff, hdir] at h
  obtain ⟨dir, hp, hpath⟩ := h
  obtain ⟨hmax, hlen, rfl⟩ := strncatS_eq_some.mp hpath
  refine ⟨dir ++ p, ?_, by simp⟩
  rw [doJoinFileName, hp, Option.bind_eq_bind, Option.bind_some, strncatS_eq_some]
  refine ⟨hmax, ?_, rfl⟩
  simp only [List.length_append, List.length_cons] at hlen
  omega

end Deleted

section Coverage

def Covered (p path : CString) : Prop :=
  ∃ del, doJoinFileName p fileNameMaxBuf = some del ∧ resolve del <+: resolve path

def Unrecognised (p rest : CString) : Prop :=
  p = "sec_storage".toList ∨ p = "/sec_storage".toList ∨ p = [] ∧ sfsPartitionPersistent <+: rest

/-- The name is put in the same directory as `p`, does not leave it, and leads back to where
`p` is put when `p` alone is not recognised. -/
structure Kept (userId : U32) (p rest : CString) : Prop where
  transient : sfsPartitionTransient <+: p ++ '/' :: rest →
    userId = 0 ∧ (sfsPartitionTransientPerso <+: p ∨ sfsPartitionTransientPrivate <+: p)
  stays : reduce (components rest) ≠ ⟨1, []⟩
  recognised : Unrecognised p rest → persistentRoot <+: (reduce (components rest)).down.reverse

/-- A name that fills `temp` without its terminator, and the bytes behind the buffer spell
the way into what is deleted. -/
def SpellsIn (unspec : Unspecified) (p name : CString) : Prop :=
  name.length = fileNameMaxBuf ∧ (doJoinPlace p).path.length < fileNameMaxBuf ∧
    ∃ id rest, strtokR unspec.clearsSaved (name ++ unspec.behind) = some (id, some rest) ∧
      (doJoinPlace p).lands.reverse <+: (Place.mk (ceRoot id) rest).lands.reverse

variable {unspec : Unspecified} {p rest path : CString} {cur : Current}

theorem covered_of_same (hcheck : ¬ fileNameInvalidStr <:+: p ++ '/' :: rest) {del : CString}
    (hdel : doJoinFileName p fileNameMaxBuf = some del) (hpath : path = del ++ '/' :: rest)
    (hrest : (reduce (components rest)).up = 0 ∨ reduce (components rest) = ⟨1, []⟩) :
    Covered p path ↔ reduce (components rest) ≠ ⟨1, []⟩ := by
  have hne : resolve del ≠ [] := by
    intro hnil
    have hpre := resolve_deleted hcheck hdel
    rw [hnil] at hpre
    exact dir_ne_nil p (List.prefix_nil.mp hpre)
  have hiff := prefix_resolve_append_iff hne hrest
  rw [← hpath] at hiff
  rw [← hiff]
  constructor
  · rintro ⟨del', hdel', hpre⟩
    rw [hdel] at hdel'
    obtain rfl := Option.some.inj hdel'
    exact hpre
  · exact fun hpre => ⟨del, hdel, hpre⟩

theorem not_covered (hcheck : ¬ fileNameInvalidStr <:+: p ++ '/' :: rest)
    (h : ¬ (doJoinPlace p).dir <+: resolve path) : ¬ Covered p path := by
  rintro ⟨del, hdel, hpre⟩
  exact h ((resolve_deleted hcheck hdel).trans hpre)

theorem doJoinFileName_of_fits (h : (doJoinPlace p).path.length < fileNameMaxBuf) :
    doJoinFileName p fileNameMaxBuf = some (doJoinPlace p).path := by
  have hsplit : ∃ dir, doJoinDir p fileNameMaxBuf = some dir ∧ dir ++ p = (doJoinPlace p).path := by
    simp only [doJoinDir, getTransientDir_eq, getPersistentDir_eq, getDefaultDir_eq, doJoinPlace]
    split_ifs with htrans hpers hroot
    · have hpre : sfsPartitionTransient <+: p := by
        rcases htrans with hpre | hpre
        · exact List.IsPrefix.trans (by decide) hpre
        · exact List.IsPrefix.trans (by decide) hpre
      obtain ⟨rest, rfl⟩ := hpre
      rw [List.drop_left]
      exact ⟨_, rfl, rfl⟩
    · obtain ⟨rest, rfl⟩ := hpers
      rw [List.drop_left]
      exact ⟨_, rfl, rfl⟩
    · obtain ⟨rest, rfl⟩ := hroot
      rw [List.drop_left]
      exact ⟨_, rfl, rfl⟩
    · exact ⟨_, rfl, rfl⟩
  obtain ⟨dir, hdir, hpath⟩ := hsplit
  rw [doJoinFileName, hdir, Option.bind_eq_bind, Option.bind_some, strncatS_eq_some,
    ← List.length_append, hpath]
  exact ⟨by decide, h, rfl⟩

theorem covered_iff_lands : Covered p path ↔
    (doJoinPlace p).path.length < fileNameMaxBuf ∧
      (doJoinPlace p).lands.reverse <+: resolve path := by
  constructor
  · rintro ⟨del, hdel, hpre⟩
    obtain ⟨hlen, rfl⟩ := doJoinFileName_path hdel
    rw [resolve_doJoinPlace] at hpre
    exact ⟨hlen, hpre⟩
  · rintro ⟨hlen, hpre⟩
    refine ⟨_, doJoinFileName_of_fits hlen, ?_⟩
    rwa [resolve_doJoinPlace]

theorem Place.lands_cases (pl : Place)
    (h : (reduce (components pl.rest)).up = 0 ∨ reduce (components pl.rest) = ⟨1, []⟩) :
    (∃ ns, pl.lands.reverse = (walk [] pl.dir).reverse ++ ns) ∨
      pl.lands.reverse = (walk [] pl.dir).reverse.dropLast := by
  rcases h with hzero | hone
  · exact .inl ⟨(reduce (components pl.rest)).down.reverse, by simp [Place.lands, hzero]⟩
  · exact .inr (by simp [Place.lands, hone])

theorem lands_ce {id : Name} (hne : id ≠ []) (hid : '/' ∉ id) {rest : CString}
    (hrest : (reduce (components rest)).up = 0 ∨ reduce (components rest) = ⟨1, []⟩) :
    ∃ third ns, (Place.mk (ceRoot id) rest).lands.reverse =
      "data".toList :: "service".toList :: third :: ns ∧ third ≠ "el1".toList := by
  have hwalk : ∃ third x ns, (walk [] (ceRoot id)).reverse =
      "data".toList :: "service".toList :: third :: x :: ns ∧ third ≠ "el1".toList := by
    have hdir : StorageDir ⟨0, teeObjectStorageCe, .secCreate []⟩ (ceRoot id) := .ce rfl hne hid
    rcases hdir.ordinary_or_dots with hord | ⟨id', hid', hdots⟩
    · rw [walk_ordinary [] hord, List.append_nil, List.reverse_reverse]
      exact ⟨_, _, _, rfl, by decide⟩
    · obtain rfl : id = id' := by simpa [ceRoot] using hid'
      rcases hdots with rfl | rfl
      · exact ⟨"el2".toList, "tee".toList, ["sec_storage_data".toList], by decide, by decide⟩
      · exact ⟨"tee".toList, "sec_storage_data".toList, [], by decide, by decide⟩
  obtain ⟨third, x, ns, hwalk, hthird⟩ := hwalk
  rcases Place.lands_cases ⟨ceRoot id, rest⟩ hrest with ⟨ms, hlands⟩ | hlands
  · rw [hlands, hwalk]
    exact ⟨third, x :: (ns ++ ms), rfl, hthird⟩
  · rw [hlands, hwalk]
    exact ⟨third, (x :: ns).dropLast, rfl, hthird⟩

/-- What is deleted lies under `/sec_storage` or under `/data/service/el1/public`. -/
theorem not_covered_ce {names : List Name} {third : Name} {ns : List Name}
    (hnames : names = "data".toList :: "service".toList :: third :: ns)
    (hthird : third ≠ "el1".toList) : ¬ (doJoinPlace p).dir <+: names := by
  subst hnames
  rw [dir_doJoinPlace]
  split_ifs
  · intro hpre
    simp only [transientRoot, transientNames, List.cons_append, List.cons_prefix_cons] at hpre
    exact hthird hpre.2.2.1.symm
  · simp [persistentRoot]

section Cases

theorem reduce_rest (hcheck : ¬ fileNameInvalidStr <:+: p ++ '/' :: rest) :
    (reduce (components rest)).up = 0 ∨ reduce (components rest) = ⟨1, []⟩ := by
  apply reduce_of_checked
  intro hdots
  apply hcheck
  have hsuf : rest <:+ p ++ '/' :: rest := ⟨p ++ ['/'], by simp⟩
  exact hdots.trans hsuf.isInfix

theorem not_perso_of_unrecognised (h : Unrecognised p rest) :
    ¬ (sfsPartitionTransientPerso <+: p ∨ sfsPartitionTransientPrivate <+: p) := by
  rcases h with rfl | rfl | ⟨rfl, -⟩
  · decide
  · decide
  · decide

/-- In transient storage only the two special directories of user 0 are put where their
files are. -/
theorem covered_transient_iff (hcheck : ¬ fileNameInvalidStr <:+: p ++ '/' :: rest)
    (htrans : sfsPartitionTransient <+: p ++ '/' :: rest)
    (h : joinFileNameTransient cur (p ++ '/' :: rest) fileNameMaxBuf = some path) :
    Covered p path ↔ Kept cur.userId p rest := by
  -- the file is under the directory of the user, or is that of all users
  have hresolve : (∃ ns, resolve path = userDir cur.userId ++ ns) ∨
      resolve path = (userDir cur.userId).dropLast := by
    obtain ⟨r, hr⟩ := htrans
    have hr' : (reduce (components r)).up = 0 ∨ reduce (components r) = ⟨1, []⟩ := by
      apply reduce_of_checked
      rw [← hr] at hcheck
      exact fun hdots => hcheck (hdots.trans (List.suffix_append _ r).isInfix)
    rw [← hr] at h
    have hwalk : (walk [] (userDir cur.userId)).reverse = userDir cur.userId := by
      rw [walk_ordinary [] (ordinary_userDir _), List.append_nil, List.reverse_reverse]
    have hlands := Place.lands_cases ⟨userDir cur.userId, r⟩ hr'
    rwa [resolve_joinedTransient h, hwalk] at *
  by_cases hp : sfsPartitionTransientPerso <+: p ∨ sfsPartitionTransientPrivate <+: p
  · by_cases huser : cur.userId = 0
    · have hn : sfsPartitionTransientPerso <+: p ++ '/' :: rest ∨
          sfsPartitionTransientPrivate <+: p ++ '/' :: rest :=
        hp.imp (·.trans (List.prefix_append _ _)) (·.trans (List.prefix_append _ _))
      have hdir : doJoinDir (p ++ '/' :: rest) fileNameMaxBuf = doJoinDir p fileNameMaxBuf := by
        rw [doJoinDir, doJoinDir, if_pos hp, if_pos hn]
      have hjoin : doJoinFileName (p ++ '/' :: rest) fileNameMaxBuf = some path := by
        rw [doJoinFileName, doJoinDir, if_pos hn]
        rw [joinFileNameTransient, huser] at h
        exact h
      obtain ⟨del, hdel, hpath⟩ := doJoin_same hdir hjoin
      rw [covered_of_same hcheck hdel hpath (reduce_rest hcheck)]
      refine ⟨fun hstays => ⟨fun _ => ⟨huser, hp⟩, hstays, fun hrec => ?_⟩,
        fun hkept => hkept.stays⟩
      exact absurd hp (not_perso_of_unrecognised hrec)
    · refine iff_of_false (not_covered hcheck ?_) fun hkept => huser (hkept.transient htrans).1
      rw [dir_doJoinPlace, if_pos hp]
      rw [userDir, if_pos huser] at hresolve
      rcases hresolve with ⟨ns, hns⟩ | hns
      · rw [hns]
        simp [transientRoot, usersRoot, transientNames]
      · rw [hns]
        simp [transientRoot, usersRoot, transientNames]
  · refine iff_of_false (not_covered hcheck ?_) fun hkept => hp (hkept.transient htrans).2
    rw [dir_doJoinPlace, if_neg hp]
    have hdata : ∃ ns, userDir cur.userId = "data".toList :: "service".toList :: ns := by
      rw [userDir]
      split_ifs
      · exact ⟨_, rfl⟩
      · exact ⟨_, rfl⟩
    obtain ⟨ms, hms⟩ := hdata
    rw [hms] at hresolve
    rcases hresolve with ⟨ns, hns⟩ | hns
    · rw [hns]
      simp [persistentRoot]
    · rw [hns]
      simp [persistentRoot]

theorem unrecognised_place (hrec : Unrecognised p rest)
    (hn : ¬ (sfsPartitionTransientPerso <+: p ++ '/' :: rest ∨
      sfsPartitionTransientPrivate <+: p ++ '/' :: rest))
    (h : doJoinFileName (p ++ '/' :: rest) fileNameMaxBuf = some path) :
    ∃ s, s ++ '/' :: rest = path ∧ (resolve s).length ≤ 1 ∧
      (doJoinPlace p).path.length < fileNameMaxBuf ∧
      (doJoinPlace p).lands.reverse = resolve s ++ persistentRoot := by
  have hpers : sfsPartitionPersistent = "sec_storage".toList ++ ['/'] := by decide
  have hroot : secStorageRootDir = "/sec_storage".toList ++ ['/'] := by decide
  have hnot {r : CString} (hr : secStorageRootDir <+: r) : ¬ sfsPartitionPersistent <+: r := by
    intro hr'
    have := List.prefix_of_prefix_length_le hr' hr (by decide)
    exact absurd this (by decide)
  simp only [doJoinFileName, doJoinDir, if_neg hn, Option.bind_eq_bind] at h
  rcases hrec with rfl | rfl | ⟨rfl, hrest⟩
  · have hpre : sfsPartitionPersistent <+: "sec_storage".toList ++ '/' :: rest :=
      ⟨rest, by rw [hpers, List.append_assoc, List.singleton_append]⟩
    have hjoin : rootDir ++ "sec_storage".toList = "/sec_storage".toList := by decide
    rw [if_pos hpre, getPersistentDir_eq, Option.bind_some] at h
    obtain ⟨-, -, rfl⟩ := strncatS_eq_some.mp h
    refine ⟨"/sec_storage".toList, ?_, by decide, by decide, by decide⟩
    rw [← List.append_assoc, hjoin]
  · have hpre : secStorageRootDir <+: "/sec_storage".toList ++ '/' :: rest :=
      ⟨rest, by rw [hroot, List.append_assoc, List.singleton_append]⟩
    rw [if_neg (hnot hpre), if_pos hpre, Option.bind_some] at h
    obtain ⟨-, -, rfl⟩ := strncatS_eq_some.mp h
    exact ⟨"/sec_storage".toList, (List.nil_append _).symm, by decide, by decide, by decide⟩
  · have hpre : secStorageRootDir <+: [] ++ '/' :: rest := List.cons_prefix_cons.mpr ⟨rfl, hrest⟩
    rw [if_neg (hnot hpre), if_pos hpre, Option.bind_some] at h
    obtain ⟨-, -, rfl⟩ := strncatS_eq_some.mp h
    exact ⟨[], (List.nil_append _).symm, by decide, by decide, by decide⟩

/-- Outside of it, the directories that are not recognised are put one level deeper. -/
theorem covered_persistent_iff (hcheck : ¬ fileNameInvalidStr <:+: p ++ '/' :: rest)
    (htrans : ¬ sfsPartitionTransient <+: p ++ '/' :: rest)
    (h : doJoinFileName (p ++ '/' :: rest) fileNameMaxBuf = some path) :
    Covered p path ↔ Kept cur.userId p rest := by
  have htransient {q : CString} (hq : q <+: p ++ '/' :: rest) :
      ¬ (sfsPartitionTransientPerso <+: q ∨ sfsPartitionTransientPrivate <+: q) := by
    rintro (hpre | hpre)
    · exact htrans (List.IsPrefix.trans (by decide) (hpre.trans hq))
    · exact htrans (List.IsPrefix.trans (by decide) (hpre.trans hq))
  have hn := htransient (List.prefix_refl _)
  have hp := htransient (List.prefix_append p ('/' :: rest))
  by_cases hrec : Unrecognised p rest
  · obtain ⟨s, rfl, hshort, hfits, hlands⟩ := unrecognised_place hrec hn h
    have hkept : Kept cur.userId p rest ↔
        persistentRoot <+: (reduce (components rest)).down.reverse := by
      refine ⟨fun hkept => hkept.recognised hrec, fun hback => ⟨fun ht => absurd ht htrans, ?_,
        fun _ => hback⟩⟩
      intro hone
      rw [hone] at hback
      exact absurd hback (by decide)
    rw [hkept, covered_iff_lands, and_iff_right hfits, hlands, resolve_append]
    rcases reduce_rest hcheck with hzero | hone
    · rw [hzero, List.drop_zero, List.reverse_append, List.reverse_reverse,
        List.prefix_append_right_inj]
    · have hnil : (resolve s).reverse.drop 1 = [] := by
        rw [List.drop_eq_nil_iff, List.length_reverse]
        exact hshort
      rw [hone, hnil]
      simp [persistentRoot]
  · have hdir : doJoinDir (p ++ '/' :: rest) fileNameMaxBuf = doJoinDir p fileNameMaxBuf := by
      simp only [Unrecognised, not_or] at hrec
      have hpers : sfsPartitionPersistent <+: p ++ '/' :: rest ↔ sfsPartitionPersistent <+: p :=
        ⟨fun h => (persistent_joined h).resolve_right hrec.1, fun h => h.trans (List.prefix_append _ _)⟩
      have hroot : secStorageRootDir <+: p ++ '/' :: rest ↔ secStorageRootDir <+: p :=
        ⟨fun h => ((secStorageRoot_joined h).resolve_right fun hor =>
          hor.elim hrec.2.1 hrec.2.2), fun h => h.trans (List.prefix_append _ _)⟩
      simp only [doJoinDir, if_neg hn, if_neg hp, hpers, hroot]
    obtain ⟨del, hdel, hpath⟩ := doJoin_same hdir h
    rw [covered_of_same hcheck hdel hpath (reduce_rest hcheck)]
    exact ⟨fun hstays => ⟨fun ht => absurd ht htrans, hstays, fun hu => absurd hu hrec⟩,
      fun hkept => hkept.stays⟩

theorem covered_ce_iff (hcheck : ¬ fileNameInvalidStr <:+: p ++ '/' :: rest)
    (h : joinFileNameForStorageCe unspec (p ++ '/' :: rest) fileNameMaxBuf = some path) :
    Covered p path ↔ SpellsIn unspec p (p ++ '/' :: rest) := by
  have hfits : ¬ fileNameMaxBuf < (p ++ '/' :: rest).length := by
    intro hlong
    rw [joinFileNameForStorageCe, if_pos hlong] at h
    cases h
  obtain ⟨id, r, htok, -, rfl⟩ := joinFileNameForStorageCe_path h
  obtain ⟨hne, hid, hsuf⟩ := strtokR_eq_some htok
  have hslash : ∀ c ∈ (Place.mk (ceRoot id) r).dir, '/' ∉ c :=
    StorageDir.slash_notMem (t := ⟨0, teeObjectStorageCe, .secCreate []⟩) (.ce rfl hne hid)
  rw [covered_iff_lands, Place.resolve_path hslash]
  by_cases hlen : (p ++ '/' :: rest).length = fileNameMaxBuf
  · rw [ceTemp, if_neg (by omega)] at htok
    constructor
    · rintro ⟨hfits, hpre⟩
      exact ⟨hlen, hfits, id, r, htok, hpre⟩
    · rintro ⟨-, hfits, id', r', htok', hpre⟩
      rw [htok] at htok'
      obtain ⟨rfl, hr⟩ := Prod.mk.inj (Option.some.inj htok')
      obtain rfl := Option.some.inj hr
      exact ⟨hfits, hpre⟩
  · refine iff_of_false ?_ fun hspells => hlen hspells.1
    rintro ⟨-, hpre⟩
    rw [ceTemp, if_pos (by omega)] at hsuf
    have hr : (reduce (components r)).up = 0 ∨ reduce (components r) = ⟨1, []⟩ :=
      reduce_of_checked fun hdots => hcheck (hdots.trans hsuf.isInfix)
    obtain ⟨third, ns, hnames, hthird⟩ := lands_ce hne hid hr
    exact not_covered_ce hnames hthird ((dir_prefix_lands hcheck).trans hpre)

end Cases

/-- Exactly when deleting everything in a directory removes the files that were created in
it for the same user and storage. -/
theorem covered_iff (unspec : Unspecified) (cur : Current) (p rest path : CString)
    (h : joinFileName unspec cur (p ++ '/' :: rest) fileNameMaxBuf = some path) :
    Covered p path ↔
      (cur.storageId ≠ teeObjectStorageCe ∧ Kept cur.userId p rest) ∨
      (cur.storageId = teeObjectStorageCe ∧ SpellsIn unspec p (p ++ '/' :: rest)) := by
  rw [joinFileName] at h
  by_cases hname : checkFileNameAndPath (p ++ '/' :: rest) = true
  · have hcheck : ¬ fileNameInvalidStr <:+: p ++ '/' :: rest := by
      simpa [checkFileNameAndPath] using hname
    rw [if_pos hname] at h
    by_cases hce : cur.storageId = teeObjectStorageCe
    · rw [if_pos hce] at h
      simp only [hce, ne_eq, not_true_eq_false, false_and, true_and, false_or]
      exact covered_ce_iff hcheck h
    · rw [if_neg hce] at h
      simp only [hce, ne_eq, not_false_eq_true, true_and, false_and, or_false]
      by_cases htrans : sfsPartitionTransient <+: p ++ '/' :: rest
      · rw [if_pos htrans] at h
        exact covered_transient_iff hcheck htrans h
      · rw [if_neg htrans] at h
        exact covered_persistent_iff hcheck htrans h
  · rw [if_neg hname] at h
    cases h

theorem covered_object :
    Covered "sec_storage/app".toList "/sec_storage/app/object".toList := by
  have hjoin : joinFileName musl ⟨0, 0⟩ ("sec_storage/app".toList ++ '/' :: "object".toList)
      fileNameMaxBuf = some "/sec_storage/app/object".toList := by decide
  apply (covered_iff musl ⟨0, 0⟩ "sec_storage/app".toList "object".toList _ hjoin).mpr
  refine .inl ⟨by decide, fun htrans => absurd htrans (by decide), by decide, ?_⟩
  rintro (h | h | h)
  · exact absurd h (by decide)
  · exact absurd h (by decide)
  · exact absurd h.1 (by decide)

/-- An application's directory in the transient storage of user 0. -/
theorem not_covered_transient :
    joinFileName musl ⟨0, 0⟩ ("sec_storage_data/app".toList ++ '/' :: "object".toList) fileNameMaxBuf =
        some "/data/service/el1/public/sec_storage_data/app/object".toList ∧
      doJoinFileName "sec_storage_data/app".toList fileNameMaxBuf =
        some "/sec_storage/sec_storage_data/app".toList ∧
      ¬ Covered "sec_storage_data/app".toList
        "/data/service/el1/public/sec_storage_data/app/object".toList := by
  have hdel : doJoinFileName "sec_storage_data/app".toList fileNameMaxBuf =
      some "/sec_storage/sec_storage_data/app".toList := by decide
  refine ⟨by decide, hdel, ?_⟩
  rintro ⟨del, hdel', hpre⟩
  rw [hdel] at hdel'
  obtain rfl := Option.some.inj hdel'
  exact absurd hpre (by decide)

end Coverage

end TeeClient.Teecd
