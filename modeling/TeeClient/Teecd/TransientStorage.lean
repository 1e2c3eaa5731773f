import Mathlib.Tactic
import TeeClient.Teecd.Confinement

/-! The transient storage of different users: the paths of one user are never above or
below those of another. -/

namespace TeeClient.Teecd

open Paths

structure TransientName where
  text : CString
  transient : sfsPartitionTransient <+: text
  noClimb : ∀ c ∈ components text, c ≠ "..".toList

def usersDir : List Name := transientNames ++ ["sec_storage_data_users".toList]

def userOf (names : List Name) : Option Nat :=
  if transientRoot <+: names then some 0
  else if usersDir <+: names then (names[5]?).map (Nat.ofDigitChars 10 · 0)
  else none

section UserOf

variable {names names' : List Name} {u : Nat}

theorem userOf_transientRoot (ns : List Name) : userOf (transientRoot ++ ns) = some 0 :=
  if_pos (List.prefix_append _ _)

theorem userOf_usersRoot (userId : U32) (ns : List Name) :
    userOf (usersRoot userId ++ ns) = some userId.toNat := by
  have hnot : ¬ transientRoot <+: usersRoot userId ++ ns := by
    simp [transientRoot, usersRoot, transientNames]
  have husers : usersDir <+: usersRoot userId ++ ns :=
    ⟨Nat.toDigits 10 userId.toNat :: ns, by simp [usersDir, usersRoot]⟩
  have hdigits : (usersRoot userId ++ ns)[5]? = some (Nat.toDigits 10 userId.toNat) := rfl
  rw [userOf, if_neg hnot, if_pos husers, hdigits, Option.map_some, Nat.ofDigitChars_ten_toDigits]

theorem userOf_mono (h : userOf names = some u) (hpre : names <+: names') :
    userOf names' = some u := by
  rw [userOf] at h
  split_ifs at h with htrans husers
  · obtain ⟨ns, rfl⟩ := htrans.trans hpre
    rw [userOf_transientRoot]
    exact h
  · have hnot : ¬ transientRoot <+: names' := by
      intro htrans'
      have := List.prefix_of_prefix_length_le htrans' (husers.trans hpre) (by decide)
      exact absurd this (by decide)
    rw [userOf, if_neg hnot, if_pos (husers.trans hpre)]
    obtain ⟨digits, hdigits, -⟩ := Option.map_eq_some_iff.mp h
    obtain ⟨hlen, -⟩ := List.getElem?_eq_some_iff.mp hdigits
    obtain ⟨ns, rfl⟩ := hpre
    rw [List.getElem?_append_left hlen]
    exact h

end UserOf

section Joined

variable {unspec : Unspecified} {path : CString} {cur : Current} {n : TransientName}

theorem joinFileName_transient (hce : cur.storageId ≠ teeObjectStorageCe)
    (h : joinFileName unspec cur n.text fileNameMaxBuf = some path) :
    joinFileNameTransient cur n.text fileNameMaxBuf = some path := by
  rw [joinFileName] at h
  by_cases hcheck : checkFileNameAndPath n.text = true
  · rwa [if_pos hcheck, if_neg hce, if_pos n.transient] at h
  · rw [if_neg hcheck] at h
    cases h

def userDir (userId : U32) : List Name := if userId ≠ 0 then usersRoot userId else transientRoot

theorem ordinary_userDir (userId : U32) : ∀ c ∈ userDir userId, Ordinary c := by
  rw [userDir]
  split_ifs
  · exact ordinary_usersRoot
  · decide

theorem resolve_joinedTransient {rest : CString}
    (h : joinFileNameTransient cur (sfsPartitionTransient ++ rest) fileNameMaxBuf = some path) :
    resolve path = (Place.mk (userDir cur.userId) rest).lands.reverse := by
  obtain ⟨-, rfl⟩ := joinFileNameTransient_path h
  apply Place.resolve_path
  let t : SecStorage := ⟨cur.userId, cur.storageId, .secRemove []⟩
  have hdir : StorageDir t (userDir t.userId) := by
    rw [userDir]
    split_ifs
    · exact .users
    · exact .transient
  exact hdir.slash_notMem

theorem resolve_transient (hce : cur.storageId ≠ teeObjectStorageCe)
    (h : joinFileName unspec cur n.text fileNameMaxBuf = some path) :
    ∃ ns, resolve path = userDir cur.userId ++ ns := by
  obtain ⟨rest, hrest⟩ := n.transient
  have hjoin := joinFileName_transient hce h
  rw [← hrest] at hjoin
  have hup : (reduce (components rest)).up = 0 := by
    apply reduce_up_of_noClimb
    intro c hc
    apply n.noClimb
    have hname : n.text = "sec_storage_data".toList ++ '/' :: rest := hrest.symm
    rw [hname, components_append]
    exact List.mem_append_right _ hc
  refine ⟨(reduce (components rest)).down.reverse, ?_⟩
  rw [resolve_joinedTransient hjoin]
  exact Place.lands_reverse (ordinary_userDir cur.userId) hup

theorem userOf_joined (hce : cur.storageId ≠ teeObjectStorageCe)
    (h : joinFileName unspec cur n.text fileNameMaxBuf = some path) :
    userOf (resolve path) = some cur.userId.toNat := by
  obtain ⟨ns, hns⟩ := resolve_transient hce h
  rw [hns, userDir]
  by_cases huser : cur.userId ≠ 0
  · rw [if_pos huser]
    exact userOf_usersRoot cur.userId ns
  · rw [if_neg huser, userOf_transientRoot, not_not.mp huser]
    rfl

theorem joinFileName_rejects (hce : cur.storageId ≠ teeObjectStorageCe)
    (hlong : userPathSize ≤ (Nat.toDigits 10 cur.userId.toNat ++ ['/']).length) :
    joinFileName unspec cur n.text fileNameMaxBuf = none := by
  rw [← Option.not_isSome_iff_eq_none]
  intro hsome
  obtain ⟨path, hpath⟩ := Option.isSome_iff_exists.mp hsome
  have hjoin := joinFileName_transient hce hpath
  have huser : cur.userId ≠ 0 := by
    intro hzero
    rw [hzero] at hlong
    exact absurd hlong (by decide)
  rw [joinFileNameTransient, getTransientDir_eq, Option.bind_eq_bind, Option.bind_some,
    if_pos huser] at hjoin
  have hnone : snprintfS (userPathSize - 1) (Nat.toDigits 10 cur.userId.toNat ++ ['/']) = none := by
    rw [snprintfS, if_neg]
    simp only [userPathSize] at hlong ⊢
    omega
  rw [hnone] at hjoin
  cases hjoin

end Joined

/-- Outside of the credential-encrypted storage, the paths of different users are apart;
each tells whose it is, and an id that does not fit its buffer gets no path. -/
theorem transient_users_apart (n₁ n₂ : TransientName) (cur₁ cur₂ : Current)
    (unspec₁ unspec₂ : Unspecified) (path₁ path₂ : CString) (hce₁ : cur₁.storageId ≠ teeObjectStorageCe)
    (hce₂ : cur₂.storageId ≠ teeObjectStorageCe)
    (h₁ : joinFileName unspec₁ cur₁ n₁.text fileNameMaxBuf = some path₁)
    (h₂ : joinFileName unspec₂ cur₂ n₂.text fileNameMaxBuf = some path₂) :
    (cur₁.userId ≠ cur₂.userId →
      ¬ resolve path₁ <+: resolve path₂ ∧ ¬ resolve path₂ <+: resolve path₁) ∧
    userOf (resolve path₁) = some cur₁.userId.toNat ∧
    userOf (resolve path₂) = some cur₂.userId.toNat ∧
    ∀ userId : U32, userPathSize ≤ (Nat.toDigits 10 userId.toNat ++ ['/']).length →
      joinFileName unspec₁ ⟨userId, cur₁.storageId⟩ n₁.text fileNameMaxBuf = none := by
  have huser₁ := userOf_joined hce₁ h₁
  have huser₂ := userOf_joined hce₂ h₂
  refine ⟨fun hne => ⟨fun hpre => hne ?_, fun hpre => hne ?_⟩, huser₁, huser₂, ?_⟩
  · have := (userOf_mono huser₁ hpre).symm.trans huser₂
    exact BitVec.eq_of_toNat_eq (Option.some.inj this)
  · have := (userOf_mono huser₂ hpre).symm.trans huser₁
    exact (BitVec.eq_of_toNat_eq (Option.some.inj this)).symm
  · intro userId hlong
    let cur : Current := ⟨userId, cur₁.storageId⟩
    have hce : cur.storageId ≠ teeObjectStorageCe := hce₁
    exact joinFileName_rejects hce hlong

def objectName : TransientName where
  text := "sec_storage_data/app/./object".toList
  transient := by decide
  noClimb := by decide

theorem transient_users_apart_object :
    ¬ resolve "/data/service/el1/public/sec_storage_data/app/./object".toList <+:
        resolve "/data/service/el1/public/sec_storage_data_users/100/app/./object".toList ∧
    userOf (resolve "/data/service/el1/public/sec_storage_data_users/100/app/./object".toList) =
      some 100 := by
  have h := transient_users_apart objectName objectName ⟨0, 0⟩ ⟨100, 0⟩ musl musl _ _ (by decide)
    (by decide) (by decide : _ =
      some "/data/service/el1/public/sec_storage_data/app/./object".toList)
    (by decide : _ =
      some "/data/service/el1/public/sec_storage_data_users/100/app/./object".toList)
  exact ⟨(h.1 (by decide)).1, h.2.2.1⟩

end TeeClient.Teecd
