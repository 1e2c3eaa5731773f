import Mathlib.Tactic
import TeeClient.Teecd.Confinement

/-! `SEC_DISKUSAGE` (`DiskUsageWork` in `fs_work_agent.c`): the free space of the two
partitions, in KiB. -/

namespace TeeClient.Teecd

open Securec

section Source

structure Statfs where
  fBfree : BitVec 64
  fBsize : BitVec 64
  deriving DecidableEq, Repr

structure DiskUsage where
  ret : Int
  error : Nat
  data : U32
  secStorage : U32
  deriving DecidableEq, Repr

def kbyte : U32 := 1024

/-- `(uint32_t)st.f_bfree * (uint32_t)st.f_bsize / KBYTE` -/
def remain (st : Statfs) : U32 := st.fBfree.setWidth 32 * st.fBsize.setWidth 32 / kbyte

def diskRemain (statfs : CString → Option Statfs) : Option (U32 × U32) := do
  let dataDir ← getTransientDir fileNameMaxBuf
  let st ← statfs dataDir
  let dataRemain := remain st
  let nameBuff ← getPersistentDir fileNameMaxBuf
  let secStorageDir ← strncatS nameBuff fileNameMaxBuf sfsPartitionPersistent
  let st ← statfs secStorageDir
  pure (dataRemain, remain st)

def diskUsageWork (statfs : CString → Option Statfs) (errno : Nat) (transControl : DiskUsage) :
    DiskUsage :=
  match diskRemain statfs with
  | some (dataRemain, secStorageRemain) =>
    { transControl with ret := 0, data := dataRemain, secStorage := secStorageRemain }
  | none => { transControl with ret := -1, error := errno }

end Source

section Specification

def Statfs.free (st : Statfs) : Nat := st.fBfree.toNat * st.fBsize.toNat

def Statfs.freeKib (st : Statfs) : Nat := st.free / 1024

structure Partitions where
  userData : Statfs
  secStorage : Statfs
  deriving DecidableEq, Repr

def Partitions.statfs (ps : Partitions) (path : CString) : Option Statfs :=
  if path = userDataDir then some ps.userData
  else if path = secStorageRootDir then some ps.secStorage
  else none

def Partitions.reply (ps : Partitions) (errno : Nat) (transControl : DiskUsage) : DiskUsage :=
  diskUsageWork ps.statfs errno transControl

/-- The reply is the free space of both partitions, and is not more when less is free. -/
structure ReportsFree (ps : Partitions) (errno : Nat) (transControl : DiskUsage) : Prop where
  ret : (ps.reply errno transControl).ret = 0
  data : (ps.reply errno transControl).data.toNat = ps.userData.freeKib
  secStorage : (ps.reply errno transControl).secStorage.toNat = ps.secStorage.freeKib
  monotone : ∀ less : Partitions,
    less.userData.fBsize = ps.userData.fBsize → less.userData.fBfree ≤ ps.userData.fBfree →
    less.secStorage.fBsize = ps.secStorage.fBsize → less.secStorage.fBfree ≤ ps.secStorage.fBfree →
    (less.reply errno transControl).data ≤ (ps.reply errno transControl).data ∧
    (less.reply errno transControl).secStorage ≤ (ps.reply errno transControl).secStorage

end Specification

section Arithmetic

variable {st less : Statfs}

theorem toNat_remain (st : Statfs) : (remain st).toNat = st.free % 2 ^ 32 / 1024 := by
  simp only [remain, kbyte, Statfs.free, BitVec.toNat_udiv, BitVec.toNat_mul, BitVec.toNat_setWidth,
    ← Nat.mul_mod]
  rfl

theorem remain_eq_iff (st : Statfs) : (remain st).toNat = st.freeKib ↔ st.free < 2 ^ 32 := by
  rw [toNat_remain, Statfs.freeKib]
  constructor
  · intro h
    by_contra hlarge
    -- the quotient and the remainder of 4 GiB, each in KiB
    have hsplit := Nat.div_add_mod st.free (2 ^ 32)
    have hquot : 1 ≤ st.free / 2 ^ 32 := (Nat.one_le_div_iff (by decide)).mpr (not_lt.mp hlarge)
    omega
  · intro h
    rw [Nat.mod_eq_of_lt h]

theorem free_mono (hsize : less.fBsize = st.fBsize) (hfree : less.fBfree ≤ st.fBfree) :
    less.free ≤ st.free := by
  rw [Statfs.free, Statfs.free, hsize]
  exact Nat.mul_le_mul_right _ hfree

theorem remain_mono (h : st.free < 2 ^ 32) (hsize : less.fBsize = st.fBsize)
    (hfree : less.fBfree ≤ st.fBfree) : remain less ≤ remain st := by
  have hle := free_mono hsize hfree
  rw [BitVec.le_def, toNat_remain, toNat_remain, Nat.mod_eq_of_lt h,
    Nat.mod_eq_of_lt (hle.trans_lt h)]
  exact Nat.div_le_div_right hle

end Arithmetic

section Reply

variable {errno : Nat} {transControl : DiskUsage}

theorem Partitions.reply_eq (ps : Partitions) : ps.reply errno transControl =
    { transControl with
      ret := 0
      data := remain ps.userData
      secStorage := remain ps.secStorage } := by
  have hdata : ps.statfs userDataDir = some ps.userData := if_pos rfl
  have hsec : ps.statfs secStorageRootDir = some ps.secStorage := by
    rw [Partitions.statfs, if_neg (by decide), if_pos rfl]
  have hdir : strncatS rootDir fileNameMaxBuf sfsPartitionPersistent = some secStorageRootDir := by
    decide
  simp only [Partitions.reply, diskUsageWork, diskRemain, getTransientDir_eq, getPersistentDir_eq,
    Option.bind_eq_bind, Option.bind_some, hdata, hdir, hsec, Option.pure_def]

/-- Exactly while less than 4 GiB are free on each partition. -/
theorem reportsFree_iff (ps : Partitions) (errno : Nat) (transControl : DiskUsage) :
    ReportsFree ps errno transControl ↔
      ps.userData.free < 2 ^ 32 ∧ ps.secStorage.free < 2 ^ 32 := by
  constructor
  · intro h
    have hdata := h.data
    have hsec := h.secStorage
    rw [Partitions.reply_eq] at hdata hsec
    exact ⟨(remain_eq_iff _).mp hdata, (remain_eq_iff _).mp hsec⟩
  · rintro ⟨hdata, hsec⟩
    refine ⟨?_, ?_, ?_, fun less hsize hfree hsize' hfree' => ?_⟩
    · rw [Partitions.reply_eq]
    · rw [Partitions.reply_eq]
      exact (remain_eq_iff _).mpr hdata
    · rw [Partitions.reply_eq]
      exact (remain_eq_iff _).mpr hsec
    · rw [Partitions.reply_eq, Partitions.reply_eq]
      exact ⟨remain_mono hdata hsize hfree, remain_mono hsec hsize' hfree'⟩

/-- 1048576 free blocks of 4096 bytes: nothing is free, and more is with one block less. -/
theorem not_reportsFree_blocks :
    let st : Statfs := ⟨1048576, 4096⟩
    let transControl : DiskUsage := ⟨0, 0, 0, 0⟩
    st.freeKib < 2 ^ 32 ∧
    (Partitions.reply ⟨st, st⟩ 0 transControl).data = 0 ∧
    (Partitions.reply ⟨⟨1048575, 4096⟩, st⟩ 0 transControl).data = 4194300 ∧
    ¬ ReportsFree ⟨st, st⟩ 0 transControl := by
  refine ⟨by decide, by decide, by decide, fun h => ?_⟩
  exact absurd h.data (by decide)

end Reply

end TeeClient.Teecd
