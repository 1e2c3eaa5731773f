import Mathlib.Tactic
import TeeClient.Types
import TeeClient.Lib.LengthPrefix
import TeeClient.Lib.Securec

/-! The login buffer of a native CA: who asks, as a process name and a uid
(`tee_get_native_cert.c`, `tee_auth_common.c`, `TEEGetNativeSACaInfo` in `tee_auth_system.cpp`,
`SetLoginInfo` in `tee_client_api.c`). -/

namespace TeeClient.Authentication

open ByteMemory LengthPrefix Securec

def maxPathLength : Nat := 256
def bufMaxSize : Nat := 4096
def cmdMaxSize : Nat := 1024

section Source

def strn (bs : Bytes) : Bytes := bs.takeWhile (· ≠ 0)

/-- `ReadCmdLine`; `cmdline` is what `/proc/<pid>/cmdline` holds, if it can be read. -/
def readCmdLine (cmdline : Option Bytes) (bufferLen nameLen : Nat) : Option Bytes := do
  let content ← cmdline
  let buffer := content.take (bufferLen - 1)
  if buffer.length = 0 then none else strncpyS (nameLen - 1) (strn buffer)

def teeGetPkgName (cmdline : Option Bytes) (pathLen : Nat) : Option Bytes :=
  if maxPathLength < pathLen then none
  else if pathLen = 0 then none
  else readCmdLine cmdline cmdMaxSize pathLen

structure CertState where
  mem : Mem
  len : Nat
  inputLen : Nat

def setFieldToBuf (buffer : Nat) (bytes : Bytes) (st : CertState) : Bool × CertState :=
  if st.inputLen < 4 then (false, st)
  else
    let (ok, mem) := memcpyS st.mem buffer st.inputLen (wordBytes (BitVec.ofNat 32 bytes.length))
    if ok then
      let st : CertState := ⟨mem, st.len + 4, st.inputLen - 4⟩
      if st.inputLen < bytes.length then (false, st)
      else
        let (ok, mem) := memcpyS st.mem (buffer + 4) st.inputLen bytes
        if ok then (true, { st with mem, len := st.len + bytes.length })
        else (false, { st with mem })
    else (false, { st with mem })

def setPathToBuf (buffer : Nat) (path : Bytes) (st : CertState) : Bool × CertState :=
  let (ok, st) := setFieldToBuf buffer path st
  if ok then (true, { st with inputLen := st.inputLen - path.length }) else (false, st)

/-- `SetUidToBuf`, which leaves the rest of `*inputLen` uncounted. -/
def setUidToBuf (buffer : Nat) (caUid : U32) (st : CertState) : Bool × CertState :=
  setFieldToBuf buffer (wordBytes caUid) st

def teeGetNativeCert (cmdline : Option Bytes) (caUid : U32) (len : U32) (mem : Mem) (buffer : Nat) :
    Bool × Nat × Mem :=
  match teeGetPkgName cmdline maxPathLength with
  | none => (false, len.toNat, mem)
  | some path =>
    let (ok, st) := setPathToBuf buffer path ⟨mem, 0, len.toNat⟩
    if ok then
      let (ok, st) := setUidToBuf (buffer + (4 + path.length)) caUid st
      (ok, st.len, st.mem)
    else (false, st.len, st.mem)

inductive CaType
  | systemCa
  | vendorCa
  | appCa
  | saCa
  | maxCa
  deriving DecidableEq, Repr

structure CaAuthInfo where
  certs : Bytes
  certs_length : certs.length = bufMaxSize
  type : CaType
  uid : U32
  pid : Int

def teeGetNativeSaCaInfo (caInfo : CaAuthInfo) (mem : Mem) (buf : Nat) (bufLen : U32) : Bool × Mem :=
  if bufLen.toNat = 0 then (false, mem)
  else
    let processName := strn caInfo.certs
    let uid := wordBytes caInfo.uid
    if bufLen.toNat < 4 + processName.length + 4 + uid.length then (false, mem)
    else
      let (ok, mem) := memcpyS mem buf bufLen.toNat (wordBytes (BitVec.ofNat 32 processName.length))
      if ok then
        let offset := 4
        let (ok, mem) := memcpyS mem (buf + offset) (bufLen.toNat - offset) processName
        if ok then
          let offset := offset + processName.length
          let (ok, mem) := memcpyS mem (buf + offset) (bufLen.toNat - offset)
            (wordBytes (BitVec.ofNat 32 uid.length))
          if ok then
            let offset := offset + 4
            memcpyS mem (buf + offset) (bufLen.toNat - offset) uid
          else (false, mem)
        else (false, mem)
      else (false, mem)

/-- `SetLoginInfo`: the buffer that the driver gets, or `none` for `NULL`.  The buffer is cleared
first; `proc` tells what the processes have in `cmdline`. -/
def setLoginInfo (proc : Int → Option Bytes) (caInfo : CaAuthInfo) : Option Bytes :=
  let cleared : Mem := fun _ => 0
  let (ok, mem) : Bool × Mem :=
    match caInfo.type with
    | .systemCa =>
      let (ok, _, mem) := teeGetNativeCert (proc caInfo.pid) caInfo.uid (BitVec.ofNat 32 bufMaxSize)
        cleared 0
      (ok, mem)
    | .saCa => teeGetNativeSaCaInfo caInfo cleared 0 (BitVec.ofNat 32 bufMaxSize)
    | .appCa => memcpyS cleared 0 bufMaxSize caInfo.certs
    | .vendorCa | .maxCa => (false, cleared)
  if ok then some (read mem 0 bufMaxSize) else none

end Source

section Specification

/-- `nameLen || name || uidLen || uid` -/
def nativeCert (name : Bytes) (uid : U32) : Bytes := field name ++ field (wordBytes uid)

def decodeNativeCert (bs : Bytes) : Option (Bytes × U32) := do
  let (name, bs) ← takeField bs
  let (uidBytes, _) ← takeField bs
  let (uid, _) ← takeWord uidBytes
  some (name, uid)

/-- The identity is written into the buffer exactly when it fits and the library knows buffers of
that size, and nothing is written elsewhere. -/
structure Encodes (mem mem' : Mem) (buffer bufLen : Nat) (name : Bytes) (uid : U32) (ok : Bool) :
    Prop where
  ok_iff : ok = true ↔ 4 + name.length + 4 + 4 ≤ bufLen ∧ bufLen ≤ memMaxLen
  bytes : ok = true → read mem' buffer (4 + name.length + 4 + 4) = nativeCert name uid
  decodes : ok = true → decodeNativeCert (read mem' buffer bufLen) = some (name, uid)
  outside : ∀ x, x < buffer ∨ buffer + bufLen ≤ x → mem' x = mem x
  refused : memMaxLen < bufLen → mem' = mem

def CaAuthInfo.identity (proc : Int → Option Bytes) (caInfo : CaAuthInfo) : Option (Bytes × U32) :=
  match caInfo.type with
  | .systemCa => (teeGetPkgName (proc caInfo.pid) maxPathLength).map fun name => (name, caInfo.uid)
  | .saCa => some (strn caInfo.certs, caInfo.uid)
  | _ => none

end Specification

section Names

theorem length_strn_le (bs : Bytes) : (strn bs).length ≤ bs.length :=
  (List.takeWhile_sublist _).length_le

theorem length_teeGetPkgName {cmdline : Option Bytes} {pathLen : Nat} {name : Bytes}
    (h : teeGetPkgName cmdline pathLen = some name) : name.length < maxPathLength := by
  simp only [teeGetPkgName, readCmdLine, strncpyS, Option.bind_eq_bind] at h
  split_ifs at h with hlen hzero
  obtain ⟨content, -, h⟩ := Option.bind_eq_some_iff.mp h
  split_ifs at h with hempty
  obtain ⟨-, hfits, rfl⟩ := strncatS_eq_some.mp h
  rw [List.nil_append]
  omega

end Names

section Format

@[simp] theorem length_nativeCert (name : Bytes) (uid : U32) :
    (nativeCert name uid).length = 4 + name.length + 4 + 4 := by
  rw [nativeCert, List.length_append, length_field, length_field, length_wordBytes]

theorem decodeNativeCert_append {name : Bytes} (h : name.length < 2 ^ 32) (uid : U32)
    (rest : Bytes) : decodeNativeCert (nativeCert name uid ++ rest) = some (name, uid) := by
  have huid : (wordBytes uid).length < 2 ^ 32 := by rw [length_wordBytes]; decide
  have hword : takeWord (wordBytes uid) = some (uid, []) := by
    simpa only [List.append_nil] using takeWord_append uid []
  simp only [decodeNativeCert, nativeCert, List.append_assoc, takeField_append h,
    takeField_append huid, hword, Option.bind_eq_bind, Option.bind_some]

end Format

section Buffers

theorem setFieldToBuf_of_fits (buffer : Nat) {bytes : Bytes} {st : CertState}
    (h : 4 + bytes.length ≤ st.inputLen) (hlt : 4 < st.inputLen) (hmax : st.inputLen ≤ memMaxLen) :
    setFieldToBuf buffer bytes st =
      (true, ⟨write st.mem buffer (field bytes), st.len + 4 + bytes.length, st.inputLen - 4⟩) := by
  have hhead : ¬ st.inputLen < 4 := by omega
  have hbody : ¬ st.inputLen - 4 < bytes.length := by omega
  have hlen : (wordBytes (BitVec.ofNat 32 bytes.length)).length ≤ st.inputLen := by
    rw [length_wordBytes]; omega
  rw [setFieldToBuf, if_neg hhead, memcpyS_of_le (by omega) hmax hlen]
  simp only [if_true, if_neg hbody]
  rw [memcpyS_of_le (by omega) (by omega) (by omega), field, write_append]
  rfl

/-- Where the library does not know buffers of that size, nothing is written. -/
theorem setFieldToBuf_of_large (buffer : Nat) (bytes : Bytes) {st : CertState}
    (h : memMaxLen < st.inputLen) : setFieldToBuf buffer bytes st = (false, st) := by
  have hhead : ¬ st.inputLen < 4 := by
    rw [memMaxLen] at h
    omega
  rw [setFieldToBuf, if_neg hhead, memcpyS_refused (.inr h)]
  rfl

theorem setFieldToBuf_of_short (buffer : Nat) (bytes : Bytes) (st : CertState)
    (h : st.inputLen < 4 + bytes.length ∨ st.inputLen ≤ 4) (hmax : st.inputLen ≤ memMaxLen) :
    (setFieldToBuf buffer bytes st).1 = false ∧
      ∀ x, x < buffer ∨ buffer + st.inputLen ≤ x →
        (setFieldToBuf buffer bytes st).2.mem x = st.mem x := by
  by_cases hhead : st.inputLen < 4
  · rw [setFieldToBuf, if_pos hhead]
    exact ⟨rfl, fun _ _ => rfl⟩
  · have hlen : (wordBytes (BitVec.ofNat 32 bytes.length)).length ≤ st.inputLen := by
      rw [length_wordBytes]; omega
    have hframe : ∀ x, x < buffer ∨ buffer + st.inputLen ≤ x →
        write st.mem buffer (wordBytes (BitVec.ofNat 32 bytes.length)) x = st.mem x := by
      rintro x (hx | hx)
      · exact write_of_lt hx
      · exact write_of_ge (by omega)
    rw [setFieldToBuf, if_neg hhead, memcpyS_of_le (by omega) hmax hlen]
    simp only [if_true]
    by_cases hbody : st.inputLen - 4 < bytes.length
    · rw [if_pos hbody]
      exact ⟨rfl, hframe⟩
    · -- nothing is left behind the length of an empty text
      have hleft : st.inputLen - 4 = 0 := by omega
      rw [if_neg hbody, hleft, memcpyS_refused (.inl rfl)]
      exact ⟨rfl, hframe⟩

end Buffers

section Encoders

theorem Encodes.of_write {mem : Mem} {buffer bufLen : Nat} {name : Bytes} {uid : U32}
    (hname : name.length < 2 ^ 32) (hfits : 4 + name.length + 4 + 4 ≤ bufLen)
    (hmax : bufLen ≤ memMaxLen) :
    Encodes mem (write mem buffer (nativeCert name uid)) buffer bufLen name uid true where
  ok_iff := iff_of_true rfl ⟨hfits, hmax⟩
  bytes _ := by rw [← length_nativeCert name uid, read_write_self]
  decodes _ := by
    obtain ⟨more, rfl⟩ := Nat.exists_eq_add_of_le hfits
    rw [read_append, ← length_nativeCert name uid, read_write_self, decodeNativeCert_append hname]
  outside := by
    rintro x (hx | hx)
    · exact write_of_lt hx
    · exact write_of_ge (by rw [length_nativeCert]; omega)
  refused h := absurd h (Nat.not_lt.mpr hmax)

theorem Encodes.of_fails {mem mem' : Mem} {buffer bufLen : Nat} {name : Bytes} {uid : U32}
    (hshort : bufLen < 4 + name.length + 4 + 4) (hmax : bufLen ≤ memMaxLen)
    (hframe : ∀ x, x < buffer ∨ buffer + bufLen ≤ x → mem' x = mem x) :
    Encodes mem mem' buffer bufLen name uid false where
  ok_iff := iff_of_false Bool.false_ne_true fun h => Nat.not_lt.mpr h.1 hshort
  bytes h := absurd h Bool.false_ne_true
  decodes h := absurd h Bool.false_ne_true
  outside := hframe
  refused h := absurd h (Nat.not_lt.mpr hmax)

theorem Encodes.of_refused {mem : Mem} {buffer bufLen : Nat} {name : Bytes} {uid : U32}
    (hlarge : memMaxLen < bufLen) : Encodes mem mem buffer bufLen name uid false where
  ok_iff := iff_of_false Bool.false_ne_true fun h => Nat.not_lt.mpr h.2 hlarge
  bytes h := absurd h Bool.false_ne_true
  decodes h := absurd h Bool.false_ne_true
  outside _ _ := rfl
  refused _ := rfl

theorem teeGetNativeCert_of_none {cmdline : Option Bytes} (h : teeGetPkgName cmdline maxPathLength = none)
    (caUid len : U32) (mem : Mem) (buffer : Nat) :
    teeGetNativeCert cmdline caUid len mem buffer = (false, len.toNat, mem) := by
  rw [teeGetNativeCert, h]

theorem encodes_teeGetNativeCert {cmdline : Option Bytes} {name : Bytes}
    (h : teeGetPkgName cmdline maxPathLength = some name) (caUid len : U32) (mem : Mem)
    (buffer : Nat) :
    Encodes mem (teeGetNativeCert cmdline caUid len mem buffer).2.2 buffer len.toNat name caUid
      (teeGetNativeCert cmdline caUid len mem buffer).1 := by
  have hname : name.length < 2 ^ 32 :=
    (length_teeGetPkgName h).trans_le (by rw [maxPathLength]; decide)
  by_cases hlarge : memMaxLen < len.toNat
  · have hset : setFieldToBuf buffer name ⟨mem, 0, len.toNat⟩ = (false, ⟨mem, 0, len.toNat⟩) :=
      setFieldToBuf_of_large buffer name hlarge
    simp only [teeGetNativeCert, h, setPathToBuf, hset, Bool.false_eq_true, if_false]
    exact Encodes.of_refused hlarge
  have hmax := Nat.not_lt.mp hlarge
  by_cases hpath : 4 + name.length ≤ len.toNat ∧ 4 < len.toNat
  · have hset : setFieldToBuf buffer name ⟨mem, 0, len.toNat⟩ =
        (true, ⟨write mem buffer (field name), 0 + 4 + name.length, len.toNat - 4⟩) :=
      setFieldToBuf_of_fits buffer hpath.1 hpath.2 hmax
    by_cases huid : 4 + name.length + 4 + 4 ≤ len.toNat
    · have hwrite : write (write mem buffer (field name)) (buffer + (4 + name.length))
          (field (wordBytes caUid)) = write mem buffer (nativeCert name caUid) := by
        rw [nativeCert, write_append, length_field]
      have heq : teeGetNativeCert cmdline caUid len mem buffer =
          (true, 0 + 4 + name.length + 4 + 4, write mem buffer (nativeCert name caUid)) := by
        simp only [teeGetNativeCert, h, setPathToBuf, hset, if_true, setUidToBuf]
        rw [setFieldToBuf_of_fits _ (by simp only [length_wordBytes]; omega) (by simp only; omega)
          (by simp only; omega), hwrite, length_wordBytes]
      rw [heq]
      exact Encodes.of_write hname huid hmax
    · obtain ⟨hfails, hframe⟩ := setFieldToBuf_of_short (buffer + (4 + name.length))
        (wordBytes caUid)
        ⟨write mem buffer (field name), 0 + 4 + name.length, len.toNat - 4 - name.length⟩
        (Or.inl (by simp only [length_wordBytes]; omega)) (by simp only; omega)
      simp only [teeGetNativeCert, h, setPathToBuf, hset, if_true, setUidToBuf, hfails]
      apply Encodes.of_fails (Nat.not_le.mp huid) hmax
      rintro x hx
      rw [hframe x (by simp only; omega)]
      rcases hx with hx | hx
      · exact write_of_lt hx
      · exact write_of_ge (by rw [length_field]; omega)
  · obtain ⟨hfails, hframe⟩ := setFieldToBuf_of_short buffer name ⟨mem, 0, len.toNat⟩
      (by simp only; omega) hmax
    simp only [teeGetNativeCert, h, setPathToBuf, hfails, Bool.false_eq_true, if_false]
    exact Encodes.of_fails (by omega) hmax hframe

theorem encodes_teeGetNativeSaCaInfo (caInfo : CaAuthInfo) (mem : Mem) (buf : Nat) (bufLen : U32) :
    Encodes mem (teeGetNativeSaCaInfo caInfo mem buf bufLen).2 buf bufLen.toNat
      (strn caInfo.certs) caInfo.uid (teeGetNativeSaCaInfo caInfo mem buf bufLen).1 := by
  have hname : (strn caInfo.certs).length < 2 ^ 32 := by
    have hle := length_strn_le caInfo.certs
    rw [caInfo.certs_length, bufMaxSize] at hle
    omega
  rw [teeGetNativeSaCaInfo]
  by_cases hlarge : memMaxLen < bufLen.toNat
  · have hzero : bufLen.toNat ≠ 0 := by omega
    simp only [if_neg hzero, memcpyS_refused (.inr hlarge), Bool.false_eq_true, if_false, ite_self]
    exact Encodes.of_refused hlarge
  have hmax := Nat.not_lt.mp hlarge
  by_cases hzero : bufLen.toNat = 0
  · rw [if_pos hzero]
    exact Encodes.of_fails (by omega) hmax fun _ _ => rfl
  · rw [if_neg hzero]
    by_cases hshort : bufLen.toNat < 4 + (strn caInfo.certs).length + 4 + (wordBytes caInfo.uid).length
    · rw [if_pos hshort]
      exact Encodes.of_fails hshort hmax fun _ _ => rfl
    · have hfits : 4 + (strn caInfo.certs).length + 4 + 4 ≤ bufLen.toNat := Nat.not_lt.mp hshort
      have hwrite : write (write (write (write mem buf
          (wordBytes (BitVec.ofNat 32 (strn caInfo.certs).length))) (buf + 4) (strn caInfo.certs))
          (buf + (4 + (strn caInfo.certs).length)) (wordBytes (BitVec.ofNat 32 4)))
          (buf + (4 + (strn caInfo.certs).length + 4)) (wordBytes caInfo.uid) =
          write mem buf (nativeCert (strn caInfo.certs) caInfo.uid) := by
        simp only [nativeCert, field, write_append, List.length_append, length_wordBytes,
          Nat.add_assoc]
      rw [if_neg hshort, memcpyS_of_le (by omega) hmax (by rw [length_wordBytes]; omega)]
      simp only [if_true]
      rw [memcpyS_of_le (by omega) (by omega) (by omega)]
      simp only [if_true]
      rw [memcpyS_of_le (by omega) (by omega) (by rw [length_wordBytes]; omega)]
      simp only [if_true]
      rw [memcpyS_of_le (by omega) (by omega) (by rw [length_wordBytes]; omega), length_wordBytes,
        hwrite]
      exact Encodes.of_write hname hfits hmax

end Encoders

section Login

theorem toNat_bufMaxSize : (BitVec.ofNat 32 bufMaxSize).toNat = bufMaxSize := by decide

theorem decode_setLoginInfo {proc : Int → Option Bytes} {caInfo : CaAuthInfo} {buf : Bytes}
    (hnative : caInfo.type = .systemCa ∨ caInfo.type = .saCa)
    (h : setLoginInfo proc caInfo = some buf) :
    (decodeNativeCert buf).isSome ∧ decodeNativeCert buf = caInfo.identity proc := by
  rcases hnative with htype | htype <;> simp only [setLoginInfo, htype] at h
  · split_ifs at h with hok
    rw [← Option.some.inj h]
    cases hname : teeGetPkgName (proc caInfo.pid) maxPathLength with
    | none =>
      rw [teeGetNativeCert_of_none hname] at hok
      exact absurd hok Bool.false_ne_true
    | some name =>
      have henc := encodes_teeGetNativeCert hname caInfo.uid (BitVec.ofNat 32 bufMaxSize)
        (fun _ => 0) 0
      rw [toNat_bufMaxSize] at henc
      simp only [henc.decodes hok, CaAuthInfo.identity, htype, hname, Option.map_some,
        Option.isSome_some, and_self]
  · split_ifs at h with hok
    rw [← Option.some.inj h]
    have henc := encodes_teeGetNativeSaCaInfo caInfo (fun _ => 0) 0 (BitVec.ofNat 32 bufMaxSize)
    rw [toNat_bufMaxSize] at henc
    simp only [henc.decodes hok, CaAuthInfo.identity, htype, Option.isSome_some, and_self]

end Login

/-- Both encoders write one format, exactly when it fits a buffer of a size that the library
knows; the login buffer of a native CA determines who it is. -/
theorem nativeLogin_encodes :
    (∀ cmdline caUid len mem buffer, teeGetPkgName cmdline maxPathLength = none →
      teeGetNativeCert cmdline caUid len mem buffer = (false, len.toNat, mem)) ∧
    (∀ cmdline name caUid len mem buffer, teeGetPkgName cmdline maxPathLength = some name →
      Encodes mem (teeGetNativeCert cmdline caUid len mem buffer).2.2 buffer len.toNat name caUid
        (teeGetNativeCert cmdline caUid len mem buffer).1) ∧
    (∀ caInfo mem buf bufLen,
      Encodes mem (teeGetNativeSaCaInfo caInfo mem buf bufLen).2 buf bufLen.toNat
        (strn caInfo.certs) caInfo.uid (teeGetNativeSaCaInfo caInfo mem buf bufLen).1) ∧
    (∀ cmdline caInfo len mem buffer mem' buf bufLen,
      teeGetPkgName cmdline maxPathLength = some (strn caInfo.certs) →
      (teeGetNativeCert cmdline caInfo.uid len mem buffer).1 = true →
      (teeGetNativeSaCaInfo caInfo mem' buf bufLen).1 = true →
      read (teeGetNativeCert cmdline caInfo.uid len mem buffer).2.2 buffer
          (4 + (strn caInfo.certs).length + 4 + 4) =
        read (teeGetNativeSaCaInfo caInfo mem' buf bufLen).2 buf
          (4 + (strn caInfo.certs).length + 4 + 4)) ∧
    (∀ proc₁ proc₂ caInfo₁ caInfo₂ buf,
      (caInfo₁.type = .systemCa ∨ caInfo₁.type = .saCa) →
      (caInfo₂.type = .systemCa ∨ caInfo₂.type = .saCa) →
      setLoginInfo proc₁ caInfo₁ = some buf → setLoginInfo proc₂ caInfo₂ = some buf →
      (caInfo₁.identity proc₁).isSome ∧
        caInfo₁.identity proc₁ = caInfo₂.identity proc₂) := by
  refine ⟨?_, ?_, encodes_teeGetNativeSaCaInfo, ?_, ?_⟩
  · intro cmdline caUid len mem buffer h
    exact teeGetNativeCert_of_none h caUid len mem buffer
  · intro cmdline name caUid len mem buffer h
    exact encodes_teeGetNativeCert h caUid len mem buffer
  · intro cmdline caInfo len mem buffer mem' buf bufLen h hcert hsa
    rw [(encodes_teeGetNativeCert h caInfo.uid len mem buffer).bytes hcert,
      (encodes_teeGetNativeSaCaInfo caInfo mem' buf bufLen).bytes hsa]
  · intro proc₁ proc₂ caInfo₁ caInfo₂ buf hnative₁ hnative₂ h₁ h₂
    obtain ⟨hsome, heq₁⟩ := decode_setLoginInfo hnative₁ h₁
    obtain ⟨-, heq₂⟩ := decode_setLoginInfo hnative₂ h₂
    exact ⟨heq₁ ▸ hsome, heq₁.symm.trans heq₂⟩

def sampleSaCa : CaAuthInfo where
  certs := 97 :: List.replicate (bufMaxSize - 1) 0
  certs_length := by rw [List.length_cons, List.length_replicate]; decide
  type := .saCa
  uid := 0
  pid := 0

/-- A buffer of 2 GiB has room for any identity, but is refused. -/
theorem not_encodes_largeBuffer :
    teeGetPkgName (some [97]) maxPathLength = some [97] ∧ strn sampleSaCa.certs = [97] ∧
      4 + [97].length + 4 + 4 ≤ (0x80000000 : U32).toNat ∧
      (teeGetNativeCert (some [97]) 0 0x80000000 (fun _ => 0) 0).1 = false ∧
      (teeGetNativeSaCaInfo sampleSaCa (fun _ => 0) 0 0x80000000).1 = false := by
  exact ⟨by decide, by decide, by decide, by decide, by decide⟩

end TeeClient.Authentication
