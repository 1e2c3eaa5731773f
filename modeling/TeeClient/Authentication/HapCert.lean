import Mathlib.Data.List.TakeWhile
import Mathlib.Tactic
import TeeClient.Authentication.NativeCert
import TeeClient.Lib.Base64

/-! The identity of a HAP: its package name and its public key, taken from the application
identifier (`ConstructHapCaInfoFromToken` in `tee_auth_system.cpp`).  `evpDecodeBlock` stands for
OpenSSL's function of that name: the bytes that it writes, or `none` for a negative result. -/

namespace TeeClient.Authentication

open ByteMemory LengthPrefix Securec

def hapAppidSplitCha : Byte := 95
def maxBase64PaddingLen : Nat := 2
def maxPubkeyLen : Nat := 512
def uncompressedPubkeyPrefix : Byte := 0x04

section Source

variable (evpDecodeBlock : Bytes → Option Bytes)

def padLen (encodedStr : Bytes) : Nat :=
  ((encodedStr.reverse.take 4).takeWhile (· = Base64.pad)).length

def base64Decode (encodedStr : Bytes) (decodedLen : Nat) : Option Bytes :=
  let encodedLen := encodedStr.length
  if encodedLen = 0 ∨ encodedLen % 4 ≠ 0 then none
  else if decodedLen < encodedLen / 4 * 3 then none
  else
    match evpDecodeBlock encodedStr with
    | none => none
    | some decoded =>
      if maxBase64PaddingLen < padLen encodedStr then none
      else if decoded.length = 0 ∨ decoded.length ≤ padLen encodedStr then none
      else some (decoded.take (decoded.length - padLen encodedStr))

def CaAuthInfo.setCerts (caInfo : CaAuthInfo) (mem : Mem) : CaAuthInfo :=
  { caInfo with certs := read mem 0 bufMaxSize, certs_length := length_read _ _ _ }

def fillEccHapCaInfo (packageName pubKey : Bytes) (caInfo : CaAuthInfo) : Bool × CaAuthInfo :=
  let pubKeyLen := pubKey.length
  if bufMaxSize < 4 + packageName.length + 4 + 4 * 2 + pubKeyLen then (false, caInfo)
  else
    let mem : Mem := fun i => caInfo.certs.getD i 0
    let mem := write mem 0 (wordBytes (BitVec.ofNat 32 packageName.length))
    let mem := write mem 4 packageName
    let offset := 4 + packageName.length
    let mem := write mem offset (wordBytes (BitVec.ofNat 32 (pubKeyLen + 4 * 2)))
    let offset := offset + 4
    let mem := write mem offset (wordBytes (BitVec.ofNat 32 (pubKeyLen / 2)))
    let offset := offset + 4
    let (ok, mem) := memcpyS mem offset (bufMaxSize - offset) (pubKey.take (pubKeyLen / 2))
    if ok then
      let offset := offset + pubKeyLen / 2
      let mem := write mem offset (wordBytes (BitVec.ofNat 32 (pubKeyLen / 2)))
      let offset := offset + 4
      let (ok, mem) := memcpyS mem offset (bufMaxSize - offset)
        ((pubKey.drop (pubKeyLen / 2)).take (pubKeyLen / 2))
      (ok, caInfo.setCerts mem)
    else (false, caInfo.setCerts mem)

def findLastOf (c : Byte) (s : Bytes) : Option Nat :=
  (s.reverse.findIdx? (· = c)).map fun i => s.length - 1 - i

/-- `ConstructHapCaInfoFromToken`, for the identifier that `GetHapAppID` gives: whether it
returns 0, and `caInfo`. -/
def constructHapCaInfoFromToken (appID : Bytes) (caInfo : CaAuthInfo) : Bool × CaAuthInfo :=
  if appID.length = 0 ∨ bufMaxSize < appID.length then (false, caInfo)
  else
    match findLastOf hapAppidSplitCha appID with
    | none => (false, caInfo)
    | some posSplit =>
      let packageName := appID.take posSplit
      let pubkeyBase64 := (appID.drop (posSplit + 1)).take (appID.length - posSplit - 1)
      match base64Decode evpDecodeBlock pubkeyBase64 maxPubkeyLen with
      | none => (false, caInfo)
      | some decodedPubkey =>
        if decodedPubkey.length < 1 ∨ decodedPubkey.head? ≠ some uncompressedPubkeyPrefix then
          (false, caInfo)
        else
          let pubKey := decodedPubkey.drop 1
          if pubKey.length = 0 ∨ pubKey.length % 2 ≠ 0 then (false, caInfo)
          else
            let (ok, caInfo) := fillEccHapCaInfo packageName pubKey caInfo
            if ok then (true, { caInfo with type := .appCa }) else (false, caInfo)

end Source

section Specification

/-- `packageNameLen || packageName || pubKeyLen || xLen || x || yLen || y` -/
structure HapCert where
  packageName : Bytes
  pubKeyLen : U32
  x : Bytes
  y : Bytes

def HapCert.encode (cert : HapCert) : Bytes :=
  field cert.packageName ++ wordBytes cert.pubKeyLen ++ field cert.x ++ field cert.y

def decodeHapCert (bs : Bytes) : Option HapCert := do
  let (packageName, bs) ← takeField bs
  let (pubKeyLen, bs) ← takeWord bs
  let (x, bs) ← takeField bs
  let (y, _) ← takeField bs
  some { packageName, pubKeyLen, x, y }

structure Splits (appID packageName text : Bytes) : Prop where
  eq : appID = packageName ++ hapAppidSplitCha :: text
  last : hapAppidSplitCha ∉ text

def Names (appID packageName key : Bytes) : Prop :=
  ∃ text, Splits appID packageName text ∧
    Base64.decode text = some (uncompressedPubkeyPrefix :: key)

/-- A Base64 text is decoded: its bytes come first, and three are counted for every group.  Of
other texts nothing is known: white space around a text is skipped, and padding inside of it is
not refused. -/
def DecodesBase64 (evpDecodeBlock : Bytes → Option Bytes) : Prop :=
  ∀ text bytes, Base64.decode text = some bytes → ∃ decoded, evpDecodeBlock text = some decoded ∧
    bytes <+: decoded ∧ decoded.length = 3 * (text.length / 4)

structure Certifies (certs packageName key : Bytes) (cert : HapCert) : Prop where
  decodes : decodeHapCert certs = some cert
  package : cert.packageName = packageName
  key : cert.x ++ cert.y = key
  pubKeyLen : cert.pubKeyLen.toNat = 8 + cert.x.length + cert.y.length
  halves : cert.x.length = cert.y.length

end Specification

section Split

theorem findLastOf_spec {c : Byte} {s : Bytes} {pos : Nat} (h : findLastOf c s = some pos) :
    s = s.take pos ++ c :: s.drop (pos + 1) ∧ c ∉ s.drop (pos + 1) := by
  obtain ⟨i, hfind, rfl⟩ := Option.map_eq_some_iff.mp h
  obtain ⟨hi, hc, hbefore⟩ := List.findIdx?_eq_some_iff_getElem.mp hfind
  rw [List.length_reverse] at hi
  rw [decide_eq_true_iff, List.getElem_reverse] at hc
  have hpos : s.length - 1 - i < s.length := by omega
  refine ⟨?_, fun hmem => ?_⟩
  · rw [← hc, List.getElem_cons_drop, List.take_append_drop]
  · obtain ⟨k, hk, hget⟩ := List.getElem_of_mem hmem
    rw [List.length_drop] at hk
    rw [List.getElem_drop] at hget
    have hj : s.length - 1 - (s.length - 1 - i + 1 + k) < i := by omega
    apply hbefore _ hj
    rw [decide_eq_true_iff, List.getElem_reverse, ← hget]
    congr 1
    omega

end Split

section Base64

variable {evpDecodeBlock : Bytes → Option Bytes}

theorem padLen_eq (encodedStr : Bytes) : padLen encodedStr = min 4 (Base64.padding encodedStr) := by
  rw [padLen, ← List.take_takeWhile, List.length_take, Base64.padding]

theorem decode_of_base64Decode (hevp : DecodesBase64 evpDecodeBlock) {encodedStr bytes key : Bytes}
    {decodedLen : Nat} (h : base64Decode evpDecodeBlock encodedStr decodedLen = some bytes)
    (hkey : Base64.decode encodedStr = some key) : key = bytes := by
  obtain ⟨decoded, hblock, hprefix, hcount⟩ := hevp _ _ hkey
  simp only [base64Decode] at h
  by_cases hform : encodedStr.length = 0 ∨ encodedStr.length % 4 ≠ 0
  · rw [if_pos hform] at h
    cases h
  by_cases hshort : decodedLen < encodedStr.length / 4 * 3
  · rw [if_neg hform, if_pos hshort] at h
    cases h
  rw [if_neg hform, if_neg hshort, hblock] at h
  simp only at h
  split_ifs at h with hpad hlen
  have hne : encodedStr ≠ [] := fun hnil => hform (.inl (by rw [hnil]; rfl))
  obtain ⟨-, htwo, hbytes⟩ := Base64.length_decode hkey hne
  have hpadLen : padLen encodedStr = Base64.padding encodedStr := by
    rw [padLen_eq]
    omega
  have hsize : decoded.length - padLen encodedStr = key.length := by omega
  rw [← Option.some.inj h, hsize, ← List.prefix_iff_eq_take.mp hprefix]

end Base64

section Format

theorem toNat_ofNat_length {n : Nat} (h : n < 2 ^ 32) : (BitVec.ofNat 32 n).toNat = n := by
  rw [BitVec.toNat_ofNat, Nat.mod_eq_of_lt h]

theorem HapCert.length_encode (cert : HapCert) :
    cert.encode.length = 4 + cert.packageName.length + 4 + 4 + cert.x.length + 4 + cert.y.length := by
  simp only [encode, List.length_append, length_field, length_wordBytes]
  omega

theorem decodeHapCert_append (cert : HapCert) (h : cert.encode.length < 2 ^ 32) (rest : Bytes) :
    decodeHapCert (cert.encode ++ rest) = some cert := by
  rw [cert.length_encode] at h
  have hname : cert.packageName.length < 2 ^ 32 := by omega
  have hx : cert.x.length < 2 ^ 32 := by omega
  have hy : cert.y.length < 2 ^ 32 := by omega
  simp only [decodeHapCert, HapCert.encode, List.append_assoc, takeField_append hname,
    takeWord_append, takeField_append hx, takeField_append hy, Option.bind_eq_bind,
    Option.bind_some]

def hapCert (packageName pubKey : Bytes) : HapCert where
  packageName
  pubKeyLen := BitVec.ofNat 32 (pubKey.length + 4 * 2)
  x := pubKey.take (pubKey.length / 2)
  y := pubKey.drop (pubKey.length / 2)

theorem halves_hapCert (packageName : Bytes) {pubKey : Bytes} (heven : pubKey.length % 2 = 0) :
    (hapCert packageName pubKey).x.length = pubKey.length / 2 ∧
      (hapCert packageName pubKey).y.length = pubKey.length / 2 := by
  rw [hapCert, List.length_take, List.length_drop]
  omega

theorem certifies_hapCert {packageName pubKey : Bytes} (heven : pubKey.length % 2 = 0)
    (hfits : 4 + packageName.length + 4 + 4 * 2 + pubKey.length ≤ bufMaxSize) (rest : Bytes) :
    Certifies ((hapCert packageName pubKey).encode ++ rest) packageName pubKey
      (hapCert packageName pubKey) := by
  obtain ⟨hx, hy⟩ := halves_hapCert packageName heven
  have hsize : (hapCert packageName pubKey).encode.length ≤ bufMaxSize := by
    rw [HapCert.length_encode, hx, hy]
    simp only [hapCert]
    omega
  have hmax : bufMaxSize < 2 ^ 32 := by decide
  refine ⟨decodeHapCert_append _ (hsize.trans_lt hmax) rest, rfl, List.take_append_drop _ _, ?_,
    hx.trans hy.symm⟩
  rw [hx, hy, hapCert, toNat_ofNat_length (by omega)]
  omega

theorem certs_fillEccHapCaInfo {packageName pubKey : Bytes} {caInfo : CaAuthInfo}
    (hpos : pubKey.length ≠ 0) (heven : pubKey.length % 2 = 0)
    (h : (fillEccHapCaInfo packageName pubKey caInfo).1 = true) :
    4 + packageName.length + 4 + 4 * 2 + pubKey.length ≤ bufMaxSize ∧
      ∃ rest, (fillEccHapCaInfo packageName pubKey caInfo).2.certs =
        (hapCert packageName pubKey).encode ++ rest := by
  by_cases hsize : bufMaxSize < 4 + packageName.length + 4 + 4 * 2 + pubKey.length
  · simp [fillEccHapCaInfo, hsize] at h
  have hfits := Nat.not_lt.mp hsize
  refine ⟨hfits, ?_⟩
  obtain ⟨hx, hy⟩ := halves_hapCert packageName heven
  have hyall : (pubKey.drop (pubKey.length / 2)).take (pubKey.length / 2) =
      pubKey.drop (pubKey.length / 2) := List.take_of_length_le hy.le
  have hlen : (hapCert packageName pubKey).encode.length + (bufMaxSize -
      (4 + packageName.length + 4 + 4 * 2 + pubKey.length)) = bufMaxSize := by
    rw [HapCert.length_encode, hx, hy]
    simp only [hapCert]
    omega
  simp only [hapCert] at hx hy
  have hwrite (mem : Mem) : write (write (write (write (write (write (write mem 0
      (wordBytes (BitVec.ofNat 32 packageName.length))) 4 packageName) (4 + packageName.length)
      (wordBytes (BitVec.ofNat 32 (pubKey.length + 4 * 2)))) (4 + packageName.length + 4)
      (wordBytes (BitVec.ofNat 32 (pubKey.length / 2)))) (4 + packageName.length + 4 + 4)
      (pubKey.take (pubKey.length / 2))) (4 + packageName.length + 4 + 4 + pubKey.length / 2)
      (wordBytes (BitVec.ofNat 32 (pubKey.length / 2))))
      (4 + packageName.length + 4 + 4 + pubKey.length / 2 + 4)
      (pubKey.drop (pubKey.length / 2)) =
      write mem 0 (hapCert packageName pubKey).encode := by
    simp only [HapCert.encode, hapCert, field, write_append, List.length_append, length_wordBytes,
      hx, hy, Nat.zero_add, Nat.add_assoc]
  simp only [fillEccHapCaInfo, if_neg hsize]
  have hmax : bufMaxSize ≤ memMaxLen := by decide
  rw [memcpyS_of_le (by omega) (by omega) (by omega)]
  simp only [if_true]
  rw [memcpyS_of_le (by omega) (by omega) (by rw [hyall]; omega), hyall]
  simp only [CaAuthInfo.setCerts, hwrite]
  exact ⟨_, by rw [← hlen, read_append, read_write_self]⟩

end Format

section Identity

variable {evpDecodeBlock : Bytes → Option Bytes} {appID packageName text key : Bytes}

theorem takeWhile_reverse (package : Bytes) {text : Bytes} {c : Byte} (h : c ∉ text) :
    (package ++ c :: text).reverse.takeWhile (· ≠ c) = text.reverse := by
  have hall : ∀ b ∈ text.reverse, decide (b ≠ c) = true := by
    intro b hb
    rw [decide_eq_true_iff]
    rintro rfl
    exact h (List.mem_reverse.mp hb)
  rw [List.reverse_append, List.reverse_cons, List.append_assoc, List.takeWhile_append_of_pos hall]
  simp

theorem Splits.unique {packageName' text' : Bytes} (h : Splits appID packageName text)
    (h' : Splits appID packageName' text') : packageName = packageName' ∧ text = text' := by
  obtain ⟨rfl, hlast⟩ := h
  obtain ⟨heq, hlast'⟩ := h'
  have hsame : text = text' := by
    rw [← List.reverse_inj, ← takeWhile_reverse packageName hlast, heq,
      takeWhile_reverse packageName' hlast']
  subst hsame
  exact ⟨List.append_cancel_right heq, rfl⟩

theorem certs_of_construct {caInfo : CaAuthInfo}
    (h : (constructHapCaInfoFromToken evpDecodeBlock appID caInfo).1 = true) :
    ∃ packageName text key, Splits appID packageName text ∧
      base64Decode evpDecodeBlock text maxPubkeyLen = some (uncompressedPubkeyPrefix :: key) ∧
      Certifies (constructHapCaInfoFromToken evpDecodeBlock appID caInfo).2.certs packageName key
        (hapCert packageName key) := by
  by_cases hlen : appID.length = 0 ∨ bufMaxSize < appID.length
  · rw [constructHapCaInfoFromToken, if_pos hlen] at h
    exact absurd h Bool.false_ne_true
  rw [constructHapCaInfoFromToken, if_neg hlen] at h ⊢
  cases hsplit : findLastOf hapAppidSplitCha appID with
  | none =>
    rw [hsplit] at h
    exact absurd h Bool.false_ne_true
  | some posSplit =>
    obtain ⟨happ, htext⟩ := findLastOf_spec hsplit
    have htake : (appID.drop (posSplit + 1)).take (appID.length - posSplit - 1) =
        appID.drop (posSplit + 1) := by
      apply List.take_of_length_le
      rw [List.length_drop]
      omega
    simp only [hsplit, htake] at h ⊢
    cases hdec : base64Decode evpDecodeBlock (appID.drop (posSplit + 1)) maxPubkeyLen with
    | none =>
      rw [hdec] at h
      exact absurd h Bool.false_ne_true
    | some decodedPubkey =>
      simp only [hdec] at h ⊢
      by_cases hprefix : decodedPubkey.length < 1 ∨
          decodedPubkey.head? ≠ some uncompressedPubkeyPrefix
      · rw [if_pos hprefix] at h
        exact absurd h Bool.false_ne_true
      rw [if_neg hprefix] at h ⊢
      by_cases hodd : (decodedPubkey.drop 1).length = 0 ∨ (decodedPubkey.drop 1).length % 2 ≠ 0
      · rw [if_pos hodd] at h
        exact absurd h Bool.false_ne_true
      rw [if_neg hodd] at h ⊢
      have hfill : (fillEccHapCaInfo (appID.take posSplit) (decodedPubkey.drop 1) caInfo).1 = true := by
        by_contra hno
        rw [if_neg hno] at h
        exact absurd h Bool.false_ne_true
      rw [if_pos hfill]
      push Not at hprefix hodd
      obtain ⟨hfits, rest, hcerts⟩ := certs_fillEccHapCaInfo hodd.1 hodd.2 hfill
      have hkey : decodedPubkey = uncompressedPubkeyPrefix :: decodedPubkey.drop 1 := by
        rw [List.drop_one]
        exact List.eq_cons_of_mem_head? hprefix.2
      refine ⟨appID.take posSplit, appID.drop (posSplit + 1), decodedPubkey.drop 1, ⟨happ, htext⟩,
        ?_, ?_⟩
      · rw [← hkey, hdec]
      · simp only [hcerts]
        exact certifies_hapCert hodd.2 hfits rest

end Identity

/-- The identity of a HAP tells its package name and what was decoded of its key; where that is
a Base64 text, it tells the key, and no other HAP has it. -/
theorem hapIdentity_encodes (evpDecodeBlock : Bytes → Option Bytes)
    (hevp : DecodesBase64 evpDecodeBlock) :
    (∀ appID caInfo, (constructHapCaInfoFromToken evpDecodeBlock appID caInfo).1 = true →
      ∃ packageName text key cert, Splits appID packageName text ∧
        base64Decode evpDecodeBlock text maxPubkeyLen = some (uncompressedPubkeyPrefix :: key) ∧
        Certifies (constructHapCaInfoFromToken evpDecodeBlock appID caInfo).2.certs packageName key
          cert ∧
        ((Base64.decode text).isSome → Names appID packageName key)) ∧
    (∀ appID₁ appID₂ caInfo₁ caInfo₂ packageName₁ packageName₂ text₁ text₂,
      (constructHapCaInfoFromToken evpDecodeBlock appID₁ caInfo₁).1 = true →
      (constructHapCaInfoFromToken evpDecodeBlock appID₂ caInfo₂).1 = true →
      Splits appID₁ packageName₁ text₁ → Splits appID₂ packageName₂ text₂ →
      (constructHapCaInfoFromToken evpDecodeBlock appID₁ caInfo₁).2.certs =
        (constructHapCaInfoFromToken evpDecodeBlock appID₂ caInfo₂).2.certs →
      packageName₁ = packageName₂ ∧ ∀ key₁ key₂, Names appID₁ packageName₁ key₁ →
        Names appID₂ packageName₂ key₂ → key₁ = key₂) := by
  refine ⟨fun appID caInfo h => ?_, ?_⟩
  · obtain ⟨packageName, text, key, hsplit, hdecoded, hcert⟩ := certs_of_construct h
    refine ⟨packageName, text, key, _, hsplit, hdecoded, hcert, fun hsome => ⟨text, hsplit, ?_⟩⟩
    obtain ⟨bytes, hbytes⟩ := Option.isSome_iff_exists.mp hsome
    rw [hbytes, decode_of_base64Decode hevp hdecoded hbytes]
  · intro appID₁ appID₂ caInfo₁ caInfo₂ packageName₁ packageName₂ text₁ text₂ h₁ h₂ hsplit₁ hsplit₂
      hcerts
    obtain ⟨p₁, t₁, k₁, hs₁, hd₁, hc₁⟩ := certs_of_construct h₁
    obtain ⟨p₂, t₂, k₂, hs₂, hd₂, hc₂⟩ := certs_of_construct h₂
    obtain ⟨rfl, rfl⟩ := hsplit₁.unique hs₁
    obtain ⟨rfl, rfl⟩ := hsplit₂.unique hs₂
    have hsame := Option.some.inj (hc₁.decodes.symm.trans ((congrArg decodeHapCert hcerts).trans
      hc₂.decodes))
    have hkeys : k₁ = k₂ := by rw [← hc₁.key, hsame, hc₂.key]
    refine ⟨by rw [← hc₁.package, hsame, hc₂.package], ?_⟩
    rintro key₁ key₂ ⟨t₁', ht₁, hkey₁⟩ ⟨t₂', ht₂, hkey₂⟩
    obtain ⟨-, rfl⟩ := hsplit₁.unique ht₁
    obtain ⟨-, rfl⟩ := hsplit₂.unique ht₂
    rw [(List.cons.inj (decode_of_base64Decode hevp hd₁ hkey₁)).2,
      (List.cons.inj (decode_of_base64Decode hevp hd₂ hkey₂)).2, hkeys]

section OpenSsl

def isTrimmed (c : Byte) : Bool := c = 32 ∨ c = 9 ∨ c = 10 ∨ c = 13 ∨ c = 45

def trimEnd : Bytes → Bytes
  | c :: d :: e :: f :: rest =>
    if isTrimmed c then trimEnd (d :: e :: f :: rest) else c :: d :: e :: f :: rest
  | text => text

def decodeGroups : Bytes → Option Bytes
  | [] => some []
  | a :: b :: c :: d :: rest => do
    let value (c : Byte) := if c = Base64.pad then some 0 else Base64.sextet c
    let a ← value a
    let b ← value b
    let c ← value c
    let d ← value d
    let bytes ← decodeGroups rest
    some (Base64.group a b c d ++ bytes)
  | _ => none

/-- The documented behaviour of `EVP_DecodeBlock`: spaces and tabs in front of a text are skipped,
as is what can be trimmed behind it, and padding stands for zeros wherever it is. -/
def trimmedDecodeBlock (text : Bytes) : Option Bytes :=
  decodeGroups (trimEnd (text.dropWhile fun c => c = 32 ∨ c = 9).reverse).reverse

variable {text bytes : Bytes}

theorem trimEnd_eq (h : ∀ c ∈ text, isTrimmed c = false) : trimEnd text = text := by
  fun_cases trimEnd text with
  | case1 c d e f rest hc => simp [h c] at hc
  | case2 => rfl
  | case3 => rfl

theorem isTrimmed_eq_false {c : Byte} (h : c = Base64.pad ∨ (Base64.sextet c).isSome) :
    isTrimmed c = false := by
  rw [isTrimmed, decide_eq_false_iff_not]
  rintro (rfl | rfl | rfl | rfl | rfl) <;> revert h <;> decide

theorem trimmedDecodeBlock_eq (h : Base64.decode text = some bytes) :
    trimmedDecodeBlock text = decodeGroups text := by
  have hkept : ∀ c ∈ text, isTrimmed c = false := fun c hc =>
    isTrimmed_eq_false (Base64.letter_or_pad h c hc)
  have hfront : text.dropWhile (fun c => c = 32 ∨ c = 9) = text := by
    rw [List.dropWhile_eq_self_iff]
    intro hpos hwhite
    have := hkept _ (List.getElem_mem hpos)
    rw [decide_eq_true_iff] at hwhite
    rw [isTrimmed, decide_eq_false_iff_not] at this
    exact this (hwhite.imp_right .inl)
  rw [trimmedDecodeBlock, hfront, trimEnd_eq fun c hc => hkept c (List.mem_reverse.mp hc),
    List.reverse_reverse]

theorem decodeGroups_of_decode (h : Base64.decode text = some bytes) :
    ∃ decoded, decodeGroups text = some decoded ∧ bytes <+: decoded ∧
      decoded.length = 3 * (text.length / 4) := by
  induction text using Base64.decode.induct generalizing bytes with
  | case1 =>
    obtain rfl := Option.some.inj h
    exact ⟨[], rfl, List.prefix_rfl, rfl⟩
  | case2 a b c d rest ih =>
    simp only [Base64.decode, Option.bind_eq_bind, Option.bind_eq_some_iff] at h
    obtain ⟨na, ha, nb, hb, h⟩ := h
    have hne {c : Byte} {n : BitVec 6} (h : Base64.sextet c = some n) := Base64.ne_pad_of_sextet h
    simp only [decodeGroups, if_neg (hne ha), if_neg (hne hb), ha, hb, Option.bind_eq_bind,
      Option.bind_some]
    split_ifs at h with hlast hc
    · obtain ⟨rfl, rfl⟩ := hlast
      obtain rfl := Option.some.inj h
      simp only [hc, if_true, decodeGroups, Option.bind_some, List.append_nil]
      exact ⟨_, rfl, List.take_prefix _ _, by simp [Base64.group]⟩
    · obtain ⟨rfl, rfl⟩ := hlast
      obtain ⟨nc, hnc, h⟩ := Option.bind_eq_some_iff.mp h
      obtain rfl := Option.some.inj h
      simp only [if_neg hc, hnc, if_true, decodeGroups, Option.bind_some, List.append_nil]
      exact ⟨_, rfl, List.take_prefix _ _, by simp [Base64.group]⟩
    · simp only [Option.bind_eq_some_iff] at h
      obtain ⟨nc, hnc, nd, hnd, tail, htail, h⟩ := h
      obtain rfl := Option.some.inj h
      obtain ⟨decoded, hdecoded, hprefix, hlen⟩ := ih htail
      simp only [if_neg (hne hnc), hnc, if_neg (hne hnd), hnd, hdecoded, Option.bind_some]
      refine ⟨_, rfl, (List.prefix_append_right_inj _).mpr hprefix, ?_⟩
      simp only [Base64.group, List.length_append, List.length_cons, List.length_nil, hlen]
      omega
  | case3 text hempty hgroup =>
    rw [Base64.decode] at h
    · cases h
    · exact hempty
    · exact hgroup

theorem decodesBase64_trimmed : DecodesBase64 trimmedDecodeBlock := by
  intro text bytes h
  rw [trimmedDecodeBlock_eq h]
  exact decodeGroups_of_decode h

end OpenSsl

section Samples

def sampleCaInfo : CaAuthInfo where
  certs := List.replicate bufMaxSize 0
  certs_length := List.length_replicate
  type := .maxCa
  uid := 0
  pid := 0

def sampleAppID (last : Byte) : Bytes := [97, 95, 98, 95, 66, 65, 69, last]

theorem hapIdentity_encodes_sample :
    DecodesBase64 trimmedDecodeBlock ∧
      (∃ packageName key cert, Names (sampleAppID 67) packageName key ∧
        Certifies (constructHapCaInfoFromToken trimmedDecodeBlock (sampleAppID 67) sampleCaInfo).2.certs
          packageName key cert) ∧
      (constructHapCaInfoFromToken trimmedDecodeBlock (sampleAppID 67) sampleCaInfo).2.certs ≠
        (constructHapCaInfoFromToken trimmedDecodeBlock (sampleAppID 68) sampleCaInfo).2.certs := by
  have hsplit (last : Byte) (h : hapAppidSplitCha ∉ [66, 65, 69, last]) :
      Splits (sampleAppID last) [97, 95, 98] [66, 65, 69, last] := ⟨rfl, h⟩
  have hnames₁ : Names (sampleAppID 67) [97, 95, 98] [1, 2] := ⟨_, hsplit 67 (by decide), by decide⟩
  have hnames₂ : Names (sampleAppID 68) [97, 95, 98] [1, 3] := ⟨_, hsplit 68 (by decide), by decide⟩
  have hencodes := hapIdentity_encodes trimmedDecodeBlock decodesBase64_trimmed
  refine ⟨decodesBase64_trimmed, ?_, fun hcerts => ?_⟩
  · obtain ⟨packageName, text, key, cert, hs, -, hcert, hnames⟩ :=
      hencodes.1 (sampleAppID 67) sampleCaInfo (by decide)
    obtain ⟨-, rfl⟩ := hs.unique (hsplit 67 (by decide))
    exact ⟨packageName, key, cert, hnames (by decide), hcert⟩
  · have hkeys := (hencodes.2 _ _ _ _ _ _ _ _ (by decide) (by decide) (hsplit 67 (by decide))
      (hsplit 68 (by decide)) hcerts).2 _ _ hnames₁ hnames₂
    exact absurd hkeys (by decide)

/-- `BAECAwQFBg==` -/
def sampleText : Bytes := [66, 65, 69, 67, 65, 119, 81, 70, 66, 103, 61, 61]

def spacesAppID : Bytes := 112 :: 95 :: (sampleText ++ List.replicate 4 32)

/-- `p_BAECAwQFBgAA` -/
def zerosAppID : Bytes := [112, 95, 66, 65, 69, 67, 65, 119, 81, 70, 66, 103, 65, 65]

/-- Spaces behind a text hide its padding from `Base64Decode`: the key gets two bytes that it does
not have, and with them the identity of another one. -/
theorem not_hapIdentity_spaces :
    DecodesBase64 trimmedDecodeBlock ∧
    Base64.decode sampleText = some [4, 1, 2, 3, 4, 5, 6] ∧
    Names zerosAppID [112] [1, 2, 3, 4, 5, 6, 0, 0] ∧
    (constructHapCaInfoFromToken trimmedDecodeBlock spacesAppID sampleCaInfo).1 = true ∧
    (constructHapCaInfoFromToken trimmedDecodeBlock zerosAppID sampleCaInfo).1 = true ∧
    (constructHapCaInfoFromToken trimmedDecodeBlock spacesAppID sampleCaInfo).2.certs =
      (constructHapCaInfoFromToken trimmedDecodeBlock zerosAppID sampleCaInfo).2.certs ∧
    ∃ cert, decodeHapCert
        (constructHapCaInfoFromToken trimmedDecodeBlock spacesAppID sampleCaInfo).2.certs = some cert ∧
      cert.x ++ cert.y = [1, 2, 3, 4, 5, 6, 0, 0] := by
  have hok : (constructHapCaInfoFromToken trimmedDecodeBlock spacesAppID sampleCaInfo).1 = true := by
    decide
  refine ⟨decodesBase64_trimmed, by decide, ⟨zerosAppID.drop 2, ⟨rfl, by decide⟩, by decide⟩, hok,
    by decide, rfl, ?_⟩
  have hsplit : Splits spacesAppID [112] (sampleText ++ List.replicate 4 32) := ⟨rfl, by decide⟩
  have hdecode : base64Decode trimmedDecodeBlock (sampleText ++ List.replicate 4 32) maxPubkeyLen =
      some [4, 1, 2, 3, 4, 5, 6, 0, 0] := by decide
  obtain ⟨package, text, key, hs, hdecoded, hcert⟩ := certs_of_construct hok
  obtain ⟨-, rfl⟩ := hsplit.unique hs
  rw [hdecode] at hdecoded
  exact ⟨_, hcert.decodes, hcert.key.trans (List.cons.inj (Option.some.inj hdecoded)).2.symm⟩

end Samples

end TeeClient.Authentication
