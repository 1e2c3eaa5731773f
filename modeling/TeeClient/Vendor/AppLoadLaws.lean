import Mathlib.Tactic
import TeeClient.Vendor.AppLoad

/-! What `TEEC_GetApp` loads: the length is the one that the header at the position of the
stream declares, and the image is read from the start of the file. -/

namespace TeeClient.Vendor.AppLoad

open ByteMemory

section Format

inductive ImageVersion
  | cipherLayer
  | newFormat
  | oldFormat
  deriving DecidableEq, Repr

def ImageVersion.headLen : ImageVersion → U32
  | .cipherLayer => sizeofHdrV3
  | .newFormat => sizeofTaHead
  | .oldFormat => sizeofImageHead

def versionAt (f : ImageFile) (p : Nat) : ImageVersion :=
  if (identityAt f.bytes p).isNew then
    if cipherLayerVersion ≤ (identityAt f.bytes p).versionNum.setWidth 32 then .cipherLayer
    else .newFormat
  else .oldFormat

/-- `contextLen` by the format that is found at `p`.  The earlier formats have it at a fixed
place. -/
def contextLenAt (f : ImageFile) (p : Nat) : U32 :=
  match versionAt f p with
  | .cipherLayer => wordAt f.bytes (p + 8)
  | .newFormat => wordAt f.bytes 8
  | .oldFormat => wordAt f.bytes 0

def declaredLen (f : ImageFile) (p : Nat) : Nat :=
  (contextLenAt f p).toNat + (versionAt f p).headLen.toNat

def ImageVersion.headPlace : ImageVersion → Nat
  | .newFormat => 8
  | _ => 0

end Format

section Attempt

variable {a : Answers} {fp : Stream}

structure Sized (a : Answers) (fp : Stream) : Prop where
  header : a.header = none ∧ fp.pos + 16 ≤ fp.file.size
  imageHead : versionAt fp.file fp.pos ≠ .cipherLayer → a.seek = true ∧ a.imageHead = none ∧
    (versionAt fp.file fp.pos).headPlace + 24 ≤ fp.file.size
  context : contextLenAt fp.file fp.pos ≤ maxImageLen
  total : declaredLen fp.file fp.pos ≤ maxImageLen.toNat
  rewind : a.rewind = true

instance (a : Answers) (fp : Stream) : Decidable (Sized a fp) :=
  decidable_of_iff ((a.header = none ∧ fp.pos + 16 ≤ fp.file.size) ∧
    (versionAt fp.file fp.pos ≠ .cipherLayer → a.seek = true ∧ a.imageHead = none ∧
      (versionAt fp.file fp.pos).headPlace + 24 ≤ fp.file.size) ∧
    contextLenAt fp.file fp.pos ≤ maxImageLen ∧
    declaredLen fp.file fp.pos ≤ maxImageLen.toNat ∧ a.rewind = true)
    ⟨fun h => ⟨h.1, h.2.1, h.2.2.1, h.2.2.2.1, h.2.2.2.2⟩,
      fun h => ⟨h.header, h.imageHead, h.context, h.total, h.rewind⟩⟩

def failedRead (f : ImageFile) (pos : Nat) (error : Option Nat) : Nat := error.getD (max pos f.size)

/-- Where the stream stands when its length is refused: behind the header, behind `TeecImageHead`,
or where a read has failed. -/
def refusedAt (a : Answers) (fp : Stream) : Nat :=
  if a.header = none ∧ fp.pos + 16 ≤ fp.file.size then
    if versionAt fp.file fp.pos = .cipherLayer ∨ a.seek = false then fp.pos + 16
    else
      let head := (versionAt fp.file fp.pos).headPlace
      if a.imageHead = none ∧ head + 24 ≤ fp.file.size then head + 24
      else failedRead fp.file head a.imageHead
  else failedRead fp.file fp.pos a.header

def leftAt (a : Answers) (fp : Stream) : Nat :=
  if Sized a fp then if a.malloc then failedRead fp.file 0 a.image else 0 else refusedAt a fp

theorem toNat_total {c h : U32} (hc : c ≤ maxImageLen) (hh : h ≤ sizeofTaHead) :
    (c + h).toNat = c.toNat + h.toNat := by
  rw [BitVec.toNat_add, Nat.mod_eq_of_lt]
  have hc' : c.toNat ≤ maxImageLen.toNat := hc
  have hh' : h.toNat ≤ sizeofTaHead.toNat := hh
  have : maxImageLen.toNat + sizeofTaHead.toNat < 2 ^ 32 := by decide
  omega

theorem headLen_le (v : ImageVersion) : v.headLen ≤ sizeofTaHead := by
  cases v with
  | cipherLayer => decide
  | newFormat => decide
  | oldFormat => decide

theorem checkLength_eq {c h : U32} (hh : h ≤ sizeofTaHead) :
    (checkLength a c (c + h) fp = (some (c + h), ⟨fp.file, 0⟩) ∧
      (c ≤ maxImageLen ∧ c.toNat + h.toNat ≤ maxImageLen.toNat ∧ a.rewind = true)) ∨
    checkLength a c (c + h) fp = (none, fp) ∧
      ¬ (c ≤ maxImageLen ∧ c.toNat + h.toNat ≤ maxImageLen.toNat ∧ a.rewind = true) := by
  rw [checkLength]
  by_cases hlimit : maxImageLen < c ∨ maxImageLen < c + h
  · rw [if_pos hlimit]
    refine .inr ⟨rfl, fun hle => ?_⟩
    rcases hlimit with hlt | hlt
    · exact absurd hle.1 (BitVec.not_le.mpr hlt)
    · have hlt' : maxImageLen.toNat < (c + h).toNat := hlt
      rw [toNat_total hle.1 hh] at hlt'
      omega
  · rw [if_neg hlimit]
    obtain ⟨hnc, hnt⟩ := not_or.mp hlimit
    have hc : c ≤ maxImageLen := BitVec.not_lt.mp hnc
    have ht : (c + h).toNat ≤ maxImageLen.toNat := BitVec.not_lt.mp hnt
    rw [toNat_total hc hh] at ht
    cases hrewind : a.rewind with
    | true => exact .inl ⟨rfl, hc, ht, rfl⟩
    | false => exact .inr ⟨rfl, fun hle => by cases hle.2.2⟩

theorem fread_of_le {n : Nat} {error : Option Nat} (h : error = none ∧ fp.pos + n ≤ fp.file.size) :
    fp.fread n error = (some fp.pos, ⟨fp.file, fp.pos + n⟩) := by
  rw [h.1, Stream.fread, if_pos h.2]

theorem fread_of_not (fp : Stream) {n : Nat} {error : Option Nat}
    (h : ¬ (error = none ∧ fp.pos + n ≤ fp.file.size)) :
    fp.fread n error = (none, ⟨fp.file, failedRead fp.file fp.pos error⟩) := by
  cases error with
  | some left => rfl
  | none => exact if_neg fun hle => h ⟨rfl, hle⟩

theorem getTaVersion_cipherLayer (hheader : a.header = none ∧ fp.pos + 16 ≤ fp.file.size)
    (hv : versionAt fp.file fp.pos = .cipherLayer) :
    ∃ version, cipherLayerVersion ≤ version ∧
      getTaVersion a fp = (some ⟨sizeofTaHead, version, contextLenAt fp.file fp.pos,
        contextLenAt fp.file fp.pos + sizeofHdrV3⟩, ⟨fp.file, fp.pos + 16⟩) := by
  have hcontext : contextLenAt fp.file fp.pos = wordAt fp.file.bytes (fp.pos + 8) := by
    rw [contextLenAt, hv]
  have hread : fp.fread sizeofHdrV3.toNat a.header = _ := fread_of_le hheader
  rw [versionAt] at hv
  by_cases hnew : (identityAt fp.file.bytes fp.pos).isNew
  · rw [if_pos hnew] at hv
    by_cases hle : cipherLayerVersion ≤ (identityAt fp.file.bytes fp.pos).versionNum.setWidth 32
    · refine ⟨_, hle, ?_⟩
      simp only [getTaVersion, hread, hdrV3At, if_pos hnew, if_pos hle, hcontext]
      rfl
    · rw [if_neg hle] at hv
      cases hv
  · rw [if_neg hnew] at hv
    cases hv

theorem getTaVersion_earlier (hheader : a.header = none ∧ fp.pos + 16 ≤ fp.file.size)
    (hv : versionAt fp.file fp.pos ≠ .cipherLayer) :
    ∃ version, ¬ cipherLayerVersion ≤ version ∧
      getTaVersion a fp =
        if a.seek then (some ⟨(versionAt fp.file fp.pos).headLen, version, 0, 0⟩,
          ⟨fp.file, (versionAt fp.file fp.pos).headPlace⟩)
        else (none, ⟨fp.file, fp.pos + 16⟩) := by
  have hread : fp.fread sizeofHdrV3.toNat a.header = _ := fread_of_le hheader
  rw [versionAt] at hv ⊢
  by_cases hnew : (identityAt fp.file.bytes fp.pos).isNew
  · rw [if_pos hnew] at hv ⊢
    by_cases hle : cipherLayerVersion ≤ (identityAt fp.file.bytes fp.pos).versionNum.setWidth 32
    · rw [if_pos hle] at hv
      exact absurd rfl hv
    · rw [if_neg hle]
      refine ⟨_, hle, ?_⟩
      simp only [getTaVersion, hread, hdrV3At, if_pos hnew, if_neg hle, Stream.fseek]
      cases a.seek with
      | true => rfl
      | false => rfl
  · rw [if_neg hnew]
    refine ⟨0, by decide, ?_⟩
    simp only [getTaVersion, hread, hdrV3At, if_neg hnew, Stream.fseek]
    cases a.seek with
    | true => rfl
    | false => rfl

theorem contextLenAt_earlier {f : ImageFile} {p : Nat} (hv : versionAt f p ≠ .cipherLayer) :
    contextLenAt f p = (imageHeadAt f.bytes (versionAt f p).headPlace).contextLen := by
  rw [contextLenAt]
  cases h : versionAt f p with
  | cipherLayer => exact absurd h hv
  | newFormat => rfl
  | oldFormat => rfl

theorem getImageLength_earlier (hheader : a.header = none ∧ fp.pos + 16 ≤ fp.file.size)
    (hv : versionAt fp.file fp.pos ≠ .cipherLayer) {version : U32}
    (hle : ¬ cipherLayerVersion ≤ version) (hseek : a.seek = true)
    (hfound : getTaVersion a fp = (some ⟨(versionAt fp.file fp.pos).headLen, version, 0, 0⟩,
      ⟨fp.file, (versionAt fp.file fp.pos).headPlace⟩)) :
    (Sized a fp ∧ ∃ len, len.toNat = declaredLen fp.file fp.pos ∧
      getImageLength a fp = (some len, ⟨fp.file, 0⟩)) ∨
    (¬ Sized a fp ∧ getImageLength a fp = (none, ⟨fp.file, refusedAt a fp⟩)) := by
  have hh := headLen_le (versionAt fp.file fp.pos)
  have hgo : ¬ (versionAt fp.file fp.pos = .cipherLayer ∨ a.seek = false) := by
    rw [hseek]
    exact not_or.mpr ⟨hv, Bool.noConfusion⟩
  let head : Stream := ⟨fp.file, (versionAt fp.file fp.pos).headPlace⟩
  by_cases himage : a.imageHead = none ∧ head.pos + 24 ≤ head.file.size
  · have hread : Stream.fread ⟨fp.file, (versionAt fp.file fp.pos).headPlace⟩
        sizeofImageHead.toNat a.imageHead = (some head.pos, ⟨fp.file, head.pos + 24⟩) :=
      fread_of_le himage
    have hcontext : (imageHeadAt fp.file.bytes head.pos).contextLen =
        contextLenAt fp.file fp.pos := (contextLenAt_earlier hv).symm
    have hleft : refusedAt a fp = head.pos + 24 := by
      rw [refusedAt, if_pos hheader, if_neg hgo]
      exact if_pos himage
    simp only [getImageLength, hfound, if_neg hle, hread, hcontext]
    rcases checkLength_eq hh with ⟨hcheck, hc, ht, hrewind⟩ | ⟨hcheck, hnot⟩
    · exact .inl ⟨⟨hheader, fun _ => ⟨hseek, himage⟩, hc, ht, hrewind⟩, _, toNat_total hc hh,
        hcheck⟩
    · rw [hleft]
      exact .inr ⟨fun hsized => hnot ⟨hsized.context, hsized.total, hsized.rewind⟩, hcheck⟩
  · have hread : Stream.fread ⟨fp.file, (versionAt fp.file fp.pos).headPlace⟩
        sizeofImageHead.toNat a.imageHead = (none, _) := fread_of_not head himage
    have hleft : refusedAt a fp = failedRead fp.file head.pos a.imageHead := by
      rw [refusedAt, if_pos hheader, if_neg hgo]
      exact if_neg himage
    refine .inr ⟨fun hsized => himage (hsized.imageHead hv).2, ?_⟩
    rw [hleft]
    simp only [getImageLength, hfound, if_neg hle, hread]
    rfl

theorem getImageLength_cases (a : Answers) (fp : Stream) :
    (Sized a fp ∧ ∃ len, len.toNat = declaredLen fp.file fp.pos ∧
      getImageLength a fp = (some len, ⟨fp.file, 0⟩)) ∨
    (¬ Sized a fp ∧ getImageLength a fp = (none, ⟨fp.file, refusedAt a fp⟩)) := by
  by_cases hheader : a.header = none ∧ fp.pos + 16 ≤ fp.file.size
  · have hh := headLen_le (versionAt fp.file fp.pos)
    by_cases hv : versionAt fp.file fp.pos = .cipherLayer
    · obtain ⟨version, hle, hfound⟩ := getTaVersion_cipherLayer hheader hv
      simp only [getImageLength, hfound, if_pos hle]
      rw [hv] at hh
      rcases checkLength_eq hh with ⟨hcheck, hc, ht, hrewind⟩ | ⟨hcheck, hnot⟩
      · refine .inl ⟨⟨hheader, fun h => absurd hv h, hc, ?_, hrewind⟩, _, ?_, hcheck⟩
        · rw [declaredLen, hv]
          exact ht
        · rw [declaredLen, hv]
          exact toNat_total hc hh
      · have hleft : refusedAt a fp = fp.pos + 16 := by
          rw [refusedAt, if_pos hheader, if_pos (.inl hv)]
        rw [hleft]
        refine .inr ⟨fun hsized => hnot ⟨hsized.context, ?_, hsized.rewind⟩, hcheck⟩
        have ht := hsized.total
        rw [declaredLen, hv] at ht
        exact ht
    · obtain ⟨version, hle, hfound⟩ := getTaVersion_earlier hheader hv
      cases hseek : a.seek with
      | false =>
        rw [hseek, if_neg Bool.false_ne_true] at hfound
        have hleft : refusedAt a fp = fp.pos + 16 := by
          rw [refusedAt, if_pos hheader, if_pos (.inr hseek)]
        rw [hleft]
        refine .inr ⟨fun hsized => ?_, ?_⟩
        · exact Bool.false_ne_true (hseek.symm.trans (hsized.imageHead hv).1)
        · simp only [getImageLength, hfound]
      | true =>
        rw [hseek, if_pos rfl] at hfound
        exact getImageLength_earlier hheader hv hle hseek hfound
  · have hread : fp.fread sizeofHdrV3.toNat a.header = (none, _) := fread_of_not fp hheader
    have hleft : refusedAt a fp = failedRead fp.file fp.pos a.header := if_neg hheader
    refine .inr ⟨fun hsized => hheader hsized.header, ?_⟩
    rw [hleft]
    simp only [getImageLength, getTaVersion, hread]

structure Accepted (a : Answers) (fp : Stream) : Prop where
  sized : Sized a fp
  malloc : a.malloc = true
  image : a.image = none ∧ declaredLen fp.file fp.pos ≤ fp.file.size

theorem headLen_pos (v : ImageVersion) : 0 < v.headLen.toNat := by
  cases v with
  | cipherLayer => decide
  | newFormat => decide
  | oldFormat => decide

/-- `TEEC_DoReadApp` stores the length that is declared at the position of the stream and the
image from the start of the file, or changes nothing. -/
theorem doReadApp_cases (a : Answers) (cli : ClientContext) (fp : Stream) :
    (Accepted a fp ∧ ∃ len fp', len.toNat = declaredLen fp.file fp.pos ∧
      doReadApp a cli fp = (0, ⟨len, some (read fp.file.bytes 0 len.toNat)⟩, fp')) ∨
    (¬ Accepted a fp ∧ doReadApp a cli fp = (-1, cli, ⟨fp.file, leftAt a fp⟩)) := by
  rcases getImageLength_cases a fp with ⟨hsized, len, hlen, hlength⟩ | ⟨hnot, hlength⟩
  · have hlimits : ¬ (len = 0 ∨ maxImageLen < len) := by
      rintro (rfl | hlt)
      · have := headLen_pos (versionAt fp.file fp.pos)
        have hzero : 0 = declaredLen fp.file fp.pos := hlen
        rw [declaredLen] at hzero
        omega
      · have hlt' : maxImageLen.toNat < len.toNat := hlt
        have := hsized.total
        omega
    cases hmalloc : a.malloc with
    | false =>
      refine .inr ⟨fun haccepted => ?_, ?_⟩
      · exact Bool.false_ne_true (hmalloc.symm.trans haccepted.malloc)
      · simp only [doReadApp, hlength, if_neg hlimits, hmalloc, Bool.false_eq_true, if_false, leftAt,
          if_pos hsized]
    | true =>
      by_cases himage : a.image = none ∧ 0 + len.toNat ≤ fp.file.size
      · have hread : Stream.fread ⟨fp.file, 0⟩ len.toNat a.image = _ := fread_of_le himage
        have hsize : declaredLen fp.file fp.pos ≤ fp.file.size := by omega
        refine .inl ⟨⟨hsized, hmalloc, himage.1, hsize⟩, len, ⟨fp.file, 0 + len.toNat⟩, hlen, ?_⟩
        simp only [doReadApp, hlength, if_neg hlimits, hmalloc, if_true, hread]
      · have hread : Stream.fread ⟨fp.file, 0⟩ len.toNat a.image = (none, _) :=
          fread_of_not ⟨fp.file, 0⟩ himage
        refine .inr ⟨fun haccepted => himage ⟨haccepted.image.1, ?_⟩, ?_⟩
        · have := haccepted.image.2
          omega
        · simp only [doReadApp, hlength, if_neg hlimits, hmalloc, if_true, hread, leftAt,
            if_pos hsized]
  · refine .inr ⟨fun haccepted => hnot haccepted.sized, ?_⟩
    simp only [doReadApp, hlength, leftAt, if_neg hnot]

end Attempt

section GetApp

structure Loaded (f : ImageFile) (cli : ClientContext) (buffer : List (BitVec 8)) : Prop where
  size : cli.fileSize.toNat = declaredLen f 0
  limits : 0 < cli.fileSize.toNat ∧ cli.fileSize.toNat ≤ maxImageLen.toNat
  within : cli.fileSize.toNat ≤ f.size
  buffer : buffer = read f.bytes 0 cli.fileSize.toNat

/-- When a buffer is set it holds the image of the last file that was tried. -/
def Correct (st : Loading) : Prop :=
  ∀ buffer, st.cliContext.fileBuffer = some buffer →
    ∃ fp a, st.attempts.getLast? = some (fp, a) ∧ Loaded fp.file st.cliContext buffer

/-- Where an attempt succeeds by the header at its position, this is the length that the
header at the start of the file declares. -/
def SameLength (attempt : Stream × Answers) : Prop :=
  Accepted attempt.2 attempt.1 →
    declaredLen attempt.1.file attempt.1.pos = declaredLen attempt.1.file 0

structure Untried (st : Loading) : Prop where
  buffer : st.cliContext.fileBuffer = none
  refused : ∀ x ∈ st.attempts, ¬ Accepted x.2 x.1

structure Taken (st : Loading) (fp : Stream) (a : Answers) : Prop where
  accepted : Accepted a fp
  attempts : ∃ front, st.attempts = front ++ [(fp, a)] ∧ ∀ x ∈ front, ¬ Accepted x.2 x.1
  context : ∃ len, len.toNat = declaredLen fp.file fp.pos ∧
    st.cliContext = ⟨len, some (read fp.file.bytes 0 len.toNat)⟩

variable {st : Loading}

theorem Untried.correct_iff (h : Untried st) : Correct st ↔ ∀ x ∈ st.attempts, SameLength x := by
  refine iff_of_true (fun buffer hbuffer => ?_) fun x hx haccepted => absurd haccepted (h.refused x hx)
  rw [h.buffer] at hbuffer
  cases hbuffer

theorem Taken.correct_iff {fp : Stream} {a : Answers} (h : Taken st fp a) :
    Correct st ↔ ∀ x ∈ st.attempts, SameLength x := by
  obtain ⟨front, hattempts, hfront⟩ := h.attempts
  obtain ⟨len, hlen, hcontext⟩ := h.context
  have hlast : st.attempts.getLast? = some (fp, a) := by
    rw [hattempts, List.getLast?_concat]
  constructor
  · intro hcorrect x hx haccepted
    rw [hattempts] at hx
    rcases List.mem_append.mp hx with hx | hx
    · exact absurd haccepted (hfront x hx)
    · obtain rfl := List.mem_singleton.mp hx
      obtain ⟨fp', a', hlast', hloaded⟩ := hcorrect _ (by rw [hcontext])
      rw [hlast] at hlast'
      obtain ⟨rfl, rfl⟩ := Prod.mk.inj (Option.some.inj hlast')
      have hsize := hloaded.size
      rw [hcontext] at hsize
      exact hlen.symm.trans hsize
  · intro hsame buffer hbuffer
    have hdeclared := hsame (fp, a) (List.mem_of_getLast? hlast) h.accepted
    refine ⟨fp, a, hlast, ?_⟩
    rw [hcontext] at hbuffer ⊢
    obtain rfl := Option.some.inj hbuffer
    have hpos := headLen_pos (versionAt fp.file fp.pos)
    refine ⟨hlen.trans hdeclared, ⟨?_, ?_⟩, ?_, rfl⟩
    · rw [hlen, declaredLen]
      omega
    · rw [hlen]
      exact h.accepted.sized.total
    · rw [hlen]
      exact h.accepted.image.2

theorem Untried.attempt (h : Untried st) (a : Answers) (fp : Stream) (taFp : Stream → Option Stream) :
    let r := doReadApp a st.cliContext fp
    (r.1 = 0 ∧ Taken ⟨r.2.1, taFp r.2.2, st.attempts ++ [(fp, a)]⟩ fp a) ∨
      (r.1 ≠ 0 ∧ Untried ⟨r.2.1, taFp r.2.2, st.attempts ++ [(fp, a)]⟩) := by
  rcases doReadApp_cases a st.cliContext fp with
    ⟨haccepted, len, fp', hlen, hrun⟩ | ⟨hnot, hrun⟩
  · rw [hrun]
    exact .inl ⟨rfl, haccepted, ⟨st.attempts, rfl, h.refused⟩, len, hlen, rfl⟩
  · rw [hrun]
    have hne : (-1 : Int) ≠ 0 := by decide
    refine .inr ⟨hne, h.buffer, fun x hx => ?_⟩
    rcases List.mem_append.mp hx with hx | hx
    · exact h.refused x hx
    · rwa [List.mem_singleton.mp hx]

theorem Untried.readApp (h : Untried st) (fs : Path → PathAnswer) (a : Answers) (loadFile : Path)
    (defaultPath : Bool) :
    let r := readApp fs a loadFile defaultPath st
    (r.1 = 0 ∧ ∃ fp, Taken r.2 fp a) ∨ (r.1 ≠ 0 ∧ Untried r.2) := by
  simp only [AppLoad.readApp]
  cases htaFp : st.taFp with
  | some fp =>
    rcases h.attempt a fp some with ⟨hret, htaken⟩ | ⟨hret, huntried⟩
    · exact .inl ⟨hret, fp, htaken⟩
    · exact .inr ⟨hret, huntried⟩
  | none =>
    cases fs loadFile with
    | unresolved =>
      have hne : (1 : Int) ≠ 0 ∧ (-1 : Int) ≠ 0 := by decide
      refine .inr ⟨?_, h⟩
      cases defaultPath with
      | true => exact hne.1
      | false => exact hne.2
    | unopened =>
      have hne : (-1 : Int) ≠ 0 := by decide
      exact .inr ⟨hne, h⟩
    | opened file =>
      rcases h.attempt a ⟨file, 0⟩ (fun _ => none) with ⟨hret, htaken⟩ | ⟨hret, huntried⟩
      · exact .inl ⟨hret, _, htaken⟩
      · exact .inr ⟨hret, huntried⟩

theorem getApp_correct_iff_attempts (fs : Path → PathAnswer) (a₁ a₂ : Answers) (taFile : Option TaFileInfo)
    (srvUuid : Option Uuid) :
    Correct (getApp fs a₁ a₂ taFile srvUuid .zeroed).2 ↔
      ∀ x ∈ (getApp fs a₁ a₂ taFile srvUuid .zeroed).2.attempts, SameLength x := by
  have huntried (taFp : Option Stream) : Untried ⟨.zeroed, taFp, []⟩ :=
    ⟨rfl, fun x hx => absurd hx List.not_mem_nil⟩
  have hcases {st : Loading} (h : (∃ fp a, Taken st fp a) ∨ Untried st) :
      Correct st ↔ ∀ x ∈ st.attempts, SameLength x := by
    rcases h with ⟨fp, a, htaken⟩ | h
    · exact htaken.correct_iff
    · exact h.correct_iff
  apply hcases
  cases taFile with
  | none => exact .inr (huntried none)
  | some taFile =>
    cases srvUuid with
    | none => exact .inr (huntried taFile.taFp)
    | some srvUuid =>
      simp only [getApp]
      cases hpath : givenPath taFile with
      | some taPath =>
        rcases (huntried taFile.taFp).readApp fs a₁ taPath false with ⟨-, fp, h⟩ | ⟨-, h⟩
        · exact .inl ⟨fp, a₁, h⟩
        · exact .inr h
      | none =>
        rcases (huntried taFile.taFp).readApp fs a₁ (defaultName teeFeimaDefaultPath srvUuid) true
          with ⟨hret, fp, h⟩ | ⟨hret, h⟩
        · rw [if_neg (not_not.mpr hret)]
          exact .inl ⟨fp, a₁, h⟩
        · rw [if_pos hret]
          rcases h.readApp fs a₂ (defaultName teeDefaultPath srvUuid) true with ⟨-, fp, h⟩ | ⟨-, h⟩
          · exact .inl ⟨fp, a₂, h⟩
          · exact .inr h

theorem sameLength_start (f : ImageFile) (a : Answers) : SameLength (⟨f, 0⟩, a) := fun _ => rfl

/-- The stream that is handed in tells the right length where it stands, and where a refused
attempt has left it. -/
structure Guided (a₁ a₂ : Answers) (taFile : TaFileInfo) (fp : Stream) : Prop where
  first : SameLength (fp, a₁)
  second : givenPath taFile = none → ¬ Accepted a₁ fp → SameLength (⟨fp.file, leftAt a₁ fp⟩, a₂)

theorem getApp_attempts_taFp (fs : Path → PathAnswer) (a₁ a₂ : Answers) {taFile : TaFileInfo}
    {fp : Stream} (hfp : taFile.taFp = some fp) (srvUuid : Uuid) :
    (∀ x ∈ (getApp fs a₁ a₂ (some taFile) (some srvUuid) .zeroed).2.attempts, SameLength x) ↔
      Guided a₁ a₂ taFile fp := by
  simp only [getApp]
  cases hpath : givenPath taFile with
  | some taPath =>
    simp only [readApp, hfp, List.nil_append, List.mem_singleton, forall_eq]
    refine ⟨fun h => ⟨h, fun hnone => ?_⟩, fun h => h.first⟩
    rw [hpath] at hnone
    cases hnone
  | none =>
    rcases doReadApp_cases a₁ .zeroed fp with ⟨haccepted, len, fp', hlen, hrun⟩ | ⟨hnot, hrun⟩
    · simp only [readApp, hfp, hrun, List.nil_append, ne_eq, not_true, if_false,
        List.mem_singleton, forall_eq]
      exact ⟨fun h => ⟨h, fun _ hnot => absurd haccepted hnot⟩, fun h => h.first⟩
    · have hne : (-1 : Int) ≠ 0 := by decide
      simp only [readApp, hfp, hrun, List.nil_append, if_pos hne, List.cons_append,
        List.mem_cons, List.not_mem_nil, or_false, forall_eq_or_imp, forall_eq]
      exact ⟨fun h => ⟨h.1, fun _ _ => h.2⟩, fun h => ⟨h.first, h.second hpath hnot⟩⟩

theorem readApp_attempts_opened (fs : Path → PathAnswer) (a : Answers) (loadFile : Path)
    (defaultPath : Bool) {st : Loading} (htaFp : st.taFp = none)
    (h : ∀ x ∈ st.attempts, SameLength x) :
    (readApp fs a loadFile defaultPath st).2.taFp = none ∧
      ∀ x ∈ (readApp fs a loadFile defaultPath st).2.attempts, SameLength x := by
  simp only [readApp, htaFp]
  cases fs loadFile with
  | unresolved => exact ⟨htaFp, h⟩
  | unopened => exact ⟨htaFp, h⟩
  | opened file =>
    refine ⟨rfl, fun x hx => ?_⟩
    rcases List.mem_append.mp hx with hx | hx
    · exact h x hx
    · rw [List.mem_singleton.mp hx]
      exact sameLength_start file a

theorem getApp_attempts_opened (fs : Path → PathAnswer) (a₁ a₂ : Answers) {taFile : TaFileInfo}
    (htaFp : taFile.taFp = none) (srvUuid : Uuid) :
    ∀ x ∈ (getApp fs a₁ a₂ (some taFile) (some srvUuid) .zeroed).2.attempts, SameLength x := by
  have hstart : ∀ x ∈ (⟨.zeroed, taFile.taFp, []⟩ : Loading).attempts, SameLength x :=
    fun x hx => absurd hx List.not_mem_nil
  simp only [getApp]
  cases hpath : givenPath taFile with
  | some taPath => exact (readApp_attempts_opened fs a₁ taPath false htaFp hstart).2
  | none =>
    obtain ⟨htaFp', hfirst⟩ :=
      readApp_attempts_opened fs a₁ (defaultName teeFeimaDefaultPath srvUuid) true htaFp hstart
    by_cases hret : (readApp fs a₁ (defaultName teeFeimaDefaultPath srvUuid) true
        ⟨.zeroed, taFile.taFp, []⟩).1 ≠ 0
    · rw [if_pos hret]
      exact (readApp_attempts_opened fs a₂ (defaultName teeDefaultPath srvUuid) true htaFp' hfirst).2
    · rw [if_neg hret]
      exact hfirst

/-- The right image is loaded, or none, exactly when a stream that is handed in tells the right
length where the attempts find it. -/
theorem getApp_correct_iff (fs : Path → PathAnswer) (a₁ a₂ : Answers) (taFile : Option TaFileInfo)
    (srvUuid : Option Uuid) :
    Correct (getApp fs a₁ a₂ taFile srvUuid .zeroed).2 ↔
      ∀ info fp, taFile = some info → srvUuid ≠ none → info.taFp = some fp →
        Guided a₁ a₂ info fp := by
  rw [getApp_correct_iff_attempts]
  have hnone (taFp : Option Stream) : ∀ x ∈ (⟨.zeroed, taFp, []⟩ : Loading).attempts, SameLength x :=
    fun x hx => absurd hx List.not_mem_nil
  cases taFile with
  | none =>
    refine iff_of_true (hnone none) fun info fp htaFile => ?_
    cases htaFile
  | some info =>
    cases srvUuid with
    | none => exact iff_of_true (hnone info.taFp) fun _ _ _ hsome => absurd rfl hsome
    | some srvUuid =>
      have hsome : some srvUuid ≠ none := Option.some_ne_none srvUuid
      cases htaFp : info.taFp with
      | none =>
        refine iff_of_true (getApp_attempts_opened fs a₁ a₂ htaFp srvUuid) ?_
        intro info' fp hinfo _ hfp
        obtain rfl := Option.some.inj hinfo
        rw [htaFp] at hfp
        cases hfp
      | some fp =>
        rw [getApp_attempts_taFp fs a₁ a₂ htaFp srvUuid]
        constructor
        · intro h info' fp' hinfo _ hfp
          obtain rfl := Option.some.inj hinfo
          rw [htaFp] at hfp
          obtain rfl := Option.some.inj hfp
          exact h
        · intro h
          exact h info fp rfl hsome htaFp

/-- Handed in at its start: the header there declares too much, and where the refused attempt
leaves the stream stands another header. -/
def secondHeader : ImageFile where
  bytes i := (List.replicate 4 0xFF ++ List.replicate 20 0 ++
    [0x5A, 0x5A, 0xA5, 0xA5, 0xAA, 0x55, 3, 0, 8, 0, 0, 0, 0, 0, 0, 0]).getD i 0
  size := 40

def allWell : Answers := ⟨none, true, none, true, true, none⟩

theorem getApp_misled : ¬ ∀ fs a₁ a₂ taFile srvUuid,
    Correct (getApp fs a₁ a₂ taFile srvUuid .zeroed).2 := by
  intro h
  let run := (getApp (fun _ => .unresolved) allWell allWell
    (some ⟨none, some ⟨secondHeader, 0⟩⟩) (some ⟨0, 0, 0, fun _ => 0⟩) .zeroed).2
  have hcorrect : Correct run := h _ _ _ _ _
  have hsize : run.cliContext.fileSize = 24 := by decide
  have hbuffer : run.cliContext.fileBuffer.isSome := by decide
  have hattempts : run.attempts = [(⟨secondHeader, 0⟩, allWell), (⟨secondHeader, 24⟩, allWell)] := rfl
  have hdeclared : declaredLen secondHeader 0 ≠ 24 := by decide
  obtain ⟨buffer, hbuffer⟩ := Option.isSome_iff_exists.mp hbuffer
  obtain ⟨fp, a, hlast, hloaded⟩ := hcorrect buffer hbuffer
  rw [hattempts] at hlast
  obtain ⟨rfl, rfl⟩ := Prod.mk.inj (Option.some.inj hlast)
  have hloadedSize := hloaded.size
  rw [hsize] at hloadedSize
  exact hdeclared hloadedSize.symm

end GetApp

end TeeClient.Vendor.AppLoad
