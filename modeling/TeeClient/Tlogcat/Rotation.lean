import Mathlib.Tactic
import TeeClient.Tlogcat.LogFiles

/-! What a rotation does to the directory, when the files of a UUID show a rotating log: the
full segments are `X-1` and so on, the current one is `X-0`, and the newest groups that were put
away are the archives. -/

namespace TeeClient.Tlogcat

open RotatingLogs

abbrev Log := RotatingLog Byte 3

section Shows

variable (teePath : Path)

def segmentAt (full : List (Segment Byte)) (current : Option (Segment Byte)) :
    Nat → Option (Segment Byte)
  | 0 => current
  | i + 1 => full[i]?

abbrev tempFile (u : TeeUuid) (i : Nat) : Path := logFile (teeTempPath teePath) u i

def archiveOf (u : TeeUuid) (group : List (Segment Byte)) : Content :=
  .tarGz ((List.range logFileIndexMax).filterMap fun i =>
    (segmentAt group.dropLast group.getLast? i).map fun t => (baseName (tempFile teePath u i), t))

structure Shows (fs : Path → Option Content) (u : TeeUuid) (log : Log) : Prop where
  live : ∀ i, fs (logFile teePath u i) = (segmentAt log.full log.current i).map .text
  archives : ∀ i, fs (archiveFile teePath u i) =
    (log.history.rtake logFileIndexMax)[i]?.map (archiveOf teePath u)

structure Same (fs fs' : Path → Option Content) (u : TeeUuid) : Prop where
  live : ∀ i, fs' (logFile teePath u i) = fs (logFile teePath u i)
  archives : ∀ i, fs' (archiveFile teePath u i) = fs (archiveFile teePath u i)

variable {teePath}
variable {fs fs' : Path → Option Content} {u : TeeUuid} {log : Log}

theorem Shows.of_same (h : Shows teePath fs u log) (hsame : Same teePath fs fs' u) :
    Shows teePath fs' u log :=
  ⟨fun i => (hsame.live i).trans (h.live i), fun i => (hsame.archives i).trans (h.archives i)⟩

@[simp] theorem segmentAt_isSome (full : List (Segment Byte)) (current : Option (Segment Byte))
    (i : Nat) : (segmentAt full current (i + 1)).isSome ↔ i < full.length := by
  simp [segmentAt]

theorem Shows.write (h : Shows teePath fs u log) {log' : Log} {t : Segment Byte}
    (hhistory : log'.history = log.history) (hfull : log'.full = log.full)
    (hcurrent : log'.current = some t) :
    Shows teePath (Function.update fs (logFile teePath u 0) (some (.text t))) u log' := by
  refine ⟨fun i => ?_, fun i => ?_⟩
  · cases i with
    | zero => rw [Function.update_self, hcurrent, segmentAt, Option.map_some]
    | succ i =>
      have hne : logFile teePath u (i + 1) ≠ logFile teePath u 0 := by simp
      rw [Function.update_of_ne hne, h.live, hfull, segmentAt, segmentAt]
  · rw [Function.update_of_ne archiveFile_ne_logFile, hhistory]
    exact h.archives i

theorem Same.write {v : TeeUuid} (hv : v ≠ u) (fs : Path → Option Content) (c : Option Content) :
    Same teePath fs (Function.update fs (logFile teePath u 0) c) v := by
  refine ⟨fun i => ?_, fun i => ?_⟩
  · exact Function.update_of_ne (fun h => hv (logFile_inj.mp h).1) _ _
  · exact Function.update_of_ne archiveFile_ne_logFile _ _

end Shows

section Renames

variable {d d' d'' : Directory} {src dst : Path}

def OnlyRenames (d d' : Directory) : Prop :=
  ∃ es, d'.trace = d.trace ++ es ∧ ∀ e ∈ es, ∃ src dst, e = .rename src dst true

theorem OnlyRenames.of_trace (h : d'.trace = d.trace) : OnlyRenames d d' :=
  ⟨[], h.trans (List.append_nil _).symm, fun _ he => absurd he List.not_mem_nil⟩

theorem OnlyRenames.trans (h : OnlyRenames d d') (h' : OnlyRenames d' d'') : OnlyRenames d d'' := by
  obtain ⟨es, htrace, hes⟩ := h
  obtain ⟨es', htrace', hes'⟩ := h'
  refine ⟨es ++ es', ?_, fun e he => ?_⟩
  · rw [htrace', htrace, List.append_assoc]
  · rcases List.mem_append.mp he with he | he
    · exact hes e he
    · exact hes' e he

theorem OnlyRenames.rename (h : d.fs dst = none) : OnlyRenames d (d.rename src dst) := by
  refine ⟨[.rename src dst true], ?_, fun e he => ⟨src, dst, List.mem_singleton.mp he⟩⟩
  rw [Directory.rename, h]
  rfl

theorem rename_fs (h : d.fs dst = none) (p : Path) :
    (d.rename src dst).fs p = if p = dst then d.fs src else if p = src then none else d.fs p := by
  rw [Directory.rename]
  by_cases hsrc : d.access src
  · rw [if_pos hsrc]
  · rw [if_neg hsrc]
    have hnone : d.fs src = none := Option.not_isSome_iff_eq_none.mp hsrc
    by_cases hp : p = dst
    · rw [if_pos hp, hp, h, hnone]
    · rw [if_neg hp]
      by_cases hp' : p = src
      · rw [if_pos hp', hp', hnone]
      · rw [if_neg hp']

end Renames

section Moves

variable {teePath : Path} {u : TeeUuid} {d : Directory}

structure Moved (teePath : Path) (u : TeeUuid) (is : List Nat) (d d' : Directory) : Prop where
  ascii : d'.uuidAscii = getUuidStr u
  temp : ∀ i, d'.fs (tempFile teePath u i) =
    if i ∈ is then d.fs (logFile teePath u i) else d.fs (tempFile teePath u i)
  live : ∀ v i, d'.fs (logFile teePath v i) =
    if v = u ∧ i ∈ is then none else d.fs (logFile teePath v i)
  archives : ∀ v i, d'.fs (archiveFile teePath v i) = d.fs (archiveFile teePath v i)
  renames : OnlyRenames d d'

theorem move_fs (hascii : d.uuidAscii = getUuidStr u) {i : Nat}
    (hfree : d.fs (tempFile teePath u i) = none) (p : Path) :
    (moveFileToTmpPath teePath (isTaUuid u) d i).fs p =
      if p = tempFile teePath u i then d.fs (logFile teePath u i)
      else if p = logFile teePath u i then none else d.fs p := by
  simp only [moveFileToTmpPath, hascii]
  exact rename_fs hfree p

theorem moved_move (hascii : d.uuidAscii = getUuidStr u) {i : Nat}
    (hfree : d.fs (tempFile teePath u i) = none) :
    Moved teePath u [i] d (moveFileToTmpPath teePath (isTaUuid u) d i) := by
  refine ⟨hascii, fun j => ?_, fun v j => ?_, fun v j => ?_, ?_⟩
  · rw [move_fs hascii hfree]
    by_cases hj : j = i
    · simp only [hj, if_true, List.mem_singleton]
    · simp [hj]
  · rw [move_fs hascii hfree]
    simp
  · rw [move_fs hascii hfree]
    simp
  · simp only [moveFileToTmpPath, hascii]
    exact OnlyRenames.rename hfree

theorem moved_foldl {is : List Nat} (hnodup : is.Nodup) (hascii : d.uuidAscii = getUuidStr u)
    (hfree : ∀ i ∈ is, d.fs (tempFile teePath u i) = none) :
    Moved teePath u is d (is.foldl (moveFileToTmpPath teePath (isTaUuid u)) d) := by
  induction is generalizing d with
  | nil =>
    refine ⟨hascii, fun i => ?_, fun v i => ?_, fun v i => rfl, .of_trace rfl⟩
    · rw [if_neg List.not_mem_nil]
      rfl
    · rw [if_neg fun h => List.not_mem_nil h.2]
      rfl
  | cons i is ih =>
    obtain ⟨hi, hnodup⟩ := List.nodup_cons.mp hnodup
    have hfirst := moved_move hascii (hfree i List.mem_cons_self)
    have hrest := ih hnodup hfirst.ascii fun j hj => by
      have hne : j ∉ [i] := fun h => hi (List.mem_singleton.mp h ▸ hj)
      rw [hfirst.temp, if_neg hne]
      exact hfree j (List.mem_cons_of_mem i hj)
    refine ⟨hrest.ascii, fun j => ?_, fun v j => ?_, fun v j => ?_, ?_⟩
    · rw [List.foldl_cons, hrest.temp, hfirst.live, hfirst.temp]
      by_cases hj : j = i
      · simp [hj, hi]
      · simp [hj]
    · rw [List.foldl_cons, hrest.live, hfirst.live]
      by_cases hv : v = u
      · by_cases hj : j = i
        · simp [hv, hj]
        · simp [hv, hj]
      · simp [hv]
    · rw [List.foldl_cons, hrest.archives, hfirst.archives]
    · exact hfirst.renames.trans hrest.renames

end Moves

section Archives

variable {teePath : Path} {u : TeeUuid} {d d' d'' : Directory}

theorem getCompressFile_same (teePath : Path) (u : TeeUuid) (is : List Nat) (d : Directory) :
    (getCompressFile teePath u is d).2.fs = d.fs ∧
      (getCompressFile teePath u is d).2.uuidAscii = d.uuidAscii ∧
      (getCompressFile teePath u is d).2.trace = d.trace := by
  induction is generalizing d with
  | nil => exact ⟨rfl, rfl, rfl⟩
  | cons i is ih =>
    let name := logAssembleCompressFilename teePath ⟨d.uuidAscii, isTaUuid u, i⟩
    let d₁ : Directory := { d with logNameCompress := name }
    rw [getCompressFile]
    by_cases haccess : d₁.access name
    · rw [if_pos haccess]
      exact ih d₁
    · rw [if_neg haccess]
      exact ⟨rfl, rfl, rfl⟩

theorem getCompressFile_range {n k m : Nat} (hascii : d.uuidAscii = getUuidStr u)
    (hthere : ∀ i, d.access (archiveFile teePath u i) ↔ i < n) (hk : k ≤ n) (hn : n ≤ k + m) :
    if n < k + m then
      (getCompressFile teePath u (List.range' k m) d).1 = some (archiveFile teePath u n) ∧
        (getCompressFile teePath u (List.range' k m) d).2.logNameCompress = archiveFile teePath u n
    else (getCompressFile teePath u (List.range' k m) d).1 = none := by
  induction m generalizing k d with
  | zero =>
    rw [if_neg (by omega)]
    rfl
  | succ m ih =>
    let d₁ : Directory := { d with logNameCompress := archiveFile teePath u k }
    have hname : logAssembleCompressFilename teePath ⟨d.uuidAscii, isTaUuid u, k⟩ =
        archiveFile teePath u k := by rw [hascii, archiveFile, attrOf]
    have hsum : k + (m + 1) = k + 1 + m := by omega
    rw [List.range'_succ, getCompressFile, hname, hsum]
    by_cases hlt : k < n
    · have haccess : d₁.access (archiveFile teePath u k) := (hthere k).mpr hlt
      have hrest := ih (d := d₁) (k := k + 1) hascii hthere hlt (by omega)
      rw [if_pos haccess]
      exact hrest
    · have haccess : ¬ d₁.access (archiveFile teePath u k) := fun h => hlt ((hthere k).mp h)
      have hkn : n = k := by omega
      rw [if_neg haccess, if_pos (by omega), hkn]
      exact ⟨rfl, rfl⟩

structure Shifted (teePath : Path) (u : TeeUuid) (k e : Nat) (d d' : Directory) : Prop where
  ascii : d'.uuidAscii = getUuidStr u
  logName : d'.logName = archiveFile teePath u e
  logNameCompress : d'.logNameCompress = if k < e then archiveFile teePath u e else d.logNameCompress
  archives : ∀ i, d'.fs (archiveFile teePath u i) =
    if k ≤ i ∧ i < e then d.fs (archiveFile teePath u (i + 1))
    else if i = e then none else d.fs (archiveFile teePath u i)
  others : ∀ p, (∀ i, p ≠ archiveFile teePath u i) → d'.fs p = d.fs p
  renames : OnlyRenames d d'

theorem Shifted.trans {k e e' : Nat} (hk : k < e) (he : e ≤ e') (h : Shifted teePath u k e d d')
    (h' : Shifted teePath u e e' d' d'') : Shifted teePath u k e' d d'' where
  ascii := h'.ascii
  logName := h'.logName
  logNameCompress := by
    rw [h'.logNameCompress, h.logNameCompress, if_pos hk, if_pos (Nat.lt_of_lt_of_le hk he)]
    by_cases hlt : e < e'
    · rw [if_pos hlt]
    · rw [if_neg hlt, Nat.le_antisymm he (Nat.not_lt.mp hlt)]
  archives i := by
    rw [h'.archives, h.archives, h.archives]
    split_ifs <;> first | rfl | omega
  others p hp := (h'.others p hp).trans (h.others p hp)
  renames := h.renames.trans h'.renames

theorem shifted_shift {k : Nat} (hascii : d.uuidAscii = getUuidStr u)
    (hlogName : d.logName = archiveFile teePath u k)
    (hfree : d.fs (archiveFile teePath u k) = none) :
    Shifted teePath u k (k + 1) d (shiftCompressFile teePath u d (k + 1)) := by
  have hname : logAssembleCompressFilename teePath ⟨d.uuidAscii, isTaUuid u, k + 1⟩ =
      archiveFile teePath u (k + 1) := by rw [hascii, archiveFile, attrOf]
  let d₁ : Directory := { d with logNameCompress := archiveFile teePath u (k + 1) }
  have hfree₁ : d₁.fs (archiveFile teePath u k) = none := hfree
  have hshift : shiftCompressFile teePath u d (k + 1) =
      { d₁.rename (archiveFile teePath u (k + 1)) (archiveFile teePath u k) with
        logName := archiveFile teePath u (k + 1) } := by
    simp only [shiftCompressFile, hname, hlogName, d₁]
    rfl
  rw [hshift]
  refine ⟨hascii, rfl, (if_pos (Nat.lt_succ_self k)).symm, fun i => ?_, fun p hp => ?_, ?_⟩
  · rw [rename_fs hfree₁]
    by_cases hi : i = k
    · simp [hi, d₁]
    · have hnot : ¬ (k ≤ i ∧ i < k + 1) := by omega
      rw [if_neg hnot]
      simp [hi, d₁]
  · rw [rename_fs hfree₁, if_neg (hp k), if_neg (hp (k + 1))]
  · exact OnlyRenames.rename hfree₁

theorem shifted_foldl {k m : Nat} (hascii : d.uuidAscii = getUuidStr u)
    (hlogName : d.logName = archiveFile teePath u k)
    (hfree : d.fs (archiveFile teePath u k) = none) :
    Shifted teePath u k (k + m) d ((List.range' (k + 1) m).foldl (shiftCompressFile teePath u) d) := by
  induction m generalizing k d with
  | zero =>
    refine ⟨hascii, hlogName, (if_neg (Nat.lt_irrefl k)).symm, fun i => ?_, fun _ _ => rfl,
      .of_trace rfl⟩
    rw [if_neg (by omega)]
    by_cases hi : i = k + 0
    · rw [if_pos hi, hi]
      exact hfree
    · rw [if_neg hi]
      rfl
  | succ m ih =>
    have hfirst := shifted_shift hascii hlogName hfree
    have hnext : (shiftCompressFile teePath u d (k + 1)).fs (archiveFile teePath u (k + 1)) = none := by
      rw [hfirst.archives, if_neg (by omega), if_pos rfl]
    have hrest := ih hfirst.ascii hfirst.logName hnext
    have hsum : k + (m + 1) = k + 1 + m := by omega
    rw [List.range'_succ, List.foldl_cons, hsum]
    exact hfirst.trans (by omega) (by omega) hrest

def kept (archives : List (List (Segment Byte))) : List (List (Segment Byte)) :=
  if archives.length ≤ 3 then archives else archives.tail

structure Placed (teePath : Path) (u : TeeUuid) (archives : List (List (Segment Byte)))
    (d d' : Directory) : Prop where
  logNameCompress : d'.logNameCompress = archiveFile teePath u archives.length
  archives : ∀ i, d'.fs (archiveFile teePath u i) = archives[i]?.map (archiveOf teePath u)
  others : ∀ p, (∀ i, p ≠ archiveFile teePath u i) → d'.fs p = d.fs p
  renames : OnlyRenames d d'

theorem placed_found {archives : List (List (Segment Byte))} (hlength : archives.length ≤ 3)
    (hascii : d.uuidAscii = getUuidStr u)
    (harchives : ∀ i, d.fs (archiveFile teePath u i) = archives[i]?.map (archiveOf teePath u))
    (hthere : ∀ i, d.access (archiveFile teePath u i) ↔ i < archives.length) :
    let found := getCompressFile teePath u (List.range logFileIndexMax) d
    found.1 = some (archiveFile teePath u archives.length) ∧
      Placed teePath u archives d found.2 := by
  have hfound := getCompressFile_range (k := 0) (m := 4) hascii hthere (Nat.zero_le _) (by omega)
  rw [if_pos (by omega), ← List.range_eq_range'] at hfound
  obtain ⟨hsome, hname⟩ := hfound
  obtain ⟨hfs, -, htrace⟩ := getCompressFile_same teePath u (List.range 4) d
  refine ⟨hsome, hname, fun i => ?_, fun p _ => ?_, .of_trace htrace⟩
  · exact (congrFun hfs _).trans (harchives i)
  · exact congrFun hfs p

theorem placed_arrange {archives : List (List (Segment Byte))} (hlength : archives.length = 4)
    (hascii : d.uuidAscii = getUuidStr u)
    (harchives : ∀ i, d.fs (archiveFile teePath u i) = archives[i]?.map (archiveOf teePath u)) :
    Placed teePath u archives.tail d (arrangeCompressFile teePath u d) := by
  have hname : logAssembleCompressFilename teePath ⟨d.uuidAscii, isTaUuid u, 0⟩ =
      archiveFile teePath u 0 := by rw [hascii, archiveFile, attrOf]
  let d₁ : Directory := { d with logName := archiveFile teePath u 0 }
  let d₂ : Directory := d₁.unlink (archiveFile teePath u 0)
  have hfree : d₂.fs (archiveFile teePath u 0) = none := Function.update_self _ _ _
  have harrange : arrangeCompressFile teePath u d =
      (List.range' 1 3).foldl (shiftCompressFile teePath u) d₂ := by
    simp only [arrangeCompressFile, hname]
    rfl
  have hshifted : Shifted teePath u 0 3 d₂ (arrangeCompressFile teePath u d) := by
    rw [harrange]
    exact shifted_foldl (d := d₂) (k := 0) (m := 3) hascii rfl hfree
  have htail : archives.tail.length = 3 := by rw [List.length_tail, hlength]
  refine ⟨?_, fun i => ?_, fun p hp => ?_, ?_⟩
  · rw [hshifted.logNameCompress, if_pos (by omega), htail]
  · rw [hshifted.archives, List.getElem?_tail]
    by_cases hi : i < 3
    · have hne : archiveFile teePath u (i + 1) ≠ archiveFile teePath u 0 := by simp
      rw [if_pos ⟨Nat.zero_le i, hi⟩, ← harchives]
      exact Function.update_of_ne hne _ _
    · have hnone : archives[i + 1]? = none := List.getElem?_eq_none (by omega)
      rw [if_neg fun h => hi h.2, hnone]
      by_cases hi' : i = 3
      · rw [if_pos hi', Option.map_none]
      · have hne : archiveFile teePath u i ≠ archiveFile teePath u 0 := by
          simp only [ne_eq, archiveFile_inj, true_and]
          omega
        have hnone' : archives[i]? = none := List.getElem?_eq_none (by omega)
        have hsame : d₂.fs (archiveFile teePath u i) = d.fs (archiveFile teePath u i) :=
          Function.update_of_ne hne _ _
        rw [if_neg hi', hsame, harchives, hnone', Option.map_none]
  · rw [hshifted.others p hp]
    exact Function.update_of_ne (hp 0) _ _
  · exact (OnlyRenames.of_trace rfl).trans hshifted.renames

theorem placed {archives : List (List (Segment Byte))} (hlength : archives.length ≤ 4)
    (hascii : d.uuidAscii = getUuidStr u)
    (harchives : ∀ i, d.fs (archiveFile teePath u i) = archives[i]?.map (archiveOf teePath u)) :
    let found := getCompressFile teePath u (List.range logFileIndexMax) d
    Placed teePath u (kept archives) d
      (if found.1.isNone then arrangeCompressFile teePath u found.2 else found.2) := by
  have hthere (i : Nat) : d.access (archiveFile teePath u i) ↔ i < archives.length := by
    rw [Directory.access, harchives, Option.isSome_map]
    simp
  by_cases h : archives.length ≤ 3
  · obtain ⟨hsome, hplaced⟩ := placed_found h hascii harchives hthere
    simp only [kept, if_pos h, hsome, Option.isNone_some, Bool.false_eq_true, if_false]
    exact hplaced
  · have hfour : archives.length = 4 := by omega
    have hnone := getCompressFile_range (k := 0) (m := 4) hascii hthere (Nat.zero_le _) hlength
    rw [if_neg (by omega), ← List.range_eq_range'] at hnone
    obtain ⟨hfs, hascii', htrace⟩ := getCompressFile_same teePath u (List.range 4) d
    have hplaced := placed_arrange hfour (hascii'.trans hascii) fun i =>
      (congrFun hfs _).trans (harchives i)
    simp only [kept, if_neg h, logFileIndexMax, hnone, Option.isNone_none, if_true]
    exact ⟨hplaced.logNameCompress, hplaced.archives, fun p hp =>
      (hplaced.others p hp).trans (congrFun hfs p), (OnlyRenames.of_trace htrace).trans hplaced.renames⟩

end Archives

section Compress

variable {teePath : Path} {u : TeeUuid} {d : Directory} {log : Log} {s : Segment Byte}

theorem foldl_unlink (names : List Path) (d : Directory) :
    (∀ p, (names.foldl Directory.unlink d).fs p = if p ∈ names then none else d.fs p) ∧
      (names.foldl Directory.unlink d).trace = d.trace := by
  induction names generalizing d with
  | nil => exact ⟨fun _ => (if_neg List.not_mem_nil).symm, rfl⟩
  | cons name names ih =>
    obtain ⟨hfs, htrace⟩ := ih (d.unlink name)
    refine ⟨fun p => ?_, htrace⟩
    rw [List.foldl_cons, hfs]
    by_cases hp : p = name
    · simp [hp, Directory.unlink]
    · simp [hp, Directory.unlink]

theorem triggerCompress_fs (teePath : Path) (huuid : d.compressUuid = u) :
    (∀ v i, (triggerCompress teePath d).fs (logFile teePath v i) =
      if logFile teePath v i = d.compressFile then
        some (.tarGz ((List.range logFileIndexMax).filterMap
          fun i => writeSingleFile d (tempFile teePath u i)))
      else d.fs (logFile teePath v i)) ∧
    (∀ v i, (triggerCompress teePath d).fs (archiveFile teePath v i) =
      if archiveFile teePath v i = d.compressFile then
        some (.tarGz ((List.range logFileIndexMax).filterMap
          fun i => writeSingleFile d (tempFile teePath u i)))
      else d.fs (archiveFile teePath v i)) ∧
    (triggerCompress teePath d).trace = d.trace := by
  let names := (List.range logFileIndexMax).map (tempFile teePath u)
  have htrigger : triggerCompress teePath d =
      names.foldl Directory.unlink (tarZipFiles names d.compressFile d) := by
    rw [triggerCompress, huuid]
    rfl
  have hmembers : names.filterMap (writeSingleFile d) = (List.range logFileIndexMax).filterMap
      fun i => writeSingleFile d (tempFile teePath u i) := List.filterMap_map
  obtain ⟨hfs, htrace⟩ := foldl_unlink names (tarZipFiles names d.compressFile d)
  have hlive (v : TeeUuid) (i : Nat) : logFile teePath v i ∉ names := by simp [names, tempFile]
  have harchive (v : TeeUuid) (i : Nat) : archiveFile teePath v i ∉ names := by
    simp [names, tempFile]
  rw [htrigger]
  refine ⟨fun v i => ?_, fun v i => ?_, htrace⟩
  · rw [hfs, if_neg (hlive v i), ← hmembers]
    exact Function.update_apply _ _ _ _
  · rw [hfs, if_neg (harchive v i), ← hmembers]
    exact Function.update_apply _ _ _ _

/-- What a rotation does: the log of `u` is turned, that of nobody else changes, and nothing is
overwritten. -/
structure Rotates (teePath : Path) (u : TeeUuid) (log : Log) (d d' : Directory) : Prop where
  shows : Shows teePath d'.fs u log.turned
  same : ∀ v, v ≠ u → Same teePath d.fs d'.fs v
  trace : ∃ es, d'.trace = d.trace ++ es ++
      (if log.full.length < 3 then [] else [.compressed u]) ∧
    ∀ e ∈ es, ∃ src dst, e = .rename src dst true

theorem kept_concat (history : List (List (Segment Byte))) (group : List (Segment Byte)) :
    (history ++ [group]).rtake logFileIndexMax =
      kept (history.rtake logFileIndexMax) ++ [group] := rtake_concat history group 3

/-- Where `LogFilesCompress` stands in front of `TriggerCompress`: the files are in the temporary
directory, and the archives that stay leave a name for the next one. -/
structure Gathered (teePath : Path) (u : TeeUuid) (log : Log) (d d' : Directory) : Prop where
  compressUuid : d'.compressUuid = u
  compressFile : d'.compressFile =
    archiveFile teePath u (kept (log.history.rtake logFileIndexMax)).length
  temp : ∀ i < logFileIndexMax, d'.fs (tempFile teePath u i) = d.fs (logFile teePath u i)
  live : ∀ v i, d'.fs (logFile teePath v i) =
    if v = u ∧ i < logFileIndexMax then none else d.fs (logFile teePath v i)
  archives : ∀ i, d'.fs (archiveFile teePath u i) =
    (kept (log.history.rtake logFileIndexMax))[i]?.map (archiveOf teePath u)
  others : ∀ v, v ≠ u → ∀ i, d'.fs (archiveFile teePath v i) = d.fs (archiveFile teePath v i)
  renames : OnlyRenames d d'

theorem logFilesCompress_gathered (hshows : Shows teePath d.fs u log) :
    ∃ d', Gathered teePath u log d d' ∧
      logFilesCompress teePath u d = (triggerCompress teePath d').record (.compressed u) := by
  let d₁ : Directory := { mkdirTmpPath (teeTempPath teePath) d with uuidAscii := getUuidStr u }
  have hempty (i : Nat) : d₁.fs (tempFile teePath u i) = none := if_pos prefix_tempFile
  have hlive (v : TeeUuid) (i : Nat) : d₁.fs (logFile teePath v i) = d.fs (logFile teePath v i) :=
    if_neg not_prefix_logFile
  have harchives (v : TeeUuid) (i : Nat) :
      d₁.fs (archiveFile teePath v i) = d.fs (archiveFile teePath v i) := if_neg not_prefix_archiveFile
  let is := (List.range logFileIndexMax).reverse
  have hmem (i : Nat) : i ∈ is ↔ i < logFileIndexMax := by
    rw [List.mem_reverse, List.mem_range]
  let d₂ := is.foldl (moveFileToTmpPath teePath (isTaUuid u)) d₁
  have hmoved : Moved teePath u is d₁ d₂ := moved_foldl (by decide) rfl fun i _ => hempty i
  let found := getCompressFile teePath u (List.range logFileIndexMax) d₂
  let d₃ := if found.1.isNone then arrangeCompressFile teePath u found.2 else found.2
  have hplaced : Placed teePath u (kept (log.history.rtake logFileIndexMax)) d₂ d₃ := by
    apply placed (length_rtake_le _ _) hmoved.ascii
    intro i
    rw [hmoved.archives, harchives]
    exact hshows.archives i
  refine ⟨{ d₃ with compressFile := d₃.logNameCompress, compressUuid := u }, ?_, rfl⟩
  refine ⟨rfl, hplaced.logNameCompress, fun i hi => ?_, fun v i => ?_, hplaced.archives,
    fun v hv i => ?_, ?_⟩
  · have hother := hplaced.others (tempFile teePath u i) fun j => tempFile_ne_archiveFile
    rw [hmoved.temp, if_pos ((hmem i).mpr hi), hlive] at hother
    exact hother
  · have hother := hplaced.others (logFile teePath v i) fun j => logFile_ne_archiveFile
    rw [hmoved.live, hlive] at hother
    simp only [hmem] at hother
    exact hother
  · have hother := hplaced.others (archiveFile teePath v i) fun j h => hv (archiveFile_inj.mp h).1
    rw [hmoved.archives, harchives] at hother
    exact hother
  · exact (OnlyRenames.of_trace rfl).trans (hmoved.renames.trans hplaced.renames)

theorem Gathered.members {d' : Directory} (h : Gathered teePath u log d d')
    (hshows : Shows teePath d.fs u log) (hcurrent : log.current = some s) :
    .tarGz ((List.range logFileIndexMax).filterMap
      fun i => writeSingleFile d' (tempFile teePath u i)) =
      archiveOf teePath u (log.full ++ [s]) := by
  rw [archiveOf, List.dropLast_concat, List.getLast?_concat, ← hcurrent]
  congr 1
  apply List.filterMap_congr
  intro i hi
  rw [writeSingleFile, h.temp i (List.mem_range.mp hi), hshows.live]
  cases segmentAt log.full log.current i with
  | none => rfl
  | some t => rfl

theorem logFilesCompress_rotates (hshows : Shows teePath d.fs u log)
    (hcurrent : log.current = some s) (hfull : ¬ log.full.length < 3) :
    Rotates teePath u log d (logFilesCompress teePath u d) := by
  have hlength : log.full.length = 3 := by
    have := log.full_le
    omega
  obtain ⟨d', hgathered, hrun⟩ := logFilesCompress_gathered hshows
  obtain ⟨hlive, harchives, htrace⟩ := triggerCompress_fs teePath hgathered.compressUuid
  obtain ⟨hhistory, hnil, hnone⟩ := log.turned_of_not_lt hcurrent hfull
  rw [hgathered.members hshows hcurrent] at hlive harchives
  rw [hgathered.compressFile] at hlive harchives
  rw [hrun]
  refine ⟨⟨fun i => ?_, fun i => ?_⟩, fun v hv => ⟨fun i => ?_, fun i => ?_⟩, ?_⟩
  · have hfile := hlive u i
    rw [if_neg logFile_ne_archiveFile, hgathered.live] at hfile
    rw [hnil, hnone]
    refine hfile.trans ?_
    cases i with
    | zero => exact if_pos ⟨rfl, by decide⟩
    | succ i =>
      by_cases hi : i + 1 < logFileIndexMax
      · exact if_pos ⟨rfl, hi⟩
      · have hempty : log.full[i]? = none := by
          apply List.getElem?_eq_none
          rw [logFileIndexMax] at hi
          omega
        rw [if_neg fun h => hi h.2, hshows.live, segmentAt, hempty]
        rfl
  · have hfile := harchives u i
    rw [hgathered.archives] at hfile
    refine hfile.trans ?_
    rw [hhistory, kept_concat, List.getElem?_append]
    by_cases hi : i < (kept (log.history.rtake logFileIndexMax)).length
    · have hne : archiveFile teePath u i ≠
          archiveFile teePath u (kept (log.history.rtake logFileIndexMax)).length := by
        simp only [ne_eq, archiveFile_inj, true_and]
        omega
      rw [if_neg hne, if_pos hi]
    · rw [if_neg hi]
      by_cases heq : i = (kept (log.history.rtake logFileIndexMax)).length
      · rw [heq, if_pos rfl, Nat.sub_self]
        rfl
      · have hne : archiveFile teePath u i ≠
            archiveFile teePath u (kept (log.history.rtake logFileIndexMax)).length := by
          simp only [ne_eq, archiveFile_inj, true_and]
          exact heq
        have hempty : (kept (log.history.rtake logFileIndexMax))[i]? = none :=
          List.getElem?_eq_none (Nat.not_lt.mp hi)
        have hempty' : [log.full ++ [s]][i - (kept (log.history.rtake logFileIndexMax)).length]? =
            none := by
          apply List.getElem?_eq_none
          rw [List.length_singleton]
          omega
        rw [if_neg hne, hempty, hempty']
  · have hfile := hlive v i
    rw [if_neg logFile_ne_archiveFile, hgathered.live, if_neg fun h => hv h.1] at hfile
    exact hfile
  · have hfile := harchives v i
    rw [if_neg fun h => hv (archiveFile_inj.mp h).1, hgathered.others v hv] at hfile
    exact hfile
  · obtain ⟨es, hes, hfree⟩ := hgathered.renames
    refine ⟨es, ?_, hfree⟩
    rw [if_neg hfull, Directory.record, htrace, hes]

end Compress

section Full

variable {teePath : Path} {u : TeeUuid} {d : Directory} {log : Log} {s : Segment Byte}

theorem segmentAt_concat (full : List (Segment Byte)) (s : Segment Byte) (i : Nat) :
    segmentAt (full ++ [s]) none i =
      if i = full.length + 1 then some s else if i = 0 then none else segmentAt full (some s) i := by
  cases i with
  | zero => rw [if_neg (by omega), if_pos rfl, segmentAt]
  | succ i =>
    rw [segmentAt, segmentAt, if_neg (Nat.succ_ne_zero i), List.getElem?_append]
    by_cases hi : i < full.length
    · rw [if_pos hi, if_neg (by omega)]
    · rw [if_neg hi]
      by_cases heq : i = full.length
      · rw [heq, if_pos rfl, Nat.sub_self]
        rfl
      · have hempty : full[i]? = none := List.getElem?_eq_none (Nat.not_lt.mp hi)
        have hempty' : [s][i - full.length]? = none := by
          apply List.getElem?_eq_none
          rw [List.length_singleton]
          omega
        rw [if_neg (by omega), hempty, hempty']

theorem logFileFull_rotates {e : LogFile} (huuid : e.uuid = u)
    (hindex : e.fileIndex = log.full.length) (hshows : Shows teePath d.fs u log)
    (hcurrent : log.current = some s) (hfull : log.full.length < 3) :
    Rotates teePath u log d (logFileFull teePath e d) := by
  have hrun : logFileFull teePath e d =
      d.rename (logFile teePath u 0) (logFile teePath u (log.full.length + 1)) := by
    have hnot : ¬ logFileIndexMax ≤ e.fileIndex := by
      rw [hindex, logFileIndexMax]
      omega
    rw [logFileFull, if_neg hnot, huuid, hindex]
    rfl
  have hfree : d.fs (logFile teePath u (log.full.length + 1)) = none := by
    rw [hshows.live, segmentAt, List.getElem?_eq_none (Nat.le_refl _), Option.map_none]
  obtain ⟨hhistory, hfull', hnone⟩ := log.turned_of_lt hcurrent hfull
  have hfs : ∀ p, (d.rename (logFile teePath u 0) (logFile teePath u (log.full.length + 1))).fs p = _ :=
    rename_fs hfree
  rw [hrun]
  refine ⟨⟨fun i => ?_, fun i => ?_⟩, fun v hv => ⟨fun i => ?_, fun i => ?_⟩, ?_⟩
  · rw [hfs, hfull', hnone, segmentAt_concat, ← hcurrent]
    simp only [logFile_inj, true_and]
    by_cases hi : i = log.full.length + 1
    · rw [if_pos hi, if_pos hi, hshows.live, segmentAt]
    · rw [if_neg hi, if_neg hi]
      by_cases hi' : i = 0
      · rw [if_pos hi', if_pos hi', Option.map_none]
      · rw [if_neg hi', if_neg hi', hshows.live]
  · rw [hfs, if_neg archiveFile_ne_logFile, if_neg archiveFile_ne_logFile, hhistory]
    exact hshows.archives i
  · rw [hfs, if_neg fun h => hv (logFile_inj.mp h).1, if_neg fun h => hv (logFile_inj.mp h).1]
  · rw [hfs, if_neg archiveFile_ne_logFile, if_neg archiveFile_ne_logFile]
  · have hrenames : OnlyRenames d (d.rename (logFile teePath u 0) _) := .rename hfree
    obtain ⟨es, hes, hfreeEs⟩ := hrenames
    refine ⟨es, ?_, hfreeEs⟩
    rw [if_pos hfull, hes, List.append_nil]

theorem fileReachedLimit_rotates {e : LogFile} (huuid : e.uuid = u)
    (hindex : e.fileIndex = log.full.length) (hshows : Shows teePath d.fs u log)
    (hcurrent : log.current = some s) :
    Rotates teePath u log d (fileReachedLimit teePath e d) := by
  rw [fileReachedLimit, hindex]
  by_cases hfull : log.full.length < 3
  · have hnot : ¬ logFileIndexMax - 1 ≤ log.full.length := by
      rw [logFileIndexMax]
      omega
    rw [if_neg hnot]
    exact logFileFull_rotates huuid hindex hshows hcurrent hfull
  · have hle : logFileIndexMax - 1 ≤ log.full.length := by
      rw [logFileIndexMax]
      omega
    rw [if_pos hle, huuid]
    exact logFilesCompress_rotates hshows hcurrent hfull

end Full

end TeeClient.Tlogcat
