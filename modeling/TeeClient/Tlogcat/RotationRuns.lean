import Mathlib.Tactic
import TeeClient.Tlogcat.Rotation

/-! Runs of `tlogcat`: whatever is written, closed and restarted, the directory shows a rotating
log of each UUID, and the table knows the indices. -/

namespace TeeClient.Tlogcat

open RotatingLogs

section Record

structure Record where
  since : List Byte
  compressions : List (List Byte)

def Record.after (u : TeeUuid) (r : Record) : Event → Record
  | .rename _ _ _ => r
  | .logged v bytes => if v = u then { r with since := r.since ++ bytes } else r
  | .compressed v => if v = u then ⟨[], r.compressions ++ [r.since]⟩ else r

def recordOf (u : TeeUuid) (trace : List Event) : Record := trace.foldl (Record.after u) ⟨[], []⟩

def recordOfLog (log : Log) : Record := ⟨log.live, log.history.map bodies⟩

theorem recordOf_append (u : TeeUuid) (trace es : List Event) :
    recordOf u (trace ++ es) = es.foldl (Record.after u) (recordOf u trace) := by
  rw [recordOf, recordOf, List.foldl_append]

theorem after_renames (u : TeeUuid) {es : List Event}
    (hes : ∀ e ∈ es, ∃ src dst, e = .rename src dst true) (r : Record) :
    es.foldl (Record.after u) r = r := by
  induction es with
  | nil => rfl
  | cons e es ih =>
    obtain ⟨src, dst, rfl⟩ := hes e List.mem_cons_self
    exact ih fun e he => hes e (List.mem_cons_of_mem _ he)

end Record

section Directories

variable {teePath : Path} {logs : TeeUuid → Log} {d d' : Directory} {u : TeeUuid}

/-- The directory shows the logs, nothing has been overwritten, and the logs are what has been
written. -/
structure Keeps (teePath : Path) (logs : TeeUuid → Log) (d : Directory) : Prop where
  shows : ∀ u, Shows teePath d.fs u (logs u)
  renames : ∀ src dst free, .rename src dst free ∈ d.trace → free = true
  record : ∀ u, recordOf u d.trace = recordOfLog (logs u)

theorem Keeps.rotates (h : Keeps teePath logs d) {s : Segment Byte}
    (hcurrent : (logs u).current = some s) (hrotates : Rotates teePath u (logs u) d d') :
    Keeps teePath (Function.update logs u (logs u).turned) d' := by
  obtain ⟨es, htrace, hes⟩ := hrotates.trace
  refine ⟨fun v => ?_, fun src dst free hmem => ?_, fun v => ?_⟩
  · by_cases hv : v = u
    · rw [hv, Function.update_self]
      exact hrotates.shows
    · rw [Function.update_of_ne hv]
      exact (h.shows v).of_same (hrotates.same v hv)
  · rw [htrace] at hmem
    rcases List.mem_append.mp hmem with hmem | hmem
    · rcases List.mem_append.mp hmem with hmem | hmem
      · exact h.renames src dst free hmem
      · obtain ⟨src', dst', heq⟩ := hes _ hmem
        injection heq
    · by_cases hfull : (logs u).full.length < 3
      · rw [if_pos hfull] at hmem
        cases hmem
      · rw [if_neg hfull] at hmem
        cases List.mem_singleton.mp hmem
  · rw [htrace, recordOf_append, recordOf_append, after_renames v hes, h.record]
    by_cases hfull : (logs u).full.length < 3
    · rw [if_pos hfull, List.foldl_nil]
      by_cases hv : v = u
      · rw [hv, Function.update_self, recordOfLog, recordOfLog,
          RotatingLog.live_turned_of_lt hcurrent hfull, (RotatingLog.turned_of_lt hcurrent hfull).1]
      · rw [Function.update_of_ne hv]
    · rw [if_neg hfull, List.foldl_cons, List.foldl_nil, Record.after]
      by_cases hv : v = u
      · rw [if_pos hv.symm, hv, Function.update_self, recordOfLog, recordOfLog,
          RotatingLog.live_turned_of_not_lt hcurrent hfull,
          RotatingLog.contents_turned hcurrent hfull]
      · rw [if_neg fun h => hv h.symm, Function.update_of_ne hv]

end Directories

section Logging

/-- What is run, in terms of logs: a log for each UUID, and what is written in front of a new
file. -/
structure Logging where
  logs : TeeUuid → LimitedLog Byte 3
  teeVersion : List Byte

namespace Logging

def set (p : Logging) (u : TeeUuid) (l : LimitedLog Byte 3) : Logging :=
  { p with logs := Function.update p.logs u l }

variable (p : Logging) {u v : TeeUuid} (l l' : LimitedLog Byte 3)

@[simp] theorem teeVersion_set : (p.set u l).teeVersion = p.teeVersion := rfl

@[simp] theorem logs_set_self : (p.set u l).logs u = l := Function.update_self _ _ _

theorem logs_set_of_ne (hv : v ≠ u) : (p.set u l).logs v = p.logs v := Function.update_of_ne hv _ _

@[simp] theorem set_set : (p.set u l).set u l' = p.set u l' := by
  rw [set, set, set, Function.update_idem]

@[simp] theorem set_logs : p.set u (p.logs u) = p := by
  rw [set, Function.update_eq_self]

def shown (u : TeeUuid) : Log := (p.logs u).log

@[simp] theorem shown_set_self : (p.set u l).shown u = l.log := by
  rw [shown, logs_set_self]

@[simp] theorem shown_set : (p.set u l).shown = Function.update p.shown u l.log := by
  funext v
  by_cases hv : v = u
  · rw [hv, shown_set_self, Function.update_self]
  · rw [shown, logs_set_of_ne p l hv, Function.update_of_ne hv, shown]

end Logging

end Logging

section Table

variable {teePath : Path} {p : Logging} {files : Fin logFilesMax → LogFile} {u : TeeUuid}

/-- An entry whose stream is on `X-0`, whose index is that of the last full file, and which has
the length that is counted. -/
structure OpenEntry (teePath : Path) (l : LimitedLog Byte 3) (e : LogFile) : Prop where
  valid : e.valid = true
  file : e.file = some (logFile teePath e.uuid 0)
  index : e.fileIndex = l.log.full.length
  counted : l.counted = some e.fileLen

theorem OpenEntry.current {l : LimitedLog Byte 3} {e : LogFile} (h : OpenEntry teePath l e) :
    ∃ s, l.log.current = some s := by
  apply Option.isSome_iff_exists.mp
  apply l.current_of_counted
  rw [h.counted]
  rfl

def NotOpen (files : Fin logFilesMax → LogFile) (u : TeeUuid) : Prop :=
  ∀ i, ¬ ((files i).valid ∧ (files i).uuid = u)

structure Table (teePath : Path) (p : Logging) (files : Fin logFilesMax → LogFile) : Prop where
  entries : ∀ i, files i = .cleared ∨ OpenEntry teePath (p.logs (files i).uuid) (files i)
  single : ∀ i j, (files i).valid → (files j).valid → (files i).uuid = (files j).uuid → i = j
  closed : ∀ u, NotOpen files u → (p.logs u).counted = none

theorem Table.open_of_valid (h : Table teePath p files) {i : Fin logFilesMax}
    (hvalid : (files i).valid) : OpenEntry teePath (p.logs (files i).uuid) (files i) := by
  rcases h.entries i with hcleared | hopen
  · rw [hcleared] at hvalid
    cases hvalid
  · exact hopen

theorem Table.cleared_of_not_valid (h : Table teePath p files) {i : Fin logFilesMax}
    (hvalid : ¬ (files i).valid) : files i = .cleared := by
  rcases h.entries i with hcleared | hopen
  · exact hcleared
  · exact absurd hopen.valid hvalid

theorem Table.cleared (h : ∀ u, (p.logs u).counted = none) : Table teePath p fun _ => .cleared :=
  ⟨fun _ => .inl rfl, fun _ _ hvalid => absurd hvalid Bool.false_ne_true, fun u _ => h u⟩

/-- An entry and the log of its UUID change together: no other entry has the UUID. -/
theorem Table.update (h : Table teePath p files) {i : Fin logFilesMax} {e : LogFile}
    {l : LimitedLog Byte 3} (hbefore : (files i).valid → (files i).uuid = u)
    (hother : ∀ j, j ≠ i → (files j).valid → (files j).uuid ≠ u)
    (hentry : e = .cleared ∧ l.counted = none ∨ OpenEntry teePath l e ∧ e.uuid = u) :
    Table teePath (p.set u l) (Function.update files i e) := by
  have huuid (hvalid : e.valid) : e.uuid = u := by
    rcases hentry with ⟨rfl, -⟩ | ⟨-, huuid⟩
    · cases hvalid
    · exact huuid
  refine ⟨fun j => ?_, fun j k hj hk heq => ?_, fun v hclosed => ?_⟩
  · by_cases hji : j = i
    · rw [hji, Function.update_self]
      rcases hentry with ⟨hcleared, -⟩ | ⟨hopen, huuid⟩
      · exact .inl hcleared
      · rw [huuid, Logging.logs_set_self]
        exact .inr hopen
    · rw [Function.update_of_ne hji]
      rcases h.entries j with hcleared | hopen
      · exact .inl hcleared
      · rw [Logging.logs_set_of_ne p l (hother j hji hopen.valid)]
        exact .inr hopen
  · by_cases hji : j = i
    · by_cases hki : k = i
      · rw [hji, hki]
      · rw [hji, Function.update_self] at hj heq
        rw [Function.update_of_ne hki] at hk heq
        exact absurd (heq.symm.trans (huuid hj)) (hother k hki hk)
    · by_cases hki : k = i
      · rw [hki, Function.update_self] at hk heq
        rw [Function.update_of_ne hji] at hj heq
        exact absurd (heq.trans (huuid hk)) (hother j hji hj)
      · rw [Function.update_of_ne hji] at hj heq
        rw [Function.update_of_ne hki] at hk heq
        exact h.single j k hj hk heq
  · by_cases hv : v = u
    · rcases hentry with ⟨-, hcounted⟩ | ⟨hopen, huuid⟩
      · rw [hv, Logging.logs_set_self, hcounted]
      · refine absurd ⟨?_, ?_⟩ (hclosed i)
        · rw [Function.update_self, hopen.valid]
        · rw [Function.update_self, huuid, hv]
    · rw [Logging.logs_set_of_ne p l hv]
      refine h.closed v fun j hj => ?_
      by_cases hji : j = i
      · rw [hji] at hj
        exact hv (hj.2.symm.trans (hbefore hj.1))
      · apply hclosed j
        rw [Function.update_of_ne hji]
        exact hj

theorem Table.other_ne (h : Table teePath p files) {i : Fin logFilesMax} (hvalid : (files i).valid)
    (j : Fin logFilesMax) (hji : j ≠ i) (hj : (files j).valid) :
    (files j).uuid ≠ (files i).uuid := fun heq => hji (h.single j i hj hvalid heq)

def openUuids (files : Fin logFilesMax → LogFile) : Finset TeeUuid :=
  (Finset.univ.filter fun i => (files i).valid).image fun i => (files i).uuid

theorem Table.room (h : Table teePath p files)
    (hroom : (insert u (openUuids files)).card ≤ logFilesMax) :
    (∃ i, (files i).valid ∧ (files i).uuid = u) ∨ ∃ i, ¬ (files i).valid := by
  by_contra hnot
  obtain ⟨hclosed, hfull⟩ := not_or.mp hnot
  have hvalid (i : Fin logFilesMax) : (files i).valid := by
    by_contra hi
    exact hfull ⟨i, hi⟩
  have hnotMem : u ∉ openUuids files := by
    intro hmem
    obtain ⟨i, hi, huuid⟩ := Finset.mem_image.mp hmem
    exact hclosed ⟨i, hvalid i, huuid⟩
  have hcard : (openUuids files).card = logFilesMax := by
    rw [openUuids, Finset.filter_true_of_mem fun i _ => hvalid i, Finset.card_image_of_injective,
      Finset.card_univ, Fintype.card_fin]
    intro i j hij
    exact h.single i j (hvalid i) (hvalid j) hij
  rw [Finset.card_insert_of_notMem hnotMem, hcard] at hroom
  omega

end Table

section Close

variable {teePath : Path} {p : Logging} {st : State} {u : TeeUuid} {versions : List (List Byte)}

structure Sound (versions : List (List Byte)) (l : LimitedLog Byte 3) : Prop where
  headed : l.log.Headed (· ∈ versions)
  filled : l.Filled logFileLimit

theorem Sound.checked {l : LimitedLog Byte 3} (h : Sound versions l) :
    Sound versions (l.checked logFileLimit) :=
  ⟨LimitedLog.headed_checked logFileLimit h.headed, h.filled.checked⟩

theorem Sound.released {l : LimitedLog Byte 3} (h : Sound versions l) :
    Sound versions (.released l.log) := ⟨h.headed, h.filled.released⟩

theorem Sound.opened {l : LimitedLog Byte 3} (h : Sound versions l) {version : List Byte}
    (hversion : version ∈ versions) : Sound versions (l.opened version) :=
  ⟨h.headed.opened hversion, h.filled.opened version⟩

theorem Sound.appended {l : LimitedLog Byte 3} (h : Sound versions l) (bytes : List Byte) :
    Sound versions (l.appended bytes) := ⟨h.headed.appended bytes, h.filled.appended bytes⟩

theorem Sound.mono {l : LimitedLog Byte 3} (h : Sound versions l) {versions' : List (List Byte)}
    (hsub : versions ⊆ versions') : Sound versions' l :=
  ⟨⟨fun s hs => hsub (h.headed.full s hs), fun s hs => hsub (h.headed.current s hs)⟩, h.filled⟩

structure Invariant (teePath : Path) (versions : List (List Byte)) (p : Logging) (st : State) :
    Prop where
  keeps : Keeps teePath p.shown st.dir
  table : Table teePath p st.files
  sound : ∀ u, Sound versions (p.logs u)
  version : p.teeVersion ∈ versions
  teeVersion : st.teeVersion = p.teeVersion

theorem Invariant.sound_set (h : Invariant teePath versions p st) {l : LimitedLog Byte 3}
    (hl : Sound versions l) (v : TeeUuid) : Sound versions ((p.set u l).logs v) := by
  by_cases hv : v = u
  · rw [hv, Logging.logs_set_self]
    exact hl
  · rw [Logging.logs_set_of_ne p l hv]
    exact h.sound v

theorem Invariant.reachedLimit (h : Invariant teePath versions p st) {i : Fin logFilesMax}
    (hvalid : (st.files i).valid) (hle : logFileLimit ≤ (st.files i).fileLen) :
    Invariant teePath versions
      (p.set (st.files i).uuid ((p.logs (st.files i).uuid).checked logFileLimit))
      ({ st with dir := fileReachedLimit teePath (st.files i) st.dir }.clear i) := by
  have hopen := h.table.open_of_valid hvalid
  obtain ⟨s, hcurrent⟩ := hopen.current
  have hrotates := fileReachedLimit_rotates rfl hopen.index (h.keeps.shows _) hcurrent
  rw [LimitedLog.checked_of_le hopen.counted hle]
  refine ⟨?_, h.table.update (fun _ => rfl) (h.table.other_ne hvalid) (.inl ⟨rfl, rfl⟩),
    h.sound_set ?_, h.version, h.teeVersion⟩
  · rw [Logging.shown_set]
    exact h.keeps.rotates hcurrent hrotates
  · have hsound := (h.sound (st.files i).uuid).checked
    rw [LimitedLog.checked_of_le hopen.counted hle] at hsound
    exact hsound

theorem Invariant.clear (h : Invariant teePath versions p st) {i : Fin logFilesMax}
    (hvalid : (st.files i).valid) :
    Invariant teePath versions (p.set (st.files i).uuid (.released (p.logs (st.files i).uuid).log))
      (st.clear i) := by
  refine ⟨?_, h.table.update (fun _ => rfl) (h.table.other_ne hvalid) (.inl ⟨rfl, rfl⟩),
    h.sound_set (h.sound _).released, h.version, h.teeVersion⟩
  have hshown := Function.update_eq_self (st.files i).uuid p.shown
  rw [Logging.shown_set]
  exact hshown.symm ▸ h.keeps

theorem Invariant.closeFile (h : Invariant teePath versions p st) {i : Fin logFilesMax}
    (hvalid : (st.files i).valid) :
    Invariant teePath versions
      (p.set (st.files i).uuid ((p.logs (st.files i).uuid).closed logFileLimit))
      (closeFile teePath st i) := by
  have hopen := h.table.open_of_valid hvalid
  have hsome : ¬ (st.files i).file.isNone := by
    rw [hopen.file]
    exact Bool.false_ne_true
  rw [Tlogcat.closeFile, if_neg hsome]
  by_cases hle : logFileLimit ≤ (st.files i).fileLen
  · have hreached := h.reachedLimit hvalid hle
    rw [LimitedLog.checked_of_le hopen.counted hle] at hreached
    rw [if_pos hle, LimitedLog.closed, LimitedLog.checked_of_le hopen.counted hle]
    exact hreached
  · rw [if_neg hle, LimitedLog.closed, LimitedLog.checked_of_lt hopen.counted hle]
    exact h.clear hvalid

theorem closeFile_of_cleared {i : Fin logFilesMax} (hcleared : st.files i = .cleared) :
    closeFile teePath st i = st := by
  have hnone : (st.files i).file.isNone := by
    rw [hcleared]
    rfl
  rw [closeFile, if_pos hnone]

end Close

section Usable

variable {teePath : Path} {p : Logging} {st st' : State} {u : TeeUuid} {versions : List (List Byte)}

theorem clear_self (st : State) (i : Fin logFilesMax) : (st.clear i).files i = .cleared :=
  Function.update_self _ _ _

def OnlyCleared (st st' : State) : Prop := ∀ j, st'.files j = st.files j ∨ st'.files j = .cleared

theorem OnlyCleared.refl (st : State) : OnlyCleared st st := fun _ => .inl rfl

theorem OnlyCleared.trans {st'' : State} (h : OnlyCleared st st') (h' : OnlyCleared st' st'') :
    OnlyCleared st st'' := by
  intro j
  rcases h' j with heq | hcleared
  · rw [heq]
    exact h j
  · exact .inr hcleared

theorem OnlyCleared.clear (st : State) (d : Directory) (i : Fin logFilesMax) :
    OnlyCleared st ({ st with dir := d }.clear i) := by
  intro j
  by_cases hj : j = i
  · rw [hj]
    exact .inr (clear_self _ i)
  · exact .inl (Function.update_of_ne hj _ _)

def Closed (u : TeeUuid) (is : List (Fin logFilesMax)) (st : State) : Prop :=
  ∀ i ∈ is, ¬ ((st.files i).valid ∧ (st.files i).uuid = u)

theorem Closed.of_cleared {is : List (Fin logFilesMax)} (h : Closed u is st)
    (hcleared : OnlyCleared st st') : Closed u is st' := by
  intro i hi hopen
  rcases hcleared i with heq | hfree
  · rw [heq] at hopen
    exact h i hi hopen
  · rw [hfree] at hopen
    cases hopen.1

/-- What `GetUsableFile` leaves behind: the entry it has found, which is not at its limit, or none
for the UUID. -/
structure Searched (teePath : Path) (versions : List (List Byte)) (u : TeeUuid)
    (is : List (Fin logFilesMax)) (p : Logging) (st : State) (found : Option (Fin logFilesMax))
    (st' : State) : Prop where
  keeps : Invariant teePath versions p st' ∨
    Invariant teePath versions (p.set u ((p.logs u).checked logFileLimit)) st'
  cleared : OnlyCleared st st'
  usable : ∀ i, found = some i →
    (st'.files i).valid ∧ (st'.files i).uuid = u ∧ ¬ logFileLimit ≤ (st'.files i).fileLen
  closed : found = none → Closed u is st'

theorem Searched.skip {is : List (Fin logFilesMax)} {i : Fin logFilesMax}
    {found : Option (Fin logFilesMax)} {st₁ : State} (hcleared : OnlyCleared st st₁)
    (hclosed : Closed u [i] st₁) (h : Searched teePath versions u is p st₁ found st') :
    Searched teePath versions u (i :: is) p st found st' := by
  refine ⟨h.keeps, hcleared.trans h.cleared, h.usable, fun hnone j hj => ?_⟩
  cases hj with
  | head => exact hclosed.of_cleared h.cleared i List.mem_cons_self
  | tail _ hj => exact h.closed hnone j hj

theorem Searched.of_checked {is : List (Fin logFilesMax)} {found : Option (Fin logFilesMax)}
    (h : Searched teePath versions u is (p.set u ((p.logs u).checked logFileLimit)) st found st') :
    Searched teePath versions u is p st found st' := by
  refine ⟨.inr ?_, h.cleared, h.usable, h.closed⟩
  rcases h.keeps with hkeeps | hkeeps
  · exact hkeeps
  · rw [Logging.logs_set_self, Logging.set_set, LimitedLog.checked_checked] at hkeeps
    exact hkeeps

theorem Invariant.searched (is : List (Fin logFilesMax)) (h : Invariant teePath versions p st) :
    Searched teePath versions u is p st (getUsableFile teePath u is st).1
      (getUsableFile teePath u is st).2 := by
  induction is generalizing p st with
  | nil =>
    refine ⟨.inl h, .refl st, fun i hi => ?_, fun _ i hi => ?_⟩
    · cases hi
    · cases hi
  | cons i is ih =>
    rw [getUsableFile]
    by_cases huuid : (st.files i).uuid = u
    · rw [if_neg (not_not.mpr huuid)]
      cases hvalid : (st.files i).valid with
      | false =>
        rw [if_pos rfl]
        refine (ih h).skip (.refl st) fun j hj hopen => ?_
        rw [List.mem_singleton.mp hj, hvalid] at hopen
        cases hopen.1
      | true =>
        have hopen := h.table.open_of_valid hvalid
        have hsome : ¬ (st.files i).file.isNone := by
          rw [hopen.file]
          exact Bool.false_ne_true
        rw [if_neg (Bool.false_ne_true ∘ Eq.symm), if_neg hsome]
        by_cases hlimit : logFileLimit ≤ (st.files i).fileLen
        · have hreached := h.reachedLimit hvalid hlimit
          rw [huuid] at hreached
          rw [logFilesChecklimit, if_pos hlimit, if_pos rfl]
          refine (ih hreached).of_checked.skip (.clear st _ i) fun j hj hopen => ?_
          rw [List.mem_singleton.mp hj, clear_self] at hopen
          cases hopen.1
        · rw [logFilesChecklimit, if_neg hlimit, if_neg Bool.false_ne_true]
          refine ⟨.inl h, .refl st, fun j hj => ?_, fun hnone => ?_⟩
          · obtain rfl := Option.some.inj hj
            exact ⟨hvalid, huuid, hlimit⟩
          · cases hnone
    · rw [if_pos huuid]
      refine (ih h).skip (.refl st) fun j hj hopen => ?_
      rw [List.mem_singleton.mp hj] at hopen
      exact huuid hopen.2

theorem Searched.invariant {found : Option (Fin logFilesMax)}
    (h : Searched teePath versions u (List.finRange logFilesMax) p st found st') :
    Invariant teePath versions (p.set u ((p.logs u).checked logFileLimit)) st' := by
  rcases h.keeps with hkeeps | hkeeps
  · have hfixed : (p.logs u).checked logFileLimit = p.logs u := by
      cases hfound : found with
      | none =>
        have hclosed := h.closed hfound
        apply LimitedLog.checked_of_none
        exact hkeeps.table.closed u fun i => hclosed i (List.mem_finRange i)
      | some i =>
        obtain ⟨hvalid, huuid, hlimit⟩ := h.usable i hfound
        have hopen := hkeeps.table.open_of_valid hvalid
        rw [huuid] at hopen
        exact LimitedLog.checked_of_lt hopen.counted hlimit
    rw [hfixed, Logging.set_logs]
    exact hkeeps
  · exact hkeeps

theorem Searched.free {found : Option (Fin logFilesMax)}
    (h : Searched teePath versions u (List.finRange logFilesMax) p st found st')
    (hnone : found = none)
    (hroom : (∃ i, (st.files i).valid ∧ (st.files i).uuid = u) ∨ ∃ i, ¬ (st.files i).valid) :
    ∃ i, ¬ (st'.files i).valid := by
  rcases hroom with ⟨i, hopen⟩ | ⟨i, hfree⟩
  · refine ⟨i, fun hvalid => ?_⟩
    rcases h.cleared i with heq | hcleared
    · rw [← heq] at hopen
      exact h.closed hnone i (List.mem_finRange i) hopen
    · rw [hcleared] at hvalid
      cases hvalid
  · refine ⟨i, fun hvalid => ?_⟩
    rcases h.cleared i with heq | hcleared
    · rw [heq] at hvalid
      exact hfree hvalid
    · rw [hcleared] at hvalid
      cases hvalid

end Usable

section Close

variable {teePath : Path} {p : Logging} {st : State} {u : TeeUuid} {versions : List (List Byte)}

theorem closeFile_onlyCleared (teePath : Path) (st : State) (i : Fin logFilesMax) :
    OnlyCleared st (closeFile teePath st i) := by
  rw [closeFile]
  by_cases hnone : (st.files i).file.isNone
  · rw [if_pos hnone]
    exact .refl st
  · rw [if_neg hnone]
    by_cases hle : logFileLimit ≤ (st.files i).fileLen
    · rw [if_pos hle]
      exact .clear st _ i
    · rw [if_neg hle]
      exact .clear st st.dir i

theorem Table.closeFile_cleared (h : Table teePath p st.files) (i : Fin logFilesMax) :
    (closeFile teePath st i).files i = .cleared := by
  by_cases hvalid : (st.files i).valid
  · have hsome : ¬ (st.files i).file.isNone := by
      rw [(h.open_of_valid hvalid).file]
      exact Bool.false_ne_true
    rw [closeFile, if_neg hsome]
    by_cases hle : logFileLimit ≤ (st.files i).fileLen
    · rw [if_pos hle]
      exact clear_self _ i
    · rw [if_neg hle]
      exact clear_self _ i
  · have hcleared := h.cleared_of_not_valid hvalid
    rw [closeFile_of_cleared hcleared, hcleared]

structure AllClosed (teePath : Path) (versions : List (List Byte)) (is : List (Fin logFilesMax))
    (p : Logging) (st : State) (p' : Logging) (st' : State) : Prop where
  keeps : Invariant teePath versions p' st'
  teeVersion : p'.teeVersion = p.teeVersion
  logs : ∀ u, p'.logs u = p.logs u ∨ p'.logs u = (p.logs u).closed logFileLimit
  onlyCleared : OnlyCleared st st'
  cleared : ∀ i ∈ is, st'.files i = .cleared

theorem AllClosed.cons {is : List (Fin logFilesMax)} {i : Fin logFilesMax} {p₁ p' : Logging}
    {st₁ st' : State} (hfirst : AllClosed teePath versions [i] p st p₁ st₁)
    (h : AllClosed teePath versions is p₁ st₁ p' st') :
    AllClosed teePath versions (i :: is) p st p' st' := by
  refine ⟨h.keeps, h.teeVersion.trans hfirst.teeVersion, fun u => ?_,
    hfirst.onlyCleared.trans h.onlyCleared, fun j hj => ?_⟩
  · rcases hfirst.logs u with hsame | hclosed
    · rw [← hsame]
      exact h.logs u
    · have hagain : ((p.logs u).closed logFileLimit).closed logFileLimit =
          (p.logs u).closed logFileLimit := LimitedLog.closed_of_none rfl
      have hlogs := h.logs u
      rw [hclosed, hagain, or_self] at hlogs
      exact .inr hlogs
  · cases hj with
    | head =>
      rcases h.onlyCleared i with heq | hcleared
      · rw [heq]
        exact hfirst.cleared i List.mem_cons_self
      · exact hcleared
    | tail _ hj => exact h.cleared j hj

theorem Invariant.closeFile_allClosed (h : Invariant teePath versions p st) (i : Fin logFilesMax) :
    ∃ p', AllClosed teePath versions [i] p st p' (Tlogcat.closeFile teePath st i) := by
  have honly := closeFile_onlyCleared teePath st i
  have hcleared : ∀ j ∈ [i], (Tlogcat.closeFile teePath st i).files j = .cleared := by
    intro j hj
    rw [List.mem_singleton.mp hj]
    exact h.table.closeFile_cleared i
  by_cases hvalid : (st.files i).valid
  · refine ⟨_, h.closeFile hvalid, rfl, fun v => ?_, honly, hcleared⟩
    by_cases hv : v = (st.files i).uuid
    · rw [hv, Logging.logs_set_self]
      exact .inr rfl
    · exact .inl (Logging.logs_set_of_ne p _ hv)
  · refine ⟨p, ?_, rfl, fun v => .inl rfl, honly, hcleared⟩
    rw [closeFile_of_cleared (h.table.cleared_of_not_valid hvalid)]
    exact h

theorem Invariant.foldl_closeFile (is : List (Fin logFilesMax))
    (h : Invariant teePath versions p st) :
    ∃ p', AllClosed teePath versions is p st p' (is.foldl (Tlogcat.closeFile teePath) st) := by
  induction is generalizing p st with
  | nil =>
    exact ⟨p, h, rfl, fun _ => .inl rfl, .refl st, fun _ hi => absurd hi List.not_mem_nil⟩
  | cons i is ih =>
    obtain ⟨p₁, hfirst⟩ := h.closeFile_allClosed i
    obtain ⟨p', hrest⟩ := ih hfirst.keeps
    exact ⟨p', hfirst.cons hrest⟩

theorem Invariant.logFilesClose (h : Invariant teePath versions p st) :
    Invariant teePath versions ⟨fun u => (p.logs u).closed logFileLimit, p.teeVersion⟩
      (logFilesClose teePath st) := by
  obtain ⟨p', hall⟩ := h.foldl_closeFile (List.finRange logFilesMax)
  have heq : p' = ⟨fun u => (p.logs u).closed logFileLimit, p.teeVersion⟩ := by
    have hlogs (u : TeeUuid) : p'.logs u = (p.logs u).closed logFileLimit := by
      rcases hall.logs u with hsame | hclosed
      · have hcounted : (p'.logs u).counted = none := by
          refine hall.keeps.table.closed u fun i hi => ?_
          rw [hall.cleared i (List.mem_finRange i)] at hi
          cases hi.1
        rw [hsame] at hcounted
        rw [hsame, LimitedLog.closed_of_none hcounted]
      · exact hclosed
    calc p'
      _ = ⟨p'.logs, p'.teeVersion⟩ := rfl
      _ = ⟨fun u => (p.logs u).closed logFileLimit, p.teeVersion⟩ := by
        rw [hall.teeVersion, funext hlogs]
  rw [← heq]
  exact hall.keeps

end Close

section Open

variable {teePath : Path} {p : Logging} {st : State} {u : TeeUuid} {d : Directory}
  {versions : List (List Byte)}

theorem getFileIndex_range {log : Log} (h : Shows teePath d.fs u log) {n : Nat}
    (hn : log.full.length ≤ n) (fileIndex : Nat) :
    getFileIndex teePath (getUuidStr u) (isTaUuid u) d (List.range (n + 1)).reverse fileIndex =
      log.full.length := by
  have haccess (i : Nat) : d.access (logFile teePath u i) ↔ (segmentAt log.full log.current i).isSome := by
    rw [Directory.access, h.live, Option.isSome_map]
  induction n generalizing fileIndex with
  | zero =>
    have hzero : log.full.length = 0 := Nat.le_zero.mp hn
    have hlist : (List.range (0 + 1)).reverse = [0] := rfl
    rw [hlist, getFileIndex, getFileIndex, hzero, ite_self]
  | succ n ih =>
    have hlist : (List.range (n + 1 + 1)).reverse = (n + 1) :: (List.range (n + 1)).reverse := by
      rw [List.range_succ, List.reverse_append, List.reverse_singleton, List.singleton_append]
    rw [hlist, getFileIndex]
    by_cases hlt : n < log.full.length
    · have hthere : d.access (logFile teePath u (n + 1)) :=
        (haccess (n + 1)).mpr ((segmentAt_isSome _ _ n).mpr hlt)
      rw [logFile, attrOf] at hthere
      rw [if_pos hthere]
      omega
    · have hthere : ¬ d.access (logFile teePath u (n + 1)) := fun hthere =>
        hlt ((segmentAt_isSome _ _ n).mp ((haccess (n + 1)).mp hthere))
      rw [logFile, attrOf] at hthere
      rw [if_neg hthere]
      exact ih (by omega) (n + 1)

theorem Keeps.shows_write {logs : TeeUuid → Log} (h : Keeps teePath logs d) {log : Log}
    {t : Segment Byte} (hhistory : log.history = (logs u).history) (hfull : log.full = (logs u).full)
    (hcurrent : log.current = some t) (v : TeeUuid) :
    Shows teePath (Function.update d.fs (logFile teePath u 0) (some (.text t))) v
      (Function.update logs u log v) := by
  by_cases hv : v = u
  · rw [hv, Function.update_self]
    exact (h.shows u).write hhistory hfull hcurrent
  · rw [Function.update_of_ne hv]
    exact (h.shows v).of_same (.write hv d.fs _)

theorem logFilesOpen_keeps {logs : TeeUuid → Log} (h : Keeps teePath logs d) (u : TeeUuid)
    (version : List Byte) :
    (logFilesOpen (logFile teePath u 0) version d).1 =
        some ((logs u).current.elim 0 Segment.size) ∧
      Keeps teePath (Function.update logs u ((logs u).opened version))
        (logFilesOpen (logFile teePath u 0) version d).2 := by
  have hfile := (h.shows u).live 0
  cases hcurrent : (logs u).current with
  | some t =>
    rw [hcurrent, segmentAt, Option.map_some] at hfile
    rw [logFilesOpen, hfile, RotatingLog.opened_of_some _ hcurrent, Function.update_eq_self]
    exact ⟨rfl, h⟩
  | none =>
    rw [hcurrent, segmentAt, Option.map_none] at hfile
    rw [logFilesOpen, hfile]
    refine ⟨rfl, h.shows_write rfl rfl (RotatingLog.current_opened_of_none _ hcurrent version),
      h.renames, fun v => ?_⟩
    rw [h.record]
    by_cases hv : v = u
    · rw [hv, Function.update_self, recordOfLog, recordOfLog, RotatingLog.live_opened,
        RotatingLog.history_opened]
    · rw [Function.update_of_ne hv]

theorem Table.logFilesAdd_eq {st : State} (h : Table teePath p st.files)
    (hfree : ∃ i, ¬ (st.files i).valid) (uuid : TeeUuid) (file : Path) (fileLen index : Nat) :
    ∃ i, ¬ (st.files i).valid ∧ logFilesAdd uuid file fileLen index st = (some i,
      { st with files := Function.update st.files i ⟨some file, uuid, fileLen, index, true⟩ }) := by
  obtain ⟨i, hi⟩ := hfree
  have hcleared := h.cleared_of_not_valid hi
  have hfound : ((List.finRange logFilesMax).find? fun i =>
      (st.files i).file.isNone && !(st.files i).valid).isSome := by
    rw [List.find?_isSome]
    refine ⟨i, List.mem_finRange i, ?_⟩
    rw [hcleared]
    rfl
  obtain ⟨j, hj⟩ := Option.isSome_iff_exists.mp hfound
  have hinvalid : ¬ (st.files j).valid := by
    have hboth := List.find?_some hj
    rw [Bool.and_eq_true, Bool.not_eq_true'] at hboth
    rw [hboth.2]
    exact Bool.false_ne_true
  exact ⟨j, hinvalid, by rw [logFilesAdd, hj]⟩

theorem Invariant.logFilesGet_of_none {st₁ : State}
    (hfound : getUsableFile teePath u (List.finRange logFilesMax) st = (none, st₁))
    (h : Invariant teePath versions p st₁) (hclosed : NotOpen st₁.files u)
    (hfree : ∃ i, ¬ (st₁.files i).valid) :
    ∃ i st', logFilesGet teePath u (isTaUuid u) st = (some i, st') ∧
      Invariant teePath versions (p.set u ((p.logs u).opened p.teeVersion)) st' ∧
      (st'.files i).valid ∧ (st'.files i).uuid = u := by
  obtain ⟨hopen, hkeeps⟩ := logFilesOpen_keeps h.keeps u st₁.teeVersion
  have hindex := getFileIndex_range (h.keeps.shows u) (p.shown u).full_le 0
  let dir := (logFilesOpen (logFile teePath u 0) st₁.teeVersion st₁.dir).2
  let e : LogFile := ⟨some (logFile teePath u 0), u, (p.shown u).current.elim 0 Segment.size,
    (p.shown u).full.length, true⟩
  have htable : Table teePath p ({ st₁ with dir := dir } : State).files := h.table
  obtain ⟨i, hinvalid, hadd⟩ := htable.logFilesAdd_eq hfree u (logFile teePath u 0)
    ((p.shown u).current.elim 0 Segment.size) (p.shown u).full.length
  have hself : Function.update st₁.files i e i = e := Function.update_self _ _ _
  have hcounted : ((p.logs u).opened p.teeVersion).counted = some e.fileLen := by
    rw [LimitedLog.opened, h.table.closed u hclosed]
    rfl
  have hentry : OpenEntry teePath ((p.logs u).opened p.teeVersion) e := ⟨rfl, rfl, rfl, hcounted⟩
  refine ⟨i, { st₁ with dir := dir, files := Function.update st₁.files i e }, ?_,
    ⟨?_, ?_, h.sound_set ((h.sound u).opened h.version), h.version, h.teeVersion⟩,
    congrArg LogFile.valid hself, congrArg LogFile.uuid hself⟩
  · rw [logFile, attrOf] at hopen hadd
    simp only [Tlogcat.logFilesGet, hfound, logFileIndexMax, hindex, hopen]
    exact hadd
  · rw [Logging.shown_set]
    rw [h.teeVersion] at hkeeps
    exact h.teeVersion ▸ hkeeps
  · exact h.table.update (fun hvalid => absurd hvalid hinvalid)
      (fun j _ hj heq => hclosed j ⟨hj, heq⟩) (.inr ⟨hentry, rfl⟩)

theorem Invariant.logFilesGet (h : Invariant teePath versions p st)
    (hroom : (∃ i, (st.files i).valid ∧ (st.files i).uuid = u) ∨ ∃ i, ¬ (st.files i).valid) :
    ∃ i st', logFilesGet teePath u (isTaUuid u) st = (some i, st') ∧
      Invariant teePath versions
        (p.set u (((p.logs u).checked logFileLimit).opened p.teeVersion)) st' ∧
      (st'.files i).valid ∧ (st'.files i).uuid = u := by
  have hsearched := h.searched (u := u) (List.finRange logFilesMax)
  cases hfound : getUsableFile teePath u (List.finRange logFilesMax) st with
  | mk found st₁ =>
    rw [hfound] at hsearched
    have hinvariant := hsearched.invariant
    cases found with
    | some i =>
      obtain ⟨hvalid, huuid, -⟩ := hsearched.usable i rfl
      have hopen := hinvariant.table.open_of_valid hvalid
      rw [huuid, Logging.logs_set_self] at hopen
      refine ⟨i, st₁, ?_, ?_, hvalid, huuid⟩
      · simp only [Tlogcat.logFilesGet, hfound]
      · rw [LimitedLog.opened_of_some hopen.counted]
        exact hinvariant
    | none =>
      have hfree := hsearched.free rfl hroom
      have hclosed : NotOpen st₁.files u := fun i => hsearched.closed rfl i (List.mem_finRange i)
      have hget := hinvariant.logFilesGet_of_none hfound hclosed hfree
      rw [Logging.set_set, Logging.logs_set_self, Logging.teeVersion_set] at hget
      exact hget

end Open

section Write

variable {teePath : Path} {p : Logging} {st : State} {u : TeeUuid} {d : Directory}
  {versions : List (List Byte)}

theorem Keeps.fwrite {logs : TeeUuid → Log} (h : Keeps teePath logs d) {s : Segment Byte}
    (hcurrent : (logs u).current = some s) (bytes : List Byte) :
    Keeps teePath (Function.update logs u ((logs u).appended bytes))
      ((d.fwrite bytes (logFile teePath u 0)).record (.logged u bytes)) := by
  have hfile := (h.shows u).live 0
  rw [hcurrent, segmentAt, Option.map_some] at hfile
  let t : Segment Byte := ⟨s.header, s.body ++ bytes⟩
  have hrun : d.fwrite bytes (logFile teePath u 0) =
      { d with fs := Function.update d.fs (logFile teePath u 0) (some (.text t)) } := by
    rw [Directory.fwrite, hfile]
  rw [hrun]
  refine ⟨h.shows_write rfl rfl (RotatingLog.current_appended _ hcurrent bytes),
    fun src dst free hmem => ?_, fun v => ?_⟩
  · rcases List.mem_append.mp hmem with hmem | hmem
    · exact h.renames src dst free hmem
    · cases List.mem_singleton.mp hmem
  · rw [Directory.record, recordOf_append, h.record, List.foldl_cons, List.foldl_nil, Record.after]
    by_cases hv : v = u
    · rw [if_pos hv.symm, hv, Function.update_self, recordOfLog, recordOfLog,
        RotatingLog.live_appended _ hcurrent, RotatingLog.history_appended]
    · rw [if_neg fun h => hv h.symm, Function.update_of_ne hv]

theorem Invariant.writePrivateLogFile (h : Invariant teePath versions p st)
    (hroom : (∃ i, (st.files i).valid ∧ (st.files i).uuid = u) ∨ ∃ i, ¬ (st.files i).valid)
    (bytes : List Byte) :
    Invariant teePath versions
      (p.set u ((p.logs u).written logFileLimit p.teeVersion bytes))
      (writePrivateLogFile teePath u bytes st) := by
  obtain ⟨i, st', hget, hinvariant, hvalid, huuid⟩ := h.logFilesGet hroom
  have hopen := hinvariant.table.open_of_valid hvalid
  have hfile := hopen.file
  rw [huuid] at hopen hfile
  obtain ⟨s, hcurrent⟩ := hopen.current
  have hrun : Tlogcat.writePrivateLogFile teePath u bytes st =
      { st' with
        dir := (st'.dir.fwrite bytes (logFile teePath u 0)).record (.logged u bytes)
        files := Function.update st'.files i
          { st'.files i with fileLen := (st'.files i).fileLen + bytes.length } } := by
    simp only [Tlogcat.writePrivateLogFile, hget, hfile]
  rw [Logging.logs_set_self] at hopen hcurrent
  have hentry : OpenEntry teePath ((p.logs u).written logFileLimit p.teeVersion bytes)
      { st'.files i with fileLen := (st'.files i).fileLen + bytes.length } := by
    have hcounted := congrArg (Option.map (· + bytes.length)) hopen.counted
    exact ⟨hopen.valid, hopen.file, hopen.index, hcounted⟩
  rw [← Logging.shown_set_self p] at hcurrent
  have hkeeps := hinvariant.keeps.fwrite hcurrent bytes
  have htable := hinvariant.table.update (fun _ => huuid)
    (fun j hji hj => huuid ▸ hinvariant.table.other_ne hvalid j hji hj) (.inr ⟨hentry, huuid⟩)
  have hsound := (hinvariant.sound u).appended bytes
  rw [Logging.logs_set_self] at hsound
  rw [Logging.set_set] at htable
  rw [hrun]
  refine ⟨?_, htable, h.sound_set hsound, h.version, hinvariant.teeVersion⟩
  rw [Logging.shown_set_self, Logging.shown_set, Function.update_idem] at hkeeps
  rw [Logging.shown_set]
  exact hkeeps

end Write

section Runs

inductive Op
  | write (uuid : TeeUuid) (bytes : List Byte)
  | close
  | restart (teeVersion : List Byte)
  deriving DecidableEq

def Op.version : Op → Option (List Byte)
  | .write _ _ => none
  | .close => none
  | .restart teeVersion => some teeVersion

def versionsOf (ops : List Op) : List (List Byte) := ops.filterMap Op.version

inductive Runs (teePath : Path) : List Op → State → Prop
  | start (teeVersion : List Byte) : Runs teePath [.restart teeVersion] (.initial teeVersion)
  | write {ops : List Op} {st : State} (uuid : TeeUuid) (bytes : List Byte) :
    Runs teePath ops st → (insert uuid (openUuids st.files)).card ≤ logFilesMax →
      Runs teePath (ops ++ [.write uuid bytes]) (writePrivateLogFile teePath uuid bytes st)
  | close {ops : List Op} {st : State} : Runs teePath ops st →
    Runs teePath (ops ++ [.close]) (logFilesClose teePath st)
  | restart {ops : List Op} {st : State} (teeVersion : List Byte) : Runs teePath ops st →
    Runs teePath (ops ++ [.restart teeVersion]) (st.restart teeVersion)

def State.after (teePath : Path) (st : State) : Op → State
  | .write uuid bytes => writePrivateLogFile teePath uuid bytes st
  | .close => logFilesClose teePath st
  | .restart teeVersion => st.restart teeVersion

def Op.uuid : Op → Option TeeUuid
  | .write uuid _ => some uuid
  | .close => none
  | .restart _ => none

def Logging.after (p : Logging) : Op → Logging
  | .write u bytes => p.set u ((p.logs u).written logFileLimit p.teeVersion bytes)
  | .close => ⟨fun u => (p.logs u).closed logFileLimit, p.teeVersion⟩
  | .restart teeVersion => ⟨fun u => .released (p.logs u).log, teeVersion⟩

def logging (ops : List Op) : Logging := ops.foldl Logging.after ⟨fun _ => .released .empty, []⟩

variable {teePath : Path} {p : Logging} {st : State} {versions : List (List Byte)}

theorem logging_concat (ops : List Op) (op : Op) :
    logging (ops ++ [op]) = (logging ops).after op := by
  rw [logging, List.foldl_append]
  rfl

theorem Invariant.mono (h : Invariant teePath versions p st) {versions' : List (List Byte)}
    (hsub : versions ⊆ versions') : Invariant teePath versions' p st :=
  ⟨h.keeps, h.table, fun u => (h.sound u).mono hsub, hsub h.version, h.teeVersion⟩

theorem Invariant.initial (teePath : Path) (teeVersion : List Byte) :
    Invariant teePath [teeVersion] ⟨fun _ => .released .empty, teeVersion⟩ (.initial teeVersion) := by
  refine ⟨⟨fun u => ⟨fun i => ?_, fun i => rfl⟩, fun src dst free h => ?_, fun u => rfl⟩,
    .cleared fun _ => rfl, fun u => ⟨⟨fun s hs => ?_, fun s hs => ?_⟩, .empty logFileLimit⟩,
    List.mem_cons_self, rfl⟩
  · cases i with
    | zero => rfl
    | succ i => rfl
  · cases h
  · cases hs
  · cases hs

theorem Invariant.restart (h : Invariant teePath versions p st) (teeVersion : List Byte) :
    Invariant teePath (versions ++ [teeVersion]) (p.after (.restart teeVersion))
      (st.restart teeVersion) := by
  have hmono := h.mono (List.subset_append_left versions [teeVersion])
  exact ⟨⟨hmono.keeps.shows, hmono.keeps.renames, hmono.keeps.record⟩, .cleared fun _ => rfl,
    fun u => (hmono.sound u).released, List.mem_append_right _ List.mem_cons_self, rfl⟩

theorem Runs.invariant {ops : List Op} (h : Runs teePath ops st) :
    Invariant teePath (versionsOf ops) (logging ops) st := by
  induction h with
  | start teeVersion => exact .initial teePath teeVersion
  | write uuid bytes _ hcard ih =>
    have hwrite := ih.writePrivateLogFile (ih.table.room hcard) bytes
    rw [logging_concat, versionsOf, List.filterMap_append]
    exact hwrite.mono (List.subset_append_left _ _)
  | close _ ih =>
    rw [logging_concat, versionsOf, List.filterMap_append]
    exact ih.logFilesClose.mono (List.subset_append_left _ _)
  | restart teeVersion _ ih =>
    rw [logging_concat, versionsOf, List.filterMap_append]
    exact ih.restart teeVersion

end Runs

section Limit

variable {teePath : Path} {st : State} {u : TeeUuid}

/-- A file that has reached the limit gives way to another one when its UUID is written again, and
is put behind the others when the files are closed. -/
theorem rotated_at_limit {ops : List Op} (h : Runs teePath ops st) {i : Fin logFilesMax}
    (hvalid : (st.files i).valid) (hlimit : logFileLimit ≤ (st.files i).fileLen) :
    (∀ bytes, (writePrivateLogFile teePath (st.files i).uuid bytes st).dir.fs
        (logFile teePath (st.files i).uuid 0) = some (.text ⟨st.teeVersion, bytes⟩)) ∧
      (logFilesClose teePath st).dir.fs (logFile teePath (st.files i).uuid 0) = none := by
  have hinvariant := h.invariant
  have hcounted := (hinvariant.table.open_of_valid hvalid).counted
  refine ⟨fun bytes => ?_, ?_⟩
  · have hwrite := hinvariant.writePrivateLogFile (.inl ⟨i, hvalid, rfl⟩) bytes
    have hcurrent := LimitedLog.current_written_of_le hcounted hlimit st.teeVersion bytes
    rw [(hwrite.keeps.shows _).live, Logging.shown_set_self, segmentAt, ← hinvariant.teeVersion,
      hcurrent, Option.map_some]
  · have hlog := LimitedLog.log_closed_of_le hcounted hlimit
    rw [(hinvariant.logFilesClose.keeps.shows _).live, Logging.shown, hlog, segmentAt,
      RotatingLog.current_turned, Option.map_none]

theorem limit_le_of_full {ops : List Op} (h : Runs teePath ops st) {i : Nat} {t : Segment Byte}
    (hfile : st.dir.fs (logFile teePath u (i + 1)) = some (.text t)) : logFileLimit ≤ t.size := by
  have hinvariant := h.invariant
  rw [(hinvariant.keeps.shows u).live] at hfile
  obtain ⟨s, hs, heq⟩ := Option.map_eq_some_iff.mp hfile
  obtain rfl := Content.text.inj heq
  exact (hinvariant.sound u).filled.full s (List.mem_of_getElem? hs)

end Limit

section Rotated

variable {teePath : Path} {d : Directory} {u : TeeUuid} {log : Log}

end Rotated

end TeeClient.Tlogcat
