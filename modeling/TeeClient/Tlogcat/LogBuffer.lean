import Mathlib.Tactic
import TeeClient.Lib.Memory

/-! The records that `tlogcat` takes from a buffer of the log device (`LogItemGetNext`,
`OutputLog` and `ReadLogBuffer` in `tlogcat.c`).  Addresses count from the start of
`g_logBuffer`. -/

namespace TeeClient.Tlogcat

open ByteMemory

def logItemMagic : BitVec 16 := 0x5A5A
def logItemLenAlign : Nat := 64
def logItemMaxLen : Nat := 1024

/-- `sizeof(struct LogItem)` -/
def sizeofLogItem : Nat := 64

section Source

def halfAt (m : Mem) (a : Nat) : BitVec 16 := m (a + 1) ++ m a

def magic (m : Mem) (item : Nat) : BitVec 16 := halfAt m (item + 32)

def logRealLen (m : Mem) (item : Nat) : Nat := (halfAt m (item + 40)).toNat

def logBufferLen (m : Mem) (item : Nat) : Nat := (halfAt m (item + 42)).toNat

def logItemGetNext (m : Mem) (item scopeLen : Nat) : Bool :=
  let itemMaxSize := if logItemMaxLen < scopeLen then logItemMaxLen else scopeLen
  magic m item = logItemMagic ∧
    0 < logBufferLen m item ∧ 0 < logRealLen m item ∧
    logBufferLen m item % logItemLenAlign = 0 ∧
    logRealLen m item ≤ logBufferLen m item ∧
    logBufferLen m item - logRealLen m item < logItemLenAlign ∧
    logBufferLen m item + sizeofLogItem ≤ itemMaxSize

/-- The fields that `LogItemGetNext` reads, whatever it says of the header: the conditions
stop at the first that fails, but the debug output of a refused header has all three. -/
def fieldsRead (m : Mem) (item : Nat) : List (BitVec 16) :=
  [magic m item, halfAt m (item + 42), halfAt m (item + 40)]

def terminator (m : Mem) (item : Nat) : Nat :=
  if logRealLen m item < logBufferLen m item then item + sizeofLogItem + logRealLen m item
  else item + sizeofLogItem + (logRealLen m item - 1)

def outputLog (writeFile : Bool) (m : Mem) (item : Nat) : Mem :=
  if writeFile then m else write m (terminator m item) [0]

/-- A record as `OutputLog` gets it, and where a zero is stored for it. -/
structure LogRecord where
  item : Nat
  bytes : List (BitVec 8)
  stored : Option Nat
  deriving DecidableEq

def logRecord (writeFile : Bool) (m : Mem) (item : Nat) : LogRecord where
  item
  bytes := read m item (sizeofLogItem + logBufferLen m item)
  stored := if writeFile then none else some (terminator m item)

/-- What is done with a buffer: the records that are processed, the fields that are read to
find them, and the memory afterwards. -/
structure Pass where
  records : List LogRecord
  fields : List (BitVec 16)
  memory : Mem

def readLogItems (writeFile : Bool) (readLen : Nat) (m : Mem) (item logItemTotalLen : Nat) : Pass :=
  if logItemGetNext m item (readLen - logItemTotalLen) then
    let out := outputLog writeFile m item
    let total := logItemTotalLen + (logBufferLen out item + sizeofLogItem)
    if readLen ≤ total then ⟨[logRecord writeFile m item], fieldsRead m item, out⟩
    else
      let rest := readLogItems writeFile readLen out
        (item + sizeofLogItem + logBufferLen out item) total
      ⟨logRecord writeFile m item :: rest.records, fieldsRead m item ++ rest.fields, rest.memory⟩
  else ⟨[], fieldsRead m item, m⟩
termination_by readLen - logItemTotalLen
decreasing_by
  simp only [sizeofLogItem] at *
  omega

def readLogBuffer (writeFile : Bool) (m : Mem) (readLen : Nat) : Pass :=
  readLogItems writeFile readLen m 0 0

end Source

section Specification

structure WellFormed (m : Mem) (item remaining : Nat) : Prop where
  magic : magic m item = logItemMagic
  bufferLen_pos : 0 < logBufferLen m item
  realLen_pos : 0 < logRealLen m item
  aligned : logItemLenAlign ∣ logBufferLen m item
  realLen_le : logRealLen m item ≤ logBufferLen m item
  padding : logBufferLen m item < logRealLen m item + logItemLenAlign
  max : sizeofLogItem + logBufferLen m item ≤ logItemMaxLen
  fits : sizeofLogItem + logBufferLen m item ≤ remaining

/-- The well-formed records that follow each other from `item` on, up to the first place
`stop` where there is none. -/
inductive MaximalPrefix (m : Mem) (readLen : Nat) : Nat → List Nat → Nat → Prop
  | stop {item : Nat} (h : ¬ WellFormed m item (readLen - item)) :
      MaximalPrefix m readLen item [] item
  | next {item stop : Nat} {items : List Nat} (h : WellFormed m item (readLen - item))
      (rest : MaximalPrefix m readLen (item + sizeofLogItem + logBufferLen m item) items stop) :
      MaximalPrefix m readLen item (item :: items) stop

end Specification

section Step

variable {m m' : Mem} {item item' scopeLen readLen : Nat} {writeFile : Bool}

theorem logItemGetNext_iff : logItemGetNext m item scopeLen = true ↔ WellFormed m item scopeLen := by
  simp only [logItemGetNext, decide_eq_true_eq]
  constructor
  · rintro ⟨hmagic, hbuffer, hreal, halign, hle, hpad, hmax⟩
    have hsize : logBufferLen m item + sizeofLogItem ≤ logItemMaxLen ∧
        logBufferLen m item + sizeofLogItem ≤ scopeLen := by
      split_ifs at hmax <;> omega
    exact ⟨hmagic, hbuffer, hreal, Nat.dvd_of_mod_eq_zero halign, hle, by omega, by omega, by omega⟩
  · intro h
    have hpad := h.padding
    have hle := h.realLen_le
    have hmax := h.max
    have hfits := h.fits
    refine ⟨h.magic, h.bufferLen_pos, h.realLen_pos, Nat.mod_eq_zero_of_dvd h.aligned, hle,
      by omega, ?_⟩
    split_ifs <;> omega

theorem halfAt_congr {a : Nat} (h₀ : m a = m' a) (h₁ : m (a + 1) = m' (a + 1)) :
    halfAt m a = halfAt m' a := by
  rw [halfAt, halfAt, h₀, h₁]

theorem terminator_inside (h : WellFormed m item scopeLen) :
    item + sizeofLogItem ≤ terminator m item ∧
      terminator m item < item + sizeofLogItem + logBufferLen m item := by
  have hpos := h.realLen_pos
  have hle := h.realLen_le
  rw [terminator]
  split_ifs <;> omega

theorem outputLog_of_outside {a : Nat} (h : WellFormed m item scopeLen)
    (ha : a < item + sizeofLogItem ∨ item + sizeofLogItem + logBufferLen m item ≤ a) :
    outputLog writeFile m item a = m a := by
  obtain ⟨hlo, hhi⟩ := terminator_inside h
  rw [outputLog]
  split_ifs
  · rfl
  · rcases ha with ha | ha
    · exact write_of_lt (by omega)
    · exact write_of_ge (by simp only [List.length_singleton]; omega)

theorem logBufferLen_outputLog (h : WellFormed m item scopeLen) :
    logBufferLen (outputLog writeFile m item) item = logBufferLen m item := by
  have hhead (k : Nat) (hk : k < sizeofLogItem) :
      outputLog writeFile m item (item + k) = m (item + k) :=
    outputLog_of_outside h (.inl (by omega))
  rw [logBufferLen, logBufferLen]
  exact congrArg BitVec.toNat (halfAt_congr (hhead 42 (by decide)) (hhead 43 (by decide)))

end Step

section Congr

variable {m m' : Mem} {item stop readLen : Nat} {items : List Nat} {writeFile : Bool}

theorem header_lt {k : Nat} (hk : k < 44) : k < sizeofLogItem := hk.trans (by decide)

theorem header_congr (h : ∀ k < 44, m (item + k) = m' (item + k)) :
    magic m item = magic m' item ∧ logRealLen m item = logRealLen m' item ∧
      logBufferLen m item = logBufferLen m' item ∧ fieldsRead m item = fieldsRead m' item := by
  have hmagic : magic m item = magic m' item :=
    halfAt_congr (h 32 (by decide)) (h 33 (by decide))
  have hreal : halfAt m (item + 40) = halfAt m' (item + 40) :=
    halfAt_congr (h 40 (by decide)) (h 41 (by decide))
  have hbuffer : halfAt m (item + 42) = halfAt m' (item + 42) :=
    halfAt_congr (h 42 (by decide)) (h 43 (by decide))
  have hlen : logBufferLen m item = logBufferLen m' item := congrArg BitVec.toNat hbuffer
  refine ⟨hmagic, congrArg BitVec.toNat hreal, hlen, ?_⟩
  rw [fieldsRead, fieldsRead, hmagic, hreal, hbuffer]

theorem WellFormed.congr {remaining : Nat} (h : ∀ k < 44, m (item + k) = m' (item + k))
    (hw : WellFormed m item remaining) : WellFormed m' item remaining := by
  obtain ⟨hmagic, hreal, hbuffer, -⟩ := header_congr h
  refine ⟨hmagic ▸ hw.magic, hbuffer ▸ hw.bufferLen_pos, hreal ▸ hw.realLen_pos,
    hbuffer ▸ hw.aligned, ?_, ?_, hbuffer ▸ hw.max, hbuffer ▸ hw.fits⟩
  · rw [← hreal, ← hbuffer]
    exact hw.realLen_le
  · rw [← hreal, ← hbuffer]
    exact hw.padding

theorem logRecord_congr (h : ∀ x, item ≤ x → x < item + sizeofLogItem + logBufferLen m item → m x = m' x) :
    logRecord writeFile m item = logRecord writeFile m' item := by
  have hheader : ∀ k < 44, m (item + k) = m' (item + k) := fun k hk =>
    h _ (Nat.le_add_right item k) (by have := header_lt hk; omega)
  obtain ⟨-, hreal, hbuffer, -⟩ := header_congr hheader
  have hbytes : read m item (sizeofLogItem + logBufferLen m item) =
      read m' item (sizeofLogItem + logBufferLen m item) :=
    read_congr fun x hlo hhi => h x hlo (by omega)
  rw [logRecord, logRecord, terminator, terminator, hbytes, hreal, hbuffer]

theorem MaximalPrefix.congr (hp : MaximalPrefix m readLen item items stop)
    (h : ∀ x, item ≤ x → m x = m' x) : MaximalPrefix m' readLen item items stop := by
  induction hp with
  | stop hstop =>
    refine .stop fun hw => hstop (hw.congr fun k _ => ?_)
    exact (h _ (Nat.le_add_right _ k)).symm
  | @next item stop items hw _ ih =>
    have hlen : logBufferLen m item = logBufferLen m' item :=
      (header_congr fun k _ => h _ (Nat.le_add_right item k)).2.2.1
    refine .next (hw.congr fun k _ => h _ (Nat.le_add_right item k)) ?_
    rw [← hlen]
    exact ih fun x hx => h x (by omega)

theorem MaximalPrefix.unique {items' : List Nat} {stop' : Nat}
    (h : MaximalPrefix m readLen item items stop) (h' : MaximalPrefix m readLen item items' stop') :
    items = items' ∧ stop = stop' := by
  induction h generalizing items' with
  | stop hstop =>
    cases h' with
    | stop => exact ⟨rfl, rfl⟩
    | next hw => exact absurd hw hstop
  | next hw _ ih =>
    cases h' with
    | stop hstop => exact absurd hw hstop
    | next _ hrest =>
      obtain ⟨rfl, rfl⟩ := ih hrest
      exact ⟨rfl, rfl⟩

theorem MaximalPrefix.item_le (h : MaximalPrefix m readLen item items stop) :
    item ≤ stop ∧ ∀ i ∈ items, item ≤ i := by
  induction h with
  | stop => simp
  | @next item stop items _ _ ih =>
    refine ⟨by omega, fun i hi => ?_⟩
    rcases List.mem_cons.mp hi with rfl | hi
    · exact le_rfl
    · exact le_trans (by omega) (ih.2 i hi)

end Congr

section Loop

variable {writeFile : Bool} {readLen : Nat} {m : Mem} {item : Nat}

structure PassOf (writeFile : Bool) (readLen : Nat) (m : Mem) (item : Nat) (items : List Nat)
    (stop : Nat) (p : Pass) : Prop where
  maximal : MaximalPrefix m readLen item items stop
  records : p.records = items.map (logRecord writeFile m)
  fields : p.fields = items.flatMap (fieldsRead m) ++
    if items ≠ [] ∧ readLen ≤ stop then [] else fieldsRead m stop
  memory : ∀ x, p.memory x ≠ m x → ∃ r ∈ p.records, r.stored = some x

theorem stored_of_outputLog {x : Nat} (h : outputLog writeFile m item x ≠ m x) :
    (logRecord writeFile m item).stored = some x := by
  rw [outputLog] at h
  cases writeFile with
  | true => exact absurd rfl h
  | false =>
    simp only [Bool.false_eq_true, if_false] at h
    have hx : x = terminator m item := by
      by_contra hne
      rcases Nat.lt_or_gt_of_ne hne with hlt | hgt
      · exact h (write_of_lt hlt)
      · exact h (write_of_ge (by simpa using hgt))
    simp [logRecord, hx]

theorem PassOf.next {items : List Nat} {stop : Nat} {p : Pass}
    (hw : WellFormed m item (readLen - item))
    (hend : item + sizeofLogItem + logBufferLen m item < readLen)
    (hp : PassOf writeFile readLen (outputLog writeFile m item)
      (item + sizeofLogItem + logBufferLen m item) items stop p) :
    PassOf writeFile readLen m item (item :: items) stop
      ⟨logRecord writeFile m item :: p.records, fieldsRead m item ++ p.fields, p.memory⟩ := by
  -- behind the record the memory is what it was
  have hsame : ∀ x, item + sizeofLogItem + logBufferLen m item ≤ x →
      outputLog writeFile m item x = m x := fun x hx => outputLog_of_outside hw (.inr hx)
  have hge := hp.maximal.item_le
  have hfields {i : Nat} (hi : item + sizeofLogItem + logBufferLen m item ≤ i) :
      fieldsRead (outputLog writeFile m item) i = fieldsRead m i :=
    (header_congr fun k _ => hsame _ (by omega)).2.2.2
  constructor
  case maximal => exact .next hw (hp.maximal.congr hsame)
  case records =>
    have hmap : items.map (logRecord writeFile (outputLog writeFile m item)) =
        items.map (logRecord writeFile m) :=
      List.map_congr_left fun i hi => logRecord_congr fun x hx _ => hsame x ((hge.2 i hi).trans hx)
    simp only [hp.records, hmap, List.map_cons]
  case fields =>
    have hflat : items.flatMap (fieldsRead (outputLog writeFile m item)) =
        items.flatMap (fieldsRead m) := List.flatMap_congr fun i hi => hfields (hge.2 i hi)
    have hiff : (items ≠ [] ∧ readLen ≤ stop) ↔ (item :: items ≠ [] ∧ readLen ≤ stop) := by
      refine ⟨fun h => ⟨by simp, h.2⟩, fun h => ⟨?_, h.2⟩⟩
      rintro rfl
      cases hp.maximal
      omega
    simp only [hp.fields, hflat, hfields hge.1, hiff, List.flatMap_cons, List.append_assoc]
  case memory =>
    intro x hx
    by_cases hout : outputLog writeFile m item x = m x
    · obtain ⟨r, hr, hstored⟩ := hp.memory x (hout ▸ hx)
      exact ⟨r, List.mem_cons_of_mem _ hr, hstored⟩
    · exact ⟨_, List.mem_cons_self, stored_of_outputLog hout⟩

theorem readLogItems_passOf (writeFile : Bool) (readLen : Nat) (m : Mem) (item : Nat) :
    ∃ items stop, PassOf writeFile readLen m item items stop
      (readLogItems writeFile readLen m item item) := by
  induction hn : readLen - item using Nat.strong_induction_on generalizing m item with
  | _ n ih =>
    rw [readLogItems]
    by_cases hnext : logItemGetNext m item (readLen - item) = true
    case neg =>
      rw [if_neg hnext]
      rw [logItemGetNext_iff] at hnext
      exact ⟨[], item, .stop hnext, rfl, by simp, fun x hx => absurd rfl hx⟩
    rw [if_pos hnext]
    rw [logItemGetNext_iff] at hnext
    have hfits := hnext.fits
    have htotal : item + (logBufferLen m item + sizeofLogItem) =
        item + sizeofLogItem + logBufferLen m item := by omega
    simp only [logBufferLen_outputLog hnext, htotal]
    by_cases hend : readLen ≤ item + sizeofLogItem + logBufferLen m item
    · rw [if_pos hend]
      refine ⟨[item], _, .next hnext (.stop fun hw => ?_), rfl, by simp [hend], fun x hx => ?_⟩
      · have := hw.fits
        simp only [sizeofLogItem] at *
        omega
      · exact ⟨_, List.mem_singleton_self _, stored_of_outputLog hx⟩
    · rw [if_neg hend]
      obtain ⟨items, stop, hp⟩ := ih _ (by simp only [sizeofLogItem] at *; omega)
        (outputLog writeFile m item) (item + sizeofLogItem + logBufferLen m item) rfl
      exact ⟨item :: items, stop, hp.next hnext (by omega)⟩

end Loop

section Processed

variable {writeFile : Bool} {readLen : Nat} {m : Mem}

theorem MaximalPrefix.stop_le {item stop : Nat} {items : List Nat}
    (h : MaximalPrefix m readLen item items stop) (hitem : item ≤ readLen) : stop ≤ readLen := by
  induction h with
  | stop => exact hitem
  | next hw _ ih =>
    have := hw.fits
    exact ih (by omega)

theorem MaximalPrefix.wellFormed {item stop : Nat} {items : List Nat}
    (h : MaximalPrefix m readLen item items stop) :
    ∀ i ∈ items, WellFormed m i (readLen - i) ∧ i + sizeofLogItem + logBufferLen m i ≤ stop := by
  induction h with
  | stop => simp
  | next hw hrest ih =>
    rintro i hi
    rcases List.mem_cons.mp hi with rfl | hi
    · exact ⟨hw, hrest.item_le.1⟩
    · exact ih i hi

theorem MaximalPrefix.contiguous {item stop : Nat} {items : List Nat}
    (h : MaximalPrefix m readLen item items stop) :
    items.IsChain fun i j => j = i + sizeofLogItem + logBufferLen m i := by
  induction h with
  | stop => exact .nil
  | next hw hrest ih =>
    cases hrest with
    | stop => exact .singleton _
    | next => exact .cons_cons rfl ih

@[simp] theorem length_bytes_logRecord (item : Nat) :
    (logRecord writeFile m item).bytes.length = sizeofLogItem + logBufferLen m item := by
  simp [logRecord]

/-- A buffer is taken apart into its well-formed records up to the first place where there is
none: they lie in what was read, one behind the other, and the zeros that are stored lie in
the texts. -/
theorem readLogBuffer_maximal (writeFile : Bool) (m : Mem) (readLen : Nat) :
    (∃ stop ≤ readLen, MaximalPrefix m readLen 0
      ((readLogBuffer writeFile m readLen).records.map (·.item)) stop) ∧
    (∀ r ∈ (readLogBuffer writeFile m readLen).records,
      r.item + r.bytes.length ≤ readLen ∧ r.bytes = read m r.item r.bytes.length ∧
      ∀ a, r.stored = some a → r.item + sizeofLogItem ≤ a ∧ a < r.item + r.bytes.length) ∧
    (readLogBuffer writeFile m readLen).records.IsChain
      (fun r r' => r'.item = r.item + r.bytes.length) ∧
    ∀ x, (readLogBuffer writeFile m readLen).memory x ≠ m x →
      ∃ r ∈ (readLogBuffer writeFile m readLen).records, r.stored = some x := by
  obtain ⟨items, stop, hp⟩ := readLogItems_passOf writeFile readLen m 0
  change PassOf writeFile readLen m 0 items stop (readLogBuffer writeFile m readLen) at hp
  have hstop := hp.maximal.stop_le (Nat.zero_le _)
  refine ⟨⟨stop, hstop, ?_⟩, ?_, ?_, hp.memory⟩
  · have hitems : (items.map (logRecord writeFile m)).map (·.item) = items := by
      rw [List.map_map]
      exact List.map_id _
    rw [hp.records, hitems]
    exact hp.maximal
  · rw [hp.records]
    intro r hr
    obtain ⟨i, hi, rfl⟩ := List.mem_map.mp hr
    obtain ⟨hw, hle⟩ := hp.maximal.wellFormed i hi
    obtain ⟨hlo, hhi⟩ := terminator_inside hw
    rw [length_bytes_logRecord]
    refine ⟨?_, rfl, fun a ha => ?_⟩
    · change i + (sizeofLogItem + logBufferLen m i) ≤ readLen
      omega
    · change i + sizeofLogItem ≤ a ∧ a < i + (sizeofLogItem + logBufferLen m i)
      obtain rfl : terminator m i = a := by
        simp only [logRecord] at ha
        split_ifs at ha
        exact Option.some.inj ha
      exact ⟨hlo, by omega⟩
  · rw [hp.records, List.isChain_map]
    refine hp.maximal.contiguous.imp fun i j hij => ?_
    rw [length_bytes_logRecord, ← Nat.add_assoc]
    exact hij

end Processed

section Received

variable {writeFile : Bool} {readLen item stop : Nat} {items : List Nat} {m m' : Mem}

/-- The records and the fields that are read to find them are the same, whatever is behind the
bytes that were read from the device. -/
def DependsOnReceived (writeFile : Bool) (m : Mem) (readLen : Nat) : Prop :=
  ∀ m' : Mem, (∀ x < readLen, m x = m' x) →
    (readLogBuffer writeFile m' readLen).records = (readLogBuffer writeFile m readLen).records ∧
    (readLogBuffer writeFile m' readLen).fields = (readLogBuffer writeFile m readLen).fields

/-- Behind the last record there is nothing, or all that is read of a header. -/
def EndsInHeader (m : Mem) (readLen : Nat) : Prop :=
  ∃ items stop, MaximalPrefix m readLen 0 items stop ∧
    (items ≠ [] ∧ stop = readLen ∨ stop + 44 ≤ readLen)

theorem MaximalPrefix.received (hp : MaximalPrefix m readLen item items stop)
    (h : ∀ x < readLen, m x = m' x) : MaximalPrefix m' readLen item items stop := by
  induction hp with
  | @stop item hstop =>
    refine .stop fun hw => hstop (hw.congr fun k hk => ?_)
    have hfits := hw.fits
    exact (h _ (by have := header_lt hk; omega)).symm
  | @next item stop items hw _ ih =>
    have hfits := hw.fits
    have hhead : ∀ k < 44, m (item + k) = m' (item + k) := fun k hk =>
      h _ (by have := header_lt hk; omega)
    refine .next (hw.congr hhead) ?_
    rw [← (header_congr hhead).2.2.1]
    exact ih

theorem passOf_received (writeFile : Bool) (h : ∀ x < readLen, m x = m' x) :
    ∃ items stop, PassOf writeFile readLen m 0 items stop (readLogBuffer writeFile m readLen) ∧
      PassOf writeFile readLen m' 0 items stop (readLogBuffer writeFile m' readLen) := by
  obtain ⟨items, stop, hp⟩ := readLogItems_passOf writeFile readLen m 0
  obtain ⟨items', stop', hp'⟩ := readLogItems_passOf writeFile readLen m' 0
  obtain ⟨rfl, rfl⟩ := (hp.maximal.received h).unique hp'.maximal
  exact ⟨items, stop, hp, hp'⟩

theorem readLogBuffer_records_received (h : ∀ x < readLen, m x = m' x) :
    (readLogBuffer writeFile m' readLen).records = (readLogBuffer writeFile m readLen).records := by
  obtain ⟨items, stop, hp, hp'⟩ := passOf_received writeFile h
  rw [hp.records, hp'.records]
  refine List.map_congr_left fun i hi => (logRecord_congr fun x _ hx => h x ?_).symm
  have := (hp.maximal.wellFormed i hi).1.fits
  omega

/-- The headers of the records are what was read; only the last one may not be. -/
theorem readLogBuffer_fields_received (h : ∀ x < readLen, m x = m' x)
    (hp : PassOf writeFile readLen m 0 items stop (readLogBuffer writeFile m readLen))
    (hp' : PassOf writeFile readLen m' 0 items stop (readLogBuffer writeFile m' readLen)) :
    (readLogBuffer writeFile m' readLen).fields = (readLogBuffer writeFile m readLen).fields ↔
      items ≠ [] ∧ readLen ≤ stop ∨ fieldsRead m' stop = fieldsRead m stop := by
  have hflat : items.flatMap (fieldsRead m') = items.flatMap (fieldsRead m) := by
    refine List.flatMap_congr fun i hi => ?_
    have hfits := (hp.maximal.wellFormed i hi).1.fits
    exact (header_congr fun k hk => h (i + k) (by have := header_lt hk; omega)).2.2.2.symm
  rw [hp.fields, hp'.fields, hflat, List.append_cancel_left_eq]
  by_cases hend : items ≠ [] ∧ readLen ≤ stop
  · rw [if_pos hend, if_pos hend]
    exact iff_of_true rfl (.inl hend)
  · rw [if_neg hend, if_neg hend, or_iff_right hend]

theorem halfAt_high {a : Nat} (h : halfAt m a = halfAt m' a) : m (a + 1) = m' (a + 1) := by
  have hbyte := congrArg (BitVec.extractLsb' 8 8) h
  rwa [halfAt, halfAt, BitVec.extractLsb'_append_eq_left, BitVec.extractLsb'_append_eq_left] at hbyte

def inverted (m : Mem) (readLen : Nat) : Mem := fun x => if x < readLen then m x else ~~~ (m x)

theorem inverted_ne {x : Nat} (hx : readLen ≤ x) : m x ≠ inverted m readLen x := by
  rw [inverted, if_neg (by omega)]
  intro h
  have := congrArg (·.getLsbD 0) h
  simp at this

/-- Where other bytes behind what was read make no difference, the last header was received as
far as it is read. -/
theorem fieldsRead_inverted (h : fieldsRead (inverted m readLen) stop = fieldsRead m stop) :
    stop + 44 ≤ readLen := by
  have hbuffer : halfAt m (stop + 42) = halfAt (inverted m readLen) (stop + 42) := by
    rw [fieldsRead, fieldsRead] at h
    exact (List.cons.inj (List.cons.inj h).2).1.symm
  by_contra hshort
  exact inverted_ne (by omega) (halfAt_high hbuffer)

theorem fieldsRead_received (h : ∀ x < readLen, m x = m' x) (hend : stop + 44 ≤ readLen) :
    fieldsRead m' stop = fieldsRead m stop :=
  (header_congr fun k hk => h _ (by omega)).2.2.2.symm

/-- Exactly when nothing but the received bytes is looked at.  The records never depend on
anything else. -/
theorem dependsOnReceived_iff (writeFile : Bool) (m : Mem) (readLen : Nat) :
    DependsOnReceived writeFile m readLen ↔ EndsInHeader m readLen := by
  constructor
  · intro h
    have hagree : ∀ x < readLen, m x = inverted m readLen x := fun x hx => (if_pos hx).symm
    obtain ⟨items, stop, hp, hp'⟩ := passOf_received writeFile hagree
    have hstop := hp.maximal.stop_le (Nat.zero_le _)
    refine ⟨items, stop, hp.maximal, ?_⟩
    rcases (readLogBuffer_fields_received hagree hp hp').mp (h _ hagree).2 with hend | hfields
    · exact .inl ⟨hend.1, by omega⟩
    · exact .inr (fieldsRead_inverted hfields)
  · rintro ⟨items, stop, hmax, hend⟩ m' hagree
    refine ⟨readLogBuffer_records_received hagree, ?_⟩
    obtain ⟨items', stop', hp, hp'⟩ := passOf_received writeFile hagree
    obtain ⟨rfl, rfl⟩ := hmax.unique hp.maximal
    refine (readLogBuffer_fields_received hagree hp hp').mpr ?_
    rcases hend with ⟨hne, rfl⟩ | hend
    · exact .inl ⟨hne, le_rfl⟩
    · exact .inr (fieldsRead_received hagree hend)

/-- An empty read: the magic number is looked for in what the buffer held before. -/
theorem not_dependsOnReceived_empty : ¬ DependsOnReceived false (fun _ => 0) 0 := by
  intro h
  have hagree : ∀ x < 0, (0 : BitVec 8) = inverted (fun _ => 0) 0 x := fun x hx => absurd hx (by omega)
  obtain ⟨items, stop, hp, hp'⟩ := passOf_received false (m := fun _ => 0) hagree
  obtain ⟨rfl, rfl⟩ := hp.maximal.unique (.stop fun hw => absurd hw.fits (by simp [sizeofLogItem]))
  rcases (readLogBuffer_fields_received hagree hp hp').mp (h _ hagree).2 with hend | hfields
  · exact hend.1 rfl
  · have := fieldsRead_inverted hfields
    omega

end Received

end TeeClient.Tlogcat
