import Mathlib.Tactic
import Mathlib.Data.List.DropRight

/-! Logs in segments: one segment is written to, the full ones stand in front of it, and when
there is no room for another all of them are put away together. -/

namespace RotatingLogs

variable {α : Type} {slots : Nat}

structure Segment (α : Type) where
  header : List α
  body : List α
  deriving DecidableEq, Repr

def bodies (segments : List (Segment α)) : List α := segments.flatMap (·.body)

/-- A log with room for `slots` full segments, oldest first.  `history` has all the groups that
have been put away, oldest first. -/
structure RotatingLog (α : Type) (slots : Nat) where
  history : List (List (Segment α))
  full : List (Segment α)
  current : Option (Segment α)
  full_le : full.length ≤ slots
  length_group : ∀ g ∈ history, g.length = slots + 1

namespace RotatingLog

def empty : RotatingLog α slots where
  history := []
  full := []
  current := none
  full_le := Nat.zero_le slots
  length_group _ hg := absurd hg List.not_mem_nil

def live (log : RotatingLog α slots) : List α :=
  bodies log.full ++ log.current.elim [] (·.body)

def opened (log : RotatingLog α slots) (header : List α) : RotatingLog α slots :=
  { log with current := some (log.current.getD ⟨header, []⟩) }

def appended (log : RotatingLog α slots) (bs : List α) : RotatingLog α slots :=
  { log with current := log.current.map fun s => ⟨s.header, s.body ++ bs⟩ }

def turned (log : RotatingLog α slots) : RotatingLog α slots :=
  match log.current with
  | none => log
  | some s =>
    if h : log.full.length < slots then
      { history := log.history
        full := log.full ++ [s]
        current := none
        full_le := by
          rw [List.length_append, List.length_singleton]
          exact h
        length_group := log.length_group }
    else
      { history := log.history ++ [log.full ++ [s]]
        full := []
        current := none
        full_le := Nat.zero_le slots
        length_group := by
          intro g hg
          rcases List.mem_append.mp hg with hg | hg
          · exact log.length_group g hg
          · have := log.full_le
            rw [List.mem_singleton.mp hg, List.length_append, List.length_singleton]
            omega }

variable (log : RotatingLog α slots)

@[simp] theorem history_opened (header : List α) : (log.opened header).history = log.history := rfl
@[simp] theorem full_opened (header : List α) : (log.opened header).full = log.full := rfl
@[simp] theorem history_appended (bs : List α) : (log.appended bs).history = log.history := rfl
@[simp] theorem full_appended (bs : List α) : (log.appended bs).full = log.full := rfl

@[simp] theorem live_opened (header : List α) : (log.opened header).live = log.live := by
  cases h : log.current with
  | none => simp only [live, opened, h, Option.getD_none, Option.elim_some, Option.elim_none]
  | some s => simp only [live, opened, h, Option.getD_some]

theorem opened_of_some {s : Segment α} (h : log.current = some s) (header : List α) :
    log.opened header = log := by
  rw [opened, h, Option.getD_some, ← h]

theorem current_opened_of_none (h : log.current = none) (header : List α) :
    (log.opened header).current = some ⟨header, []⟩ := by
  rw [opened, h, Option.getD_none]

theorem current_appended {s : Segment α} (h : log.current = some s) (bs : List α) :
    (log.appended bs).current = some ⟨s.header, s.body ++ bs⟩ := by
  rw [appended, h, Option.map_some]

theorem live_appended {s : Segment α} (h : log.current = some s) (bs : List α) :
    (log.appended bs).live = log.live ++ bs := by
  simp only [live, appended, h, Option.map_some, Option.elim_some, List.append_assoc]

variable {log}

theorem turned_of_none (hcurrent : log.current = none) : log.turned = log := by
  simp only [turned, hcurrent]

theorem turned_of_lt {s : Segment α} (hcurrent : log.current = some s)
    (h : log.full.length < slots) :
    log.turned.history = log.history ∧ log.turned.full = log.full ++ [s] ∧
      log.turned.current = none := by
  simp only [turned, hcurrent, dif_pos h, and_self]

theorem turned_of_not_lt {s : Segment α} (hcurrent : log.current = some s)
    (h : ¬ log.full.length < slots) :
    log.turned.history = log.history ++ [log.full ++ [s]] ∧ log.turned.full = [] ∧
      log.turned.current = none := by
  simp only [turned, hcurrent, dif_neg h, and_self]

@[simp] theorem current_turned (log : RotatingLog α slots) : log.turned.current = none := by
  cases hcurrent : log.current with
  | none => rw [turned_of_none hcurrent, hcurrent]
  | some s =>
    by_cases h : log.full.length < slots
    · exact (turned_of_lt hcurrent h).2.2
    · exact (turned_of_not_lt hcurrent h).2.2

theorem bodies_concat (segments : List (Segment α)) (s : Segment α) :
    bodies (segments ++ [s]) = bodies segments ++ s.body := by
  rw [bodies, bodies, List.flatMap_append, List.flatMap_singleton]

theorem live_turned_of_lt {s : Segment α} (hcurrent : log.current = some s)
    (h : log.full.length < slots) : log.turned.live = log.live := by
  obtain ⟨-, hfull, hnone⟩ := turned_of_lt hcurrent h
  rw [live, live, hfull, hnone, hcurrent, bodies_concat, Option.elim_none, Option.elim_some,
    List.append_nil]

theorem live_turned_of_not_lt {s : Segment α} (hcurrent : log.current = some s)
    (h : ¬ log.full.length < slots) : log.turned.live = [] := by
  obtain ⟨-, hfull, hnone⟩ := turned_of_not_lt hcurrent h
  rw [live, hfull, hnone]
  rfl

theorem contents_turned {s : Segment α} (hcurrent : log.current = some s)
    (h : ¬ log.full.length < slots) :
    log.turned.history.map bodies = log.history.map bodies ++ [log.live] := by
  obtain ⟨hhistory, -, -⟩ := turned_of_not_lt hcurrent h
  rw [hhistory, List.map_append, List.map_singleton, bodies_concat, live, hcurrent, Option.elim_some]

def total (log : RotatingLog α slots) : List α := (log.history.map bodies).flatten ++ log.live

structure Headed (P : List α → Prop) (log : RotatingLog α slots) : Prop where
  full : ∀ s ∈ log.full, P s.header
  current : ∀ s, log.current = some s → P s.header

variable {P : List α → Prop}

theorem Headed.opened (h : log.Headed P) {header : List α} (hheader : P header) :
    (log.opened header).Headed P := by
  refine ⟨h.full, fun s hs => ?_⟩
  obtain rfl := Option.some.inj hs
  cases hcurrent : log.current with
  | none => exact hheader
  | some s => exact h.current s hcurrent

theorem Headed.appended (h : log.Headed P) (bs : List α) : (log.appended bs).Headed P := by
  refine ⟨h.full, fun s hs => ?_⟩
  obtain ⟨s', hs', rfl⟩ := Option.map_eq_some_iff.mp hs
  exact h.current s' hs'

theorem Headed.turned (h : log.Headed P) : log.turned.Headed P := by
  refine ⟨fun s hs => ?_, fun s hs => ?_⟩
  · cases hcurrent : log.current with
    | none =>
      rw [turned_of_none hcurrent] at hs
      exact h.full s hs
    | some s' =>
      by_cases hlt : log.full.length < slots
      · rw [(turned_of_lt hcurrent hlt).2.1] at hs
        rcases List.mem_append.mp hs with hs | hs
        · exact h.full s hs
        · rw [List.mem_singleton.mp hs]
          exact h.current s' hcurrent
      · rw [(turned_of_not_lt hcurrent hlt).2.1] at hs
        cases hs
  · rw [current_turned] at hs
    cases hs

end RotatingLog

def Segment.size (s : Segment α) : Nat := s.header.length + s.body.length

structure LimitedLog (α : Type) (slots : Nat) where
  log : RotatingLog α slots
  counted : Option Nat
  current_of_counted : counted.isSome → log.current.isSome

namespace LimitedLog

@[ext] theorem ext {l l' : LimitedLog α slots} (hlog : l.log = l'.log)
    (hcounted : l.counted = l'.counted) : l = l' := by
  cases l
  cases l'
  cases hlog
  cases hcounted
  rfl

def released (log : RotatingLog α slots) : LimitedLog α slots where
  log := log
  counted := none
  current_of_counted h := absurd h Bool.false_ne_true

variable (limit : Nat)

def checked (l : LimitedLog α slots) : LimitedLog α slots :=
  if l.counted.any (limit ≤ ·) then released l.log.turned else l

/-- The length of a segment that is there counts from the beginning, that of a new one without its
header. -/
def opened (header : List α) (l : LimitedLog α slots) : LimitedLog α slots where
  log := l.log.opened header
  counted := some (l.counted.getD (l.log.current.elim 0 Segment.size))
  current_of_counted _ := rfl

def appended (bs : List α) (l : LimitedLog α slots) : LimitedLog α slots where
  log := l.log.appended bs
  counted := l.counted.map (· + bs.length)
  current_of_counted h := by
    rw [Option.isSome_map] at h
    rw [RotatingLog.appended, Option.isSome_map]
    exact l.current_of_counted h

def written (header bs : List α) (l : LimitedLog α slots) : LimitedLog α slots :=
  ((l.checked limit).opened header).appended bs

def closed (l : LimitedLog α slots) : LimitedLog α slots := released (l.checked limit).log

variable {limit} {l : LimitedLog α slots} {n : Nat}

theorem checked_of_le (hcounted : l.counted = some n) (hle : limit ≤ n) :
    l.checked limit = released l.log.turned := by
  have hany : l.counted.any (limit ≤ ·) := by
    rw [hcounted]
    exact decide_eq_true hle
  rw [checked, if_pos hany]

theorem checked_of_lt (hcounted : l.counted = some n) (hlt : ¬ limit ≤ n) : l.checked limit = l := by
  have hany : ¬ l.counted.any (limit ≤ ·) := by
    rw [hcounted]
    exact fun h => hlt (of_decide_eq_true h)
  rw [checked, if_neg hany]

theorem checked_of_none (hcounted : l.counted = none) : l.checked limit = l := by
  rw [checked, hcounted]
  rfl

theorem checked_checked (limit : Nat) (l : LimitedLog α slots) :
    (l.checked limit).checked limit = l.checked limit := by
  cases hcounted : l.counted with
  | none => rw [checked_of_none hcounted, checked_of_none hcounted]
  | some n =>
    by_cases hle : limit ≤ n
    · rw [checked_of_le hcounted hle, checked_of_none rfl]
    · rw [checked_of_lt hcounted hle, checked_of_lt hcounted hle]

theorem opened_of_some (hcounted : l.counted = some n) (header : List α) : l.opened header = l := by
  have hsome : l.log.current.isSome := l.current_of_counted (by rw [hcounted]; rfl)
  obtain ⟨s, hcurrent⟩ := Option.isSome_iff_exists.mp hsome
  apply LimitedLog.ext
  · exact RotatingLog.opened_of_some l.log hcurrent header
  · rw [opened, hcounted, Option.getD_some]

theorem released_log (hcounted : l.counted = none) : released l.log = l :=
  LimitedLog.ext rfl hcounted.symm

theorem closed_of_none (hcounted : l.counted = none) : l.closed limit = l := by
  rw [closed, checked_of_none hcounted, released_log hcounted]

theorem log_written_of_le (hcounted : l.counted = some n) (hle : limit ≤ n) (header bs : List α) :
    (l.written limit header bs).log = (l.log.turned.opened header).appended bs := by
  rw [written, checked_of_le hcounted hle]
  rfl

theorem current_written_of_le (hcounted : l.counted = some n) (hle : limit ≤ n)
    (header bs : List α) : (l.written limit header bs).log.current = some ⟨header, bs⟩ := by
  have hopened := RotatingLog.current_opened_of_none _ (RotatingLog.current_turned l.log) header
  rw [log_written_of_le hcounted hle, RotatingLog.current_appended _ hopened, List.nil_append]

theorem counted_written_of_le (hcounted : l.counted = some n) (hle : limit ≤ n)
    (header bs : List α) : (l.written limit header bs).counted = some bs.length := by
  rw [written, checked_of_le hcounted hle]
  calc (((released l.log.turned).opened header).appended bs).counted
    _ = some (l.log.turned.current.elim 0 Segment.size + bs.length) := rfl
    _ = some bs.length := by rw [RotatingLog.current_turned, Option.elim_none, Nat.zero_add]

theorem log_closed_of_le (hcounted : l.counted = some n) (hle : limit ≤ n) :
    (l.closed limit).log = l.log.turned := by
  rw [closed, checked_of_le hcounted hle]
  rfl

structure Blocks (s : Segment α) (groups fulls : Nat) (l : LimitedLog α slots) : Prop where
  history : l.log.history = List.replicate groups (List.replicate (slots + 1) s)
  full : l.log.full = List.replicate fulls s
  current : l.log.current = some s
  counted : l.counted = some s.body.length

theorem Blocks.first (s : Segment α) :
    Blocks s 0 0 ((released .empty : LimitedLog α slots).written limit s.header s.body) where
  history := rfl
  full := rfl
  current := rfl
  counted := congrArg some (Nat.zero_add s.body.length)

theorem Blocks.next {s : Segment α} {groups fulls : Nat} (h : Blocks s groups fulls l)
    (hbody : limit ≤ s.body.length) (hlt : fulls < slots) :
    Blocks s groups (fulls + 1) (l.written limit s.header s.body) := by
  have hlength : l.log.full.length < slots := by
    rw [h.full, List.length_replicate]
    exact hlt
  obtain ⟨hhistory, hfull, -⟩ := RotatingLog.turned_of_lt h.current hlength
  have hlog := log_written_of_le h.counted hbody s.header s.body
  refine ⟨?_, ?_, current_written_of_le h.counted hbody _ _, counted_written_of_le h.counted hbody _ _⟩
  · rw [hlog, RotatingLog.history_appended, RotatingLog.history_opened, hhistory, h.history]
  · rw [hlog, RotatingLog.full_appended, RotatingLog.full_opened, hfull, h.full,
      List.replicate_succ']

theorem Blocks.closed {s : Segment α} {groups fulls : Nat} (h : Blocks s groups fulls l)
    (hbody : limit ≤ s.body.length) (hlt : fulls < slots) :
    (l.closed limit).log.history = List.replicate groups (List.replicate (slots + 1) s) ∧
      (l.closed limit).log.full = List.replicate (fulls + 1) s ∧
      (l.closed limit).log.current = none := by
  have hlength : l.log.full.length < slots := by
    rw [h.full, List.length_replicate]
    exact hlt
  obtain ⟨hhistory, hfull, hnone⟩ := RotatingLog.turned_of_lt h.current hlength
  rw [log_closed_of_le h.counted hbody, hhistory, hfull, hnone, h.history, h.full]
  exact ⟨rfl, List.replicate_succ'.symm, rfl⟩

variable {P : List α → Prop}

theorem headed_checked (limit : Nat) (h : l.log.Headed P) : (l.checked limit).log.Headed P := by
  cases hcounted : l.counted with
  | none => rwa [checked_of_none hcounted]
  | some n =>
    by_cases hle : limit ≤ n
    · rw [checked_of_le hcounted hle]
      exact h.turned
    · rwa [checked_of_lt hcounted hle]

/-- What is full has reached the limit, and no more is counted for the current segment than there
is. -/
structure Filled (limit : Nat) (l : LimitedLog α slots) : Prop where
  full : ∀ s ∈ l.log.full, limit ≤ s.size
  history : ∀ g ∈ l.log.history, ∀ s ∈ g, limit ≤ s.size
  counted : ∀ n s, l.counted = some n → l.log.current = some s → n ≤ s.size

theorem Filled.empty (limit : Nat) :
    Filled limit (released .empty : LimitedLog α slots) :=
  ⟨fun _ hs => absurd hs List.not_mem_nil, fun _ hg => absurd hg List.not_mem_nil,
    fun _ _ hcounted => nomatch hcounted⟩

theorem Filled.released (h : Filled limit l) : Filled limit (released l.log) :=
  ⟨h.full, h.history, fun _ _ hcounted => nomatch hcounted⟩

theorem Filled.turned (h : Filled limit l) {s : Segment α} (hcurrent : l.log.current = some s)
    (hsize : limit ≤ s.size) : Filled limit (LimitedLog.released l.log.turned) := by
  have hconcat {t : Segment α} (ht : t ∈ l.log.full ++ [s]) : limit ≤ t.size := by
    rcases List.mem_append.mp ht with ht | ht
    · exact h.full t ht
    · rwa [List.mem_singleton.mp ht]
  refine ⟨fun t ht => ?_, fun g hg t ht => ?_, fun _ _ hcounted => nomatch hcounted⟩
  · by_cases hlt : l.log.full.length < slots
    · have hfull := (RotatingLog.turned_of_lt hcurrent hlt).2.1
      exact hconcat (hfull ▸ ht)
    · have hfull := (RotatingLog.turned_of_not_lt hcurrent hlt).2.1
      cases hfull ▸ ht
  · by_cases hlt : l.log.full.length < slots
    · have hhistory := (RotatingLog.turned_of_lt hcurrent hlt).1
      exact h.history g (hhistory ▸ hg) t ht
    · have hhistory := (RotatingLog.turned_of_not_lt hcurrent hlt).1
      rcases List.mem_append.mp (hhistory ▸ hg) with hg | hg
      · exact h.history g hg t ht
      · exact hconcat (List.mem_singleton.mp hg ▸ ht)

theorem Filled.checked (h : Filled limit l) : Filled limit (l.checked limit) := by
  cases hcounted : l.counted with
  | none => rwa [checked_of_none hcounted]
  | some n =>
    by_cases hle : limit ≤ n
    · have hsome : l.log.current.isSome := l.current_of_counted (by rw [hcounted]; rfl)
      obtain ⟨s, hcurrent⟩ := Option.isSome_iff_exists.mp hsome
      rw [checked_of_le hcounted hle]
      exact h.turned hcurrent (hle.trans (h.counted n s hcounted hcurrent))
    · rwa [checked_of_lt hcounted hle]

theorem Filled.opened (h : Filled limit l) (header : List α) : Filled limit (l.opened header) := by
  cases hcounted : l.counted with
  | some n => rwa [opened_of_some hcounted]
  | none =>
    refine ⟨h.full, h.history, fun n s hn hs => ?_⟩
    obtain rfl := Option.some.inj hn
    obtain rfl := Option.some.inj hs
    rw [hcounted, Option.getD_none]
    cases hcurrent : l.log.current with
    | none => exact Nat.zero_le _
    | some s => exact Nat.le_refl _

theorem Filled.appended (h : Filled limit l) (bs : List α) : Filled limit (l.appended bs) := by
  refine ⟨h.full, h.history, fun n s hn hs => ?_⟩
  obtain ⟨m, hm, rfl⟩ := Option.map_eq_some_iff.mp hn
  obtain ⟨t, ht, rfl⟩ := Option.map_eq_some_iff.mp hs
  have hle := h.counted m t hm ht
  calc m + bs.length
    _ ≤ t.header.length + t.body.length + bs.length := Nat.add_le_add_right hle bs.length
    _ = t.header.length + (t.body ++ bs).length := by rw [List.length_append, Nat.add_assoc]

theorem Filled.written (h : Filled limit l) (header bs : List α) :
    Filled limit (l.written limit header bs) := (h.checked.opened header).appended bs

theorem Filled.closed (h : Filled limit l) : Filled limit (l.closed limit) := h.checked.released

end LimitedLog

section Newest

variable {β : Type}

theorem rtake_concat (l : List β) (x : β) (k : Nat) :
    (l ++ [x]).rtake (k + 1) =
      (if (l.rtake (k + 1)).length ≤ k then l.rtake (k + 1) else (l.rtake (k + 1)).tail) ++ [x] := by
  rw [List.rtake_concat_succ]
  congr 1
  by_cases h : l.length ≤ k
  · have hall : l.rtake (k + 1) = l := by
      rw [List.rtake, Nat.sub_eq_zero_of_le (by omega), List.drop_zero]
    have hall' : l.rtake k = l := by
      rw [List.rtake, Nat.sub_eq_zero_of_le h, List.drop_zero]
    rw [hall, hall', if_pos h]
  · have hlength : ¬ (l.rtake (k + 1)).length ≤ k := by
      rw [List.rtake, List.length_drop]
      omega
    rw [if_neg hlength, List.rtake, List.rtake, List.tail_drop]
    congr 1
    omega

theorem length_rtake_le (l : List β) (k : Nat) : (l.rtake k).length ≤ k := by
  rw [List.rtake, List.length_drop]
  omega

end Newest

end RotatingLogs
