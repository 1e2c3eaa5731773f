import Mathlib.Tactic
import TeeClient.Lib.Resumption

/-! Counted references.  An object is allocated and set up by one call, put into a list
where other calls find it, taken out again, and freed by the call that puts the last
reference.  What happens to objects is a list of events; what the calls refer to is
kept beside them. -/

namespace RefCount

open Resumption

/-- A call's reference to an object: `own` before the count is set and `init` until the
object is in the list, both its creator's; `hold` is counted, also the creator's until its
put; `removed` is the list's reference in the hands of the call that took the object
out; `fin` belongs to the call that saw the count reach zero. -/
inductive Ref (O : Type)
  | own (o : O)
  | init (o : O)
  | hold (o : O)
  | removed (o : O)
  | fin (o : O)
  deriving DecidableEq

/-- `discard` frees an object that no other call has seen, `free` one that was shared, and `drop`
one that its creator has to itself again, without a put. -/
inductive Event (O : Type)
  | malloc (o : O)
  | set (o : O)
  | insert (o : O)
  | get (o : O)
  | remove (o : O)
  | put (o : O) (zero : Bool)
  | discard (o : O)
  | free (o : O)
  | drop (o : O)

structure Life where
  opsCnt : Nat
  frees : Nat
  wasListed : Bool
  finalized : Nat

/-- All objects: which have been allocated, what has become of them, and how often each
is in the list. -/
structure Ledger (O : Type) where
  known : O → Bool
  life : O → Life
  listed : O → Nat

variable {O : Type} [DecidableEq O]

instance : LawfulBEq (Ref O) := inferInstance

def Ref.obj : Ref O → O
  | .own o | .init o | .hold o | .removed o | .fin o => o

def Event.obj : Event O → O
  | .malloc o | .set o | .insert o | .get o | .remove o | .put o _ | .discard o | .free o
  | .drop o => o

def Event.onLife : Event O → Life → Life
  | .malloc _, _ => ⟨0, 0, false, 0⟩
  | .set _, x => { x with opsCnt := 1 }
  | .insert _, x => { x with opsCnt := x.opsCnt + 1, wasListed := true }
  | .get _, x => { x with opsCnt := x.opsCnt + 1 }
  | .remove _, x => x
  | .put _ _, x => { x with opsCnt := x.opsCnt - 1 }
  | .discard _, x => { x with frees := x.frees + 1 }
  | .free _, x | .drop _, x => { x with frees := x.frees + 1, finalized := x.finalized + 1 }

def Event.onListed : Event O → Nat → Nat
  | .insert _, k => k + 1
  | .remove _, k => k - 1
  | _, k => k

section References

def consumed (l : List (Ref O)) : Event O → Option (Ref O)
  | .set o => some (.own o)
  | .insert o => some (.init o)
  | .put o _ => if .removed o ∈ l then some (.removed o) else some (.hold o)
  | .discard o => if .own o ∈ l then some (.own o) else some (.init o)
  | .free o => some (.fin o)
  | .drop o => some (.hold o)
  | .malloc _ | .get _ | .remove _ => none

def produced : Event O → Option (Ref O)
  | .malloc o => some (.own o)
  | .set o => some (.init o)
  | .insert o | .get o => some (.hold o)
  | .remove o => some (.removed o)
  | .put o zero => if zero then some (.fin o) else none
  | .discard _ | .free _ | .drop _ => none

def upd (l : List (Ref O)) (e : Event O) : List (Ref O) :=
  (produced e).toList ++ (consumed l e).elim l l.erase

def updAll (l : List (Ref O)) (es : List (Event O)) : List (Ref O) := es.foldl upd l

def Covered : List (Ref O) → List (Event O) → Prop
  | _, [] => True
  | l, e :: es => (∀ t, consumed l e = some t → t ∈ l) ∧ Covered (upd l e) es

@[simp] theorem updAll_nil (l : List (Ref O)) : updAll l [] = l := rfl

@[simp] theorem updAll_cons (l : List (Ref O)) (e : Event O) (es : List (Event O)) :
    updAll l (e :: es) = updAll (upd l e) es := rfl

@[simp] theorem covered_nil (l : List (Ref O)) : Covered l [] := trivial

@[simp] theorem covered_cons {l : List (Ref O)} {e : Event O} {es : List (Event O)} :
    Covered l (e :: es) ↔ (∀ t, consumed l e = some t → t ∈ l) ∧ Covered (upd l e) es := Iff.rfl

theorem mem_upd_of_mem {l : List (Ref O)} {e : Event O} {t : Ref O} (ht : t ∈ l)
    (h : consumed l e ≠ some t) : t ∈ upd l e := by
  refine List.mem_append_right _ ?_
  cases hc : consumed l e with
  | none => exact ht
  | some x =>
    refine (List.mem_erase_of_ne ?_).mpr ht
    rintro rfl
    exact h hc

theorem upd_cons {l : List (Ref O)} {e : Event O} {t : Ref O} (h : consumed (t :: l) e = some t) :
    upd (t :: l) e = (produced e).toList ++ l := by
  rw [upd, h, Option.elim_some, List.erase_cons_head]

theorem consumed_perm {l l' : List (Ref O)} (h : l.Perm l') (e : Event O) :
    consumed l e = consumed l' e := by
  cases e <;> simp only [consumed, h.mem_iff]

theorem updAll_perm {l l' : List (Ref O)} (h : l.Perm l') (es : List (Event O)) :
    (updAll l es).Perm (updAll l' es) := by
  induction es generalizing l l' with
  | nil => exact h
  | cons e es ih =>
    refine ih (List.Perm.append_left _ ?_)
    rw [consumed_perm h e]
    cases consumed l' e with
    | none => exact h
    | some t => exact h.erase t

theorem obj_of_consumed {l : List (Ref O)} {e : Event O} {t : Ref O}
    (h : consumed l e = some t) : t.obj = e.obj := by
  cases e <;> simp only [consumed, reduceCtorEq] at h <;> try split_ifs at h
  all_goals
    obtain rfl := Option.some.inj h
    rfl

omit [DecidableEq O] in
theorem obj_of_produced {e : Event O} {t : Ref O} (h : produced e = some t) : t.obj = e.obj := by
  cases e <;> simp only [produced, reduceCtorEq] at h <;> try split_ifs at h
  all_goals
    obtain rfl := Option.some.inj h
    rfl

def Moved (l : List (Ref O)) (e : Event O) (n n' : Ref O → Nat) : Prop :=
  ∀ t, n' t + (if consumed l e = some t then 1 else 0) =
    n t + (if produced e = some t then 1 else 0)

theorem moved_upd {l : List (Ref O)} {e : Event O} (h : ∀ t, consumed l e = some t → t ∈ l) :
    Moved l e (fun t => l.count t) fun t => (upd l e).count t := by
  intro t
  have hprod : (produced e).toList.count t = if produced e = some t then 1 else 0 := by
    cases produced e with
    | none => simp
    | some x => simp [List.count_singleton]
  simp only [upd, List.count_append, hprod]
  cases hc : consumed l e with
  | none => simp [Nat.add_comm]
  | some x =>
    have hx : 0 < l.count x := List.count_pos_iff.mpr (h x hc)
    simp only [Option.elim_some, Option.some.injEq, List.count_erase, beq_iff_eq]
    by_cases hxt : x = t
    · subst hxt
      simp only [if_true]
      omega
    · simp only [hxt, if_false]
      omega

theorem Moved.counts {l : List (Ref O)} {e : Event O} {n n' : Ref O → Nat} (h : Moved l e n n')
    {x y : Option (Ref O)} (hx : consumed l e = x) (hy : produced e = y) (o : O) :
    let moved (t : Ref O) := n' t + (if x = some t then 1 else 0) =
      n t + (if y = some t then 1 else 0)
    moved (.own o) ∧ moved (.init o) ∧ moved (.hold o) ∧ moved (.removed o) ∧ moved (.fin o) := by
  subst hx hy
  exact ⟨h _, h _, h _, h _, h _⟩

theorem Moved.other {l : List (Ref O)} {e : Event O} {n n' : Ref O → Nat} (h : Moved l e n n')
    {t : Ref O} (ht : t.obj ≠ e.obj) : n' t = n t := by
  have := h t
  rwa [if_neg fun hc => ht (obj_of_consumed hc), if_neg fun hp => ht (obj_of_produced hp),
    Nat.add_zero, Nat.add_zero] at this

end References

namespace Ledger

def modify (g : Ledger O) (o : O) (f : Life → Life) : Ledger O :=
  { g with life := Function.update g.life o (f (g.life o)) }

def relist (g : Ledger O) (o : O) (n : Nat) : Ledger O :=
  { g with listed := Function.update g.listed o n }

def apply (g : Ledger O) (e : Event O) : Ledger O :=
  let g' := g.modify e.obj e.onLife
  match e with
  | .malloc o => { g' with known := Function.update g.known o true }
  | .insert o => g'.relist o (g.listed o + 1)
  | .remove o => g'.relist o (g.listed o - 1)
  | .set _ | .get _ | .put _ _ | .discard _ | .free _ | .drop _ => g'

/-- An event that the ledger allows: only a listed object is found, the call that puts the
last reference is told so, and a call drops its reference only when there is no other. -/
def Allows (g : Ledger O) : Event O → Prop
  | .malloc o => g.known o = false
  | .get o | .remove o => 0 < g.listed o
  | .put o zero => zero = decide ((g.life o).opsCnt - 1 = 0)
  | .drop o => (g.life o).opsCnt = 1
  | .set _ | .insert _ | .discard _ | .free _ => True

def Follows (g : Ledger O) : List (Event O) → Ledger O → Prop
  | [], g' => g' = g
  | e :: es, g' => g.Allows e ∧ (g.apply e).Follows es g'

@[simp] theorem follows_nil {g g' : Ledger O} : g.Follows [] g' ↔ g' = g := Iff.rfl

@[simp] theorem follows_cons {g g' : Ledger O} {e : Event O} {es : List (Event O)} :
    g.Follows (e :: es) g' ↔ g.Allows e ∧ (g.apply e).Follows es g' := Iff.rfl

theorem follows_one {g g' : Ledger O} {e : Event O} (h : g.Allows e) (hg : g' = g.apply e) :
    g.Follows [e] g' := ⟨h, hg⟩

variable {g : Ledger O}

theorem apply_eq {e : Event O} (he : ∀ o, e ≠ .malloc o) :
    g.apply e = {
      known := g.known
      life := Function.update g.life e.obj (e.onLife (g.life e.obj))
      listed := Function.update g.listed e.obj (e.onListed (g.listed e.obj)) } := by
  cases e
  case malloc o => exact absurd rfl (he o)
  case insert | remove => rfl
  all_goals simp [apply, modify, Event.onListed, Event.obj]

theorem known_apply {e : Event O} {o : O} (h : g.known o = true) : (g.apply e).known o = true := by
  cases e
  case malloc p =>
    by_cases hop : o = p
    · subst hop
      simp [apply]
    · simpa [apply, modify, hop] using h
  all_goals exact h

theorem Follows.known {g' : Ledger O} {es : List (Event O)} {o : O} (h : g.Follows es g')
    (ho : g.known o = true) : g'.known o = true := by
  induction es generalizing g with
  | nil =>
    obtain rfl := h
    exact ho
  | cons e es ih => exact ih h.2 (known_apply ho)

theorem apply_of_ne {e : Event O} {o : O} (h : o ≠ e.obj) :
    (g.apply e).life o = g.life o ∧ (g.apply e).listed o = g.listed o ∧
      (g.apply e).known o = g.known o := by
  cases e <;> simp_all [apply, modify, relist, Event.obj]

theorem Follows.known_or_malloc {g' : Ledger O} {es : List (Event O)} {o : O}
    (h : g.Follows es g') (ho : g'.known o = true) : g.known o = true ∨ .malloc o ∈ es := by
  induction es generalizing g with
  | nil =>
    obtain rfl := h
    exact .inl ho
  | cons e es ih =>
    rcases ih h.2 with hknown | hmem
    · by_cases hnew : e = .malloc o
      · exact .inr (hnew ▸ List.mem_cons_self)
      · refine .inl ?_
        cases e
        case malloc p =>
          have hop : o ≠ p := fun hop => hnew (hop ▸ rfl)
          simpa [apply, modify, hop] using hknown
        all_goals exact hknown
    · exact .inr (List.mem_cons_of_mem _ hmem)

theorem Follows.wasListed {g' : Ledger O} {es : List (Event O)} {o : O} (h : g.Follows es g')
    (ho : g.known o = true) (hwas : (g.life o).wasListed = true) :
    (g'.life o).wasListed = true := by
  induction es generalizing g with
  | nil =>
    obtain rfl := h
    exact hwas
  | cons e es ih =>
    refine ih h.2 (known_apply ho) ?_
    by_cases hoe : o = e.obj
    · subst hoe
      cases e
      case malloc p => exact absurd (ho.symm.trans h.1) nofun
      case insert p => simp [apply, modify, relist, Event.obj, Event.onLife]
      all_goals simpa [apply, modify, relist, Event.obj, Event.onLife] using hwas
    · rw [(apply_of_ne hoe).1]
      exact hwas

theorem Follows.frees {g' : Ledger O} {es : List (Event O)} {o : O} (h : g.Follows es g')
    (ho : g.known o = true)
    (hes : ∀ e ∈ es, e ≠ .discard o ∧ e ≠ .free o ∧ e ≠ .drop o) :
    (g'.life o).frees = (g.life o).frees := by
  induction es generalizing g with
  | nil =>
    obtain rfl := h
    rfl
  | cons e es ih =>
    rw [ih h.2 (known_apply ho) fun e' he' => hes e' (List.mem_cons_of_mem _ he')]
    obtain ⟨hdiscard, hfree, hdrop⟩ := hes e List.mem_cons_self
    by_cases hoe : o = e.obj
    · subst hoe
      cases e
      case malloc p => exact absurd (ho.symm.trans h.1) nofun
      case discard => exact absurd rfl hdiscard
      case free => exact absurd rfl hfree
      case drop => exact absurd rfl hdrop
      all_goals simp [apply, modify, relist, Event.obj, Event.onLife]
    · rw [(apply_of_ne hoe).1]

end Ledger

/-- An object against the number of references of each kind; `listed` is the number of
its places in the list. -/
structure Law (x : Life) (own init listed hold removed fin : Nat) : Prop where
  stage : own + init + listed + removed + fin ≤ 1
  alone : 0 < own + init + fin → hold = 0
  dead : 0 < x.frees → own + init + listed + removed + fin + hold = 0
  once : x.frees ≤ 1
  opsCnt : x.frees = 0 → x.opsCnt = init + listed + removed + hold
  live : x.frees = 0 → 0 < own + fin + x.opsCnt
  listedOnce : 0 < listed + removed + fin + hold → x.wasListed = true
  notYet : 0 < own + init → x.wasListed = false
  finalized : x.finalized = if x.wasListed = true then x.frees else 0

namespace Law

variable {x : Life} {own init listed hold removed fin : Nat}

theorem malloc : Law ⟨0, 0, false, 0⟩ 1 0 0 0 0 0 := by
  constructor <;> simp

theorem set (h : Law x (own + 1) init listed hold removed fin) :
    Law { x with opsCnt := 1 } own (init + 1) listed hold removed fin := by
  obtain ⟨stage, alone, dead, once, opsCnt, live, listedOnce, notYet, finalized⟩ := h
  constructor <;> grind

theorem insert (h : Law x own (init + 1) listed hold removed fin) :
    Law { x with opsCnt := x.opsCnt + 1, wasListed := true } own init (listed + 1) (hold + 1)
      removed fin := by
  obtain ⟨stage, alone, dead, once, opsCnt, live, listedOnce, notYet, finalized⟩ := h
  constructor <;> grind

theorem get (h : Law x own init listed hold removed fin) (hl : 0 < listed) :
    Law { x with opsCnt := x.opsCnt + 1 } own init listed (hold + 1) removed fin := by
  obtain ⟨stage, alone, dead, once, opsCnt, live, listedOnce, notYet, finalized⟩ := h
  constructor <;> grind

theorem remove (h : Law x own init (listed + 1) hold removed fin) :
    Law x own init listed hold (removed + 1) fin := by
  obtain ⟨stage, alone, dead, once, opsCnt, live, listedOnce, notYet, finalized⟩ := h
  constructor <;> grind

theorem putHold (h : Law x own init listed (hold + 1) removed fin) :
    Law { x with opsCnt := x.opsCnt - 1 } own init listed hold removed
      (fin + if x.opsCnt - 1 = 0 then 1 else 0) := by
  obtain ⟨stage, alone, dead, once, opsCnt, live, listedOnce, notYet, finalized⟩ := h
  constructor <;> grind

theorem putRemoved (h : Law x own init listed hold (removed + 1) fin) :
    Law { x with opsCnt := x.opsCnt - 1 } own init listed hold removed
      (fin + if x.opsCnt - 1 = 0 then 1 else 0) := by
  obtain ⟨stage, alone, dead, once, opsCnt, live, listedOnce, notYet, finalized⟩ := h
  constructor <;> grind

theorem discardOwn (h : Law x (own + 1) init listed hold removed fin) :
    Law { x with frees := x.frees + 1 } own init listed hold removed fin := by
  obtain ⟨stage, alone, dead, once, opsCnt, live, listedOnce, notYet, finalized⟩ := h
  constructor <;> grind

theorem discardInit (h : Law x own (init + 1) listed hold removed fin) :
    Law { x with frees := x.frees + 1 } own init listed hold removed fin := by
  obtain ⟨stage, alone, dead, once, opsCnt, live, listedOnce, notYet, finalized⟩ := h
  constructor <;> grind

theorem free (h : Law x own init listed hold removed (fin + 1)) :
    Law { x with frees := x.frees + 1, finalized := x.finalized + 1 } own init listed hold removed
      fin := by
  obtain ⟨stage, alone, dead, once, opsCnt, live, listedOnce, notYet, finalized⟩ := h
  constructor <;> grind

theorem drop (h : Law x own init listed (hold + 1) removed fin) (hcnt : x.opsCnt = 1) :
    Law { x with frees := x.frees + 1, finalized := x.finalized + 1 } own init listed hold removed
      fin := by
  obtain ⟨stage, alone, dead, once, opsCnt, live, listedOnce, notYet, finalized⟩ := h
  constructor <;> grind

end Law

structure Accounts (g : Ledger O) (n : Ref O → Nat) : Prop where
  law : ∀ o, g.known o = true → Law (g.life o) (n (.own o)) (n (.init o)) (g.listed o)
    (n (.hold o)) (n (.removed o)) (n (.fin o))
  fresh : ∀ o, g.known o = false → g.listed o = 0 ∧ ∀ t : Ref O, t.obj = o → n t = 0

namespace Accounts

variable {g : Ledger O} {n n' : Ref O → Nat} {l : List (Ref O)}

omit [DecidableEq O] in
theorem known_of_pos (h : Accounts g n) {t : Ref O} (ht : 0 < n t) : g.known t.obj = true := by
  by_contra hk
  have := (h.fresh t.obj (Bool.eq_false_iff.mpr hk)).2 t rfl
  omega

omit [DecidableEq O] in
theorem known_of_listed (h : Accounts g n) {o : O} (ho : 0 < g.listed o) : g.known o = true := by
  by_contra hk
  have := (h.fresh o (Bool.eq_false_iff.mpr hk)).1
  omega

omit [DecidableEq O] in
theorem frees_eq_zero (h : Accounts g n) {t : Ref O} (ht : 0 < n t) :
    (g.life t.obj).frees = 0 := by
  have hlaw := h.law t.obj (h.known_of_pos ht)
  by_contra hfreed
  have := hlaw.dead (Nat.pos_of_ne_zero hfreed)
  cases t <;> simp only [Ref.obj] at this ht <;> omega

omit [DecidableEq O] in
theorem frees_eq_zero_of_listed (h : Accounts g n) {o : O} (ho : 0 < g.listed o) :
    (g.life o).frees = 0 := by
  have hlaw := h.law o (h.known_of_listed ho)
  by_contra hfreed
  have := hlaw.dead (Nat.pos_of_ne_zero hfreed)
  omega

omit [DecidableEq O] in
theorem same_opsCnt {g' : Ledger O} (h : Accounts g n) (h' : Accounts g' n) {o : O}
    (ho : 0 < g.listed o) (ho' : 0 < g'.listed o) : (g'.life o).opsCnt = (g.life o).opsCnt := by
  have hlaw := h.law o (h.known_of_listed ho)
  have hlaw' := h'.law o (h'.known_of_listed ho')
  have hcnt := hlaw.opsCnt (h.frees_eq_zero_of_listed ho)
  have hcnt' := hlaw'.opsCnt (h'.frees_eq_zero_of_listed ho')
  have hstage := hlaw.stage
  have hstage' := hlaw'.stage
  omega

omit [DecidableEq O] in
theorem opsCnt_eq_one (h : Accounts g n) {o : O} (hn : ∀ t : Ref O, t.obj = o → n t = 0)
    (ho : 0 < g.listed o) : (g.life o).opsCnt = 1 := by
  have hlaw := h.law o (h.known_of_listed ho)
  have hcnt := hlaw.opsCnt (h.frees_eq_zero_of_listed ho)
  have hstage := hlaw.stage
  rw [hn (.init o) rfl, hn (.removed o) rfl, hn (.hold o) rfl] at hcnt
  omega

omit [DecidableEq O] in
theorem frees_eq_one (h : Accounts g n) {o : O} (hn : ∀ t : Ref O, t.obj = o → n t = 0)
    (hknown : g.known o = true) (ho : g.listed o = 0) : (g.life o).frees = 1 := by
  have hlaw := h.law o hknown
  have honce := hlaw.once
  by_contra hne
  have hfrees : (g.life o).frees = 0 := by omega
  have hcnt := hlaw.opsCnt hfrees
  have hlive := hlaw.live hfrees
  rw [hn (.init o) rfl, hn (.removed o) rfl, hn (.hold o) rfl, ho] at hcnt
  rw [hn (.own o) rfl, hn (.fin o) rfl, hcnt] at hlive
  omega

theorem move (h : Accounts g n) {e : Event O} (hn : Moved l e n n') (hknown : g.known e.obj = true)
    (hsame : (g.apply e).known = g.known)
    (hself : Law ((g.apply e).life e.obj) (n' (.own e.obj)) (n' (.init e.obj))
      ((g.apply e).listed e.obj) (n' (.hold e.obj)) (n' (.removed e.obj)) (n' (.fin e.obj))) :
    Accounts (g.apply e) n' := by
  constructor
  · intro o ho
    by_cases hoe : o = e.obj
    · subst hoe
      exact hself
    · obtain ⟨hlife, hlisted, -⟩ := Ledger.apply_of_ne (g := g) hoe
      rw [hlife, hlisted, hn.other (t := .own o) hoe, hn.other (t := .init o) hoe,
        hn.other (t := .hold o) hoe, hn.other (t := .removed o) hoe, hn.other (t := .fin o) hoe]
      exact h.law o (hsame ▸ ho)
  · intro o ho
    rw [hsame] at ho
    have hoe : o ≠ e.obj := by
      rintro rfl
      simp [ho] at hknown
    obtain ⟨-, hlisted, -⟩ := Ledger.apply_of_ne (g := g) hoe
    refine ⟨hlisted.trans (h.fresh o ho).1, fun t ht => ?_⟩
    rw [hn.other (ht ▸ hoe)]
    exact (h.fresh o ho).2 t ht

theorem malloc (h : Accounts g n) {o : O} (hfresh : g.known o = false)
    (hn : Moved l (.malloc o) n n') : Accounts (g.apply (.malloc o)) n' := by
  have hzero := h.fresh o hfresh
  have hold (t : Ref O) (ht : t.obj = o) : n' t = if t = .own o then 1 else 0 := by
    have := hn t
    simp only [consumed, produced, reduceCtorEq, if_false, Option.some.injEq, hzero.2 t ht] at this
    simpa [eq_comm] using this
  constructor
  · intro p hp
    by_cases hpo : p = o
    · subst hpo
      rw [hold _ rfl, hold _ rfl, hold _ rfl, hold _ rfl, hold _ rfl]
      simpa [Ledger.apply, Ledger.modify, Event.obj, Event.onLife, hzero.1] using Law.malloc
    · obtain ⟨hlife, hlisted, hknown⟩ := Ledger.apply_of_ne (g := g) (e := .malloc o) hpo
      rw [hlife, hlisted, hn.other (t := .own p) hpo, hn.other (t := .init p) hpo,
        hn.other (t := .hold p) hpo, hn.other (t := .removed p) hpo, hn.other (t := .fin p) hpo]
      exact h.law p (hknown ▸ hp)
  · intro p hp
    have hpo : p ≠ o := by
      rintro rfl
      simp [Ledger.apply] at hp
    obtain ⟨-, hlisted, hknown⟩ := Ledger.apply_of_ne (g := g) (e := .malloc o) hpo
    refine ⟨hlisted.trans (h.fresh p (hknown ▸ hp)).1, fun t ht => ?_⟩
    rw [hn.other (show t.obj ≠ _ from ht ▸ hpo)]
    exact (h.fresh p (hknown ▸ hp)).2 t ht

theorem set (h : Accounts g n) {o : O} (hcons : 0 < n (.own o))
    (hn : Moved l (.set o) n n') : Accounts (g.apply (.set o)) n' := by
  have hknown : g.known o = true := h.known_of_pos hcons
  have hlaw := h.law o hknown
  obtain ⟨e1, e2, e3, e4, e5⟩ := hn.counts (x := some (.own o)) (y := some (.init o)) rfl rfl o
  simp only [reduceCtorEq, if_true, if_false, Option.some.injEq, Nat.add_zero] at e1 e2 e3 e4 e5
  refine h.move hn hknown rfl ?_
  simp only [Event.obj, Ledger.apply, Ledger.modify, Function.update_self]
  rw [e2, e3, e4, e5]
  rw [← e1] at hlaw
  exact hlaw.set

theorem insert (h : Accounts g n) {o : O} (hcons : 0 < n (.init o))
    (hn : Moved l (.insert o) n n') : Accounts (g.apply (.insert o)) n' := by
  have hknown : g.known o = true := h.known_of_pos hcons
  have hlaw := h.law o hknown
  obtain ⟨e1, e2, e3, e4, e5⟩ := hn.counts (x := some (.init o)) (y := some (.hold o)) rfl rfl o
  simp only [reduceCtorEq, if_true, if_false, Option.some.injEq, Nat.add_zero] at e1 e2 e3 e4 e5
  refine h.move hn hknown rfl ?_
  simp only [Event.obj, Ledger.apply, Ledger.modify, Ledger.relist, Function.update_self]
  rw [e1, e3, e4, e5]
  rw [← e2] at hlaw
  exact hlaw.insert

theorem get (h : Accounts g n) {o : O} (hlisted : 0 < g.listed o)
    (hn : Moved l (.get o) n n') : Accounts (g.apply (.get o)) n' := by
  have hknown : g.known o = true := h.known_of_listed hlisted
  have hlaw := h.law o hknown
  obtain ⟨e1, e2, e3, e4, e5⟩ := hn.counts (x := none) (y := some (.hold o)) rfl rfl o
  simp only [reduceCtorEq, if_true, if_false, Option.some.injEq, Nat.add_zero] at e1 e2 e3 e4 e5
  refine h.move hn hknown rfl ?_
  simp only [Event.obj, Ledger.apply, Ledger.modify, Function.update_self]
  rw [e1, e2, e3, e4, e5]
  exact hlaw.get hlisted

theorem remove (h : Accounts g n) {o : O} (hlisted : 0 < g.listed o)
    (hn : Moved l (.remove o) n n') : Accounts (g.apply (.remove o)) n' := by
  have hknown : g.known o = true := h.known_of_listed hlisted
  have hlaw := h.law o hknown
  obtain ⟨e1, e2, e3, e4, e5⟩ := hn.counts (x := none) (y := some (.removed o)) rfl rfl o
  simp only [reduceCtorEq, if_true, if_false, Option.some.injEq, Nat.add_zero] at e1 e2 e3 e4 e5
  refine h.move hn hknown rfl ?_
  simp only [Event.obj, Ledger.apply, Ledger.relist, Ledger.modify, Event.onLife,
    Function.update_self]
  rw [e1, e2, e3, e4, e5]
  rw [show g.listed o = g.listed o - 1 + 1 by omega] at hlaw
  exact hlaw.remove

theorem put (h : Accounts g n) {o : O} {zero : Bool} {t : Ref O}
    (hzero : zero = decide ((g.life o).opsCnt - 1 = 0)) (hused : consumed l (.put o zero) = some t)
    (hcons : 0 < n t) (hn : Moved l (.put o zero) n n') :
    Accounts (g.apply (.put o zero)) n' := by
  have hobj : t.obj = o := obj_of_consumed hused
  have hknown : g.known o = true := hobj ▸ h.known_of_pos hcons
  have hlaw := h.law o hknown
  have hfin (u : Ref O) (hu : u ≠ .fin o) : ¬ produced (.put o zero) = some u := by
    simp only [produced]
    split_ifs
    · exact fun he => hu (Option.some.inj he).symm
    · exact nofun
  have hif : (if produced (.put o zero) = some (.fin o) then 1 else 0) =
      if (g.life o).opsCnt - 1 = 0 then 1 else 0 := by
    subst hzero
    simp only [produced, decide_eq_true_eq]
    split_ifs <;> simp_all
  obtain ⟨e1, e2, e3, e4, e5⟩ := hn.counts hused rfl o
  rw [if_neg (hfin _ (by simp)), Nat.add_zero] at e1 e2 e3 e4
  rw [hif] at e5
  refine h.move hn hknown rfl ?_
  simp only [Event.obj, Ledger.apply, Ledger.modify, Function.update_self]
  simp only [consumed] at hused
  split_ifs at hused
  all_goals
    obtain rfl := Option.some.inj hused
    simp only [reduceCtorEq, if_true, if_false, Option.some.injEq, Nat.add_zero] at e1 e2 e3 e4 e5
  · rw [e1, e2, e3, e5]
    rw [← e4] at hlaw
    exact hlaw.putRemoved
  · rw [e1, e2, e4, e5]
    rw [← e3] at hlaw
    exact hlaw.putHold

theorem discard (h : Accounts g n) {o : O} {t : Ref O} (hused : consumed l (.discard o) = some t)
    (hcons : 0 < n t) (hn : Moved l (.discard o) n n') : Accounts (g.apply (.discard o)) n' := by
  have hobj : t.obj = o := obj_of_consumed hused
  have hknown : g.known o = true := hobj ▸ h.known_of_pos hcons
  have hlaw := h.law o hknown
  obtain ⟨e1, e2, e3, e4, e5⟩ := hn.counts (y := none) hused rfl o
  refine h.move hn hknown rfl ?_
  simp only [Event.obj, Ledger.apply, Ledger.modify, Function.update_self]
  simp only [consumed] at hused
  split_ifs at hused
  all_goals
    obtain rfl := Option.some.inj hused
    simp only [reduceCtorEq, if_true, if_false, Option.some.injEq, Nat.add_zero] at e1 e2 e3 e4 e5
  · rw [e2, e3, e4, e5]
    rw [← e1] at hlaw
    exact hlaw.discardOwn
  · rw [e1, e3, e4, e5]
    rw [← e2] at hlaw
    exact hlaw.discardInit

theorem free (h : Accounts g n) {o : O} (hcons : 0 < n (.fin o))
    (hn : Moved l (.free o) n n') : Accounts (g.apply (.free o)) n' := by
  have hknown : g.known o = true := h.known_of_pos hcons
  have hlaw := h.law o hknown
  obtain ⟨e1, e2, e3, e4, e5⟩ := hn.counts (x := some (.fin o)) (y := none) rfl rfl o
  simp only [reduceCtorEq, if_true, if_false, Option.some.injEq, Nat.add_zero] at e1 e2 e3 e4 e5
  refine h.move hn hknown rfl ?_
  simp only [Event.obj, Ledger.apply, Ledger.modify, Function.update_self]
  rw [e1, e2, e3, e4]
  rw [← e5] at hlaw
  exact hlaw.free

theorem drop (h : Accounts g n) {o : O} (hallows : g.Allows (.drop o)) (hcons : 0 < n (.hold o))
    (hn : Moved l (.drop o) n n') : Accounts (g.apply (.drop o)) n' := by
  have hknown : g.known o = true := h.known_of_pos hcons
  have hlaw := h.law o hknown
  obtain ⟨e1, e2, e3, e4, e5⟩ := hn.counts (x := some (.hold o)) (y := none) rfl rfl o
  simp only [reduceCtorEq, if_true, if_false, Option.some.injEq, Nat.add_zero] at e1 e2 e3 e4 e5
  refine h.move hn hknown rfl ?_
  simp only [Event.obj, Ledger.apply, Ledger.modify, Function.update_self]
  rw [e1, e2, e4, e5]
  rw [← e3] at hlaw
  exact hlaw.drop hallows

theorem step (h : Accounts g n) {e : Event O} (hallows : g.Allows e)
    (hcons : ∀ t, consumed l e = some t → 0 < n t) (hn : Moved l e n n') :
    Accounts (g.apply e) n' := by
  cases e with
  | malloc o => exact h.malloc hallows hn
  | set o => exact h.set (hcons _ rfl) hn
  | insert o => exact h.insert (hcons _ rfl) hn
  | get o => exact h.get hallows hn
  | remove o => exact h.remove hallows hn
  | put o zero =>
    obtain ⟨t, ht⟩ : ∃ t, consumed l (.put o zero) = some t := by
      simp only [consumed]
      split_ifs <;> simp
    exact h.put hallows ht (hcons t ht) hn
  | discard o =>
    obtain ⟨t, ht⟩ : ∃ t, consumed l (.discard o) = some t := by
      simp only [consumed]
      split_ifs <;> simp
    exact h.discard ht (hcons t ht) hn
  | free o => exact h.free (hcons _ rfl) hn
  | drop o => exact h.drop hallows (hcons _ rfl) hn

end Accounts

section Calls

def refsOf (ls : List (List (Ref O))) (t : Ref O) : Nat := total (·.count t) ls

@[simp] theorem refsOf_nil (t : Ref O) : refsOf [] t = 0 := rfl

@[simp] theorem refsOf_append_nil (ls : List (List (Ref O))) : refsOf (ls ++ [[]]) = refsOf ls := by
  funext t
  simp [refsOf]

theorem refsOf_pos {ls : List (List (Ref O))} {t : Ref O} :
    0 < refsOf ls t ↔ ∃ l ∈ ls, t ∈ l := by
  rw [refsOf, Nat.pos_iff_ne_zero, Ne, total_eq_zero]
  simp [List.count_eq_zero]

theorem moved_refsOf {ls : List (List (Ref O))} {i : Nat} {l : List (Ref O)} {e : Event O}
    (hi : ls[i]? = some l) (h : ∀ t, consumed l e = some t → t ∈ l) :
    Moved l e (refsOf ls) (refsOf (ls.set i (upd l e))) := by
  intro t
  have htotal := total_set (fun l : List (Ref O) => l.count t) hi (upd l e)
  have hcount := moved_upd h t
  simp only [refsOf] at htotal hcount ⊢
  omega

def Ref.exclusive : Ref O → Bool
  | .own _ | .init _ | .fin _ => true
  | .hold _ | .removed _ => false

def refsTo (o : O) (l : List (Ref O)) : Nat :=
  l.count (.own o) + l.count (.init o) + l.count (.hold o) + l.count (.removed o) +
    l.count (.fin o)

theorem refsTo_pos {l : List (Ref O)} {t : Ref O} (ht : t ∈ l) : 0 < refsTo t.obj l := by
  have := List.count_pos_iff.mpr ht
  cases t <;> simp only [refsTo, Ref.obj] <;> omega

theorem total_refsTo (o : O) (ls : List (List (Ref O))) :
    total (refsTo o) ls = refsOf ls (.own o) + refsOf ls (.init o) + refsOf ls (.hold o) +
      refsOf ls (.removed o) + refsOf ls (.fin o) := by
  induction ls with
  | nil => rfl
  | cons l ls ih =>
    simp only [total, refsOf, List.map_cons, List.sum_cons] at ih ⊢
    simp only [refsTo] at ih ⊢
    omega

theorem Accounts.not_exclusive {g : Ledger O} {ls : List (List (Ref O))}
    (h : Accounts g (refsOf ls)) {i j : Nat} {l l' : List (Ref O)} (hij : i ≠ j)
    (hi : ls[i]? = some l) (hj : ls[j]? = some l') {t t' : Ref O} (ht : t ∈ l) (ht' : t' ∈ l')
    (hobj : t'.obj = t.obj) : t.exclusive = false := by
  have htwo : 2 ≤ total (refsTo t.obj) ls := by
    have h1 := refsTo_pos ht
    have h2 := refsTo_pos ht'
    rw [hobj] at h2
    have := add_le_total (refsTo t.obj) hij hi hj
    omega
  rw [total_refsTo] at htwo
  have hpos : 0 < refsOf ls t := refsOf_pos.mpr ⟨l, List.mem_of_getElem? hi, ht⟩
  have hlaw := h.law t.obj (h.known_of_pos hpos)
  have hstage := hlaw.stage
  have halone := hlaw.alone
  cases t with
  | hold o | removed o => rfl
  | own o | init o | fin o =>
    simp only [Ref.obj] at htwo hstage halone hpos
    have := halone (by omega)
    omega

theorem accounts_nil {g : Ledger O} (hknown : ∀ o, g.known o = false)
    (hlisted : ∀ o, g.listed o = 0) :
    Accounts g (refsOf []) where
  law o ho := nomatch (hknown o).symm.trans ho
  fresh o _ := ⟨hlisted o, fun _ _ => rfl⟩

theorem refsOf_eq_countP {ls : List (List (Ref O))} (h : ∀ l ∈ ls, l.length ≤ 1) (t : Ref O) :
    refsOf ls t = ls.countP (t ∈ ·) := by
  induction ls with
  | nil => rfl
  | cons l ls ih =>
    have hhead : l.count t = if t ∈ l then 1 else 0 := by
      have hlen := h l List.mem_cons_self
      by_cases ht : t ∈ l
      · have hpos := List.count_pos_iff.mpr ht
        have hle := List.count_le_length (a := t) (l := l)
        rw [if_pos ht]
        omega
      · rw [if_neg ht, List.count_eq_zero.mpr ht]
    have htail := ih fun l hl => h l (List.mem_cons_of_mem _ hl)
    simp only [refsOf, total, List.map_cons, List.sum_cons, List.countP_cons,
      decide_eq_true_eq] at htail hhead ⊢
    omega

theorem countP_or_of_single {ls : List (List (Ref O))} (h : ∀ l ∈ ls, l.length ≤ 1) {t t' : Ref O}
    (ht : t ≠ t') :
    ls.countP (t ∈ ·) + ls.countP (t' ∈ ·) = ls.countP fun l => t ∈ l ∨ t' ∈ l := by
  induction ls with
  | nil => rfl
  | cons l ls ih =>
    have hboth : ¬ (t ∈ l ∧ t' ∈ l) := by
      rintro ⟨h1, h2⟩
      have hlen := h l List.mem_cons_self
      obtain ⟨x, rfl⟩ := List.length_eq_one_iff.mp
        (le_antisymm hlen (List.length_pos_of_mem h1))
      exact ht ((List.mem_singleton.mp h1).trans (List.mem_singleton.mp h2).symm)
    have htail := ih fun l hl => h l (List.mem_cons_of_mem _ hl)
    simp only [List.countP_cons, decide_eq_true_eq]
    split_ifs <;> first | omega | tauto

theorem Accounts.follows {g g' : Ledger O} {ls : List (List (Ref O))} {i : Nat}
    {l : List (Ref O)} {es : List (Event O)} (h : Accounts g (refsOf ls)) (hi : ls[i]? = some l)
    (hfollows : g.Follows es g') (hcov : Covered l es) :
    Accounts g' (refsOf (ls.set i (updAll l es))) := by
  induction es generalizing g ls l with
  | nil =>
    obtain rfl := hfollows
    obtain ⟨hlt, rfl⟩ := List.getElem?_eq_some_iff.mp hi
    rwa [updAll_nil, List.set_getElem_self hlt]
  | cons e es ih =>
    have hcons t (ht : consumed l e = some t) : 0 < refsOf ls t :=
      refsOf_pos.mpr ⟨l, List.mem_of_getElem? hi, hcov.1 t ht⟩
    have hone := h.step hfollows.1 hcons (moved_refsOf hi hcov.1)
    have hlt := (List.getElem?_eq_some_iff.mp hi).1
    have hi' : (ls.set i (upd l e))[i]? = some (upd l e) := by simp [hlt]
    have hrest := ih hone hi' hfollows.2 hcov.2
    rwa [List.set_set] at hrest

/-- What is not freed is in the list, or a call refers to it. -/
theorem Accounts.listed_or_ref {g : Ledger O} {ls : List (List (Ref O))} {o : O}
    (h : Accounts g (refsOf ls)) (hknown : g.known o = true) (hfrees : (g.life o).frees = 0) :
    0 < g.listed o ∨ ∃ l ∈ ls, ∃ t ∈ l, t.obj = o := by
  by_contra! hnone
  have hn (t : Ref O) (ht : t.obj = o) : refsOf ls t = 0 := by
    by_contra hpos
    obtain ⟨l, hl, htl⟩ := refsOf_pos.mp (Nat.pos_of_ne_zero hpos)
    exact hnone.2 l hl t htl ht
  have := h.frees_eq_one hn hknown (by omega)
  omega

end Calls

end RefCount
