import Mathlib.Tactic
import TeeClient.Vendor.Lifetime
import TeeClient.Vendor.SharedMemoryLaws

/-! What the critical sections of `World` mean for the sessions and the shared-memory blocks as
counted objects. -/

namespace TeeClient.Vendor

open RefCount

inductive Shared
  | session (c n : Nat)
  | shm (c b : Nat)
  deriving DecidableEq

def Shared.context : Shared → Nat
  | .session c _ | .shm c _ => c

def lifeOf (opsCnt frees : Nat) (wasListed : Bool) : Life where
  opsCnt
  frees
  wasListed
  finalized := if wasListed = true then frees else 0

variable {P : Type}

namespace Objects

def known (s : Objects P) : Shared → Bool
  | .session c n => decide (n < s.nextSession ∧ (s.session n).home = c)
  | .shm c b => decide (b < (s.shm c).nextId)

def life (s : Objects P) : Shared → Life
  | .session _ n =>
    lifeOf (s.session n).opsCnt (s.session n).frees (s.session n).wasListed
  | .shm c b =>
    lifeOf ((s.findShm c b).elim 0 (·.opsCnt)) (s.shmFate c b).frees (s.shmFate c b).wasListed

def listed (s : Objects P) : Shared → Nat
  | .session c n => (s.sessionList c).count n
  | .shm c b => if (s.findShm c b).any (·.listed) then 1 else 0

def ledger (s : Objects P) : Ledger Shared where
  known := s.known
  life o := if s.known o then s.life o else lifeOf 0 0 false
  listed := s.listed

end Objects

def objEvents [Zero P] (l : List (Ref Shared)) : (a : ObjAct P) → ObjResp a → List (Event Shared)
  | .mallocSession c, r => (Option.toList r).map fun n => .malloc (.session c n)
  | .addSessionList c n _, _ => [.set (.session c n), .insert (.session c n)]
  | .getBnSession c _, r => (Option.toList r).map fun n => .get (.session c n)
  | .findAndRemoveSession c _, r => (Option.toList r).map fun n => .remove (.session c n)
  | .takeSessions c, r => List.map (fun n => .remove (.session c n)) r
  | .atomDecSession c n, r => [.put (.session c n) r]
  | .freeSession c n, _ =>
    if .own (.session c n) ∈ l then [.discard (.session c n)] else [.drop (.session c n)]
  | .releaseSession c n, _ => [.free (.session c n)]
  | .mallocShm c, b => [.malloc (.shm c b)]
  | .insertShm c b _ _ _, _ => [.set (.shm c b), .insert (.shm c b)]
  | .getBnShmByOffset c _, r => (Option.toList r).map fun shm => .get (.shm c shm.id)
  | .findAndRemoveShrMem c _ _, r => (Option.toList r).map fun b => .remove (.shm c b)
  | .takeShms c, r => List.map (fun b => .remove (.shm c b)) r
  | .unlinkShm c b, _ => [.remove (.shm c b)]
  | .atomDecShm c b, r => [.put (.shm c b) r]
  | .freeShm c b, _ => [.discard (.shm c b)]
  | .releaseShm c b, _ => [.free (.shm c b)]
  | _, _ => []

section Tidy

variable {s : Objects P} {c b : Nat}

/-- The blocks of every context have numbers of their own, and they are the ones that have been
in the list and are not freed. -/
structure Objects.Tidy (s : Objects P) : Prop where
  ids : ∀ c, (s.shm c).blocks.Pairwise (·.id ≠ ·.id)
  present : ∀ c b, (s.findShm c b).isSome = true ↔
    b < (s.shm c).nextId ∧ (s.shmFate c b).wasListed = true ∧ (s.shmFate c b).frees = 0

theorem findShm_id {x : SharedMemoryInner P} (h : s.findShm c b = some x) : x.id = b := by
  simpa using List.find?_some h

theorem listed_eq_one {x : SharedMemoryInner P} (h : s.findShm c b = some x)
    (hx : x.listed = true) : s.listed (.shm c b) = 1 := by
  simp [Objects.listed, h, hx]

theorem findShm_of_listed (h : 0 < s.listed (.shm c b)) :
    ∃ x, s.findShm c b = some x ∧ x.listed = true := by
  cases hfind : s.findShm c b with
  | none => simp [Objects.listed, hfind] at h
  | some x =>
    refine ⟨x, rfl, ?_⟩
    by_contra hx
    simp [Objects.listed, hfind, hx] at h

theorem listed_le_one : s.listed (.shm c b) ≤ 1 := by
  simp only [Objects.listed]
  split_ifs <;> omega

theorem Objects.Tidy.findShm_of_mem (h : s.Tidy) {x : SharedMemoryInner P}
    (hx : x ∈ (s.shm c).shrdMemList) : s.findShm c x.id = some x ∧ x.listed = true := by
  obtain ⟨hmem, hlisted⟩ := List.mem_filter.mp hx
  exact ⟨ShmTable.find?_id (h.ids c) hmem, hlisted⟩

theorem Objects.Tidy.mem_shrdMemList (h : s.Tidy) :
    b ∈ (s.shm c).shrdMemList.map (·.id) ↔ 0 < s.listed (.shm c b) := by
  constructor
  · intro hb
    obtain ⟨x, hx, rfl⟩ := List.mem_map.mp hb
    obtain ⟨hfind, hlisted⟩ := h.findShm_of_mem hx
    rw [listed_eq_one hfind hlisted]
    exact Nat.one_pos
  · intro hb
    obtain ⟨x, hfind, hlisted⟩ := findShm_of_listed hb
    refine List.mem_map.mpr ⟨x, List.mem_filter.mpr ⟨?_, hlisted⟩, findShm_id hfind⟩
    exact List.mem_of_find?_eq_some hfind

theorem Objects.Tidy.count_shrdMemList (h : s.Tidy) :
    ((s.shm c).shrdMemList.map (·.id)).count b = s.listed (.shm c b) := by
  have hnodup : ((s.shm c).shrdMemList.map (·.id)).Nodup := by
    rw [List.Nodup, List.pairwise_map]
    exact (h.ids c).sublist List.filter_sublist
  have hmem := h.mem_shrdMemList (c := c) (b := b)
  have hle := listed_le_one (s := s) (c := c) (b := b)
  by_cases hb : b ∈ (s.shm c).shrdMemList.map (·.id)
  · have := hmem.mp hb
    rw [List.count_eq_one_of_mem hnodup hb]
    omega
  · have : ¬ 0 < s.listed (.shm c b) := fun hpos => hb (hmem.mpr hpos)
    rw [List.count_eq_zero.mpr hb]
    omega

theorem find?_modify {f : SharedMemoryInner P → SharedMemoryInner P} (hf : ∀ x, (f x).id = x.id)
    (t : ShmTable P) (d : Nat) :
    (t.modify b f).blocks.find? (·.id = d) =
      if d = b then (t.blocks.find? (·.id = d)).map f else t.blocks.find? (·.id = d) := by
  have hid (x : SharedMemoryInner P) : (if x.id = b then f x else x).id = x.id := by
    split_ifs <;> simp [hf]
  simp only [ShmTable.modify, List.find?_map, Function.comp_def, hid]
  cases hfind : t.blocks.find? (·.id = d) with
  | none => simp
  | some x =>
    have hx : x.id = d := by simpa using List.find?_some hfind
    by_cases hd : d = b <;> simp [hx, hd]

theorem ids_modify {f : SharedMemoryInner P → SharedMemoryInner P} (hf : ∀ x, (f x).id = x.id)
    {t : ShmTable P} (h : t.blocks.Pairwise (·.id ≠ ·.id)) :
    (t.modify b f).blocks.Pairwise (·.id ≠ ·.id) := by
  have hid (x : SharedMemoryInner P) : (if x.id = b then f x else x).id = x.id := by
    split_ifs <;> simp [hf]
  rw [ShmTable.modify, List.pairwise_map]
  simpa only [hid] using h

end Tidy

section Tables

variable {s : Objects P} {c b : Nat}

theorem findShm_setShm {d : Nat} {t : ShmTable P} :
    (s.setShm c t).findShm d b = if d = c then t.blocks.find? (·.id = b) else s.findShm d b := by
  by_cases hd : d = c
  · subst hd
    simp [Objects.findShm, Objects.setShm]
  · simp [Objects.findShm, Objects.setShm, hd]

theorem shmFate_setFate {d e : Nat} (fate : ShmFate) :
    (s.setFate c b fate).shmFate d e = if d = c ∧ e = b then fate else s.shmFate d e := by
  by_cases hd : d = c
  · subst hd
    by_cases he : e = b
    · subst he
      simp [Objects.setFate]
    · simp [Objects.setFate, he]
  · simp [Objects.setFate, hd]

theorem nextId_setShm {d : Nat} {t : ShmTable P} :
    ((s.setShm c t).shm d).nextId = if d = c then t.nextId else (s.shm d).nextId := by
  by_cases hd : d = c
  · subst hd
    simp [Objects.setShm]
  · simp [Objects.setShm, hd]

theorem ids_setShm {t : ShmTable P} (h : s.Tidy) (ht : t.blocks.Pairwise (·.id ≠ ·.id)) (d : Nat) :
    ((s.setShm c t).shm d).blocks.Pairwise (·.id ≠ ·.id) := by
  by_cases hd : d = c
  · subst hd
    simpa [Objects.setShm] using ht
  · simpa [Objects.setShm, hd] using h.ids d

theorem Objects.Tidy.setShm {t : ShmTable P} (h : s.Tidy) (hnext : t.nextId = (s.shm c).nextId)
    (hids : t.blocks.Pairwise (·.id ≠ ·.id))
    (hsome : ∀ b, (t.blocks.find? (·.id = b)).isSome = (s.findShm c b).isSome) :
    (s.setShm c t).Tidy := by
  refine ⟨ids_setShm h hids, fun d b => ?_⟩
  rw [findShm_setShm, nextId_setShm]
  split_ifs with hd
  · rw [hd, hsome, hnext]
    exact h.present c b
  · exact h.present d b

theorem Objects.Tidy.modify {f : SharedMemoryInner P → SharedMemoryInner P} (h : s.Tidy)
    (hf : ∀ x, (f x).id = x.id) : (s.setShm c ((s.shm c).modify b f)).Tidy := by
  refine h.setShm rfl (ids_modify hf (h.ids c)) fun d => ?_
  rw [find?_modify hf]
  split_ifs
  · rw [Option.isSome_map]
    rfl
  · rfl

end Tables

section Changes

variable {s s' s'' : Objects P} {o : Shared} {x y : Life} {k k' : Nat}

structure Changes (s s' : Objects P) (o : Shared) (x : Life) (k : Nat) : Prop where
  known : s'.known = s.known
  life : s'.life o = x
  listed : s'.listed o = k
  others : ∀ p ≠ o, s.known p = true → s'.life p = s.life p
  lists : ∀ p ≠ o, s'.listed p = s.listed p

theorem Changes.trans (h : Changes s s' o x k) (h' : Changes s' s'' o y k') :
    Changes s s'' o y k' := by
  refine ⟨h'.known.trans h.known, h'.life, h'.listed, fun p hp hk => ?_, fun p hp => ?_⟩
  · exact (h'.others p hp (h.known ▸ hk)).trans (h.others p hp hk)
  · exact (h'.lists p hp).trans (h.lists p hp)

theorem Changes.ledger (h : Changes s s' o x k) (ho : s.known o = true) :
    s'.ledger = {
      known := s.known
      life := Function.update s.ledger.life o x
      listed := Function.update s.ledger.listed o k } := by
  have hlife : s'.ledger.life = Function.update s.ledger.life o x := by
    funext p
    by_cases hp : p = o
    · subst hp
      simp [Objects.ledger, h.known, ho, h.life]
    · by_cases hk : s.known p = true
      · simp [Objects.ledger, h.known, hp, hk, h.others p hp hk]
      · simp [Objects.ledger, h.known, hp, hk]
  have hlisted : s'.ledger.listed = Function.update s.ledger.listed o k := by
    funext p
    by_cases hp : p = o
    · subst hp
      simp [Objects.ledger, h.listed]
    · simp [Objects.ledger, hp, h.lists p hp]
  have hknown : s'.ledger.known = s.known := h.known
  rw [← hlife, ← hlisted, ← hknown]

theorem ledger_life (ho : s.known o = true) : s.ledger.life o = s.life o := by
  simp [Objects.ledger, ho]

theorem Changes.apply {e : Event Shared} (h : Changes s s' e.obj x k)
    (he : ∀ o, e ≠ .malloc o) (ho : s.known e.obj = true) (hx : x = e.onLife (s.life e.obj))
    (hk : k = e.onListed (s.listed e.obj)) : s'.ledger = s.ledger.apply e := by
  rw [h.ledger ho, Ledger.apply_eq he, ledger_life ho, hx, hk]
  rfl

theorem Changes.insert (h : Changes s s' o x k) (ho : s.known o = true)
    (hx : x = { s.life o with opsCnt := 2, wasListed := true }) (hk : k = s.listed o + 1) :
    s'.ledger = (s.ledger.apply (.set o)).apply (.insert o) := by
  rw [h.ledger ho, Ledger.apply_eq (by simp), Ledger.apply_eq (by simp), hx, hk]
  simp only [Event.obj, Event.onLife, Event.onListed, Function.update_self, Function.update_idem,
    ledger_life ho]
  simp [Objects.ledger]

theorem Objects.ledger_malloc (hknown : ∀ p, s'.known p = Function.update s.known o true p)
    (ho : s'.life o = lifeOf 0 0 false) (hlife : ∀ p, s.known p = true → s'.life p = s.life p)
    (hlisted : s'.listed = s.listed) : s'.ledger = s.ledger.apply (.malloc o) := by
  have hnew : s'.ledger.life = Function.update s.ledger.life o (lifeOf 0 0 false) := by
    funext p
    by_cases hp : p = o
    · subst hp
      simp [Objects.ledger, hknown, ho]
    · by_cases hk : s.known p = true
      · simp [Objects.ledger, hknown, hp, hk, hlife p hk]
      · simp [Objects.ledger, hknown, hp, hk]
  have hknown' : s'.ledger.known = Function.update s.ledger.known o true := funext hknown
  have hlisted' : s'.ledger.listed = s.ledger.listed := hlisted
  have happly : s.ledger.apply (.malloc o) = {
      known := Function.update s.ledger.known o true
      life := Function.update s.ledger.life o (lifeOf 0 0 false)
      listed := s.ledger.listed } := rfl
  rw [happly, ← hknown', ← hnew, ← hlisted']

theorem Objects.ledger_congr (hknown : s'.known = s.known)
    (hlife : ∀ p, s.known p = true → s'.life p = s.life p) (hlisted : s'.listed = s.listed) :
    s'.ledger = s.ledger := by
  have hsame : s'.ledger.life = s.ledger.life := by
    funext p
    by_cases hk : s.known p = true
    · simp [Objects.ledger, hknown, hk, hlife p hk]
    · simp [Objects.ledger, hknown, hk]
  simp only [Objects.ledger, hknown, hlisted] at hsame ⊢
  rw [hsame]

end Changes

section Sessions

variable {s : Objects P} {c n : Nat}

theorem home_eq (h : s.known (.session c n) = true) : (s.session n).home = c := by
  simp only [Objects.known, decide_eq_true_eq] at h
  exact h.2

theorem changes_modifySession {f : Session → Session} (hf : ∀ x, (f x).home = x.home)
    (hk : s.known (.session c n) = true) :
    Changes s (s.modifySession n f) (.session c n)
      (lifeOf (f (s.session n)).opsCnt (f (s.session n)).frees (f (s.session n)).wasListed)
      (s.listed (.session c n)) := by
  have hother (m : Nat) (hm : m ≠ n) : (s.modifySession n f).session m = s.session m := by
    simp [Objects.modifySession, hm]
  have hself : (s.modifySession n f).session n = f (s.session n) := by
    simp [Objects.modifySession]
  refine ⟨?_, ?_, rfl, fun p hp hk' => ?_, fun p _ => ?_⟩
  · funext p
    cases p with
    | shm d b => rfl
    | session d m =>
      by_cases hm : m = n
      · subst hm
        simp only [Objects.known, hself, hf]
        rfl
      · simp only [Objects.known, hother m hm]
        rfl
  · simp only [Objects.life, hself]
  · cases p with
    | shm d b => rfl
    | session d m =>
      have hm : m ≠ n := by
        rintro rfl
        rw [← home_eq hk, ← home_eq hk'] at hp
        exact hp rfl
      simp only [Objects.life, hother m hm]
  · cases p <;> rfl

theorem changes_setSessionList (ms : List Nat)
    (h : ∀ m ≠ n, ms.count m = (s.sessionList c).count m) :
    Changes s (s.setSessionList c ms) (.session c n) (s.life (.session c n)) (ms.count n) := by
  refine ⟨?_, rfl, by simp [Objects.listed, Objects.setSessionList], fun p _ _ => ?_,
    fun p hp => ?_⟩
  · funext p
    cases p <;> rfl
  · cases p <;> rfl
  · cases p with
    | shm d b => rfl
    | session d m =>
      by_cases hd : d = c
      · subst hd
        have hm : m ≠ n := fun hm => hp (hm ▸ rfl)
        simpa [Objects.listed, Objects.setSessionList] using h m hm
      · simp [Objects.listed, Objects.setSessionList, hd]

theorem ledger_mallocSession :
    (s.mallocSession c).ledger = s.ledger.apply (.malloc (.session c s.nextSession)) := by
  have hold (m : Nat) (hm : m < s.nextSession) : (s.mallocSession c).session m = s.session m := by
    simp [Objects.mallocSession, hm.ne]
  have hself : (s.mallocSession c).session s.nextSession =
      { sessionId := 0, opsCnt := 0, home := c, frees := 0, wasListed := false } := by
    simp [Objects.mallocSession]
  have hnext : (s.mallocSession c).nextSession = s.nextSession + 1 := rfl
  refine Objects.ledger_malloc (fun p => ?_) ?_ (fun p hp => ?_) ?_
  · cases p with
    | shm d b =>
      rw [Function.update_of_ne (by simp)]
      rfl
    | session d m =>
      rcases lt_trichotomy m s.nextSession with hm | rfl | hm
      · have hlt : m < s.nextSession + 1 := by omega
        simp [Objects.known, hold m hm, hnext, hm, hlt, hm.ne]
      · by_cases hd : d = c
        · subst hd
          simp [Objects.known, hself, hnext]
        · simp [Objects.known, hself, hnext, hd, Ne.symm hd]
      · have hle : ¬ m < s.nextSession + 1 := by omega
        have hle' : ¬ m < s.nextSession := by omega
        simp [Objects.known, hnext, hle, hle', hm.ne']
  · simp only [Objects.life, hself]
  · cases p with
    | shm d b => rfl
    | session d m =>
      simp only [Objects.known, decide_eq_true_eq] at hp
      simp only [Objects.life, hold m hp.1]
  · funext p
    cases p <;> rfl

end Sessions

section Tables

variable {s : Objects P} {c b : Nat}

theorem changes_setShm {t : ShmTable P} (hnext : t.nextId = (s.shm c).nextId)
    (hother : ∀ d ≠ b, t.blocks.find? (·.id = d) = s.findShm c d) :
    Changes s (s.setShm c t) (.shm c b)
      (lifeOf ((t.blocks.find? (·.id = b)).elim 0 (·.opsCnt)) (s.shmFate c b).frees
        (s.shmFate c b).wasListed)
      (if (t.blocks.find? (·.id = b)).any (·.listed) then 1 else 0) := by
  have hself (d : Nat) : (s.setShm c t).findShm c d = t.blocks.find? (·.id = d) := by
    simp [Objects.findShm, Objects.setShm]
  have hctx (d e : Nat) (hd : d ≠ c) : (s.setShm c t).findShm d e = s.findShm d e := by
    simp [Objects.findShm, Objects.setShm, hd]
  have hsame (d e : Nat) (hp : Shared.shm d e ≠ .shm c b) :
      (s.setShm c t).findShm d e = s.findShm d e := by
    by_cases hd : d = c
    · subst hd
      rw [hself]
      exact hother e fun he => hp (he ▸ rfl)
    · exact hctx d e hd
  refine ⟨?_, ?_, ?_, fun p hp _ => ?_, fun p hp => ?_⟩
  · funext p
    cases p with
    | session d m => rfl
    | shm d e =>
      by_cases hd : d = c
      · subst hd
        simp [Objects.known, Objects.setShm, hnext]
      · simp [Objects.known, Objects.setShm, hd]
  · simp only [Objects.life, hself]
    rfl
  · simp only [Objects.listed, hself]
  · cases p with
    | session d m => rfl
    | shm d e =>
      simp only [Objects.life, hsame d e hp]
      rfl
  · cases p with
    | session d m => rfl
    | shm d e => simp only [Objects.listed, hsame d e hp]

theorem changes_setFate (fate : ShmFate) :
    Changes s (s.setFate c b fate) (.shm c b)
      (lifeOf ((s.findShm c b).elim 0 (·.opsCnt)) fate.frees fate.wasListed)
      (s.listed (.shm c b)) := by
  have hself : (s.setFate c b fate).shmFate c b = fate := by simp [Objects.setFate]
  have hother (d e : Nat) (hp : Shared.shm d e ≠ .shm c b) :
      (s.setFate c b fate).shmFate d e = s.shmFate d e := by
    by_cases hd : d = c
    · subst hd
      have he : e ≠ b := fun he => hp (he ▸ rfl)
      simp [Objects.setFate, he]
    · simp [Objects.setFate, hd]
  refine ⟨?_, ?_, rfl, fun p hp _ => ?_, fun p _ => ?_⟩
  · funext p
    cases p <;> rfl
  · simp only [Objects.life, hself]
    rfl
  · cases p with
    | session d m => rfl
    | shm d e =>
      simp only [Objects.life, hother d e hp]
      rfl
  · cases p <;> rfl

theorem changes_modifyShm {f : SharedMemoryInner P → SharedMemoryInner P}
    (hf : ∀ x, (f x).id = x.id) :
    Changes s (s.setShm c ((s.shm c).modify b f)) (.shm c b)
      (lifeOf (((s.findShm c b).map f).elim 0 (·.opsCnt)) (s.shmFate c b).frees
        (s.shmFate c b).wasListed)
      (if ((s.findShm c b).map f).any (·.listed) then 1 else 0) := by
  have h := changes_setShm (s := s) (c := c) (b := b) (t := (s.shm c).modify b f) rfl
    fun d hd => by rw [find?_modify hf, if_neg hd, Objects.findShm]
  rw [find?_modify hf, if_pos rfl] at h
  exact h

theorem ledger_mallocShm (hfresh : s.findShm c (s.shm c).nextId = none) :
    (s.mallocShm c).ledger = s.ledger.apply (.malloc (.shm c (s.shm c).nextId)) := by
  have hfind (d e : Nat) : (s.mallocShm c).findShm d e = s.findShm d e := by
    by_cases hd : d = c
    · subst hd
      simp [Objects.mallocShm, Objects.findShm, Objects.setShm, Objects.setFate]
    · simp [Objects.mallocShm, Objects.findShm, Objects.setShm, Objects.setFate, hd]
  have hfate (d e : Nat) (hp : Shared.shm d e ≠ .shm c (s.shm c).nextId) :
      (s.mallocShm c).shmFate d e = s.shmFate d e := by
    by_cases hd : d = c
    · subst hd
      have he : e ≠ (s.shm d).nextId := fun he => hp (he ▸ rfl)
      simp [Objects.mallocShm, Objects.setShm, Objects.setFate, he]
    · simp [Objects.mallocShm, Objects.setShm, Objects.setFate, hd]
  refine Objects.ledger_malloc (fun p => ?_) ?_ (fun p hp => ?_) ?_
  · cases p with
    | session d m =>
      rw [Function.update_of_ne (by simp)]
      rfl
    | shm d e =>
      by_cases hd : d = c
      · subst hd
        by_cases he : e = (s.shm d).nextId
        · subst he
          simp [Objects.known, Objects.mallocShm, Objects.setShm, Objects.setFate]
        · have hiff : e < (s.shm d).nextId + 1 ↔ e < (s.shm d).nextId := by omega
          simp [Objects.known, Objects.mallocShm, Objects.setShm, Objects.setFate, he, hiff]
      · simp [Objects.known, Objects.mallocShm, Objects.setShm, Objects.setFate, hd]
  · simp only [Objects.life, hfind, hfresh]
    simp [Objects.mallocShm, Objects.setShm, Objects.setFate]
  · cases p with
    | session d m => rfl
    | shm d e =>
      have hne : Shared.shm d e ≠ .shm c (s.shm c).nextId := by
        rintro he
        obtain ⟨rfl, rfl⟩ := Shared.shm.inj he
        simp [Objects.known] at hp
      simp only [Objects.life, hfind, hfate d e hne]
  · funext p
    cases p with
    | session d m => rfl
    | shm d e => simp only [Objects.listed, hfind]

end Tables

section Facts

variable {s : Objects P} {n : Ref Shared → Nat} {o : Shared}

theorem facts_of_own (hacc : Accounts s.ledger n) (h : 0 < n (.own o)) :
    s.known o = true ∧ (s.life o).frees = 0 ∧ (s.life o).wasListed = false ∧ s.listed o = 0 := by
  have hknown : s.known o = true := hacc.known_of_pos h
  have hlaw := hacc.law o hknown
  have hfrees := hacc.frees_eq_zero h
  have hstage := hlaw.stage
  have hnotYet := hlaw.notYet (by omega)
  rw [ledger_life hknown] at hnotYet
  simp only [Ref.obj, ledger_life hknown] at hfrees
  have hlisted : s.ledger.listed o = s.listed o := rfl
  exact ⟨hknown, hfrees, hnotYet, by omega⟩

theorem facts_of_counted (hacc : Accounts s.ledger n)
    (h : 0 < n (.hold o) + n (.removed o)) :
    s.known o = true ∧ (s.life o).wasListed = true ∧ 0 < (s.life o).opsCnt := by
  have hknown : s.known o = true := by
    rcases Nat.eq_zero_or_pos (n (.hold o)) with hzero | hpos
    · exact hacc.known_of_pos (t := .removed o) (by omega)
    · exact hacc.known_of_pos hpos
  have hlaw := hacc.law o hknown
  rw [ledger_life hknown] at hlaw
  have hfrees : (s.life o).frees = 0 := by
    by_contra hne
    have := hlaw.dead (Nat.pos_of_ne_zero hne)
    omega
  have hcnt := hlaw.opsCnt hfrees
  exact ⟨hknown, hlaw.listedOnce (by omega), by omega⟩

theorem facts_of_fin (hacc : Accounts s.ledger n) (h : 0 < n (.fin o)) :
    s.known o = true ∧ (s.life o).frees = 0 ∧ (s.life o).wasListed = true ∧ s.listed o = 0 ∧
      (s.life o).opsCnt = 0 := by
  have hknown : s.known o = true := hacc.known_of_pos h
  have hlaw := hacc.law o hknown
  have hfrees := hacc.frees_eq_zero h
  have hstage := hlaw.stage
  have halone := hlaw.alone (by omega)
  have hlisted : s.ledger.listed o = s.listed o := rfl
  simp only [Ref.obj, ledger_life hknown] at hfrees
  rw [ledger_life hknown] at hlaw
  have hcnt := hlaw.opsCnt hfrees
  exact ⟨hknown, hfrees, hlaw.listedOnce (by omega), by omega, by omega⟩

theorem known_of_listed (hacc : Accounts s.ledger n) (h : 0 < s.listed o) :
    s.known o = true := hacc.known_of_listed h

end Facts

end TeeClient.Vendor
