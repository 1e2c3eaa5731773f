import Mathlib.Tactic
import TeeClient.Vendor.ApiLaws

/-! `g_teecContextList` and the descriptors of its contexts, for any interleaving of the
calls of a CA.  A call that initialises a context also keeps the descriptor it has opened,
and whether it has checked the length of the list. -/

namespace TeeClient.Vendor.Api

open Resumption RefCount

variable {P : Type} [Zero P]

section Quiet

def initialises : Act P → Bool
  | .core a =>
    match a with
    | .closeDupFd _ | .mallocContext _ | .openTzdriver _ | .closeFd _ | .setContext _ _
    | .insertContext _
    | .freeContext _ | .lockReadContextList | .unlockReadContextList
    | .contextCountLimitCheck => true
    | _ => false
  | .obj (.initLists _) => true
  | .obj _ => false

def Quiet {α : Type} (p : Program P α) : Prop := Prog.All (fun a => initialises a = false) p

variable {α β : Type} {c : Nat}

theorem Quiet.pure {x : α} : Quiet (Prog.pure x : Program P α) := trivial

theorem Quiet.act {a : Act P} {k : Resp a → Program P α} (ha : initialises a = false)
    (hk : ∀ r, Quiet (k r)) : Quiet (.act a k) := ⟨ha, hk⟩

theorem Quiet.bind {p : Program P α} {f : α → Program P β} (hp : Quiet p)
    (hf : ∀ x, Quiet (f x)) : Quiet (p.bind f) := Prog.All.bind hp hf

theorem Quiet.ite {b : Prop} [Decidable b] {p q : Program P α} (hp : Quiet p) (hq : Quiet q) :
    Quiet (if b then p else q) := Prog.All.ite hp hq

variable [DecidableEq P]

section Sessions

variable [HAdd P Nat P]

end Sessions

end Quiet

section Opened

abbrev Opened := Option (Nat × Int)

def updOpened (g : Opened) : (a : Act P) → Resp a → Opened
  | .core (.openTzdriver c), r => Option.map (c, ·) r
  | .core (.closeFd _), _ => none
  | .core (.insertContext _), _ => none
  | _, _ => g

def OpenedPre (g : Opened) : Act P → Prop
  | .core (.openTzdriver _) | .core (.freeContext _) => g = none
  | .core (.closeFd fd) => ∃ c, g = some (c, fd)
  | .core (.setContext c fd) => g = some (c, fd)
  | .core (.insertContext c) => ∃ fd, g = some (c, fd)
  | _ => True

variable [DecidableEq P]

def openedMachine (P : Type) [DecidableEq P] [Zero P] :
    Machine (Act P) Resp (World P) (Env P) Opened :=
  (refMachine P).only updOpened

theorem Quiet.opened {α : Type} {p : Program P α} (h : Quiet p) {g : Opened} :
    Safe (openedMachine P) OpenedPre g p fun _ g' => g' = g := by
  refine Safe.of_all h (fun a ha => ?_) fun a r ha => ?_
  · cases a with
    | obj a => trivial
    | core a => cases a <;> trivial
  · cases a with
    | obj a => rfl
    | core a => cases a <;> first | rfl | cases ha

end Opened

section Room

/-- Whether a call has taken `g_mutexReadContextList`, and whether it has seen the list
below its limit since. -/
structure Room where
  locked : Bool
  seen : Bool
  deriving DecidableEq

def updRoom (g : Room) : (a : Act P) → Resp a → Room
  | .core .lockReadContextList, _ => ⟨true, false⟩
  | .core .unlockReadContextList, _ => ⟨false, false⟩
  | .core .contextCountLimitCheck, r => { g with seen := r }
  | .core (.insertContext _), _ => { g with seen := false }
  | _, _ => g

/-- A context is inserted only by a call that has seen room for it, and the library closes no
descriptor that is not its own. -/
def RoomPre (g : Room) : Act P → Prop
  | .core (.closeDupFd _) => False
  | .core .unlockReadContextList | .core .contextCountLimitCheck => g.locked = true
  | .core (.insertContext _) => g.seen = true
  | _ => True

variable [DecidableEq P]

def roomMachine (P : Type) [DecidableEq P] [Zero P] :
    Machine (Act P) Resp (World P) (Env P) Room :=
  (refMachine P).only updRoom

theorem Quiet.room {α : Type} {p : Program P α} (h : Quiet p) {g : Room} :
    Safe (roomMachine P) RoomPre g p fun _ g' => g' = g := by
  refine Safe.of_all h (fun a ha => ?_) fun a r ha => ?_
  · cases a with
    | obj a => trivial
    | core a => cases a <;> trivial
  · cases a with
    | obj a => rfl
    | core a => cases a <;> first | rfl | cases ha

end Room

section Descriptors

abbrev InitLocal := List (Ref Nat) × Opened

/-- The descriptor of a context that has been in the list and is not freed is open, up to the
moment when the call that finalises the context closes it. -/
structure FdInv (s : Core) (ls : List InitLocal) : Prop where
  keys : (s.openFds.map (·.1)).Nodup
  nonneg : ∀ p ∈ s.openFds, 0 ≤ p.1
  opened : ∀ l ∈ ls, ∀ c fd, l.2 = some (c, fd) →
    (fd, c) ∈ s.openFds ∧ (.own c ∈ l.1 ∨ .init c ∈ l.1 ∧ (s.ctx c).fd = fd)
  shared : ∀ c, (s.ctx c).wasListed = true → (s.ctx c).frees = 0 →
    (s.ctx c).fd = -1 ∨ ((s.ctx c).fd, c) ∈ s.openFds
  closed : ∀ c, (s.ctx c).wasListed = true → (s.ctx c).frees = 0 → (s.ctx c).fd = -1 →
    ∃ l ∈ ls, .fin c ∈ l.1

variable {s s' : Core} {ls : List InitLocal} {i : Nat} {l l' : InitLocal}

theorem FdInv.unique (h : FdInv s ls) {fd : Int} {c d : Nat} (hc : (fd, c) ∈ s.openFds)
    (hd : (fd, d) ∈ s.openFds) : c = d := by
  have := List.inj_on_of_nodup_map h.keys hc hd rfl
  exact congrArg Prod.snd this

theorem mem_set_cases {α : Type} {xs : List α} {x y : α} (h : y ∈ xs.set i x) :
    y = x ∨ ∃ j, i ≠ j ∧ xs[j]? = some y := by
  obtain ⟨j, hj⟩ := List.getElem?_of_mem h
  by_cases hij : i = j
  · subst hij
    rw [List.getElem?_set_self'] at hj
    obtain ⟨_, -, rfl⟩ := Option.map_eq_some_iff.mp hj
    exact .inl rfl
  · rw [List.getElem?_set_ne hij] at hj
    exact .inr ⟨j, hij, hj⟩

theorem mem_cases {α : Type} {xs : List α} {x y : α} (hi : xs[i]? = some x) (h : y ∈ xs) :
    y = x ∨ ∃ j, i ≠ j ∧ xs[j]? = some y := by
  obtain ⟨j, hj⟩ := List.getElem?_of_mem h
  by_cases hij : i = j
  · subst hij
    exact .inl (Option.some.inj (hj.symm.trans hi))
  · exact .inr ⟨j, hij, hj⟩

theorem mem_set_of_ne {α : Type} {xs : List α} {x y : α} {j : Nat} (hij : i ≠ j)
    (h : xs[j]? = some y) : y ∈ xs.set i x :=
  List.mem_of_getElem? (by rw [List.getElem?_set_ne hij, h])

theorem mem_set_self {α : Type} {xs : List α} {x y : α} (h : xs[i]? = some y) : x ∈ xs.set i x :=
  List.mem_of_getElem? (i := i) (by simp [(List.getElem?_eq_some_iff.mp h).1])

section Alone

variable {α : Type} {q q' : α → Prop} {xs : List α} {x y : α}

theorem alone_set (h : ∀ (i j : Nat) (x y : α), i ≠ j → xs[i]? = some x → xs[j]? = some y →
      q x → q' y) (hi : xs[i]? = some x)
    (hmine : ∀ j z, i ≠ j → xs[j]? = some z → q y → q' z)
    (htheirs : ∀ j z, i ≠ j → xs[j]? = some z → q z → q' y) (j k : Nat) (z v : α) (hjk : j ≠ k)
    (hj : (xs.set i y)[j]? = some z) (hk : (xs.set i y)[k]? = some v) (hz : q z) : q' v := by
  by_cases hij : i = j
  · subst hij
    rw [List.getElem?_set_ne hjk] at hk
    rw [List.getElem?_set_self', hi] at hj
    obtain rfl := Option.some.inj hj
    exact hmine k v hjk hk hz
  · rw [List.getElem?_set_ne hij] at hj
    by_cases hik : i = k
    · subst hik
      rw [List.getElem?_set_self', hi] at hk
      obtain rfl := Option.some.inj hk
      exact htheirs j z hij hj hz
    · rw [List.getElem?_set_ne hik] at hk
      exact h j k z v hjk hj hk hz

theorem alone_append (h : ∀ (i j : Nat) (x y : α), i ≠ j → xs[i]? = some x → xs[j]? = some y →
      q x → q' y) (hx : ¬ q x) (hx' : q' x) (i j : Nat) (z v : α) (hij : i ≠ j)
    (hi : (xs ++ [x])[i]? = some z) (hj : (xs ++ [x])[j]? = some v) (hz : q z) : q' v := by
  rcases lt_or_ge j xs.length with hlt | hge
  · rw [List.getElem?_append_left hlt] at hj
    rcases lt_or_ge i xs.length with hlt' | hge'
    · rw [List.getElem?_append_left hlt'] at hi
      exact h i j z v hij hi hj hz
    · rw [List.getElem?_append_right hge'] at hi
      obtain rfl := List.mem_singleton.mp (List.mem_of_getElem? hi)
      exact absurd hz hx
  · rw [List.getElem?_append_right hge] at hj
    obtain rfl := List.mem_singleton.mp (List.mem_of_getElem? hj)
    exact hx'

end Alone

theorem fin_mem_set {c : Nat} (hi : ls[i]? = some l) (h : ∃ k ∈ ls, .fin c ∈ k.1)
    (hfin : .fin c ∈ l.1 → .fin c ∈ l'.1) : ∃ k ∈ ls.set i l', .fin c ∈ k.1 := by
  obtain ⟨k, hk, hfinc⟩ := h
  obtain ⟨j, hj⟩ := List.getElem?_of_mem hk
  by_cases hij : i = j
  · subst hij
    obtain rfl := Option.some.inj (hi.symm.trans hj)
    exact ⟨l', mem_set_self hi, hfin hfinc⟩
  · exact ⟨k, mem_set_of_ne hij hj, hfinc⟩

theorem FdInv.set_self (h : FdInv s ls) (hi : ls[i]? = some l) : FdInv s (ls.set i l) := by
  obtain ⟨hlt, rfl⟩ := List.getElem?_eq_some_iff.mp hi
  rwa [List.set_getElem_self hlt]

theorem FdInv.start (h : FdInv s ls) : FdInv s (ls ++ [([], none)]) := by
  refine ⟨h.keys, h.nonneg, ?_, h.shared, fun c hw hf hfd => ?_⟩
  · refine List.forall_mem_append.mpr ⟨h.opened, ?_⟩
    simp
  · obtain ⟨l, hl, hfin⟩ := h.closed c hw hf hfd
    exact ⟨l, List.mem_append_left _ hl, hfin⟩

theorem FdInv.frame (h : FdInv s ls) (hi : ls[i]? = some l) (hopen : s'.openFds = s.openFds)
    (hctx : ∀ c, (s'.ctx c).fd = (s.ctx c).fd ∧ ((s'.ctx c).wasListed = true →
      (s'.ctx c).frees = 0 → (s.ctx c).wasListed = true ∧ (s.ctx c).frees = 0))
    (hopened : ∀ c fd, l'.2 = some (c, fd) → l.2 = some (c, fd) ∧
      (.own c ∈ l.1 → .own c ∈ l'.1) ∧ (.init c ∈ l.1 → .init c ∈ l'.1))
    (hfin : ∀ c, (s'.ctx c).frees = 0 → .fin c ∈ l.1 → .fin c ∈ l'.1) :
    FdInv s' (ls.set i l') := by
  refine ⟨hopen ▸ h.keys, hopen ▸ h.nonneg, ?_, ?_, ?_⟩
  · intro k hk c fd hkfd
    rw [hopen, (hctx c).1]
    rcases List.mem_or_eq_of_mem_set hk with hk | rfl
    · exact h.opened k hk c fd hkfd
    · obtain ⟨hl, hown, hinit⟩ := hopened c fd hkfd
      obtain ⟨hmem, hrefs⟩ := h.opened l (List.mem_of_getElem? hi) c fd hl
      exact ⟨hmem, hrefs.imp hown fun h => ⟨hinit h.1, h.2⟩⟩
  · intro c hw hf
    obtain ⟨hw', hf'⟩ := (hctx c).2 hw hf
    rw [hopen, (hctx c).1]
    exact h.shared c hw' hf'
  · intro c hw hf hfd
    obtain ⟨hw', hf'⟩ := (hctx c).2 hw hf
    exact fin_mem_set hi (h.closed c hw' hf' ((hctx c).1 ▸ hfd)) (hfin c hf)

theorem FdInv.event (h : FdInv s ls) (hi : ls[i]? = some l) {e : Event Nat}
    (hopen : s'.openFds = s.openFds)
    (hctx : ∀ c, (s'.ctx c).fd = (s.ctx c).fd ∧ (s'.ctx c).wasListed = (s.ctx c).wasListed ∧
      (s.ctx c).frees ≤ (s'.ctx c).frees)
    (hopened : ∀ c fd, l.2 = some (c, fd) →
      consumed l.1 e ≠ some (.own c) ∧ consumed l.1 e ≠ some (.init c))
    (hfin : ∀ c, (s'.ctx c).frees = 0 → consumed l.1 e ≠ some (.fin c)) :
    FdInv s' (ls.set i (upd l.1 e, l.2)) := by
  refine h.frame hi hopen (fun c => ⟨(hctx c).1, fun hw hf => ?_⟩) (fun c fd hl => ⟨hl, ?_, ?_⟩) ?_
  · exact ⟨(hctx c).2.1 ▸ hw, Nat.le_zero.mp (hf ▸ (hctx c).2.2)⟩
  · exact fun hown => mem_upd_of_mem hown (hopened c fd hl).1
  · exact fun hinit => mem_upd_of_mem hinit (hopened c fd hl).2
  · exact fun c hf hmem => mem_upd_of_mem hmem (hfin c hf)

theorem Core.modify_fd {c : Nat} {f : ContextInner → ContextInner}
    (hf : ∀ x, (f x).fd = x.fd ∧ (f x).wasListed = x.wasListed ∧ x.frees ≤ (f x).frees) (d : Nat) :
    ((s.modify c f).ctx d).fd = (s.ctx d).fd ∧
      ((s.modify c f).ctx d).wasListed = (s.ctx d).wasListed ∧
      (s.ctx d).frees ≤ ((s.modify c f).ctx d).frees := by
  by_cases hd : d = c
  · subst hd
    simpa [Core.modify] using hf (s.ctx d)
  · simp [Core.modify, hd]

variable (hacc : Accounts s.ledger (refsOf (ls.map (·.1))))
include hacc

theorem lt_next_of_ref {k : InitLocal} (hk : k ∈ ls) {t : Ref Nat} (ht : t ∈ k.1) :
    t.obj < s.next := by
  have := hacc.known_of_pos (refsOf_pos.mpr ⟨k.1, List.mem_map_of_mem hk, ht⟩)
  simpa [Core.ledger] using this

theorem wasListed_eq_false {k : InitLocal} (hk : k ∈ ls) {c : Nat}
    (ht : .own c ∈ k.1 ∨ .init c ∈ k.1) : (s.ctx c).wasListed = false := by
  have hlaw := hacc.law c
  rcases ht with ht | ht
  · have hpos : 0 < refsOf (ls.map (·.1)) (.own c) := refsOf_pos.mpr ⟨k.1, List.mem_map_of_mem hk, ht⟩
    exact (hlaw (hacc.known_of_pos hpos)).notYet (by omega)
  · have hpos : 0 < refsOf (ls.map (·.1)) (.init c) := refsOf_pos.mpr ⟨k.1, List.mem_map_of_mem hk, ht⟩
    exact (hlaw (hacc.known_of_pos hpos)).notYet (by omega)

theorem not_exclusive_of_ne {j : Nat} {k k' : InitLocal} (hij : i ≠ j) (hi : ls[i]? = some k)
    (hj : ls[j]? = some k') {t t' : Ref Nat} (ht : t ∈ k.1) (ht' : t' ∈ k'.1)
    (hobj : t'.obj = t.obj) : t.exclusive = false :=
  hacc.not_exclusive hij (by simp [hi]) (by simp [hj]) ht ht' hobj

theorem fdInv_mallocContext (h : FdInv s ls) (hi : ls[i]? = some l) {owner : CallerIdentity} :
    FdInv (s.mallocContext owner) (ls.set i (.own s.next :: l.1, l.2)) := by
  have hctx (c : Nat) (hc : c ≠ s.next) : (s.mallocContext owner).ctx c = s.ctx c := by
    simp [Core.mallocContext, hc]
  have hnext : ((s.mallocContext owner).ctx s.next).wasListed = false := by
    simp [Core.mallocContext]
  have hmark : ∀ k ∈ ls, ∀ c fd, k.2 = some (c, fd) → (fd, c) ∈ s.openFds ∧
      (.own c ∈ k.1 ∨ .init c ∈ k.1 ∧ ((s.mallocContext owner).ctx c).fd = fd) := by
    intro k hk c fd hkfd
    obtain ⟨hmem, hrefs⟩ := h.opened k hk c fd hkfd
    refine ⟨hmem, hrefs.imp_right fun hinit => ⟨hinit.1, ?_⟩⟩
    have hlt : c < s.next := lt_next_of_ref hacc hk hinit.1
    rw [hctx c (by omega)]
    exact hinit.2
  refine ⟨h.keys, h.nonneg, ?_, ?_, ?_⟩
  · intro k hk c fd hkfd
    rcases List.mem_or_eq_of_mem_set hk with hk | rfl
    · exact hmark k hk c fd hkfd
    · obtain ⟨hmem, hrefs⟩ := hmark l (List.mem_of_getElem? hi) c fd hkfd
      exact ⟨hmem, hrefs.imp (List.mem_cons_of_mem _) fun h => ⟨List.mem_cons_of_mem _ h.1, h.2⟩⟩
  · intro c hw hf
    have hc : c ≠ s.next := by
      rintro rfl
      simp [hnext] at hw
    rw [hctx c hc] at hw hf ⊢
    exact h.shared c hw hf
  · intro c hw hf hfd
    have hc : c ≠ s.next := by
      rintro rfl
      simp [hnext] at hw
    rw [hctx c hc] at hw hf hfd
    exact fin_mem_set hi (h.closed c hw hf hfd) (List.mem_cons_of_mem _)

omit hacc in
theorem fdInv_openTzdriver (h : FdInv s ls) (hi : ls[i]? = some l) {c : Nat} {fd : Int}
    (hown : .own c ∈ l.1) (hpos : 0 ≤ fd) (hfd : fd ∉ s.openFds.map (·.1)) :
    FdInv { s with openFds := (fd, c) :: s.openFds } (ls.set i (l.1, some (c, fd))) := by
  refine ⟨List.nodup_cons.mpr ⟨hfd, h.keys⟩, ?_, ?_, ?_, ?_⟩
  · intro p hp
    rcases List.mem_cons.mp hp with rfl | hp
    · exact hpos
    · exact h.nonneg p hp
  · intro k hk d fd' hkfd
    rcases List.mem_or_eq_of_mem_set hk with hk | rfl
    · obtain ⟨hmem, hrefs⟩ := h.opened k hk d fd' hkfd
      exact ⟨List.mem_cons_of_mem _ hmem, hrefs⟩
    · obtain ⟨rfl, rfl⟩ := Prod.mk.inj (Option.some.inj hkfd)
      exact ⟨List.mem_cons_self, .inl hown⟩
  · exact fun d hw hf => (h.shared d hw hf).imp_right (List.mem_cons_of_mem _)
  · exact fun d hw hf hfd => fin_mem_set hi (h.closed d hw hf hfd) id

omit hacc in
theorem mem_closeFd {fd : Int} {p : Int × Nat} (h : p ∈ s.openFds) (hne : p.1 ≠ fd) :
    p ∈ (s.closeFd fd).openFds := by
  simp [Core.closeFd, h, hne]

theorem fdInv_closeFd (h : FdInv s ls) (hi : ls[i]? = some l) {c : Nat} {fd : Int}
    (hopened : l.2 = some (c, fd)) : FdInv (s.closeFd fd) (ls.set i (l.1, none)) := by
  have hl := List.mem_of_getElem? hi
  obtain ⟨hmem, hrefs⟩ := h.opened l hl c fd hopened
  have hmine : .own c ∈ l.1 ∨ .init c ∈ l.1 := hrefs.imp_right (·.1)
  refine ⟨h.keys.sublist (List.Sublist.map _ List.filter_sublist), ?_, ?_, ?_, ?_⟩
  · exact fun p hp => h.nonneg p (List.mem_of_mem_filter hp)
  · intro k hk d fd' hkfd
    rcases mem_set_cases hk with rfl | ⟨j, hij, hj⟩
    · cases hkfd
    · obtain ⟨hmem', hrefs'⟩ := h.opened k (List.mem_of_getElem? hj) d fd' hkfd
      refine ⟨mem_closeFd hmem' ?_, hrefs'⟩
      rintro rfl
      -- both calls would have the context to themselves
      obtain rfl := h.unique hmem hmem'
      have htheirs : .own c ∈ k.1 ∨ .init c ∈ k.1 := hrefs'.imp_right (·.1)
      rcases hmine with hm | hm <;> rcases htheirs with ht | ht
      all_goals cases not_exclusive_of_ne hacc hij hi hj hm ht rfl
  · intro d hw hf
    refine (h.shared d hw hf).imp_right fun hd => mem_closeFd hd ?_
    intro (heq : (s.ctx d).fd = fd)
    have hd' : ((s.ctx d).fd, d) ∈ s.openFds := hd
    rw [heq] at hd'
    obtain rfl := h.unique hmem hd'
    have := wasListed_eq_false hacc hl hmine
    cases this.symm.trans hw
  · exact fun d hw hf hfd => fin_mem_set hi (h.closed d hw hf hfd) id

theorem fdInv_setContext (h : FdInv s ls) (hi : ls[i]? = some l) {c : Nat} {fd : Int}
    (hopened : l.2 = some (c, fd)) (hown : .own c ∈ l.1) :
    FdInv (s.modify c fun x => { x with fd, opsCnt := 1 }) (ls.set i (upd l.1 (.set c), l.2)) := by
  have hl := List.mem_of_getElem? hi
  have hwas : (s.ctx c).wasListed = false := wasListed_eq_false hacc hl (.inl hown)
  have hctx (d : Nat) (hd : d ≠ c) :
      (s.modify c fun x => { x with fd, opsCnt := 1 }).ctx d = s.ctx d := by
    simp [Core.modify, hd]
  have hself : ((s.modify c fun x => { x with fd, opsCnt := 1 }).ctx c).wasListed = false := by
    simp [Core.modify, hwas]
  refine ⟨h.keys, h.nonneg, ?_, ?_, ?_⟩
  · intro k hk d fd' hkfd
    rcases mem_set_cases hk with rfl | ⟨j, hij, hj⟩
    · obtain ⟨rfl, rfl⟩ := Prod.mk.inj (Option.some.inj (hopened.symm.trans hkfd))
      refine ⟨(h.opened l hl c fd hopened).1, .inr ⟨List.mem_append_left _ (by simp [produced]), ?_⟩⟩
      simp [Core.modify]
    · obtain ⟨hmem, hrefs⟩ := h.opened k (List.mem_of_getElem? hj) d fd' hkfd
      refine ⟨hmem, hrefs.imp_right fun hinit => ⟨hinit.1, ?_⟩⟩
      have hdc : d ≠ c := by
        rintro rfl
        cases not_exclusive_of_ne hacc hij hi hj hown hinit.1 rfl
      rw [hctx d hdc]
      exact hinit.2
  · intro d hw hf
    have hdc : d ≠ c := by
      rintro rfl
      cases hself.symm.trans hw
    rw [hctx d hdc] at hw hf ⊢
    exact h.shared d hw hf
  · intro d hw hf hfd
    have hdc : d ≠ c := by
      rintro rfl
      cases hself.symm.trans hw
    rw [hctx d hdc] at hw hf hfd
    exact fin_mem_set hi (h.closed d hw hf hfd) fun hfin => mem_upd_of_mem hfin (by simp [consumed])

theorem fd_of_init (h : FdInv s ls) {k : InitLocal} (hk : k ∈ ls) {c : Nat} {fd : Int}
    (hopened : k.2 = some (c, fd)) (hinit : .init c ∈ k.1) : (s.ctx c).fd = fd := by
  rcases (h.opened k hk c fd hopened).2 with hown | hinit'
  · -- two references of its creator
    have h1 : 0 < refsOf (ls.map (·.1)) (.own c) :=
      refsOf_pos.mpr ⟨k.1, List.mem_map_of_mem hk, hown⟩
    have h2 : 0 < refsOf (ls.map (·.1)) (.init c) :=
      refsOf_pos.mpr ⟨k.1, List.mem_map_of_mem hk, hinit⟩
    have := (hacc.law c (hacc.known_of_pos h1)).stage
    omega
  · exact hinit'.2

theorem fdInv_insertContext (h : FdInv s ls) (hi : ls[i]? = some l) {c : Nat} {fd : Int}
    (hopened : l.2 = some (c, fd)) (hinit : .init c ∈ l.1) :
    FdInv (s.insertContext c) (ls.set i (upd l.1 (.insert c), none)) := by
  have hl := List.mem_of_getElem? hi
  have hmem := (h.opened l hl c fd hopened).1
  have hfd : (s.ctx c).fd = fd := fd_of_init hacc h hl hopened hinit
  have hsame (d : Nat) : ((s.insertContext c).ctx d).fd = (s.ctx d).fd ∧
      ((s.insertContext c).ctx d).frees = (s.ctx d).frees := by
    by_cases hd : d = c
    · subst hd
      simp [Core.insertContext, Core.modify]
    · simp [Core.insertContext, Core.modify, hd]
  have hwas (d : Nat) (hd : d ≠ c) :
      ((s.insertContext c).ctx d).wasListed = (s.ctx d).wasListed := by
    simp [Core.insertContext, Core.modify, hd]
  refine ⟨h.keys, h.nonneg, ?_, ?_, ?_⟩
  · intro k hk d fd' hkfd
    rcases mem_set_cases hk with rfl | ⟨j, hij, hj⟩
    · cases hkfd
    · rw [(hsame d).1]
      exact h.opened k (List.mem_of_getElem? hj) d fd' hkfd
  · intro d hw hf
    rw [(hsame d).1]
    by_cases hd : d = c
    · subst hd
      exact .inr (hfd ▸ hmem)
    · exact h.shared d (hwas d hd ▸ hw) ((hsame d).2 ▸ hf)
  · intro d hw hf hdfd
    rw [(hsame d).1] at hdfd
    by_cases hd : d = c
    · subst hd
      have := h.nonneg _ hmem
      rw [hdfd] at hfd
      omega
    · refine fin_mem_set hi (h.closed d (hwas d hd ▸ hw) ((hsame d).2 ▸ hf) hdfd) fun hfin => ?_
      exact mem_upd_of_mem hfin (by simp [consumed])

theorem open_of_listed (h : FdInv s ls) {c : Nat} (hc : c ∈ s.contextList) :
    ((s.ctx c).fd, c) ∈ s.openFds := by
  have hlisted : 0 < s.ledger.listed c := List.count_pos_iff.mpr hc
  have hlaw := hacc.law c (hacc.known_of_listed hlisted)
  have hwas : (s.ctx c).wasListed = true := hlaw.listedOnce (by omega)
  have hfrees : (s.ctx c).frees = 0 := hacc.frees_eq_zero_of_listed hlisted
  refine (h.shared c hwas hfrees).resolve_left fun hneg => ?_
  obtain ⟨l, hl, hfin⟩ := h.closed c hwas hfrees hneg
  have hpos : 0 < refsOf (ls.map (·.1)) (.fin c) :=
    refsOf_pos.mpr ⟨l.1, List.mem_map_of_mem hl, hfin⟩
  have := hlaw.stage
  omega

theorem fdInv_closeContext (h : FdInv s ls) (hi : ls[i]? = some l) {c : Nat}
    (hfin : .fin c ∈ l.1) :
    FdInv ((s.closeFd (s.ctx c).fd).modify c fun x => { x with fd := -1 }) (ls.set i l) := by
  have hl := List.mem_of_getElem? hi
  have hpos : 0 < refsOf (ls.map (·.1)) (.fin c) :=
    refsOf_pos.mpr ⟨l.1, List.mem_map_of_mem hl, hfin⟩
  have hlaw := hacc.law c (hacc.known_of_pos hpos)
  have hwas : (s.ctx c).wasListed = true := hlaw.listedOnce (by omega)
  have hfrees : (s.ctx c).frees = 0 := hacc.frees_eq_zero hpos
  have hother {fd : Int} {d : Nat} (hmem : (fd, d) ∈ s.openFds) (hd : d ≠ c) :
      (fd, d) ∈ (s.closeFd (s.ctx c).fd).openFds := by
    refine mem_closeFd hmem fun (heq : fd = (s.ctx c).fd) => ?_
    rcases h.shared c hwas hfrees with hneg | hc
    · have := h.nonneg _ hmem
      rw [heq, hneg] at this
      omega
    · exact hd (h.unique (heq ▸ hmem) hc)
  have hctx (d : Nat) (hd : d ≠ c) :
      ((s.closeFd (s.ctx c).fd).modify c fun x => { x with fd := -1 }).ctx d = s.ctx d := by
    simp [Core.modify, Core.closeFd, hd]
  refine ⟨h.keys.sublist (List.Sublist.map _ List.filter_sublist), ?_, ?_, ?_, ?_⟩
  · exact fun p hp => h.nonneg p (List.mem_of_mem_filter hp)
  · intro k hk d fd hkfd
    have hk' : k ∈ ls := by
      rcases List.mem_or_eq_of_mem_set hk with hk | rfl
      · exact hk
      · exact hl
    obtain ⟨hmem, hrefs⟩ := h.opened k hk' d fd hkfd
    have hd : d ≠ c := by
      rintro rfl
      have := wasListed_eq_false hacc hk' (hrefs.imp_right (·.1))
      cases this.symm.trans hwas
    rw [hctx d hd]
    exact ⟨hother hmem hd, hrefs⟩
  · intro d hw hf
    by_cases hd : d = c
    · subst hd
      exact .inl (by simp [Core.modify])
    · rw [hctx d hd] at hw hf ⊢
      exact (h.shared d hw hf).imp_right (hother · hd)
  · intro d hw hf hdfd
    by_cases hd : d = c
    · subst hd
      exact ⟨l, mem_set_self hi, hfin⟩
    · rw [hctx d hd] at hw hf hdfd
      exact fin_mem_set hi (h.closed d hw hf hdfd) id

/-- Every action of a call that finds what it needs keeps the descriptors right. -/
theorem fdInv_exec {P : Type} [Zero P] {env : Env P} {a : CoreAct} {r : CoreResp a}
    (h : FdInv s ls) (hi : ls[i]? = some l) (hexec : s.exec env a = some (r, s'))
    (hpre : RefUse (P := P) l.1 (.core a)) (hopened : OpenedPre (P := P) l.2 (.core a))
    (hspare : ∀ fd, a = .closeDupFd fd → s' = s) :
    FdInv s' (ls.set i (updAll l.1 (ctxEvents a r), updOpened (P := P) l.2 (.core a) r)) := by
  have hsame (hopen : s'.openFds = s.openFds) (hctx : s'.ctx = s.ctx) :
      FdInv s' (ls.set i l) :=
    h.frame hi hopen (fun c => by rw [hctx]; exact ⟨rfl, fun hw hf => ⟨hw, hf⟩⟩)
      (fun _ _ hl => ⟨hl, id, id⟩) fun _ _ => id
  cases a
  case mallocContext owner =>
    simp only [Core.exec] at hexec
    split_ifs at hexec
    · obtain ⟨rfl, rfl⟩ := Prod.mk.inj (Option.some.inj hexec)
      exact fdInv_mallocContext hacc h hi
    · obtain ⟨rfl, rfl⟩ := Prod.mk.inj (Option.some.inj hexec)
      exact hsame rfl rfl
  case openTzdriver c =>
    have hown : .own c ∈ l.1 := hpre.opens c rfl
    simp only [Core.exec] at hexec
    split_ifs at hexec with hok hfd
    · obtain ⟨rfl, rfl⟩ := Prod.mk.inj (Option.some.inj hexec)
      exact fdInv_openTzdriver h hi hown hfd.1 hfd.2
    · obtain ⟨rfl, rfl⟩ := Prod.mk.inj (Option.some.inj hexec)
      have hnone : l.2 = none := hopened
      have := hsame rfl rfl
      rwa [show l = (l.1, none) from Prod.ext rfl hnone] at this
  case closeFd fd =>
    obtain ⟨-, rfl⟩ := Prod.mk.inj (Option.some.inj hexec)
    obtain ⟨c, hc⟩ := hopened
    exact fdInv_closeFd hacc h hi hc
  case closeDupFd fd =>
    obtain rfl := hspare fd rfl
    exact h.set_self hi
  case setContext c fd =>
    obtain ⟨-, rfl⟩ := Prod.mk.inj (Option.some.inj hexec)
    exact fdInv_setContext hacc h hi hopened ((hpre.covered _ rfl r).1 _ rfl)
  case insertContext c =>
    obtain ⟨-, rfl⟩ := Prod.mk.inj (Option.some.inj hexec)
    obtain ⟨fd, hfd⟩ := hopened
    exact fdInv_insertContext hacc h hi hfd ((hpre.covered _ rfl r).1 _ rfl)
  case closeContext c =>
    obtain ⟨-, rfl⟩ := Prod.mk.inj (Option.some.inj hexec)
    exact fdInv_closeContext hacc h hi (hpre.closes c rfl)
  case setCallFromService c =>
    obtain ⟨-, rfl⟩ := Prod.mk.inj (Option.some.inj hexec)
    refine h.frame hi rfl (fun d => ?_) (fun _ _ hl => ⟨hl, id, id⟩) fun _ _ => id
    obtain ⟨hfd, hwas, hfrees⟩ := Core.modify_fd (s := s) (c := c)
      (f := ({ · with callFromService := true })) (fun _ => ⟨rfl, rfl, le_rfl⟩) d
    exact ⟨hfd, fun hw hf => ⟨hwas ▸ hw, Nat.le_zero.mp (hf ▸ hfrees)⟩⟩
  case getBnContext fd =>
    obtain ⟨rfl, rfl⟩ := Prod.mk.inj (Option.some.inj hexec)
    cases s.findBnContext fd with
    | none => exact h.set_self hi
    | some c =>
      exact h.event hi (e := .get c) rfl
        (Core.modify_fd (s := s) (f := fun x => { x with opsCnt := x.opsCnt + 1 })
          fun _ => ⟨rfl, rfl, le_rfl⟩)
        (fun _ _ _ => ⟨(fun h => by cases h), fun h => by cases h⟩) fun _ _ h => by cases h
  case findAndRemoveBnContext fd =>
    obtain ⟨rfl, rfl⟩ := Prod.mk.inj (Option.some.inj hexec)
    cases s.findBnContext fd with
    | none => exact h.set_self hi
    | some c =>
      exact h.event hi (e := .remove c) rfl
        (Core.modify_fd (s := s) (f := ({ · with takenOut := true })) fun _ => ⟨rfl, rfl, le_rfl⟩)
        (fun _ _ _ => ⟨(fun h => by cases h), fun h => by cases h⟩) fun _ _ h => by cases h
  case atomDecContext c =>
    obtain ⟨rfl, rfl⟩ := Prod.mk.inj (Option.some.inj hexec)
    have hcons (zero : Bool) (t : Ref Nat) (ht : consumed l.1 (.put c zero) = some t) :
        t.exclusive = false := by
      simp only [consumed] at ht
      split_ifs at ht <;> exact Option.some.inj ht ▸ rfl
    refine h.event hi (e := .put c _) rfl (Core.modify_fd fun _ => ⟨rfl, rfl, le_rfl⟩)
      (fun d _ _ => ⟨fun ht => ?_, fun ht => ?_⟩) fun d _ ht => ?_
    all_goals cases hcons _ _ ht
  case freeContext c =>
    obtain ⟨-, rfl⟩ := Prod.mk.inj (Option.some.inj hexec)
    have hnone : l.2 = none := hopened
    refine h.event hi (e := .discard c) rfl
      (Core.modify_fd fun x => ⟨rfl, rfl, Nat.le_succ x.frees⟩)
      (fun _ _ hl => absurd (hnone.symm.trans hl) (by simp)) fun d _ ht => ?_
    simp only [consumed] at ht
    split_ifs at ht <;> cases ht
  case freeFinalized c =>
    obtain ⟨-, rfl⟩ := Prod.mk.inj (Option.some.inj hexec)
    refine h.event hi (e := .free c) rfl
      (Core.modify_fd fun x => ⟨rfl, rfl, Nat.le_succ x.frees⟩)
      (fun _ _ _ => ⟨(fun h => by cases h), fun h => by cases h⟩) fun d hf ht => ?_
    obtain rfl : c = d := by simpa [consumed] using ht
    simp [Core.modify] at hf
  case lockReadContextList =>
    simp only [Core.exec] at hexec
    split_ifs at hexec
    obtain ⟨-, rfl⟩ := Prod.mk.inj (Option.some.inj hexec)
    exact hsame rfl rfl
  case unlockReadContextList =>
    obtain ⟨-, rfl⟩ := Prod.mk.inj (Option.some.inj hexec)
    exact hsame rfl rfl
  all_goals
    have hidle := Core.exec_idle rfl hexec
    exact hsame hidle.openFds hidle.ctx

end Descriptors

section Length

structure RoomInv (s : Core) (gs : List Room) : Prop where
  locked : ∀ g ∈ gs, g.locked = true → s.readLock = true
  alone : ∀ (i j : Nat) (g g' : Room), i ≠ j → gs[i]? = some g → gs[j]? = some g' → g.locked = true →
    g'.locked = false
  seen : ∀ g ∈ gs, g.seen = true → g.locked = true ∧ s.contextList.length < maxCxtcntOneca
  bound : s.contextList.length ≤ maxCxtcntOneca
  kept : ∀ c, (s.ctx c).wasListed = true → (s.ctx c).takenOut = false → c ∈ s.contextList

variable {s s' : Core} {gs : List Room} {i : Nat} {g g' : Room}

theorem RoomInv.locked_eq_false (h : RoomInv s gs) {j : Nat} {k : Room} (hij : i ≠ j)
    (hi : gs[i]? = some g) (hj : gs[j]? = some k) (hg : g.locked = true) : k.locked = false :=
  h.alone i j g k hij hi hj hg

theorem RoomInv.step (h : RoomInv s gs) (hi : gs[i]? = some g)
    (hlock : s'.readLock = s.readLock ∨ ∀ j k, i ≠ j → gs[j]? = some k → k.locked = false)
    (hlen : s'.contextList.length ≤ s.contextList.length ∨
      ∀ j k, i ≠ j → gs[j]? = some k → k.locked = false)
    (hself : g'.locked = true → s'.readLock = true ∧
      ∀ j k, i ≠ j → gs[j]? = some k → k.locked = false)
    (hseen : g'.seen = true → g'.locked = true ∧ s'.contextList.length < maxCxtcntOneca)
    (hbound : s'.contextList.length ≤ maxCxtcntOneca)
    (hkept : ∀ c, (s'.ctx c).wasListed = true → (s'.ctx c).takenOut = false →
      c ∈ s'.contextList) : RoomInv s' (gs.set i g') := by
  refine ⟨?_, ?_, ?_, hbound, hkept⟩
  · intro k hk hlocked
    rcases mem_set_cases hk with rfl | ⟨j, hij, hj⟩
    · exact (hself hlocked).1
    · rcases hlock with hlock | hlock
      · rw [hlock]
        exact h.locked k (List.mem_of_getElem? hj) hlocked
      · cases (hlock j k hij hj).symm.trans hlocked
  · refine alone_set h.alone hi (fun j k hij hj hlocked => (hself hlocked).2 j k hij hj) ?_
    intro j k hij hj hlocked
    by_contra hg
    have := (hself (Bool.eq_true_of_not_eq_false hg)).2 j k hij hj
    cases this.symm.trans hlocked
  · intro k hk hkseen
    rcases mem_set_cases hk with rfl | ⟨j, hij, hj⟩
    · exact hseen hkseen
    · obtain ⟨hlocked, hlt⟩ := h.seen k (List.mem_of_getElem? hj) hkseen
      refine ⟨hlocked, ?_⟩
      rcases hlen with hlen | hlen
      · omega
      · cases (hlen j k hij hj).symm.trans hlocked

theorem RoomInv.frame (h : RoomInv s gs) (hi : gs[i]? = some g) (hlock : s'.readLock = s.readLock)
    (hlen : s'.contextList.length ≤ s.contextList.length)
    (hkept : ∀ c, (s'.ctx c).wasListed = true → (s'.ctx c).takenOut = false →
      c ∈ s'.contextList) : RoomInv s' (gs.set i g) := by
  have hg := List.mem_of_getElem? hi
  refine h.step hi (.inl hlock) (.inl hlen) (fun hlocked => ?_) (fun hseen => ?_)
    (hlen.trans h.bound) hkept
  · exact ⟨hlock ▸ h.locked g hg hlocked, fun j k hij hj => h.locked_eq_false hij hi hj hlocked⟩
  · obtain ⟨hlocked, hlt⟩ := h.seen g hg hseen
    exact ⟨hlocked, hlen.trans_lt hlt⟩

theorem RoomInv.set_self (h : RoomInv s gs) (hi : gs[i]? = some g) : RoomInv s (gs.set i g) := by
  obtain ⟨hlt, rfl⟩ := List.getElem?_eq_some_iff.mp hi
  rwa [List.set_getElem_self hlt]

end Length

section Runs

variable [DecidableEq P]

abbrev ListLocal := InitLocal × Room

structure ListInv (s : Core) (ls : List ListLocal) : Prop where
  accounts : Accounts s.ledger (refsOf ((ls.map (·.1)).map (·.1)))
  fds : FdInv s (ls.map (·.1))
  room : RoomInv s (ls.map (·.2))

omit [DecidableEq P] in
theorem ListInv.start {s : Core} {ls : List ListLocal} (h : ListInv s ls) :
    ListInv s (ls ++ [(([], none), ⟨false, false⟩)]) := by
  refine ⟨?_, ?_, ?_⟩
  · rw [List.map_append, List.map_append]
    simpa using h.accounts
  · rw [List.map_append]
    exact h.fds.start
  · rw [List.map_append]
    refine ⟨List.forall_mem_append.mpr ⟨h.room.locked, ?_⟩, ?_,
      List.forall_mem_append.mpr ⟨h.room.seen, ?_⟩, h.room.bound, h.room.kept⟩
    · simp
    · exact alone_append h.room.alone (by simp) rfl
    · simp

end Runs

end TeeClient.Vendor.Api
