import Mathlib.Tactic
import TeeClient.Daemon.Signals

/-! Whom `SIGUSR1` gets, over every interleaving of the threads: those that are working for the
process that died, all of them, and nobody else. -/

namespace TeeClient.Daemon.Signals

open Resumption Rings

section Threads

/-- Where the loop of `SendSigToTzdriver` is: at a node, with what was read there, and whether a
signal was sent for it. -/
structure Scan where
  pid : Int
  node : Nat
  data : Option TidData
  sent : Bool

/-- What a thread knows and has; `filled` is the process in its own `TidData`, `ended` the process
for which it has gone through the list, and `failed` is set when a lock could not be had. -/
structure Local where
  tid : Option Nat
  held : Option Nat
  filled : Option Int
  linked : Bool
  inside : Bool
  failed : Bool
  handler : Bool
  scan : Option Scan
  ended : Option Int

def begun : Local := ⟨none, none, none, false, false, false, false, none, none⟩

def Local.upd (l : Local) : (a : Act) → Resp a → Local
  | .clone, r => { l with tid := some r }
  | .malloc, r => { l with held := r }
  | .setTidData _ d, _ => { l with filled := some d.callingPid }
  | .lock, r => { l with inside := r, failed := l.failed || !r }
  | .unlock, _ => { l with inside := false, scan := none, ended := none }
  | .listInsertTail _, _ => { l with linked := true }
  | .listRemoveEntry _, _ => { l with linked := false }
  | .free _, _ => { l with held := none, filled := none }
  | .driver, _ => l
  | .signal, _ => { l with handler := true }
  | .listNext _ pid, r =>
    if r.isSome then { l with scan := r.map fun x => ⟨pid, x, none, false⟩, ended := none }
    else { l with scan := none, ended := some pid }
  | .readTidData _, r => { l with scan := l.scan.map fun sc => { sc with data := some r } }
  | .tgkill _ _, _ => { l with scan := l.scan.map fun sc => { sc with sent := true } }

def threads : Machine Act Resp State Bool Local where
  exec := State.exec
  upd := Local.upd

def Scan.Passed (sc : Scan) : Prop :=
  ∃ d, sc.data = some d ∧ (d.callingPid = sc.pid → sc.sent = true)

def Pre (l : Local) : Act → Prop
  | .clone => l.tid = none ∧ l.held = none
  | .malloc => l.held = none ∧ l.filled = none
  | .setTidData x d => l.held = some x ∧ l.filled = none ∧ l.tid = some d.tid
  | .lock => l.inside = false ∧ l.scan = none ∧ l.ended = none
  | .unlock => l.inside = true
  | .listInsertTail x => l.inside = true ∧ l.scan = none ∧ l.ended = none ∧ l.linked = false ∧
      l.held = some x ∧ l.filled.isSome ∧ l.tid.isSome
  | .listRemoveEntry x => l.failed = true ∨
      l.inside = true ∧ l.scan = none ∧ l.ended = none ∧ l.linked = true ∧ l.held = some x
  | .free x => l.linked = false ∧ l.held = some x
  | .driver => l.linked = true
  | .signal => True
  | .listNext ptr pid => l.inside = true ∧
      ∀ x, ptr = some x → ∃ sc, l.scan = some sc ∧ sc.node = x ∧ sc.pid = pid ∧ sc.Passed
  | .readTidData x => l.inside = true ∧ ∃ sc, l.scan = some sc ∧ sc.node = x
  | .tgkill tid pid => l.inside = true ∧ l.handler = true ∧
      ∃ sc, l.scan = some sc ∧ sc.pid = pid ∧ sc.data = some ⟨tid, pid⟩

def locks : (a : Act) → Resp a → Bool
  | .lock, r => r
  | _, _ => true

end Threads

section Invariant

variable {s s' : State} {xs xs' : List Nat} {ls : List Local} {l l' : Local} {i j x : Nat}
variable {a : Act} {r : Resp a} {ok : Bool}

def Hit (s : State) (pid : Int) (xs : List Nat) : Prop :=
  ∀ x ∈ xs, (s.tidData x).callingPid = pid → s.signalled (s.tidData x).tid = true

structure Scanned (s : State) (xs : List Nat) (sc : Scan) : Prop where
  passed : ∃ ys zs, xs = ys ++ sc.node :: zs ∧ Hit s sc.pid ys
  data : ∀ d, sc.data = some d → d = s.tidData sc.node
  sent : sc.sent = true → s.signalled (s.tidData sc.node).tid = true

structure Fits (s : State) (xs : List Nat) (l : Local) : Prop where
  failed : l.failed = false
  linked : l.linked = true → ∃ t x p, l.tid = some t ∧ l.held = some x ∧ l.filled = some p ∧ x ∈ xs
  filled : ∀ t x p, l.tid = some t → l.held = some x → l.filled = some p → s.tidData x = ⟨t, p⟩
  working : ∀ t, l.tid = some t → s.working t = if l.linked then l.filled else none
  handler : l.handler = true → s.handler = true
  scan : l.inside = true → ∀ sc, l.scan = some sc → Scanned s xs sc
  ended : l.inside = true → ∀ pid, l.ended = some pid → Hit s pid xs

structure Inv (s : State) (ls : List Local) (xs : List Nat) : Prop where
  ring : IsRing s.links none (xs.map some)
  fits : ∀ l ∈ ls, Fits s xs l
  listed : ∀ x ∈ xs, ∃ l ∈ ls, l.linked = true ∧ l.held = some x
  nodes : ∀ x, total (fun l => (decide (l.held = some x)).toNat) ls + s.frees x =
    (decide (x < s.next)).toNat
  tids : ∀ t, total (fun l => (decide (l.tid = some t)).toNat) ls = (decide (t < s.threads)).toNat
  idle : ∀ t, s.threads ≤ t → s.working t = none
  locked : total (fun l => l.inside.toNat) ls = s.locked.toNat
  sent : ∀ x ∈ s.sent, x.working = some x.pid
  wild : s.wild = 0
  unhandled : s.unhandled = 0

theorem Inv.held_ne (h : Inv s ls xs) (hi : ls[i]? = some l) (hl : l.held = some x) (hij : i ≠ j)
    (hj : ls[j]? = some l') : l'.held ≠ some x := by
  intro hl'
  have hle := add_le_total (fun l => (decide (l.held = some x)).toNat) hij hi hj
  have hnodes := h.nodes x
  have hone := Bool.toNat_le (decide (x < s.next))
  simp only [hl, hl', decide_true, Bool.toNat_true] at hle
  omega

theorem Inv.tid_ne {t : Nat} (h : Inv s ls xs) (hi : ls[i]? = some l) (hl : l.tid = some t)
    (hij : i ≠ j) (hj : ls[j]? = some l') : l'.tid ≠ some t := by
  intro hl'
  have hle := add_le_total (fun l => (decide (l.tid = some t)).toNat) hij hi hj
  have htids := h.tids t
  have hone := Bool.toNat_le (decide (t < s.threads))
  simp only [hl, hl', decide_true, Bool.toNat_true] at hle
  omega

theorem Inv.alone (h : Inv s ls xs) (hi : ls[i]? = some l) (hl : l.inside = true) (hij : i ≠ j)
    (hj : ls[j]? = some l') : l'.inside = false := by
  by_contra hl'
  have hle := add_le_total (fun l => l.inside.toNat) hij hi hj
  have hlocked := h.locked
  have hbound := Bool.toNat_le s.locked
  simp only [Bool.not_eq_false] at hl'
  simp only [hl, hl', Bool.toNat_true] at hle
  omega

theorem Inv.allocated_of_held (h : Inv s ls xs) (hl : l ∈ ls) (hx : l.held = some x) :
    s.allocated (some x) = true := by
  have hle := le_total (fun l => (decide (l.held = some x)).toNat) hl
  have hnodes := h.nodes x
  simp only [hx, decide_true, Bool.toNat_true] at hle
  by_cases hlt : x < s.next
  · simp only [hlt, decide_true, Bool.toNat_true] at hnodes
    exact decide_eq_true ⟨hlt, by omega⟩
  · simp only [hlt, decide_false, Bool.toNat_false] at hnodes
    omega

theorem Inv.allocated_of_node (h : Inv s ls xs) {n : Node} (hn : n ∈ none :: xs.map some) :
    s.allocated n = true := by
  rcases List.mem_cons.mp hn with rfl | hn
  · rfl
  · obtain ⟨x, hx, rfl⟩ := List.mem_map.mp hn
    obtain ⟨l, hl, -, hheld⟩ := h.listed x hx
    exact h.allocated_of_held hl hheld

theorem touch_eq {nodes : List Node} (h : ∀ n ∈ nodes, s.allocated n = true) :
    s.touch nodes = s := if_pos (List.all_eq_true.mpr h)

end Invariant

section Steps

variable {s s' : State} {xs xs' : List Nat} {ls : List Local} {l l' : Local} {i j x : Nat}
variable {a : Act} {r : Resp a} {ok : Bool}

structure Frame (s s' : State) (xs xs' : List Nat) (l : Local) : Prop where
  held : ∀ x, l.held = some x → s'.tidData x = s.tidData x ∧ (x ∈ xs → x ∈ xs')
  working : ∀ t, l.tid = some t → s'.working t = s.working t
  handler : s.handler = true → s'.handler = true
  inside : l.inside = true → xs' = xs ∧ (∀ x ∈ xs, s'.tidData x = s.tidData x) ∧
    ∀ t, s.signalled t = true → s'.signalled t = true

theorem Hit.frame {pid : Int} {ys : List Nat} (h : Hit s pid ys)
    (hdata : ∀ x ∈ ys, s'.tidData x = s.tidData x)
    (hsignalled : ∀ t, s.signalled t = true → s'.signalled t = true) : Hit s' pid ys := by
  intro x hx hpid
  rw [hdata x hx] at hpid ⊢
  exact hsignalled _ (h x hx hpid)

theorem Scanned.frame {sc : Scan} (h : Scanned s xs sc)
    (hdata : ∀ x ∈ xs, s'.tidData x = s.tidData x)
    (hsignalled : ∀ t, s.signalled t = true → s'.signalled t = true) : Scanned s' xs sc := by
  obtain ⟨ys, zs, rfl, hhit⟩ := h.passed
  have hnode : s'.tidData sc.node = s.tidData sc.node := hdata _ (by simp)
  refine ⟨⟨ys, zs, rfl, hhit.frame (fun x hx => hdata x (by simp [hx])) hsignalled⟩,
    fun d hd => ?_, fun hsent => ?_⟩
  · rw [hnode]
    exact h.data d hd
  · rw [hnode]
    exact hsignalled _ (h.sent hsent)

theorem Fits.frame (h : Fits s xs l) (hf : Frame s s' xs xs' l) : Fits s' xs' l where
  failed := h.failed
  linked hlinked := by
    obtain ⟨t, x, p, ht, hx, hp, hmem⟩ := h.linked hlinked
    exact ⟨t, x, p, ht, hx, hp, (hf.held x hx).2 hmem⟩
  filled t x p ht hx hp := by
    rw [(hf.held x hx).1]
    exact h.filled t x p ht hx hp
  working t ht := by
    rw [hf.working t ht]
    exact h.working t ht
  handler hl := hf.handler (h.handler hl)
  scan hin sc hsc := by
    obtain ⟨rfl, hdata, hsignalled⟩ := hf.inside hin
    exact (h.scan hin sc hsc).frame hdata hsignalled
  ended hin pid hpid := by
    obtain ⟨rfl, hdata, hsignalled⟩ := hf.inside hin
    exact (h.ended hin pid hpid).frame hdata hsignalled

theorem Inv.set (h : Inv s ls xs) (hi : ls[i]? = some l)
    (hring : IsRing s'.links none (xs'.map some)) (hown : Fits s' xs' l')
    (hframe : ∀ (j : Nat) (m : Local), i ≠ j → ls[j]? = some m → Frame s s' xs xs' m)
    (hlisted : ∀ x ∈ xs', (l'.linked = true ∧ l'.held = some x) ∨
      (x ∈ xs ∧ ¬ (l.linked = true ∧ l.held = some x)))
    (hnodes : ∀ x, (decide (l'.held = some x)).toNat + s'.frees x + (decide (x < s.next)).toNat =
      (decide (l.held = some x)).toNat + s.frees x + (decide (x < s'.next)).toNat)
    (htids : ∀ t, (decide (l'.tid = some t)).toNat + (decide (t < s.threads)).toNat =
      (decide (l.tid = some t)).toNat + (decide (t < s'.threads)).toNat)
    (hidle : ∀ t, s'.threads ≤ t → s'.working t = none)
    (hlocked : l'.inside.toNat + s.locked.toNat = l.inside.toNat + s'.locked.toNat)
    (hsent : ∀ x ∈ s'.sent, x.working = some x.pid) (hwild : s'.wild = 0)
    (hunhandled : s'.unhandled = 0) : Inv s' (ls.set i l') xs' := by
  have hlen := (List.getElem?_eq_some_iff.mp hi).1
  refine ⟨hring, fun m hm => ?_, fun x hx => ?_, fun x => ?_, fun t => ?_, hidle, ?_, hsent, hwild,
    hunhandled⟩
  · obtain ⟨j, hj⟩ := List.mem_iff_getElem?.mp hm
    by_cases hij : i = j
    · subst hij
      rw [List.getElem?_set_self hlen] at hj
      exact Option.some.inj hj ▸ hown
    · rw [List.getElem?_set_ne hij] at hj
      exact (h.fits m (List.mem_of_getElem? hj)).frame (hframe j m hij hj)
  · rcases hlisted x hx with hnew | ⟨hold, hnot⟩
    · exact ⟨l', List.mem_set hlen l', hnew⟩
    · obtain ⟨m, hm, hlinked⟩ := h.listed x hold
      obtain ⟨j, hj⟩ := List.mem_iff_getElem?.mp hm
      have hij : i ≠ j := by
        rintro rfl
        obtain rfl := Option.some.inj (hi.symm.trans hj)
        exact hnot hlinked
      exact ⟨m, List.mem_of_getElem? ((List.getElem?_set_ne hij).trans hj), hlinked⟩
  · have htotal := total_set (fun l => (decide (l.held = some x)).toNat) hi l'
    have hbefore := h.nodes x
    have heq := hnodes x
    omega
  · have htotal := total_set (fun l => (decide (l.tid = some t)).toNat) hi l'
    have hbefore := h.tids t
    have heq := htids t
    omega
  · have htotal := total_set (fun l => l.inside.toNat) hi l'
    have hbefore := h.locked
    omega

structure Kept (s s' : State) : Prop where
  links : s'.links = s.links
  tidData : s'.tidData = s.tidData
  working : s'.working = s.working
  handler : s.handler = true → s'.handler = true
  signalled : ∀ t, s.signalled t = true → s'.signalled t = true

theorem Kept.frame (h : Kept s s') : Frame s s' xs xs l where
  held x _ := ⟨congrFun h.tidData x, fun hx => hx⟩
  working t _ := congrFun h.working t
  handler := h.handler
  inside _ := ⟨rfl, fun x _ => congrFun h.tidData x, h.signalled⟩

theorem Inv.keep (h : Inv s ls xs) (hi : ls[i]? = some l) (hkept : Kept s s') (hown : Fits s' xs l')
    (hlinked : l'.linked = l.linked) (hheld : l.linked = true → l'.held = l.held)
    (hnodes : ∀ x, (decide (l'.held = some x)).toNat + s'.frees x + (decide (x < s.next)).toNat =
      (decide (l.held = some x)).toNat + s.frees x + (decide (x < s'.next)).toNat)
    (htids : ∀ t, (decide (l'.tid = some t)).toNat + (decide (t < s.threads)).toNat =
      (decide (l.tid = some t)).toNat + (decide (t < s'.threads)).toNat)
    (hthreads : s.threads ≤ s'.threads)
    (hlocked : l'.inside.toNat + s.locked.toNat = l.inside.toNat + s'.locked.toNat)
    (hsent : ∀ x ∈ s'.sent, x.working = some x.pid) (hwild : s'.wild = 0)
    (hunhandled : s'.unhandled = 0) : Inv s' (ls.set i l') xs := by
  refine h.set hi (hkept.links ▸ h.ring) hown (fun _ _ _ _ => hkept.frame) (fun x hx => ?_) hnodes
    htids (fun t ht => ?_) hlocked hsent hwild hunhandled
  · by_cases hown' : l.linked = true ∧ l.held = some x
    · exact .inl ⟨hlinked.trans hown'.1, (hheld hown'.1).trans hown'.2⟩
    · exact .inr ⟨hx, hown'⟩
  · rw [hkept.working]
    exact h.idle t (hthreads.trans ht)

theorem Inv.plain (h : Inv s ls xs) (hi : ls[i]? = some l) (hkept : Kept s s')
    (hown : Fits s' xs l') (hl : l'.linked = l.linked ∧ l'.held = l.held ∧ l'.tid = l.tid)
    (hs : s'.next = s.next ∧ s'.frees = s.frees ∧ s'.threads = s.threads)
    (hlocked : l'.inside.toNat + s.locked.toNat = l.inside.toNat + s'.locked.toNat)
    (hsent : ∀ x ∈ s'.sent, x.working = some x.pid) (hwild : s'.wild = 0)
    (hunhandled : s'.unhandled = 0) : Inv s' (ls.set i l') xs := by
  obtain ⟨hlinked, hheld, htid⟩ := hl
  obtain ⟨hnext, hfrees, hthreads⟩ := hs
  refine h.keep hi hkept hown hlinked (fun _ => hheld) (fun x => ?_) (fun t => ?_) hthreads.ge
    hlocked hsent hwild hunhandled
  · rw [hheld, hnext, hfrees]
  · rw [htid, hthreads]

theorem Fits.not_linked (h : Fits s xs l) (hnone : l.tid = none ∨ l.held = none ∨ l.filled = none) :
    l.linked = false := by
  by_contra hlinked
  obtain ⟨t, x, p, ht, hx, hp, -⟩ := h.linked (Bool.not_eq_false _ |>.mp hlinked)
  rcases hnone with hnone | hnone | hnone
  · cases ht.symm.trans hnone
  · cases hx.symm.trans hnone
  · cases hp.symm.trans hnone

theorem Inv.notMem (h : Inv s ls xs) (hi : ls[i]? = some l) (hheld : l.held = some x)
    (hlinked : l.linked = false) : x ∉ xs := by
  intro hx
  obtain ⟨m, hm, hmlinked, hmheld⟩ := h.listed x hx
  obtain ⟨j, hj⟩ := List.mem_iff_getElem?.mp hm
  by_cases hij : i = j
  · subst hij
    obtain rfl := Option.some.inj (hi.symm.trans hj)
    rw [hlinked] at hmlinked
    cases hmlinked
  · exact h.held_ne hi hheld hij hj hmheld

theorem inv_clone {r : Resp .clone} (h : Inv s ls xs) (hi : ls[i]? = some l) (hpre : Pre l .clone)
    (hexec : s.exec ok .clone = some (r, s')) : Inv s' (ls.set i (l.upd .clone r)) xs := by
  obtain ⟨htid, hheld⟩ := hpre
  have hl := h.fits l (List.mem_of_getElem? hi)
  have hlinked := hl.not_linked (.inl htid)
  obtain ⟨rfl, rfl⟩ := Prod.mk.inj (Option.some.inj hexec)
  have hkept : Kept s { s with threads := s.threads + 1 } :=
    ⟨rfl, rfl, rfl, fun h => h, fun _ h => h⟩
  have hl' : Fits { s with threads := s.threads + 1 } xs l := hl.frame hkept.frame
  refine h.keep hi hkept ⟨hl.failed, fun h => ?_, fun t x p _ hx => ?_, fun t ht => ?_, hl.handler,
    hl'.scan, hl'.ended⟩ rfl (fun _ => rfl) (fun _ => rfl) (fun t => ?_) (Nat.le_succ _) rfl h.sent
    h.wild h.unhandled
  · cases hlinked.symm.trans h
  · cases hheld.symm.trans hx
  · obtain rfl : s.threads = t := Option.some.inj ht
    simpa [Local.upd, hlinked] using h.idle s.threads le_rfl
  · simp only [Local.upd, htid, Option.some.injEq]
    by_cases hlt : t < s.threads
    · simp [hlt, Nat.lt_succ_of_lt hlt, hlt.ne']
    · by_cases heq : s.threads = t
      · simp [heq]
      · simp [hlt, heq, show ¬ t < s.threads + 1 by omega]

theorem inv_malloc {r : Resp .malloc} (h : Inv s ls xs) (hi : ls[i]? = some l)
    (hpre : Pre l .malloc) (hexec : s.exec ok .malloc = some (r, s')) :
    Inv s' (ls.set i (l.upd .malloc r)) xs := by
  obtain ⟨hheld, hfilled⟩ := hpre
  have hl := h.fits l (List.mem_of_getElem? hi)
  have hlinked := hl.not_linked (.inr (.inl hheld))
  have hown (s' : State) (x : Option Nat) (hkept : Kept s s') :
      Fits s' xs (l.upd .malloc x) := by
    have hl' : Fits s' xs l := hl.frame hkept.frame
    refine ⟨hl'.failed, fun h => ?_, fun t x p _ _ hp => ?_, hl'.working, hl'.handler, hl'.scan,
      hl'.ended⟩
    · cases hlinked.symm.trans h
    · cases hfilled.symm.trans hp
  simp only [State.exec] at hexec
  split_ifs at hexec
  all_goals obtain ⟨rfl, rfl⟩ := Prod.mk.inj (Option.some.inj hexec)
  · have hkept : Kept s { s with next := s.next + 1 } := ⟨rfl, rfl, rfl, fun h => h, fun _ h => h⟩
    refine h.keep hi hkept (hown _ _ hkept) rfl (fun h => by cases hlinked.symm.trans h)
      (fun x => ?_) (fun _ => rfl) le_rfl rfl h.sent h.wild h.unhandled
    simp only [Local.upd, hheld, Option.some.injEq]
    by_cases hlt : x < s.next
    · simp [hlt, Nat.lt_succ_of_lt hlt, hlt.ne']
    · by_cases heq : s.next = x
      · simp [heq]
        omega
      · simp [hlt, heq, show ¬ x < s.next + 1 by omega]
  · have hkept : Kept s s := ⟨rfl, rfl, rfl, fun h => h, fun _ h => h⟩
    exact h.plain hi hkept (hown _ _ hkept) ⟨rfl, hheld.symm, rfl⟩ ⟨rfl, rfl, rfl⟩ rfl h.sent
      h.wild h.unhandled

theorem inv_setTidData {d : TidData} {r : Resp (.setTidData x d)} (h : Inv s ls xs)
    (hi : ls[i]? = some l) (hpre : Pre l (.setTidData x d))
    (hexec : s.exec ok (.setTidData x d) = some (r, s')) :
    Inv s' (ls.set i (l.upd (.setTidData x d) r)) xs := by
  obtain ⟨hheld, hfilled, htid⟩ := hpre
  have hl := h.fits l (List.mem_of_getElem? hi)
  have hlinked := hl.not_linked (.inr (.inr hfilled))
  have hnot := h.notMem hi hheld hlinked
  have hne {y : Nat} (hy : y ∈ xs) : y ≠ x := fun heq => hnot (heq ▸ hy)
  simp only [State.exec] at hexec
  rw [touch_eq (by simpa using h.allocated_of_held (List.mem_of_getElem? hi) hheld)] at hexec
  obtain ⟨rfl, rfl⟩ := Prod.mk.inj (Option.some.inj hexec)
  have hdata : ∀ y ∈ xs, Function.update s.tidData x d y = s.tidData y := fun y hy =>
    Function.update_of_ne (hne hy) _ _
  refine h.set hi (h.ring.init (by simpa using hnot)) ⟨hl.failed, fun h => ?_,
    fun t y p ht hy hp => ?_, fun t ht => ?_, hl.handler, fun hin sc hsc => ?_,
    fun hin pid hpid => ?_⟩ (fun j m hij hj => ?_) (fun y hy => .inr ⟨hy, ?_⟩) (fun _ => rfl)
    (fun _ => rfl) h.idle rfl h.sent h.wild h.unhandled
  · cases hlinked.symm.trans h
  · obtain rfl : x = y := Option.some.inj (hheld.symm.trans hy)
    obtain rfl : d.tid = t := Option.some.inj (htid.symm.trans ht)
    obtain rfl : d.callingPid = p := Option.some.inj hp
    exact Function.update_self _ _ _
  · have hworking := hl.working t ht
    rw [if_neg (Bool.eq_false_iff.mp hlinked)] at hworking
    exact hworking.trans (if_neg (Bool.eq_false_iff.mp hlinked)).symm
  · exact (hl.scan hin sc hsc).frame hdata fun _ h => h
  · exact (hl.ended hin pid hpid).frame hdata fun _ h => h
  · refine ⟨fun y hy => ⟨Function.update_of_ne ?_ _ _, fun h => h⟩, fun _ _ => rfl, fun h => h,
      fun _ => ⟨rfl, hdata, fun _ h => h⟩⟩
    rintro rfl
    exact h.held_ne hi hheld hij hj hy
  · rintro ⟨h, -⟩
    cases hlinked.symm.trans h

theorem inv_lock {r : Resp .lock} (h : Inv s ls xs) (hi : ls[i]? = some l) (hpre : Pre l .lock)
    (hexec : s.exec ok .lock = some (r, s')) (hlocks : locks .lock r = true) :
    Inv s' (ls.set i (l.upd .lock r)) xs := by
  obtain ⟨hin, hscan, hended⟩ := hpre
  have hl := h.fits l (List.mem_of_getElem? hi)
  simp only [State.exec] at hexec
  split_ifs at hexec with hok hfree
  all_goals obtain ⟨rfl, rfl⟩ := Prod.mk.inj (Option.some.inj hexec)
  · have hkept : Kept s { s with locked := true } := ⟨rfl, rfl, rfl, fun h => h, fun _ h => h⟩
    refine h.plain hi hkept ⟨by simp [Local.upd, hl.failed], hl.linked, hl.filled, hl.working,
      hl.handler, ?_, ?_⟩ ⟨rfl, rfl, rfl⟩ ⟨rfl, rfl, rfl⟩ ?_ h.sent h.wild h.unhandled
    · simp [Local.upd, hscan]
    · simp [Local.upd, hended]
    · simp [Local.upd, hin, Bool.eq_false_iff.mpr hfree]
  · cases hlocks

theorem inv_unlock {r : Resp .unlock} (h : Inv s ls xs) (hi : ls[i]? = some l)
    (hpre : Pre l .unlock) (hexec : s.exec ok .unlock = some (r, s')) :
    Inv s' (ls.set i (l.upd .unlock r)) xs := by
  have hin : l.inside = true := hpre
  have hl := h.fits l (List.mem_of_getElem? hi)
  have hlocked : s.locked = true := by
    by_contra hnot
    have hle := le_total (fun l => l.inside.toNat) (List.mem_of_getElem? hi)
    have htotal := h.locked
    simp only [hin, Bool.toNat_true] at hle
    simp only [Bool.not_eq_true] at hnot
    simp only [hnot, Bool.toNat_false] at htotal
    omega
  obtain ⟨rfl, rfl⟩ := Prod.mk.inj (Option.some.inj hexec)
  have hkept : Kept s { s with locked := false } := ⟨rfl, rfl, rfl, fun h => h, fun _ h => h⟩
  refine h.plain hi hkept ⟨hl.failed, hl.linked, hl.filled, hl.working, hl.handler, ?_, ?_⟩
    ⟨rfl, rfl, rfl⟩ ⟨rfl, rfl, rfl⟩ ?_ h.sent h.wild h.unhandled
  · simp [Local.upd]
  · simp [Local.upd]
  · simp [Local.upd, hin, hlocked]

theorem inv_listInsertTail {r : Resp (.listInsertTail x)} (h : Inv s ls xs) (hi : ls[i]? = some l)
    (hpre : Pre l (.listInsertTail x)) (hexec : s.exec ok (.listInsertTail x) = some (r, s')) :
    Inv s' (ls.set i (l.upd (.listInsertTail x) r)) (xs ++ [x]) := by
  obtain ⟨hin, hscan, hended, hlinked, hheld, hfilled, htid⟩ := hpre
  obtain ⟨p, hp⟩ := Option.isSome_iff_exists.mp hfilled
  obtain ⟨t, ht⟩ := Option.isSome_iff_exists.mp htid
  have hl := h.fits l (List.mem_of_getElem? hi)
  have hnot := h.notMem hi hheld hlinked
  have hdata := hl.filled t x p ht hheld hp
  have htouch : ∀ n ∈ [some x, s.links.prev none], s.allocated n = true := by
    refine List.forall_mem_cons.mpr ⟨h.allocated_of_held (List.mem_of_getElem? hi) hheld, ?_⟩
    exact List.forall_mem_singleton.mpr (h.allocated_of_node (h.ring.prev_mem List.mem_cons_self))
  simp only [State.exec] at hexec
  rw [touch_eq htouch, hdata] at hexec
  obtain ⟨rfl, rfl⟩ := Prod.mk.inj (Option.some.inj hexec)
  have hthread : t < s.threads := by
    have hle := le_total (fun l => (decide (l.tid = some t)).toNat) (List.mem_of_getElem? hi)
    have htids := h.tids t
    by_contra hge
    simp only [ht, decide_true, Bool.toNat_true] at hle
    simp only [hge, decide_false, Bool.toNat_false] at htids
    omega
  refine h.set hi ?_ ⟨hl.failed, fun _ => ?_, hl.filled, fun u hu => ?_, hl.handler, ?_, ?_⟩
    (fun j m hij hj => ?_) (fun y hy => ?_) (fun _ => rfl) (fun _ => rfl) (fun u hu => ?_) rfl
    h.sent h.wild h.unhandled
  · rw [List.map_append]
    exact h.ring.insertTail (by simpa using hnot)
  · exact ⟨t, x, p, ht, hheld, hp, by simp⟩
  · obtain rfl : t = u := Option.some.inj (ht.symm.trans hu)
    simp [Local.upd, hp]
  · simp [Local.upd, hscan]
  · simp [Local.upd, hended]
  · refine ⟨fun y _ => ⟨rfl, fun hy => List.mem_append_left _ hy⟩, fun u hu => ?_, fun h => h,
      fun hm => ?_⟩
    · refine Function.update_of_ne ?_ _ _
      rintro rfl
      exact h.tid_ne hi ht hij hj hu
    · cases (h.alone hi hin hij hj).symm.trans hm
  · rcases List.mem_append.mp hy with hy | hy
    · exact .inr ⟨hy, fun hown => by cases hlinked.symm.trans hown.1⟩
    · obtain rfl := List.mem_singleton.mp hy
      exact .inl ⟨rfl, hheld⟩
  · have hne : u ≠ t := fun heq => absurd hthread (heq ▸ hu).not_gt
    exact (Function.update_of_ne hne _ _).trans (h.idle u hu)

theorem inv_listRemoveEntry {r : Resp (.listRemoveEntry x)} (h : Inv s ls xs)
    (hi : ls[i]? = some l) (hpre : Pre l (.listRemoveEntry x))
    (hexec : s.exec ok (.listRemoveEntry x) = some (r, s')) :
    Inv s' (ls.set i (l.upd (.listRemoveEntry x) r)) (xs.erase x) := by
  have hl := h.fits l (List.mem_of_getElem? hi)
  obtain ⟨hin, hscan, hended, hlinked, hheld⟩ := hpre.resolve_left (by simp [hl.failed])
  obtain ⟨t, y, p, ht, hy, hp, hmem⟩ := hl.linked hlinked
  obtain rfl : x = y := Option.some.inj (hheld.symm.trans hy)
  have hdata := hl.filled t x p ht hheld hp
  have hnode : some x ∈ none :: xs.map some := by simpa using hmem
  have htouch : ∀ n ∈ [some x, s.links.prev (some x), s.links.next (some x)],
      s.allocated n = true := by
    refine List.forall_mem_cons.mpr ⟨h.allocated_of_node hnode, List.forall_mem_cons.mpr
      ⟨h.allocated_of_node (h.ring.prev_mem hnode), ?_⟩⟩
    exact List.forall_mem_singleton.mpr (h.allocated_of_node (h.ring.next_mem hnode))
  simp only [State.exec] at hexec
  rw [touch_eq htouch, hdata] at hexec
  obtain ⟨rfl, rfl⟩ := Prod.mk.inj (Option.some.inj hexec)
  have hnodup : xs.Nodup := List.Nodup.of_map some (List.nodup_cons.mp h.ring.nodup).2
  refine h.set hi ?_ ⟨hl.failed, by simp [Local.upd], hl.filled, fun u hu => ?_, hl.handler, ?_, ?_⟩
    (fun j m hij hj => ?_) (fun y hy => ?_) (fun _ => rfl) (fun _ => rfl) (fun u hu => ?_) rfl
    h.sent h.wild h.unhandled
  · obtain ⟨ys, zs, rfl⟩ := List.mem_iff_append.mp hmem
    have hys : x ∉ ys := by
      have := List.nodup_append.mp hnodup
      exact fun hx => this.2.2 x hx x List.mem_cons_self rfl
    rw [List.erase_append_right _ hys, List.erase_cons_head, List.map_append]
    refine IsRing.removeEntry ?_
    simpa using h.ring
  · obtain rfl : t = u := Option.some.inj (ht.symm.trans hu)
    simp [Local.upd]
  · simp [Local.upd, hscan]
  · simp [Local.upd, hended]
  · refine ⟨fun z hz => ⟨rfl, fun hzs => (List.mem_erase_of_ne ?_).mpr hzs⟩, fun u hu => ?_,
      fun h => h, fun hm => ?_⟩
    · rintro rfl
      exact h.held_ne hi hheld hij hj hz
    · refine Function.update_of_ne ?_ _ _
      rintro rfl
      exact h.tid_ne hi ht hij hj hu
    · cases (h.alone hi hin hij hj).symm.trans hm
  · obtain ⟨hne, hy⟩ := (hnodup.mem_erase_iff).mp hy
    refine .inr ⟨hy, fun hown => hne ?_⟩
    exact Option.some.inj (hown.2.symm.trans hheld)
  · by_cases heq : u = t
    · simp [heq]
    · exact (Function.update_of_ne heq _ _).trans (h.idle u hu)

theorem inv_free {r : Resp (.free x)} (h : Inv s ls xs) (hi : ls[i]? = some l)
    (hpre : Pre l (.free x)) (hexec : s.exec ok (.free x) = some (r, s')) :
    Inv s' (ls.set i (l.upd (.free x) r)) xs := by
  obtain ⟨hlinked, hheld⟩ := hpre
  have hl := h.fits l (List.mem_of_getElem? hi)
  simp only [State.exec] at hexec
  rw [touch_eq (by simpa using h.allocated_of_held (List.mem_of_getElem? hi) hheld)] at hexec
  obtain ⟨rfl, rfl⟩ := Prod.mk.inj (Option.some.inj hexec)
  have hkept : Kept s { s with frees := Function.update s.frees x (s.frees x + 1) } :=
    ⟨rfl, rfl, rfl, fun h => h, fun _ h => h⟩
  have hl' : Fits { s with frees := Function.update s.frees x (s.frees x + 1) } xs l :=
    hl.frame hkept.frame
  refine h.keep hi hkept ⟨hl.failed, fun h => ?_, fun t y p _ hy => ?_, fun t ht => ?_, hl.handler,
    hl'.scan, hl'.ended⟩ rfl (fun h => ?_) (fun y => ?_) (fun _ => rfl) le_rfl rfl h.sent h.wild
    h.unhandled
  · cases hlinked.symm.trans h
  · cases hy
  · have hworking := hl.working t ht
    rw [if_neg (Bool.eq_false_iff.mp hlinked)] at hworking
    exact hworking.trans (if_neg (Bool.eq_false_iff.mp hlinked)).symm
  · cases hlinked.symm.trans h
  · simp only [Local.upd, hheld, Option.some.injEq]
    by_cases heq : x = y
    · subst heq
      simp
      omega
    · simp [heq, Function.update_of_ne (Ne.symm heq)]

theorem inv_driver {r : Resp .driver} (h : Inv s ls xs) (hi : ls[i]? = some l)
    (hexec : s.exec ok .driver = some (r, s')) : Inv s' (ls.set i (l.upd .driver r)) xs := by
  obtain ⟨rfl, rfl⟩ := Prod.mk.inj (Option.some.inj hexec)
  exact h.plain hi ⟨rfl, rfl, rfl, fun h => h, fun _ h => h⟩ (h.fits l (List.mem_of_getElem? hi))
    ⟨rfl, rfl, rfl⟩ ⟨rfl, rfl, rfl⟩ rfl h.sent h.wild h.unhandled

theorem inv_signal {r : Resp .signal} (h : Inv s ls xs) (hi : ls[i]? = some l)
    (hexec : s.exec ok .signal = some (r, s')) : Inv s' (ls.set i (l.upd .signal r)) xs := by
  have hl := h.fits l (List.mem_of_getElem? hi)
  obtain ⟨rfl, rfl⟩ := Prod.mk.inj (Option.some.inj hexec)
  have hkept : Kept s { s with handler := true } := ⟨rfl, rfl, rfl, fun _ => rfl, fun _ h => h⟩
  have hl' : Fits { s with handler := true } xs l := hl.frame hkept.frame
  exact h.plain hi hkept ⟨hl.failed, hl.linked, hl.filled, hl.working, fun _ => rfl, hl'.scan,
    hl'.ended⟩ ⟨rfl, rfl, rfl⟩ ⟨rfl, rfl, rfl⟩ rfl h.sent h.wild h.unhandled

theorem inv_listNext {ptr : Node} {pid : Int} {r : Resp (.listNext ptr pid)} (h : Inv s ls xs)
    (hi : ls[i]? = some l) (hpre : Pre l (.listNext ptr pid))
    (hexec : s.exec ok (.listNext ptr pid) = some (r, s')) :
    Inv s' (ls.set i (l.upd (.listNext ptr pid) r)) xs := by
  obtain ⟨hin, hptr⟩ := hpre
  have hl := h.fits l (List.mem_of_getElem? hi)
  -- What was passed, the node at `ptr` included.
  obtain ⟨as, ys, zs, hxs, has, hhit⟩ : ∃ (as : List Node) (ys zs : List Nat), xs = ys ++ zs ∧
      none :: ys.map some = as ++ [ptr] ∧ Hit s pid ys := by
    cases ptr with
    | none => exact ⟨[], [], xs, rfl, rfl, by simp [Hit]⟩
    | some x =>
      obtain ⟨sc, hsc, rfl, rfl, d, hd, hpassed⟩ := hptr x rfl
      have hscanned := hl.scan hin sc hsc
      obtain ⟨ys, zs, hxs, hhit⟩ := hscanned.passed
      refine ⟨none :: ys.map some, ys ++ [sc.node], zs, by simp [hxs], by simp, fun y hy hpid => ?_⟩
      rcases List.mem_append.mp hy with hy | hy
      · exact hhit y hy hpid
      · obtain rfl := List.mem_singleton.mp hy
        refine hscanned.sent (hpassed ?_)
        rw [hscanned.data d hd]
        exact hpid
  have hsplit : none :: xs.map some = as ++ ptr :: zs.map some := by
    rw [hxs, List.map_append, ← List.cons_append, has]
    simp
  have hnext : s.links.next ptr = (zs.map some).headD none := h.ring.next_suffix hsplit
  have hmem : ptr ∈ none :: xs.map some := by
    rw [hsplit]
    simp
  simp only [State.exec] at hexec
  rw [touch_eq (List.forall_mem_singleton.mpr (h.allocated_of_node hmem)), hnext] at hexec
  obtain ⟨rfl, rfl⟩ := Prod.mk.inj (Option.some.inj hexec)
  have hkept : Kept s s := ⟨rfl, rfl, rfl, fun h => h, fun _ h => h⟩
  cases zs with
  | nil =>
    refine h.plain hi hkept ⟨hl.failed, hl.linked, hl.filled, hl.working, hl.handler, ?_,
      fun _ p hp => ?_⟩ ⟨rfl, rfl, rfl⟩ ⟨rfl, rfl, rfl⟩ rfl h.sent h.wild h.unhandled
    · simp [Local.upd]
    · obtain rfl : pid = p := Option.some.inj hp
      rwa [hxs, List.append_nil]
  | cons z zs =>
    refine h.plain hi hkept ⟨hl.failed, hl.linked, hl.filled, hl.working, hl.handler,
      fun _ sc hsc => ?_, ?_⟩ ⟨rfl, rfl, rfl⟩ ⟨rfl, rfl, rfl⟩ rfl h.sent h.wild h.unhandled
    · obtain rfl : (⟨pid, z, none, false⟩ : Scan) = sc := Option.some.inj hsc
      exact ⟨⟨ys, zs, hxs, hhit⟩, by simp, by simp⟩
    · simp [Local.upd]

theorem inv_readTidData {r : Resp (.readTidData x)} (h : Inv s ls xs) (hi : ls[i]? = some l)
    (hpre : Pre l (.readTidData x)) (hexec : s.exec ok (.readTidData x) = some (r, s')) :
    Inv s' (ls.set i (l.upd (.readTidData x) r)) xs := by
  obtain ⟨hin, sc, hsc, rfl⟩ := hpre
  have hl := h.fits l (List.mem_of_getElem? hi)
  have hscanned := hl.scan hin sc hsc
  have hmem : some sc.node ∈ none :: xs.map some := by
    obtain ⟨ys, zs, hxs, -⟩ := hscanned.passed
    simp [hxs]
  simp only [State.exec] at hexec
  rw [touch_eq (List.forall_mem_singleton.mpr (h.allocated_of_node hmem))] at hexec
  obtain ⟨rfl, rfl⟩ := Prod.mk.inj (Option.some.inj hexec)
  refine h.plain hi ⟨rfl, rfl, rfl, fun h => h, fun _ h => h⟩ ⟨hl.failed, hl.linked, hl.filled,
    hl.working, hl.handler, fun _ sc' hsc' => ?_, hl.ended⟩ ⟨rfl, rfl, rfl⟩ ⟨rfl, rfl, rfl⟩ rfl
    h.sent h.wild h.unhandled
  obtain rfl : { sc with data := some (s.tidData sc.node) } = sc' := by
    simpa [Local.upd, hsc] using hsc'
  refine ⟨hscanned.passed, fun d hd => ?_, hscanned.sent⟩
  exact (Option.some.inj hd).symm

theorem inv_tgkill {tid : Nat} {pid : Int} {r : Resp (.tgkill tid pid)} (h : Inv s ls xs)
    (hi : ls[i]? = some l) (hpre : Pre l (.tgkill tid pid))
    (hexec : s.exec ok (.tgkill tid pid) = some (r, s')) :
    Inv s' (ls.set i (l.upd (.tgkill tid pid) r)) xs := by
  obtain ⟨hin, hhandler, sc, hsc, rfl, hd⟩ := hpre
  have hl := h.fits l (List.mem_of_getElem? hi)
  have hscanned := hl.scan hin sc hsc
  have hdata := hscanned.data _ hd
  -- The thread whose entry this is.
  have hworking : s.working tid = some sc.pid := by
    obtain ⟨ys, zs, hxs, -⟩ := hscanned.passed
    obtain ⟨m, hm, hlinked, hheld⟩ := h.listed sc.node (by simp [hxs])
    have hfits := h.fits m hm
    obtain ⟨t, x, p, ht, hx, hp, -⟩ := hfits.linked hlinked
    obtain rfl : sc.node = x := Option.some.inj (hheld.symm.trans hx)
    obtain ⟨rfl, rfl⟩ := TidData.mk.inj (hdata.trans (hfits.filled t _ p ht hx hp))
    rw [hfits.working _ ht, if_pos hlinked, hp]
  obtain rfl : ok = true := by
    by_contra hfails
    simp only [State.exec, hworking, if_neg hfails, Option.isSome_some, if_true] at hexec
    cases hexec
  obtain ⟨-, rfl⟩ := Prod.mk.inj (Option.some.inj hexec)
  have hmono : ∀ t, s.signalled t = true → Function.update s.signalled tid true t = true := by
    intro t ht
    by_cases heq : t = tid
    · simp [heq]
    · rwa [Function.update_of_ne heq]
  refine h.plain hi ⟨rfl, rfl, rfl, fun h => h, hmono⟩ ⟨hl.failed, hl.linked, hl.filled, hl.working,
    hl.handler, fun _ sc' hsc' => ?_, fun hin p hp => ?_⟩ ⟨rfl, rfl, rfl⟩ ⟨rfl, rfl, rfl⟩ rfl ?_
    h.wild ?_
  · obtain rfl : { sc with sent := true } = sc' := by simpa [Local.upd, hsc] using hsc'
    have hframed : Scanned { s with signalled := Function.update s.signalled tid true } xs sc :=
      hscanned.frame (fun _ _ => rfl) hmono
    refine ⟨hframed.passed, hframed.data, fun _ => ?_⟩
    simp [← hdata]
  · exact (hl.ended hin p hp).frame (fun _ _ => rfl) hmono
  · exact List.forall_mem_cons.mpr ⟨hworking, h.sent⟩
  · rw [if_pos (hl.handler hhandler)]
    exact h.unhandled

theorem inv_step (h : Inv s ls xs) (hi : ls[i]? = some l) (hpre : Pre l a)
    (hexec : s.exec ok a = some (r, s')) (hlocks : locks a r = true) :
    ∃ xs', Inv s' (ls.set i (l.upd a r)) xs' := by
  cases a with
  | clone => exact ⟨xs, inv_clone h hi hpre hexec⟩
  | malloc => exact ⟨xs, inv_malloc h hi hpre hexec⟩
  | setTidData x d => exact ⟨xs, inv_setTidData h hi hpre hexec⟩
  | lock => exact ⟨xs, inv_lock h hi hpre hexec hlocks⟩
  | unlock => exact ⟨xs, inv_unlock h hi hpre hexec⟩
  | listInsertTail x => exact ⟨xs ++ [x], inv_listInsertTail h hi hpre hexec⟩
  | listRemoveEntry x => exact ⟨xs.erase x, inv_listRemoveEntry h hi hpre hexec⟩
  | free x => exact ⟨xs, inv_free h hi hpre hexec⟩
  | driver => exact ⟨xs, inv_driver h hi hexec⟩
  | signal => exact ⟨xs, inv_signal h hi hexec⟩
  | listNext ptr pid => exact ⟨xs, inv_listNext h hi hpre hexec⟩
  | readTidData x => exact ⟨xs, inv_readTidData h hi hpre hexec⟩
  | tgkill tid pid => exact ⟨xs, inv_tgkill h hi hpre hexec⟩

end Steps

section Programs

variable {l : Local} {tid x : Nat} {pid : Int}

structure Free (tid : Nat) (l : Local) : Prop where
  tid : l.tid = some tid
  held : l.held = none
  filled : l.filled = none
  linked : l.linked = false
  inside : l.inside = false
  scan : l.scan = none
  ended : l.ended = none

structure Working (tid x : Nat) (l : Local) : Prop where
  tid : l.tid = some tid
  held : l.held = some x
  linked : l.linked = true
  inside : l.inside = false
  scan : l.scan = none
  ended : l.ended = none

theorem safe_addTidData (h : Free tid l) :
    Safe threads Pre l (addTidData tid pid) fun tidData l' =>
      (tidData = none → Free tid l') ∧ ∀ x, tidData = some x → Working tid x l' := by
  simp only [addTidData, act, Prog.bind_eq, Prog.pure_eq, Prog.bind_act, Prog.bind_pure]
  refine ⟨⟨h.held, h.filled⟩, fun tidData => ?_⟩
  cases tidData with
  | none => exact ⟨fun _ => ⟨h.tid, rfl, h.filled, h.linked, h.inside, h.scan, h.ended⟩, by simp⟩
  | some x =>
    refine ⟨⟨rfl, h.filled, h.tid⟩, fun _ => ⟨⟨h.inside, h.scan, h.ended⟩, fun locked => ?_⟩⟩
    cases locked with
    | true =>
      refine ⟨⟨rfl, h.scan, h.ended, h.linked, rfl, rfl, ?_⟩, fun _ => ⟨rfl, fun _ =>
        ⟨by simp, fun y hy => ?_⟩⟩⟩
      · exact Option.isSome_iff_exists.mpr ⟨tid, h.tid⟩
      · obtain rfl := Option.some.inj hy
        exact ⟨h.tid, rfl, rfl, rfl, rfl, rfl⟩
    | false =>
      refine ⟨⟨h.linked, rfl⟩, fun _ => ⟨fun _ => ?_, by simp⟩⟩
      exact ⟨h.tid, rfl, rfl, h.linked, rfl, h.scan, h.ended⟩

theorem safe_removeTidFromList (h : Working tid x l) :
    Safe threads Pre l (removeTidFromList x) fun _ => Free tid := by
  simp only [removeTidFromList, act, Prog.bind_eq, Prog.bind_act, Prog.bind_pure]
  refine ⟨⟨h.inside, h.scan, h.ended⟩, fun locked => ?_⟩
  cases locked with
  | true =>
    refine ⟨.inr ⟨rfl, h.scan, h.ended, h.linked, h.held⟩, fun _ => ⟨rfl, fun _ =>
      ⟨⟨rfl, h.held⟩, fun _ => ?_⟩⟩⟩
    exact ⟨h.tid, rfl, rfl, rfl, rfl, rfl, rfl⟩
  | false =>
    refine ⟨.inl (Bool.or_true _), fun _ => ⟨⟨rfl, h.held⟩, fun _ => ?_⟩⟩
    exact ⟨h.tid, rfl, rfl, rfl, rfl, h.scan, h.ended⟩

structure Scanning (tid : Nat) (l : Local) : Prop where
  tid : l.tid = some tid
  held : l.held = none
  filled : l.filled = none
  linked : l.linked = false
  inside : l.inside = true
  handler : l.handler = true

theorem safe_sendSigs {rounds : Nat} {pos : Node} (h : Scanning tid l)
    (hpos : ∀ x, pos = some x → ∃ sc, l.scan = some sc ∧ sc.node = x ∧ sc.pid = pid ∧ sc.Passed) :
    Safe threads Pre l (sendSigs pid rounds pos) fun _ => Scanning tid := by
  induction rounds generalizing l pos with
  | zero => exact h
  | succ rounds ih =>
    simp only [sendSigs, act, Prog.bind_eq, Prog.pure_eq, Prog.bind_act, Prog.bind_pure]
    refine ⟨⟨h.inside, hpos⟩, fun ptr => ?_⟩
    cases ptr with
    | none => exact ⟨h.tid, h.held, h.filled, h.linked, h.inside, h.handler⟩
    | some x =>
      refine ⟨⟨h.inside, ⟨pid, x, none, false⟩, rfl, rfl⟩, fun tmp => ?_⟩
      dsimp only
      split_ifs with hpid
      · subst hpid
        refine ⟨⟨h.inside, h.handler, ⟨tmp.callingPid, x, some tmp, false⟩, rfl, rfl, rfl⟩,
          fun _ => ih ⟨h.tid, h.held, h.filled, h.linked, h.inside, h.handler⟩ fun y hy => ?_⟩
        obtain rfl := Option.some.inj hy
        exact ⟨⟨tmp.callingPid, x, some tmp, true⟩, rfl, rfl, rfl, tmp, rfl, fun _ => rfl⟩
      · refine ih ⟨h.tid, h.held, h.filled, h.linked, h.inside, h.handler⟩ fun y hy => ?_
        obtain rfl := Option.some.inj hy
        exact ⟨⟨pid, x, some tmp, false⟩, rfl, rfl, rfl, tmp, rfl, fun h => absurd h hpid⟩

theorem safe_sendSigToTzdriver {rounds : Nat} (h : Free tid l) :
    Safe threads Pre l (sendSigToTzdriver rounds pid) fun ended l' =>
      l'.held = none ∧ (ended = true → Free tid l') := by
  simp only [sendSigToTzdriver, act, Prog.bind_eq, Prog.pure_eq, Prog.bind_act, Prog.bind_pure]
  refine ⟨trivial, fun _ => ⟨⟨h.inside, h.scan, h.ended⟩, fun locked => ?_⟩⟩
  cases locked with
  | false =>
    exact ⟨h.held, fun _ => ⟨h.tid, h.held, h.filled, h.linked, rfl, h.scan, h.ended⟩⟩
  | true =>
    refine ⟨⟨rfl, by simp⟩, fun first => ?_⟩
    cases first with
    | none =>
      refine ⟨rfl, fun _ => ⟨h.held, fun _ => ?_⟩⟩
      exact ⟨h.tid, h.held, h.filled, h.linked, rfl, rfl, rfl⟩
    | some x =>
      have hscan (l' : Local) (hl' : Scanning tid l') :
          Safe threads Pre l' (sendSigs pid rounds none) fun _ => Scanning tid :=
        safe_sendSigs hl' (by simp)
      refine safe_bind.mpr ((hscan _ ?_).mono fun ended l' hl' => ?_)
      · exact ⟨h.tid, h.held, h.filled, h.linked, rfl, rfl⟩
      · cases ended with
        | false => exact ⟨hl'.held, by simp⟩
        | true =>
          refine ⟨hl'.inside, fun _ => ⟨hl'.held, fun _ => ?_⟩⟩
          exact ⟨hl'.tid, hl'.held, hl'.filled, hl'.linked, rfl, rfl, rfl⟩

theorem safe_errand (e : Errand) (h : Free tid l) :
    Safe threads Pre l (e.program tid) fun ended l' =>
      l'.held = none ∧ (ended = true → Free tid l') := by
  cases e with
  | processCaDied pid rounds => exact safe_sendSigToTzdriver h
  | session pid =>
    simp only [Errand.program, act, Prog.bind_eq, Prog.pure_eq, Prog.bind_act, Prog.bind_pure]
    refine safe_bind.mpr ((safe_addTidData h).mono fun tidData l₁ h₁ => ?_)
    obtain ⟨hnone, hsome⟩ := h₁
    cases tidData with
    | none => exact ⟨(hnone rfl).held, fun _ => hnone rfl⟩
    | some x =>
      have hworking := hsome x rfl
      refine ⟨hworking.linked, fun _ => safe_bind.mpr ?_⟩
      exact (safe_removeTidFromList hworking).mono fun _ l' hl' => ⟨hl'.held, fun _ => hl'⟩

theorem safe_serve (errands : List Errand) (h : Free tid l) :
    Safe threads Pre l (serve tid errands) fun _ l' => l'.held = none := by
  induction errands generalizing l with
  | nil => exact h.held
  | cons e es ih =>
    simp only [serve, Prog.bind_eq, Prog.pure_eq]
    refine safe_bind.mpr ((safe_errand e h).mono fun ended l' hl' => ?_)
    cases ended with
    | true => exact ih (hl'.2 rfl)
    | false => exact hl'.1

theorem safe_thread (errands : List Errand) :
    Safe threads Pre begun (thread errands) fun _ l' => l'.held = none :=
  ⟨⟨rfl, rfl⟩, fun _ => safe_serve errands ⟨rfl, rfl, rfl, rfl, rfl, rfl, rfl⟩⟩

end Programs

section Runs

abbrev Threads := Config Act Resp State Local

def AnyThread (k : Call Act Resp Local) : Prop := ∃ errands, k = ⟨begun, thread errands⟩

abbrev ThreadsReach (cfg : Threads) : Prop :=
  Reaches threads AnyThread (fun _ _ _ a r => locks a r) .init cfg

theorem inv_reaches {cfg : Threads} (h : ThreadsReach cfg) :
    (∃ xs, Inv cfg.state cfg.locs xs) ∧
      ∀ k ∈ cfg.calls, Safe threads Pre k.loc k.prog fun _ l' => l'.held = none := by
  refine Reaches.invariant (I := fun s ls => ∃ xs, Inv s ls xs) ⟨[], ?_⟩ (fun s ls k hk hI => ?_)
    (fun k hk => ?_) (fun s ls i l a r s' hI hi hpre hexec hlocks => ?_) h
  · exact ⟨isRing_init _ _, by simp, by simp, by simp [State.init], by simp [State.init],
      by simp [State.init], rfl, by simp [State.init], rfl, rfl⟩
  · obtain ⟨xs, hinv⟩ := hI
    obtain ⟨errands, rfl⟩ := hk
    refine ⟨xs, hinv.ring, fun l hl => ?_, fun x hx => ?_, fun x => ?_, fun t => ?_, hinv.idle, ?_,
      hinv.sent, hinv.wild, hinv.unhandled⟩
    · rcases List.mem_append.mp hl with hl | hl
      · exact hinv.fits l hl
      · obtain rfl := List.mem_singleton.mp hl
        constructor <;> simp [begun]
    · obtain ⟨l, hl, hlisted⟩ := hinv.listed x hx
      exact ⟨l, List.mem_append_left _ hl, hlisted⟩
    · simpa [begun] using hinv.nodes x
    · simpa [begun] using hinv.tids t
    · simpa [begun] using hinv.locked
  · obtain ⟨errands, rfl⟩ := hk
    exact safe_thread errands
  · obtain ⟨xs, hinv⟩ := hI
    obtain ⟨ok, hok⟩ := hexec
    exact inv_step hinv hi hpre hok hlocks

/-- A signal goes only to a thread that is working for the process that died, and never before its
handler is there; when the list was gone through, and the lock is not given back yet, all threads
that work for the process have been signalled, those in the driver among them.  No `TidData` is
accessed that is not allocated, and in the end each has been freed once. -/
structure Signalled (cfg : Threads) : Prop where
  sent : ∀ x ∈ cfg.state.sent, x.working = some x.pid
  unhandled : cfg.state.unhandled = 0
  all : ∀ l ∈ cfg.locs, l.inside = true → ∀ pid, l.ended = some pid →
    ∀ t, cfg.state.working t = some pid → cfg.state.signalled t = true
  driving : ∀ i l, cfg.Pending i l .driver →
    ∃ t pid, l.tid = some t ∧ l.filled = some pid ∧ cfg.state.working t = some pid
  wild : cfg.state.wild = 0
  frees : ∀ x, cfg.state.frees x ≤ 1
  freed : cfg.Quiet → ∀ x < cfg.state.next, cfg.state.frees x = 1

theorem signalled_reaches (cfg : Threads) (h : ThreadsReach cfg) : Signalled cfg := by
  obtain ⟨⟨xs, hinv⟩, hsafe⟩ := inv_reaches h
  refine ⟨hinv.sent, hinv.unhandled, fun l hl hin pid hended t ht => ?_, fun i l hpending => ?_,
    hinv.wild, fun x => ?_, fun hquiet x hx => ?_⟩
  · have hthread : t < cfg.state.threads := by
      by_contra hge
      cases (hinv.idle t (not_lt.mp hge)).symm.trans ht
    obtain ⟨m, hm, htid⟩ : ∃ m ∈ cfg.locs, m.tid = some t := by
      by_contra hnone
      have hzero : total (fun l => (decide (l.tid = some t)).toNat) cfg.locs = 0 := by
        refine List.sum_eq_zero fun n hn => ?_
        obtain ⟨m, hm, rfl⟩ := List.mem_map.mp hn
        simp only [Bool.toNat_eq_zero, decide_eq_false_iff_not]
        exact fun htid => hnone ⟨m, hm, htid⟩
      have htids := hinv.tids t
      simp only [hthread, decide_true, Bool.toNat_true] at htids
      omega
    have hfits := hinv.fits m hm
    have hworking := hfits.working t htid
    by_cases hlinked : m.linked = true
    · obtain ⟨u, x, p, hu, hx, hp, hmem⟩ := hfits.linked hlinked
      obtain rfl : t = u := Option.some.inj (htid.symm.trans hu)
      rw [if_pos hlinked, ht, hp] at hworking
      have hdata := hfits.filled t x p htid hx hp
      have hhit := (hinv.fits l hl).ended hin pid hended x hmem
      rw [hdata] at hhit
      exact hhit (Option.some.inj hworking).symm
    · rw [if_neg hlinked, ht] at hworking
      cases hworking
  · obtain ⟨k, hk⟩ := hpending
    have hmem := List.mem_of_getElem? hk
    have hlinked : l.linked = true := (hsafe _ hmem).1
    have hfits := hinv.fits l (List.mem_map.mpr ⟨_, hmem, rfl⟩)
    obtain ⟨t, x, p, ht, -, hp, -⟩ := hfits.linked hlinked
    exact ⟨t, p, ht, hp, by rw [hfits.working t ht, if_pos hlinked, hp]⟩
  · have hnodes := hinv.nodes x
    have hone := Bool.toNat_le (decide (x < cfg.state.next))
    omega
  · have hzero : total (fun l => (decide (l.held = some x)).toNat) cfg.locs = 0 := by
      refine List.sum_eq_zero fun n hn => ?_
      obtain ⟨m, hm, rfl⟩ := List.mem_map.mp hn
      obtain ⟨k, hk, rfl⟩ := List.mem_map.mp hm
      have hheld : k.loc.held = none := by
        have := hsafe k hk
        rwa [hquiet k hk] at this
      simp [hheld]
    have hnodes := hinv.nodes x
    simp only [hx, decide_true, Bool.toNat_true] at hnodes
    omega

def oneDied : Threads :=
  ⟨.init, [⟨begun, thread [.session 7]⟩, ⟨begun, thread [.session 8]⟩,
    ⟨begun, thread [.processCaDied 7 3]⟩]⟩

def inTurn : List (Nat × Bool) :=
  List.replicate 6 (0, true) ++ List.replicate 6 (1, true) ++ List.replicate 10 (2, true)

theorem signalled_oneDied : ∃ cfg : Threads, ThreadsReach cfg ∧
    (cfg.state.sent.map fun x => (x.tid, x.pid)) = [(0, 7)] ∧
    cfg.locs.map (·.ended) = [none, none, some 7] ∧ Signalled cfg := by
  have hrun : (replay threads (fun _ _ _ a r => locks a r) inTurn oneDied).map
      (fun cfg => (cfg.state.sent.map fun x => (x.tid, x.pid), cfg.locs.map (·.ended))) =
        some ([(0, 7)], [none, none, some 7]) := by
    rfl
  have hbegin : ThreadsReach oneDied :=
    ((Reaches.init.start ⟨_, rfl⟩).start ⟨_, rfl⟩).start ⟨_, rfl⟩
  obtain ⟨cfg, hreplay, hview⟩ := Option.map_eq_some_iff.mp hrun
  have hreach := hbegin.replay inTurn hreplay
  exact ⟨cfg, hreach, (Prod.mk.inj hview).1, (Prod.mk.inj hview).2, signalled_reaches cfg hreach⟩

end Runs

end TeeClient.Daemon.Signals
