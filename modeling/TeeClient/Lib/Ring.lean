import Mathlib.Tactic

/-! Circular doubly linked lists with a head node, as pointers: the two links of every
node, the operations as the assignments they make, and loops that follow the links. -/

namespace Rings

variable {N σ : Type}

structure Links (N : Type) where
  next : N → N
  prev : N → N

variable [DecidableEq N]

namespace Links

def setNext (l : Links N) (x y : N) : Links N := { l with next := Function.update l.next x y }

def setPrev (l : Links N) (x y : N) : Links N := { l with prev := Function.update l.prev x y }

def init (l : Links N) (x : N) : Links N := (l.setNext x x).setPrev x x

def insertTail (l : Links N) (list entry : N) : Links N :=
  let l := l.setNext entry list
  let l := l.setPrev entry (l.prev list)
  let l := l.setNext (l.prev list) entry
  l.setPrev list entry

def removeEntry (l : Links N) (entry : N) : Links N :=
  let l := l.setNext (l.prev entry) (l.next entry)
  l.setPrev (l.next entry) (l.prev entry)

omit [DecidableEq N] in
def Linked (l : Links N) (x y : N) : Prop := l.next x = y ∧ l.prev y = x

end Links

/-- The nodes `xs` stand in the list with the head `h`, in this order, and there is nothing
else in it. -/
structure IsRing (l : Links N) (h : N) (xs : List N) : Prop where
  chain : (h :: (xs ++ [h])).IsChain l.Linked
  nodup : (h :: xs).Nodup

section Operations

variable {l l' : Links N} {h e x y : N} {xs ys zs : List N}

omit [DecidableEq N] in
theorem IsRing.mono (hr : IsRing l h xs)
    (hl : ∀ x ∈ h :: xs, ∀ y ∈ h :: xs, l.Linked x y → l'.Linked x y) : IsRing l' h xs := by
  refine ⟨hr.chain.imp_of_mem_imp fun x y hx hy => hl x ?_ y ?_, hr.nodup⟩
  · simpa [or_comm, or_left_comm] using hx
  · simpa [or_comm, or_left_comm] using hy

omit [DecidableEq N] in
theorem IsRing.head_notMem (hr : IsRing l h xs) : h ∉ xs := (List.nodup_cons.mp hr.nodup).1

omit [DecidableEq N] in
theorem IsRing.prev_next (hr : IsRing l h xs) : l.prev (l.next h) = h := by
  have hchain := hr.chain
  cases xs with
  | nil =>
    obtain ⟨hnext, hprev⟩ := List.isChain_cons_cons.mp hchain |>.1
    rw [hnext, hprev]
  | cons x xs =>
    obtain ⟨hnext, hprev⟩ := List.isChain_cons_cons.mp hchain |>.1
    rw [hnext, hprev]

theorem isRing_init (l : Links N) (h : N) : IsRing (l.init h) h [] := by
  refine ⟨?_, by simp⟩
  simp [Links.Linked, Links.init, Links.setNext, Links.setPrev]

theorem linked_init (hx : x ≠ e) (hy : y ≠ e) (hl : l.Linked x y) : (l.init e).Linked x y := by
  simpa [Links.Linked, Links.init, Links.setNext, Links.setPrev, hx, hy] using hl

theorem IsRing.init (hr : IsRing l h xs) (he : e ∉ h :: xs) : IsRing (l.init e) h xs := by
  refine hr.mono fun x hx y hy => linked_init ?_ ?_
  · rintro rfl
    exact he hx
  · rintro rfl
    exact he hy

theorem next_removeEntry : (l.removeEntry e).next x = if x = l.prev e then l.next e else l.next x := by
  simp [Links.removeEntry, Links.setNext, Links.setPrev, Function.update_apply]

theorem prev_removeEntry : (l.removeEntry e).prev y = if y = l.next e then l.prev e else l.prev y := by
  simp [Links.removeEntry, Links.setNext, Links.setPrev, Function.update_apply]

theorem linked_removeEntry (hprev : l.next (l.prev e) = e) (hnext : l.prev (l.next e) = e)
    (hx : x ≠ e) (hy : y ≠ e) (hl : l.Linked x y) : (l.removeEntry e).Linked x y := by
  obtain ⟨hxy, hyx⟩ := hl
  constructor
  · rw [next_removeEntry, if_neg, hxy]
    rintro rfl
    exact hy (hxy.symm.trans hprev)
  · rw [prev_removeEntry, if_neg, hyx]
    rintro rfl
    exact hx (hyx.symm.trans hnext)

omit [DecidableEq N] in
theorem IsRing.split (hr : IsRing l h (ys ++ e :: zs)) :
    ∃ as a b bs, h :: ys = as ++ [a] ∧ zs ++ [h] = b :: bs ∧ l.Linked a e ∧ l.Linked e b := by
  obtain ⟨as, a, has⟩ := List.eq_nil_or_concat (h :: ys) |>.resolve_left (by simp)
  obtain ⟨b, bs, hbs⟩ := List.exists_cons_of_ne_nil (by simp : zs ++ [h] ≠ [])
  have hlist : h :: (ys ++ e :: zs ++ [h]) = as ++ a :: e :: b :: bs := by
    rw [List.append_assoc, List.cons_append, hbs, ← List.cons_append, has]
    simp
  have hchain := hr.chain
  rw [hlist, List.isChain_append_cons_cons, List.isChain_cons_cons] at hchain
  exact ⟨as, a, b, bs, by simpa using has, hbs, hchain.2.1, hchain.2.2.1⟩

theorem IsRing.removeEntry (hr : IsRing l h (ys ++ e :: zs)) :
    IsRing (l.removeEntry e) h (ys ++ zs) := by
  obtain ⟨as, a, b, bs, has, hbs, hae, heb⟩ := hr.split
  have hlist (ms : List N) : h :: (ys ++ ms ++ zs ++ [h]) = as ++ a :: (ms ++ b :: bs) := by
    rw [List.append_assoc, hbs, List.append_assoc, ← List.cons_append, has]
    simp
  have hne : ∀ x ∈ h :: (ys ++ zs), x ≠ e := by
    rintro x hx rfl
    have := hr.nodup
    simp only [List.nodup_cons, List.nodup_append, List.mem_append, List.mem_cons] at this hx
    grind
  have hkeep {x y : N} (hx : x ∈ h :: (ys ++ zs)) (hy : y ∈ h :: (ys ++ zs)) (hl : l.Linked x y) :
      (l.removeEntry e).Linked x y := by
    refine linked_removeEntry ?_ ?_ (hne x hx) (hne y hy) hl
    · rw [hae.2, hae.1]
    · rw [heb.1, heb.2]
  have hchain := hr.chain
  have hnew := hlist []
  have hold := hlist [e]
  simp only [List.append_nil, List.nil_append, List.append_assoc, List.cons_append] at hnew hold
  rw [List.append_assoc, List.cons_append, hold, List.isChain_append_cons_cons,
    List.isChain_cons_cons] at hchain
  constructor
  · rw [List.append_assoc, hnew, List.isChain_append_cons_cons]
    refine ⟨hchain.1.imp_of_mem_imp fun x y hx hy => hkeep ?_ ?_, ?_,
      hchain.2.2.2.imp_of_mem_imp fun x y hx hy => hkeep ?_ ?_⟩
    · rw [← has] at hx
      simp only [List.mem_cons, List.mem_append] at hx ⊢
      tauto
    · rw [← has] at hy
      simp only [List.mem_cons, List.mem_append] at hy ⊢
      tauto
    · constructor
      · rw [next_removeEntry, hae.2, if_pos rfl, heb.1]
      · rw [prev_removeEntry, heb.1, if_pos rfl, hae.2]
    · rw [← hbs] at hx
      simp only [List.mem_cons, List.mem_append, List.not_mem_nil, or_false] at hx ⊢
      tauto
    · rw [← hbs] at hy
      simp only [List.mem_cons, List.mem_append, List.not_mem_nil, or_false] at hy ⊢
      tauto
  · refine hr.nodup.sublist ?_
    exact (List.Sublist.append_left (List.sublist_cons_self e zs) ys).cons_cons h

theorem IsRing.removeEntry_of_notMem {h' : N} (hr : IsRing l h (ys ++ e :: zs))
    (hr' : IsRing l h' xs) (he : e ∉ h' :: xs) : IsRing (l.removeEntry e) h' xs := by
  obtain ⟨as, a, b, bs, has, hbs, hae, heb⟩ := hr.split
  refine hr'.mono fun x hx y hy => linked_removeEntry ?_ ?_ ?_ ?_
  · rw [hae.2, hae.1]
  · rw [heb.1, heb.2]
  · rintro rfl
    exact he hx
  · rintro rfl
    exact he hy

theorem next_insertTail (he : e ≠ h) : (l.insertTail h e).next x =
    if x = l.prev h then e else if x = e then h else l.next x := by
  simp [Links.insertTail, Links.setNext, Links.setPrev, Function.update_apply, he.symm]

theorem prev_insertTail (he : e ≠ h) : (l.insertTail h e).prev y =
    if y = h then e else if y = e then l.prev h else l.prev y := by
  simp [Links.insertTail, Links.setNext, Links.setPrev, Function.update_apply, he.symm]

theorem linked_insertTail (he : e ≠ h) (hlast : l.next (l.prev h) = h) (hx : x ≠ e) (hy : y ≠ e)
    (hyh : y ≠ h) (hl : l.Linked x y) : (l.insertTail h e).Linked x y := by
  obtain ⟨hxy, hyx⟩ := hl
  constructor
  · rw [next_insertTail he, if_neg, if_neg hx, hxy]
    rintro rfl
    exact hyh (hxy.symm.trans hlast)
  · rw [prev_insertTail he, if_neg hyh, if_neg hy, hyx]

omit [DecidableEq N] in
theorem IsRing.last (hr : IsRing l h xs) :
    ∃ as a, h :: xs = as ++ [a] ∧ l.Linked a h := by
  obtain ⟨as, a, has⟩ := List.eq_nil_or_concat (h :: xs) |>.resolve_left (by simp)
  have hchain := hr.chain
  rw [← List.cons_append, has, List.concat_eq_append, List.append_assoc, List.singleton_append,
    List.isChain_append_cons_cons] at hchain
  exact ⟨as, a, by simpa using has, hchain.2.1⟩

theorem IsRing.insertTail (hr : IsRing l h xs) (he : e ∉ h :: xs) :
    IsRing (l.insertTail h e) h (xs ++ [e]) := by
  obtain ⟨as, a, has, hah⟩ := hr.last
  have heh : e ≠ h := by
    rintro rfl
    exact he List.mem_cons_self
  have hae : a ≠ e := by
    rintro rfl
    exact he (by simp [has])
  constructor
  · have hlist : h :: (xs ++ [e] ++ [h]) = as ++ a :: e :: [h] := by
      rw [← List.cons_append, ← List.cons_append, has]
      simp
    have hchain := hr.chain
    rw [← List.cons_append, has, List.append_assoc, List.singleton_append,
      List.isChain_append_cons_cons] at hchain
    rw [hlist, List.isChain_append_cons_cons, List.isChain_cons_cons]
    refine ⟨?_, ?_, ?_, by simp⟩
    · refine hchain.1.imp_of_mem_tail_imp fun x y hx hy => linked_insertTail heh ?_ ?_ ?_ ?_
      · rw [hah.2, hah.1]
      · rintro rfl
        exact he (has ▸ hx)
      · rintro rfl
        exact he (has ▸ List.mem_of_mem_tail hy)
      · rintro rfl
        rw [← has, List.tail_cons] at hy
        exact hr.head_notMem hy
    · constructor
      · rw [next_insertTail heh, hah.2, if_pos rfl]
      · rw [prev_insertTail heh, if_neg heh, if_pos rfl, hah.2]
    · constructor
      · rw [next_insertTail heh, hah.2, if_neg hae.symm, if_pos rfl]
      · rw [prev_insertTail heh, if_pos rfl]
  · rw [← List.cons_append, List.nodup_append]
    refine ⟨hr.nodup, by simp, ?_⟩
    rintro x hx y hy rfl
    rw [List.mem_singleton.mp hy] at hx
    exact he hx

theorem IsRing.insertTail_of_notMem {h' : N} (hr : IsRing l h xs) (hr' : IsRing l h' ys)
    (he : e ∉ h :: xs) (he' : e ∉ h' :: ys) (hh : h ∉ h' :: ys) :
    IsRing (l.insertTail h e) h' ys := by
  obtain ⟨as, a, has, hah⟩ := hr.last
  have heh : e ≠ h := by
    rintro rfl
    exact he List.mem_cons_self
  refine hr'.mono fun x hx y hy => linked_insertTail heh ?_ ?_ ?_ ?_
  · rw [hah.2, hah.1]
  · rintro rfl
    exact he' hx
  · rintro rfl
    exact he' hy
  · rintro rfl
    exact hh hy

omit [DecidableEq N] in
theorem IsRing.rotate (hr : IsRing l h (x :: xs)) : IsRing l x (xs ++ [h]) := by
  have hchain := hr.chain
  rw [List.cons_append, List.isChain_cons_cons] at hchain
  constructor
  · have hlist : x :: (xs ++ [h] ++ [x]) = (x :: xs) ++ h :: x :: [] := by simp
    rw [hlist, List.isChain_append_cons_cons]
    exact ⟨hchain.2, hchain.1, List.isChain_singleton x⟩
  · have hperm : (h :: (x :: xs)).Perm (x :: (xs ++ [h])) := by
      rw [← List.cons_append]
      exact (List.perm_append_singleton h (x :: xs)).symm
    exact hperm.nodup_iff.mp hr.nodup

end Operations

section Loops

/-- `for (pos = list->next; pos != list; pos = pos->next)`, up to the first node that
satisfies `p`; `none` when it has not ended after `fuel` rounds. -/
def findFrom (l : Links N) (p : N → Bool) (h : N) : Nat → N → Option (Option N)
  | 0, _ => none
  | fuel + 1, pos =>
    if pos = h then some none
    else if p pos then some (some pos)
    else findFrom l p h fuel (l.next pos)

def forEachSafe (links : σ → Links N) (body : N → σ → σ) (h : N) : Nat → N → N → σ → Option σ
  | 0, _, _, _ => none
  | fuel + 1, pos, n, s =>
    if pos = h then some s
    else forEachSafe links body h fuel n ((links (body pos s)).next n) (body pos s)

variable {l : Links N} {h x : N} {xs ys zs : List N}

theorem findFrom_mono {p : N → Bool} {pos : N} {fuel fuel' : Nat} {r : Option N}
    (hfuel : fuel ≤ fuel') (hr : findFrom l p h fuel pos = some r) :
    findFrom l p h fuel' pos = some r := by
  induction fuel generalizing fuel' pos with
  | zero => cases hr
  | succ fuel ih =>
    obtain ⟨fuel', rfl⟩ := Nat.exists_eq_succ_of_ne_zero (by omega : fuel' ≠ 0)
    rw [findFrom] at hr ⊢
    split_ifs at hr ⊢ with hpos hp
    · exact hr
    · exact hr
    · exact ih (by omega) hr

theorem forEachSafe_mono {links : σ → Links N} {body : N → σ → σ} {pos n : N} {fuel fuel' : Nat}
    {s s' : σ} (hfuel : fuel ≤ fuel') (hs : forEachSafe links body h fuel pos n s = some s') :
    forEachSafe links body h fuel' pos n s = some s' := by
  induction fuel generalizing fuel' pos n s with
  | zero => cases hs
  | succ fuel ih =>
    obtain ⟨fuel', rfl⟩ := Nat.exists_eq_succ_of_ne_zero (by omega : fuel' ≠ 0)
    rw [forEachSafe] at hs ⊢
    split_ifs at hs ⊢ with hpos
    · exact hs
    · exact ih (by omega) hs

omit [DecidableEq N] in
theorem IsRing.next_eq (ys : List N) (hr : IsRing l h (ys ++ x :: xs)) : l.next x = xs.headD h := by
  obtain ⟨as, a, b, bs, -, hbs, -, hxb⟩ := hr.split
  rw [hxb.1]
  cases xs with
  | nil => exact (List.cons.inj hbs).1.symm
  | cons y xs => exact (List.cons.inj hbs).1.symm

omit [DecidableEq N] in
theorem IsRing.next_head (hr : IsRing l h xs) : l.next h = xs.headD h := by
  have hchain := hr.chain
  cases xs with
  | nil => exact (List.isChain_cons_cons.mp hchain).1.1
  | cons y xs => exact (List.isChain_cons_cons.mp hchain).1.1

omit [DecidableEq N] in
theorem IsRing.next_suffix (hr : IsRing l h xs) (hs : h :: xs = ys ++ x :: zs) :
    l.next x = zs.headD h := by
  cases ys with
  | nil =>
    obtain ⟨rfl, rfl⟩ := List.cons.inj hs
    exact hr.next_head
  | cons y ys =>
    obtain ⟨rfl, rfl⟩ := List.cons.inj hs
    exact hr.next_eq ys

theorem IsRing.findFrom_eq (hr : IsRing l h xs) (p : N → Bool) {fuel : Nat}
    (hfuel : xs.length < fuel) : findFrom l p h fuel (l.next h) = some (xs.find? p) := by
  have hrun (ys zs : List N) (hxs : xs = ys ++ zs) (fuel : Nat) (hfuel : zs.length < fuel) :
      findFrom l p h fuel (zs.headD h) = some (zs.find? p) := by
    induction zs generalizing ys fuel with
    | nil =>
      obtain ⟨fuel, rfl⟩ := Nat.exists_eq_succ_of_ne_zero (by omega : fuel ≠ 0)
      simp [findFrom]
    | cons z zs ih =>
      obtain ⟨fuel, rfl⟩ := Nat.exists_eq_succ_of_ne_zero (by omega : fuel ≠ 0)
      have hz : z ≠ h := by
        rintro rfl
        exact hr.head_notMem (by simp [hxs])
      rw [List.headD_cons, findFrom, if_neg hz, List.find?_cons]
      cases hp : p z with
      | true => simp
      | false =>
        simp only [Bool.false_eq_true, if_false]
        rw [IsRing.next_eq _ (hxs ▸ hr)]
        exact ih (ys ++ [z]) (by simp [hxs]) fuel (by simpa using hfuel)
  rw [hr.next_head]
  exact hrun [] xs rfl fuel hfuel

/-- A loop whose body leaves the nodes in front of it where they are runs over all of them. -/
theorem forEachSafe_returns {links : σ → Links N} {body : N → σ → σ} {I : List N → σ → Prop}
    (hstep : ∀ x xs s, I (x :: xs) s → I xs (body x s))
    (hnext : ∀ x xs s, I (x :: xs) s → x ≠ h ∧ (links s).next x = xs.headD h)
    {s : σ} (hI : I xs s) {fuel : Nat} (hfuel : xs.length < fuel) :
    ∃ s', forEachSafe links body h fuel (xs.headD h) ((links s).next (xs.headD h)) s = some s' ∧
      I [] s' := by
  induction xs generalizing s fuel with
  | nil =>
    obtain ⟨fuel, rfl⟩ := Nat.exists_eq_succ_of_ne_zero (by omega : fuel ≠ 0)
    exact ⟨s, by simp [forEachSafe], hI⟩
  | cons x xs ih =>
    obtain ⟨fuel, rfl⟩ := Nat.exists_eq_succ_of_ne_zero (by omega : fuel ≠ 0)
    obtain ⟨hx, hxn⟩ := hnext x xs s hI
    rw [List.headD_cons, forEachSafe, if_neg hx, hxn]
    exact ih (hstep x xs s hI) (by simpa using hfuel)

theorem IsRing.forEachSafe_remove (hr : IsRing l h xs) (e : N) {fuel : Nat}
    (hfuel : xs.length < fuel) :
    forEachSafe id (fun x l => if x = e then l.removeEntry x else l) h fuel (l.next h)
      (l.next (l.next h)) l = some (if e ∈ xs then l.removeEntry e else l) := by
  -- the nodes behind the loop, with `e` taken out of them
  let I (zs : List N) (l' : Links N) : Prop := ∃ ys, xs = ys ++ zs ∧
    l' = (if e ∈ ys then l.removeEntry e else l) ∧ IsRing l' h (ys.erase e ++ zs)
  have hfirst : I xs l := ⟨[], rfl, by simp, by simpa using hr⟩
  have hstep (x : N) (zs : List N) (l' : Links N) (hI : I (x :: zs) l') :
      I zs (if x = e then l'.removeEntry x else l') := by
    obtain ⟨ys, hxs, hl', hring⟩ := hI
    have hx : x ∉ ys := by
      have := hr.nodup
      simp only [hxs, List.nodup_cons, List.nodup_append] at this
      intro hmem
      exact this.2.2.2 x hmem x List.mem_cons_self rfl
    refine ⟨ys ++ [x], by simp [hxs], ?_, ?_⟩
    · by_cases hxe : x = e
      · subst hxe
        rw [if_pos rfl, hl', if_neg hx, if_pos (by simp)]
      · rw [if_neg hxe, hl']
        have : e ∈ ys ++ [x] ↔ e ∈ ys := by simp [Ne.symm hxe]
        simp [this]
    · by_cases hxe : x = e
      · subst hxe
        rw [if_pos rfl, List.erase_append_right _ hx, List.erase_cons_head, List.append_nil]
        rw [List.erase_of_not_mem hx] at hring
        exact hring.removeEntry
      · rw [if_neg hxe]
        have herase : (ys ++ [x]).erase e = ys.erase e ++ [x] := by
          by_cases hy : e ∈ ys
          · exact List.erase_append_left _ hy
          · rw [List.erase_append_right _ hy, List.erase_of_not_mem hy,
              List.erase_of_not_mem (by simp [Ne.symm hxe])]
        rw [herase]
        simpa using hring
  have hnext (x : N) (zs : List N) (l' : Links N) (hI : I (x :: zs) l') :
      x ≠ h ∧ (id l').next x = zs.headD h := by
    obtain ⟨ys, hxs, -, hring⟩ := hI
    refine ⟨?_, hring.next_eq _⟩
    rintro rfl
    exact hr.head_notMem (by simp [hxs])
  obtain ⟨l', hrun, ys, hxs, hl', -⟩ := forEachSafe_returns hstep hnext hfirst hfuel
  rw [List.append_nil] at hxs
  rw [hr.next_head]
  rw [hl', ← hxs] at hrun
  exact hrun

end Loops

section Reachable

variable {l : Links N} {h x : N} {xs : List N}

omit [DecidableEq N] in
def OnList (l : Links N) (h x : N) : Prop := ∃ n, l.next^[n] h = x

omit [DecidableEq N] in
theorem IsRing.onList (hr : IsRing l h xs) (hx : x ∈ xs) : OnList l h x := by
  obtain ⟨ys, zs, rfl⟩ := List.mem_iff_append.mp hx
  have hrun (ys zs : List N) (hr : IsRing l h (ys ++ zs)) :
      l.next^[ys.length + 1] h = zs.headD h := by
    induction ys using List.reverseRecOn generalizing zs with
    | nil => exact hr.next_head
    | append_singleton ys y ih =>
      rw [List.append_assoc] at hr
      rw [List.length_append, List.length_singleton, Function.iterate_succ_apply', ih _ hr]
      exact hr.next_eq _
  exact ⟨_, hrun ys (x :: zs) hr⟩

omit [DecidableEq N] in
theorem IsRing.next_mem (hr : IsRing l h xs) (hx : x ∈ h :: xs) : l.next x ∈ h :: xs := by
  obtain ⟨ys, zs, hs⟩ := List.mem_iff_append.mp hx
  rw [hr.next_suffix hs]
  cases zs with
  | nil => exact List.mem_cons_self
  | cons z zs =>
    rw [hs, List.headD_cons]
    simp

omit [DecidableEq N] in
theorem IsRing.prev_mem (hr : IsRing l h xs) (hx : x ∈ h :: xs) : l.prev x ∈ h :: xs := by
  rcases List.mem_cons.mp hx with rfl | hx
  · obtain ⟨as, a, has, ha⟩ := hr.last
    rw [ha.2, has]
    simp
  · obtain ⟨ys, zs, rfl⟩ := List.mem_iff_append.mp hx
    obtain ⟨as, a, b, bs, has, -, ha, -⟩ := hr.split
    rw [ha.2, ← List.cons_append, has]
    simp

omit [DecidableEq N] in
theorem IsRing.mem_of_onList (hr : IsRing l h xs) (hx : OnList l h x) : x ∈ h :: xs := by
  obtain ⟨n, rfl⟩ := hx
  induction n with
  | zero => exact List.mem_cons_self
  | succ n ih =>
    rw [Function.iterate_succ_apply']
    exact hr.next_mem ih

end Reachable

end Rings
