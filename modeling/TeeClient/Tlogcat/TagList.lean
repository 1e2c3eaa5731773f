import Mathlib.Tactic
import TeeClient.Tlogcat.Names
import TeeClient.Lib.Ring

/-! The lists of driver tags and TA tags of `tlogcat` (`proc_tag.c`, `tee_client_list.h`): how
they are built, and what `FreeTagNode` does to them. -/

namespace TeeClient.Tlogcat.TagList

open Rings

inductive ListNode
  | driverTagList
  | taTagList
  | tag (n : Nat)
  deriving DecidableEq, Repr

inductive TagKey
  | driver (driverType : BitVec 8)
  | ta (uuid : TeeUuid)
  deriving DecidableEq

structure TagInfo where
  key : TagKey
  tagName : Option (List Char)

/-- The tags are numbered as they were allocated.  A tag that was freed keeps the bytes that it
had, and `followedFreed` says whether a link of such a tag has been read or written. -/
structure Heap where
  links : Links ListNode
  info : Nat → TagInfo
  next : Nat
  frees : Nat → Nat
  nameFrees : Nat → Nat
  followedFreed : Bool

namespace Heap

section Source

def initial : Heap where
  links := { next := id, prev := id }
  info _ := ⟨.driver 0, none⟩
  next := 0
  frees _ := 0
  nameFrees _ := 0
  followedFreed := false

def head (isTa : Bool) : ListNode := if isTa then .taTagList else .driverTagList

/-- `InsertTaTagNode` and `InsertDriverTagNode`; `malloc` says whether there is memory for the
node. -/
def insertTagNode (t : Heap) (isTa : Bool) (info : TagInfo) (malloc : Bool) : Heap :=
  if malloc then
    { t with
      links := (t.links.init (.tag t.next)).insertTail (head isTa) (.tag t.next)
      info := Function.update t.info t.next info
      next := t.next + 1 }
  else t

def isFreed (t : Heap) : ListNode → Bool
  | .tag n => 0 < t.frees n
  | _ => false

def follow (t : Heap) (nodes : List ListNode) : Heap :=
  { t with followedFreed := t.followedFreed || nodes.any t.isFreed }

def listRemoveEntry (t : Heap) (entry : ListNode) : Heap :=
  let t := t.follow [entry, t.links.prev entry, t.links.next entry]
  { t with links := t.links.removeEntry entry }

def listRemoveTail (t : Heap) (list : ListNode) : Heap :=
  let t := t.follow [list]
  if t.links.next list = list then t else t.listRemoveEntry (t.links.prev list)

def freeTag (t : Heap) : ListNode → Heap
  | .tag n =>
    let t := if (t.info n).tagName.isSome then
        { t with
          nameFrees := Function.update t.nameFrees n (t.nameFrees n + 1)
          info := Function.update t.info n { t.info n with tagName := none } }
      else t
    { t with frees := Function.update t.frees n (t.frees n + 1) }
  | _ => t

def freeNode (node : ListNode) (t : Heap) : Heap := (t.listRemoveTail node).freeTag node

/-- `FreeTaTagNode` and `FreeDriverTagNode`, for the head of the list; `none` when the loop has
not ended after `fuel` rounds. -/
def freeTags (fuel : Nat) (h : ListNode) (t : Heap) : Option Heap :=
  if t.links.next h = h then some t
  else forEachSafe links freeNode h fuel (t.links.next h) (t.links.next (t.links.next h)) t

def freeDriverTagNode (fuel : Nat) (t : Heap) : Option Heap := freeTags fuel .driverTagList t

def freeTaTagNode (fuel : Nat) (t : Heap) : Option Heap := freeTags fuel .taTagList t

def freeTagNode (fuel : Nat) (t : Heap) : Option Heap :=
  (freeDriverTagNode fuel t).bind (freeTaTagNode fuel)

end Source

structure Insertion where
  isTa : Bool
  info : TagInfo
  named : info.tagName.isSome
  malloc : Bool

def insertAll (insertions : List Insertion) : Heap :=
  insertions.foldl (fun t i => t.insertTagNode i.isTa i.info i.malloc) initial

/-- `FreeTagNode` returns, has freed every tag and its name once without following a link of
one that was freed, and leaves two empty lists. -/
def FreesCompletely (t : Heap) : Prop :=
  ∃ fuel t', t.freeTagNode fuel = some t' ∧ t'.followedFreed = false ∧
    (∀ n, t'.frees n = if n < t.next then 1 else 0) ∧
    (∀ n, t'.nameFrees n = if n < t.next then 1 else 0) ∧
    IsRing t'.links .driverTagList [] ∧ IsRing t'.links .taTagList []

section Built

structure Built (t : Heap) (drivers tas : List ListNode) : Prop where
  driverRing : IsRing t.links .driverTagList drivers
  taRing : IsRing t.links .taTagList tas
  disjoint : ∀ x ∈ drivers, x ∉ tas
  tags : ∀ x ∈ drivers ++ tas, ∃ n < t.next, x = .tag n
  count : drivers.length + tas.length = t.next
  frees : ∀ n, t.frees n = 0
  nameFrees : ∀ n, t.nameFrees n = 0
  notFollowed : t.followedFreed = false

variable {t t' : Heap} {drivers tas xs : List ListNode} {h g x : ListNode} {n fuel : Nat}

theorem isRing_initial (h : ListNode) : IsRing initial.links h [] :=
  ⟨by simp [initial, Links.Linked], by simp⟩

theorem built_initial : Built initial [] [] :=
  ⟨isRing_initial _, isRing_initial _, by simp, by simp, rfl, fun _ => rfl, fun _ => rfl, rfl⟩

theorem Built.fresh_notMem (hb : Built t drivers tas) :
    ListNode.tag t.next ∉ drivers ∧ ListNode.tag t.next ∉ tas := by
  have hnot : ∀ x ∈ drivers ++ tas, x ≠ .tag t.next := by
    intro x hx heq
    obtain ⟨n, hn, rfl⟩ := hb.tags x hx
    exact hn.ne (ListNode.tag.inj heq)
  exact ⟨fun hx => hnot _ (List.mem_append_left _ hx) rfl,
    fun hx => hnot _ (List.mem_append_right _ hx) rfl⟩

theorem Built.head_notMem (hb : Built t drivers tas) :
    ListNode.driverTagList ∉ tas ∧ ListNode.taTagList ∉ drivers := by
  constructor
  · intro hx
    obtain ⟨n, -, heq⟩ := hb.tags _ (List.mem_append_right _ hx)
    cases heq
  · intro hx
    obtain ⟨n, -, heq⟩ := hb.tags _ (List.mem_append_left _ hx)
    cases heq

theorem Built.insertTagNode (hb : Built t drivers tas) (isTa : Bool) (info : TagInfo) :
    Built (t.insertTagNode isTa info true) (drivers ++ if isTa then [] else [.tag t.next])
      (tas ++ if isTa then [.tag t.next] else []) := by
  obtain ⟨hfresh, hfresh'⟩ := hb.fresh_notMem
  obtain ⟨hhead, hhead'⟩ := hb.head_notMem
  have hd := hb.driverRing.init (e := .tag t.next) (by simp [hfresh])
  have ht := hb.taRing.init (e := .tag t.next) (by simp [hfresh'])
  have hnext : (t.insertTagNode isTa info true).next = t.next + 1 := rfl
  have htags : ∀ x, x ∈ drivers ++ tas ∨ x = .tag t.next → ∃ n < t.next + 1, x = .tag n := by
    rintro x (hx | rfl)
    · obtain ⟨n, hn, rfl⟩ := hb.tags x hx
      exact ⟨n, by omega, rfl⟩
    · exact ⟨t.next, by omega, rfl⟩
  have hcount := hb.count
  cases isTa with
  | true =>
    refine ⟨?_, ?_, ?_, ?_, ?_, hb.frees, hb.nameFrees, hb.notFollowed⟩
    · simp only [if_true, List.append_nil]
      exact ht.insertTail_of_notMem hd (by simp [hfresh']) (by simp [hfresh]) (by simp [hhead'])
    · exact ht.insertTail (by simp [hfresh'])
    · simp only [if_true, List.append_nil]
      intro x hx hmem
      rcases List.mem_append.mp hmem with hmem | hmem
      · exact hb.disjoint x hx hmem
      · exact hfresh (List.mem_singleton.mp hmem ▸ hx)
    · intro x hx
      refine htags x ?_
      simpa [or_assoc] using hx
    · rw [hnext, if_pos rfl, if_pos rfl, List.append_nil, List.length_append, List.length_singleton]
      omega
  | false =>
    refine ⟨?_, ?_, ?_, ?_, ?_, hb.frees, hb.nameFrees, hb.notFollowed⟩
    · exact hd.insertTail (by simp [hfresh])
    · simp only [Bool.false_eq_true, if_false, List.append_nil]
      exact hd.insertTail_of_notMem ht (by simp [hfresh]) (by simp [hfresh']) (by simp [hhead])
    · simp only [Bool.false_eq_true, if_false, List.append_nil]
      intro x hx hmem
      rcases List.mem_append.mp hx with hx | hx
      · exact hb.disjoint x hx hmem
      · exact hfresh' (List.mem_singleton.mp hx ▸ hmem)
    · intro x hx
      refine htags x ?_
      simp only [Bool.false_eq_true, if_false, List.append_nil, List.mem_append,
        List.mem_singleton] at hx ⊢
      tauto
    · rw [hnext, if_neg (by simp), if_neg (by simp), List.append_nil, List.length_append,
        List.length_singleton]
      omega

theorem next_insertAll (insertions : List Insertion) :
    (insertAll insertions).next = insertions.countP (·.malloc) := by
  induction insertions using List.reverseRecOn with
  | nil => rfl
  | append_singleton insertions i ih =>
    rw [insertAll, List.foldl_append, List.foldl_cons, List.foldl_nil, List.countP_append, ← ih,
      insertTagNode, List.countP_singleton]
    split_ifs
    · rfl
    · rfl

theorem built_insertAll (insertions : List Insertion) :
    ∃ drivers tas, Built (insertAll insertions) drivers tas := by
  induction insertions using List.reverseRecOn with
  | nil => exact ⟨[], [], built_initial⟩
  | append_singleton insertions i ih =>
    obtain ⟨drivers, tas, hb⟩ := ih
    have hstep : insertAll (insertions ++ [i]) =
        (insertAll insertions).insertTagNode i.isTa i.info i.malloc := by
      simp [insertAll]
    rw [hstep]
    cases hmalloc : i.malloc with
    | false => exact ⟨drivers, tas, hb⟩
    | true => exact ⟨_, _, hb.insertTagNode i.isTa i.info⟩

end Built

section Freeing

variable {t t' : Heap} {drivers tas xs ys : List ListNode} {h g x y : ListNode} {n fuel : Nat}

@[simp] theorem links_follow (t : Heap) (nodes : List ListNode) :
    (t.follow nodes).links = t.links := rfl

theorem followedFreed_follow {nodes : List ListNode} (hx : x ∈ nodes) (hfreed : t.isFreed x = true) :
    (t.follow nodes).followedFreed = true := by
  have hany : nodes.any t.isFreed = true := List.any_eq_true.mpr ⟨x, hx, hfreed⟩
  simp [follow, hany]

@[simp] theorem links_freeTag (t : Heap) (x : ListNode) : (t.freeTag x).links = t.links := by
  cases x with
  | tag n =>
    rw [freeTag]
    split_ifs
    · rfl
    · rfl
  | driverTagList => rfl
  | taTagList => rfl

@[simp] theorem followedFreed_freeTag (t : Heap) (x : ListNode) :
    (t.freeTag x).followedFreed = t.followedFreed := by
  cases x with
  | tag n =>
    rw [freeTag]
    split_ifs
    · rfl
    · rfl
  | driverTagList => rfl
  | taTagList => rfl

theorem isFreed_freeTag (t : Heap) (n : Nat) : (t.freeTag (.tag n)).isFreed (.tag n) = true := by
  simp [freeTag, isFreed]

theorem links_freeNode (t : Heap) (hx : t.links.next x ≠ x) :
    (freeNode x t).links = t.links.removeEntry (t.links.prev x) := by
  rw [freeNode, links_freeTag, listRemoveTail, links_follow, if_neg hx]
  rfl

theorem followedFreed_freeNode (t : Heap) (x : ListNode) :
    t.followedFreed = true → (freeNode x t).followedFreed = true := by
  intro hfollowed
  rw [freeNode, followedFreed_freeTag, listRemoveTail]
  split_ifs
  · simp [follow, hfollowed]
  · simp [listRemoveEntry, follow, hfollowed]

theorem followedFreed_of_prev (t : Heap) (hx : t.links.next x ≠ x)
    (hprev : t.isFreed (t.links.prev x) = true) : (freeNode x t).followedFreed = true := by
  rw [freeNode, followedFreed_freeTag, listRemoveTail, links_follow, if_neg hx]
  exact followedFreed_follow (t := t.follow [x]) List.mem_cons_self hprev

theorem followedFreed_forEachSafe {pos next : ListNode}
    (hrun : forEachSafe links freeNode h fuel pos next t = some t')
    (hfollowed : t.followedFreed = true) : t'.followedFreed = true := by
  induction fuel generalizing t pos next with
  | zero => cases hrun
  | succ fuel ih =>
    rw [forEachSafe] at hrun
    by_cases hpos : pos = h
    · rw [if_pos hpos] at hrun
      exact Option.some.inj hrun ▸ hfollowed
    · rw [if_neg hpos] at hrun
      exact ih hrun (followedFreed_freeNode t pos hfollowed)

theorem followedFreed_freeTags (hrun : freeTags fuel h t = some t')
    (hfollowed : t.followedFreed = true) : t'.followedFreed = true := by
  rw [freeTags] at hrun
  split_ifs at hrun with hempty
  · exact Option.some.inj hrun ▸ hfollowed
  · exact followedFreed_forEachSafe hrun hfollowed

theorem freeTags_singleton (hr : IsRing t.links h [x]) (hrun : freeTags fuel h t = some t') :
    t'.links = t.links.removeEntry h := by
  have hxh : x ≠ h := by
    rintro rfl
    exact hr.head_notMem (List.mem_singleton_self _)
  have hhx : t.links.next h = x := hr.next_head
  have hxn : t.links.next x = h := hr.next_eq []
  have hxp : t.links.prev x = h := hhx ▸ hr.prev_next
  rw [freeTags, hhx, if_neg hxh, hxn] at hrun
  cases fuel with
  | zero => cases hrun
  | succ fuel =>
    rw [forEachSafe, if_neg hxh] at hrun
    cases fuel with
    | zero => cases hrun
    | succ fuel =>
      rw [forEachSafe, if_pos rfl] at hrun
      obtain rfl := Option.some.inj hrun
      rw [links_freeNode t (by rw [hxn]; exact hxh.symm), hxp]

/-- With a second node, the round of that node unlinks the first one, which is freed. -/
theorem freeTags_cons_cons (hr : IsRing t.links h (.tag n :: y :: ys))
    (hrun : freeTags fuel h t = some t') : t'.followedFreed = true := by
  have hnodup := hr.nodup
  simp only [List.nodup_cons, List.mem_cons, not_or] at hnodup
  obtain ⟨⟨hhx, hhy, hhys⟩, ⟨hxy, hxys⟩, hyys, -⟩ := hnodup
  have hnext : t.links.next h = .tag n := hr.next_head
  have hxn : t.links.next (.tag n) = y := hr.next_eq []
  have hxp : t.links.prev (.tag n) = h := hnext ▸ hr.prev_next
  have hyp : t.links.prev y = .tag n := by
    have hchain := hr.chain
    simp only [List.cons_append, List.isChain_cons_cons] at hchain
    exact hchain.2.1.2
  have hyn : t.links.next y = ys.headD h := hr.next_eq [.tag n]
  have hlinks : (freeNode (.tag n) t).links = t.links.removeEntry h := by
    rw [links_freeNode t (by rw [hxn]; exact fun heq => hxy heq.symm), hxp]
  -- the round of `y` finds its predecessor as it was
  have hyp' : (freeNode (.tag n) t).links.prev y = .tag n := by
    rw [hlinks, prev_removeEntry, hnext, if_neg (Ne.symm hxy), hyp]
  have hyn' : (freeNode (.tag n) t).links.next y ≠ y := by
    rw [hlinks, next_removeEntry, hnext]
    split_ifs
    · exact hxy
    · rw [hyn]
      cases ys with
      | nil => exact hhy
      | cons z zs =>
        rintro rfl
        exact hyys List.mem_cons_self
  have hfreed : (freeNode (.tag n) t).isFreed ((freeNode (.tag n) t).links.prev y) = true := by
    rw [hyp']
    exact isFreed_freeTag _ n
  rw [freeTags, hnext, if_neg (Ne.symm hhx), hxn] at hrun
  cases fuel with
  | zero => cases hrun
  | succ fuel =>
    rw [forEachSafe, if_neg (Ne.symm hhx)] at hrun
    cases fuel with
    | zero => cases hrun
    | succ fuel =>
      rw [forEachSafe, if_neg (Ne.symm hhy)] at hrun
      exact followedFreed_forEachSafe hrun (followedFreed_of_prev _ hyn' hfreed)

/-- Freeing a list that is not empty goes wrong: a freed node is followed, or the head still
points to the freed tag. -/
theorem freeTags_spoils (hr : IsRing t.links h xs) (htags : ∀ x ∈ xs, ∃ n, x = .tag n)
    (hrun : freeTags fuel h t = some t') :
    t'.followedFreed = true ∨ xs = [] ∧ t' = t ∨
      ∃ x, xs = [x] ∧ t'.links = t.links.removeEntry h := by
  match xs, hr, htags with
  | [], hr, _ =>
    have hnext : t.links.next h = h := hr.next_head
    rw [freeTags, if_pos hnext] at hrun
    exact .inr (.inl ⟨rfl, (Option.some.inj hrun).symm⟩)
  | [x], hr, _ => exact .inr (.inr ⟨x, rfl, freeTags_singleton hr hrun⟩)
  | x :: y :: ys, hr, htags =>
    obtain ⟨n, rfl⟩ := htags x List.mem_cons_self
    exact .inl (freeTags_cons_cons hr hrun)

theorem removeEntry_head (hr : IsRing t.links h [x]) :
    (t.links.removeEntry h).next h = x ∧
      (∀ g, g ≠ x → (t.links.removeEntry h).next g = t.links.next g) ∧
      ∀ g ys, IsRing t.links g ys → h ∉ g :: ys → IsRing (t.links.removeEntry h) g ys := by
  have hxh : h ≠ x := by
    rintro rfl
    exact hr.head_notMem (List.mem_singleton_self _)
  have hlast : t.links.prev h = x := by
    have hchain := hr.chain
    simp only [List.singleton_append, List.isChain_cons_cons] at hchain
    exact hchain.2.1.2
  refine ⟨?_, fun g hg => ?_, fun g ys hring hnot => ?_⟩
  · rw [next_removeEntry, hlast, if_neg hxh]
    exact hr.next_head
  · rw [next_removeEntry, hlast, if_neg hg]
  · have hturned : IsRing t.links x ([] ++ h :: []) := hr.rotate
    exact hturned.removeEntry_of_notMem hring hnot

theorem freeTagNode_nil (hb : Built t [] []) (fuel : Nat) : t.freeTagNode fuel = some t := by
  have hdriver : t.links.next .driverTagList = .driverTagList := hb.driverRing.next_head
  have hta : t.links.next .taTagList = .taTagList := hb.taRing.next_head
  rw [freeTagNode, freeDriverTagNode, freeTags, if_pos hdriver, Option.bind_some, freeTaTagNode,
    freeTags, if_pos hta]

theorem lists_nil (hb : Built t drivers tas) (hrun : t.freeTagNode fuel = some t')
    (hgood : t'.followedFreed = false) (hdriver : IsRing t'.links .driverTagList [])
    (hta : IsRing t'.links .taTagList []) : drivers = [] ∧ tas = [] := by
  obtain ⟨hhead, hhead'⟩ := hb.head_notMem
  have hdnext : t'.links.next .driverTagList = .driverTagList := hdriver.next_head
  have htnext : t'.links.next .taTagList = .taTagList := hta.next_head
  have htag : ∀ x ∈ drivers ++ tas, ∃ n, x = .tag n := fun x hx =>
    (hb.tags x hx).imp fun _ h => h.2
  obtain ⟨t₁, hrun₁, hrun₂⟩ := Option.bind_eq_some_iff.mp hrun
  have hnot₁ : t₁.followedFreed ≠ true := fun hf => by
    rw [followedFreed_freeTags hrun₂ hf] at hgood
    cases hgood
  -- the TA tags are where they were when the driver tags have been freed
  have hring : IsRing t₁.links .taTagList tas ∧
      (drivers = [] ∨ t₁.links.next .driverTagList ≠ .driverTagList) := by
    rcases freeTags_spoils hb.driverRing (fun x hx => htag x (List.mem_append_left _ hx)) hrun₁
      with hf | ⟨hnil, rfl⟩ | ⟨x, rfl, hlinks⟩
    · exact absurd hf hnot₁
    · exact ⟨hb.taRing, .inl hnil⟩
    · obtain ⟨hnext, -, hother⟩ := removeEntry_head hb.driverRing
      rw [hlinks]
      refine ⟨hother _ _ hb.taRing (by simp [hhead]), .inr ?_⟩
      rw [hnext]
      rintro rfl
      exact hb.driverRing.head_notMem (List.mem_singleton_self _)
  rcases freeTags_spoils hring.1 (fun x hx => htag x (List.mem_append_right _ hx)) hrun₂
    with hf | ⟨hnil, rfl⟩ | ⟨x, rfl, hlinks⟩
  · rw [hf] at hgood
    cases hgood
  · exact ⟨hring.2.resolve_right (not_not.mpr hdnext), hnil⟩
  · obtain ⟨hnext, -, -⟩ := removeEntry_head hring.1
    rw [hlinks, hnext] at htnext
    obtain rfl := htnext
    exact absurd (List.mem_singleton_self _) hring.1.head_notMem

/-- Exactly when there is no tag at all, because none was inserted or there was no memory for
any. -/
theorem freesCompletely_iff (insertions : List Insertion) :
    FreesCompletely (insertAll insertions) ↔ ∀ i ∈ insertions, i.malloc = false := by
  obtain ⟨drivers, tas, hb⟩ := built_insertAll insertions
  have hcount : (insertAll insertions).next = 0 ↔ ∀ i ∈ insertions, i.malloc = false := by
    rw [next_insertAll, List.countP_eq_zero]
    simp only [Bool.not_eq_true]
  rw [← hcount]
  constructor
  · rintro ⟨fuel, t', hrun, hgood, -, -, hdriver, hta⟩
    obtain ⟨rfl, rfl⟩ := lists_nil hb hrun hgood hdriver hta
    exact hb.count.symm
  · intro hnext
    have hlen := hb.count
    rw [hnext, Nat.add_eq_zero_iff, List.length_eq_zero_iff, List.length_eq_zero_iff] at hlen
    obtain ⟨rfl, rfl⟩ := hlen
    refine ⟨0, _, freeTagNode_nil hb 0, hb.notFollowed, fun n => ?_, fun n => ?_, hb.driverRing,
      hb.taRing⟩
    · rw [hb.frees, if_neg (by omega)]
    · rw [hb.nameFrees, if_neg (by omega)]

/-- One tag of a driver: it is freed, and the list still leads to it. -/
theorem not_freesCompletely_single :
    ¬ FreesCompletely (insertAll [⟨false, ⟨.driver 1, some "teeos-spi".toList⟩, rfl, true⟩]) := by
  rintro ⟨fuel, t', hrun, -, -, -, hdriver, -⟩
  let t := insertAll [⟨false, ⟨.driver 1, some "teeos-spi".toList⟩, rfl, true⟩]
  have hb : Built t [.tag 0] [] := built_initial.insertTagNode false _
  obtain ⟨t₁, hrun₁, hrun₂⟩ := Option.bind_eq_some_iff.mp hrun
  have hlinks : t₁.links = t.links.removeEntry .driverTagList := freeTags_singleton hb.driverRing hrun₁
  obtain ⟨hnext, -, hother⟩ := removeEntry_head hb.driverRing
  have hta : t₁.links.next .taTagList = .taTagList := by
    rw [hlinks]
    exact (hother _ _ hb.taRing (by simp)).next_head
  rw [freeTaTagNode, freeTags, if_pos hta] at hrun₂
  obtain rfl := Option.some.inj hrun₂
  have hempty : t₁.links.next .driverTagList = .driverTagList := hdriver.next_head
  rw [hlinks, hnext] at hempty
  cases hempty

end Freeing

end Heap

end TeeClient.Tlogcat.TagList
