import Mathlib.Tactic
import TeeClient.Teecd.OpenFiles

/-! The list of opened files over whole runs: it is a ring of exactly the open streams as
long as no `fclose` of one of them fails. -/

namespace TeeClient.Teecd

open Rings

variable {st st' : FileTable} {nodes xs ys zs : List Ptr} {e : Ptr}

section Circular

def IsCircular (l : Links Ptr) (first : Ptr) : List Ptr → Prop
  | [] => first = none
  | x :: xs => first = x ∧ none ∉ x :: xs ∧ IsRing l x xs

variable {l : Links Ptr} {first : Ptr}

theorem IsCircular.null_notMem (hc : IsCircular l first nodes) : none ∉ nodes := by
  cases nodes with
  | nil => exact List.not_mem_nil
  | cons x xs => exact hc.2.1

theorem IsCircular.first_eq_none (hc : IsCircular l first nodes) : first = none ↔ nodes = [] := by
  cases nodes with
  | nil => exact iff_of_true hc rfl
  | cons x xs =>
    refine iff_of_false ?_ (List.cons_ne_nil x xs)
    rintro rfl
    exact hc.2.1 (hc.1 ▸ List.mem_cons_self)

theorem IsCircular.prev_mem (hc : IsCircular l first nodes) (he : e ∈ nodes) :
    l.prev e ∈ nodes := by
  cases nodes with
  | nil => cases he
  | cons x xs => exact hc.2.2.prev_mem he

theorem IsCircular.next_mem (hc : IsCircular l first nodes) (he : e ∈ nodes) :
    l.next e ∈ nodes := by
  cases nodes with
  | nil => cases he
  | cons x xs => exact hc.2.2.next_mem he

theorem IsCircular.mem_iff_onList (hc : IsCircular l first nodes) (hne : nodes ≠ []) :
    e ∈ nodes ↔ OnList l first e := by
  cases nodes with
  | nil => exact absurd rfl hne
  | cons x xs =>
    obtain ⟨rfl, -, hr⟩ := hc
    refine ⟨fun he => ?_, hr.mem_of_onList⟩
    rcases List.mem_cons.mp he with rfl | he
    · exact ⟨0, rfl⟩
    · exact hr.onList he

theorem IsCircular.mem_congr (hc : IsCircular l first nodes) (hc' : IsCircular l first xs) :
    e ∈ nodes ↔ e ∈ xs := by
  by_cases hnil : first = none
  · rw [hc.first_eq_none.mp hnil, hc'.first_eq_none.mp hnil]
  · rw [hc.mem_iff_onList (mt hc.first_eq_none.mpr hnil),
      hc'.mem_iff_onList (mt hc'.first_eq_none.mpr hnil)]

end Circular

section Invariant

/-- What `FindOpenFile` has to answer: a node of the list with the open stream that has the
descriptor, or `NULL` when none has it. -/
def FileTable.Finds (st : FileTable) (nodes : List Ptr) (fd : Int) (p : Ptr) : Prop :=
  p ∈ nodes ∧ st.isOpen (st.file p) = true ∧ st.fileno (st.file p) = fd ∨
    p = none ∧ ∀ s, st.isOpen s = true → st.fileno s ≠ fd

/-- The list is a ring of the open streams, each once, in which every search ends and finds
what is open. -/
structure WellKept (st : FileTable) (nodes : List Ptr) : Prop where
  circular : IsCircular st.links st.firstFile nodes
  once : (nodes.map st.file).Nodup
  exact : ∀ s, s ∈ nodes.map st.file ↔ st.isOpen s = true
  finds : ∀ fd fuel, nodes.length ≤ fuel →
    ∃ p, st.findOpenFile fuel fd = some p ∧ st.Finds nodes fd p

structure FileInv (st : FileTable) (nodes : List Ptr) : Prop where
  circular : IsCircular st.links st.firstFile nodes
  once : (nodes.map st.file).Nodup
  exact : ∀ s, s ∈ nodes.map st.file ↔ st.isOpen s = true
  allocated : ∀ x ∈ nodes, st.allocated x = true
  null : st.isOpen none = false
  unique : ∀ s s', st.isOpen s = true → st.isOpen s' = true → st.fileno s = st.fileno s' → s = s'

def FileTable.matches (st : FileTable) (fd : Int) (p : Ptr) : Bool :=
  st.file p ≠ none ∧ st.fileno (st.file p) = fd

theorem findFile_eq {x : Ptr} (hfirst : st.firstFile = x) (hnull : none ∉ x :: xs)
    (hr : IsRing st.links x xs) (ys : List Ptr) (hs : x :: xs = ys ++ e :: zs) (fd : Int)
    {fuel : Nat} (hfuel : zs.length < fuel) :
    st.findFile fd fuel e = some ((e :: zs).find? (st.matches fd)).join := by
  induction fuel generalizing ys e zs with
  | zero => omega
  | succ fuel ih =>
    rw [FileTable.findFile, List.find?_cons]
    by_cases hp : st.file e ≠ none ∧ st.fileno (st.file e) = fd
    · have hmatch : st.matches fd e = true := by simpa [FileTable.matches] using hp
      rw [if_pos hp, hmatch]
      rfl
    · have hmatch : st.matches fd e = false := by simpa [FileTable.matches] using hp
      rw [if_neg hp, hmatch, hr.next_suffix hs, hfirst]
      cases zs with
      | nil => simp
      | cons z zs =>
        have hz : z ≠ x ∧ z ≠ none := by
          constructor
          · rintro rfl
            have hnodup := hr.nodup
            cases ys with
            | nil =>
              obtain ⟨rfl, rfl⟩ := List.cons.inj hs
              exact hr.head_notMem List.mem_cons_self
            | cons y ys =>
              obtain ⟨rfl, rfl⟩ := List.cons.inj hs
              exact hr.head_notMem (by simp)
          · rintro rfl
            exact hnull (by simp [hs])
        rw [List.headD_cons, if_neg (not_or.mpr hz)]
        rw [List.length_cons] at hfuel
        exact ih (ys ++ [e]) (by simp [hs]) (by omega)

theorem findOpenFile_eq (hc : IsCircular st.links st.firstFile nodes) (fd : Int) {fuel : Nat}
    (hfuel : nodes.length ≤ fuel) :
    st.findOpenFile fuel fd = some (nodes.find? (st.matches fd)).join := by
  cases nodes with
  | nil =>
    have hfirst : st.firstFile = none := hc
    rw [FileTable.findOpenFile, if_pos hfirst]
    rfl
  | cons x xs =>
    obtain ⟨hfirst, hnull, hr⟩ := hc
    have hne : st.firstFile ≠ none := by
      intro h
      exact hnull (by simp [← hfirst, h])
    rw [FileTable.findOpenFile, if_neg hne, hfirst]
    exact findFile_eq hfirst hnull hr [] rfl fd hfuel

theorem FileInv.wellKept (h : FileInv st nodes) : WellKept st nodes := by
  refine ⟨h.circular, h.once, h.exact, fun fd fuel hfuel => ?_⟩
  refine ⟨_, findOpenFile_eq h.circular fd hfuel, ?_⟩
  cases hfind : nodes.find? (st.matches fd) with
  | none =>
    refine .inr ⟨rfl, fun s hs hfd => ?_⟩
    obtain ⟨x, hx, rfl⟩ := List.mem_map.mp ((h.exact s).mpr hs)
    have hmiss := List.find?_eq_none.mp hfind x hx
    have hnull : st.file x ≠ none := by
      intro hnull
      rw [hnull, h.null] at hs
      cases hs
    exact hmiss (by simp [FileTable.matches, hnull, hfd])
  | some x =>
    have hx := List.mem_of_find?_eq_some hfind
    have hmatch : st.file x ≠ none ∧ st.fileno (st.file x) = fd := by
      simpa [FileTable.matches] using List.find?_some hfind
    refine .inl ⟨hx, (h.exact _).mp (List.mem_map_of_mem hx), hmatch.2⟩

theorem findFile_mono {fd : Int} {fuel fuel' : Nat} {x p : Ptr} (hfuel : fuel ≤ fuel')
    (h : st.findFile fd fuel x = some p) : st.findFile fd fuel' x = some p := by
  induction fuel generalizing fuel' x with
  | zero => cases h
  | succ fuel ih =>
    obtain ⟨fuel', rfl⟩ := Nat.exists_eq_succ_of_ne_zero (by omega : fuel' ≠ 0)
    rw [FileTable.findFile] at h ⊢
    split_ifs at h ⊢ with hmatch hend
    · exact h
    · exact h
    · exact ih (by omega) h

theorem WellKept.found {fd : Int} {fuel : Nat} {p : Ptr} (h : WellKept st nodes)
    (hfind : st.findOpenFile fuel fd = some p) : st.Finds nodes fd p := by
  obtain ⟨q, hq, hfinds⟩ := h.finds fd (max fuel nodes.length) (le_max_right _ _)
  have hsame : some p = some q := by
    rw [FileTable.findOpenFile] at hfind hq
    by_cases hnull : st.firstFile = none
    · rw [if_pos hnull] at hfind hq
      exact hfind.symm.trans hq
    · rw [if_neg hnull] at hfind hq
      exact (findFile_mono (le_max_left _ _) hfind).symm.trans hq
  rwa [Option.some.inj hsame]

end Invariant

section Add

theorem insertTail_eq {l : Links Ptr} {first node : Ptr} (hfirst : node ≠ first)
    (hlast : node ≠ l.prev first) :
    (((l.setNext (l.prev first) node).setPrev node (l.prev first)).setNext node first).setPrev
      first node = l.insertTail first node := by
  have hprev : Function.update l.prev node (l.prev first) first = l.prev first :=
    Function.update_of_ne hfirst.symm _ _
  simp only [Links.insertTail, Links.setNext, Links.setPrev, hprev]
  rw [Function.update_comm hlast]

theorem addOpenFile_of_node {node : Ptr} (pFile : Ptr)
    (hc : IsCircular st.links st.firstFile nodes)
    (hnode : node ≠ none) (hnew : node ∉ nodes) :
    ∃ links first, st.addOpenFile node pFile = (true, { st with
        links := links
        firstFile := first
        allocated := Function.update st.allocated node true
        file := Function.update st.file node pFile }) ∧
      IsCircular links first (nodes ++ [node]) := by
  rw [FileTable.addOpenFile, if_neg hnode]
  cases nodes with
  | nil =>
    have hfirst : st.firstFile = none := hc
    simp only [hfirst, if_true]
    refine ⟨_, _, rfl, rfl, by simpa using hnode.symm, isRing_init st.links node⟩
  | cons x xs =>
    obtain ⟨rfl, hnull, hr⟩ := hc
    have hprev := hr.prev_mem List.mem_cons_self
    have hx : st.firstFile ≠ none := by
      intro h
      exact hnull (by simp [h])
    have hlast : st.links.prev st.firstFile ≠ none := by
      intro h
      exact hnull (h ▸ hprev)
    simp only [if_neg hx, if_neg hlast]
    refine ⟨_, _, rfl, rfl, ?_, ?_⟩
    · change none ∉ (st.firstFile :: xs) ++ [node]
      rw [List.mem_append, List.mem_singleton]
      exact not_or.mpr ⟨hnull, hnode.symm⟩
    · have hfirst : node ≠ st.firstFile := fun h => hnew (h ▸ List.mem_cons_self)
      have hnlast : node ≠ st.links.prev st.firstFile := fun h => hnew (h ▸ hprev)
      have hread : (st.links.setNext (st.links.prev st.firstFile) node).prev st.firstFile =
          st.links.prev st.firstFile := rfl
      rw [hread, insertTail_eq hfirst hnlast]
      exact hr.insertTail hnew

theorem FileInv.opened_added {stream : Nat} {fd : Int} {node : Ptr} (h : FileInv st nodes)
    (hs : st.isOpen (some stream) = false) (hfd : ∀ s, st.isOpen s = true → st.fileno s ≠ fd)
    (hnode : node ≠ none) (hfree : st.allocated node = false) :
    ∃ st', (st.opened (some stream) fd).addOpenFile node (some stream) = (true, st') ∧
      FileInv st' (nodes ++ [node]) := by
  have hnew : node ∉ nodes := by
    intro hmem
    rw [h.allocated node hmem] at hfree
    cases hfree
  have hc : IsCircular (st.opened (some stream) fd).links (st.opened (some stream) fd).firstFile
      nodes := h.circular
  obtain ⟨links, first, hadd, hcirc⟩ := addOpenFile_of_node (some stream) hc hnode hnew
  have hmap : (nodes ++ [node]).map (Function.update st.file node (some stream)) =
      nodes.map st.file ++ [some stream] := by
    rw [List.map_append, List.map_singleton, Function.update_self]
    congr 1
    apply List.map_congr_left
    intro x hx
    have hx' : x ≠ node := by
      rintro rfl
      exact hnew hx
    exact Function.update_of_ne hx' _ _
  have hnot : some stream ∉ nodes.map st.file := by
    rw [h.exact, hs]
    exact Bool.false_ne_true
  refine ⟨_, hadd, hcirc, ?_, ?_, ?_, ?_, ?_⟩
  · simp only [FileTable.opened, hmap]
    refine List.nodup_append.mpr ⟨h.once, List.nodup_singleton _, ?_⟩
    rintro s hs s' hs' rfl
    exact hnot (List.mem_singleton.mp hs' ▸ hs)
  · intro s
    simp only [FileTable.opened, hmap, List.mem_append, List.mem_singleton, h.exact,
      Function.update_apply]
    split_ifs with hs
    · simp [hs]
    · simp [hs]
  · intro x hx
    simp only [FileTable.opened, Function.update_apply]
    split_ifs with heq
    · rfl
    · exact h.allocated x (by simpa [heq] using hx)
  · simp only [FileTable.opened, Function.update_apply]
    simpa using h.null
  · intro s s'
    simp only [FileTable.opened, Function.update_apply]
    have := h.unique s s'
    split_ifs with hs hs'
    · exact fun _ _ _ => hs.trans hs'.symm
    · intro _ ho heq
      exact absurd heq.symm (hfd s' ho)
    · intro ho _ heq
      exact absurd heq (hfd s ho)
    · exact this

end Add

section Delete

variable {node : Ptr}

theorem delOpenFile_links {l : Links Ptr} {file : Ptr} (hne : l.next file ≠ file) :
    (l.setPrev (l.next file) (l.prev file)).setNext
        ((l.setPrev (l.next file) (l.prev file)).prev file) (l.next file) = l.removeEntry file := by
  have hprev : Function.update l.prev (l.next file) (l.prev file) file = l.prev file :=
    Function.update_of_ne hne.symm _ _
  have hnext : Function.update l.next (l.prev file) (l.next file) file = l.next file := by
    rw [Function.update_apply]
    split_ifs <;> rfl
  simp only [Links.removeEntry, Links.setNext, Links.setPrev, hprev, hnext]

theorem next_ne_of_ring {l : Links Ptr} {x : Ptr} (hr : IsRing l x xs)
    (hs : x :: xs = ys ++ e :: zs) (hne : ys ++ zs ≠ []) : l.next e ≠ e := by
  rw [hr.next_suffix hs]
  have hnodup := hr.nodup
  rw [hs, List.nodup_append, List.nodup_cons] at hnodup
  cases zs with
  | nil =>
    cases ys with
    | nil => exact absurd rfl hne
    | cons y ys =>
      obtain ⟨rfl, -⟩ := List.cons.inj hs
      exact hnodup.2.2 x List.mem_cons_self e List.mem_cons_self
  | cons z zs =>
    rintro rfl
    exact hnodup.2.1.1 List.mem_cons_self

theorem delOpenFile_of_mem (hc : IsCircular st.links st.firstFile (ys ++ e :: zs)) :
    ∃ links first, st.delOpenFile e = { st with links := links, firstFile := first } ∧
      IsCircular links first (ys ++ zs) := by
  have he : e ∈ ys ++ e :: zs := by simp
  have hnull {p : Ptr} (hp : p ∈ ys ++ e :: zs) : p ≠ none := by
    rintro rfl
    exact hc.null_notMem hp
  rw [FileTable.delOpenFile, if_neg (hnull he)]
  by_cases halone : ys ++ zs = []
  · obtain ⟨rfl, rfl⟩ := List.append_eq_nil_iff.mp halone
    obtain ⟨hfirst, -, hr⟩ := hc
    have hnext : e = st.links.next e := hr.next_head.symm
    rw [if_pos hnext]
    exact ⟨_, _, rfl, rfl⟩
  · have hlinks := hnull (hc.next_mem he)
    have hlinks' := hnull (hc.prev_mem he)
    cases ys with
    | nil =>
      obtain ⟨hfirst, hnone, hr⟩ := hc
      have hne := next_ne_of_ring hr rfl halone
      rw [if_neg hne.symm, if_neg (not_or.mpr ⟨hlinks, hlinks'⟩), if_pos hfirst.symm]
      cases zs with
      | nil => exact absurd rfl halone
      | cons z zs =>
        refine ⟨_, _, rfl, ?_⟩
        rw [delOpenFile_links hne]
        refine ⟨hr.next_head, fun h => hnone (List.mem_cons_of_mem _ h), ?_⟩
        simpa using hr.rotate.removeEntry
    | cons y ys =>
      obtain ⟨hfirst, hnone, hr⟩ := hc
      have hne := next_ne_of_ring hr rfl halone
      have hey : e ≠ st.firstFile := by
        rintro rfl
        exact hr.head_notMem (by simp [← hfirst])
      rw [if_neg hne.symm, if_neg (not_or.mpr ⟨hlinks, hlinks'⟩), if_neg hey]
      refine ⟨_, _, rfl, ?_⟩
      rw [delOpenFile_links hne]
      refine ⟨hfirst, fun h => hnone ?_, hr.removeEntry⟩
      rcases List.mem_cons.mp h with h | h
      · exact h ▸ List.mem_cons_self
      · refine List.mem_cons_of_mem _ ?_
        rcases List.mem_append.mp h with h | h
        · exact List.mem_append_left _ h
        · exact List.mem_append_right _ (List.mem_cons_of_mem _ h)

theorem FileInv.closed_deleted {left : Int} (h : FileInv st (ys ++ e :: zs)) :
    FileInv (((st.fclose (st.file e) left).delOpenFile e).free e) (ys ++ zs) := by
  have hc : IsCircular (st.fclose (st.file e) left).links (st.fclose (st.file e) left).firstFile
      (ys ++ e :: zs) := h.circular
  obtain ⟨links, first, hdel, hcirc⟩ := delOpenFile_of_mem hc
  have hsub : (ys ++ zs).Sublist (ys ++ e :: zs) :=
    List.Sublist.append_left (List.sublist_cons_self e zs) ys
  have hother : ∀ s, s ∈ (ys ++ zs).map st.file ↔
      s ∈ (ys ++ e :: zs).map st.file ∧ s ≠ st.file e := by
    have hperm : ((ys ++ e :: zs).map st.file).Perm (st.file e :: (ys ++ zs).map st.file) :=
      List.perm_middle.map st.file
    have hnodup := hperm.nodup_iff.mp h.once
    intro s
    rw [hperm.mem_iff, List.mem_cons]
    constructor
    · intro hs
      refine ⟨.inr hs, ?_⟩
      rintro rfl
      exact (List.nodup_cons.mp hnodup).1 hs
    · rintro ⟨hs | hs, hne⟩
      · exact absurd hs hne
      · exact hs
  rw [hdel]
  simp only [FileTable.free, FileTable.fclose]
  refine ⟨hcirc, h.once.sublist (hsub.map st.file), ?_, ?_, ?_, ?_⟩
  · intro s
    rw [hother, h.exact]
    simp only [Function.update_apply]
    split_ifs with hs
    · simp [hs]
    · simp [hs]
  · intro x hx
    have hxe : x ≠ e := by
      rintro rfl
      exact ((hother _).mp (List.mem_map_of_mem hx)).2 rfl
    simp only [Function.update_of_ne hxe]
    exact h.allocated x (hsub.subset hx)
  · simp only [Function.update_apply]
    split_ifs
    · rfl
    · exact h.null
  · intro s s'
    simp only [Function.update_apply]
    have := h.unique s s'
    split_ifs with hs hs'
    · simp
    · simp
    · simp
    · exact this

end Delete

section Steps

theorem exec_cases {command : FileCommand} {fuel : Nat} {tc tc' : Control}
    (h : command.exec fuel tc st = some (tc', st')) :
    st' = st ∨
    (∃ answer, command.Given st = answer.Given st ∧ st' = (openFileWork answer tc st).2) ∨
    (∃ fd fclose left selFile, command = .secClose fd fclose left ∧ selFile ≠ none ∧
      st.findOpenFile fuel fd = some selFile ∧ st' = (closeFound selFile fclose left tc st).2) := by
  -- the commands that only search the list
  have hsearch {fd : Int} {reply : Ptr → Control}
      (h : (st.findOpenFile fuel fd).map (fun selFile => (reply selFile, st)) = some (tc', st')) :
      st' = st := by
    obtain ⟨selFile, -, hreply⟩ := Option.map_eq_some_iff.mp h
    exact (Prod.mk.inj hreply).2.symm
  cases command with
  | secOpen answer => exact .inr (.inl ⟨answer, rfl, by rw [Option.some.inj h]⟩)
  | secCreate answer => exact .inr (.inl ⟨answer, rfl, by rw [Option.some.inj h]⟩)
  | secClose fd fclose left =>
    obtain ⟨selFile, hfind, hreply⟩ := Option.map_eq_some_iff.mp h
    by_cases hsel : selFile = none
    · rw [if_pos hsel] at hreply
      exact .inl (Prod.mk.inj hreply).2.symm
    · rw [if_neg hsel] at hreply
      exact .inr (.inr ⟨fd, fclose, left, selFile, rfl, hsel, hfind, by rw [hreply]⟩)
  | secRead fd count fread feof errno => exact .inl (hsearch h)
  | secWrite fd count fwrite fflush errno => exact .inl (hsearch h)
  | secSeek fd fseek => exact .inl (hsearch h)
  | secInfo fd fstat size ftell => exact .inl (hsearch h)
  | secFsync fd fflush fsync =>
    rw [FileCommand.exec] at h
    by_cases hfd : fd = 0
    · rw [if_pos hfd] at h
      exact .inl (Prod.mk.inj (Option.some.inj h)).2.symm
    · rw [if_neg hfd] at h
      exact .inl (hsearch h)

theorem FileInv.openFileWork {answer : OpenAnswer} {tc : Control} (h : FileInv st nodes)
    (hgiven : answer.Given st) : ∃ nodes', FileInv (openFileWork answer tc st).2 nodes' := by
  cases answer with
  | refused error => exact ⟨nodes, h⟩
  | failed errno => exact ⟨nodes, h⟩
  | opened stream fd node left =>
    obtain ⟨hs, hfd, hfree⟩ := hgiven
    by_cases hnode : node = none
    · refine ⟨nodes, ?_⟩
      simp only [Teecd.openFileWork, FileTable.addOpenFile, hnode, if_true, Bool.false_eq_true,
        if_false, FileTable.fclose, FileTable.opened, Function.update_idem]
      have hopen : Function.update st.isOpen (some stream) false = st.isOpen := by
        rw [← hs, Function.update_eq_self]
      rw [hopen]
      refine ⟨h.circular, h.once, h.exact, h.allocated, h.null, fun s s' ho ho' heq => ?_⟩
      have hne {s : Ptr} (ho : st.isOpen s = true) : s ≠ some stream := by
        rintro rfl
        rw [hs] at ho
        cases ho
      simp only [Function.update_of_ne (hne ho), Function.update_of_ne (hne ho')] at heq
      exact h.unique s s' ho ho' heq
    · obtain ⟨st', hadd, hinv⟩ := h.opened_added hs hfd hnode hfree
      refine ⟨nodes ++ [node], ?_⟩
      simpa [Teecd.openFileWork, hadd] using hinv

def FileCommand.Closes (st : FileTable) : FileCommand → Prop
  | .secClose fd fclose _ => fclose.ret = 0 ∨ ∀ s, st.isOpen s = true → st.fileno s ≠ fd
  | _ => True

theorem FileInv.exec {command : FileCommand} {fuel : Nat} {tc tc' : Control}
    (h : FileInv st nodes) (hgiven : command.Given st) (hcloses : command.Closes st)
    (hexec : command.exec fuel tc st = some (tc', st')) : ∃ nodes', FileInv st' nodes' := by
  rcases exec_cases hexec with rfl | ⟨answer, heq, rfl⟩ |
    ⟨fd, fclose, left, selFile, rfl, hsel, hfind, rfl⟩
  · exact ⟨nodes, h⟩
  · exact h.openFileWork (heq ▸ hgiven)
  · obtain ⟨hmem, hopen, hfd⟩ := (h.wellKept.found hfind).resolve_right fun hnone => hsel hnone.1
    obtain ⟨ys, zs, rfl⟩ := List.mem_iff_append.mp hmem
    have hret : fclose.ret = 0 := hcloses.resolve_right fun hnone => hnone _ hopen hfd
    refine ⟨ys ++ zs, ?_⟩
    rw [closeFound, if_pos hret]
    exact h.closed_deleted

theorem WellKept.closes {command : FileCommand} {fuel : Nat} {tc tc' : Control} {nodes' : List Ptr}
    (h : WellKept st nodes) (hexec : command.exec fuel tc st = some (tc', st'))
    (h' : WellKept st' nodes') : command.Closes st := by
  cases command with
  | secClose fd fclose left =>
    obtain ⟨selFile, hfind, hreply⟩ := Option.map_eq_some_iff.mp hexec
    rcases h.found hfind with ⟨hmem, hopen, hfd⟩ | ⟨-, hnone⟩
    · by_contra hfails
      have hret : fclose.ret ≠ 0 := fun hret => hfails (.inl hret)
      have hsel : selFile ≠ none := by
        rintro rfl
        exact h.circular.null_notMem hmem
      rw [if_neg hsel, closeFound, if_neg hret] at hreply
      obtain rfl := (Prod.mk.inj hreply).2
      have hstill : selFile ∈ nodes' := (h.circular.mem_congr h'.circular).mp hmem
      have hclosed := (h'.exact _).mp (List.mem_map_of_mem hstill)
      simp [FileTable.fclose] at hclosed
    · exact .inr hnone
  | secOpen | secCreate | secRead | secWrite | secSeek | secInfo | secFsync => trivial

end Steps

section Runs

variable {steps : List (FileTable × FileCommand)}

theorem fileInv_init : FileInv .init [] := by
  refine ⟨rfl, List.nodup_nil, ?_, ?_, rfl, ?_⟩
  · intro s
    simp [FileTable.init]
  · intro x hx
    cases hx
  · intro s s' ho
    cases ho

theorem FileRun.inv (run : FileRun steps st) (h : ∀ p ∈ steps, p.2.Closes p.1) :
    ∃ nodes, FileInv st nodes := by
  induction run with
  | init => exact ⟨[], fileInv_init⟩
  | step run given exec ih =>
    obtain ⟨nodes, hinv⟩ := ih fun p hp => h p (List.mem_append_left _ hp)
    exact hinv.exec given (h _ (List.mem_append_right _ (List.mem_singleton_self _))) exec

/-- In every state of a run the list is that of the open streams, exactly when no `fclose`
of an open file has failed. -/
theorem wellKept_iff (run : FileRun steps st) :
    ((∀ p ∈ steps, ∃ nodes, WellKept p.1 nodes) ∧ ∃ nodes, WellKept st nodes) ↔
      ∀ p ∈ steps, p.2.Closes p.1 := by
  induction run with
  | init => exact iff_of_true ⟨by simp, [], fileInv_init.wellKept⟩ (by simp)
  | @step steps st st' command fuel tc tc' run given exec ih =>
    simp only [List.forall_mem_append, List.forall_mem_singleton]
    constructor
    · rintro ⟨⟨hsteps, nodes, hkept⟩, nodes', hkept'⟩
      exact ⟨ih.mp ⟨hsteps, nodes, hkept⟩, hkept.closes exec hkept'⟩
    · rintro ⟨hcloses, hlast⟩
      obtain ⟨hsteps, hkept⟩ := ih.mpr hcloses
      obtain ⟨nodes, hinv⟩ := run.inv hcloses
      obtain ⟨nodes', hinv'⟩ := hinv.exec given hlast exec
      exact ⟨⟨hsteps, hkept⟩, nodes', hinv'.wellKept⟩

section Samples

def sampleControl : Control := ⟨0, 0, 0, 0, 0, []⟩

def FileTable.after (st : FileTable) (command : FileCommand) : FileTable :=
  ((command.exec 3 sampleControl st).map Prod.snd).getD st

theorem FileRun.after (run : FileRun steps st) {command : FileCommand} (given : command.Given st)
    (hexec : (command.exec 3 sampleControl st).isSome) :
    FileRun (steps ++ [(st, command)]) (st.after command) := by
  obtain ⟨p, hp⟩ := Option.isSome_iff_exists.mp hexec
  have hafter : st.after command = p.2 := by
    rw [FileTable.after, hp]
    rfl
  rw [hafter]
  exact run.step given hp

def secOpenOn (stream node : Nat) (fd : Int) : FileCommand :=
  .secOpen (.opened stream fd (some node) 0)

def secCloseOf (fd : Int) : FileCommand := .secClose fd ⟨0, 0⟩ (-1)

theorem given_secCloseOf (st : FileTable) (fd : Int) : (secCloseOf fd).Given st := trivial

def oneOpen : FileTable := FileTable.init.after (secOpenOn 1 10 5)
def twoOpen : FileTable := oneOpen.after (secOpenOn 2 11 6)
def threeOpen : FileTable := twoOpen.after (secOpenOn 3 12 7)
def middleClosed : FileTable := threeOpen.after (secCloseOf 6)
def headClosed : FileTable := middleClosed.after (secCloseOf 5)
def reopened : FileTable := headClosed.after (secOpenOn 1 11 5)
def tailClosed : FileTable := reopened.after (secCloseOf 5)

theorem run_oneOpen : FileRun [(.init, secOpenOn 1 10 5)] oneOpen :=
  FileRun.init.after ⟨rfl, fun _ hs => absurd hs Bool.false_ne_true, rfl⟩ rfl

/-- Three files are opened, that in the middle and then the first are closed, another one is opened
on a node and a descriptor that were free again, and is closed: it was the last. -/
theorem wellKept_reopened : ∃ steps, FileRun steps tailClosed ∧ steps.length = 7 ∧
    (∀ p ∈ steps, ∃ nodes, WellKept p.1 nodes) ∧ ∃ nodes, WellKept tailClosed nodes := by
  have hsecond : (secOpenOn 2 11 6).Given oneOpen := by
    refine ⟨rfl, ?_, rfl⟩
    rintro (_ | _ | _ | s) hs
    all_goals first | decide | cases hs
  have hthird : (secOpenOn 3 12 7).Given twoOpen := by
    refine ⟨rfl, ?_, rfl⟩
    rintro (_ | _ | _ | _ | s) hs
    all_goals first | decide | cases hs
  have hagain : (secOpenOn 1 11 5).Given headClosed := by
    refine ⟨rfl, ?_, rfl⟩
    rintro (_ | _ | _ | _ | _ | s) hs
    all_goals first | decide | cases hs
  have hthree := (run_oneOpen.after hsecond rfl).after hthird rfl
  have hmiddle : FileRun _ middleClosed := hthree.after (given_secCloseOf threeOpen 6) rfl
  have hhead : FileRun _ headClosed := hmiddle.after (given_secCloseOf middleClosed 5) rfl
  have run : FileRun _ tailClosed :=
    (hhead.after hagain rfl).after (given_secCloseOf reopened 5) rfl
  refine ⟨_, run, rfl, (wellKept_iff run).mpr ?_⟩
  simp [FileCommand.Closes, secOpenOn, secCloseOf]

/-- Its `fclose` fails. -/
theorem not_wellKept : ∃ steps st, FileRun steps st ∧ ¬ ∃ nodes, WellKept st nodes := by
  have given : (FileCommand.secClose 5 ⟨-1, 5⟩ (-1)).Given oneOpen := trivial
  have exec : FileCommand.exec 1 (.secClose 5 ⟨-1, 5⟩ (-1)) sampleControl oneOpen =
    some ({ sampleControl with ret := -1, error := 5 }, oneOpen.fclose (some 1) (-1)) := rfl
  refine ⟨_, _, run_oneOpen.step given exec, ?_⟩
  rintro ⟨nodes, hkept⟩
  have hmem : some 10 ∈ nodes := by
    cases nodes with
    | nil =>
      have hfirst : (oneOpen.fclose (some 1) (-1)).firstFile = none := hkept.circular
      exact absurd hfirst (by decide)
    | cons x xs =>
      rw [← hkept.circular.1]
      exact List.mem_cons_self
  have hclosed := (hkept.exact _).mp (List.mem_map_of_mem hmem)
  exact absurd hclosed (by decide)

end Samples

end Runs

end TeeClient.Teecd
