import Mathlib.Tactic
import TeeClient.Lib.Paths

/-! A tree of files, directories and symbolic links: where a path leads, and what is left of
that when entries are removed. -/

namespace FileTree

open Paths

inductive Node
  | file
  | dir
  | link (target : List Char)
  deriving DecidableEq, Repr

abbrev Pos := List Name

structure Tree where
  node : Pos → Option Node
  root : node [] = some .dir
  parent : ∀ {name : Name} {pos : Pos}, node (name :: pos) ≠ none → node pos = some .dir
  named : ∀ {name : Name} {pos : Pos}, node (name :: pos) ≠ none → Ordinary name ∧ '/' ∉ name

namespace Tree

structure Leaf (t : Tree) (pos : Pos) : Prop where
  ne_root : pos ≠ []
  empty : ∀ name, t.node (name :: pos) = none

def erase (t : Tree) (pos : Pos) (h : t.Leaf pos) : Tree where
  node := Function.update t.node pos none
  root := by rw [Function.update_of_ne h.ne_root.symm, t.root]
  parent {name p} hne := by
    by_cases heq : name :: p = pos
    · rw [heq, Function.update_self] at hne
      exact absurd rfl hne
    · rw [Function.update_of_ne heq] at hne
      have hp : p ≠ pos := by
        rintro rfl
        exact hne (h.empty name)
      rw [Function.update_of_ne hp, t.parent hne]
  named {name p} hne := by
    by_cases heq : name :: p = pos
    · rw [heq, Function.update_self] at hne
      exact absurd rfl hne
    · rw [Function.update_of_ne heq] at hne
      exact t.named hne

def base (dir : Pos) (path : List Char) : Pos := if path.head? = some '/' then [] else dir

/-- The components `cs`, met in `pos`, lead to `dest`; every link on the way is followed. -/
inductive Walk (t : Tree) : Pos → List Name → Pos → Prop
  | nil (pos : Pos) : Walk t pos [] pos
  | here {pos dest : Pos} {c : Name} {cs : List Name} (hdir : t.node pos = some .dir)
      (hc : c = [] ∨ c = ['.']) (rest : Walk t pos cs dest) : Walk t pos (c :: cs) dest
  | up {pos dest : Pos} {cs : List Name} (hdir : t.node pos = some .dir)
      (rest : Walk t pos.tail cs dest) : Walk t pos (['.', '.'] :: cs) dest
  | down {pos dest : Pos} {c : Name} {cs : List Name} {n : Node}
      (hnode : t.node (c :: pos) = some n) (hlink : ∀ target, n ≠ .link target)
      (rest : Walk t (c :: pos) cs dest) : Walk t pos (c :: cs) dest
  | link {pos mid dest : Pos} {c : Name} {cs : List Name} {target : List Char}
      (hnode : t.node (c :: pos) = some (.link target)) (hne : target ≠ [])
      (through : Walk t (base pos target) (components target) mid)
      (rest : Walk t mid cs dest) : Walk t pos (c :: cs) dest

/-- The last component of a path, met in `dir`, when a link there is not followed. -/
def Entry (t : Tree) (dir : Pos) (last : Name) (pos : Pos) : Prop :=
  if Ordinary last then pos = last :: dir ∧ t.node pos ≠ none else t.Walk dir [last] pos

def Locates (t : Tree) (cwd : Pos) (path : List Char) (pos : Pos) : Prop :=
  path ≠ [] ∧ ∃ init last dir, components path = init ++ [last] ∧
    t.Walk (base cwd path) init dir ∧ t.Entry dir last pos

def Follows (t : Tree) (cwd : Pos) (path : List Char) (pos : Pos) : Prop :=
  path ≠ [] ∧ t.Walk (base cwd path) (components path) pos

variable {t t' : Tree} {cwd dir pos pos' mid : Pos} {path : List Char} {name : Name} {cs ds : List Name}

section Nodes

theorem node_tail (h : t.node pos = some .dir) : t.node pos.tail = some .dir := by
  cases pos with
  | nil => exact h
  | cons name pos =>
    have hne : t.node (name :: pos) ≠ none := by
      rw [h]
      exact Option.some_ne_none _
    exact t.parent hne

theorem node_none_of_suffix (h : t.node pos = none) (hsuf : pos <:+ pos') : t.node pos' = none := by
  obtain ⟨names, rfl⟩ := hsuf
  induction names with
  | nil => exact h
  | cons name names ih =>
    by_contra hne
    have hdir : t.node (names ++ pos) = some .dir := t.parent hne
    exact absurd (hdir.symm.trans ih) (Option.some_ne_none _)

@[simp] theorem node_erase (h : t.Leaf pos) : (t.erase pos h).node = Function.update t.node pos none :=
  rfl

theorem Leaf.of_not_dir (hne : t.node pos ≠ none) (hdir : t.node pos ≠ some .dir) : t.Leaf pos where
  ne_root := by
    rintro rfl
    exact hdir t.root
  empty name := by
    by_contra hchild
    exact hdir (t.parent hchild)

end Nodes

section Walks

theorem walk_cons_ordinary (hname : Ordinary name) : t.Walk pos (name :: cs) pos' ↔
    (∃ n, t.node (name :: pos) = some n ∧ (∀ target, n ≠ .link target) ∧ t.Walk (name :: pos) cs pos') ∨
      ∃ target mid, t.node (name :: pos) = some (.link target) ∧ target ≠ [] ∧
        t.Walk (base pos target) (components target) mid ∧ t.Walk mid cs pos' := by
  constructor
  · intro h
    cases h with
    | here _ hc _ =>
      rcases hc with rfl | rfl
      · exact absurd rfl hname.1
      · exact absurd rfl hname.2.1
    | up _ _ => exact absurd rfl hname.2.2
    | down hnode hlink rest => exact .inl ⟨_, hnode, hlink, rest⟩
    | link hnode hne through rest => exact .inr ⟨_, _, hnode, hne, through, rest⟩
  · rintro (⟨n, hnode, hlink, rest⟩ | ⟨target, mid, hnode, hne, through, rest⟩)
    · exact .down hnode hlink rest
    · exact .link hnode hne through rest

theorem Walk.unique (h : t.Walk pos cs pos') (h' : t.Walk pos cs mid) : pos' = mid := by
  induction h generalizing mid with
  | nil pos =>
    cases h'
    rfl
  | @here pos dest c cs hdir hc rest ih =>
    cases h' with
    | here _ _ rest' => exact ih rest'
    | up _ _ => rcases hc with hc | hc <;> cases hc
    | down hnode _ _ | link hnode _ _ _ =>
      have hname := (t.named (by rw [hnode]; exact Option.some_ne_none _)).1
      exact absurd hc (not_or.mpr ⟨hname.1, hname.2.1⟩)
  | @up pos dest cs hdir rest ih =>
    cases h' with
    | here _ hc _ => rcases hc with hc | hc <;> cases hc
    | up _ rest' => exact ih rest'
    | down hnode _ _ | link hnode _ _ _ =>
      exact absurd rfl (t.named (by rw [hnode]; exact Option.some_ne_none _)).1.2.2
  | @down pos dest c cs n hnode hlink rest ih =>
    have hname := (t.named (by rw [hnode]; exact Option.some_ne_none _)).1
    rcases (walk_cons_ordinary hname).mp h' with ⟨n', -, -, rest'⟩ | ⟨target, mid, hnode', -⟩
    · exact ih rest'
    · rw [hnode] at hnode'
      exact absurd (Option.some.inj hnode') (hlink target)
  | @link pos via dest c cs target hnode hne through rest ih₁ ih₂ =>
    have hname := (t.named (by rw [hnode]; exact Option.some_ne_none _)).1
    rcases (walk_cons_ordinary hname).mp h' with
      ⟨n', hnode', hlink, -⟩ | ⟨target', via', hnode', -, through', rest'⟩
    · rw [hnode] at hnode'
      exact absurd (Option.some.inj hnode').symm (hlink target)
    · rw [hnode] at hnode'
      obtain rfl : target = target' := by cases hnode'; rfl
      obtain rfl := ih₁ through'
      exact ih₂ rest'

theorem Walk.append (h : t.Walk pos cs mid) (h' : t.Walk mid ds pos') :
    t.Walk pos (cs ++ ds) pos' := by
  induction h with
  | nil pos => exact h'
  | here hdir hc _ ih => exact .here hdir hc (ih h')
  | up hdir _ ih => exact .up hdir (ih h')
  | down hnode hlink _ ih => exact .down hnode hlink (ih h')
  | link hnode hne through _ _ ih => exact .link hnode hne through (ih h')

theorem Walk.mono (hsub : ∀ p n, t'.node p = some n → t.node p = some n)
    (h : t'.Walk pos cs pos') : t.Walk pos cs pos' := by
  induction h with
  | nil pos => exact .nil pos
  | here hdir hc _ ih => exact .here (hsub _ _ hdir) hc ih
  | up hdir _ ih => exact .up (hsub _ _ hdir) ih
  | down hnode hlink _ ih => exact .down (hsub _ _ hnode) hlink ih
  | link hnode hne _ _ ih₁ ih₂ => exact .link (hsub _ _ hnode) hne ih₁ ih₂

end Walks

section Paths

theorem Entry.node_ne_none (h : t.Entry dir name pos) : t.node pos ≠ none := by
  rw [Entry] at h
  split_ifs at h with hname
  · exact h.2
  · cases h with
    | here hdir _ rest =>
      cases rest
      rw [hdir]
      exact Option.some_ne_none _
    | up hdir rest =>
      cases rest
      rw [node_tail hdir]
      exact Option.some_ne_none _
    | down hnode _ _ | link hnode _ _ _ =>
      exact absurd (t.named (by rw [hnode]; exact Option.some_ne_none _)).1 hname

theorem Entry.unique (h : t.Entry dir name pos) (h' : t.Entry dir name pos') : pos = pos' := by
  rw [Entry] at h h'
  split_ifs at h h' with hname
  · rw [h.1, h'.1]
  · exact h.unique h'

theorem Entry.mono (hsub : ∀ p n, t'.node p = some n → t.node p = some n)
    (h : t'.Entry dir name pos) : t.Entry dir name pos := by
  rw [Entry] at h ⊢
  split_ifs at h ⊢ with hname
  · obtain ⟨hpos, hne⟩ := h
    obtain ⟨n, hn⟩ := Option.ne_none_iff_exists'.mp hne
    exact ⟨hpos, by rw [hsub _ _ hn]; exact Option.some_ne_none n⟩
  · exact h.mono hsub

theorem Entry.walk (h : t.Entry dir name pos) (hdir : t.node pos = some .dir) :
    t.Walk dir [name] pos := by
  rw [Entry] at h
  split_ifs at h with hname
  · obtain ⟨rfl, -⟩ := h
    exact .down hdir (fun _ => Node.noConfusion) (.nil _)
  · exact h

theorem Locates.node_ne_none (h : t.Locates cwd path pos) : t.node pos ≠ none := by
  obtain ⟨-, init, last, dir, -, -, hentry⟩ := h
  exact hentry.node_ne_none

theorem Locates.unique (h : t.Locates cwd path pos) (h' : t.Locates cwd path pos') : pos = pos' := by
  obtain ⟨-, init, last, dir, hcs, hwalk, hentry⟩ := h
  obtain ⟨-, init', last', dir', hcs', hwalk', hentry'⟩ := h'
  obtain ⟨rfl, hlast⟩ := List.append_inj' (hcs.symm.trans hcs') rfl
  cases hlast
  obtain rfl := hwalk.unique hwalk'
  exact hentry.unique hentry'

theorem Locates.mono (hsub : ∀ p n, t'.node p = some n → t.node p = some n)
    (h : t'.Locates cwd path pos) : t.Locates cwd path pos := by
  obtain ⟨hne, init, last, dir, hcs, hwalk, hentry⟩ := h
  exact ⟨hne, init, last, dir, hcs, hwalk.mono hsub, hentry.mono hsub⟩

theorem Locates.follows (h : t.Locates cwd path pos) (hdir : t.node pos = some .dir) :
    t.Follows cwd path pos := by
  obtain ⟨hne, init, last, dir, hcs, hwalk, hentry⟩ := h
  exact ⟨hne, hcs ▸ hwalk.append (hentry.walk hdir)⟩

theorem Locates.child (h : t.Locates cwd path pos) (hdir : t.node pos = some .dir)
    (hname : Ordinary name) (hslash : '/' ∉ name)
    (h' : t.Locates cwd (path ++ '/' :: name) pos') : pos' = name :: pos := by
  have hfollows := h.follows hdir
  obtain ⟨-, init, last, dir, hcs, hwalk, hentry⟩ := h'
  rw [components_append, components_of_notMem hslash] at hcs
  obtain ⟨rfl, hlast⟩ := List.append_inj' hcs rfl
  cases hlast
  have hbase : base cwd (path ++ '/' :: name) = base cwd path := by
    rw [base, base, List.head?_append_of_ne_nil _ h.1]
  rw [hbase] at hwalk
  obtain rfl := hfollows.2.unique hwalk
  rw [Entry, if_pos hname] at hentry
  exact hentry.1

theorem Locates.extend (h : t.Locates cwd path pos) (hdir : t.node pos = some .dir)
    (hchild : t.node (name :: pos) ≠ none) : t.Locates cwd (path ++ '/' :: name) (name :: pos) := by
  obtain ⟨hname, hslash⟩ := t.named hchild
  have hne : path ++ '/' :: name ≠ [] := List.append_ne_nil_of_left_ne_nil h.1 _
  have hbase : base cwd (path ++ '/' :: name) = base cwd path := by
    rw [base, base, List.head?_append_of_ne_nil _ h.1]
  refine ⟨hne, components path, name, pos, ?_, ?_, ?_⟩
  · rw [components_append, components_of_notMem hslash]
  · rw [hbase]
    exact (h.follows hdir).2
  · rw [Entry, if_pos hname]
    exact ⟨rfl, hchild⟩

def absolute (pos : Pos) : List Char := pos.reverse.flatMap ('/' :: ·)

theorem walk_reverse (h : t.node pos = some .dir) : t.Walk [] pos.reverse pos := by
  induction pos with
  | nil => exact .nil []
  | cons name pos ih =>
    have hne : t.node (name :: pos) ≠ none := by
      rw [h]
      exact Option.some_ne_none _
    rw [List.reverse_cons]
    exact (ih (t.parent hne)).append (.down h (fun _ => Node.noConfusion) (.nil _))

theorem notMem_of_node (h : t.node pos ≠ none) : ∀ name ∈ pos, '/' ∉ name := by
  induction pos with
  | nil => exact fun _ hname => absurd hname List.not_mem_nil
  | cons name pos ih =>
    have hparent : t.node pos ≠ none := by
      rw [t.parent h]
      exact Option.some_ne_none _
    exact List.forall_mem_cons.mpr ⟨(t.named h).2, ih hparent⟩

theorem locates_absolute (h : t.node pos ≠ none) (hroot : pos ≠ []) :
    t.Locates cwd (absolute pos) pos := by
  obtain ⟨c, cs, hcs⟩ := List.exists_cons_of_ne_nil (mt List.reverse_eq_nil_iff.mp hroot)
  have hpath : absolute pos = '/' :: (c ++ cs.flatMap ('/' :: ·)) := by
    rw [absolute, hcs]
    rfl
  obtain ⟨name, dir, rfl⟩ := List.exists_cons_of_ne_nil hroot
  have hslash : ∀ c ∈ [] :: (name :: dir).reverse, '/' ∉ c := by
    refine List.forall_mem_cons.mpr ⟨List.not_mem_nil, fun c hc => ?_⟩
    exact notMem_of_node h c (List.mem_reverse.mp hc)
  have hcomponents : components (absolute (name :: dir)) = [] :: (name :: dir).reverse :=
    Canonical.components_flatMap hslash
  have hne : absolute (name :: dir) ≠ [] := by
    rw [hpath]
    exact List.cons_ne_nil _ _
  have hhead : (absolute (name :: dir)).head? = some '/' := by
    rw [hpath]
    rfl
  refine ⟨hne, [] :: dir.reverse, name, dir, ?_, ?_, ?_⟩
  · rw [hcomponents, List.reverse_cons, List.cons_append]
  · rw [base, if_pos hhead]
    exact .here t.root (.inl rfl) (walk_reverse (t.parent h))
  · rw [Entry, if_pos (t.named h).1]
    exact ⟨rfl, h⟩

end Paths

end Tree

end FileTree
