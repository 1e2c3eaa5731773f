import Mathlib.Tactic
import TeeClient.Teecd.FsAgent
import TeeClient.Lib.FileTree

/-! `UnlinkRecursive` on a file tree with symbolic links, where any call may fail. -/

namespace TeeClient.Teecd

open Resumption Paths FileTree

section Calls

/-- What the calls of `UnlinkRecursive` do, made in the directory `cwd`.  `readdir` hands out
entries in any order, and may end before the last one. -/
def UnlinkStep (cwd : Pos) (t : Tree) : (a : FsAct) → FsResp a → Tree → Prop
  | .lstat path => fun (isDir : Option Bool) t' =>
    t' = t ∧ ∀ b ∈ isDir, ∃ pos, t.Locates cwd path pos ∧ (b = true ↔ t.node pos = some .dir)
  | .unlink path => fun (ok : Bool) t' =>
    if ok then ∃ pos, ∃ h : t.Leaf pos, t.Locates cwd path pos ∧ t.node pos ≠ some .dir ∧
      t' = t.erase pos h
    else t' = t
  | .opendir path => fun (entries : Option (List CString)) t' =>
    t' = t ∧ ∀ names ∈ entries, ∃ pos, t.Follows cwd path pos ∧ t.node pos = some .dir ∧
      ∀ name ∈ names, name = "..".toList ∨ name = ".".toList ∨ t.node (name :: pos) ≠ none
  | .closedir => fun _ t' => t' = t
  | .rmdir path => fun (ok : Bool) t' =>
    if ok then ∃ pos, ∃ h : t.Leaf pos, t.Locates cwd path pos ∧ t.node pos = some .dir ∧
      t' = t.erase pos h
    else t' = t
  | _ => fun _ _ => False

end Calls

section Specification

/-- Entries are removed, and only those at or below what `name` names; success means that all
of these are gone. -/
structure RemovesExactly (cwd : Pos) (name : CString) (t : Tree) (ok : Bool) (t' : Tree) : Prop where
  removes : ∀ pos n, t'.node pos = some n → t.node pos = some n
  outside : ∀ pos, (∀ root, t.Locates cwd name root → ¬ root <:+ pos) → t'.node pos = t.node pos
  whole : ok = true ↔ ∃ root, t.Locates cwd name root ∧ ∀ pos, root <:+ pos → t'.node pos = none

end Specification

section Loop

variable {cwd : Pos} {t t' : Tree} {name : CString} {root : Pos}

theorem RemovesExactly.refused : RemovesExactly cwd name t false t where
  removes _ _ h := h
  outside _ _ := rfl
  whole := by
    refine iff_of_false Bool.false_ne_true ?_
    rintro ⟨root, hroot, hgone⟩
    exact hroot.node_ne_none (hgone root List.suffix_rfl)

structure Emptied (root : Pos) (t t' : Tree) : Prop where
  removes : ∀ pos n, t'.node pos = some n → t.node pos = some n
  outside : ∀ pos, (∀ entry, ¬ entry :: root <:+ pos) → t'.node pos = t.node pos

theorem Emptied.refl (root : Pos) (t : Tree) : Emptied root t t := ⟨fun _ _ h => h, fun _ _ => rfl⟩

theorem Emptied.node_root (h : Emptied root t t') : t'.node root = t.node root := by
  apply h.outside
  intro entry hsuf
  have hlen := hsuf.length_le
  rw [List.length_cons] at hlen
  omega

theorem Emptied.step {entry : CString} {mid : Tree} {ok : Bool} (h : Emptied root t mid)
    (hroot : t.Locates cwd name root) (hdir : t.node root = some .dir)
    (hentry : t.node (entry :: root) ≠ none)
    (hrec : RemovesExactly cwd (name ++ '/' :: entry) mid ok t') : Emptied root t t' where
  removes pos n hpos := h.removes _ _ (hrec.removes _ _ hpos)
  outside pos hpos := by
    rw [hrec.outside pos, h.outside pos hpos]
    intro sub hsub
    obtain ⟨hname, hslash⟩ := t.named hentry
    rw [hroot.child hdir hname hslash (hsub.mono h.removes)]
    exact hpos entry

theorem twp_unlinkEntries {unlink : CString → FsProgram Bool} {entries : List CString}
    {I : Tree → Prop} (hstep : ∀ entry ∈ entries, entry ≠ "..".toList → entry ≠ ".".toList →
      ∀ t, I t → twp (UnlinkStep cwd) (unlink entry) (fun _ => I) t) (h : I t) :
    twp (UnlinkStep cwd) (unlinkEntries unlink entries) (fun _ => I) t := by
  induction entries generalizing t with
  | nil => exact h
  | cons entry entries ih =>
    have hrest := fun e he => hstep e (List.mem_cons_of_mem _ he)
    rw [unlinkEntries]
    split_ifs with hdots
    · exact ih hrest h
    · obtain ⟨hup, hhere⟩ := not_or.mp hdots
      rw [Prog.bind_eq, twp_bind]
      apply twp_mono _ (hstep entry List.mem_cons_self hup hhere t h)
      rintro (_ | _) t' ht'
      · exact ht'
      · exact ih hrest ht'

end Loop

section Recursion

variable {cwd : Pos} {t t' : Tree} {name : CString} {root : Pos}

theorem RemovesExactly.kept (hroot : t.Locates cwd name root) (hdir : t.node root = some .dir)
    (h : Emptied root t t') : RemovesExactly cwd name t false t' where
  removes := h.removes
  outside pos hpos := by
    apply h.outside
    intro entry hsuf
    exact hpos root hroot ((List.suffix_cons entry root).trans hsuf)
  whole := by
    refine iff_of_false Bool.false_ne_true ?_
    rintro ⟨root', hroot', hgone⟩
    obtain rfl := hroot.unique hroot'
    have hnode := hgone root List.suffix_rfl
    rw [h.node_root, hdir] at hnode
    cases hnode

theorem RemovesExactly.emptied (hroot : t.Locates cwd name root) (h : Emptied root t t')
    (hleaf : t'.Leaf root) : RemovesExactly cwd name t true (t'.erase root hleaf) where
  removes pos n hpos := by
    by_cases heq : pos = root
    · rw [heq, Tree.node_erase, Function.update_self] at hpos
      cases hpos
    · rw [Tree.node_erase, Function.update_of_ne heq] at hpos
      exact h.removes _ _ hpos
  outside pos hpos := by
    have hnot := hpos root hroot
    have hne : pos ≠ root := by
      rintro rfl
      exact hnot List.suffix_rfl
    rw [Tree.node_erase, Function.update_of_ne hne]
    apply h.outside
    intro entry hsuf
    exact hnot ((List.suffix_cons entry root).trans hsuf)
  whole := by
    refine iff_of_true rfl ⟨root, hroot, fun pos hsuf => ?_⟩
    have hgone : (t'.erase root hleaf).node root = none := Function.update_self _ _ _
    exact Tree.node_none_of_suffix hgone hsuf

theorem twp_unlinkRecursiveDir {unlink : CString → FsProgram Bool}
    (hroot : t.Locates cwd name root) (hdir : t.node root = some .dir)
    (hunlink : ∀ entry t, twp (UnlinkStep cwd) (unlink entry)
      (RemovesExactly cwd (name ++ '/' :: entry) t) t) :
    twp (UnlinkStep cwd) (unlinkRecursiveDir name unlink) (RemovesExactly cwd name t) t := by
  simp only [unlinkRecursiveDir, call, Prog.bind_eq, Prog.bind_perform]
  refine ⟨⟨none, t, rfl, by simp⟩, ?_⟩
  rintro (_ | entries) t₀ ⟨rfl, hentries⟩
  · exact RemovesExactly.refused
  obtain ⟨pos, hpos, -, hnames⟩ := hentries entries rfl
  obtain rfl := (hroot.follows hdir).2.unique hpos.2
  have hloop : twp (UnlinkStep cwd) (unlinkEntries unlink entries) (fun _ => Emptied root t₀) t₀ := by
    apply twp_unlinkEntries _ (Emptied.refl root t₀)
    intro entry hmem hup hhere mid hmid
    have hentry : t₀.node (entry :: root) ≠ none :=
      ((hnames entry hmem).resolve_left hup).resolve_left hhere
    exact twp_mono (fun _ _ hrec => hmid.step hroot hdir hentry hrec) (hunlink entry mid)
  rw [twp_bind]
  apply twp_mono _ hloop
  rintro (_ | _) t₁ hemptied
  · refine ⟨⟨false, t₁, rfl⟩, ?_⟩
    rintro closed t₂ rfl
    exact RemovesExactly.kept hroot hdir hemptied
  · refine ⟨⟨false, t₁, rfl⟩, ?_⟩
    rintro (_ | _) t₂ rfl
    · exact RemovesExactly.kept hroot hdir hemptied
    · refine ⟨⟨false, t₂, rfl⟩, ?_⟩
      rintro (_ | _) t₃ hrmdir
      · obtain rfl : t₃ = t₂ := hrmdir
        exact RemovesExactly.kept hroot hdir hemptied
      · obtain ⟨pos, hleaf, hpos, -, rfl⟩ := hrmdir
        obtain rfl := hroot.unique (hpos.mono hemptied.removes)
        exact RemovesExactly.emptied hroot hemptied hleaf

end Recursion

/-- However the calls go, `UnlinkRecursive` ends; what it removes is part of the subtree that its
argument names, and it reports success exactly when all of that is gone. -/
theorem unlinkRecursive_exact (cwd : Pos) (name : CString) (t : Tree) :
    twp (UnlinkStep cwd) (unlinkRecursive name) (RemovesExactly cwd name t) t := by
  -- a path of an entry is longer, and paths are bounded
  induction hlen : pathMax - name.length using Nat.strong_induction_on generalizing name t with
  | _ n ih =>
    rw [unlinkRecursive]
    simp only [call, Prog.bind_eq, Prog.bind_perform]
    refine ⟨⟨none, t, rfl, by simp⟩, ?_⟩
    rintro (_ | _ | _) t₀ ⟨rfl, hfound⟩
    · exact RemovesExactly.refused
    · refine ⟨⟨false, t₀, rfl⟩, ?_⟩
      rintro (_ | _) t₁ hunlink
      · obtain rfl : t₁ = t₀ := hunlink
        exact RemovesExactly.refused
      · obtain ⟨pos, hleaf, hpos, -, rfl⟩ := hunlink
        exact RemovesExactly.emptied hpos (Emptied.refl pos t₀) hleaf
    · obtain ⟨root, hroot, hdir⟩ := hfound true rfl
      apply twp_unlinkRecursiveDir hroot (hdir.mp rfl)
      intro entry t
      split_ifs with hroom
      · apply ih _ _ _ t rfl
        rw [← hlen]
        simp only [List.length_append, List.length_cons] at hroom ⊢
        omega
      · exact RemovesExactly.refused

section Working

/-- No call fails that could succeed, and `readdir` hands out every entry once. -/
def Works (cwd : Pos) (t : Tree) : (a : FsAct) → FsResp a → Prop
  | .lstat path => fun (isDir : Option Bool) => isDir = none → ∀ pos, ¬ t.Locates cwd path pos
  | .unlink path => fun (ok : Bool) =>
    ok = false → ∀ pos, t.Leaf pos → t.Locates cwd path pos → t.node pos = some .dir
  | .opendir path => fun (entries : Option (List CString)) =>
    (entries = none → ∀ pos, t.Follows cwd path pos → t.node pos ≠ some .dir) ∧
      ∀ names ∈ entries, names.Nodup ∧
        ∀ pos, t.Follows cwd path pos → ∀ name, t.node (name :: pos) ≠ none → name ∈ names
  | .closedir => fun (ok : Bool) => ok = true
  | .rmdir path => fun (ok : Bool) =>
    ok = false → ∀ pos, t.Leaf pos → t.Locates cwd path pos → t.node pos ≠ some .dir
  | _ => fun _ => True

def WorkingStep (cwd : Pos) (t : Tree) (a : FsAct) (r : FsResp a) (t' : Tree) : Prop :=
  UnlinkStep cwd t a r t' ∧ Works cwd t a r

def below (name : CString) : Pos → CString
  | [] => name
  | entry :: names => below name names ++ '/' :: entry

theorem below_concat (name entry : CString) (names : Pos) :
    below name (names ++ [entry]) = below (name ++ '/' :: entry) names := by
  induction names with
  | nil => rfl
  | cons e names ih => rw [List.cons_append, below, below, ih]

variable {cwd root : Pos} {t t' t'' : Tree} {name : CString}

/-- The paths below a name have room in a buffer, and directories have an end. -/
structure Fits (t : Tree) (name : CString) (root : Pos) : Prop where
  length : ∀ names, t.node (names ++ root) ≠ none → (below name names).length < pathMax
  finite : ∀ pos, {entry | t.node (entry :: pos) ≠ none}.Finite

/-- The name leads to the node by a way that does not go through what is below it. -/
def Settled (cwd : Pos) (t : Tree) (name : CString) (root : Pos) : Prop :=
  ∀ t', Emptied root t t' → t'.Locates cwd name root

structure Cleared (root : Pos) (entries : List CString) (t t' : Tree) : Prop where
  gone : ∀ entry ∈ entries, ∀ pos, entry :: root <:+ pos → t'.node pos = none
  kept : ∀ pos, (∀ entry ∈ entries, ¬ entry :: root <:+ pos) → t'.node pos = t.node pos

structure Gone (root : Pos) (t t' : Tree) : Prop where
  gone : ∀ pos, root <:+ pos → t'.node pos = none
  kept : ∀ pos, ¬ root <:+ pos → t'.node pos = t.node pos

theorem Emptied.trans (h : Emptied root t t') (h' : Emptied root t' t'') : Emptied root t t'' where
  removes pos n hpos := h.removes pos n (h'.removes pos n hpos)
  outside pos hpos := (h'.outside pos hpos).trans (h.outside pos hpos)

theorem Emptied.of_child {entry : CString} (h : Emptied (entry :: root) t t') : Emptied root t t' where
  removes := h.removes
  outside pos hpos := by
    apply h.outside
    intro sub hsub
    exact hpos entry ((List.suffix_cons sub (entry :: root)).trans hsub)

theorem Cleared.emptied {entries : List CString} (h : Cleared root entries t t') :
    Emptied root t t' where
  removes pos n hpos := by
    rw [← h.kept pos]
    · exact hpos
    · intro entry hentry hsuf
      rw [h.gone entry hentry pos hsuf] at hpos
      cases hpos
  outside pos hpos := h.kept pos fun entry _ => hpos entry

theorem Gone.emptied {entry : CString} (h : Gone (entry :: root) t t') : Emptied root t t' where
  removes pos n hpos := by
    rw [← h.kept pos]
    · exact hpos
    · intro hsuf
      rw [h.gone pos hsuf] at hpos
      cases hpos
  outside pos hpos := h.kept pos (hpos entry)

theorem Settled.mono (h : Settled cwd t name root) (hsub : Emptied root t t') :
    Settled cwd t' name root := fun t'' h'' => h t'' (hsub.trans h'')

theorem Fits.mono (h : Fits t name root) (hsub : Emptied root t t') : Fits t' name root := by
  have hnode {pos : Pos} (hpos : t'.node pos ≠ none) : t.node pos ≠ none := by
    obtain ⟨n, hn⟩ := Option.ne_none_iff_exists'.mp hpos
    rw [hsub.removes pos n hn]
    exact Option.some_ne_none n
  exact ⟨fun names hnames => h.length names (hnode hnames),
    fun pos => (h.finite pos).subset fun entry hentry => hnode hentry⟩

theorem Settled.child (h : Settled cwd t name root) (hdir : t.node root = some .dir)
    {entry : CString} (hentry : t.node (entry :: root) ≠ none) :
    Settled cwd t (name ++ '/' :: entry) (entry :: root) := by
  intro t' ht'
  apply (h t' ht'.of_child).extend
  · rw [ht'.of_child.node_root, hdir]
  · rw [ht'.node_root]
    exact hentry

theorem Fits.child (h : Fits t name root) (entry : CString) :
    Fits t (name ++ '/' :: entry) (entry :: root) := by
  refine ⟨fun names hnames => ?_, h.finite⟩
  rw [← below_concat]
  apply h.length
  rw [List.append_assoc, List.singleton_append]
  exact hnames

theorem Cleared.erase {entries : List CString} (h : Cleared root entries t t')
    (hleaf : t'.Leaf root) : Gone root t (t'.erase root hleaf) where
  gone pos hsuf := by
    have hgone : (t'.erase root hleaf).node root = none := Function.update_self _ _ _
    exact Tree.node_none_of_suffix hgone hsuf
  kept pos hsuf := by
    have hne : pos ≠ root := by
      rintro rfl
      exact hsuf List.suffix_rfl
    rw [Tree.node_erase, Function.update_of_ne hne]
    apply h.kept
    intro entry _ hentry
    exact hsuf ((List.suffix_cons entry root).trans hentry)

theorem node_dots {entry : CString} (h : entry = "..".toList ∨ entry = ".".toList) :
    t.node (entry :: root) = none := by
  by_contra hne
  obtain ⟨-, hhere, hup⟩ := (t.named hne).1
  exact h.elim hup hhere

theorem Cleared.nil (root : Pos) (t : Tree) : Cleared root [] t t :=
  ⟨fun _ hentry => absurd hentry List.not_mem_nil, fun _ _ => rfl⟩

theorem Cleared.skip {entry : CString} {entries : List CString} (hnone : t.node (entry :: root) = none)
    (h : Cleared root entries t t') : Cleared root (entry :: entries) t t' where
  gone := by
    refine List.forall_mem_cons.mpr ⟨fun pos hsuf => ?_, h.gone⟩
    by_contra hne
    obtain ⟨n, hn⟩ := Option.ne_none_iff_exists'.mp hne
    have hpos := h.emptied.removes pos n hn
    rw [Tree.node_none_of_suffix hnone hsuf] at hpos
    cases hpos
  kept pos hpos := h.kept pos fun e he => hpos e (List.mem_cons_of_mem _ he)

theorem Cleared.cons {entry : CString} {entries : List CString} (hgone : Gone (entry :: root) t t')
    (h : Cleared root entries t' t'') : Cleared root (entry :: entries) t t'' where
  gone := by
    refine List.forall_mem_cons.mpr ⟨fun pos hsuf => ?_, h.gone⟩
    by_contra hne
    obtain ⟨n, hn⟩ := Option.ne_none_iff_exists'.mp hne
    have hpos := h.emptied.removes pos n hn
    rw [hgone.gone pos hsuf] at hpos
    cases hpos
  kept pos hpos := by
    obtain ⟨hfirst, hrest⟩ := List.forall_mem_cons.mp hpos
    rw [h.kept pos hrest, hgone.kept pos hfirst]

theorem Gone.node_entry {entry other : CString} (h : Gone (entry :: root) t t') (hne : other ≠ entry) :
    t'.node (other :: root) = t.node (other :: root) := by
  apply h.kept
  intro hsuf
  exact hne (List.cons.inj (hsuf.eq_of_length rfl)).1.symm

theorem twp_unlinkEntries_cleared {unlink : CString → FsProgram Bool} {entries : List CString}
    (hunlink : ∀ entry t, Settled cwd t (name ++ '/' :: entry) (entry :: root) →
      Fits t (name ++ '/' :: entry) (entry :: root) →
      twp (WorkingStep cwd) (unlink entry) (fun ok t' => ok = true ∧ Gone (entry :: root) t t') t)
    (hsettled : Settled cwd t name root) (hdir : t.node root = some .dir) (hfits : Fits t name root)
    (hnodup : entries.Nodup) (hthere : ∀ entry ∈ entries,
      entry = "..".toList ∨ entry = ".".toList ∨ t.node (entry :: root) ≠ none) :
    twp (WorkingStep cwd) (unlinkEntries unlink entries)
      (fun ok t' => ok = true ∧ Cleared root entries t t') t := by
  induction entries generalizing t with
  | nil => exact ⟨rfl, Cleared.nil root t⟩
  | cons entry entries ih =>
    obtain ⟨hnot, hnodup⟩ := List.nodup_cons.mp hnodup
    obtain ⟨hfirst, hrest⟩ := List.forall_mem_cons.mp hthere
    rw [unlinkEntries]
    split_ifs with hdots
    · apply twp_mono _ (ih hsettled hdir hfits hnodup hrest)
      rintro ok t' ⟨hok, hcleared⟩
      exact ⟨hok, hcleared.skip (node_dots hdots)⟩
    · have hentry : t.node (entry :: root) ≠ none := by
        rw [← or_assoc] at hfirst
        exact hfirst.resolve_left hdots
      rw [Prog.bind_eq, twp_bind]
      apply twp_mono _ (hunlink entry t (hsettled.child hdir hentry) (hfits.child entry))
      rintro ok t₁ ⟨rfl, hgone⟩
      have hsub := hgone.emptied
      have hdir₁ : t₁.node root = some .dir := by rw [hsub.node_root, hdir]
      have hthere₁ : ∀ e ∈ entries, e = "..".toList ∨ e = ".".toList ∨ t₁.node (e :: root) ≠ none := by
        intro e he
        have hne : e ≠ entry := fun heq => hnot (heq ▸ he)
        rw [hgone.node_entry hne]
        exact hrest e he
      apply twp_mono _ (ih (hsettled.mono hsub) hdir₁ (hfits.mono hsub) hnodup hthere₁)
      rintro ok t₂ ⟨hok, hcleared⟩
      exact ⟨hok, hcleared.cons hgone⟩

theorem twp_unlinkRecursiveDir_gone {unlink : CString → FsProgram Bool}
    (hunlink : ∀ entry t, Settled cwd t (name ++ '/' :: entry) (entry :: root) →
      Fits t (name ++ '/' :: entry) (entry :: root) →
      twp (WorkingStep cwd) (unlink entry) (fun ok t' => ok = true ∧ Gone (entry :: root) t t') t)
    (hsettled : Settled cwd t name root) (hne : root ≠ []) (hdir : t.node root = some .dir)
    (hfits : Fits t name root) :
    twp (WorkingStep cwd) (unlinkRecursiveDir name unlink)
      (fun ok t' => ok = true ∧ Gone root t t') t := by
  have hroot := hsettled t (.refl root t)
  have hfollows := hroot.follows hdir
  simp only [unlinkRecursiveDir, call, Prog.bind_eq, Prog.bind_perform]
  refine ⟨?_, ?_⟩
  · let names := (hfits.finite root).toFinset.toList
    have hmem (entry : CString) : entry ∈ names ↔ t.node (entry :: root) ≠ none := by
      rw [Finset.mem_toList, Set.Finite.mem_toFinset, Set.mem_ofPred_eq]
    refine ⟨some names, t, ⟨rfl, ?_⟩, ⟨fun hnone => absurd hnone (Option.some_ne_none names), ?_⟩⟩
    · rintro _ ⟨⟩
      exact ⟨root, hfollows, hdir, fun entry hentry => .inr (.inr ((hmem entry).mp hentry))⟩
    · rintro _ ⟨⟩
      refine ⟨Finset.nodup_toList _, fun pos hpos entry hentry => ?_⟩
      obtain rfl := hfollows.2.unique hpos.2
      exact (hmem entry).mpr hentry
  rintro (_ | entries) t₀ ⟨⟨rfl, hentries⟩, hworks⟩
  · exact absurd hdir (hworks.1 rfl root hfollows)
  obtain ⟨pos, hpos, -, hnames⟩ := hentries entries rfl
  obtain rfl := hfollows.2.unique hpos.2
  obtain ⟨hnodup, hall⟩ := hworks.2 entries rfl
  rw [twp_bind]
  apply twp_mono _ (twp_unlinkEntries_cleared hunlink hsettled hdir hfits hnodup hnames)
  rintro ok t₁ ⟨rfl, hcleared⟩
  have hsub := hcleared.emptied
  have hleaf : t₁.Leaf root := by
    refine ⟨hne, fun entry => ?_⟩
    by_contra hentry
    obtain ⟨n, hn⟩ := Option.ne_none_iff_exists'.mp hentry
    have hmem : entry ∈ entries := by
      apply hall root hfollows
      rw [hsub.removes _ n hn]
      exact Option.some_ne_none n
    exact hentry (hcleared.gone entry hmem _ List.suffix_rfl)
  have hdir₁ : t₁.node root = some .dir := by rw [hsub.node_root, hdir]
  refine ⟨⟨true, t₁, rfl, rfl⟩, ?_⟩
  rintro _ t₂ ⟨rfl, rfl⟩
  refine ⟨⟨true, t₂.erase root hleaf, ⟨root, hleaf, hsettled t₂ hsub, hdir₁, rfl⟩,
    fun hfails => by cases hfails⟩, ?_⟩
  rintro (_ | _) t₃ ⟨hrmdir, hworks⟩
  · exact absurd hdir₁ (hworks rfl root hleaf (hsettled t₂ hsub))
  · obtain ⟨pos, hleaf', hpos, -, rfl⟩ := hrmdir
    obtain rfl := (hsettled t₂ hsub).unique hpos
    exact ⟨rfl, hcleared.erase hleaf'⟩

/-- Where no call fails that could succeed, `UnlinkRecursive` removes the whole subtree and
nothing else. -/
theorem unlinkRecursive_gone (hsettled : Settled cwd t name root) (hne : root ≠ [])
    (hfits : Fits t name root) :
    twp (WorkingStep cwd) (unlinkRecursive name) (fun ok t' => ok = true ∧ Gone root t t') t := by
  induction hlen : pathMax - name.length using Nat.strong_induction_on generalizing name root t with
  | _ n ih =>
    have hroot := hsettled t (.refl root t)
    rw [unlinkRecursive]
    simp only [call, Prog.bind_eq, Prog.bind_perform]
    refine ⟨⟨some (decide (t.node root = some .dir)), t, ⟨rfl, ?_⟩, fun hnone => by cases hnone⟩, ?_⟩
    · rintro _ ⟨⟩
      exact ⟨root, hroot, decide_eq_true_iff⟩
    rintro (_ | _ | _) t₀ ⟨⟨rfl, hfound⟩, hworks⟩
    · exact absurd hroot (hworks rfl root)
    · obtain ⟨pos, hpos, hdir⟩ := hfound false rfl
      obtain rfl := hroot.unique hpos
      have hfile : t₀.node root ≠ some .dir := fun h => Bool.false_ne_true (hdir.mpr h)
      have hleaf := Tree.Leaf.of_not_dir hroot.node_ne_none hfile
      refine ⟨⟨true, t₀.erase root hleaf, ⟨root, hleaf, hroot, hfile, rfl⟩,
        fun hfails => by cases hfails⟩, ?_⟩
      rintro (_ | _) t₁ ⟨hunlink, hworks⟩
      · exact absurd (hworks rfl root hleaf hroot) hfile
      · obtain ⟨pos, hleaf', hpos, -, rfl⟩ := hunlink
        obtain rfl := hroot.unique hpos
        exact ⟨rfl, (Cleared.nil root t₀).erase hleaf'⟩
    · obtain ⟨pos, hpos, hdir⟩ := hfound true rfl
      obtain rfl := hroot.unique hpos
      apply twp_unlinkRecursiveDir_gone _ hsettled hne (hdir.mp rfl) hfits
      intro entry t hsettled hfits
      have hentry := (hsettled t (.refl _ t)).node_ne_none
      have hroom := hfits.length [] hentry
      rw [below] at hroom
      rw [if_pos hroom]
      apply ih _ _ hsettled (List.cons_ne_nil entry root) hfits rfl
      rw [← hlen]
      simp only [List.length_append, List.length_cons] at hroom ⊢
      omega

theorem settled_absolute (hnode : t.node root ≠ none) (hne : root ≠ []) :
    Settled cwd t (Tree.absolute root) root := by
  intro t' ht'
  rw [← ht'.node_root] at hnode
  exact Tree.locates_absolute hnode hne

theorem unlinkRecursive_absolute (hnode : t.node root ≠ none) (hne : root ≠ [])
    (hfits : Fits t (Tree.absolute root) root) :
    (∃ ok t', Runs (WorkingStep cwd) t (unlinkRecursive (Tree.absolute root)) ok t') ∧
      ∀ ok t', Runs (WorkingStep cwd) t (unlinkRecursive (Tree.absolute root)) ok t' →
        ok = true ∧ Gone root t t' := by
  have hsettled : Settled cwd t (Tree.absolute root) root := settled_absolute hnode hne
  have htwp := unlinkRecursive_gone hsettled hne hfits
  refine ⟨twp_runs htwp, fun ok t' hrun => ?_⟩
  have hsound := twp_sound htwp hrun
  exact hsound

end Working

end TeeClient.Teecd
