import Mathlib.Tactic

/-! File-system paths without symbolic links: where a path leads, and what a relative
path does to the directory in front of it. -/

namespace Paths

abbrev Name := List Char

def step (dir : List Name) (c : Name) : List Name :=
  if c = [] ∨ c = ['.'] then dir
  else if c = ['.', '.'] then dir.tail
  else c :: dir

def walk (dir : List Name) (cs : List Name) : List Name := cs.foldl step dir

def components (path : List Char) : List Name := path.splitOn '/'

def resolve (path : List Char) : List Name := (walk [] (components path)).reverse

def Below (root : List Name) (path : List Char) : Prop :=
  root <+: resolve path ∧ root ≠ resolve path

instance (root : List Name) (path : List Char) : Decidable (Below root path) :=
  inferInstanceAs (Decidable (_ ∧ _))

def Ordinary (c : Name) : Prop := c ≠ [] ∧ c ≠ ['.'] ∧ c ≠ ['.', '.']

instance (c : Name) : Decidable (Ordinary c) := inferInstanceAs (Decidable (_ ∧ _ ∧ _))

/-- A relative path in normal form: the number of directories it climbs, and the names
it descends along after that, deepest first. -/
structure Relative where
  up : Nat
  down : List Name
  deriving DecidableEq, Repr

def Relative.step (r : Relative) (c : Name) : Relative :=
  if c = [] ∨ c = ['.'] then r
  else if c = ['.', '.'] then
    match r.down with
    | [] => ⟨r.up + 1, []⟩
    | _ :: down => ⟨r.up, down⟩
  else ⟨r.up, c :: r.down⟩

def reduce (cs : List Name) : Relative := cs.foldl Relative.step ⟨0, []⟩

theorem components_append (s t : List Char) :
    components (s ++ '/' :: t) = components s ++ components t :=
  List.splitOn_append_cons_self s t

theorem components_of_notMem {s : List Char} (h : '/' ∉ s) : components s = [s] :=
  List.splitOn_eq_singleton h

theorem walk_append (dir cs ds : List Name) : walk dir (cs ++ ds) = walk (walk dir cs) ds :=
  List.foldl_append

theorem walk_ordinary (dir : List Name) {cs : List Name} (h : ∀ c ∈ cs, Ordinary c) :
    walk dir cs = cs.reverse ++ dir := by
  induction cs generalizing dir with
  | nil => rfl
  | cons c cs ih =>
    rw [List.forall_mem_cons] at h
    obtain ⟨hempty, hdot, hdots⟩ := h.1
    have hstep : step dir c = c :: dir := by simp [step, hempty, hdot, hdots]
    change walk (step dir c) cs = _
    rw [hstep, ih (c :: dir) h.2]
    simp

theorem step_relative (dir : List Name) (r : Relative) (c : Name) :
    step (r.down ++ dir.drop r.up) c = (r.step c).down ++ dir.drop (r.step c).up := by
  obtain ⟨up, down⟩ := r
  simp only [step, Relative.step]
  split_ifs with hskip hdots
  · rfl
  · cases down with
    | nil => simp
    | cons d down => rfl
  · rfl

/-- A relative path climbs out of the directory in front of it and descends again. -/
theorem walk_eq_reduce (dir cs : List Name) :
    walk dir cs = (reduce cs).down ++ dir.drop (reduce cs).up := by
  have hrun (r : Relative) : walk (r.down ++ dir.drop r.up) cs =
      (cs.foldl Relative.step r).down ++ dir.drop (cs.foldl Relative.step r).up := by
    induction cs generalizing r with
    | nil => rfl
    | cons c cs ih =>
      change walk (step (r.down ++ dir.drop r.up) c) cs = _
      rw [step_relative, ih]
      rfl
  exact hrun ⟨0, []⟩

theorem resolve_append (s t : List Char) :
    resolve (s ++ '/' :: t) =
      ((reduce (components t)).down ++
        (resolve s).reverse.drop (reduce (components t)).up).reverse := by
  rw [resolve, components_append, walk_append, walk_eq_reduce, resolve, List.reverse_reverse]

theorem prefix_resolve_append_iff {s t : List Char} (hne : resolve s ≠ [])
    (ht : (reduce (components t)).up = 0 ∨ reduce (components t) = ⟨1, []⟩) :
    resolve s <+: resolve (s ++ '/' :: t) ↔ reduce (components t) ≠ ⟨1, []⟩ := by
  rw [resolve_append]
  constructor
  · intro hpre hone
    have hlen := hpre.length_le
    have hpos := List.length_pos_of_ne_nil hne
    simp only [hone, List.nil_append, List.length_reverse, List.length_drop] at hlen
    omega
  · intro hone
    simp [ht.resolve_right hone]

section Names

theorem mem_walk {dir cs : List Name} {c : Name} (h : c ∈ walk dir cs) :
    c ∈ dir ∨ c ∈ cs ∧ Ordinary c := by
  induction cs generalizing dir with
  | nil => exact .inl h
  | cons d cs ih =>
    rcases ih h with h | ⟨hc, hord⟩
    · rw [step] at h
      split_ifs at h with hskip hdots
      · exact .inl h
      · exact .inl (List.mem_of_mem_tail h)
      · rcases List.mem_cons.mp h with rfl | h
        · push Not at hskip
          exact .inr ⟨List.mem_cons_self, hskip.1, hskip.2, hdots⟩
        · exact .inl h
    · exact .inr ⟨List.mem_cons_of_mem _ hc, hord⟩

theorem notMem_of_mem_splitOn {s c : List Char} {a : Char} (h : c ∈ s.splitOn a) : a ∉ c := by
  induction s generalizing c with
  | nil =>
    obtain rfl : c = [] := by simpa using h
    exact List.not_mem_nil
  | cons x s ih =>
    rw [List.splitOn_cons_eq_if_modifyHead] at h
    by_cases hx : (x == a) = true
    · rw [if_pos hx] at h
      rcases List.mem_cons.mp h with rfl | h
      · exact List.not_mem_nil
      · exact ih h
    · rw [if_neg hx] at h
      obtain ⟨d, ds, hs⟩ := List.exists_cons_of_ne_nil (List.splitOn_ne_nil a s)
      rw [hs, List.modifyHead_cons] at h
      rw [hs] at ih
      rcases List.mem_cons.mp h with rfl | h
      · have hxa : x ≠ a := by simpa using hx
        simpa [hxa.symm] using ih List.mem_cons_self
      · exact ih (List.mem_cons_of_mem _ h)

end Names

section Canonical

structure Canonical where
  names : List Name
  ordinary : ∀ c ∈ names, Ordinary c
  noSlash : ∀ c ∈ names, '/' ∉ c

namespace Canonical

def text (p : Canonical) : List Char :=
  if p.names = [] then ['/'] else p.names.flatMap ('/' :: ·)

theorem text_of_ne {p : Canonical} (h : p.names ≠ []) : p.text = p.names.flatMap ('/' :: ·) :=
  if_neg h

theorem text_ne_nil (p : Canonical) : p.text ≠ [] := by
  by_cases h : p.names = []
  · rw [text, if_pos h]
    exact List.cons_ne_nil _ _
  · obtain ⟨c, cs, hcs⟩ := List.exists_cons_of_ne_nil h
    rw [text_of_ne h, hcs]
    exact List.cons_ne_nil _ _

theorem components_flatMap {c : Name} {cs : List Name} (h : ∀ d ∈ c :: cs, '/' ∉ d) :
    components (c ++ cs.flatMap ('/' :: ·)) = c :: cs := by
  induction cs generalizing c with
  | nil =>
    rw [List.flatMap_nil, List.append_nil]
    exact components_of_notMem (h c List.mem_cons_self)
  | cons d cs ih =>
    rw [List.forall_mem_cons] at h
    rw [List.flatMap_cons, List.cons_append, components_append, components_of_notMem h.1, ih h.2]
    rfl

theorem components_text {p : Canonical} (h : p.names ≠ []) : components p.text = [] :: p.names := by
  rw [text_of_ne h]
  exact components_flatMap (c := []) (List.forall_mem_cons.mpr ⟨List.not_mem_nil, p.noSlash⟩)

@[simp] theorem resolve_text (p : Canonical) : resolve p.text = p.names := by
  by_cases h : p.names = []
  · rw [text, if_pos h, h]
    rfl
  · rw [resolve, components_text h]
    change (walk [] p.names).reverse = p.names
    rw [walk_ordinary [] p.ordinary, List.append_nil, List.reverse_reverse]

theorem below_iff {root p : Canonical} (hroot : root.names ≠ []) :
    Below root.names p.text ↔ root.text ++ ['/'] <+: p.text := by
  rw [Below, resolve_text]
  by_cases hp : p.names = []
  · refine iff_of_false (fun h => ?_) fun h => ?_
    · rw [hp, List.prefix_nil] at h
      exact hroot h.1
    · have hroots : p.text = ['/'] := if_pos hp
      have hlen := h.length_le
      rw [hroots, List.length_append] at hlen
      exact root.text_ne_nil (List.length_eq_zero_iff.mp (by simpa using hlen))
  · constructor
    · rintro ⟨⟨cs, hcs⟩, hne⟩
      cases cs with
      | nil => exact absurd (by simpa using hcs) hne
      | cons c cs =>
        rw [text_of_ne hroot, text_of_ne hp, ← hcs, List.flatMap_append, List.flatMap_cons]
        exact (List.prefix_append_right_inj _).mpr ⟨c ++ cs.flatMap ('/' :: ·), rfl⟩
    · rintro ⟨t, ht⟩
      rw [List.append_assoc, List.singleton_append] at ht
      have hcomp := congrArg components ht
      rw [components_append, components_text hroot, components_text hp, List.cons_append] at hcomp
      have hnames := (List.cons.inj hcomp).2
      refine ⟨⟨components t, hnames⟩, fun heq => ?_⟩
      rw [heq] at hnames
      have hnil : components t = [] := by simpa using hnames
      exact List.splitOn_ne_nil '/' t hnil

def ofPath (path : List Char) : Canonical where
  names := resolve path
  ordinary c h := by
    rcases mem_walk (List.mem_reverse.mp h) with h | h
    · cases h
    · exact h.2
  noSlash c h := by
    rcases mem_walk (List.mem_reverse.mp h) with h | h
    · cases h
    · exact notMem_of_mem_splitOn h.1

end Canonical

end Canonical

section Checked

variable {s : List Char} {a : Char} {c : Name}

theorem prefix_of_splitOn {h : Name} {t : List Name} (hs : s.splitOn a = h :: t) (ht : t ≠ []) :
    h ++ [a] <+: s := by
  induction s generalizing h t with
  | nil =>
    obtain ⟨rfl, rfl⟩ : [] = h ∧ [] = t := by simpa using hs
    exact absurd rfl ht
  | cons x s ih =>
    rw [List.splitOn_cons_eq_if_modifyHead] at hs
    by_cases hx : (x == a) = true
    · rw [if_pos hx] at hs
      obtain ⟨rfl, rfl⟩ := List.cons.inj hs
      obtain rfl := eq_of_beq hx
      simp
    · rw [if_neg hx] at hs
      obtain ⟨h', t', hs'⟩ := List.exists_cons_of_ne_nil (List.splitOn_ne_nil a s)
      rw [hs'] at hs
      obtain ⟨rfl, rfl⟩ := List.cons.inj hs
      simpa using ih hs' ht

theorem infix_of_mem_dropLast (hc : c ∈ (s.splitOn a).dropLast) : c ++ [a] <:+: s := by
  induction s with
  | nil => simp at hc
  | cons x s ih =>
    have hne := List.splitOn_ne_nil a s
    rw [List.splitOn_cons_eq_if_modifyHead] at hc
    by_cases hx : (x == a) = true
    · rw [if_pos hx, List.dropLast_cons_of_ne_nil hne] at hc
      obtain rfl := eq_of_beq hx
      rcases List.mem_cons.mp hc with rfl | hc
      · exact (List.prefix_append [x] s).isInfix
      · exact List.infix_cons (ih hc)
    · rw [if_neg hx] at hc
      obtain ⟨h, t, hs⟩ := List.exists_cons_of_ne_nil hne
      rw [hs, List.modifyHead_cons] at hc
      cases ht : t with
      | nil => simp [ht] at hc
      | cons y ys =>
        have htne : t ≠ [] := by simp [ht]
        rw [List.dropLast_cons_of_ne_nil htne] at hc
        rcases List.mem_cons.mp hc with rfl | hc
        · have hpre := prefix_of_splitOn hs htne
          exact (List.cons_prefix_cons.mpr ⟨rfl, hpre⟩).isInfix
        · have : c ∈ (s.splitOn a).dropLast := by
            rw [hs, List.dropLast_cons_of_ne_nil htne]
            exact List.mem_cons_of_mem _ hc
          exact List.infix_cons (ih this)

theorem noClimb_of_followed {q t : List Char} (h : ¬ "../".toList <:+: q ++ '/' :: t) :
    ∀ c ∈ components q, c ≠ ['.', '.'] := by
  rintro c hc rfl
  apply h
  apply infix_of_mem_dropLast (a := '/') (c := ['.', '.'])
  have hsplit : (q ++ '/' :: t).splitOn '/' = components q ++ components t := components_append q t
  have hne : components t ≠ [] := List.splitOn_ne_nil '/' t
  rw [hsplit, List.dropLast_append_of_ne_nil hne]
  exact List.mem_append_left _ hc

theorem reduce_up_of_noClimb {cs : List Name} (h : ∀ c ∈ cs, c ≠ ['.', '.']) :
    (reduce cs).up = 0 := by
  have hrun (r : Relative) : (cs.foldl Relative.step r).up = r.up := by
    induction cs generalizing r with
    | nil => rfl
    | cons c cs ih =>
      rw [List.forall_mem_cons] at h
      change (cs.foldl Relative.step (r.step c)).up = _
      rw [ih h.2]
      simp only [Relative.step, if_neg h.1]
      split_ifs <;> rfl
  exact hrun ⟨0, []⟩

/-- A path without `../` climbs at most once, and then only when it names nothing. -/
theorem reduce_of_checked (h : ¬ "../".toList <:+: s) :
    (reduce (components s)).up = 0 ∨ reduce (components s) = ⟨1, []⟩ := by
  obtain ⟨cs, last, hcs⟩ : ∃ cs last, components s = cs ++ [last] :=
    ⟨_, _, (List.dropLast_append_getLast (List.splitOn_ne_nil '/' s)).symm⟩
  have hup : (reduce cs).up = 0 := by
    apply reduce_up_of_noClimb
    rintro c hc rfl
    refine h (infix_of_mem_dropLast (a := '/') (c := ['.', '.']) ?_)
    have hdrop : (s.splitOn '/').dropLast = cs := by
      change (components s).dropLast = cs
      rw [hcs, List.dropLast_concat]
    rwa [hdrop]
  have hlast : reduce (components s) = (reduce cs).step last := by
    rw [hcs]
    simp [reduce]
  rw [hlast]
  generalize reduce cs = r at hup
  obtain ⟨up, down⟩ := r
  obtain rfl : up = 0 := hup
  simp only [Relative.step]
  split_ifs
  · exact .inl rfl
  · cases down with
    | nil => exact .inr rfl
    | cons d down => exact .inl rfl
  · exact .inl rfl

end Checked

end Paths
