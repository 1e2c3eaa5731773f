import Mathlib.Tactic

/-! Programs as trees of atomic actions.  A program runs alone, or it is one of any
number of calls whose actions interleave; a call carries a local state that its own
actions update, such as the references it holds. -/

namespace Resumption

inductive Prog (A : Type) (R : A → Type) (α : Type)
  | pure (x : α)
  | act (a : A) (k : R a → Prog A R α)

variable {A : Type} {R : A → Type} {α β S E L : Type}

namespace Prog

def bind : Prog A R α → (α → Prog A R β) → Prog A R β
  | .pure x, f => f x
  | .act a k, f => .act a fun r => (k r).bind f

instance : Monad (Prog A R) where
  pure := .pure
  bind := .bind

def perform (a : A) : Prog A R (R a) := .act a .pure

def All (q : A → Prop) : Prog A R α → Prop
  | .pure _ => True
  | .act a k => q a ∧ ∀ r, All q (k r)

def Yields (x : α) : Prog A R α → Prop
  | .pure y => y = x
  | .act _ k => ∃ r, Yields x (k r)

/-- Whatever the answers, the program ends with a value that `q` holds of. -/
def Gives (q : α → Prop) (p : Prog A R α) : Prop := ∀ x, Yields x p → q x

/-- Some answers bring the program to the action `b`; `before` are the actions until then,
with their answers. -/
inductive Performs : Prog A R α → List (Sigma R) → A → Prop
  | here (a : A) (k : R a → Prog A R α) : Performs (.act a k) [] a
  | later {a b : A} {k : R a → Prog A R α} (r : R a) {before : List (Sigma R)}
      (h : Performs (k r) before b) : Performs (.act a k) (⟨a, r⟩ :: before) b

def eval (answer : Nat → (a : A) → R a) : Nat → Prog A R α → α
  | _, .pure x => x
  | n, .act a k => (k (answer n a)).eval answer (n + 1)

inductive Traced (can : (a : A) → R a → Prop) : Prog A R α → List (Sigma R) → α → Prop
  | pure (x : α) : Traced can (.pure x) [] x
  | act {a : A} {r : R a} {k : R a → Prog A R α} {t : List (Sigma R)} {x : α} (h : can a r)
      (rest : Traced can (k r) t x) : Traced can (.act a k) (⟨a, r⟩ :: t) x

def each (f : β → Prog A R Unit) : List β → Prog A R Unit
  | [] => .pure ()
  | x :: xs => (f x).bind fun _ => each f xs

@[simp] theorem pure_eq (x : α) : (Pure.pure x : Prog A R α) = .pure x := rfl

@[simp] theorem bind_eq (p : Prog A R α) (f : α → Prog A R β) : (p >>= f) = p.bind f := rfl

@[simp] theorem bind_pure (x : α) (f : α → Prog A R β) : (Prog.pure x).bind f = f x := rfl

@[simp] theorem bind_act (a : A) (k : R a → Prog A R α) (f : α → Prog A R β) :
    (Prog.act a k).bind f = .act a fun r => (k r).bind f := rfl

@[simp] theorem bind_perform (a : A) (f : R a → Prog A R β) :
    (perform a).bind f = .act a f := rfl

theorem bind_assoc {γ : Type} (p : Prog A R α) (f : α → Prog A R β) (g : β → Prog A R γ) :
    (p.bind f).bind g = p.bind fun x => (f x).bind g := by
  induction p with
  | pure x => rfl
  | act a k ih => exact congrArg (Prog.act a) (funext ih)

section Traced

variable {can : (a : A) → R a → Prop} {p : Prog A R α} {t : List (Sigma R)}

theorem traced_pure {x y : α} : Traced can (.pure x) t y ↔ t = [] ∧ y = x := by
  constructor
  · intro h
    cases h
    exact ⟨rfl, rfl⟩
  · rintro ⟨rfl, rfl⟩
    exact .pure y

theorem traced_act {a : A} {k : R a → Prog A R α} {x : α} :
    Traced can (.act a k) t x ↔ ∃ r t', t = ⟨a, r⟩ :: t' ∧ can a r ∧ Traced can (k r) t' x := by
  constructor
  · intro h
    cases h with
    | act h rest => exact ⟨_, _, rfl, h, rest⟩
  · rintro ⟨r, t', rfl, h, rest⟩
    exact .act h rest

theorem traced_bind {f : α → Prog A R β} {y : β} :
    Traced can (p.bind f) t y ↔
      ∃ t₁ t₂ x, t = t₁ ++ t₂ ∧ Traced can p t₁ x ∧ Traced can (f x) t₂ y := by
  constructor
  · intro h
    induction p generalizing t with
    | pure x => exact ⟨[], t, x, rfl, .pure x, h⟩
    | act a k ih =>
      obtain ⟨r, t', rfl, hr, hrest⟩ := traced_act.mp h
      obtain ⟨t₁, t₂, x, rfl, hp, hf⟩ := ih r hrest
      exact ⟨_, t₂, x, rfl, .act hr hp, hf⟩
  · rintro ⟨t₁, t₂, x, rfl, hp, hf⟩
    induction hp with
    | pure x => exact hf
    | act hr _ ih => exact .act hr (ih hf)

theorem Traced.mem {q : A → Prop} {x : α} (h : Traced can p t x) (hall : All q p) {s : Sigma R}
    (hs : s ∈ t) : q s.1 := by
  induction h with
  | pure x => cases hs
  | act _ _ ih =>
    rcases List.mem_cons.mp hs with rfl | hs
    · exact hall.1
    · exact ih (hall.2 _) hs

end Traced

section All

variable {q : A → Prop} {p : Prog A R α}

theorem All.bind {f : α → Prog A R β} (hp : All q p) (hf : ∀ x, All q (f x)) :
    All q (p.bind f) := by
  induction p with
  | pure x => exact hf x
  | act a k ih => exact ⟨hp.1, fun r => ih r (hp.2 r)⟩

theorem All.of_bind {f : α → Prog A R β} (h : All q (p.bind f)) : All q p := by
  induction p with
  | pure x => trivial
  | act a k ih => exact ⟨h.1, fun r => ih r (h.2 r)⟩

theorem All.of_forall (h : ∀ a, q a) : All q p := by
  induction p with
  | pure x => trivial
  | act a k ih => exact ⟨h a, ih⟩

theorem All.ite {b : Prop} [Decidable b] {p' : Prog A R α} (hp : All q p) (hp' : All q p') :
    All q (if b then p else p') := by
  split_ifs
  · exact hp
  · exact hp'

theorem Yields.all_of_bind {f : α → Prog A R β} {x : α} (hx : Yields x p)
    (h : All q (p.bind f)) : All q (f x) := by
  induction p with
  | pure y =>
    obtain rfl : y = x := hx
    exact h
  | act a k ih =>
    obtain ⟨r, hr⟩ := hx
    exact ih r hr (h.2 r)

theorem yields_eval (answer : Nat → (a : A) → R a) (n : Nat) (p : Prog A R α) :
    Yields (p.eval answer n) p := by
  induction p generalizing n with
  | pure x => rfl
  | act a k ih => exact ⟨answer n a, ih (answer n a) (n + 1)⟩

theorem yields_bind {f : α → Prog A R β} {y : β} :
    Yields y (p.bind f) ↔ ∃ x, Yields x p ∧ Yields y (f x) := by
  induction p with
  | pure x => exact ⟨fun h => ⟨x, rfl, h⟩, fun ⟨_, hx, h⟩ => hx ▸ h⟩
  | act a k ih =>
    constructor
    · rintro ⟨r, hr⟩
      obtain ⟨x, hx, hy⟩ := (ih r).mp hr
      exact ⟨x, ⟨r, hx⟩, hy⟩
    · rintro ⟨x, ⟨r, hx⟩, hy⟩
      exact ⟨r, (ih r).mpr ⟨x, hx, hy⟩⟩

theorem All.each {f : β → Prog A R Unit} {xs : List β} (hf : ∀ x, All q (f x)) :
    All q (each f xs) := by
  induction xs with
  | nil => trivial
  | cons x xs ih => exact All.bind (hf x) fun _ => ih

end All

section Gives

variable {q q' : α → Prop} {p : Prog A R α}

theorem Gives.pure {x : α} (h : q x) : Gives q (.pure x : Prog A R α) := by
  intro y hy
  obtain rfl : x = y := hy
  exact h

theorem Gives.act {a : A} {k : R a → Prog A R α} (h : ∀ r, Gives q (k r)) : Gives q (.act a k) :=
  fun x ⟨r, hx⟩ => h r x hx

theorem Gives.bind {f : α → Prog A R β} {q' : β → Prop} (hp : Gives q p)
    (hf : ∀ x, q x → Gives q' (f x)) : Gives q' (p.bind f) := by
  intro y hy
  obtain ⟨x, hx, hy⟩ := yields_bind.mp hy
  exact hf x (hp x hx) y hy

theorem Gives.ite {b : Prop} [Decidable b] {p' : Prog A R α} (hp : b → Gives q p)
    (hp' : ¬ b → Gives q p') : Gives q (if b then p else p') := by
  split_ifs with hb
  · exact hp hb
  · exact hp' hb

theorem Gives.any : Gives (fun _ => True) p := fun _ _ => trivial

theorem Gives.mono (h : Gives q p) (hq : ∀ x, q x → q' x) : Gives q' p := fun x hx => hq x (h x hx)

/-- Two programs that go on alike from each value that the first part can end with are one. -/
theorem bind_congr {f g : α → Prog A R β} (h : Gives (fun x => f x = g x) p) :
    p.bind f = p.bind g := by
  induction p with
  | pure x => exact h x rfl
  | act a k ih => exact congrArg (Prog.act a) (funext fun r => ih r fun x hx => h x ⟨r, hx⟩)

end Gives

end Prog

section Sequential

variable (step : S → (a : A) → R a → S → Prop)

inductive Runs : S → Prog A R α → α → S → Prop
  | pure (s : S) (x : α) : Runs s (.pure x) x s
  | act {s s' s'' : S} {a : A} {r : R a} {k : R a → Prog A R α} {x : α} (h : step s a r s')
      (rest : Runs s' (k r) x s'') : Runs s (.act a k) x s''

def wp : Prog A R α → (α → S → Prop) → S → Prop
  | .pure x, Q, s => Q x s
  | .act a k, Q, s => ∀ r s', step s a r s' → wp (k r) Q s'

/-- What holds before `p` so that `p` never waits without an end, and `Q` holds after it. -/
def twp : Prog A R α → (α → S → Prop) → S → Prop
  | .pure x, Q, s => Q x s
  | .act a k, Q, s => (∃ r s', step s a r s') ∧ ∀ r s', step s a r s' → twp (k r) Q s'

variable {step} {p : Prog A R α} {Q Q' : α → S → Prop} {s s' : S} {x : α}

theorem wp_bind {f : α → Prog A R β} {Q : β → S → Prop} :
    wp step (p.bind f) Q s ↔ wp step p (fun x => wp step (f x) Q) s := by
  induction p generalizing s with
  | pure x => exact Iff.rfl
  | act a k ih => exact forall_congr' fun r => forall_congr' fun s' => imp_congr_right fun _ => ih r

theorem wp_mono (hQ : ∀ x s, Q x s → Q' x s) (h : wp step p Q s) : wp step p Q' s := by
  induction p generalizing s with
  | pure x => exact hQ x s h
  | act a k ih => exact fun r s' hs => ih r (h r s' hs)

theorem wp_sound (h : wp step p Q s) (hrun : Runs step s p x s') : Q x s' := by
  induction hrun with
  | pure s x => exact h
  | act hs _ ih => exact ih (h _ _ hs)

theorem twp_bind {f : α → Prog A R β} {Q : β → S → Prop} :
    twp step (p.bind f) Q s ↔ twp step p (fun x => twp step (f x) Q) s := by
  induction p generalizing s with
  | pure x => exact Iff.rfl
  | act a k ih =>
    exact and_congr_right fun _ =>
      forall_congr' fun r => forall_congr' fun s' => imp_congr_right fun _ => ih r

theorem twp_mono (hQ : ∀ x s, Q x s → Q' x s) (h : twp step p Q s) : twp step p Q' s := by
  induction p generalizing s with
  | pure x => exact hQ x s h
  | act a k ih => exact ⟨h.1, fun r s' hs => ih r (h.2 r s' hs)⟩

theorem twp_sound (h : twp step p Q s) (hrun : Runs step s p x s') : Q x s' := by
  induction hrun with
  | pure s x => exact h
  | act hs _ ih => exact ih (h.2 _ _ hs)

theorem twp_runs (h : twp step p Q s) : ∃ x s', Runs step s p x s' := by
  induction p generalizing s with
  | pure x => exact ⟨x, s, .pure s x⟩
  | act a k ih =>
    obtain ⟨⟨r, s', hs⟩, hk⟩ := h
    obtain ⟨x, s'', hrun⟩ := ih r (hk r s' hs)
    exact ⟨x, s'', .act hs hrun⟩

def solo (exec : S → E → (a : A) → Option (R a × S)) : List E → S → Prog A R α → Option (α × S)
  | _, s, .pure x => some (x, s)
  | [], _, .act _ _ => none
  | e :: es, s, .act a k => (exec s e a).bind fun (r, s') => solo exec es s' (k r)

theorem runs_of_solo {exec : S → E → (a : A) → Option (R a × S)} {es : List E}
    (h : solo exec es s p = some (x, s')) :
    Runs (fun s a r s' => ∃ e, exec s e a = some (r, s')) s p x s' := by
  induction p generalizing es s with
  | pure y =>
    rw [solo] at h
    obtain ⟨rfl, rfl⟩ := Prod.mk.inj (Option.some.inj h)
    exact .pure _ _
  | act a k ih =>
    cases es with
    | nil => cases h
    | cons e es =>
      obtain ⟨⟨r, t⟩, hexec, hrest⟩ := Option.bind_eq_some_iff.mp h
      exact .act ⟨e, hexec⟩ (ih r hrest)

theorem yields_of_solo {exec : S → E → (a : A) → Option (R a × S)} {es : List E} {s s' : S}
    {p : Prog A R α} {x : α} (h : solo exec es s p = some (x, s')) : Prog.Yields x p := by
  induction p generalizing es s with
  | pure y =>
    rw [solo] at h
    exact (Prod.mk.inj (Option.some.inj h)).1
  | act a k ih =>
    cases es with
    | nil => cases h
    | cons e es =>
      obtain ⟨⟨r, t⟩, -, hrest⟩ := Option.bind_eq_some_iff.mp h
      exact ⟨r, ih r hrest⟩

variable (step) in
def Triple (pre : S → Prop) (p : Prog A R α) (post : α → S → Prop) : Prop :=
  ∀ s, pre s → wp step p post s

variable {pre pre' : S → Prop} {post : α → S → Prop}

theorem Triple.pure (h : ∀ s, pre s → post x s) : Triple step pre (.pure x) post := h

theorem Triple.act {a : A} {k : R a → Prog A R α} {mid : R a → S → Prop}
    (ha : ∀ s r s', pre s → step s a r s' → mid r s') (hk : ∀ r, Triple step (mid r) (k r) post) :
    Triple step pre (.act a k) post :=
  fun s hs r s' hstep => hk r s' (ha s r s' hs hstep)

theorem Triple.bind {f : α → Prog A R β} {mid : α → S → Prop} {post : β → S → Prop}
    (hp : Triple step pre p mid) (hf : ∀ x, Triple step (mid x) (f x) post) :
    Triple step pre (p.bind f) post :=
  fun s hs => wp_bind.mpr (wp_mono (fun x s' hs' => hf x s' hs') (hp s hs))

theorem Triple.mono {post' : α → S → Prop} (h : Triple step pre' p post')
    (hpre : ∀ s, pre s → pre' s) (hpost : ∀ x s, post' x s → post x s) : Triple step pre p post :=
  fun s hs => wp_mono hpost (h s (hpre s hs))

theorem Triple.ite {b : Prop} [Decidable b] {q : Prog A R α} (hp : b → Triple step pre p post)
    (hq : ¬ b → Triple step pre q post) : Triple step pre (if b then p else q) post := by
  by_cases hb : b
  · rw [if_pos hb]
    exact hp hb
  · rw [if_neg hb]
    exact hq hb

theorem Triple.of_all {q : A → Prop} (hall : Prog.All q p)
    (hkeep : ∀ a, q a → ∀ s r s', pre s → step s a r s' → pre s') :
    Triple step pre p fun _ => pre := by
  induction p with
  | pure x => exact Triple.pure fun _ hs => hs
  | act a k ih => exact Triple.act (hkeep a hall.1) fun r => ih r (hall.2 r)

theorem Triple.each {f : β → Prog A R Unit} {xs : List β}
    (hbody : ∀ x ∈ xs, Triple step pre (f x) fun _ => pre) :
    Triple step pre (Prog.each f xs) fun _ => pre := by
  induction xs with
  | nil => exact Triple.pure fun _ hs => hs
  | cons x xs ih =>
    refine Triple.bind (hbody x List.mem_cons_self) fun _ => ?_
    exact ih fun y hy => hbody y (List.mem_cons_of_mem _ hy)

end Sequential

/-- What the actions do: to the shared state, where `E` decides what is open (`none`
while an action has to wait), and to the local state of the call that performs them. -/
structure Machine (A : Type) (R : A → Type) (S E L : Type) where
  exec : S → E → (a : A) → Option (R a × S)
  upd : L → (a : A) → R a → L

def Machine.step {A : Type} {R : A → Type} {S E L : Type} (M : Machine A R S E L) (s : S) (a : A)
    (r : R a) (s' : S) : Prop :=
  ∃ e, M.exec s e a = some (r, s')

structure Call (A : Type) (R : A → Type) (L : Type) where
  loc : L
  prog : Prog A R Unit

structure Config (A : Type) (R : A → Type) (S L : Type) where
  state : S
  calls : List (Call A R L)

namespace Config

def locs (cfg : Config A R S L) : List L := cfg.calls.map (·.loc)

def Pending (cfg : Config A R S L) (i : Nat) (l : L) (a : A) : Prop :=
  ∃ k, cfg.calls[i]? = some ⟨l, .act a k⟩

def Quiet (cfg : Config A R S L) : Prop := ∀ k ∈ cfg.calls, k.prog = .pure ()

end Config

section Interleaved

variable (M : Machine A R S E L) (starts : Call A R L → Prop)
variable (meets : S → List L → L → (a : A) → R a → Bool)

/-- The configurations of interleaved calls whose actions all meet a condition, on the
shared state, all local states and the local state of the call that acts.  A call is any
element of `starts`, and begins at any time. -/
inductive Reaches (s₀ : S) : Config A R S L → Prop
  | init : Reaches s₀ ⟨s₀, []⟩
  | start {cfg : Config A R S L} {k : Call A R L} (h : Reaches s₀ cfg) (hk : starts k) :
      Reaches s₀ { cfg with calls := cfg.calls ++ [k] }
  | act {cfg : Config A R S L} {i : Nat} {l : L} {a : A} {k : R a → Prog A R Unit} {r : R a}
      {s' : S} (h : Reaches s₀ cfg) (hi : cfg.calls[i]? = some ⟨l, .act a k⟩)
      (hstep : M.step cfg.state a r s') (hmeets : meets cfg.state cfg.locs l a r = true) :
      Reaches s₀ ⟨s', cfg.calls.set i ⟨M.upd l a r, k r⟩⟩

/-- Every action of `p` finds the local state it needs, whatever the answers, and `Q`
holds of what is left. -/
def Safe (pre : L → A → Prop) : L → Prog A R α → (α → L → Prop) → Prop
  | l, .pure x, Q => Q x l
  | l, .act a k, Q => pre l a ∧ ∀ r, Safe pre (M.upd l a r) (k r) Q

variable {M} {starts} {meets} {pre : L → A → Prop} {l : L} {p : Prog A R α} {Q Q' : α → L → Prop}

@[simp] theorem safe_pure {x : α} : Safe M pre l (.pure x) Q ↔ Q x l := Iff.rfl

@[simp] theorem safe_act {a : A} {k : R a → Prog A R α} :
    Safe M pre l (.act a k) Q ↔ pre l a ∧ ∀ r, Safe M pre (M.upd l a r) (k r) Q := Iff.rfl

@[simp] theorem safe_perform {a : A} {Q : R a → L → Prop} :
    Safe M pre l (Prog.perform a) Q ↔ pre l a ∧ ∀ r, Q r (M.upd l a r) := Iff.rfl

@[simp] theorem safe_bind {f : α → Prog A R β} {Q : β → L → Prop} :
    Safe M pre l (p.bind f) Q ↔ Safe M pre l p fun x l => Safe M pre l (f x) Q := by
  induction p generalizing l with
  | pure x => exact Iff.rfl
  | act a k ih => exact and_congr_right fun _ => forall_congr' fun r => ih r

theorem Safe.mono (h : Safe M pre l p Q) (hQ : ∀ x l, Q x l → Q' x l) : Safe M pre l p Q' := by
  induction p generalizing l with
  | pure x => exact hQ x l h
  | act a k ih => exact ⟨h.1, fun r => ih r (h.2 r)⟩

theorem Safe.and {pre' : L → A → Prop} (h : Safe M pre l p Q) (h' : Safe M pre' l p Q') :
    Safe M (fun l a => pre l a ∧ pre' l a) l p fun x l => Q x l ∧ Q' x l := by
  induction p generalizing l with
  | pure x => exact ⟨h, h'⟩
  | act a k ih => exact ⟨⟨h.1, h'.1⟩, fun r => ih r (h.2 r) (h'.2 r)⟩

theorem Safe.each {f : β → Prog A R Unit} {xs : List β} {I : L → Prop}
    (hbody : ∀ x ∈ xs, ∀ l, I l → Safe M pre l (f x) fun _ => I) (hl : I l) :
    Safe M pre l (Prog.each f xs) fun _ => I := by
  induction xs generalizing l with
  | nil => exact hl
  | cons x xs ih =>
    rw [Prog.each, safe_bind]
    refine (hbody x List.mem_cons_self l hl).mono fun _ l' hl' => ?_
    exact ih (fun y hy => hbody y (List.mem_cons_of_mem _ hy)) hl'

theorem Safe.performs {before : List (Sigma R)} {b : A} (h : Safe M pre l p Q)
    (hb : p.Performs before b) : pre (before.foldl (fun l x => M.upd l x.1 x.2) l) b := by
  induction hb generalizing l with
  | here a k => exact h.1
  | later r _ ih => exact ih (h.2 r)

theorem Safe.of_all {q : A → Prop} (hall : Prog.All q p) (hpre : ∀ a, q a → pre l a)
    (hupd : ∀ a r, q a → M.upd l a r = l) : Safe M pre l p fun _ l' => l' = l := by
  induction p with
  | pure x => exact rfl
  | act a k ih =>
    refine ⟨hpre a hall.1, fun r => ?_⟩
    rw [hupd a r hall.1]
    exact ih r (hall.2 r)

theorem Safe.of_forall {q : A → Prop} (hall : Prog.All q p) (hpre : ∀ l a, q a → pre l a) :
    Safe M pre l p fun _ _ => True := by
  induction p generalizing l with
  | pure x => exact trivial
  | act a k ih => exact ⟨hpre l a hall.1, fun r => ih r (hall.2 r)⟩

variable (M) in
/-- As `Safe`, for the answers only that the local state allows. -/
def SafeIf (pre : L → A → Prop) (can : L → (a : A) → R a → Prop) :
    L → Prog A R α → (α → L → Prop) → Prop
  | l, .pure x, Q => Q x l
  | l, .act a k, Q => pre l a ∧ ∀ r, can l a r → SafeIf pre can (M.upd l a r) (k r) Q

variable {can : L → (a : A) → R a → Prop}

@[simp] theorem safeIf_pure {x : α} : SafeIf M pre can l (.pure x) Q ↔ Q x l := Iff.rfl

@[simp] theorem safeIf_act {a : A} {k : R a → Prog A R α} : SafeIf M pre can l (.act a k) Q ↔
    pre l a ∧ ∀ r, can l a r → SafeIf M pre can (M.upd l a r) (k r) Q := Iff.rfl

@[simp] theorem safeIf_bind {f : α → Prog A R β} {Q : β → L → Prop} :
    SafeIf M pre can l (p.bind f) Q ↔
      SafeIf M pre can l p fun x l => SafeIf M pre can l (f x) Q := by
  induction p generalizing l with
  | pure x => exact Iff.rfl
  | act a k ih => exact and_congr_right fun _ => forall_congr' fun r => imp_congr_right fun _ => ih r

theorem SafeIf.mono (h : SafeIf M pre can l p Q) (hQ : ∀ x l, Q x l → Q' x l) :
    SafeIf M pre can l p Q' := by
  induction p generalizing l with
  | pure x => exact hQ x l h
  | act a k ih => exact ⟨h.1, fun r hr => ih r (h.2 r hr)⟩

theorem safeIf_true : SafeIf M pre (fun _ _ _ => True) l p Q ↔ Safe M pre l p Q := by
  induction p generalizing l with
  | pure x => exact Iff.rfl
  | act a k ih => exact and_congr_right fun _ => forall_congr' fun r => by simp [ih r]

/-- What holds of the shared state and all local states, and is kept by every action
that finds what it needs, holds in every configuration that is reached; no call gets an answer
that its local state does not allow. -/
theorem Reaches.invariantIf {s₀ : S} {I : S → List L → Prop} {Q : Unit → L → Prop}
    (hinit : I s₀ [])
    (hstart : ∀ s ls k, starts k → I s ls → I s (ls ++ [k.loc]))
    (hsafe : ∀ k, starts k → SafeIf M pre can k.loc k.prog Q)
    (hact : ∀ s ls i l a r s', I s ls → ls[i]? = some l → pre l a → M.step s a r s' →
      meets s ls l a r = true → can l a r ∧ I s' (ls.set i (M.upd l a r)))
    {cfg : Config A R S L} (h : Reaches M starts meets s₀ cfg) :
    I cfg.state cfg.locs ∧ ∀ k ∈ cfg.calls, SafeIf M pre can k.loc k.prog Q := by
  induction h with
  | init => exact ⟨hinit, by simp⟩
  | @start cfg k h hk ih =>
    refine ⟨?_, fun k' hk' => ?_⟩
    · have := hstart _ _ k hk ih.1
      simpa [Config.locs] using this
    · rcases List.mem_append.mp hk' with hk' | hk'
      · exact ih.2 k' hk'
      · rw [List.mem_singleton.mp hk']
        exact hsafe k hk
  | @act cfg i l a k r s' h hi hstep hmeets ih =>
    have hsafe' := ih.2 _ (List.mem_of_getElem? hi)
    have hloc : cfg.locs[i]? = some l := by simp [Config.locs, hi]
    obtain ⟨hcan, hinv⟩ := hact _ _ i l a r s' ih.1 hloc hsafe'.1 hstep hmeets
    refine ⟨?_, fun k' hk' => ?_⟩
    · rwa [Config.locs, List.map_set]
    · rcases List.mem_or_eq_of_mem_set hk' with hk' | rfl
      · exact ih.2 k' hk'
      · exact hsafe'.2 r hcan

theorem Reaches.invariant {s₀ : S} {I : S → List L → Prop} {Q : Unit → L → Prop}
    (hinit : I s₀ [])
    (hstart : ∀ s ls k, starts k → I s ls → I s (ls ++ [k.loc]))
    (hsafe : ∀ k, starts k → Safe M pre k.loc k.prog Q)
    (hact : ∀ s ls i l a r s', I s ls → ls[i]? = some l → pre l a → M.step s a r s' →
      meets s ls l a r = true → I s' (ls.set i (M.upd l a r)))
    {cfg : Config A R S L} (h : Reaches M starts meets s₀ cfg) :
    I cfg.state cfg.locs ∧ ∀ k ∈ cfg.calls, Safe M pre k.loc k.prog Q := by
  have hrule := Reaches.invariantIf hinit hstart
    (fun k hk => safeIf_true.mpr (hsafe k hk))
    (fun s ls i l a r s' hI hi hpre hstep hmeets =>
      ⟨trivial, hact s ls i l a r s' hI hi hpre hstep hmeets⟩) h
  exact ⟨hrule.1, fun k hk => safeIf_true.mp (hrule.2 k hk)⟩

variable (M) (starts) (meets) in
inductive Continues (cfg₀ : Config A R S L) : Config A R S L → Prop
  | refl : Continues cfg₀ cfg₀
  | start {cfg : Config A R S L} {k : Call A R L} (h : Continues cfg₀ cfg) (hk : starts k) :
      Continues cfg₀ { cfg with calls := cfg.calls ++ [k] }
  | act {cfg : Config A R S L} {i : Nat} {l : L} {a : A} {k : R a → Prog A R Unit} {r : R a}
      {s' : S} (h : Continues cfg₀ cfg) (hi : cfg.calls[i]? = some ⟨l, .act a k⟩)
      (hstep : M.step cfg.state a r s') (hmeets : meets cfg.state cfg.locs l a r = true) :
      Continues cfg₀ ⟨s', cfg.calls.set i ⟨M.upd l a r, k r⟩⟩

theorem Continues.reaches {s₀ : S} {cfg₀ cfg : Config A R S L} (h₀ : Reaches M starts meets s₀ cfg₀)
    (h : Continues M starts meets cfg₀ cfg) : Reaches M starts meets s₀ cfg := by
  induction h with
  | refl => exact h₀
  | start _ hk ih => exact ih.start hk
  | act _ hi hstep hmeets ih => exact ih.act hi hstep hmeets

/-- What holds of one configuration that is reached, and is kept beside an invariant of all of
them, holds for ever after. -/
theorem Continues.invariant {s₀ : S} {I J : S → List L → Prop} {Q : Unit → L → Prop}
    {cfg₀ cfg : Config A R S L} (h : Continues M starts meets cfg₀ cfg)
    (h₀ : Reaches M starts meets s₀ cfg₀)
    (hI : ∀ c, Reaches M starts meets s₀ c →
      I c.state c.locs ∧ ∀ k ∈ c.calls, Safe M pre k.loc k.prog Q)
    (hinit : J cfg₀.state cfg₀.locs)
    (hstart : ∀ s ls k, starts k → J s ls → J s (ls ++ [k.loc]))
    (hact : ∀ s ls i l a r s', I s ls → J s ls → ls[i]? = some l → pre l a → M.step s a r s' →
      meets s ls l a r = true → J s' (ls.set i (M.upd l a r))) : J cfg.state cfg.locs := by
  induction h with
  | refl => exact hinit
  | @start cfg k h hk ih =>
    have := hstart _ _ k hk ih
    simpa [Config.locs] using this
  | @act cfg i l a k r s' h hi hstep hmeets ih =>
    obtain ⟨hinv, hsafe⟩ := hI cfg (h.reaches h₀)
    have hloc : cfg.locs[i]? = some l := by simp [Config.locs, hi]
    have hpre := (hsafe _ (List.mem_of_getElem? hi)).1
    have := hact _ _ i l a r s' hinv ih hloc hpre hstep hmeets
    rwa [Config.locs, List.map_set]

variable (M) (meets) in
/-- A step of a call beside others, with the local states `ls`, that stay where they are. -/
def Machine.alone (ls : List L) (x : S × L) (a : A) (r : R a) (y : S × L) : Prop :=
  M.step x.1 a r y.1 ∧ meets x.1 (ls ++ [x.2]) x.2 a r = true ∧ y.2 = M.upd x.2 a r

theorem Reaches.alone {s₀ : S} {s s' : S} {l' : L} {calls : List (Call A R L)} {k : Call A R L}
    (h : Reaches M starts meets s₀ ⟨s, calls⟩) (hk : starts k)
    (hrun : Runs (M.alone meets (calls.map (·.loc))) (s, k.loc) k.prog () (s', l')) :
    Reaches M starts meets s₀ ⟨s', calls ++ [⟨l', .pure ()⟩]⟩ := by
  have hrest {x y : S × L} {p : Prog A R Unit} {u : Unit}
      (hrun : Runs (M.alone meets (calls.map (·.loc))) x p u y)
      (h : Reaches M starts meets s₀ ⟨x.1, calls ++ [⟨x.2, p⟩]⟩) :
      Reaches M starts meets s₀ ⟨y.1, calls ++ [⟨y.2, .pure ()⟩]⟩ := by
    induction hrun with
    | pure x u => exact h
    | @act x y z a r k u hstep hrest ih =>
      obtain ⟨hexec, hmeets, hloc⟩ := hstep
      have hi : (calls ++ [⟨x.2, .act a k⟩])[calls.length]? = some ⟨x.2, .act a k⟩ := by simp
      have hlocs : Config.locs ⟨x.1, calls ++ [⟨x.2, .act a k⟩]⟩ = calls.map (·.loc) ++ [x.2] := by
        simp [Config.locs]
      have hnext := h.act hi hexec (hlocs ▸ hmeets)
      rw [List.set_append_right _ _ le_rfl, Nat.sub_self, List.set_cons_zero, ← hloc] at hnext
      exact ih hnext
  exact hrest hrun (h.start hk)

end Interleaved

section Auxiliary

variable {G : Type} (M : Machine A R S E L) (f : G → (a : A) → R a → G)

def Machine.prod : Machine A R S E (L × G) where
  exec := M.exec
  upd l a r := (M.upd l.1 a r, f l.2 a r)

def Machine.only : Machine A R S E G where
  exec := M.exec
  upd := f

variable {M} {f}

theorem Safe.prod {pre : L → A → Prop} {pre' : G → A → Prop} {Q : α → L → Prop} {Q' : α → G → Prop}
    {l : L} {g : G} {p : Prog A R α} (h : Safe M pre l p Q) (h' : Safe (M.only f) pre' g p Q') :
    Safe (M.prod f) (fun l a => pre l.1 a ∧ pre' l.2 a) (l, g) p
      fun x l => Q x l.1 ∧ Q' x l.2 := by
  induction p generalizing l g with
  | pure x => exact ⟨h, h'⟩
  | act a k ih => exact ⟨⟨h.1, h'.1⟩, fun r => ih r (h.2 r) (h'.2 r)⟩

def Call.view (φ : G → L) (k : Call A R G) : Call A R L := ⟨φ k.loc, k.prog⟩

section Views

variable {N : Machine A R S E G} {φ : G → L}

theorem Safe.view {pre : L → A → Prop} {Q : α → L → Prop} {p : Prog A R α} {g : G}
    (h : Safe M pre (φ g) p Q) (hupd : ∀ g a r, φ (N.upd g a r) = M.upd (φ g) a r) :
    Safe N (fun g a => pre (φ g) a) g p fun x g => Q x (φ g) := by
  induction p generalizing g with
  | pure x => exact h
  | act a k ih => exact ⟨h.1, fun r => ih r ((hupd g a r).symm ▸ h.2 r)⟩

/-- A run is one of any machine that keeps more in its local states. -/
theorem Reaches.unview {starts : Call A R L → Prop} {starts' : Call A R G → Prop}
    {meets : S → List L → L → (a : A) → R a → Bool} {s₀ : S} {cfg : Config A R S L}
    (h : Reaches M starts meets s₀ cfg) (hexec : N.exec = M.exec)
    (hupd : ∀ g a r, φ (N.upd g a r) = M.upd (φ g) a r)
    (hstarts : ∀ k, starts k → ∃ k', starts' k' ∧ k'.view φ = k) :
    ∃ calls, Reaches N starts' (fun s gs g a r => meets s (gs.map φ) (φ g) a r) s₀
        ⟨cfg.state, calls⟩ ∧ calls.map (Call.view φ) = cfg.calls := by
  induction h with
  | init => exact ⟨[], .init, rfl⟩
  | @start cfg k h hk ih =>
    obtain ⟨calls, hreach, hcalls⟩ := ih
    obtain ⟨k', hk', rfl⟩ := hstarts k hk
    exact ⟨_, hreach.start hk', by simp [hcalls]⟩
  | @act cfg i l a k r s' h hi hstep hmeets ih =>
    obtain ⟨calls, hreach, hcalls⟩ := ih
    rw [← hcalls, List.getElem?_map, Option.map_eq_some_iff] at hi
    obtain ⟨⟨g, p⟩, hi, hk⟩ := hi
    obtain ⟨rfl, rfl⟩ := Call.mk.inj hk
    have hlocs : (calls.map (·.loc)).map φ = cfg.locs := by
      rw [Config.locs, ← hcalls]
      simp [Call.view]
    have hmeets' : meets cfg.state ((calls.map (·.loc)).map φ) (φ g) a r = true := by
      rwa [hlocs]
    have hstep' : N.step cfg.state a r s' := by
      rwa [Machine.step, hexec]
    refine ⟨_, hreach.act hi hstep' hmeets', ?_⟩
    rw [List.map_set, hcalls, Call.view, hupd]

end Views

def Call.fst (k : Call A R (L × G)) : Call A R L := ⟨k.loc.1, k.prog⟩

theorem Reaches.lift {starts : Call A R L → Prop}
    {meets : S → List L → L → (a : A) → R a → Bool} (g₀ : G) {s₀ : S}
    {cfg : Config A R S L} (h : Reaches M starts meets s₀ cfg) :
    ∃ calls, Reaches (M.prod f) (fun k => starts k.fst ∧ k.loc.2 = g₀)
        (fun s ls l a r => meets s (ls.map (·.1)) l.1 a r) s₀ ⟨cfg.state, calls⟩ ∧
      calls.map Call.fst = cfg.calls :=
  h.unview (φ := Prod.fst) rfl (fun _ _ _ => rfl) fun k hk =>
    ⟨⟨(k.loc, g₀), k.prog⟩, ⟨hk, rfl⟩, rfl⟩

end Auxiliary

section Schedules

variable (M : Machine A R S E L) (meets : S → List L → L → (a : A) → R a → Bool)

def advance (cfg : Config A R S L) (i : Nat) (e : E) : Option (Config A R S L) :=
  match cfg.calls[i]? with
  | some ⟨l, .act a k⟩ =>
    match M.exec cfg.state e a with
    | some (r, s') =>
      if meets cfg.state cfg.locs l a r then some ⟨s', cfg.calls.set i ⟨M.upd l a r, k r⟩⟩ else none
    | none => none
  | _ => none

def replay : List (Nat × E) → Config A R S L → Option (Config A R S L)
  | [], cfg => some cfg
  | (i, e) :: rest, cfg => (advance M meets cfg i e).bind (replay rest)

variable {M} {meets} {starts : Call A R L → Prop} {s₀ : S} {cfg cfg' : Config A R S L}

theorem Reaches.advance {i : Nat} {e : E} (h : Reaches M starts meets s₀ cfg)
    (hadv : advance M meets cfg i e = some cfg') : Reaches M starts meets s₀ cfg' := by
  simp only [Resumption.advance] at hadv
  split at hadv
  case h_2 => cases hadv
  case h_1 hi =>
    split at hadv
    case h_2 => cases hadv
    case h_1 hexec =>
      split_ifs at hadv with hmeets
      obtain rfl := Option.some.inj hadv
      exact h.act hi ⟨e, hexec⟩ hmeets

theorem Reaches.replay (sched : List (Nat × E)) (h : Reaches M starts meets s₀ cfg)
    (hrun : replay M meets sched cfg = some cfg') : Reaches M starts meets s₀ cfg' := by
  induction sched generalizing cfg with
  | nil =>
    obtain rfl := Option.some.inj hrun
    exact h
  | cons x rest ih =>
    obtain ⟨mid, hadv, hrest⟩ := Option.bind_eq_some_iff.mp hrun
    exact ih (h.advance hadv) hrest

end Schedules

section Totals

def total (f : L → Nat) (ls : List L) : Nat := (ls.map f).sum

@[simp] theorem total_nil (f : L → Nat) : total f [] = 0 := rfl

@[simp] theorem total_append (f : L → Nat) (ls ls' : List L) :
    total f (ls ++ ls') = total f ls + total f ls' := by simp [total]

@[simp] theorem total_singleton (f : L → Nat) (l : L) : total f [l] = f l := by simp [total]

theorem total_set (f : L → Nat) {ls : List L} {i : Nat} {l : L} (h : ls[i]? = some l) (l' : L) :
    total f (ls.set i l') + f l = total f ls + f l' := by
  induction ls generalizing i with
  | nil => simp at h
  | cons x xs ih =>
    cases i with
    | zero =>
      obtain rfl : x = l := by simpa using h
      simp only [total, List.set_cons_zero, List.map_cons, List.sum_cons]
      omega
    | succ i =>
      have := ih (i := i) (by simpa using h)
      simp only [total, List.set_cons_succ, List.map_cons, List.sum_cons] at this ⊢
      omega

theorem le_total (f : L → Nat) {ls : List L} {l : L} (h : l ∈ ls) : f l ≤ total f ls :=
  List.single_le_sum (by simp) _ (List.mem_map_of_mem h)

theorem add_le_total (f : L → Nat) {ls : List L} {i j : Nat} {l l' : L} (hij : i ≠ j)
    (hi : ls[i]? = some l) (hj : ls[j]? = some l') : f l + f l' ≤ total f ls := by
  induction ls generalizing i j with
  | nil => simp at hi
  | cons x xs ih =>
    simp only [total, List.map_cons, List.sum_cons]
    cases i with
    | zero =>
      cases j with
      | zero => exact absurd rfl hij
      | succ j =>
        obtain rfl : x = l := by simpa using hi
        have hmem : l' ∈ xs := List.mem_of_getElem? (by simpa using hj)
        exact Nat.add_le_add_left (le_total f hmem) _
    | succ i =>
      cases j with
      | zero =>
        obtain rfl : x = l' := by simpa using hj
        have hmem : l ∈ xs := List.mem_of_getElem? (by simpa using hi)
        rw [Nat.add_comm]
        exact Nat.add_le_add_left (le_total f hmem) _
      | succ j =>
        have := ih (i := i) (j := j) (by simpa using hij) (by simpa using hi) (by simpa using hj)
        simp only [total] at this
        omega

theorem total_eq_zero {f : L → Nat} {ls : List L} : total f ls = 0 ↔ ∀ l ∈ ls, f l = 0 := by
  simp [total, List.sum_eq_zero_iff]

end Totals

end Resumption
