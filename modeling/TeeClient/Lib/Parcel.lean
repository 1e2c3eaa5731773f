import Mathlib.Tactic

/-! Messages as queues of typed items: what a writer appends, what a reader takes off, and
how the two compose.  A carrier is only known by what is left to be read in it. -/

namespace Parcels

variable {P K : Type} {Val : K → Type} {α β : Type}

structure Parcel (P K : Type) (Val : K → Type) where
  new : P
  write : (k : K) → Val k → StateT P Option Unit
  read : (k : K) → StateT P Option (Val k)

structure InOrder (m : Parcel P K Val) (items : P → List (Sigma Val))
    (deliver : (k : K) → Val k → Val k) : Prop where
  new_items : items m.new = []
  write_items : ∀ {k : K} {v : Val k} {p : P} {x : Unit × P},
    m.write k v p = some x → items x.2 = items p ++ [⟨k, v⟩]
  read_items : ∀ {k : K} {v : Val k} {p : P} {rest : List (Sigma Val)},
    items p = ⟨k, v⟩ :: rest → ∃ p', m.read k p = some (deliver k v, p') ∧ items p' = rest

theorem bind_eq_some {r : StateT P Option α} {f : α → StateT P Option β} {p : P} {x : β × P} :
    (r >>= f) p = some x ↔ ∃ a p', r p = some (a, p') ∧ f a p' = some x := by
  change (r p).bind (fun y => f y.1 y.2) = some x ↔ _
  rw [Option.bind_eq_some_iff, Prod.exists]

section Rules

variable (items : P → List (Sigma Val))

def Writes (w : StateT P Option Unit) (xs : List (Sigma Val)) : Prop :=
  ∀ p x, w p = some x → items x.2 = items p ++ xs

def Reads (r : StateT P Option α) (xs : List (Sigma Val)) (a : α) : Prop :=
  ∀ p rest, items p = xs ++ rest → ∃ p', r p = some (a, p') ∧ items p' = rest

variable {items} {m : Parcel P K Val} {deliver : (k : K) → Val k → Val k}
  {xs ys : List (Sigma Val)}

theorem Writes.pure : Writes items (pure ()) [] := by
  rintro p x ⟨⟩
  rw [List.append_nil]

theorem Writes.fail : Writes items failure xs := by
  rintro p x ⟨⟩

theorem Writes.bind {w : StateT P Option Unit} {f : Unit → StateT P Option Unit}
    (hw : Writes items w xs) (hf : Writes items (f ()) ys) :
    Writes items (w >>= f) (xs ++ ys) := by
  intro p x hx
  obtain ⟨a, p', hp, hx⟩ := bind_eq_some.mp hx
  rw [hf p' x hx, hw p _ hp, List.append_assoc]

theorem InOrder.writes (h : InOrder m items deliver) (k : K) (v : Val k) :
    Writes items (m.write k v) [⟨k, v⟩] :=
  fun _ _ => h.write_items

theorem Reads.pure (a : α) : Reads items (pure a) [] a :=
  fun p _ hp => ⟨p, rfl, hp⟩

theorem Reads.bind {r : StateT P Option α} {f : α → StateT P Option β} {a : α} {b : β}
    (hr : Reads items r xs a) (hf : Reads items (f a) ys b) :
    Reads items (r >>= f) (xs ++ ys) b := by
  intro p rest hp
  rw [List.append_assoc] at hp
  obtain ⟨p', hread, hp'⟩ := hr p _ hp
  obtain ⟨p'', hread', hp''⟩ := hf p' rest hp'
  exact ⟨p'', bind_eq_some.mpr ⟨a, p', hread, hread'⟩, hp''⟩

theorem Reads.last {r : StateT P Option α} {a : α} (hr : Reads items r xs a) (f : α → β) :
    Reads items (r >>= fun a => Pure.pure (f a)) xs (f a) := by
  rw [← List.append_nil xs]
  exact hr.bind (Reads.pure (f a))

theorem InOrder.reads_bind (h : InOrder m items deliver) {k : K} {v : Val k}
    {f : Val k → StateT P Option α} {a : α} (hf : Reads items (f (deliver k v)) xs a) :
    Reads items (m.read k >>= f) (⟨k, v⟩ :: xs) a := by
  intro p rest hp
  obtain ⟨p', hread, hp'⟩ := h.read_items hp
  obtain ⟨p'', hread', hp''⟩ := hf p' rest hp'
  exact ⟨p'', bind_eq_some.mpr ⟨_, p', hread, hread'⟩, hp''⟩

end Rules

section Queue

variable [DecidableEq K]

def queue (deliver : (k : K) → Val k → Val k) : Parcel (List (Sigma Val)) K Val where
  new := []
  write k v p := some ((), p ++ [⟨k, v⟩])
  read k p :=
    match p with
    | [] => none
    | ⟨k', v⟩ :: rest => if h : k' = k then some (deliver k (h ▸ v), rest) else none

theorem inOrder_queue (deliver : (k : K) → Val k → Val k) : InOrder (queue deliver) id deliver := by
  constructor
  · rfl
  · rintro k v p x ⟨⟩
    rfl
  · rintro k v p rest hp
    obtain rfl : p = ⟨k, v⟩ :: rest := hp
    exact ⟨rest, by simp [queue], rfl⟩

end Queue

end Parcels
