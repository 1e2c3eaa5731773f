import Mathlib.Tactic
import TeeClient.Marshal

/-! What the daemon reads of the requests that carry a string, for any parcel that keeps the
order of its items: everything as it was written, unless the string is empty. -/

namespace TeeClient.Marshal

open Parcels

/-- A message parcel keeps the order of its items, a received descriptor is valid, and a new
parcel takes the interface token. -/
structure Ordered {P : Type} (m : MessageParcel P) (items : P → List (Sigma Kind.Val))
    (received : Int → Int) : Prop extends InOrder m items (deliver received) where
  received_nonneg : ∀ fd, 0 ≤ received fd
  takes_token : (m.write .interfaceToken interfaceToken m.new).isSome

variable {P : Type} {m : MessageParcel P} {items : P → List (Sigma Kind.Val)}
  {received : Int → Int}

section Char

def charItems : Option CStr → List (Sigma Kind.Val)
  | none => [⟨.uint32, 0⟩]
  | some s => [⟨.uint32, BitVec.ofNat 32 s.text.length⟩, ⟨.string, s.text⟩]

def Accepted (s : Option CStr) : Prop := ∀ t ∈ s, t.text.length < pathMax

theorem writes_char (h : Ordered m items received) (s : Option CStr) :
    Writes items (writeChar m s) (charItems s) := by
  cases s with
  | none => exact h.writes .uint32 0
  | some s =>
    rw [writeChar]
    split_ifs
    · exact Writes.fail
    · exact (h.writes .uint32 _).bind (h.writes .string _)

theorem accepted_of_write {s : Option CStr} {p : P} {x : Unit × P}
    (hx : writeChar m s p = some x) : Accepted s := by
  rintro t ⟨⟩
  rw [writeChar] at hx
  by_cases hlong : t.strnlen pathMax = pathMax
  · rw [if_pos hlong] at hx
    cases hx
  · rw [CStr.strnlen] at hlong
    omega

theorem reads_char (h : Ordered m items received) {s : Option CStr} (hs : Accepted s)
    (hne : s ≠ some .empty) : Reads items (getChar m) (charItems s) s := by
  rw [getChar]
  cases s with
  | none => exact h.reads_bind (Reads.pure none)
  | some s =>
    have hlen : s.text.length < pathMax := hs s rfl
    have hcast : (BitVec.ofNat 32 s.text.length).toNat = s.text.length := by
      rw [BitVec.toNat_ofNat, Nat.mod_eq_of_lt]
      exact hlen.trans (by decide)
    have htext : s.text ≠ [] := by
      intro hnil
      apply hne
      cases s
      simp_all [CStr.empty]
    have hpos : 0 < BitVec.ofNat 32 s.text.length := by
      rw [BitVec.lt_def, hcast]
      exact List.length_pos_iff.mpr htext
    have hfits : ¬ (s.strnlen pathMax = pathMax ∨ s.text.length ≠ s.strnlen pathMax) := by
      rw [CStr.strnlen]
      omega
    apply h.reads_bind
    rw [deliver, if_pos hpos]
    apply h.reads_bind
    rw [deliver, cStr_text, hcast, if_neg hfits]
    exact Reads.pure (some s)

theorem getChar_ne_empty {s : Option CStr} {p p' : P} (h : getChar m p = some (s, p')) :
    s ≠ some .empty := by
  rw [getChar] at h
  obtain ⟨strLen, q, -, h⟩ := bind_eq_some.mp h
  by_cases hpos : 0 < strLen
  · rw [if_pos hpos] at h
    obtain ⟨tempStr, q', -, h⟩ := bind_eq_some.mp h
    by_cases hbad : (cStr tempStr).strnlen pathMax = pathMax ∨
        strLen.toNat ≠ (cStr tempStr).strnlen pathMax
    · rw [if_pos hbad] at h
      cases h
    · rw [if_neg hbad] at h
      obtain ⟨rfl, rfl⟩ := Prod.mk.inj (Option.some.inj h)
      intro hempty
      have hlen : (cStr tempStr).text.length = 0 := by
        rw [Option.some.inj hempty]
        rfl
      rw [CStr.strnlen, hlen] at hbad
      have hzero : 0 < strLen.toNat := BitVec.lt_def.mp hpos
      omega
  · rw [if_neg hpos] at h
    obtain ⟨rfl, rfl⟩ := Prod.mk.inj (Option.some.inj h)
    exact Option.some_ne_none _ |>.symm

end Char

section Fields

def fdItems (fd : Int) : List (Sigma Kind.Val) :=
  if fd < 0 then [⟨.bool, false⟩] else [⟨.bool, true⟩, ⟨.fileDescriptor, fd⟩]

def receivedFd (received : Int → Int) (fd : Int) : Int := if fd < 0 then -1 else received fd

theorem writes_fd (h : Ordered m items received) (fd : Int) :
    Writes items (writeFd m fd) (fdItems fd) := by
  rw [writeFd, fdItems]
  split_ifs
  · exact h.writes .bool false
  · exact (h.writes .bool true).bind (h.writes .fileDescriptor fd)

theorem reads_validFd (h : Ordered m items received) (fd : Int) :
    Reads items (readFd m) [⟨.bool, true⟩, ⟨.fileDescriptor, fd⟩] (received fd) := by
  rw [readFd]
  apply h.reads_bind
  rw [deliver, if_pos rfl]
  apply h.reads_bind
  rw [deliver, if_neg (not_lt.mpr (h.received_nonneg fd))]
  exact Reads.pure (received fd)

theorem reads_fd (h : Ordered m items received) (fd : Int) :
    Reads items (readFd m) (fdItems fd) (receivedFd received fd) := by
  rw [fdItems, receivedFd]
  by_cases hfd : fd < 0
  · rw [if_pos hfd, if_pos hfd]
    exact h.reads_bind (Reads.pure (-1))
  · rw [if_neg hfd, if_neg hfd]
    exact reads_validFd h fd

def ionItems (operation : RawOperation) : List (Fin 4) → List (Sigma Kind.Val)
  | [] => []
  | i :: is =>
    (if operation.paramType i = .ionInput then [⟨.fileDescriptor, ionShareFd operation i⟩]
      else []) ++ ionItems operation is

def receivedIon (received : Int → Int) (operation : RawOperation) (i : Fin 4) : Int :=
  received (ionShareFd operation i)

theorem writes_ionFds (h : Ordered m items received) (operation : RawOperation)
    (is : List (Fin 4)) : Writes items (writeIonFds m operation is) (ionItems operation is) := by
  induction is with
  | nil => exact Writes.pure
  | cons i is ih =>
    rw [writeIonFds, ionItems]
    by_cases hion : operation.paramType i = .ionInput
    · rw [if_pos hion, if_pos hion]
      exact (h.writes .fileDescriptor _).bind ih
    · rw [if_neg hion, if_neg hion]
      exact ih

theorem clearParam_congr {ionFds ionFds' : Fin 4 → Int} {op : Operation Daemon.Addr} {i : Fin 4}
    (h : op.paramType i = .ionInput → ionFds i = ionFds' i) :
    Daemon.clearParam ionFds op i = Daemon.clearParam ionFds' op i := by
  simp only [Daemon.clearParam]
  by_cases hion : op.paramType i = .ionInput
  · rw [h hion]
  · rw [if_neg hion, if_neg hion]

theorem reads_params (h : Ordered m items received) {wire : RawOperation} (is : List (Fin 4))
    {op op' : Operation Daemon.Addr} (htype : ∀ i, op.paramType i = wire.paramType i)
    (hclear : Daemon.clearParams (receivedIon received wire) is op = some op') :
    Reads items (readParams m is op) (ionItems wire is) op' := by
  induction is generalizing op with
  | nil =>
    obtain rfl := Option.some.inj hclear
    exact Reads.pure op
  | cons i is ih =>
    rw [Daemon.clearParams] at hclear
    cases hparam : Daemon.clearParam (receivedIon received wire) op i with
    | none =>
      rw [hparam] at hclear
      cases hclear
    | some p =>
      rw [hparam] at hclear
      have hrest := ih (fun j => (Operation.paramType_setParam op i j p).trans (htype j)) hclear
      rw [readParams, ionItems, htype i]
      by_cases hion : wire.paramType i = .ionInput
      · have hread : Daemon.clearParam (fun _ => received (ionShareFd wire i)) op i = some p := by
          rw [← hparam]
          exact clearParam_congr fun _ => rfl
        rw [if_pos hion, if_pos hion]
        apply h.reads_bind
        simp only [deliver, hread]
        exact hrest
      · have hread : Daemon.clearParam (fun _ => -1) op i = some p := by
          rw [← hparam]
          exact clearParam_congr fun h => absurd ((htype i).symm.trans h) hion
        rw [if_neg hion, if_neg hion]
        apply Reads.bind (Reads.pure (-1 : Int))
        simp only [hread]
        exact hrest

def operationItems : Option RawOperation → List (Sigma Kind.Val)
  | none => [⟨.bool, false⟩]
  | some operation =>
    ⟨.bool, true⟩ :: ⟨.operation, operation⟩ :: ionItems operation paramIndices

def receivedOperation (received : Int → Int) :
    Option RawOperation → Option (Option (Operation Daemon.Addr))
  | none => some none
  | some operation =>
    (Daemon.getOperationFromData (receivedIon received operation) operation).map some

theorem writes_operation (h : Ordered m items received) (operation : Option RawOperation) :
    Writes items (do writeOperation m operation; writeIonFd m operation)
      (operationItems operation) := by
  cases operation with
  | none => exact (h.writes .bool false).bind Writes.pure
  | some operation =>
    have hoperation : Writes items (writeOperation m (some operation))
        [⟨.bool, true⟩, ⟨.operation, operation⟩] :=
      (h.writes .bool true).bind (h.writes .operation operation)
    have hions : Writes items (writeIonFd m (some operation)) (ionItems operation paramIndices) :=
      writes_ionFds h operation paramIndices
    have hall : Writes items (do writeOperation m (some operation); writeIonFd m (some operation))
        ([⟨.bool, true⟩, ⟨.operation, operation⟩] ++ ionItems operation paramIndices) :=
      hoperation.bind hions
    rwa [List.cons_append, List.cons_append, List.nil_append] at hall

theorem paramType_setInvalidIonFd (op : Operation Daemon.Addr) (i : Fin 4) :
    (Daemon.setInvalidIonFd op).paramType i = op.paramType i := by
  have hword : (Daemon.setInvalidIonFd op).paramTypes = op.paramTypes := rfl
  rw [Operation.paramType, hword, Operation.paramType]

theorem reads_operation (h : Ordered m items received) {operation : Option RawOperation}
    {op : Option (Operation Daemon.Addr)} (hop : receivedOperation received operation = some op) :
    Reads items (readOperation m) (operationItems operation) op := by
  rw [readOperation]
  cases operation with
  | none =>
    obtain rfl := Option.some.inj hop
    exact h.reads_bind (Reads.pure none)
  | some operation =>
    obtain ⟨op, hclear, rfl⟩ := Option.map_eq_some_iff.mp hop
    rw [Daemon.getOperationFromData] at hclear
    have htype : ∀ i, (Daemon.setInvalidIonFd (operation.view .raw)).paramType i =
        operation.paramType i := by
      intro i
      rw [paramType_setInvalidIonFd, RawOperation.paramType_view]
    rw [operationItems]
    apply h.reads_bind
    rw [deliver, if_pos rfl]
    apply h.reads_bind
    have hparams := reads_params h paramIndices htype hclear
    rw [← List.append_nil (ionItems operation paramIndices)]
    exact hparams.bind (Reads.pure (some op))

theorem receivedOperation_isSome (h : Ordered m items received)
    (operation : Option RawOperation) : ∃ op, receivedOperation received operation = some op := by
  cases operation with
  | none => exact ⟨none, rfl⟩
  | some operation =>
    have hnonneg : ∀ i, operation.paramType i = .ionInput → 0 ≤ receivedIon received operation i :=
      fun i _ => h.received_nonneg _
    have hclear := Daemon.getOperationFromData_eq_some.mpr ⟨hnonneg, rfl⟩
    exact ⟨_, congrArg (Option.map some) hclear⟩

def optMemItems (optMemSize : U32) (optMem : Nat) : List (Sigma Kind.Val) :=
  ⟨.uint32, optMemSize⟩ :: if 0 < optMemSize then [⟨.ashmem, optMem⟩] else []

def receivedOptMem (optMemSize : U32) (optMem : Nat) : Option Nat :=
  if 0 < optMemSize then some optMem else none

theorem writes_optMem (h : Ordered m items received) (optMemSize : U32) (optMem : Nat) :
    Writes items (do
      m.write .uint32 optMemSize
      if 0 < optMemSize then m.write .ashmem optMem else pure ()) (optMemItems optMemSize optMem) := by
  rw [optMemItems]
  by_cases hsize : 0 < optMemSize
  · rw [if_pos hsize, if_pos hsize]
    exact (h.writes .uint32 optMemSize).bind (h.writes .ashmem optMem)
  · rw [if_neg hsize, if_neg hsize]
    exact (h.writes .uint32 optMemSize).bind Writes.pure

theorem reads_optMem (h : Ordered m items received) (optMemSize : U32) (optMem : Nat) :
    Reads items (readOptMem m) (optMemItems optMemSize optMem)
      (optMemSize, receivedOptMem optMemSize optMem) := by
  rw [readOptMem, optMemItems, receivedOptMem]
  apply h.reads_bind
  rw [deliver]
  split_ifs
  · exact h.reads_bind (Reads.pure _)
  · exact Reads.pure _

end Fields

section Requests

def Request.string : Request → Option CStr
  | .initializeContext name => name
  | .openSession mem context .. => taPathOf mem context
  | .sendSecfile path .. => some path

def Request.written : Request → List (Sigma Kind.Val)
  | .initializeContext name => ⟨.interfaceToken, interfaceToken⟩ :: charItems name
  | .openSession mem context fd destination connectionMethod operation optMemSize optMem =>
    ⟨.interfaceToken, interfaceToken⟩ :: ⟨.context, context⟩ ::
      (charItems (taPathOf mem context) ++ (fdItems fd ++ (⟨.uuid, destination⟩ ::
        ⟨.uint32, connectionMethod⟩ ::
          (operationItems operation ++ optMemItems optMemSize optMem))))
  | .sendSecfile path fd context session =>
    ⟨.interfaceToken, interfaceToken⟩ ::
      (charItems (some path) ++ [⟨.bool, true⟩, ⟨.fileDescriptor, fd⟩, ⟨.context, context⟩,
        ⟨.session, session⟩])

/-- The request as it was written, in the daemon's terms: its own descriptors, and neither the
pointers of an operation nor that of a path. -/
def Request.arrived (received : Int → Int) : Request → Option Received
  | .initializeContext name => some (.initializeContext name)
  | .openSession mem context fd destination connectionMethod operation optMemSize optMem =>
    (receivedOperation received operation).map fun op =>
      .openSession context.fd ((taPathOf mem context).elim (.sent context.taPath) .copied)
        (taPathOf mem context) (receivedFd received fd) destination connectionMethod op optMemSize
        (receivedOptMem optMemSize optMem)
  | .sendSecfile path fd context session =>
    some (.sendSecfile (some path) (received fd) context session)

def Received.string : Received → Option CStr
  | .initializeContext name => name
  | .openSession _ _ taPath .. => taPath
  | .sendSecfile path .. => path

theorem writes_token (h : Ordered m items received) {x : Unit × P}
    (hx : writeToken m m.new = some x) : items x.2 = [⟨.interfaceToken, interfaceToken⟩] := by
  obtain ⟨y, hy⟩ := Option.isSome_iff_exists.mp h.takes_token
  rw [writeToken, hy, Option.getD_some] at hx
  obtain rfl := Option.some.inj hx
  rw [h.write_items hy, h.new_items, List.nil_append]

theorem items_of_token (h : Ordered m items received) {w : Unit → StateT P Option Unit}
    {xs : List (Sigma Kind.Val)} (hw : Writes items (w ()) xs) {x : Unit × P}
    (hx : (writeToken m >>= w) m.new = some x) :
    items x.2 = ⟨.interfaceToken, interfaceToken⟩ :: xs := by
  obtain ⟨a, p', hp, hx⟩ := bind_eq_some.mp hx
  rw [hw p' x hx, writes_token h hp, List.singleton_append]

theorem writes_openData (h : Ordered m items received) (mem : BitVec 64 → CStr)
    (context : TeecContext) (fd : Int) (destination : BitVec 128) (connectionMethod : U32)
    {x : Unit × P}
    (hx : writeOpenData m mem context fd destination connectionMethod m.new = some x) :
    items x.2 = ⟨.interfaceToken, interfaceToken⟩ :: ⟨.context, context⟩ ::
      (charItems (taPathOf mem context) ++
        (fdItems fd ++ [⟨.uuid, destination⟩, ⟨.uint32, connectionMethod⟩])) := by
  apply items_of_token h _ hx
  exact (h.writes .context context).bind ((writes_char h _).bind ((writes_fd h fd).bind
    ((h.writes .uuid destination).bind (h.writes .uint32 connectionMethod))))

theorem Request.written_write (h : Ordered m items received) {r : Request} {x : Unit × P}
    (hx : r.write m m.new = some x) : items x.2 = r.written := by
  cases r with
  | initializeContext name => exact items_of_token h (writes_char h name) hx
  | openSession mem context fd destination connectionMethod operation optMemSize optMem =>
    obtain ⟨a, p', hopen, hx⟩ := bind_eq_some.mp hx
    have hrest : Writes items (do
        (do writeOperation m operation; writeIonFd m operation)
        m.write .uint32 optMemSize
        if 0 < optMemSize then m.write .ashmem optMem else pure ())
        (operationItems operation ++ optMemItems optMemSize optMem) :=
      (writes_operation h operation).bind (writes_optMem h optMemSize optMem)
    rw [bind_assoc] at hrest
    rw [hrest p' x hx, writes_openData h mem context fd destination connectionMethod hopen,
      Request.written]
    simp only [List.cons_append, List.append_assoc, List.nil_append]
  | sendSecfile path fd context session =>
    apply items_of_token h _ hx
    exact (writes_char h _).bind ((h.writes .bool true).bind ((h.writes .fileDescriptor fd).bind
      ((h.writes .context context).bind (h.writes .session session))))

theorem reads_token (h : Ordered m items received) :
    Reads items (enforceInterfaceToken m) [⟨.interfaceToken, interfaceToken⟩] () := by
  rw [enforceInterfaceToken]
  apply h.reads_bind
  rw [deliver, guard, if_pos rfl]
  exact Reads.pure ()

theorem Request.reads (h : Ordered m items received) {r : Request} (hs : Accepted r.string)
    (hne : r.string ≠ some .empty) {y : Received} (hy : r.arrived received = some y) :
    Reads items (r.recvProc m) r.written y := by
  cases r with
  | initializeContext name =>
    obtain rfl := Option.some.inj hy
    exact (reads_token h).bind (Reads.last (reads_char h hs hne) _)
  | openSession mem context fd destination connectionMethod operation optMemSize optMem =>
    obtain ⟨op, hop, rfl⟩ := Option.map_eq_some_iff.mp hy
    rw [Request.written]
    apply (reads_token h).bind
    apply h.reads_bind
    apply (reads_char h hs hne).bind
    apply (reads_fd h fd).bind
    apply h.reads_bind
    apply h.reads_bind
    apply (reads_operation h hop).bind
    exact Reads.last (reads_optMem h optMemSize optMem) _
  | sendSecfile path fd context session =>
    obtain rfl := Option.some.inj hy
    have hvalid : ¬ received fd < 0 := not_lt.mpr (h.received_nonneg fd)
    rw [Request.written]
    apply (reads_token h).bind
    apply (reads_char h hs hne).bind
    apply (reads_validFd h fd).bind
    rw [if_neg hvalid]
    apply h.reads_bind
    exact h.reads_bind (Reads.pure _)

theorem Request.arrived_isSome (h : Ordered m items received) (r : Request) :
    ∃ y, r.arrived received = some y := by
  cases r with
  | initializeContext name => exact ⟨_, rfl⟩
  | openSession mem context fd destination connectionMethod operation optMemSize optMem =>
    obtain ⟨op, hop⟩ := receivedOperation_isSome h operation
    exact ⟨_, congrArg (Option.map _) hop⟩
  | sendSecfile path fd context session => exact ⟨_, rfl⟩

theorem Request.string_arrived {r : Request} {y : Received} (hy : r.arrived received = some y) :
    y.string = r.string := by
  cases r with
  | initializeContext name =>
    obtain rfl := Option.some.inj hy
    rfl
  | openSession mem context fd destination connectionMethod operation optMemSize optMem =>
    obtain ⟨op, -, rfl⟩ := Option.map_eq_some_iff.mp hy
    rfl
  | sendSecfile path fd context session =>
    obtain rfl := Option.some.inj hy
    rfl

theorem Request.accepted {r : Request} {x : Unit × P} (hx : r.write m m.new = some x) :
    Accepted r.string := by
  cases r with
  | initializeContext name =>
    obtain ⟨a, p, -, hname⟩ := bind_eq_some.mp hx
    exact accepted_of_write hname
  | openSession mem context fd destination connectionMethod operation optMemSize optMem =>
    obtain ⟨a, p, hopen, -⟩ := bind_eq_some.mp hx
    obtain ⟨a, p, -, hopen⟩ := bind_eq_some.mp hopen
    obtain ⟨a, p, -, hopen⟩ := bind_eq_some.mp hopen
    obtain ⟨a, p, hpath, -⟩ := bind_eq_some.mp hopen
    exact accepted_of_write hpath
  | sendSecfile path fd context session =>
    obtain ⟨a, p, -, hx⟩ := bind_eq_some.mp hx
    obtain ⟨a, p, hpath, -⟩ := bind_eq_some.mp hx
    exact accepted_of_write hpath

theorem Request.recvProc_ne_empty {r : Request} {p p' : P} {y : Received}
    (hy : r.recvProc m p = some (y, p')) : y.string ≠ some .empty := by
  cases r with
  | initializeContext name =>
    obtain ⟨a, q, -, hy⟩ := bind_eq_some.mp hy
    obtain ⟨s, q, hs, hy⟩ := bind_eq_some.mp hy
    obtain ⟨rfl, -⟩ := Prod.mk.inj (Option.some.inj hy)
    exact getChar_ne_empty hs
  | openSession mem context fd destination connectionMethod operation optMemSize optMem =>
    obtain ⟨a, q, -, hy⟩ := bind_eq_some.mp hy
    obtain ⟨c, q, -, hy⟩ := bind_eq_some.mp hy
    obtain ⟨s, q, hs, hy⟩ := bind_eq_some.mp hy
    obtain ⟨a, q, -, hy⟩ := bind_eq_some.mp hy
    obtain ⟨a, q, -, hy⟩ := bind_eq_some.mp hy
    obtain ⟨a, q, -, hy⟩ := bind_eq_some.mp hy
    obtain ⟨a, q, -, hy⟩ := bind_eq_some.mp hy
    obtain ⟨a, q, -, hy⟩ := bind_eq_some.mp hy
    obtain ⟨rfl, -⟩ := Prod.mk.inj (Option.some.inj hy)
    exact getChar_ne_empty hs
  | sendSecfile path fd context session =>
    obtain ⟨a, q, -, hy⟩ := bind_eq_some.mp hy
    obtain ⟨s, q, hs, hy⟩ := bind_eq_some.mp hy
    obtain ⟨d, q, -, hy⟩ := bind_eq_some.mp hy
    by_cases hd : d < 0
    · rw [if_pos hd] at hy
      cases hy
    · rw [if_neg hd] at hy
      obtain ⟨a, q, -, hy⟩ := bind_eq_some.mp hy
      obtain ⟨a, q, -, hy⟩ := bind_eq_some.mp hy
      obtain ⟨rfl, -⟩ := Prod.mk.inj (Option.some.inj hy)
      exact getChar_ne_empty hs

end Requests

section RoundTrip

def writeAll (m : MessageParcel P) : List (Sigma Kind.Val) → StateT P Option Unit
  | [] => pure ()
  | ⟨k, v⟩ :: rest => do
    m.write k v
    writeAll m rest

theorem writes_all (h : Ordered m items received) (rest : List (Sigma Kind.Val)) :
    Writes items (writeAll m rest) rest := by
  induction rest with
  | nil => exact Writes.pure
  | cons i rest ih =>
    cases i with
    | mk k v => exact (h.writes k v).bind ih

/-- Exactly the strings that are not empty come back, with all that follows them; and the same
for the requests that carry one. -/
theorem marshalling_iff (h : Ordered m items received) :
    (∀ (s : Option CStr) (rest : List (Sigma Kind.Val)) (p : P) (x : Unit × P), items p = [] →
      (do writeChar m s; writeAll m rest) p = some x →
      ((∃ p', getChar m x.2 = some (s, p') ∧ items p' = rest) ↔ s ≠ some .empty)) ∧
    ∀ (r : Request) (x : Unit × P), r.write m m.new = some x →
      ((∃ y p, r.arrived received = some y ∧ r.recvProc m x.2 = some (y, p) ∧ items p = []) ↔
        r.string ≠ some .empty) := by
  constructor
  · intro s rest p x hp hx
    constructor
    · rintro ⟨p', hread, -⟩
      exact getChar_ne_empty hread
    · intro hne
      obtain ⟨a, q, hs, -⟩ := bind_eq_some.mp hx
      have hitems := ((writes_char h s).bind (writes_all h rest)) _ _ hx
      rw [hp, List.nil_append] at hitems
      exact reads_char h (accepted_of_write hs) hne _ _ hitems
  · intro r x hx
    constructor
    · rintro ⟨y, p, hy, hread, -⟩
      rw [← Request.string_arrived hy]
      exact Request.recvProc_ne_empty hread
    · intro hne
      obtain ⟨y, hy⟩ := Request.arrived_isSome h r
      have hitems := Request.written_write h hx
      rw [← List.append_nil r.written] at hitems
      obtain ⟨p, hread, hp⟩ := Request.reads h (Request.accepted hx) hne hy _ _ hitems
      exact ⟨y, p, hy, hread, hp⟩

def sampleParcel : MessageParcel (List (Sigma Kind.Val)) := queue (deliver fun _ => 7)

theorem ordered_sampleParcel : Ordered sampleParcel id fun _ => 7 where
  toInOrder := inOrder_queue _
  received_nonneg _ := by decide
  takes_token := rfl

def samplePath : CStr := ⟨[0x2f, 0x61, 0x2e, 0x73, 0x65, 0x63], by decide⟩

theorem marshalling_openSession : ∃ p,
    openSessionRecvProc sampleParcel
      (Request.openSession (fun _ => samplePath) ⟨5, 64⟩ 3 0 7 none 0 0).written =
      some (.openSession 5 (.copied samplePath) (some samplePath) 7 0 7 none 0 none, p) := by
  have hwrite : (Request.openSession (fun _ => samplePath) ⟨5, 64⟩ 3 0 7 none 0 0).write
      sampleParcel sampleParcel.new = some ((), _) := rfl
  obtain ⟨y, p, hy, hread, -⟩ := ((marshalling_iff ordered_sampleParcel).2 _ _ hwrite).mpr
    (by decide)
  obtain rfl := Option.some.inj hy
  exact ⟨p, hread⟩

/-- An empty path arrives as none, and stays in front of what follows it. -/
theorem not_marshalling_empty :
    (do writeChar sampleParcel (some .empty); writeAll sampleParcel [⟨.bool, false⟩])
        sampleParcel.new = some ((), [⟨.uint32, 0⟩, ⟨.string, []⟩, ⟨.bool, false⟩]) ∧
      getChar sampleParcel [⟨.uint32, 0⟩, ⟨.string, []⟩, ⟨.bool, false⟩] =
        some (none, [⟨.string, []⟩, ⟨.bool, false⟩]) ∧
      ¬ ∃ p, getChar sampleParcel [⟨.uint32, 0⟩, ⟨.string, []⟩, ⟨.bool, false⟩] =
        some (some .empty, p) ∧ p = [⟨.bool, false⟩] := by
  refine ⟨rfl, rfl, ?_⟩
  rintro ⟨p, hread, -⟩
  exact getChar_ne_empty hread rfl

end RoundTrip

end TeeClient.Marshal
