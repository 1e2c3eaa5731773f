import Mathlib.Tactic
import TeeClient.Vendor.SharedMemory

/-! The bitmap of a context follows its live blocks through every run of calls. -/

namespace TeeClient.Vendor

variable {P : Type}

namespace ShmTable

section Lists

variable {t : ShmTable P}

theorem mem_of_mem_shrdMemList {b : SharedMemoryInner P} (h : b ∈ t.shrdMemList) : b ∈ t.blocks :=
  (List.mem_filter.mp h).1

theorem find?_id {bs : List (SharedMemoryInner P)} (hids : bs.Pairwise (·.id ≠ ·.id))
    {b : SharedMemoryInner P} (hb : b ∈ bs) : bs.find? (·.id = b.id) = some b := by
  induction bs with
  | nil => simp at hb
  | cons x xs ih =>
    rw [List.pairwise_cons] at hids
    rcases List.mem_cons.mp hb with rfl | hb
    · simp
    · rw [List.find?_cons_of_neg (by simpa using hids.1 b hb), ih hids.2 hb]

theorem filter_id_ne_of_fresh {bs : List (SharedMemoryInner P)} {id : Nat}
    (h : ∀ b ∈ bs, b.id ≠ id) : bs.filter (·.id ≠ id) = bs := by
  rw [List.filter_eq_self]
  simpa using h

end Lists

/-- What holds of the blocks of a context between calls: each is in the list with one
reference, and the set bits of the bitmap are the offsets of the allocated ones. -/
structure Inv [Zero P] (t : ShmTable P) : Prop where
  ids : t.blocks.Pairwise (·.id ≠ ·.id)
  fresh : ∀ b ∈ t.blocks, b.id < t.nextId
  opsCnt : ∀ b ∈ t.blocks, b.opsCnt = 1
  listed : ∀ b ∈ t.blocks, b.listed = true
  buffers : ∀ b ∈ t.blocks, b.isAllocated = true → b.buffer ≠ 0
  length : t.bitmap.length = numOfSharememBitmap
  bits : ∀ i, checkBit i t.bitmap = true ↔
    ∃ b ∈ t.blocks, b.isAllocated = true ∧ b.offset.toNat = i
  offsets : ∀ b ∈ t.blocks, ∀ c ∈ t.blocks,
    b.isAllocated = true → c.isAllocated = true → b.offset = c.offset → b = c

theorem inv_init [Zero P] : (init : ShmTable P).Inv where
  ids := .nil
  fresh := nofun
  opsCnt := nofun
  listed := nofun
  buffers := nofun
  length := rfl
  bits i := by
    have hclear : checkBit i (List.replicate numOfSharememBitmap 0) = false := by
      rw [checkBit_eq, List.getElem?_replicate]
      split_ifs <;> simp
    exact iff_of_false (by simp only [init, hclear, Bool.false_eq_true, not_false_iff]) nofun
  offsets := nofun

theorem Inv.shrdMemList [Zero P] {t : ShmTable P} (h : t.Inv) : t.shrdMemList = t.blocks :=
  List.filter_eq_self.mpr h.listed

end ShmTable

section Steps

variable [DecidableEq P] [Zero P] {t : ShmTable P}

theorem putBnShrMem_insert (h : t.Inv) (shm : ShmArgs P) (isAllocated : Bool) (offset : U32)
    (bitmap : Bitmap) :
    putBnShrMem t.nextId ({ t with bitmap }.insert shm isAllocated offset) =
      { blocks := t.blocks ++ [{ id := t.nextId, buffer := shm.buffer, size := shm.size,
                                 flags := shm.flags, opsCnt := 1, isAllocated, offset,
                                 listed := true }]
        bitmap
        nextId := t.nextId + 1 } := by
  have hne b (hb : b ∈ t.blocks) : b.id ≠ t.nextId := (h.fresh b hb).ne
  have hfind : t.blocks.find? (·.id = t.nextId) = none := by
    rw [List.find?_eq_none]
    simpa using hne
  have hmap {f : SharedMemoryInner P → SharedMemoryInner P} :
      t.blocks.map (fun b => if b.id = t.nextId then f b else b) = t.blocks := by
    rw [List.map_congr_left fun b hb => if_neg (hne b hb), List.map_id']
  simp [putBnShrMem, ShmTable.insert, ShmTable.modify, List.find?_append, hfind, hmap]

theorem putBnShrMem_unlist (h : t.Inv) {b : SharedMemoryInner P} (hb : b ∈ t.blocks) :
    putBnShrMem b.id (t.modify b.id fun b => { b with listed := false }) =
      releaseSharedMemory b t := by
  let f (c : SharedMemoryInner P) := if c.id = b.id then { c with listed := false } else c
  have hfid c : (f c).id = c.id := by
    simp only [f]
    split_ifs <;> rfl
  have hfind : (t.blocks.map f).find? (·.id = b.id) = some { b with listed := false } := by
    rw [List.find?_map, show ((fun c : SharedMemoryInner P => decide (c.id = b.id)) ∘ f) =
      fun c => decide (c.id = b.id) from funext fun c => by simp [hfid], ShmTable.find?_id h.ids hb]
    simp [f]
  have hfilter : (t.blocks.map f).filter (·.id ≠ b.id) = t.blocks.filter (·.id ≠ b.id) := by
    rw [List.filter_map, show ((fun c : SharedMemoryInner P => decide (c.id ≠ b.id)) ∘ f) =
      fun c => decide (c.id ≠ b.id) from funext fun c => by simp [hfid]]
    refine (List.map_congr_left fun c hc => ?_).trans (List.map_id' _)
    have := (List.mem_filter.mp hc).2
    simp_all [f]
  have hops := h.opsCnt b hb
  simp only [putBnShrMem, ShmTable.modify]
  rw [hfind]
  simp only [hops, if_true, releaseSharedMemory]
  rw [hfilter]

theorem inv_releaseSharedMemory (h : t.Inv) {b : SharedMemoryInner P} (hb : b ∈ t.blocks) :
    (releaseSharedMemory b t).Inv := by
  have hsub : (t.blocks.filter (·.id ≠ b.id)).Sublist t.blocks := List.filter_sublist
  have hother c : c ∈ t.blocks.filter (·.id ≠ b.id) ↔ c ∈ t.blocks ∧ c.id ≠ b.id := by
    simp [List.mem_filter]
  have hsame c (hc : c ∈ t.blocks) (hid : c.id = b.id) : c = b := by
    have hfind := ShmTable.find?_id h.ids hc
    rw [hid, ShmTable.find?_id h.ids hb] at hfind
    exact (Option.some.inj hfind).symm
  refine ⟨h.ids.sublist hsub, fun c hc => h.fresh c (hsub.subset hc),
    fun c hc => h.opsCnt c (hsub.subset hc), fun c hc => h.listed c (hsub.subset hc),
    fun c hc => h.buffers c (hsub.subset hc), ?_, fun i => ?_,
    fun c hc d hd => h.offsets c (hsub.subset hc) d (hsub.subset hd)⟩
  · simp only [releaseSharedMemory]
    split_ifs <;> simp [h.length]
  · simp only [releaseSharedMemory, hother]
    by_cases halloc : b.isAllocated = true
    · rw [if_pos ⟨halloc, h.buffers b hb halloc⟩, checkBit_clearBit, Bool.and_eq_true,
        decide_eq_true_iff, h.bits]
      constructor
      · rintro ⟨hi, c, hc, hca, rfl⟩
        exact ⟨c, ⟨hc, fun hid => hi (by rw [hsame c hc hid])⟩, hca, rfl⟩
      · rintro ⟨c, ⟨hc, hid⟩, hca, rfl⟩
        refine ⟨fun heq => hid ?_, c, hc, hca, rfl⟩
        rw [h.offsets c hc b hb hca halloc (BitVec.eq_of_toNat_eq heq)]
    · rw [if_neg fun hcond => halloc hcond.1, h.bits]
      constructor
      · rintro ⟨c, hc, hca, rfl⟩
        exact ⟨c, ⟨hc, fun hid => halloc (hsame c hc hid ▸ hca)⟩, hca, rfl⟩
      · rintro ⟨c, ⟨hc, -⟩, hca, rfl⟩
        exact ⟨c, hc, hca, rfl⟩

theorem teecReleaseSharedMemoryInner_eq (h : t.Inv) (callFromService : Bool) (shm : ShmArgs P) :
    teecReleaseSharedMemoryInner callFromService shm t =
      (t.blocks.find? (matchesArgs callFromService shm)).elim t (releaseSharedMemory · t) := by
  simp only [teecReleaseSharedMemoryInner, teecFindAndRemoveShrMemInner, h.shrdMemList]
  cases hf : t.blocks.find? (matchesArgs callFromService shm) with
  | none => rfl
  | some b => exact putBnShrMem_unlist h (List.mem_of_find?_eq_some hf)

theorem teecReleaseSharedMemoryInner_cases (h : t.Inv) (callFromService : Bool) (shm : ShmArgs P) :
    teecReleaseSharedMemoryInner callFromService shm t = t ∨
    ∃ b ∈ t.blocks, matchesArgs callFromService shm b = true ∧
      teecReleaseSharedMemoryInner callFromService shm t = releaseSharedMemory b t := by
  rw [teecReleaseSharedMemoryInner_eq h]
  cases hf : t.blocks.find? (matchesArgs callFromService shm) with
  | none => exact .inl rfl
  | some b => exact .inr ⟨b, List.mem_of_find?_eq_some hf, List.find?_some hf, rfl⟩

theorem releaseBlocks_all (h : t.Inv) :
    (releaseBlocks t.blocks t).Inv ∧ (releaseBlocks t.blocks t).blocks = [] := by
  generalize hbs : t.blocks = bs
  induction bs generalizing t with
  | nil => exact ⟨h, hbs⟩
  | cons b bs ih =>
    have hb : b ∈ t.blocks := by simp [hbs]
    rw [releaseBlocks, putBnShrMem_unlist h hb]
    have hids := h.ids
    rw [hbs, List.pairwise_cons] at hids
    have hrest : (releaseSharedMemory b t).blocks = bs := by
      simp only [releaseSharedMemory, hbs]
      rw [List.filter_cons_of_neg (by simp), ShmTable.filter_id_ne_of_fresh]
      exact fun c hc => (hids.1 c hc).symm
    exact ih (inv_releaseSharedMemory h hb) hrest

theorem inv_insert (h : t.Inv) {shm : ShmArgs P} {isAllocated : Bool} {offset : U32}
    {bitmap : Bitmap} (hbuf : isAllocated = true → shm.buffer ≠ 0)
    (hlen : bitmap.length = numOfSharememBitmap)
    (hbits : ∀ i, checkBit i bitmap = true ↔
      checkBit i t.bitmap = true ∨ (isAllocated = true ∧ offset.toNat = i))
    (hnew : isAllocated = true → checkBit offset.toNat t.bitmap = false) :
    (putBnShrMem t.nextId ({ t with bitmap }.insert shm isAllocated offset)).Inv := by
  rw [putBnShrMem_insert h]
  have hclash b (hb : b ∈ t.blocks) (hba : b.isAllocated = true) (ha : isAllocated = true)
      (heq : b.offset = offset) : False := by
    have hset := (h.bits b.offset.toNat).mpr ⟨b, hb, hba, rfl⟩
    rw [heq, hnew ha] at hset
    exact absurd hset (by simp)
  refine ⟨?_, ?_, ?_, ?_, ?_, hlen, fun i => ?_, ?_⟩
  case refine_1 =>
    rw [List.pairwise_append]
    refine ⟨h.ids, List.pairwise_singleton _ _, fun b hb c hc => ?_⟩
    rw [List.mem_singleton.mp hc]
    exact (h.fresh b hb).ne
  case refine_6 =>
    rw [hbits, h.bits]
    simp only [List.mem_append, List.mem_singleton, or_and_right, exists_or, exists_eq_left]
  case refine_7 =>
    intro b hb c hc hba hca heq
    rw [List.mem_append, List.mem_singleton] at hb hc
    rcases hb with hb | rfl <;> rcases hc with hc | rfl
    · exact h.offsets b hb c hc hba hca heq
    · exact (hclash b hb hba hca heq).elim
    · exact (hclash c hc hca hba heq.symm).elim
    · rfl
  all_goals
    intro b hb
    rw [List.mem_append, List.mem_singleton] at hb
    rcases hb with hb | rfl
  · exact Nat.lt_succ_of_lt (h.fresh b hb)
  · exact Nat.lt_succ_self _
  · exact h.opsCnt b hb
  · rfl
  · exact h.listed b hb
  · rfl
  · exact h.buffers b hb
  · exact hbuf

theorem inv_insert_setBit (h : t.Inv) {shm : ShmArgs P} {v : Nat} (hv : v < 64)
    (hbuf : shm.buffer ≠ 0) (hclear : checkBit v t.bitmap = false) :
    (putBnShrMem t.nextId ({ t with bitmap := setBit v t.bitmap }.insert shm true
      (BitVec.ofNat 32 v))).Inv := by
  have hoff : (BitVec.ofNat 32 v).toNat = v := by
    rw [BitVec.toNat_ofNat]
    omega
  have hcap : v < 8 * t.bitmap.length := by
    rw [h.length, numOfSharememBitmap]
    exact hv
  refine inv_insert h (fun _ => hbuf) (by simp [h.length]) (fun i => ?_) fun _ => by rwa [hoff]
  rw [checkBit_setBit hcap, Bool.or_eq_true, decide_eq_true_iff, hoff, or_comm]
  exact or_congr Iff.rfl ⟨fun hi => ⟨rfl, hi.symm⟩, fun hi => hi.2.symm⟩

theorem inv_teecRegisterSharedMemory (h : t.Inv) (mallocInner : Bool) (shm : ShmArgs P) :
    (teecRegisterSharedMemory mallocInner shm t).2.Inv := by
  simp only [teecRegisterSharedMemory, teecRegisterSharedMemoryInner]
  split_ifs
  · exact h
  · exact inv_insert h (by simp) h.length (by simp) (by simp)
  · exact h

theorem inv_teecReleaseSharedMemory (h : t.Inv) (callFromService : Bool) (shm : ShmArgs P) :
    (teecReleaseSharedMemory callFromService shm t).Inv := by
  rw [teecReleaseSharedMemory]
  rcases teecReleaseSharedMemoryInner_cases h callFromService shm with heq | ⟨b, hb, -, heq⟩
  · rwa [heq]
  · rw [heq]
    exact inv_releaseSharedMemory h hb

end Steps

section Contexts

theorem mem_updateContext {fd : Int} {f : ShmContext P → ShmContext P} {cs : List (ShmContext P)}
    {c : ShmContext P} (h : c ∈ updateContext fd f cs) : c ∈ cs ∨ ∃ d ∈ cs, c = f d := by
  induction cs with
  | nil => exact absurd h (by simp [updateContext])
  | cons d ds ih =>
    simp only [updateContext] at h
    split_ifs at h
    · rcases List.mem_cons.mp h with rfl | h
      · exact .inr ⟨d, List.mem_cons_self, rfl⟩
      · exact .inl (List.mem_cons_of_mem _ h)
    · rcases List.mem_cons.mp h with rfl | h
      · exact .inl List.mem_cons_self
      · exact (ih h).imp (List.mem_cons_of_mem _)
          fun ⟨e, he, heq⟩ => ⟨e, List.mem_cons_of_mem _ he, heq⟩

theorem mem_finalizeContext {fd : Int} {cs : List (ShmContext P)} {c : ShmContext P}
    (h : c ∈ finalizeContext fd cs) : c ∈ cs := by
  induction cs with
  | nil => exact h
  | cons d ds ih =>
    simp only [finalizeContext] at h
    split_ifs at h
    · exact List.mem_cons_of_mem _ h
    · rcases List.mem_cons.mp h with rfl | h
      · exact List.mem_cons_self
      · exact List.mem_cons_of_mem _ (ih h)

end Contexts

section Buffer

variable [Zero P] [OfNat P 16]

theorem allocateBuffer_error {out : AllocOutcome P} {shm : ShmArgs P} {e : TeecResult}
    (h : allocateBuffer out shm = .error e) : e ≠ .success := by
  simp only [allocateBuffer] at h
  cases hb : out.buffer <;>
    · simp only [hb] at h
      split_ifs at h <;> (obtain rfl := Except.error.inj h; simp)

theorem allocateBuffer_ok {out : AllocOutcome P} {shm : ShmArgs P} {p : P}
    (h : allocateBuffer out shm = .ok p) :
    p = 16 ∧ shm.size = 0 ∨ ∃ q, out.buffer = some q ∧ p = q.val := by
  simp only [allocateBuffer] at h
  cases hb : out.buffer with
  | none =>
    simp only [hb] at h
    split_ifs at h with hflags hlen hsize
    exact .inl ⟨(Except.ok.inj h).symm, hsize⟩
  | some q =>
    simp only [hb] at h
    split_ifs at h with hflags hlen hmemset hsize
    · exact .inr ⟨q, rfl, (Except.ok.inj h).symm⟩
    · exact .inl ⟨(Except.ok.inj h).symm, hsize⟩
    · exact .inr ⟨q, rfl, (Except.ok.inj h).symm⟩

theorem allocateBuffer_ne_zero [NeZero (16 : P)] {out : AllocOutcome P} {shm : ShmArgs P} {p : P}
    (h : allocateBuffer out shm = .ok p) : p ≠ 0 := by
  rcases allocateBuffer_ok h with ⟨rfl, -⟩ | ⟨q, -, rfl⟩
  · exact NeZero.ne _
  · exact q.property

/-- An allocation fails and leaves everything as it was, or it adds one block at a
bit that was clear. -/
theorem teecAllocateSharedMemoryInner_cases [NeZero (16 : P)] {t : ShmTable P} (h : t.Inv)
    (out : AllocOutcome P) (shm : ShmArgs P) :
    (∃ e, e ≠ .success ∧ teecAllocateSharedMemoryInner out shm t = (e, t)) ∨
    ∃ v p, v < 64 ∧ p ≠ 0 ∧ checkBit v t.bitmap = false ∧
      teecAllocateSharedMemoryInner out shm t =
        (.success, { t with bitmap := setBit v t.bitmap }.insert { shm with buffer := p } true
          (BitVec.ofNat 32 v)) := by
  simp only [teecAllocateSharedMemoryInner]
  by_cases hflags : checkSharedMemoryParam shm.flags = .success
  case neg =>
    rw [if_neg hflags]
    exact .inl ⟨.errorBadParameters, by simp, rfl⟩
  rw [if_pos hflags]
  rcases getAndSetBit_cases t.bitmap with hnone | ⟨v, hsome, hv, hclear⟩
  · rw [hnone]
    exact .inl ⟨.errorBadParameters, by simp, rfl⟩
  rw [hsome]
  have hv64 : v < 64 := by
    rw [h.length, numOfSharememBitmap] at hv
    exact hv
  cases hb : allocateBuffer out shm with
  | error e =>
    refine .inl ⟨e, allocateBuffer_error hb, ?_⟩
    dsimp only
    rw [clearBit_setBit hclear hv]
  | ok p => exact .inr ⟨v, p, hv64, allocateBuffer_ne_zero hb, hclear, rfl⟩

end Buffer

section Calls

variable [DecidableEq P] [Zero P] [OfNat P 16] [NeZero (16 : P)] {t : ShmTable P}

theorem teecAllocateSharedMemory_cases (h : t.Inv) (out : AllocOutcome P) (shm : ShmArgs P) :
    (∃ e, e ≠ .success ∧ teecAllocateSharedMemory out shm t = (e, t)) ∨
    ∃ v p, v < 64 ∧ p ≠ 0 ∧ checkBit v t.bitmap = false ∧
      teecAllocateSharedMemory out shm t =
        (.success, putBnShrMem t.nextId ({ t with bitmap := setBit v t.bitmap }.insert
          { shm with buffer := p } true (BitVec.ofNat 32 v))) := by
  simp only [teecAllocateSharedMemory]
  by_cases hmalloc : out.mallocInner = true
  case neg =>
    rw [if_neg hmalloc]
    exact .inl ⟨.fail, by simp, rfl⟩
  rw [if_pos hmalloc]
  rcases teecAllocateSharedMemoryInner_cases h out shm with
    ⟨e, he, heq⟩ | ⟨v, p, hv, hp, hclear, heq⟩
  · rw [heq]
    refine .inl ⟨e, he, ?_⟩
    cases e <;> first | rfl | exact absurd rfl he
  · rw [heq]
    exact .inr ⟨v, p, hv, hp, hclear, rfl⟩

theorem inv_teecAllocateSharedMemory (h : t.Inv) (out : AllocOutcome P) (shm : ShmArgs P) :
    (teecAllocateSharedMemory out shm t).2.Inv := by
  rcases teecAllocateSharedMemory_cases h out shm with ⟨e, -, heq⟩ | ⟨v, p, hv, hp, hclear, heq⟩
  · rwa [heq]
  · rw [heq]
    exact inv_insert_setBit h hv hp hclear

theorem inv_runShmCall {cs : List (ShmContext P)} (h : ∀ c ∈ cs, c.shm.Inv) (call : ShmCall P) :
    ∀ c ∈ runShmCall call cs, c.shm.Inv := by
  intro c hc
  cases call with
  | initializeContext fd callFromService =>
    rcases List.mem_append.mp hc with hc | hc
    · exact h c hc
    · rw [List.mem_singleton.mp hc]
      exact ShmTable.inv_init
  | allocateSharedMemory fd out shm =>
    rcases mem_updateContext hc with hc | ⟨d, hd, rfl⟩
    · exact h c hc
    · exact inv_teecAllocateSharedMemory (h d hd) out shm
  | registerSharedMemory fd mallocInner shm =>
    rcases mem_updateContext hc with hc | ⟨d, hd, rfl⟩
    · exact h c hc
    · exact inv_teecRegisterSharedMemory (h d hd) mallocInner shm
  | releaseSharedMemory fd shm =>
    rcases mem_updateContext hc with hc | ⟨d, hd, rfl⟩
    · exact h c hc
    · exact inv_teecReleaseSharedMemory (h d hd) d.callFromService shm
  | finalizeContext fd => exact h c (mem_finalizeContext hc)

end Calls

structure BitmapExact (c : ShmContext Nat) : Prop where
  bits : ∀ i, checkBit i c.shm.bitmap = true ↔
    ∃! b, b ∈ c.shm.blocks ∧ b.isAllocated = true ∧ b.offset.toNat = i
  distinct : ∀ b ∈ c.shm.blocks, ∀ d ∈ c.shm.blocks,
    b.isAllocated = true → d.isAllocated = true → b.offset = d.offset → b = d
  capacity : ∀ b ∈ c.shm.blocks, b.isAllocated = true → b.offset.toNat < 8 * numOfSharememBitmap
  failed : ∀ out shm, (teecAllocateSharedMemory out shm c.shm).1 ≠ .success →
    (teecAllocateSharedMemory out shm c.shm).2.bitmap = c.shm.bitmap
  finalized : (finalizeShms c.shm).blocks = [] ∧
    ∀ i, checkBit i (finalizeShms c.shm).bitmap = false

theorem ShmTable.Inv.checkBit_iff {t : ShmTable Nat} (h : t.Inv) (i : Nat) :
    checkBit i t.bitmap = true ↔
      ∃! b, b ∈ t.blocks ∧ b.isAllocated = true ∧ b.offset.toNat = i := by
  rw [h.bits]
  constructor
  · rintro ⟨b, hb, hba, rfl⟩
    refine ⟨b, ⟨hb, hba, rfl⟩, ?_⟩
    rintro d ⟨hd, hda, heq⟩
    exact h.offsets d hd b hb hda hba (BitVec.eq_of_toNat_eq heq)
  · rintro ⟨b, ⟨hb, hba, hi⟩, -⟩
    exact ⟨b, hb, hba, hi⟩

theorem ShmTable.Inv.bitmapExact {c : ShmContext Nat} (h : c.shm.Inv) : BitmapExact c := by
  refine ⟨h.checkBit_iff, h.offsets, fun b hb hba => ?_, fun out shm hfail => ?_, ?_⟩
  · by_contra hge
    rw [← h.length, Nat.not_lt] at hge
    have hset := (h.bits b.offset.toNat).mpr ⟨b, hb, hba, rfl⟩
    rw [checkBit_of_ge hge] at hset
    exact absurd hset (by simp)
  · rcases teecAllocateSharedMemory_cases h out shm with ⟨e, -, heq⟩ | ⟨v, p, -, -, -, heq⟩
    · rw [heq]
    · rw [heq] at hfail
      exact absurd rfl hfail
  · rw [finalizeShms, h.shrdMemList]
    obtain ⟨hinv, hblocks⟩ := releaseBlocks_all h
    refine ⟨hblocks, fun i => ?_⟩
    rw [Bool.eq_false_iff, ne_eq, hinv.bits, hblocks]
    exact nofun

section Releases

variable {t : ShmTable Nat} {own : Option Nat}

structure Freed (own : Option Nat) (t t' : ShmTable Nat) : Prop where
  blocks : t'.blocks = t.blocks.filter fun b => own ≠ some b.id
  bits : ∀ i, checkBit i t'.bitmap = true ↔ checkBit i t.bitmap = true ∧
    ∀ b ∈ t.blocks, own = some b.id → b.isAllocated = true → b.offset.toNat ≠ i

theorem freed_releaseSharedMemory (h : t.Inv) {b : SharedMemoryInner Nat} (hb : b ∈ t.blocks) :
    Freed (some b.id) t (releaseSharedMemory b t) := by
  have hsame (d : SharedMemoryInner Nat) (hd : d ∈ t.blocks) (hid : b.id = d.id) : d = b := by
    have hfind := ShmTable.find?_id h.ids hd
    rw [← hid, ShmTable.find?_id h.ids hb] at hfind
    exact (Option.some.inj hfind).symm
  refine ⟨List.filter_congr fun d _ => by simp [eq_comm], fun i => ?_⟩
  rw [releaseSharedMemory]
  by_cases hba : b.isAllocated = true
  · rw [if_pos ⟨hba, h.buffers b hb hba⟩, checkBit_clearBit, Bool.and_eq_true, decide_eq_true_iff,
      and_comm]
    refine and_congr_right fun _ => ⟨fun hi d hd hid _ heq => ?_, fun hall hi => ?_⟩
    · rw [hsame d hd (Option.some.inj hid)] at heq
      exact hi heq.symm
    · exact hall b hb rfl hba hi.symm
  · rw [if_neg fun hcond => hba hcond.1]
    refine (and_iff_left fun d hd hid hda => ?_).symm
    exact absurd (hsame d hd (Option.some.inj hid) ▸ hda) hba

theorem freed_none : Freed none t t :=
  ⟨(List.filter_eq_self.mpr fun _ _ => by simp).symm, fun i => by simp⟩

theorem freed_release_iff (h : t.Inv) (callFromService : Bool) (shm : ShmArgs Nat)
    (hown : ∀ id, own = some id → ∃ b ∈ t.blocks, b.id = id) :
    Freed own t (teecReleaseSharedMemory callFromService shm t) ↔
      (t.shrdMemList.find? (matchesArgs callFromService shm)).map (·.id) = own := by
  rw [teecReleaseSharedMemory, teecReleaseSharedMemoryInner_eq h, h.shrdMemList]
  cases hfind : t.blocks.find? (matchesArgs callFromService shm) with
  | none =>
    cases own with
    | none => exact iff_of_true freed_none rfl
    | some id =>
      refine iff_of_false (fun hfreed => ?_) nofun
      obtain ⟨b, hb, rfl⟩ := hown id rfl
      have hgone := hfreed.blocks ▸ hb
      simp at hgone
  | some d =>
    have hd := List.mem_of_find?_eq_some hfind
    constructor
    · intro hfreed
      have hgone : d ∉ (releaseSharedMemory d t).blocks := by simp [releaseSharedMemory]
      have hown' : ¬ own ≠ some d.id := fun hne => by
        refine hgone (hfreed.blocks ▸ List.mem_filter.mpr ⟨hd, ?_⟩)
        simpa using hne
      exact (not_not.mp hown').symm
    · rintro rfl
      exact freed_releaseSharedMemory h hd

end Releases

section Runs

open ShmRun

variable {r : ShmRun Nat}

/-- A release frees the block that the structure was given, and no other in any context. -/
def ClearsOwn (r : ShmRun Nat) (sharedMem : Nat) : Prop :=
  List.Forall₂ (fun c c' => c'.fd = c.fd ∧
    Freed ((r.made sharedMem).bind fun x => if x.1 = c.fd then some x.2 else none) c.shm c'.shm)
    r.contexts (r.call (.releaseSharedMemory sharedMem)).contexts

def ExactStep (r : ShmRun Nat) (call : CallerCall Nat) : Prop :=
  (∀ c ∈ (r.call call).contexts, BitmapExact c) ∧
    ∀ sharedMem, call = .releaseSharedMemory sharedMem → ClearsOwn r sharedMem

/-- Between calls the descriptors of the contexts differ, and a structure that has a block names
its context. -/
structure ShmRun.Inv (r : ShmRun Nat) : Prop where
  fds : r.contexts.Pairwise (·.fd ≠ ·.fd)
  tables : ∀ c ∈ r.contexts, c.shm.Inv
  made : ∀ s fd id, r.made s = some (fd, id) → (r.structures s).context = some fd ∧
    ∃ c ∈ r.contexts, c.fd = fd ∧ ∃ b ∈ c.shm.blocks, b.id = id

theorem ShmRun.inv_start : (ShmRun.start : ShmRun Nat).Inv where
  fds := .nil
  tables := nofun
  made := nofun

theorem updateContext_eq_map {cs : List (ShmContext Nat)} {fd : Int}
    {f : ShmContext Nat → ShmContext Nat} (hfds : cs.Pairwise (·.fd ≠ ·.fd)) :
    updateContext fd f cs = cs.map fun c => if c.fd = fd then f c else c := by
  induction cs with
  | nil => rfl
  | cons c cs ih =>
    obtain ⟨hc, hcs⟩ := List.pairwise_cons.mp hfds
    rw [updateContext, List.map_cons]
    split_ifs with hfd
    · subst hfd
      have hrest : cs.map (fun d => if d.fd = c.fd then f d else d) = cs := by
        refine (List.map_congr_left fun d hd => ?_).trans (List.map_id' _)
        rw [if_neg (hc d hd).symm]
      rw [hrest]
    · rw [ih hcs]

theorem fds_finalizeContext {cs : List (ShmContext Nat)} {fd : Int}
    (hfds : cs.Pairwise (·.fd ≠ ·.fd)) : (finalizeContext fd cs).Pairwise (·.fd ≠ ·.fd) := by
  refine hfds.sublist ?_
  induction cs with
  | nil => exact List.Sublist.refl _
  | cons c cs ih =>
    rw [finalizeContext]
    split_ifs
    · exact List.sublist_cons_self c cs
    · exact (ih (List.pairwise_cons.mp hfds).2).cons_cons c

theorem fds_updateContext {cs : List (ShmContext Nat)} {fd : Int}
    {g : ShmContext Nat → ShmTable Nat} (hfds : cs.Pairwise (·.fd ≠ ·.fd)) :
    (updateContext fd (fun c => { c with shm := g c }) cs).Pairwise (·.fd ≠ ·.fd) := by
  rw [updateContext_eq_map hfds, List.pairwise_map]
  refine hfds.imp fun {c d} hne => ?_
  split_ifs <;> exact hne

theorem ShmRun.Inv.fds_exec (h : r.Inv) {c : CallerCall Nat} (hfresh : r.Fresh c) :
    (r.exec c).contexts.Pairwise (·.fd ≠ ·.fd) := by
  cases c with
  | initializeContext fd callFromService =>
    refine List.pairwise_append.mpr ⟨h.fds, List.pairwise_singleton _ _, fun c hc d hd => ?_⟩
    rw [List.mem_singleton.mp hd]
    rintro rfl
    exact hfresh (List.mem_map_of_mem hc)
  | allocateSharedMemory fd out sharedMem shm => exact fds_updateContext h.fds
  | registerSharedMemory fd mallocInner sharedMem shm => exact fds_updateContext h.fds
  | releaseSharedMemory sharedMem =>
    rw [exec, release]
    cases (r.structures sharedMem).context with
    | none => exact h.fds
    | some fd => exact fds_updateContext h.fds
  | finalizeContext fd => exact fds_finalizeContext h.fds

theorem ShmRun.Inv.tables_exec (h : r.Inv) (c : CallerCall Nat) :
    ∀ d ∈ (r.exec c).contexts, d.shm.Inv := by
  cases c with
  | releaseSharedMemory sharedMem =>
    rw [exec, release]
    cases (r.structures sharedMem).context with
    | none => exact h.tables
    | some fd =>
      exact inv_runShmCall h.tables (.releaseSharedMemory fd (r.structures sharedMem).args)
  | initializeContext fd callFromService =>
    exact inv_runShmCall h.tables (.initializeContext fd callFromService)
  | allocateSharedMemory fd out sharedMem shm =>
    exact inv_runShmCall h.tables (.allocateSharedMemory fd out shm)
  | registerSharedMemory fd mallocInner sharedMem shm =>
    exact inv_runShmCall h.tables (.registerSharedMemory fd mallocInner shm)
  | finalizeContext fd => exact inv_runShmCall h.tables (.finalizeContext fd)

def Names (r : ShmRun Nat) : Prop :=
  ∀ s x, r.made s = some x → (r.structures s).context = some x.1

theorem names_fill (h : Names r) {fd : Int} {sharedMem : Nat} {shm : ShmArgs Nat}
    {contexts : List (ShmContext Nat)} : Names (r.fill fd sharedMem shm contexts) := by
  intro s x hmade
  by_cases hs : s = sharedMem
  · subst hs
    simp only [fill, Function.update_self, Option.map_eq_some_iff] at hmade ⊢
    obtain ⟨b, -, rfl⟩ := hmade
    rfl
  · simp only [fill, Function.update_of_ne hs] at hmade ⊢
    exact h s x hmade

theorem names_exec (h : Names r) (c : CallerCall Nat) : Names (r.exec c) := by
  cases c with
  | initializeContext fd callFromService => exact h
  | allocateSharedMemory fd out sharedMem shm => exact names_fill h
  | registerSharedMemory fd mallocInner sharedMem shm => exact names_fill h
  | releaseSharedMemory sharedMem =>
    rw [exec, release]
    cases (r.structures sharedMem).context with
    | none => exact h
    | some fd =>
      intro s x hmade
      by_cases hs : s = sharedMem
      · subst hs
        simp at hmade
      · simp only [Function.update_of_ne hs] at hmade ⊢
        exact h s x hmade
  | finalizeContext fd => exact h

theorem ShmRun.Inv.call (h : r.Inv) {c : CallerCall Nat} (hfresh : r.Fresh c) :
    (r.call c).Inv := by
  refine ⟨h.fds_exec hfresh, h.tables_exec c, fun s fd id hmade => ?_⟩
  obtain ⟨hmade, hlive⟩ := Option.filter_eq_some_iff.mp hmade
  obtain ⟨d, hd, hlive⟩ := List.any_eq_true.mp hlive
  obtain ⟨hfd, hblock⟩ := Bool.and_eq_true_iff.mp hlive
  obtain ⟨b, hb, hid⟩ := List.any_eq_true.mp hblock
  refine ⟨names_exec (fun s x hx => (h.made s x.1 x.2 hx).1) c s _ hmade, d, hd, ?_, b, hb, ?_⟩
  · exact of_decide_eq_true hfd
  · exact of_decide_eq_true hid

theorem contexts_release (h : r.Inv) (sharedMem : Nat) :
    (r.call (.releaseSharedMemory sharedMem)).contexts = r.contexts.map fun c =>
      if (r.structures sharedMem).context = some c.fd then
        { c with
          shm := teecReleaseSharedMemory c.callFromService (r.structures sharedMem).args c.shm }
      else c := by
  simp only [ShmRun.call, exec, release]
  cases hctx : (r.structures sharedMem).context with
  | none => simp
  | some fd =>
    simp only [runShmCall, updateContext_eq_map h.fds, Option.some.injEq, eq_comm]

theorem clearsOwn_iff (h : r.Inv) (sharedMem : Nat) :
    ClearsOwn r sharedMem ↔ r.Aimed (.releaseSharedMemory sharedMem) := by
  rw [ClearsOwn, contexts_release h, List.forall₂_map_right_iff, List.forall₂_same, Aimed]
  refine forall₂_congr fun c hc => ?_
  by_cases hctx : (r.structures sharedMem).context = some c.fd
  · rw [if_pos hctx, and_iff_right rfl, freed_release_iff (h.tables c hc)]
    · cases hmade : r.made sharedMem with
      | none => simp [hctx]
      | some x =>
        obtain ⟨fd, id⟩ := x
        obtain rfl : c.fd = fd := Option.some.inj (hctx.symm.trans (h.made _ _ _ hmade).1)
        simp [hctx]
    · intro id hid
      obtain ⟨x, hmade, hx⟩ := Option.bind_eq_some_iff.mp hid
      split_ifs at hx with hfd
      obtain rfl := Option.some.inj hx
      obtain ⟨-, d, hd, hdfd, b, hb, hbid⟩ := h.made sharedMem x.1 x.2 hmade
      obtain rfl : d = c :=
        List.inj_on_of_nodup_map (List.pairwise_map.mpr h.fds) hd hc (hdfd.trans hfd)
      exact ⟨b, hb, hbid⟩
  · rw [if_neg hctx]
    refine iff_of_true ⟨rfl, ?_⟩ fun hthis => absurd hthis hctx
    cases hmade : r.made sharedMem with
    | none => exact freed_none
    | some x =>
      have hother : x.1 ≠ c.fd := fun hfd => hctx (hfd ▸ (h.made sharedMem x.1 x.2 hmade).1)
      simp only [Option.bind_some, if_neg hother]
      exact freed_none

theorem exactStep_iff (h : r.Inv) {call : CallerCall Nat} (hfresh : r.Fresh call) :
    ExactStep r call ↔ r.Aimed call := by
  have hexact : ∀ c ∈ (r.call call).contexts, BitmapExact c :=
    fun c hc => ((h.call hfresh).tables c hc).bitmapExact
  cases call with
  | releaseSharedMemory sharedMem =>
    rw [← clearsOwn_iff h]
    refine ⟨fun hstep => hstep.2 sharedMem rfl, fun hclears => ⟨hexact, fun s hs => ?_⟩⟩
    obtain rfl := CallerCall.releaseSharedMemory.inj hs
    exact hclears
  | _ => exact iff_of_true ⟨hexact, by simp⟩ trivial

theorem exactStep_along_iff (h : r.Inv) {calls : List (CallerCall Nat)}
    (hfresh : Along Fresh r calls) : Along ExactStep r calls ↔ Along Aimed r calls := by
  induction calls generalizing r with
  | nil => rfl
  | cons call calls ih =>
    exact and_congr (exactStep_iff h hfresh.1) (ih (h.call hfresh.1) hfresh.2)

/-- The bitmaps are exact in every run, and its releases clear the bits of their own blocks exactly
if each of them finds its own block first. -/
theorem bitmapExact_runs_iff (calls : List (CallerCall Nat)) (hfresh : Along Fresh .start calls) :
    Along ExactStep .start calls ↔ Along Aimed .start calls :=
  exactStep_along_iff ShmRun.inv_start hfresh

def sample (buffer : Nat) (size : U32) : ShmArgs Nat where
  buffer
  size
  flags := memInout
  isAllocated := false
  offset := 0

def mapped (buffer : Nat) (h : buffer ≠ 0) : AllocOutcome Nat where
  mallocInner := true
  buffer := some ⟨buffer, h⟩
  memset := true

/-- A mapping, one that fails, a block without bytes and a registered buffer, released in another
order; the failed structure is released, too. -/
def sampleCalls : List (CallerCall Nat) :=
  [.initializeContext 5 false, .allocateSharedMemory 5 (mapped 0x7000 (by decide)) 0 (sample 0 4096),
    .allocateSharedMemory 5 { mapped 0x8000 (by decide) with buffer := none } 1 (sample 0 4096),
    .allocateSharedMemory 5 (mapped 0x8000 (by decide)) 2 (sample 0 0),
    .registerSharedMemory 5 true 3 (sample 0x9000 64), .releaseSharedMemory 0,
    .releaseSharedMemory 1, .initializeContext 6 true,
    .allocateSharedMemory 6 (mapped 0x8000 (by decide)) 0 (sample 0 0), .releaseSharedMemory 3,
    .releaseSharedMemory 2, .finalizeContext 6]

theorem bitmapExact_sample : Along Fresh .start sampleCalls ∧ Along ExactStep .start sampleCalls := by
  have hfresh : Along Fresh .start sampleCalls := by decide
  exact ⟨hfresh, (bitmapExact_runs_iff sampleCalls hfresh).mpr (by decide)⟩

def sameAddress : List (CallerCall Nat) :=
  [.initializeContext 5 false, .allocateSharedMemory 5 (mapped 0x7000 (by decide)) 0 (sample 0 0),
    .allocateSharedMemory 5 (mapped 0x8000 (by decide)) 1 (sample 0 0), .releaseSharedMemory 1]

theorem not_bitmapExact_sameAddress : ¬ ∀ calls : List (CallerCall Nat),
    Along Fresh .start calls → Along ExactStep .start calls := by
  intro hall
  have hfresh : Along Fresh .start sameAddress := by decide
  have haimed := (exactStep_along_iff ShmRun.inv_start hfresh).mp (hall sameAddress hfresh)
  exact absurd haimed (by decide)

end Runs

end TeeClient.Vendor
