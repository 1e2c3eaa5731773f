import Mathlib.Tactic
import TeeClient.Correspondence
import TeeClient.Vendor.SharedMemoryLaws

/-! Every call keeps the entries of `mShareMem` and the allocated blocks of `cadaemon` one for
one, as long as nothing misleads a search. -/

namespace TeeClient.Correspondence

open Vendor Client Joint

section Blocks

variable {cs cs' l r : List (ShmContext Nat)} {c : ShmContext Nat} {fd : Int}
  {b : SharedMemoryInner Nat}

@[simp] theorem liveBlocks_append : liveBlocks (l ++ r) = liveBlocks l ++ liveBlocks r :=
  List.flatMap_append

@[simp] theorem liveBlocks_cons :
    liveBlocks (c :: cs) = c.shm.shrdMemList.map (c.fd, ·) ++ liveBlocks cs :=
  List.flatMap_cons

theorem mem_liveBlocks {x : Int × SharedMemoryInner Nat} :
    x ∈ liveBlocks cs ↔ ∃ c ∈ cs, c.fd = x.1 ∧ x.2 ∈ c.shm.shrdMemList := by
  obtain ⟨fd, b⟩ := x
  simp [liveBlocks, and_comm]

structure ContextsOk (cs : List (ShmContext Nat)) : Prop where
  fds : (cs.map (·.fd)).Nodup
  opened : ∀ c ∈ cs, 0 ≤ c.fd
  service : ∀ c ∈ cs, c.callFromService = true
  tables : ∀ c ∈ cs, c.shm.Inv
  registered : ∀ c ∈ cs, ∀ b ∈ c.shm.blocks, b.isAllocated = false → b.offset = uint32Max
  buffers : ∀ c ∈ cs, ∀ b ∈ c.shm.blocks, ∀ d ∈ c.shm.blocks,
    b.isAllocated = false → d.isAllocated = false → b.buffer = d.buffer → b = d

theorem getBnContext_cases (fd : Int) (cs : List (ShmContext Nat)) :
    getBnContext fd cs = none ∧ (0 ≤ fd → fd ∉ cs.map (·.fd)) ∨
      ∃ l c r, cs = l ++ c :: r ∧ c.fd = fd ∧ getBnContext fd cs = some c ∧
        (∀ f, updateContext fd f cs = l ++ f c :: r) ∧ Vendor.finalizeContext fd cs = l ++ r := by
  by_cases hneg : fd < 0
  · exact .inl ⟨if_pos hneg, fun h => absurd hneg (not_lt.mpr h)⟩
  have hget : getBnContext fd cs = cs.find? (·.fd = fd) := if_neg hneg
  rw [hget]
  clear hget
  induction cs with
  | nil => exact .inl ⟨rfl, fun _ => List.not_mem_nil⟩
  | cons d cs ih =>
    by_cases hd : d.fd = fd
    · refine .inr ⟨[], d, cs, rfl, hd, by simp [hd], fun f => ?_, ?_⟩
      · simp [updateContext, hd]
      · simp [Vendor.finalizeContext, hd]
    · rcases ih with ⟨hnone, hfd⟩ | ⟨l, c, r, rfl, hc, hget, hupd, hfin⟩
      · refine .inl ⟨by simpa [hd] using hnone, fun h hmem => ?_⟩
        rcases List.mem_cons.mp hmem with hmem | hmem
        · exact hd hmem.symm
        · exact hfd h hmem
      · refine .inr ⟨d :: l, c, r, rfl, hc, ?_, fun f => ?_, ?_⟩
        · simpa [hd] using hget
        · simp [updateContext, hd, hupd]
        · simp [Vendor.finalizeContext, hd, hfin]

theorem mem_liveBlocks_of_ok (hok : ContextsOk cs) {x : Int × SharedMemoryInner Nat} :
    x ∈ liveBlocks cs ↔ ∃ c ∈ cs, c.fd = x.1 ∧ x.2 ∈ c.shm.blocks := by
  rw [mem_liveBlocks]
  refine exists_congr fun c => and_congr_right fun hc => ?_
  rw [(hok.tables c hc).shrdMemList]

theorem ContextsOk.eq_of_fd (hok : ContextsOk cs) {d : ShmContext Nat} (hc : c ∈ cs) (hd : d ∈ cs)
    (h : c.fd = d.fd) : c = d := List.inj_on_of_nodup_map hok.fds hc hd h

theorem ContextsOk.replace {t : ShmTable Nat} (hok : ContextsOk (l ++ c :: r)) (ht : t.Inv)
    (hoff : ∀ b ∈ t.blocks, b.isAllocated = false → b.offset = uint32Max)
    (hbuf : ∀ b ∈ t.blocks, ∀ d ∈ t.blocks,
      b.isAllocated = false → d.isAllocated = false → b.buffer = d.buffer → b = d) :
    ContextsOk (l ++ { c with shm := t } :: r) := by
  have hc : c ∈ l ++ c :: r := by simp
  have hmem {d : ShmContext Nat} (hd : d ∈ l ++ { c with shm := t } :: r) :
      d = { c with shm := t } ∨ d ∈ l ++ c :: r := by
    rw [List.mem_append, List.mem_cons] at hd ⊢
    tauto
  refine ⟨by simpa using hok.fds, fun d hd => ?_, fun d hd => ?_, fun d hd => ?_, fun d hd => ?_,
    fun d hd => ?_⟩
  · rcases hmem hd with rfl | hd
    · exact hok.opened c hc
    · exact hok.opened d hd
  · rcases hmem hd with rfl | hd
    · exact hok.service c hc
    · exact hok.service d hd
  · rcases hmem hd with rfl | hd
    · exact ht
    · exact hok.tables d hd
  · rcases hmem hd with rfl | hd
    · exact hoff
    · exact hok.registered d hd
  · rcases hmem hd with rfl | hd
    · exact hbuf
    · exact hok.buffers d hd

structure Grown (cs cs' : List (ShmContext Nat)) (fd : Int) (b : SharedMemoryInner Nat) : Prop where
  ok : ContextsOk cs'
  perm : (liveBlocks cs').Perm ((fd, b) :: liveBlocks cs)
  fresh : (fd, b) ∉ liveBlocks cs

theorem Grown.created (h : Grown cs cs' fd b) : Run.created cs cs' = some (fd, b) := by
  have hmem {x : Int × SharedMemoryInner Nat} (hx : x ∈ liveBlocks cs') (hnew : x ∉ liveBlocks cs) :
      x = (fd, b) := by
    rcases List.mem_cons.mp (h.perm.mem_iff.mp hx) with rfl | hx
    · rfl
    · exact absurd hx hnew
  cases hfind : Run.created cs cs' with
  | none =>
    have hall := List.find?_eq_none.mp hfind (fd, b) (h.perm.mem_iff.mpr List.mem_cons_self)
    exact absurd (decide_eq_true h.fresh) hall
  | some x =>
    have hnew := List.find?_some hfind
    rw [hmem (List.mem_of_find?_eq_some hfind) (of_decide_eq_true hnew)]

theorem created_self : Run.created cs cs = none :=
  List.find?_eq_none.mpr fun x hx => by simpa using hx

theorem grown_insert {t : ShmTable Nat} (hok : ContextsOk (l ++ c :: r)) (ht : t.Inv)
    (hblocks : t.blocks = c.shm.blocks ++ [b]) (hid : ∀ d ∈ c.shm.blocks, d.id ≠ b.id)
    (hreg : b.isAllocated = false → b.offset = uint32Max ∧
      ∀ d ∈ c.shm.blocks, d.isAllocated = false → d.buffer ≠ b.buffer) :
    Grown (l ++ c :: r) (l ++ { c with shm := t } :: r) c.fd b := by
  have hc : c ∈ l ++ c :: r := by simp
  have hmem {d : SharedMemoryInner Nat} : d ∈ t.blocks ↔ d ∈ c.shm.blocks ∨ d = b := by
    rw [hblocks, List.mem_append, List.mem_singleton]
  refine ⟨hok.replace ht (fun d hd hda => ?_) (fun d hd e he hda hea heq => ?_), ?_, fun hold => ?_⟩
  · rcases hmem.mp hd with hd | rfl
    · exact hok.registered c hc d hd hda
    · exact (hreg hda).1
  · rcases hmem.mp hd with hd | rfl <;> rcases hmem.mp he with he | rfl
    · exact hok.buffers c hc d hd e he hda hea heq
    · exact absurd heq ((hreg hea).2 d hd hda)
    · exact absurd heq.symm ((hreg hda).2 e he hea)
    · rfl
  · simp only [liveBlocks_append, liveBlocks_cons, ht.shrdMemList, (hok.tables c hc).shrdMemList,
      hblocks, List.map_append, List.map_cons, List.map_nil, List.append_assoc]
    have hmid : [(c.fd, b)] ++ liveBlocks r = (c.fd, b) :: liveBlocks r := rfl
    rw [hmid, ← List.append_assoc, ← List.append_assoc]
    exact List.perm_middle
  · obtain ⟨d, hd, hfd, hb⟩ := (mem_liveBlocks_of_ok hok).mp hold
    obtain rfl := hok.eq_of_fd hd hc hfd
    exact hid b hb rfl

theorem shmReply_append {t : ShmTable Nat} {bs : List (SharedMemoryInner Nat)}
    (ht : t.blocks = bs ++ [b]) (hid : ∀ d ∈ bs, d.id ≠ b.id) :
    shmReply b.id t =
      .ok { opsCnt := BitVec.ofNat 32 b.opsCnt, isAllocated := b.isAllocated,
            offset := b.offset } := by
  have hnone : bs.find? (·.id = b.id) = none := by simpa using hid
  simp [shmReply, ht, List.find?_append, hnone]

theorem serveAllocate_cases (hok : ContextsOk cs) (out : AllocOutcome Nat) (fd : Int)
    (sharedMem : ShmArgs Nat) :
    (∃ ret, serveAllocate out fd sharedMem cs = (.error ret, cs)) ∨
      ∃ b reply cs', serveAllocate out fd sharedMem cs = (.ok reply, cs') ∧ Grown cs cs' fd b ∧
        b.isAllocated = true ∧ b.size = sharedMem.size ∧ reply.offset = b.offset ∧
        reply.isAllocated = true := by
  rcases getBnContext_cases fd cs with ⟨hnone, -⟩ | ⟨l, c, r, rfl, rfl, hget, hupd, -⟩
  · exact .inl ⟨.fail, by rw [serveAllocate, hnone]⟩
  have ht := hok.tables c (by simp)
  have hid d (hd : d ∈ c.shm.blocks) : d.id ≠ c.shm.nextId := (ht.fresh d hd).ne
  by_cases hmalloc : out.mallocInner = true
  case neg => exact .inl ⟨.fail, by simp [serveAllocate, hget, hmalloc]⟩
  rcases teecAllocateSharedMemoryInner_cases ht out sharedMem with
    ⟨e, he, heq⟩ | ⟨v, p, hv, hp, hclear, heq⟩
  · refine .inl ⟨e, ?_⟩
    simp only [serveAllocate, hget, hmalloc, if_true, heq, hupd]
  · have hnonzero : ({ sharedMem with buffer := p } : ShmArgs Nat).buffer ≠ 0 := hp
    have hinv := inv_insert_setBit ht hv hnonzero hclear
    have hblocks := congrArg ShmTable.blocks (putBnShrMem_insert ht { sharedMem with buffer := p }
      true (BitVec.ofNat 32 v) (setBit v c.shm.bitmap))
    refine .inr ⟨_, ⟨2, true, BitVec.ofNat 32 v⟩, _, ?_, grown_insert hok hinv hblocks hid nofun,
      rfl, rfl, rfl, rfl⟩
    have hreply := shmReply_append (t := { c.shm with bitmap := setBit v c.shm.bitmap }.insert
      { sharedMem with buffer := p } true (BitVec.ofNat 32 v)) rfl hid
    simp only [serveAllocate, hget, hmalloc, if_true, heq, hupd]
    rw [hreply]
    rfl

theorem serveRegister_cases (hok : ContextsOk cs) (mallocInner : Bool) (fd : Int)
    (sharedMem : ShmArgs Nat) (hdistinct : ∀ b ∈ liveBlocks cs, b.1 = fd →
      b.2.isAllocated = false → b.2.buffer ≠ sharedMem.buffer) :
    (∃ ret, serveRegister mallocInner fd sharedMem cs = (.error ret, cs)) ∨
      ∃ b reply cs', serveRegister mallocInner fd sharedMem cs = (.ok reply, cs') ∧
        Grown cs cs' fd b ∧ b.isAllocated = false ∧ b.buffer = sharedMem.buffer ∧
        reply.isAllocated = false := by
  rcases getBnContext_cases fd cs with ⟨hnone, -⟩ | ⟨l, c, r, rfl, rfl, hget, hupd, -⟩
  · exact .inl ⟨.fail, by rw [serveRegister, hnone]⟩
  have hc : c ∈ l ++ c :: r := by simp
  have ht := hok.tables c hc
  have hid d (hd : d ∈ c.shm.blocks) : d.id ≠ c.shm.nextId := (ht.fresh d hd).ne
  by_cases hmalloc : mallocInner = true
  case neg => exact .inl ⟨.fail, by simp [serveRegister, hget, hmalloc]⟩
  by_cases hbad : sharedMem.buffer = 0 ∨ sharedMemoryFlags sharedMem.flags = false
  · refine .inl ⟨.errorBadParameters, ?_⟩
    simp only [serveRegister, hget, hmalloc, if_true, teecRegisterSharedMemoryInner, if_pos hbad,
      hupd]
  · have hinv := inv_teecRegisterSharedMemory ht true sharedMem
    simp only [teecRegisterSharedMemory, teecRegisterSharedMemoryInner, if_true,
      if_neg hbad] at hinv
    have hput := putBnShrMem_insert ht sharedMem false uint32Max c.shm.bitmap
    have hblocks := congrArg ShmTable.blocks hput
    refine .inr ⟨_, ⟨1, false, uint32Max⟩, _, ?_, grown_insert hok hinv hblocks hid fun _ => ⟨rfl,
      fun d hd => ?_⟩, rfl, rfl, rfl⟩
    · have hreply := shmReply_append (t := putBnShrMem c.shm.nextId
        (c.shm.insert sharedMem false uint32Max)) hblocks hid
      simp only [serveRegister, hget, hmalloc, if_true, teecRegisterSharedMemoryInner, if_neg hbad,
        hupd]
      rw [hreply]
      rfl
    · exact hdistinct (c.fd, d) ((mem_liveBlocks_of_ok hok).mpr ⟨c, hc, rfl, hd⟩) rfl

theorem fd_ne_of_ok (hok : ContextsOk (l ++ c :: r)) {d : ShmContext Nat} (hd : d ∈ l ++ r) :
    d.fd ≠ c.fd := by
  have hnodup : ((l ++ c :: r).map (·.fd)).Nodup := hok.fds
  have hperm : ((l ++ c :: r).map (·.fd)).Perm ((c :: (l ++ r)).map (·.fd)) :=
    List.perm_middle.map _
  rw [hperm.nodup_iff, List.map_cons, List.nodup_cons] at hnodup
  exact fun heq => hnodup.1 (heq ▸ List.mem_map_of_mem hd)

theorem fst_ne_of_mem_liveBlocks (h : ∀ d ∈ l, d.fd ≠ fd) {x : Int × SharedMemoryInner Nat}
    (hx : x ∈ liveBlocks l) : x.1 ≠ fd := by
  obtain ⟨d, hd, hfd, -⟩ := mem_liveBlocks.mp hx
  exact hfd ▸ h d hd

theorem find?_liveBlocks (hok : ContextsOk (l ++ c :: r)) (p : SharedMemoryInner Nat → Bool) :
    (liveBlocks (l ++ c :: r)).find? (fun d => d.1 = c.fd ∧ p d.2) =
      (c.shm.blocks.find? p).map (c.fd, ·) := by
  have hother {m : List (ShmContext Nat)} (hm : ∀ d ∈ m, d ∈ l ++ r) :
      (liveBlocks m).find? (fun d => d.1 = c.fd ∧ p d.2) = none := by
    rw [List.find?_eq_none]
    intro x hx hp
    have hne := fst_ne_of_mem_liveBlocks (fun d hd => fd_ne_of_ok hok (hm d hd)) hx
    exact hne (of_decide_eq_true hp).1
  have hl := hother (m := l) fun d hd => List.mem_append_left _ hd
  have hr := hother (m := r) fun d hd => List.mem_append_right _ hd
  rw [liveBlocks_append, liveBlocks_cons, List.find?_append, List.find?_append, hl, hr,
    (hok.tables c (by simp)).shrdMemList, List.find?_map]
  simp

theorem serveRelease_spec (hok : ContextsOk cs) (fd : Int) (sharedMem : ShmArgs Nat) :
    ContextsOk (serveRelease fd sharedMem cs) ∧
      liveBlocks (serveRelease fd sharedMem cs) = (liveBlocks cs).filter fun b =>
        (liveBlocks cs).find? (fun d => d.1 = fd ∧ matchesArgs true sharedMem d.2) ≠ some b := by
  rcases getBnContext_cases fd cs with ⟨hnone, hfd⟩ | ⟨l, c, r, rfl, rfl, hget, hupd, -⟩
  · have hserve : serveRelease fd sharedMem cs = cs := by rw [serveRelease, hnone]
    have hfind : (liveBlocks cs).find? (fun d => d.1 = fd ∧ matchesArgs true sharedMem d.2) =
        none := by
      rw [List.find?_eq_none]
      intro x hx hp
      obtain ⟨d, hd, hdfd, -⟩ := mem_liveBlocks.mp hx
      have hfdx : d.fd = fd := hdfd.trans (of_decide_eq_true hp).1
      exact hfd (hfdx ▸ hok.opened d hd) (hfdx ▸ List.mem_map_of_mem hd)
    rw [hserve, hfind]
    exact ⟨hok, by simp⟩
  have hc : c ∈ l ++ c :: r := by simp
  have ht := hok.tables c hc
  have hserve : serveRelease c.fd sharedMem (l ++ c :: r) = l ++ { c with
      shm := (c.shm.blocks.find? (matchesArgs true sharedMem)).elim c.shm
        (releaseSharedMemory · c.shm) } :: r := by
    simp only [serveRelease, hget, hupd, hok.service c hc, teecReleaseSharedMemoryInner_eq ht]
  rw [hserve, find?_liveBlocks hok]
  cases hfind : c.shm.blocks.find? (matchesArgs true sharedMem) with
  | none => exact ⟨hok, by simp⟩
  | some b =>
    have hb : b ∈ c.shm.blocks := List.mem_of_find?_eq_some hfind
    have hinv := inv_releaseSharedMemory ht hb
    have hsub : (releaseSharedMemory b c.shm).blocks ⊆ c.shm.blocks := List.filter_sublist.subset
    refine ⟨hok.replace hinv (fun d hd => hok.registered c hc d (hsub hd))
      (fun d hd e he => hok.buffers c hc d (hsub hd) e (hsub he)), ?_⟩
    have hkeep {m : List (ShmContext Nat)} (hm : ∀ d ∈ m, d ∈ l ++ r) :
        (liveBlocks m).filter (fun x => (some b).map (c.fd, ·) ≠ some x) = liveBlocks m := by
      rw [List.filter_eq_self]
      intro x hx
      have hne := fst_ne_of_mem_liveBlocks (fun d hd => fd_ne_of_ok hok (hm d hd)) hx
      rw [decide_eq_true_iff]
      rintro heq
      exact hne (congrArg Prod.fst (Option.some.inj heq)).symm
    have hid (d : SharedMemoryInner Nat) (hd : d ∈ c.shm.blocks) : d.id ≠ b.id ↔ d ≠ b := by
      refine ⟨fun h heq => h (heq ▸ rfl), fun h heq => h ?_⟩
      have hone := ShmTable.find?_id ht.ids hd
      rw [heq, ShmTable.find?_id ht.ids hb] at hone
      exact (Option.some.inj hone).symm
    rw [liveBlocks_append, liveBlocks_append, liveBlocks_cons, liveBlocks_cons, List.filter_append,
      List.filter_append, hkeep fun d hd => List.mem_append_left _ hd,
      hkeep fun d hd => List.mem_append_right _ hd, ht.shrdMemList, List.filter_map]
    congr 2
    have hlist : (releaseSharedMemory b c.shm).shrdMemList = c.shm.blocks.filter (·.id ≠ b.id) :=
      hinv.shrdMemList
    simp only [Option.elim_some, hlist]
    congr 1
    refine List.filter_congr fun d hd => ?_
    simp [hid d hd, eq_comm]

theorem serveFinalize_spec (hok : ContextsOk cs) (fd : Int) :
    ContextsOk (serveFinalize fd cs) ∧
      liveBlocks (serveFinalize fd cs) = (liveBlocks cs).filter (·.1 ≠ fd) := by
  rcases getBnContext_cases fd cs with ⟨hnone, hfd⟩ | ⟨l, c, r, rfl, rfl, hget, -, hfin⟩
  · have hserve : serveFinalize fd cs = cs := by rw [serveFinalize, hnone]
    rw [hserve]
    refine ⟨hok, (List.filter_eq_self.mpr fun x hx => ?_).symm⟩
    obtain ⟨d, hd, hdfd, -⟩ := mem_liveBlocks.mp hx
    rw [decide_eq_true_iff]
    rintro rfl
    exact hfd (hdfd ▸ hok.opened d hd) (hdfd ▸ List.mem_map_of_mem hd)
  · have hserve : serveFinalize c.fd (l ++ c :: r) = l ++ r := by
      simp only [serveFinalize, hget, hfin]
    have hsub : (l ++ r).Sublist (l ++ c :: r) :=
      (List.sublist_cons_self c r).append_left l
    rw [hserve]
    refine ⟨⟨hok.fds.sublist (hsub.map _), fun d hd => hok.opened d (hsub.subset hd),
      fun d hd => hok.service d (hsub.subset hd), fun d hd => hok.tables d (hsub.subset hd),
      fun d hd => hok.registered d (hsub.subset hd),
      fun d hd => hok.buffers d (hsub.subset hd)⟩, ?_⟩
    have hkeep {m : List (ShmContext Nat)} (hm : ∀ d ∈ m, d ∈ l ++ r) :
        (liveBlocks m).filter (·.1 ≠ c.fd) = liveBlocks m := by
      rw [List.filter_eq_self]
      intro x hx
      rw [decide_eq_true_iff]
      exact fst_ne_of_mem_liveBlocks (fun d hd => fd_ne_of_ok hok (hm d hd)) hx
    have hgone : (c.shm.shrdMemList.map (c.fd, ·)).filter (·.1 ≠ c.fd) = [] := by
      simp [List.filter_eq_nil_iff]
    rw [liveBlocks_append, liveBlocks_append, liveBlocks_cons, List.filter_append,
      List.filter_append, hkeep fun d hd => List.mem_append_left _ hd,
      hkeep fun d hd => List.mem_append_right _ hd, hgone, List.nil_append]

end Blocks

section Keys

variable {cs : List (ShmContext Nat)}

theorem find?_eq_some_of_unique {α : Type} {l : List α} {p : α → Bool} {x : α} (hx : x ∈ l)
    (hp : p x = true) (h : ∀ y ∈ l, p y = true → y = x) : l.find? p = some x := by
  cases hfind : l.find? p with
  | none => exact absurd hp (List.find?_eq_none.mp hfind x hx)
  | some y => rw [h y (List.mem_of_find?_eq_some hfind) (List.find?_some hfind)]

theorem nodup_liveBlocks (hok : ContextsOk cs) : (liveBlocks cs).Nodup := by
  rw [liveBlocks, List.nodup_flatMap]
  refine ⟨fun c hc => ?_, ?_⟩
  · have ht := hok.tables c hc
    rw [ht.shrdMemList]
    refine List.Nodup.map (Prod.mk_right_injective c.fd) ?_
    exact ht.ids.imp fun hid heq => hid (congrArg SharedMemoryInner.id heq)
  · have hfds := List.pairwise_map.mp hok.fds
    refine hfds.imp fun hne x hx hy => ?_
    obtain ⟨b, -, rfl⟩ := List.mem_map.mp hx
    obtain ⟨d, -, heq⟩ := List.mem_map.mp hy
    exact hne (congrArg Prod.fst heq).symm

theorem offset_ne_of_isAllocated (hok : ContextsOk cs) {x : Int × SharedMemoryInner Nat}
    (hx : x ∈ liveBlocks cs) (halloc : x.2.isAllocated = true) : x.2.offset ≠ uint32Max := by
  obtain ⟨c, hc, -, hb⟩ := (mem_liveBlocks_of_ok hok).mp hx
  intro heq
  have ht := hok.tables c hc
  have hbit := (ht.bits x.2.offset.toNat).mpr ⟨x.2, hb, halloc, rfl⟩
  have hlen : c.shm.bitmap[x.2.offset.toNat / 8]? = none := by
    rw [List.getElem?_eq_none_iff, ht.length, heq]
    decide
  rw [checkBit_eq, hlen] at hbit
  cases hbit

theorem eq_of_key (hok : ContextsOk cs) {x y : Int × SharedMemoryInner Nat}
    (hx : x ∈ liveBlocks cs) (hy : y ∈ liveBlocks cs) (hxa : x.2.isAllocated = true)
    (hfd : y.1 = x.1) (hoff : y.2.offset = x.2.offset) : y = x := by
  obtain ⟨c, hc, hcfd, hb⟩ := (mem_liveBlocks_of_ok hok).mp hx
  obtain ⟨d, hd, hdfd, hb'⟩ := (mem_liveBlocks_of_ok hok).mp hy
  obtain rfl := hok.eq_of_fd hd hc (hdfd.trans (hfd.trans hcfd.symm))
  have hya : y.2.isAllocated = true := by
    by_contra hreg
    rw [Bool.not_eq_true] at hreg
    rw [hok.registered d hd y.2 hb' hreg] at hoff
    exact offset_ne_of_isAllocated hok hx hxa hoff.symm
  exact Prod.ext hfd ((hok.tables d hd).offsets y.2 hb' x.2 hb hya hxa hoff)

theorem eq_of_buffer (hok : ContextsOk cs) {x y : Int × SharedMemoryInner Nat}
    (hx : x ∈ liveBlocks cs) (hy : y ∈ liveBlocks cs) (hxr : x.2.isAllocated = false)
    (hyr : y.2.isAllocated = false) (hfd : y.1 = x.1) (hbuf : y.2.buffer = x.2.buffer) : y = x := by
  obtain ⟨c, hc, hcfd, hb⟩ := (mem_liveBlocks_of_ok hok).mp hx
  obtain ⟨d, hd, hdfd, hb'⟩ := (mem_liveBlocks_of_ok hok).mp hy
  obtain rfl := hok.eq_of_fd hd hc (hdfd.trans (hfd.trans hcfd.symm))
  exact Prod.ext hfd (hok.buffers d hd y.2 hb' x.2 hb hyr hxr hbuf)

end Keys

section Invariant

def entryFor (fd : Int) (b : SharedMemoryInner Nat) (buffer : Nat) : ShareMem :=
  { offset := b.offset, buffer, size := b.size, fd }

structure Owns (ca : Ca) (shm : Nat) (fd : Int) (b : SharedMemoryInner Nat) : Prop where
  context : ∃ context, (ca.sharedMem shm).context = some context ∧ ca.contextFd context = fd
  isAllocated : (ca.sharedMem shm).isAllocated = b.isAllocated
  entry : b.isAllocated = true → entryFor fd b (ca.sharedMem shm).buffer ∈ ca.mShareMem
  buffer : b.isAllocated = false → (ca.sharedMem shm).buffer = b.buffer

structure EntriesOk (mShareMem : List ShareMem) : Prop where
  buffers : ∀ e ∈ mShareMem, e.buffer ≠ 0 ∧ (e.buffer = zeroSizePtr ↔ e.size = 0)
  distinct : ∀ e ∈ mShareMem, ∀ d ∈ mShareMem, e.size ≠ 0 → d.buffer = e.buffer → d = e

structure Inv (r : Run) : Prop where
  contexts : ContextsOk r.joint.contexts
  corresponds : Run.Corresponds r.joint
  entries : EntriesOk r.joint.ca.mShareMem
  made : ∀ shm fd b, r.made shm = some (fd, b) →
    (fd, b) ∈ liveBlocks r.joint.contexts ∧ Owns r.joint.ca shm fd b

theorem EntriesOk.subset {m m' : List ShareMem} (h : EntriesOk m) (hsub : m' ⊆ m) :
    EntriesOk m' where
  buffers e he := h.buffers e (hsub he)
  distinct e he d hd := h.distinct e (hsub he) d (hsub hd)

theorem Inv.entry_unique {r : Run} (h : Inv r) {e d : ShareMem} (he : e ∈ r.joint.ca.mShareMem)
    (hd : d ∈ r.joint.ca.mShareMem) (hfd : d.fd = e.fd) (hoff : d.offset = e.offset) : d = e := by
  have hlive : (((liveBlocks r.joint.contexts).filter (·.2.isAllocated)).map
      fun b => (b.1, b.2.offset)).Nodup := by
    refine ((nodup_liveBlocks h.contexts).filter _).map_on fun x hx y hy heq => ?_
    rw [List.mem_filter] at hx hy
    exact (eq_of_key h.contexts hx.1 hy.1 hx.2 (congrArg Prod.fst heq).symm
      (congrArg Prod.snd heq).symm).symm
  have hnodup := h.corresponds.nodup_iff.mpr hlive
  exact List.inj_on_of_nodup_map hnodup hd he (Prod.ext hfd hoff)

end Invariant

section Release

variable {r : Run} {shm context : Nat}

theorem releaseShareMem_cases (sharedMem : CaSharedMemory) (m : List ShareMem) :
    (sharedMem.isAllocated = false ∧ (releaseShareMem sharedMem m).2 = (sharedMem, m)) ∨
      (sharedMem.isAllocated = true ∧ (releaseShareMem sharedMem m).2.1.isAllocated = true ∧
        (sharedMem.buffer = 0 ∧ (releaseShareMem sharedMem m).1 = uint32Max ∧
            (releaseShareMem sharedMem m).2.2 = m ∨
          sharedMem.buffer ≠ 0 ∧
            (releaseShareMem sharedMem m).1 = findShareMemOffset m sharedMem.buffer ∧
            (releaseShareMem sharedMem m).2.2 = m.eraseP (·.buffer = sharedMem.buffer))) := by
  by_cases hbuf : sharedMem.buffer = 0
  · cases halloc : sharedMem.isAllocated <;> simp [releaseShareMem, hbuf, halloc]
  · cases halloc : sharedMem.isAllocated with
    | false => simp [releaseShareMem, hbuf, halloc]
    | true =>
      refine .inr ⟨rfl, ?_⟩
      by_cases hany : m.any (·.buffer = sharedMem.buffer) = true
      · simp only [releaseShareMem, hbuf, halloc, freeShareMem, hany, ne_eq, not_false_iff, if_true]
        split_ifs <;> simp [halloc]
      · have hself : m.eraseP (·.buffer = sharedMem.buffer) = m := by
          apply List.eraseP_of_forall_not
          simpa using hany
        simp [releaseShareMem, hbuf, halloc, freeShareMem, hany, hself]

theorem found_entry (h : Inv r) (haim : r.Aimed (.releaseSharedMemory shm)) {fd : Int}
    {b : SharedMemoryInner Nat} (hmade : r.made shm = some (fd, b))
    (halloc : b.isAllocated = true) :
    r.joint.ca.mShareMem.find? (·.buffer = (r.joint.ca.sharedMem shm).buffer) =
      some (entryFor fd b (r.joint.ca.sharedMem shm).buffer) := by
  have hentry := (h.made shm fd b hmade).2.entry halloc
  simp only [Run.Aimed, hmade, halloc, if_true] at haim
  cases hfind : r.joint.ca.mShareMem.find? (·.buffer = (r.joint.ca.sharedMem shm).buffer) with
  | none => exact absurd (decide_eq_true rfl) (List.find?_eq_none.mp hfind _ hentry)
  | some e =>
    have he := List.mem_of_find?_eq_some hfind
    have hbuf : e.buffer = (r.joint.ca.sharedMem shm).buffer := by
      simpa using List.find?_some hfind
    by_cases hsize : b.size = 0
    · obtain ⟨hfd, hoff⟩ := haim hsize e hfind
      rw [h.entry_unique hentry he hfd hoff]
    · rw [h.entries.distinct _ hentry e he hsize hbuf]

theorem matchesArgs_registered {sharedMem : SharedMemory Nat} {offset : U32}
    (h : sharedMem.isAllocated = false) (b : SharedMemoryInner Nat) :
    matchesArgs true (shmArgs sharedMem offset) b = decide (b.buffer = sharedMem.buffer) := by
  simp [matchesArgs, shmArgs, h]

theorem matchesArgs_allocated {sharedMem : SharedMemory Nat} {offset : U32}
    (h : sharedMem.isAllocated = true) (b : SharedMemoryInner Nat) :
    matchesArgs true (shmArgs sharedMem offset) b = decide (b.offset = offset) := by
  simp [matchesArgs, shmArgs, h]

/-- The block that the daemon finds is the one that was made for the structure. -/
theorem target_eq (h : Inv r) (haim : r.Aimed (.releaseSharedMemory shm))
    (hctx : (r.joint.ca.sharedMem shm).context = some context) :
    (liveBlocks r.joint.contexts).find? (fun d => d.1 = r.joint.ca.contextFd context ∧
      matchesArgs true (shmArgs
        (releaseShareMem (r.joint.ca.sharedMem shm) r.joint.ca.mShareMem).2.1.toSharedMemory
        (releaseShareMem (r.joint.ca.sharedMem shm) r.joint.ca.mShareMem).1) d.2) = r.made shm := by
  cases hmade : r.made shm with
  | none =>
    rw [List.find?_eq_none]
    intro d hd hp
    obtain ⟨hfd, hp⟩ := of_decide_eq_true hp
    simp only [Run.Aimed, hmade, hctx] at haim
    have hhere : d ∈ (liveBlocks r.joint.contexts).filter
        (·.1 = r.joint.ca.contextFd context) := List.mem_filter.mpr ⟨hd, decide_eq_true hfd⟩
    rcases releaseShareMem_cases (r.joint.ca.sharedMem shm) r.joint.ca.mShareMem with
      ⟨hreg, hout⟩ | ⟨halloc, halloc', hbuf⟩
    · rw [hout, matchesArgs_registered hreg, decide_eq_true_iff] at hp
      simp only [hreg, Bool.false_eq_true, if_false] at haim
      exact haim d hhere hp
    · rw [matchesArgs_allocated halloc', decide_eq_true_iff] at hp
      simp only [halloc, if_true] at haim
      refine offset_ne_of_isAllocated h.contexts hd (haim.2 d hhere) (hp.trans ?_)
      rcases hbuf with ⟨-, hoff, -⟩ | ⟨hne, hoff, -⟩
      · exact hoff
      · rw [hoff, findShareMemOffset, haim.1 hne]
  | some x =>
    obtain ⟨fd, b⟩ := x
    obtain ⟨hlive, howns⟩ := h.made shm fd b hmade
    obtain ⟨_, hctx', hfd⟩ := howns.context
    obtain rfl := Option.some.inj (hctx'.symm.trans hctx)
    rw [hfd]
    rcases releaseShareMem_cases (r.joint.ca.sharedMem shm) r.joint.ca.mShareMem with
      ⟨hreg, hout⟩ | ⟨halloc, halloc', hbuf⟩
    · have hbreg := howns.isAllocated.symm.trans hreg
      simp only [Run.Aimed, hmade, hbreg, Bool.false_eq_true, if_false] at haim
      simp only [hout, matchesArgs_registered hreg, decide_eq_true_iff]
      cases hfind : (liveBlocks r.joint.contexts).find? (fun d => d.1 = fd ∧
          d.2.buffer = (r.joint.ca.sharedMem shm).buffer) with
      | none =>
        have hnot := List.find?_eq_none.mp hfind _ hlive
        exact absurd (decide_eq_true ⟨rfl, (howns.buffer hbreg).symm⟩) hnot
      | some d =>
        have hd : d.1 = fd ∧ d.2.buffer = (r.joint.ca.sharedMem shm).buffer := by
          simpa using List.find?_some hfind
        obtain ⟨hdfd, hdbuf⟩ := hd
        rw [eq_of_buffer h.contexts hlive (List.mem_of_find?_eq_some hfind) hbreg
          (haim d hfind) hdfd (hdbuf.trans (howns.buffer hbreg))]
    · have hballoc := howns.isAllocated.symm.trans halloc
      have hfound := found_entry h haim hmade hballoc
      have hoff : (releaseShareMem (r.joint.ca.sharedMem shm) r.joint.ca.mShareMem).1 =
          b.offset := by
        have hne := (h.entries.buffers _ (howns.entry hballoc)).1
        rcases hbuf with ⟨hzero, -, -⟩ | ⟨-, hoff, -⟩
        · exact absurd hzero hne
        · rw [hoff, findShareMemOffset, hfound]
          rfl
      refine find?_eq_some_of_unique hlive ?_ fun y hy hp => ?_
      · simp [matchesArgs_allocated halloc', hoff]
      · obtain ⟨hyfd, hp⟩ := of_decide_eq_true hp
        rw [matchesArgs_allocated halloc', decide_eq_true_iff, hoff] at hp
        exact eq_of_key h.contexts hlive hy hballoc hyfd hp

theorem perm_cons_of_find {m : List ShareMem} {p : ShareMem → Bool} {e : ShareMem}
    (h : m.find? p = some e) : m.Perm (e :: m.eraseP p) := by
  obtain ⟨hp, as, bs, rfl, has⟩ := List.find?_eq_some_iff_append.mp h
  have hnot : ∀ a ∈ as, ¬ p a = true := by simpa using has
  rw [List.eraseP_append_right _ hnot, List.eraseP_cons_of_pos hp]
  exact List.perm_middle

theorem perm_cons_filter {α : Type} [DecidableEq α] {l : List α} {x : α} (hnodup : l.Nodup)
    (hx : x ∈ l) : l.Perm (x :: l.filter fun y => some x ≠ some y) := by
  have herase : l.erase x = l.filter fun y => some x ≠ some y := by
    rw [hnodup.erase_eq_filter]
    refine List.filter_congr fun y _ => ?_
    rw [Bool.eq_iff_iff]
    simp only [bne_iff_ne, ne_eq, decide_eq_true_iff, Option.some.injEq]
    exact not_congr eq_comm
  exact herase ▸ List.perm_cons_erase hx

theorem entries_release (h : Inv r) (haim : r.Aimed (.releaseSharedMemory shm))
    (hctx : (r.joint.ca.sharedMem shm).context = some context) :
    ((releaseShareMem (r.joint.ca.sharedMem shm) r.joint.ca.mShareMem).2.2.map fun e =>
        (e.fd, e.offset)).Perm
      ((((liveBlocks r.joint.contexts).filter fun b => r.made shm ≠ some b).filter
        (·.2.isAllocated)).map fun b => (b.1, b.2.offset)) := by
  have hcorr := h.corresponds
  cases hmade : r.made shm with
  | none =>
    have hsame : (releaseShareMem (r.joint.ca.sharedMem shm) r.joint.ca.mShareMem).2.2 =
        r.joint.ca.mShareMem := by
      rcases releaseShareMem_cases (r.joint.ca.sharedMem shm) r.joint.ca.mShareMem with
        ⟨-, hout⟩ | ⟨halloc, -, ⟨-, -, hout⟩ | ⟨hne, -, hout⟩⟩
      · rw [hout]
      · exact hout
      · simp only [Run.Aimed, hmade, hctx, halloc, if_true] at haim
        rw [hout]
        apply List.eraseP_of_forall_not
        simpa using List.find?_eq_none.mp (haim.1 hne)
    have hall : (liveBlocks r.joint.contexts).filter (fun b => none ≠ some b) =
        liveBlocks r.joint.contexts := by simp
    rw [hsame, hall]
    exact hcorr
  | some x =>
    obtain ⟨fd, b⟩ := x
    obtain ⟨hlive, howns⟩ := h.made shm fd b hmade
    have hperm := perm_cons_filter (nodup_liveBlocks h.contexts) hlive
    rcases releaseShareMem_cases (r.joint.ca.sharedMem shm) r.joint.ca.mShareMem with
      ⟨hreg, hout⟩ | ⟨halloc, -, hbuf⟩
    · rw [hout]
      have hbreg := howns.isAllocated.symm.trans hreg
      have hfilter := hperm.filter (·.2.isAllocated)
      rw [List.filter_cons_of_neg (by simp [hbreg])] at hfilter
      exact hcorr.trans (hfilter.map _)
    · have hballoc := howns.isAllocated.symm.trans halloc
      have hout : (releaseShareMem (r.joint.ca.sharedMem shm) r.joint.ca.mShareMem).2.2 =
          r.joint.ca.mShareMem.eraseP (·.buffer = (r.joint.ca.sharedMem shm).buffer) := by
        have hne := (h.entries.buffers _ (howns.entry hballoc)).1
        rcases hbuf with ⟨hzero, -, -⟩ | ⟨-, -, hout⟩
        · exact absurd hzero hne
        · exact hout
      have hfilter := hperm.filter (·.2.isAllocated)
      rw [List.filter_cons_of_pos (by simpa using hballoc)] at hfilter
      have hentries := (perm_cons_of_find (found_entry h haim hmade hballoc)).map
        fun e => (e.fd, e.offset)
      rw [hout]
      exact (hentries.symm.trans (hcorr.trans (hfilter.map _))).cons_inv

theorem Owns.frame {ca ca' : Ca} {fd : Int} {b : SharedMemoryInner Nat} (h : Owns ca shm fd b)
    (hshm : ca'.sharedMem shm = ca.sharedMem shm)
    (hfd : ∀ k, ca.contextFd k = fd → ca'.contextFd k = fd)
    (hentry : b.isAllocated = true → entryFor fd b (ca.sharedMem shm).buffer ∈ ca'.mShareMem) :
    Owns ca' shm fd b where
  context := by
    obtain ⟨k, hctx, hk⟩ := h.context
    exact ⟨k, hshm ▸ hctx, hfd k hk⟩
  isAllocated := hshm ▸ h.isAllocated
  entry := hshm ▸ hentry
  buffer := hshm ▸ h.buffer

theorem entry_kept (h : Inv r) {m : List ShareMem} {bs : List (Int × SharedMemoryInner Nat)}
    (hsub : m ⊆ r.joint.ca.mShareMem) (hcorr : (m.map fun e => (e.fd, e.offset)).Perm
      ((bs.filter (·.2.isAllocated)).map fun b => (b.1, b.2.offset)))
    {fd : Int} {b : SharedMemoryInner Nat} {buffer : Nat} (hb : (fd, b) ∈ bs)
    (halloc : b.isAllocated = true) (he : entryFor fd b buffer ∈ r.joint.ca.mShareMem) :
    entryFor fd b buffer ∈ m := by
  have hkey : (fd, b.offset) ∈ m.map fun e => (e.fd, e.offset) := by
    rw [hcorr.mem_iff]
    exact List.mem_map.mpr ⟨(fd, b), List.mem_filter.mpr ⟨hb, halloc⟩, rfl⟩
  obtain ⟨e, hmem, heq⟩ := List.mem_map.mp hkey
  have hsame := h.entry_unique he (hsub hmem) (congrArg Prod.fst heq) (congrArg Prod.snd heq)
  exact hsame ▸ hmem

theorem releaseShareMem_sublist (sharedMem : CaSharedMemory) (m : List ShareMem) :
    (releaseShareMem sharedMem m).2.2 ⊆ m := by
  rcases releaseShareMem_cases sharedMem m with
    ⟨-, hout⟩ | ⟨-, -, ⟨-, -, hout⟩ | ⟨-, -, hout⟩⟩
  · rw [hout]
    exact List.Subset.refl m
  · rw [hout]
    exact List.Subset.refl m
  · rw [hout]
    exact List.eraseP_subset

theorem made_kept {contexts : List (ShmContext Nat)} {x : Int × SharedMemoryInner Nat}
    (h : (r.made shm).filter (· ∈ liveBlocks contexts) = some x) :
    r.made shm = some x ∧ x ∈ liveBlocks contexts := by
  obtain ⟨hmade, hlive⟩ := Option.filter_eq_some_iff.mp h
  exact ⟨hmade, of_decide_eq_true hlive⟩

@[simp] theorem call_joint (c : CaCall) : (r.call c).joint = r.joint.call c := rfl

theorem call_release (r : Run) (shm : Nat) :
    ((r.joint.ca.sharedMem shm).context = none ∧
      r.joint.call (.releaseSharedMemory shm) = r.joint) ∨
    ∃ k, (r.joint.ca.sharedMem shm).context = some k ∧ ∃ released,
      let out := releaseShareMem (r.joint.ca.sharedMem shm) r.joint.ca.mShareMem
      r.joint.call (.releaseSharedMemory shm) =
        { ca := { r.joint.ca.setShm shm released with mShareMem := out.2.2 }
          contexts := serveRelease (r.joint.ca.contextFd k) (shmArgs out.2.1.toSharedMemory out.1)
            r.joint.contexts } := by
  cases hctx : (r.joint.ca.sharedMem shm).context with
  | none => exact .inl ⟨rfl, by simp [Joint.call, Client.releaseSharedMemory, hctx]⟩
  | some k =>
    let out := releaseShareMem (r.joint.ca.sharedMem shm) r.joint.ca.mShareMem
    refine .inr ⟨k, rfl, { out.2.1 with
      buffer := 0, size := 0, flags := 0, opsCnt := 0, context := none }, ?_⟩
    simp only [Joint.call, Client.releaseSharedMemory, hctx]
    rfl

theorem removes_release (h : Inv r) (haim : r.Aimed (.releaseSharedMemory shm)) :
    Run.Removes r shm := by
  rw [Run.Removes, call_joint]
  rcases call_release r shm with ⟨hctx, hcall⟩ | ⟨k, hctx, released, hcall⟩
  · have hmade : r.made shm = none := by
      rw [Option.eq_none_iff_forall_ne_some]
      rintro ⟨fd, b⟩ hmade
      obtain ⟨k, hk, -⟩ := (h.made shm fd b hmade).2.context
      cases hk.symm.trans hctx
    simp [hcall, hmade]
  · rw [hcall, ← target_eq h haim hctx]
    exact (serveRelease_spec h.contexts _ _).2

theorem inv_release (h : Inv r) (haim : r.Aimed (.releaseSharedMemory shm)) :
    Inv (r.call (.releaseSharedMemory shm)) := by
  have hremoves := removes_release h haim
  rw [Run.Removes, call_joint] at hremoves
  have hkept {shm' : Nat} {x : Int × SharedMemoryInner Nat}
      (hmade : (r.call (.releaseSharedMemory shm)).made shm' = some x) :
      r.made shm' = some x ∧ x ∈ liveBlocks (r.joint.call (.releaseSharedMemory shm)).contexts :=
    made_kept hmade
  rcases call_release r shm with ⟨hctx, hcall⟩ | ⟨k, hctx, released, hcall⟩
  · refine ⟨?_, ?_, ?_, fun shm' fd b hmade => ?_⟩ <;> rw [call_joint, hcall]
    · exact h.contexts
    · exact h.corresponds
    · exact h.entries
    · exact h.made shm' fd b (hkept hmade).1
  · have hcorr := entries_release h haim hctx
    rw [← hremoves, hcall] at hcorr
    have hsub := releaseShareMem_sublist (r.joint.ca.sharedMem shm) r.joint.ca.mShareMem
    refine ⟨?_, ?_, ?_, fun shm' fd b hmade => ?_⟩
    · rw [call_joint, hcall]
      exact (serveRelease_spec h.contexts _ _).1
    · rw [call_joint, hcall]
      exact hcorr
    · rw [call_joint, hcall]
      exact h.entries.subset hsub
    · obtain ⟨hmade', hlive⟩ := hkept hmade
      have howns := (h.made shm' fd b hmade').2
      have hne : shm' ≠ shm := by
        rintro rfl
        rw [hremoves, List.mem_filter, hmade'] at hlive
        simp at hlive
      refine ⟨hlive, ?_⟩
      rw [call_joint]
      rw [hcall] at hlive ⊢
      refine howns.frame ?_ (fun _ hk => hk) fun halloc => ?_
      · exact Function.update_of_ne hne _ _
      · exact entry_kept h hsub hcorr hlive halloc (howns.entry halloc)

end Release

section Contexts

variable {r : Run} {context : Nat} {cs : List (ShmContext Nat)}

theorem fd_nonneg (hok : ContextsOk cs) {x : Int × SharedMemoryInner Nat} (hx : x ∈ liveBlocks cs) :
    0 ≤ x.1 := by
  obtain ⟨c, hc, hfd, -⟩ := mem_liveBlocks.mp hx
  exact hfd ▸ hok.opened c hc

theorem inv_initialize (h : Inv r) {reply : Option Int}
    (hallowed : r.joint.Allowed (.initializeContext reply context)) :
    Inv (r.call (.initializeContext reply context)) := by
  obtain ⟨hfresh, hnew⟩ := hallowed
  have hkept {shm : Nat} {x : Int × SharedMemoryInner Nat}
      (hmade : (r.call (.initializeContext reply context)).made shm = some x) :
      r.made shm = some x := (made_kept hmade).1
  cases reply with
  | none =>
    exact ⟨h.contexts, h.corresponds, h.entries,
      fun shm fd b hmade => h.made shm fd b (hkept hmade)⟩
  | some fd =>
    obtain ⟨hnonneg, hnotin⟩ := hnew fd rfl
    have hlive : liveBlocks (r.joint.contexts ++ [{ fd, callFromService := true, shm := .init }]) =
        liveBlocks r.joint.contexts := by
      rw [liveBlocks_append]
      exact List.append_nil _
    have hmem {c : ShmContext Nat}
        (hc : c ∈ r.joint.contexts ++ [{ fd, callFromService := true, shm := .init }]) :
        c ∈ r.joint.contexts ∨ c = { fd, callFromService := true, shm := .init } := by
      simpa using hc
    refine ⟨⟨?_, fun c hc => ?_, fun c hc => ?_, fun c hc => ?_, fun c hc => ?_, fun c hc => ?_⟩,
      ?_, h.entries, fun shm fd' b hmade => ?_⟩
    · change ((r.joint.contexts ++ [_]).map fun c : ShmContext Nat => c.fd).Nodup
      rw [List.map_append, List.nodup_append]
      refine ⟨h.contexts.fds, List.nodup_singleton _, ?_⟩
      rintro x hx y hy rfl
      obtain rfl : x = fd := by simpa using hy
      exact hnotin hx
    · rcases hmem hc with hc | rfl
      · exact h.contexts.opened c hc
      · exact hnonneg
    · rcases hmem hc with hc | rfl
      · exact h.contexts.service c hc
      · rfl
    · rcases hmem hc with hc | rfl
      · exact h.contexts.tables c hc
      · exact ShmTable.inv_init
    · rcases hmem hc with hc | rfl
      · exact h.contexts.registered c hc
      · exact nofun
    · rcases hmem hc with hc | rfl
      · exact h.contexts.buffers c hc
      · exact nofun
    · change (r.joint.ca.mShareMem.map _).Perm
        (((liveBlocks (r.joint.contexts ++ [_])).filter _).map _)
      rw [hlive]
      exact h.corresponds
    · obtain ⟨hmem', howns⟩ := h.made shm fd' b (hkept hmade)
      refine ⟨?_, howns.frame rfl (fun k hk => ?_) howns.entry⟩
      · change (fd', b) ∈ liveBlocks (r.joint.contexts ++ [_])
        rwa [hlive]
      · have hne : k ≠ context := by
          rintro rfl
          have hpos : 0 ≤ fd' := fd_nonneg h.contexts hmem'
          omega
        change Function.update r.joint.ca.contextFd context fd k = fd'
        rw [Function.update_of_ne hne, hk]

theorem inv_finalize (h : Inv r) (haim : r.Aimed (.finalizeContext context)) :
    Inv (r.call (.finalizeContext context)) := by
  have hspec := serveFinalize_spec h.contexts (r.joint.ca.contextFd context)
  have hfree : freeAllShareMemoryInContext (r.joint.ca.contextFd context) r.joint.ca.mShareMem =
      r.joint.ca.mShareMem.filter (·.fd ≠ r.joint.ca.contextFd context) := by
    refine List.filter_congr fun e he => ?_
    obtain ⟨hne, hzero⟩ := h.entries.buffers e he
    rw [decide_eq_decide, not_iff_not]
    refine ⟨fun hcond => hcond.1, fun hfd => ?_⟩
    have hsize := haim e he hfd
    exact ⟨hfd, hne, fun hbuf => hsize (hzero.mp hbuf), hsize⟩
  have hcorr : ((r.joint.ca.mShareMem.filter (·.fd ≠ r.joint.ca.contextFd context)).map fun e =>
      (e.fd, e.offset)).Perm
      (((liveBlocks (serveFinalize (r.joint.ca.contextFd context) r.joint.contexts)).filter
        (·.2.isAllocated)).map fun b => (b.1, b.2.offset)) := by
    have hfilter := h.corresponds.filter fun x => x.1 ≠ r.joint.ca.contextFd context
    rw [List.filter_map, List.filter_map] at hfilter
    rw [hspec.2, List.filter_filter]
    rw [List.filter_filter] at hfilter
    simpa only [Function.comp_def, Bool.and_comm] using hfilter
  have hsub : r.joint.ca.mShareMem.filter (·.fd ≠ r.joint.ca.contextFd context) ⊆
      r.joint.ca.mShareMem := List.filter_sublist.subset
  have hcall : r.joint.call (.finalizeContext context) =
      { ca := { r.joint.ca with
          contextFd := Function.update r.joint.ca.contextFd context (-1)
          mShareMem := r.joint.ca.mShareMem.filter (·.fd ≠ r.joint.ca.contextFd context) }
        contexts := serveFinalize (r.joint.ca.contextFd context) r.joint.contexts } := by
    simp only [Joint.call, Client.finalizeContext, hfree]
    rfl
  refine ⟨?_, ?_, ?_, fun shm fd b hmade => ?_⟩
  · rw [call_joint, hcall]
    exact hspec.1
  · rw [call_joint, hcall]
    exact hcorr
  · rw [call_joint, hcall]
    exact h.entries.subset hsub
  · obtain ⟨hmade', hlive⟩ := made_kept hmade
    have howns := (h.made shm fd b hmade').2
    refine ⟨hlive, ?_⟩
    rw [call_joint]
    rw [hcall] at hlive ⊢
    refine howns.frame rfl (fun k hk => ?_) fun halloc => ?_
    · have hne : k ≠ context := by
        rintro rfl
        change (fd, b) ∈ liveBlocks (serveFinalize _ _) at hlive
        rw [hspec.2, List.mem_filter, decide_eq_true_iff] at hlive
        exact hlive.2 hk.symm
      change Function.update r.joint.ca.contextFd context (-1) k = fd
      rw [Function.update_of_ne hne, hk]
    · exact entry_kept h hsub hcorr hlive halloc (howns.entry halloc)

end Contexts

section NewBlocks

variable {r : Run} {shm context : Nat}

structure Adds (σ σ' : Joint) (shm : Nat) : Prop where
  contextFd : σ'.ca.contextFd = σ.ca.contextFd
  other : ∀ shm' ≠ shm, σ'.ca.sharedMem shm' = σ.ca.sharedMem shm'
  block : σ'.contexts = σ.contexts ∧ σ'.ca.mShareMem = σ.ca.mShareMem ∨
    ∃ fd b, Grown σ.contexts σ'.contexts fd b ∧ Owns σ'.ca shm fd b ∧ EntriesOk σ'.ca.mShareMem ∧
      σ'.ca.mShareMem = σ.ca.mShareMem ++
        if b.isAllocated then [entryFor fd b (σ'.ca.sharedMem shm).buffer] else []

theorem corresponds_grown {σ σ' : Joint} {fd : Int} {b : SharedMemoryInner Nat} {buffer : Nat}
    (h : Run.Corresponds σ) (hgrown : Grown σ.contexts σ'.contexts fd b)
    (hm : σ'.ca.mShareMem = σ.ca.mShareMem ++
      if b.isAllocated then [entryFor fd b buffer] else []) : Run.Corresponds σ' := by
  rw [Run.Corresponds, hm]
  have hperm := (hgrown.perm.filter (·.2.isAllocated)).map fun b => (b.1, b.2.offset)
  cases halloc : b.isAllocated with
  | true =>
    rw [List.filter_cons_of_pos (by simpa using halloc)] at hperm
    rw [if_pos rfl, List.map_append]
    exact List.perm_append_singleton _ _ |>.trans ((h.cons _).trans hperm.symm)
  | false =>
    rw [List.filter_cons_of_neg (by simp [halloc])] at hperm
    rw [if_neg Bool.false_ne_true, List.append_nil]
    exact h.trans hperm.symm

theorem inv_adds (h : Inv r) {c : CaCall} (hadds : Adds r.joint (r.joint.call c) shm)
    (hmade : (r.call c).made = Function.update
      (fun shm' => (r.made shm').filter (· ∈ liveBlocks (r.joint.call c).contexts)) shm
      (Run.created r.joint.contexts (r.joint.call c).contexts)) :
    Inv (r.call c) := by
  rcases hadds.block with ⟨hcs, hm⟩ | ⟨fd, b, hgrown, howns, hentries, hm⟩
  · refine ⟨?_, ?_, ?_, fun shm' fd b hmade' => ?_⟩
    · rw [call_joint, hcs]
      exact h.contexts
    · rw [call_joint, Run.Corresponds, hcs, hm]
      exact h.corresponds
    · rw [call_joint, hm]
      exact h.entries
    · rw [hmade, Function.update_apply] at hmade'
      split_ifs at hmade' with hshm
      · rw [hcs, created_self] at hmade'
        cases hmade'
      · obtain ⟨hold, hlive⟩ := made_kept hmade'
        refine ⟨hlive, (h.made shm' fd b hold).2.frame (hadds.other shm' hshm) ?_ ?_⟩
        · rw [call_joint, hadds.contextFd]
          exact fun k hk => hk
        · rw [call_joint, hm]
          exact (h.made shm' fd b hold).2.entry
  · refine ⟨hgrown.ok, corresponds_grown h.corresponds hgrown hm, hentries,
      fun shm' fd' b' hmade' => ?_⟩
    rw [hmade, Function.update_apply] at hmade'
    split_ifs at hmade' with hshm
    · subst hshm
      rw [hgrown.created] at hmade'
      obtain ⟨rfl, rfl⟩ := Prod.mk.inj (Option.some.inj hmade')
      exact ⟨hgrown.perm.mem_iff.mpr List.mem_cons_self, howns⟩
    · obtain ⟨hold, hlive⟩ := made_kept hmade'
      refine ⟨hlive, (h.made shm' fd' b' hold).2.frame (hadds.other shm' hshm) ?_ ?_⟩
      · rw [call_joint, hadds.contextFd]
        exact fun k hk => hk
      · rw [call_joint, hm]
        exact fun halloc =>
          List.mem_append_left _ ((h.made shm' fd' b' hold).2.entry halloc)

@[simp] theorem setShm_self (ca : Ca) (filled : CaSharedMemory) :
    (ca.setShm shm filled).sharedMem shm = filled := Function.update_self ..

theorem setShm_fill (ca : Ca) (sharedMem : SharedMemory Nat) (filled : CaSharedMemory) :
    (fill ca shm sharedMem).setShm shm filled = ca.setShm shm filled := by
  simp [fill, Ca.setShm]

theorem adds_refused (σ : Joint) (filled : CaSharedMemory) :
    Adds σ ⟨σ.ca.setShm shm filled, σ.contexts⟩ shm where
  contextFd := rfl
  other _ hne := Function.update_of_ne hne _ _
  block := .inl ⟨rfl, rfl⟩

@[simp] theorem fill_contextFd (ca : Ca) (sharedMem : SharedMemory Nat) :
    (fill ca shm sharedMem).contextFd = ca.contextFd := rfl

@[simp] theorem fill_mShareMem (ca : Ca) (sharedMem : SharedMemory Nat) :
    (fill ca shm sharedMem).mShareMem = ca.mShareMem := rfl

@[simp] theorem fill_toSharedMemory (ca : Ca) (sharedMem : SharedMemory Nat) :
    ((fill ca shm sharedMem).sharedMem shm).toSharedMemory = sharedMem := by
  simp [fill, Ca.setShm]

theorem adds_register (h : Inv r) {mallocInner : Bool} {sharedMem : SharedMemory Nat}
    (hallowed : r.joint.Allowed (.registerSharedMemory mallocInner context shm sharedMem)) :
    Adds r.joint (r.joint.call (.registerSharedMemory mallocInner context shm sharedMem)) shm := by
  simp only [Joint.call, Client.registerSharedMemory, setShm_fill, fill_contextFd,
    fill_toSharedMemory]
  split_ifs with hbad
  · exact adds_refused r.joint _
  · rcases serveRegister_cases h.contexts mallocInner (r.joint.ca.contextFd context)
        (shmArgs sharedMem 0) hallowed with
      ⟨ret, hserve⟩ | ⟨b, reply, cs', hserve, hgrown, halloc, hbuf, hreply⟩
    · simp only [hserve]
      exact adds_refused r.joint _
    · simp only [hserve]
      refine ⟨rfl, fun _ hne => Function.update_of_ne hne _ _,
        .inr ⟨r.joint.ca.contextFd context, b, hgrown,
          ⟨⟨context, ?_, rfl⟩, ?_, fun ha => ?_, fun _ => ?_⟩,
          h.entries, ?_⟩⟩
      · rw [setShm_self]
        rfl
      · rw [setShm_self, halloc]
        exact hreply
      · cases ha.symm.trans halloc
      · rw [setShm_self]
        exact hbuf.symm
      · rw [if_neg (by simp [halloc])]
        exact (List.append_nil _).symm

theorem EntriesOk.append {m : List ShareMem} {e : ShareMem} (h : EntriesOk m) (hne : e.buffer ≠ 0)
    (hzero : e.buffer = zeroSizePtr ↔ e.size = 0)
    (hfresh : e.size ≠ 0 → ∀ d ∈ m, d.size ≠ 0 → d.buffer ≠ e.buffer) : EntriesOk (m ++ [e]) := by
  have hmem {d : ShareMem} : d ∈ m ++ [e] ↔ d ∈ m ∨ d = e := by simp
  refine ⟨fun d hd => ?_, fun d hd d' hd' hsize hbuf => ?_⟩
  · rcases hmem.mp hd with hd | rfl
    · exact h.buffers d hd
    · exact ⟨hne, hzero⟩
  · have hsize' : d'.size ≠ 0 := by
      intro hz
      have hbufs {x : ShareMem} (hx : x ∈ m ++ [e]) : x.buffer = zeroSizePtr ↔ x.size = 0 := by
        rcases hmem.mp hx with hx | rfl
        · exact (h.buffers x hx).2
        · exact hzero
      exact hsize ((hbufs hd).mp (hbuf ▸ (hbufs hd').mpr hz))
    rcases hmem.mp hd with hin | rfl <;> rcases hmem.mp hd' with hin' | rfl
    · exact h.distinct d hin d' hin' hsize hbuf
    · exact absurd hbuf.symm (hfresh hsize' d hin hsize)
    · exact absurd hbuf (hfresh hsize d' hin' hsize')
    · rfl

theorem adds_allocate (h : Inv r) {out : AllocOutcome Nat} {map : MapOutcome}
    {sharedMem : SharedMemory Nat}
    (hallowed : r.joint.Allowed (.allocateSharedMemory out map context shm sharedMem))
    (haim : r.Aimed (.allocateSharedMemory out map context shm sharedMem)) :
    Adds r.joint (r.joint.call (.allocateSharedMemory out map context shm sharedMem)) shm := by
  obtain ⟨hreadFd, hmapped⟩ := haim
  simp only [Joint.call, Client.allocateSharedMemory, setShm_fill, fill_contextFd,
    fill_toSharedMemory]
  split_ifs with hflags
  case neg => exact adds_refused r.joint _
  rcases serveAllocate_cases h.contexts out (r.joint.ca.contextFd context)
      (shmArgs sharedMem 0) with
    ⟨ret, hserve⟩ | ⟨b, reply, cs', hserve, hgrown, halloc, hsize, hoff, hreply⟩
  · simp only [hserve, procAllocateSharedMemory, setShm_fill]
    exact adds_refused r.joint _
  · obtain ⟨buffer, hmap, hne, hzero, hfresh⟩ : ∃ buffer, mapSharedMemory map.mapped
        (formatSharedMemory reply { toSharedMemory := sharedMem, context := some context }) =
          (.success, { formatSharedMemory reply
            { toSharedMemory := sharedMem, context := some context } with buffer }) ∧
        buffer ≠ 0 ∧ (buffer = zeroSizePtr ↔ sharedMem.size = 0) ∧
        (sharedMem.size ≠ 0 → ∀ d ∈ r.joint.ca.mShareMem, d.size ≠ 0 → d.buffer ≠ buffer) := by
      by_cases hzero : sharedMem.size = 0
      · exact ⟨zeroSizePtr, by simp [mapSharedMemory, formatSharedMemory, hzero], by decide,
          iff_of_true rfl hzero, fun hne => absurd hzero hne⟩
      · obtain ⟨p, hp⟩ := Option.isSome_iff_exists.mp (hmapped hzero)
        obtain ⟨hpos, hptr, hdistinct⟩ := hallowed p hp
        refine ⟨p, ?_, hpos, iff_of_false hptr hzero, fun _ => hdistinct⟩
        simp only [mapSharedMemory, hp]
        exact if_pos hzero
    simp only [hserve, procAllocateSharedMemory, setShm_fill, hreadFd, if_true, hmap,
      fill_mShareMem, fill_contextFd]
    have hentry : entryFor (r.joint.ca.contextFd context) b buffer =
        { offset := reply.offset, buffer, size := sharedMem.size,
          fd := r.joint.ca.contextFd context } := by
      rw [entryFor, hoff, hsize]
      rfl
    refine ⟨rfl, fun _ hne => Function.update_of_ne hne _ _,
      .inr ⟨r.joint.ca.contextFd context, b, hgrown,
        ⟨⟨context, ?_, rfl⟩, ?_, fun _ => ?_, fun ha => ?_⟩,
        ?_, ?_⟩⟩
    · rw [setShm_self]
      rfl
    · rw [setShm_self, halloc]
      exact hreply
    · rw [setShm_self, hentry]
      exact List.mem_append_right _ (List.mem_singleton_self _)
    · cases ha.symm.trans halloc
    · exact h.entries.append hne hzero hfresh
    · rw [if_pos halloc, setShm_self, hentry]
      rfl

end NewBlocks

section Runs

variable {r : Run}

theorem inv_start : Inv .start where
  contexts := ⟨.nil, nofun, nofun, nofun, nofun, nofun⟩
  corresponds := .nil
  entries := ⟨nofun, nofun⟩
  made := nofun

theorem inv_call {c : CaCall} (h : Inv r) (hallowed : r.joint.Allowed c) (haim : r.Aimed c) :
    Inv (r.call c) := by
  cases c with
  | initializeContext reply context => exact inv_initialize h hallowed
  | finalizeContext context => exact inv_finalize h haim
  | registerSharedMemory mallocInner context shm sharedMem =>
    exact inv_adds h (adds_register h hallowed) rfl
  | allocateSharedMemory out map context shm sharedMem =>
    exact inv_adds h (adds_allocate h hallowed haim) rfl
  | releaseSharedMemory shm => exact inv_release h haim

theorem inv_reaches (h : Run.Reaches Run.Aimed r) : Inv r := by
  induction h with
  | start => exact inv_start
  | call _ hallowed haim ih => exact inv_call ih hallowed haim

/-- In a run that nothing misleads, the entries of `mShareMem` are the allocated blocks of the
daemon, and a release removes the block of its own structure. -/
theorem release_hits (r : Run) (h : Run.Reaches Run.Aimed r) : Run.Corresponds r.joint ∧
    ∀ shm, r.Aimed (.releaseSharedMemory shm) → Run.Removes r shm :=
  ⟨(inv_reaches h).corresponds, fun _ haim => removes_release (inv_reaches h) haim⟩

def allocateEmpty (context shm : Nat) : CaCall :=
  .allocateSharedMemory ⟨true, none, true⟩ ⟨true, none⟩ context shm
    { buffer := 0, size := 0, flags := memInout, opsCnt := 0, isAllocated := false }

def twoEmpty : Run :=
  ((Run.start.call (.initializeContext (some 3) 0)).call (allocateEmpty 0 0)).call
    (allocateEmpty 0 1)

def emptyReleased : Run :=
  ((((Run.start.call (.initializeContext (some 3) 0)).call
    (.initializeContext (some 4) 1)).call (allocateEmpty 0 0)).call
    (allocateEmpty 1 1)).call (.releaseSharedMemory 1)

def allocatePages (context shm : Nat) (size : U32) (daemon : Nat) (hd : daemon ≠ 0) (app : Nat) :
    CaCall :=
  .allocateSharedMemory ⟨true, some ⟨daemon, hd⟩, true⟩ ⟨true, some app⟩ context shm
    { buffer := 0, size, flags := memInout, opsCnt := 0, isAllocated := false }

def registerBuffer (context shm buffer : Nat) : CaCall :=
  .registerSharedMemory true context shm
    { buffer, size := 16, flags := memInout, opsCnt := 0, isAllocated := false }

def fourBlocks : Run :=
  (((((Run.start.call (.initializeContext (some 3) 0)).call (.initializeContext (some 4) 1)).call
    (allocatePages 0 0 0x1000 0x5000 (by decide) 0x7000)).call
    (allocatePages 1 1 0x2000 0x6000 (by decide) 0x9000)).call (registerBuffer 0 2 0xA000)).call
    (registerBuffer 1 3 0xA000)

def twoLeft : Run :=
  ((fourBlocks.call (.releaseSharedMemory 2)).call (.releaseSharedMemory 0)).call
    (.finalizeContext 0)

theorem reaches_fourBlocks : Run.Reaches Run.Aimed fourBlocks := by
  refine .call (.call (.call (.call (.call (.call .start ⟨rfl, ?_⟩ trivial) ⟨rfl, ?_⟩ trivial) ?_
    ⟨rfl, fun _ => rfl⟩) ?_ ⟨rfl, fun _ => rfl⟩) ?_ trivial) ?_ trivial
  · rintro _ ⟨⟩
    decide
  · rintro _ ⟨⟩
    decide
  · rintro _ ⟨⟩
    exact ⟨by decide, by decide, by decide⟩
  · rintro _ ⟨⟩
    exact ⟨by decide, by decide, by decide⟩
  · unfold Joint.Allowed registerBuffer
    decide
  · unfold Joint.Allowed registerBuffer
    decide

theorem reaches_twoLeft : Run.Reaches Run.Aimed twoLeft := by
  refine .call (.call (.call reaches_fourBlocks trivial ?_) trivial ?_) trivial ?_
  · change ∀ d ∈ (Joint.liveBlocks fourBlocks.joint.contexts).find? fun d =>
      d.1 = 3 ∧ d.2.buffer = (fourBlocks.joint.ca.sharedMem 2).buffer, d.2.isAllocated = false
    decide
  · intro hempty
    exact absurd hempty (by decide)
  · unfold Run.Aimed
    decide

theorem release_hits_twoLeft :
    Run.Corresponds twoLeft.joint ∧ Run.Removes twoLeft 1 ∧ Run.Removes twoLeft 3 := by
  obtain ⟨hcorresponds, hremoves⟩ := release_hits twoLeft reaches_twoLeft
  refine ⟨hcorresponds, hremoves 1 fun hempty => ?_, hremoves 3 ?_⟩
  · exact absurd hempty (by decide)
  · change ∀ d ∈ (Joint.liveBlocks twoLeft.joint.contexts).find? fun d =>
      d.1 = 4 ∧ d.2.buffer = (twoLeft.joint.ca.sharedMem 3).buffer, d.2.isAllocated = false
    decide

theorem not_release_hits : (Run.Reaches (fun _ _ => True) twoEmpty ∧ ¬ Run.Removes twoEmpty 1) ∧
    Run.Reaches (fun _ _ => True) emptyReleased ∧ ¬ Run.Corresponds emptyReleased.joint := by
  refine ⟨⟨?_, ?_⟩, ?_, ?_⟩
  · refine .call (.call (.call .start ⟨rfl, ?_⟩ trivial) nofun trivial) nofun trivial
    rintro _ ⟨⟩
    decide
  · unfold Run.Removes
    decide
  · refine .call (.call (.call (.call (.call .start ⟨rfl, ?_⟩ trivial) ⟨rfl, ?_⟩ trivial) nofun
      trivial) nofun trivial) trivial trivial
    · rintro _ ⟨⟩
      decide
    · rintro _ ⟨⟩
      decide
  · unfold Run.Corresponds
    decide

end Runs

end TeeClient.Correspondence
