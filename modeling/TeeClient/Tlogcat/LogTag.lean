import Mathlib.Data.List.DropRight
import Mathlib.Data.List.TakeWhile
import Mathlib.Tactic

/-! The tag of a log record, `[taskname[-sessionid]]` (`GetLogItemTag` in `proc_tag.c`).  The text
of a record need not end with a zero, and what is `behind` it in memory belongs to other data. -/

namespace TeeClient.Tlogcat

abbrev Text := List (BitVec 8)

def openChar : BitVec 8 := 0x5B
def closeChar : BitVec 8 := 0x5D
def dashChar : BitVec 8 := 0x2D
def serviceNameMax : Nat := 100
def taNameExtensionLen : Nat := serviceNameMax + 8

section Source

def getMiddleChar (s : Text) (p : Nat) : Nat → Option Nat
  | 0 => none
  | subLen + 1 => if s[p]? = some dashChar then some p else getMiddleChar s (p - 1) subLen

/-- `GetLogItemTag`: what it returns, and what is in `tagStr`.  `strchr` ends at the first zero
of `logBuffer`, wherever that is. -/
def getLogItemTag (logBuffer tagStr : Text) : Nat × Text :=
  let s := logBuffer.takeWhile (· ≠ 0)
  match s.idxOf? openChar, s.idxOf? closeChar with
  | some startStr, some endStr =>
    if endStr ≤ startStr + 1 ∨ taNameExtensionLen < endStr + 1 - startStr then (0, tagStr)
    else
      let middleStr := getMiddleChar s endStr (endStr + 1 - startStr)
      if ∃ m ∈ middleStr, serviceNameMax < m - startStr - 1 then (0, tagStr)
      else
        let tagLen := match middleStr with
          | some m => m - startStr - 1
          | none => endStr - startStr - 1
        -- `memcpy_s` clears a destination that is too small
        if tagStr.length < tagLen then (0, List.replicate tagStr.length 0)
        else
          let copied := (s.drop (startStr + 1)).take tagLen ++ tagStr.drop tagLen
          let tagLen := if tagStr.length = tagLen then tagStr.length - 1 else tagLen
          (tagLen, copied.set tagLen 0)
  | _, _ => (0, tagStr)

def logItemTag : Text := List.replicate (serviceNameMax + 1) 0

end Source

section Specification

def behindOpen (text : Text) : Text := (text.dropWhile (· ≠ openChar)).drop 1

def bracketed (text : Text) : Option Text :=
  if (text.takeWhile (· ≠ openChar)).contains closeChar then none
  else if (behindOpen text).contains closeChar then
    some ((behindOpen text).takeWhile (· ≠ closeChar))
  else none

def taskName (inner : Text) : Text :=
  if inner.contains dashChar then (inner.rdropWhile (· ≠ dashChar)).dropLast else inner

structure TagFits (inner : Text) : Prop where
  inner_le : inner.length + 2 ≤ taNameExtensionLen
  name_pos : 0 < (taskName inner).length
  name_le : (taskName inner).length ≤ serviceNameMax ∨
    dashChar ∉ inner ∧ (taskName inner).length = serviceNameMax + 1

instance (inner : Text) : Decidable (TagFits inner) :=
  decidable_of_iff (inner.length + 2 ≤ taNameExtensionLen ∧ 0 < (taskName inner).length ∧
      ((taskName inner).length ≤ serviceNameMax ∨
        ¬ inner.contains dashChar ∧ (taskName inner).length = serviceNameMax + 1)) <| by
    rw [List.contains_iff_mem]
    exact ⟨fun h => ⟨h.1, h.2.1, h.2.2⟩, fun h => ⟨h.inner_le, h.name_pos, h.name_le⟩⟩

structure IsTag (name : Text) (n : Nat) (tagStr : Text) : Prop where
  len : n = min name.length serviceNameMax
  cut : name.length ≤ serviceNameMax + 1
  chars : tagStr.take n = name.take n
  terminated : tagStr[n]? = some 0
  whole : 0 ∉ tagStr.take n

/-- The tag comes from the text of the record, whatever is behind that. -/
structure TagsRecord (text : Text) : Prop where
  own : ∀ behind behind',
    getLogItemTag (text ++ behind) logItemTag = getLogItemTag (text ++ behind') logItemTag
  tag : ∀ behind, 0 < (getLogItemTag (text ++ behind) logItemTag).1 →
    ∃ inner, bracketed text = some inner ∧
      IsTag (taskName inner) (getLogItemTag (text ++ behind) logItemTag).1
        (getLogItemTag (text ++ behind) logItemTag).2
  missing : ∀ behind, (∀ inner, bracketed text = some inner → taskName inner = []) →
    (getLogItemTag (text ++ behind) logItemTag).1 = 0

end Specification

section TaskName

variable {name rest inner more : Text}

theorem taskName_of_notMem (h : dashChar ∉ inner) : taskName inner = inner := by
  rw [taskName, if_neg (by rwa [List.contains_iff_mem])]

theorem taskName_append (name : Text) (h : dashChar ∉ rest) :
    taskName (name ++ dashChar :: rest) = name := by
  have hdrop : (name ++ dashChar :: rest).rdropWhile (· ≠ dashChar) = name ++ [dashChar] := by
    rw [List.rdropWhile, List.reverse_append, List.reverse_cons, List.append_assoc,
      List.dropWhile_append_of_pos]
    · rw [List.singleton_append, List.dropWhile_cons_of_neg (by simp), List.reverse_cons,
        List.reverse_reverse]
    · intro c hc
      simpa using ne_of_mem_of_not_mem (List.mem_reverse.mp hc) h
  rw [taskName, if_pos (by simp), hdrop, List.dropLast_concat]

theorem exists_last_dash (h : dashChar ∈ inner) :
    ∃ name rest, inner = name ++ dashChar :: rest ∧ dashChar ∉ rest := by
  obtain ⟨front, back, hrev, hback⟩ := List.eq_append_cons_of_mem (List.mem_reverse.mpr h)
  refine ⟨back.reverse, front.reverse, ?_, by simpa using hback⟩
  rw [← List.reverse_reverse inner, hrev]
  simp

theorem taskName_initial (inner : Text) : taskName inner <+: inner := by
  by_cases h : dashChar ∈ inner
  · obtain ⟨name, rest, rfl, hrest⟩ := exists_last_dash h
    rw [taskName_append name hrest]
    exact List.prefix_append _ _
  · rw [taskName_of_notMem h]

end TaskName

section Middle

variable {s : Text} {p k n : Nat}

theorem getMiddleChar_skip (h : ∀ i, p < i → i ≤ p + k → s[i]? ≠ some dashChar) :
    getMiddleChar s (p + k) (n + k) = getMiddleChar s p n := by
  induction k with
  | zero => rfl
  | succ k ih =>
    have hlast := h (p + (k + 1)) (by omega) le_rfl
    rw [← Nat.add_assoc n, getMiddleChar, if_neg hlast, ← Nat.add_assoc p, Nat.add_sub_cancel]
    exact ih fun i hi hle => h i hi (by omega)

structure Brackets (s pre inner post : Text) : Prop where
  text : s = pre ++ openChar :: (inner ++ closeChar :: post)
  open_first : openChar ∉ pre
  close_pre : closeChar ∉ pre
  close_inner : closeChar ∉ inner

variable {pre inner post name rest : Text}

theorem Brackets.getElem? (h : Brackets s pre inner post) (i : Nat) :
    s[pre.length + 1 + i]? = (inner ++ closeChar :: post)[i]? := by
  have hi : pre.length ≤ pre.length + 1 + i := by omega
  have hsub : pre.length + 1 + i - pre.length = i + 1 := by omega
  rw [h.text, List.getElem?_append_right hi, hsub, List.getElem?_cons_succ]

theorem getElem?_ne_dash (h : dashChar ∉ rest) {j : Nat} (hj : j ≤ rest.length) :
    (rest ++ closeChar :: post)[j]? ≠ some dashChar := by
  intro hdash
  rcases Nat.lt_or_eq_of_le hj with hlt | rfl
  · rw [List.getElem?_append_left hlt] at hdash
    exact h (List.mem_of_getElem? hdash)
  · rw [List.getElem?_append_right le_rfl, Nat.sub_self, List.getElem?_cons_zero] at hdash
    exact absurd (Option.some.inj hdash) (by decide)

theorem Brackets.getMiddleChar_none (h : Brackets s pre inner post) (hdash : dashChar ∉ inner) :
    getMiddleChar s (pre.length + 1 + inner.length) (inner.length + 2) = none := by
  have hopen : s[pre.length]? = some openChar := by
    rw [h.text, List.getElem?_append_right le_rfl, Nat.sub_self, List.getElem?_cons_zero]
  have hp : pre.length + 1 + inner.length = pre.length + (inner.length + 1) := by omega
  have hn : inner.length + 2 = 1 + (inner.length + 1) := by omega
  rw [hp, hn, getMiddleChar_skip]
  · rw [getMiddleChar, hopen, if_neg (by decide), getMiddleChar]
  · intro i hlo hhi
    obtain ⟨j, rfl⟩ : ∃ j, i = pre.length + 1 + j := ⟨i - pre.length - 1, by omega⟩
    rw [h.getElem?]
    exact getElem?_ne_dash hdash (by omega)

theorem Brackets.getMiddleChar_some (h : Brackets s pre (name ++ dashChar :: rest) post)
    (hrest : dashChar ∉ rest) :
    getMiddleChar s (pre.length + 1 + (name ++ dashChar :: rest).length)
      ((name ++ dashChar :: rest).length + 2) = some (pre.length + 1 + name.length) := by
  have hlen : (name ++ dashChar :: rest).length = name.length + 1 + rest.length := by
    rw [List.length_append, List.length_cons]; omega
  have hdash : s[pre.length + 1 + name.length]? = some dashChar := by
    rw [h.getElem?, List.append_assoc, List.getElem?_append_right le_rfl, Nat.sub_self,
      List.cons_append, List.getElem?_cons_zero]
  have hp : pre.length + 1 + (name ++ dashChar :: rest).length =
      pre.length + 1 + name.length + (rest.length + 1) := by omega
  have hn : (name ++ dashChar :: rest).length + 2 = name.length + 2 + (rest.length + 1) := by omega
  rw [hp, hn, getMiddleChar_skip]
  · rw [getMiddleChar, if_pos hdash]
  · intro i hlo hhi
    obtain ⟨j, rfl⟩ : ∃ j, i = pre.length + 1 + (name.length + 1 + j) :=
      ⟨i - pre.length - 1 - name.length - 1, by omega⟩
    have hsplit : name ++ dashChar :: rest ++ closeChar :: post =
        (name ++ [dashChar]) ++ (rest ++ closeChar :: post) := by simp
    have hle : (name ++ [dashChar]).length ≤ name.length + 1 + j := by
      rw [List.length_append, List.length_singleton]; omega
    have hsub : name.length + 1 + j - (name ++ [dashChar]).length = j := by
      rw [List.length_append, List.length_singleton]; omega
    rw [h.getElem?, hsplit, List.getElem?_append_right hle, hsub]
    exact getElem?_ne_dash hrest (by omega)

end Middle

section Found

variable {s pre inner post text logBuffer : Text}

theorem idxOf?_append_cons {c : BitVec 8} {front back : Text} (h : c ∉ front) :
    (front ++ c :: back).idxOf? c = some front.length := by
  induction front with
  | nil => simp [List.idxOf?_cons]
  | cons b front ih =>
    obtain ⟨hb, hfront⟩ := not_or.mp (mt List.mem_cons.mpr h)
    rw [List.cons_append, List.idxOf?_cons, if_neg (by simpa using Ne.symm hb), ih hfront]
    rfl

def tagResult (inner : Text) : Nat × Text :=
  if TagFits inner then
    (min (taskName inner).length serviceNameMax,
      (taskName inner).take serviceNameMax ++
        List.replicate (serviceNameMax + 1 - min (taskName inner).length serviceNameMax) 0)
  else (0, logItemTag)

theorem length_logItemTag : logItemTag.length = serviceNameMax + 1 := List.length_replicate

theorem copied_eq {name : Text} (h : name.length ≤ serviceNameMax + 1) :
    (name ++ logItemTag.drop name.length).set (min name.length serviceNameMax) 0 =
      name.take serviceNameMax ++
        List.replicate (serviceNameMax + 1 - min name.length serviceNameMax) 0 := by
  rcases Nat.lt_or_eq_of_le h with hlt | heq
  · have hle : name.length ≤ serviceNameMax := by omega
    obtain ⟨k, hk⟩ : ∃ k, serviceNameMax + 1 - name.length = k + 1 :=
      ⟨serviceNameMax - name.length, by omega⟩
    rw [Nat.min_eq_left hle, List.take_of_length_le hle, logItemTag, List.drop_replicate, hk,
      List.set_append_right _ _ le_rfl, Nat.sub_self, List.replicate_succ, List.set_cons_zero]
  · -- the terminator takes the place of the last character
    have hmin : min name.length serviceNameMax = serviceNameMax := by omega
    have hdrop : logItemTag.drop name.length = [] := by
      rw [List.drop_eq_nil_iff, length_logItemTag, heq]
    have hrest : name.drop (serviceNameMax + 1) = [] := by
      rw [List.drop_eq_nil_iff, heq]
    rw [hmin, hdrop, List.append_nil, List.set_eq_take_append_cons_drop, if_pos (by omega), hrest,
      Nat.add_sub_cancel_left, List.replicate_one]

theorem copiedLen_eq {name : Text} (h : name.length ≤ serviceNameMax + 1) :
    (if logItemTag.length = name.length then logItemTag.length - 1 else name.length) =
      min name.length serviceNameMax := by
  rw [length_logItemTag]
  split_ifs with heq <;> omega

theorem copyTag_eq (hinner : inner.length + 2 ≤ taNameExtensionLen)
    (hdash : dashChar ∈ inner → (taskName inner).length ≤ serviceNameMax) :
    (if logItemTag.length < (taskName inner).length then
        (0, List.replicate logItemTag.length 0)
      else
        let copied := taskName inner ++ logItemTag.drop (taskName inner).length
        let tagLen := if logItemTag.length = (taskName inner).length then logItemTag.length - 1
          else (taskName inner).length
        (tagLen, copied.set tagLen 0)) = tagResult inner := by
  rw [tagResult]
  by_cases hlong : logItemTag.length < (taskName inner).length
  · have hfit : ¬ TagFits inner := by
      intro hfit
      rw [length_logItemTag] at hlong
      rcases hfit.name_le with hle | ⟨-, hle⟩ <;> omega
    rw [if_pos hlong, if_neg hfit]
    rfl
  · have hle : (taskName inner).length ≤ serviceNameMax + 1 := by
      rw [length_logItemTag] at hlong
      omega
    rw [if_neg hlong]
    simp only [copiedLen_eq hle, copied_eq hle]
    by_cases hpos : 0 < (taskName inner).length
    · have hfit : TagFits inner := by
        refine ⟨hinner, hpos, ?_⟩
        by_cases hmem : dashChar ∈ inner
        · exact .inl (hdash hmem)
        · rcases Nat.lt_or_eq_of_le hle with hlt | heq
          · exact .inl (by omega)
          · exact .inr ⟨hmem, heq⟩
      rw [if_pos hfit]
    · have hnil : taskName inner = [] := List.length_eq_zero_iff.mp (by omega)
      rw [if_neg fun hfit => hpos hfit.name_pos, hnil]
      rfl

theorem getLogItemTag_of_brackets (h : Brackets s pre inner post)
    (hs : logBuffer.takeWhile (· ≠ 0) = s) : getLogItemTag logBuffer logItemTag = tagResult inner := by
  have hopen : s.idxOf? openChar = some pre.length := by
    rw [h.text, idxOf?_append_cons h.open_first]
  have hclose : s.idxOf? closeChar = some (pre.length + 1 + inner.length) := by
    have hfront : closeChar ∉ pre ++ openChar :: inner := by
      rw [List.mem_append, List.mem_cons]
      rintro (hmem | hmem | hmem)
      · exact h.close_pre hmem
      · exact absurd hmem (by decide)
      · exact h.close_inner hmem
    have htext : s = (pre ++ openChar :: inner) ++ closeChar :: post := by rw [h.text]; simp
    rw [htext, idxOf?_append_cons hfront, List.length_append, List.length_cons]
    congr 1
    omega
  have hsub : pre.length + 1 + inner.length + 1 - pre.length = inner.length + 2 := by omega
  have hdrop : s.drop (pre.length + 1) = inner ++ closeChar :: post := by
    rw [h.text, List.drop_append, List.drop_of_length_le (Nat.le_succ _), Nat.add_sub_cancel_left]
    rfl
  have hname : (s.drop (pre.length + 1)).take (taskName inner).length = taskName inner := by
    obtain ⟨more, hmore⟩ := taskName_initial inner
    rw [hdrop]
    nth_rewrite 2 [← hmore]
    rw [List.append_assoc, List.take_left]
  simp only [getLogItemTag, hs, hopen, hclose, hsub]
  by_cases hlimit : pre.length + 1 + inner.length ≤ pre.length + 1 ∨
      taNameExtensionLen < inner.length + 2
  · have hfit : ¬ TagFits inner := by
      intro hfit
      have hpos := hfit.name_pos.trans_le (taskName_initial inner).length_le
      have hle := hfit.inner_le
      omega
    rw [if_pos hlimit, tagResult, if_neg hfit]
  · rw [if_neg hlimit]
    have hinner : inner.length + 2 ≤ taNameExtensionLen := by omega
    by_cases hdash : dashChar ∈ inner
    · obtain ⟨name, rest, rfl, hrest⟩ := exists_last_dash hdash
      have htask := taskName_append name hrest
      have hlen : pre.length + 1 + name.length - pre.length - 1 = name.length := by omega
      simp only [h.getMiddleChar_some hrest, Option.mem_def, Option.some.injEq, exists_eq_left',
        hlen]
      rw [htask] at hname
      by_cases hlong : serviceNameMax < name.length
      · have hfit : ¬ TagFits (name ++ dashChar :: rest) := by
          intro hfit
          rcases hfit.name_le with hle | ⟨hnot, -⟩
          · rw [htask] at hle
            omega
          · exact hnot hdash
        rw [if_pos hlong, tagResult, if_neg hfit]
      · rw [if_neg hlong, hname]
        have hcopy := copyTag_eq hinner (fun _ => by rw [htask]; omega)
        rw [htask] at hcopy
        exact hcopy
    · have htask := taskName_of_notMem hdash
      have hlen : pre.length + 1 + inner.length - pre.length - 1 = inner.length := by omega
      simp only [h.getMiddleChar_none hdash, Option.mem_def, reduceCtorEq, false_and,
        exists_false, if_false, hlen]
      rw [htask] at hname
      rw [hname]
      have hcopy := copyTag_eq hinner (fun hmem => absurd hmem hdash)
      rw [htask] at hcopy
      exact hcopy

theorem exists_brackets {back : Text} (hopen : openChar ∉ pre) (hpre : closeChar ∉ pre)
    (hback : closeChar ∈ back) :
    ∃ inner post, Brackets (pre ++ openChar :: back) pre inner post := by
  obtain ⟨inner, post, rfl, hinner⟩ := List.eq_append_cons_of_mem hback
  exact ⟨inner, post, rfl, hopen, hpre, hinner⟩

theorem takeWhile_append_cons {c : BitVec 8} {front back : Text} (h : c ∉ front) :
    (front ++ c :: back).takeWhile (· ≠ c) = front := by
  rw [List.takeWhile_append_of_pos]
  · rw [List.takeWhile_cons_of_neg (by simp), List.append_nil]
  · intro b hb
    simpa using ne_of_mem_of_not_mem hb h

theorem behindOpen_append {back : Text} (h : openChar ∉ pre) :
    behindOpen (pre ++ openChar :: back) = back := by
  rw [behindOpen, List.dropWhile_append_of_pos]
  · rw [List.dropWhile_cons_of_neg (by simp)]
    rfl
  · intro b hb
    simpa using ne_of_mem_of_not_mem hb h

theorem eq_behindOpen (h : openChar ∈ text) :
    ∃ pre, openChar ∉ pre ∧ text = pre ++ openChar :: behindOpen text := by
  obtain ⟨pre, back, rfl, hpre⟩ := List.eq_append_cons_of_mem h
  exact ⟨pre, hpre, by rw [behindOpen_append hpre]⟩

theorem bracketed_eq_some : bracketed s = some inner ↔ ∃ pre post, Brackets s pre inner post := by
  constructor
  · intro h
    simp only [bracketed, List.contains_iff_mem] at h
    split_ifs at h with hpre hback
    have hopen : openChar ∈ s := by
      by_contra hnot
      rw [behindOpen, List.dropWhile_eq_nil_iff.mpr] at hback
      · cases hback
      · intro c hc
        simpa using ne_of_mem_of_not_mem hc hnot
    obtain ⟨pre, hopen, hs⟩ := eq_behindOpen hopen
    rw [hs, takeWhile_append_cons hopen] at hpre
    obtain ⟨inner', post, hbrackets⟩ := exists_brackets hopen hpre hback
    rw [← hs] at hbrackets
    have heq : (behindOpen s).takeWhile (· ≠ closeChar) = inner' := by
      rw [hbrackets.text, behindOpen_append hopen, takeWhile_append_cons hbrackets.close_inner]
    rw [← Option.some.inj h, heq]
    exact ⟨pre, post, hbrackets⟩
  · rintro ⟨pre, post, h⟩
    rw [bracketed, h.text, takeWhile_append_cons h.open_first, behindOpen_append h.open_first,
      takeWhile_append_cons h.close_inner, if_neg (by simpa using h.close_pre), if_pos (by simp)]

theorem getLogItemTag_of_none (h : bracketed s = none) (hs : logBuffer.takeWhile (· ≠ 0) = s)
    (tagStr : Text) : getLogItemTag logBuffer tagStr = (0, tagStr) := by
  simp only [getLogItemTag, hs]
  by_cases hopen : openChar ∈ s
  · by_cases hclose : closeChar ∈ s
    · obtain ⟨pre, back, rfl, hpre⟩ := List.eq_append_cons_of_mem hopen
      have hin : closeChar ∈ pre := by
        by_contra hnot
        have hback : closeChar ∈ back := by
          rcases List.mem_append.mp hclose with hmem | hmem
          · exact absurd hmem hnot
          · exact (List.mem_cons.mp hmem).resolve_left (by decide)
        obtain ⟨inner, post, hbrackets⟩ := exists_brackets hpre hnot hback
        rw [bracketed_eq_some.mpr ⟨pre, post, hbrackets⟩] at h
        cases h
      -- the brackets are in the other order
      obtain ⟨front, mid, rfl, hfront⟩ := List.eq_append_cons_of_mem hin
      have hend : (front ++ closeChar :: mid ++ openChar :: back).idxOf? closeChar =
          some front.length := by
        rw [List.append_assoc, List.cons_append, idxOf?_append_cons hfront]
      rw [hend, idxOf?_append_cons hpre]
      have hle : front.length ≤ (front ++ closeChar :: mid).length + 1 := by
        rw [List.length_append]
        omega
      simp only [hle, true_or, if_true]
    · rw [List.idxOf?_eq_none_iff.mpr hclose]
      cases s.idxOf? openChar <;> rfl
  · rw [List.idxOf?_eq_none_iff.mpr hopen]

theorem getLogItemTag_eq (logBuffer : Text) : getLogItemTag logBuffer logItemTag =
    (bracketed (logBuffer.takeWhile (· ≠ 0))).elim (0, logItemTag) tagResult := by
  cases h : bracketed (logBuffer.takeWhile (· ≠ 0)) with
  | none => exact getLogItemTag_of_none h rfl logItemTag
  | some inner =>
    obtain ⟨pre, post, hbrackets⟩ := bracketed_eq_some.mp h
    exact getLogItemTag_of_brackets hbrackets rfl

theorem tagResult_pos : 0 < (tagResult inner).1 ↔ TagFits inner := by
  rw [tagResult]
  split_ifs with h
  · refine iff_of_true ?_ h
    have hpos := h.name_pos
    rw [serviceNameMax]
    dsimp only
    omega
  · exact iff_of_false (Nat.lt_irrefl 0) h

theorem isTag_tagResult (h : TagFits inner) (hzero : 0 ∉ inner) :
    IsTag (taskName inner) (tagResult inner).1 (tagResult inner).2 := by
  have hcut : (taskName inner).length ≤ serviceNameMax + 1 := by
    rcases h.name_le with hle | ⟨-, heq⟩ <;> omega
  have hlen : ((taskName inner).take serviceNameMax).length =
      min (taskName inner).length serviceNameMax := by
    rw [List.length_take, Nat.min_comm]
  have hchars : ((taskName inner).take serviceNameMax ++
      List.replicate (serviceNameMax + 1 - min (taskName inner).length serviceNameMax) 0).take
        (min (taskName inner).length serviceNameMax) =
      (taskName inner).take (min (taskName inner).length serviceNameMax) := by
    rw [← hlen, List.take_left, hlen, List.take_eq_take_iff]
    omega
  rw [tagResult, if_pos h]
  refine ⟨rfl, hcut, hchars, ?_, ?_⟩
  · rw [List.getElem?_append_right hlen.le, hlen, Nat.sub_self,
      List.getElem?_replicate_of_lt (by omega)]
  · rw [hchars]
    intro hmem
    exact hzero ((taskName_initial inner).mem (List.mem_of_mem_take hmem))

end Found

section Behind

variable {s pre inner post text behind more x tail : Text}

theorem Brackets.append (h : Brackets s pre inner post) (more : Text) :
    Brackets (s ++ more) pre inner (post ++ more) where
  text := by rw [h.text]; simp
  open_first := h.open_first
  close_pre := h.close_pre
  close_inner := h.close_inner

theorem bracketed_mono (hpre : s <+: text) (h : bracketed s = some inner) :
    bracketed text = some inner := by
  obtain ⟨more, rfl⟩ := hpre
  obtain ⟨pre, post, hbrackets⟩ := bracketed_eq_some.mp h
  exact bracketed_eq_some.mpr ⟨pre, post ++ more, hbrackets.append more⟩

theorem bracketed_append (h : closeChar ∈ text) (more : Text) :
    bracketed (text ++ more) = bracketed text := by
  cases hfound : bracketed (text ++ more) with
  | none =>
    cases hown : bracketed text with
    | none => rfl
    | some inner =>
      rw [bracketed_mono (List.prefix_append text more) hown] at hfound
      cases hfound
  | some inner =>
    obtain ⟨pre, post, hbrackets⟩ := bracketed_eq_some.mp hfound
    have hfront : closeChar ∉ pre ++ openChar :: inner := by
      rw [List.mem_append, List.mem_cons]
      rintro (hmem | hmem | hmem)
      · exact hbrackets.close_pre hmem
      · exact absurd hmem (by decide)
      · exact hbrackets.close_inner hmem
    have htext : text ++ more = (pre ++ openChar :: inner) ++ closeChar :: post := by
      rw [hbrackets.text]; simp
    symm
    rw [bracketed_eq_some]
    rcases List.append_eq_append_iff.mp htext with ⟨rest, hrest, -⟩ | ⟨rest, hrest, hpost⟩
    · rw [hrest] at hfront
      exact absurd (List.mem_append_left rest h) hfront
    · cases rest with
      | nil =>
        rw [List.append_nil] at hrest
        exact absurd (hrest ▸ h) hfront
      | cons c rest =>
        obtain ⟨rfl, -⟩ := List.cons.inj hpost
        refine ⟨pre, rest, ?_, hbrackets.open_first, hbrackets.close_pre, hbrackets.close_inner⟩
        rw [hrest]
        simp

theorem TagFits.of_append (h : TagFits (tail ++ x)) (hlong : serviceNameMax < tail.length) :
    TagFits tail := by
  have hlen := h.inner_le
  rw [List.length_append] at hlen
  by_cases hx : dashChar ∈ x
  · obtain ⟨name, rest, rfl, hrest⟩ := exists_last_dash hx
    have htask : taskName (tail ++ (name ++ dashChar :: rest)) = tail ++ name := by
      rw [← List.append_assoc, taskName_append _ hrest]
    rcases h.name_le with hle | ⟨hnot, -⟩
    · rw [htask, List.length_append] at hle
      omega
    · exact absurd (List.mem_append_right tail hx) hnot
  · by_cases htail : dashChar ∈ tail
    · obtain ⟨name, rest, rfl, hrest⟩ := exists_last_dash htail
      have hmore : dashChar ∉ rest ++ x := by
        rw [List.mem_append]
        exact not_or.mpr ⟨hrest, hx⟩
      have htask : taskName (name ++ dashChar :: rest ++ x) = taskName (name ++ dashChar :: rest) := by
        rw [List.append_assoc, List.cons_append, taskName_append _ hmore, taskName_append _ hrest]
      have hpos := h.name_pos
      rw [htask] at hpos
      refine ⟨by omega, hpos, ?_⟩
      rcases h.name_le with hle | ⟨hnot, -⟩
      · exact .inl (htask ▸ hle)
      · exact absurd (List.mem_append_left x htail) hnot
    · have hnone : dashChar ∉ tail ++ x := by
        rw [List.mem_append]
        exact not_or.mpr ⟨htail, hx⟩
      have hle := h.name_le
      rw [taskName_of_notMem hnone, List.length_append] at hle
      have htask := taskName_of_notMem htail
      refine ⟨by omega, by rw [htask]; omega, .inr ⟨htail, ?_⟩⟩
      rw [htask]
      omega

theorem exists_tagFits (h : tail.length ≤ serviceNameMax) :
    ∃ x, closeChar ∉ x ∧ 0 ∉ x ∧ TagFits (tail ++ x) := by
  have hmax : taNameExtensionLen = serviceNameMax + 8 := rfl
  by_cases hnil : tail = []
  · refine ⟨[0x61, dashChar], by decide, by decide, ?_⟩
    subst hnil
    decide
  · have htask : taskName (tail ++ [dashChar]) = tail := taskName_append tail List.not_mem_nil
    have hpos := List.length_pos_of_ne_nil hnil
    refine ⟨[dashChar], by decide, by decide, ?_, ?_, ?_⟩
    · rw [List.length_append, List.length_singleton]
      omega
    · rw [htask]
      exact hpos
    · rw [htask]
      exact .inl h

end Behind

section Records

variable {s pre inner post text behind x : Text}

theorem takeWhile_nonzero (h : 0 ∉ text) (behind : Text) :
    (text ++ behind).takeWhile (· ≠ 0) = text ++ behind.takeWhile (· ≠ 0) := by
  apply List.takeWhile_append_of_pos
  intro c hc
  simpa using ne_of_mem_of_not_mem hc h

theorem takeWhile_of_zero (h : 0 ∈ text) (behind : Text) :
    (text ++ behind).takeWhile (· ≠ 0) = text.takeWhile (· ≠ 0) := by
  obtain ⟨front, back, rfl, hfront⟩ := List.eq_append_cons_of_mem h
  rw [List.append_assoc, List.cons_append, takeWhile_append_cons hfront,
    takeWhile_append_cons hfront]

theorem TagsRecord.of_own (found : Option Text)
    (hget : ∀ behind, getLogItemTag (text ++ behind) logItemTag =
      found.elim (0, logItemTag) tagResult)
    (hfound : ∀ inner, found = some inner → 0 ∉ inner ∧ bracketed text = some inner) :
    TagsRecord text where
  own behind behind' := by rw [hget, hget]
  tag behind hpos := by
    rw [hget] at hpos ⊢
    cases found with
    | none => exact absurd hpos (Nat.lt_irrefl 0)
    | some inner =>
      obtain ⟨hzero, hown⟩ := hfound inner rfl
      exact ⟨inner, hown, isTag_tagResult (tagResult_pos.mp hpos) hzero⟩
  missing behind hnone := by
    rw [hget]
    cases found with
    | none => rfl
    | some inner =>
      have hempty := hnone inner (hfound inner rfl).2
      by_contra hne
      have hfit := tagResult_pos.mp (Nat.pos_of_ne_zero hne)
      have hpos := hfit.name_pos
      rw [hempty] at hpos
      exact Nat.lt_irrefl 0 hpos

theorem zero_notMem_bracketed (hs : 0 ∉ s) (h : bracketed s = some inner) : 0 ∉ inner := by
  obtain ⟨pre, post, hbrackets⟩ := bracketed_eq_some.mp h
  intro hmem
  apply hs
  rw [hbrackets.text, List.mem_append, List.mem_cons, List.mem_append]
  exact .inr (.inr (.inl hmem))

theorem tagsRecord_of_zero (h : 0 ∈ text) : TagsRecord text := by
  apply TagsRecord.of_own (bracketed (text.takeWhile (· ≠ 0)))
  · intro behind
    rw [getLogItemTag_eq, takeWhile_of_zero h]
  · intro inner hinner
    have hzero : 0 ∉ text.takeWhile (· ≠ 0) := by
      intro hmem
      simpa using List.mem_takeWhile_imp hmem
    exact ⟨zero_notMem_bracketed hzero hinner,
      bracketed_mono (List.takeWhile_prefix _) hinner⟩

theorem tagsRecord_of_close (hzero : 0 ∉ text) (h : closeChar ∈ text) : TagsRecord text := by
  apply TagsRecord.of_own (bracketed text)
  · intro behind
    rw [getLogItemTag_eq, takeWhile_nonzero hzero, bracketed_append h]
  · intro inner hinner
    exact ⟨zero_notMem_bracketed hzero hinner, hinner⟩

theorem Brackets.exists_tail (hopen : openChar ∈ text) (hclose : closeChar ∉ text)
    (h : Brackets (text ++ behind) pre inner post) : ∃ x, inner = behindOpen text ++ x := by
  obtain ⟨front, hfront, htext⟩ := eq_behindOpen hopen
  have hback : behindOpen (text ++ behind) = behindOpen text ++ behind := by
    nth_rewrite 1 [htext]
    rw [List.append_assoc, List.cons_append, behindOpen_append hfront]
  rw [h.text, behindOpen_append h.open_first] at hback
  rcases List.append_eq_append_iff.mp hback with ⟨rest, htail, hrest⟩ | ⟨rest, hinner, -⟩
  · cases rest with
    | nil => exact ⟨[], by rw [htail, List.append_nil, List.append_nil]⟩
    | cons c rest =>
      obtain ⟨rfl, -⟩ := List.cons.inj hrest
      rw [htext, htail] at hclose
      exact absurd (by simp) hclose
  · exact ⟨rest, hinner⟩

theorem tagsRecord_of_long (hzero : 0 ∉ text) (hclose : closeChar ∉ text) (hopen : openChar ∈ text)
    (hlong : serviceNameMax < (behindOpen text).length) (hfit : ¬ TagFits (behindOpen text)) :
    TagsRecord text := by
  apply TagsRecord.of_own none
  · intro behind
    rw [getLogItemTag_eq, takeWhile_nonzero hzero]
    cases h : bracketed (text ++ behind.takeWhile (· ≠ 0)) with
    | none => rfl
    | some inner =>
      obtain ⟨pre, post, hbrackets⟩ := bracketed_eq_some.mp h
      obtain ⟨x, rfl⟩ := hbrackets.exists_tail hopen hclose
      exact if_neg fun hmore => hfit (hmore.of_append hlong)
  · intro inner hinner
    cases hinner

theorem not_tagsRecord (hzero : 0 ∉ text) (hclose : closeChar ∉ text) (hx : 0 ∉ x)
    (h : Brackets (text ++ x) pre inner post) (hfit : TagFits inner) : ¬ TagsRecord text := by
  intro htags
  have hnone : bracketed text = none := by
    cases hown : bracketed text with
    | none => rfl
    | some inner =>
      obtain ⟨pre, post, hbrackets⟩ := bracketed_eq_some.mp hown
      rw [hbrackets.text] at hclose
      exact absurd (by simp) hclose
  have hwhole : (text ++ x).takeWhile (· ≠ 0) = text ++ x := by
    rw [takeWhile_nonzero hzero, List.takeWhile_eq_self_iff.mpr]
    intro c hc
    simpa using ne_of_mem_of_not_mem hc hx
  have hpos := tagResult_pos.mpr hfit
  have hmissing := htags.missing x fun inner hinner => by rw [hnone] at hinner; cases hinner
  rw [getLogItemTag_eq, hwhole, bracketed_eq_some.mpr ⟨pre, post, h⟩, Option.elim_some] at hmissing
  omega

end Records

/-- The tag of a record is its own, unless the record has neither a zero nor a `]` and other data
can complete a tag that it begins. -/
theorem tagsRecord_iff (text : Text) : TagsRecord text ↔
    0 ∈ text ∨ closeChar ∈ text ∨ openChar ∈ text ∧
      serviceNameMax < (behindOpen text).length ∧ ¬ TagFits (behindOpen text) := by
  constructor
  · intro htags
    by_contra hnot
    obtain ⟨hzero, hnot⟩ := not_or.mp hnot
    obtain ⟨hclose, hnot⟩ := not_or.mp hnot
    by_cases hopen : openChar ∈ text
    · obtain ⟨pre, hpre, htext⟩ := eq_behindOpen hopen
      obtain ⟨x, hx, hxzero, hfit⟩ :
          ∃ x, closeChar ∉ x ∧ 0 ∉ x ∧ TagFits (behindOpen text ++ x) := by
        by_cases hshort : (behindOpen text).length ≤ serviceNameMax
        · exact exists_tagFits hshort
        · refine ⟨[], List.not_mem_nil, List.not_mem_nil, ?_⟩
          rw [List.append_nil]
          by_contra hfit
          exact hnot ⟨hopen, Nat.not_le.mp hshort, hfit⟩
      have hbrackets : Brackets (text ++ (x ++ [closeChar])) pre (behindOpen text ++ x) [] := by
        refine ⟨?_, hpre, ?_, ?_⟩
        · nth_rewrite 1 [htext]
          simp
        · intro hmem
          exact hclose (htext ▸ List.mem_append_left _ hmem)
        · rw [List.mem_append]
          rintro (hmem | hmem)
          · exact hclose (htext ▸ List.mem_append_right _ (List.mem_cons_of_mem _ hmem))
          · exact hx hmem
      have hzero' : 0 ∉ x ++ [closeChar] := by
        rw [List.mem_append]
        exact not_or.mpr ⟨hxzero, by decide⟩
      exact not_tagsRecord hzero hclose hzero' hbrackets hfit htags
    · -- the whole tag can be other data
      have hbrackets : Brackets (text ++ [openChar, 0x61, closeChar]) text [0x61] [] :=
        ⟨rfl, hopen, hclose, by decide⟩
      exact not_tagsRecord hzero hclose (by decide) hbrackets (by decide) htags
  · rintro (hzero | hclose | ⟨hopen, hlong, hfit⟩)
    · exact tagsRecord_of_zero hzero
    · by_cases hzero : 0 ∈ text
      · exact tagsRecord_of_zero hzero
      · exact tagsRecord_of_close hzero hclose
    · by_cases hzero : 0 ∈ text
      · exact tagsRecord_of_zero hzero
      · by_cases hclose : closeChar ∈ text
        · exact tagsRecord_of_close hzero hclose
        · exact tagsRecord_of_long hzero hclose hopen hlong hfit

/-- The record `x`, with `[a]` behind it. -/
theorem not_tagsRecord_x : ¬ TagsRecord [0x78] ∧
    getLogItemTag ([0x78] ++ []) logItemTag = (0, logItemTag) ∧
    (getLogItemTag ([0x78] ++ [openChar, 0x61, closeChar]) logItemTag).1 = 1 := by
  refine ⟨?_, by decide, by decide⟩
  intro h
  have hown := congrArg Prod.fst (h.own [] [openChar, 0x61, closeChar])
  revert hown
  decide

end TeeClient.Tlogcat
