import Mathlib.Tactic
import TeeClient.Lib.Memory

/-! The bounded copies of the securec library: a destination has a size, and nothing is written
behind it. -/

namespace Securec

open ByteMemory

def memMaxLen : Nat := 0x7fffffff

def stringMaxLen : Nat := 0x7fffffff

/-- `memcpy_s`: whether it is `EOK`, and the memory.  A destination that is too small is
cleared; one whose size is out of range is left alone. -/
def memcpyS (mem : Mem) (dest destMax : Nat) (src : Bytes) : Bool × Mem :=
  if destMax = 0 ∨ memMaxLen < destMax then (false, mem)
  else if destMax < src.length then (false, write mem dest (List.replicate destMax 0))
  else (true, write mem dest src)

variable {α : Type*}

def strncatS (dest : List α) (destMax : Nat) (src : List α) : Option (List α) :=
  if destMax ≤ stringMaxLen ∧ dest.length + src.length < destMax then some (dest ++ src) else none

def strncpyS (destMax : Nat) (src : List α) : Option (List α) := strncatS [] destMax src

theorem memcpyS_of_le {mem : Mem} {dest destMax : Nat} {src : Bytes} (h : 0 < destMax)
    (hmax : destMax ≤ memMaxLen) (hle : src.length ≤ destMax) :
    memcpyS mem dest destMax src = (true, write mem dest src) := by
  rw [memcpyS, if_neg (not_or.mpr ⟨Nat.ne_of_gt h, Nat.not_lt.mpr hmax⟩),
    if_neg (Nat.not_lt.mpr hle)]

theorem memcpyS_refused {mem : Mem} {dest destMax : Nat} {src : Bytes}
    (h : destMax = 0 ∨ memMaxLen < destMax) : memcpyS mem dest destMax src = (false, mem) :=
  if_pos h

theorem strncatS_eq_some {dest src text : List α} {destMax : Nat} :
    strncatS dest destMax src = some text ↔
      destMax ≤ stringMaxLen ∧ dest.length + src.length < destMax ∧ dest ++ src = text := by
  simp [strncatS, and_assoc]

end Securec
