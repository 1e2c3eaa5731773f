import Mathlib.Tactic

/-! The data types shared by `libteec`, `libteec_vendor` and `cadaemon`: the
constants of `tee_client_constants.h` and the structures of `tee_client_type.h`,
over an arbitrary type `P` of pointers. -/

namespace TeeClient

/-- The instance behind every literal of `Fin 4`, the slots of an operation, so that it is the
same one in all modules. -/
instance neZeroSlots : NeZero 4 := ⟨by decide⟩

abbrev U32 := BitVec 32
abbrev Byte := BitVec 8

def uint32Max : U32 := 0xFFFFFFFF

theorem uint32Max_sub_lt {a b : U32} :
    uint32Max - a < b ↔ 4294967296 ≤ a.toNat + b.toNat := by
  have hmax : uint32Max.toNat = 4294967295 := rfl
  rw [BitVec.lt_def, BitVec.toNat_sub, hmax]
  omega

/-- `TEEC_ReturnCode`, as far as the modelled functions return it.  `code` is a
value that the driver or the trusted application chose. -/
inductive TeecResult
  | success
  | errorTrustedAppLoadError
  | errorGeneric
  | errorAccessDenied
  | errorBadParameters
  | errorNotImplemented
  | errorOutOfMemory
  | errorSecurity
  | fail
  | code (n : U32)
  deriving DecidableEq, Repr

/-- The sixteen values of a four-bit parameter type; `reserved4` and `reservedB`
have no name in `TEEC_ParamType`. -/
inductive ParamType
  | none | valueInput | valueOutput | valueInout
  | reserved4 | memrefTempInput | memrefTempOutput | memrefTempInout
  | ionInput | ionSglistInput | memrefSharedInout | reservedB
  | memrefWhole | memrefPartialInput | memrefPartialOutput | memrefPartialInout
  deriving DecidableEq, Repr

namespace ParamType

def code : ParamType → U32
  | .none => 0x0
  | .valueInput => 0x1
  | .valueOutput => 0x2
  | .valueInout => 0x3
  | .reserved4 => 0x4
  | .memrefTempInput => 0x5
  | .memrefTempOutput => 0x6
  | .memrefTempInout => 0x7
  | .ionInput => 0x8
  | .ionSglistInput => 0x9
  | .memrefSharedInout => 0xa
  | .reservedB => 0xb
  | .memrefWhole => 0xc
  | .memrefPartialInput => 0xd
  | .memrefPartialOutput => 0xe
  | .memrefPartialInout => 0xf

def ofCode (w : U32) : ParamType :=
  if w = 0x0 then .none
  else if w = 0x1 then .valueInput
  else if w = 0x2 then .valueOutput
  else if w = 0x3 then .valueInout
  else if w = 0x4 then .reserved4
  else if w = 0x5 then .memrefTempInput
  else if w = 0x6 then .memrefTempOutput
  else if w = 0x7 then .memrefTempInout
  else if w = 0x8 then .ionInput
  else if w = 0x9 then .ionSglistInput
  else if w = 0xa then .memrefSharedInout
  else if w = 0xb then .reservedB
  else if w = 0xc then .memrefWhole
  else if w = 0xd then .memrefPartialInput
  else if w = 0xe then .memrefPartialOutput
  else .memrefPartialInout

@[simp] theorem ofCode_code (t : ParamType) : ofCode t.code = t := by
  cases t <;> rfl

theorem code_and_mask (t : ParamType) : t.code &&& 0xF = t.code := by
  cases t <;> rfl

def isTempMem : ParamType → Bool
  | .memrefTempInput | .memrefTempOutput | .memrefTempInout => true
  | _ => false

def isPartialMem : ParamType → Bool
  | .memrefWhole | .memrefPartialInput | .memrefPartialOutput | .memrefPartialInout => true
  | _ => false

def isValueMem : ParamType → Bool
  | .valueInput | .valueOutput | .valueInout => true
  | _ => false

def isSharedMem : ParamType → Bool
  | .memrefSharedInout => true
  | _ => false

theorem isTempMem_of_isPartialMem {t : ParamType} (h : t.isPartialMem = true) :
    t.isTempMem = false := by
  cases t <;> simp_all [isTempMem, isPartialMem]

theorem isSharedMem_iff {t : ParamType} : t.isSharedMem = true ↔ t = .memrefSharedInout := by
  cases t <;> simp [isSharedMem]

end ParamType

def paramTypeGet (paramTypes : U32) (index : Fin 4) : ParamType :=
  .ofCode ((paramTypes >>> (4 * index.val)) &&& 0x0F)

def paramTypes (t0 t1 t2 t3 : U32) : U32 :=
  t3 <<< 12 ||| t2 <<< 8 ||| t1 <<< 4 ||| t0

theorem nibble_getElem {w : U32} (hw : w &&& 0xF = w) {i : Nat} (hi : i < 32) (h : 4 ≤ i) :
    w[i] = false := by
  rw [← hw]
  interval_cases i <;> simp

@[simp] theorem paramTypeGet_paramTypes (t : Fin 4 → ParamType) (i : Fin 4) :
    paramTypeGet (paramTypes (t 0).code (t 1).code (t 2).code (t 3).code) i = t i := by
  have high (j : Fin 4) {k : Nat} (hk : k < 32) (h : 4 ≤ k) : (t j).code[k] = false :=
    nibble_getElem (ParamType.code_and_mask _) hk h
  have packed : ((paramTypes (t 0).code (t 1).code (t 2).code (t 3).code) >>> (4 * i.val)) &&& 0x0F
      = (t i).code := by
    rw [← ParamType.code_and_mask (t i)]
    ext k hk
    simp only [paramTypes]
    fin_cases i <;> interval_cases k <;> simp [high]
  rw [paramTypeGet, packed, ParamType.ofCode_code]

def memInput : U32 := 0x1
def memOutput : U32 := 0x2
def memInout : U32 := 0x3
def memSharedInout : U32 := 0x4

/-- The direction of a `MEMREF_PARTIAL` type has to be among the parent's flags;
`MEMREF_WHOLE` is not looked at. -/
def flagsAllow (paramType : ParamType) (flags : U32) : Bool :=
  match paramType with
  | .memrefPartialInput => flags &&& memInput ≠ 0
  | .memrefPartialOutput => flags &&& memOutput ≠ 0
  | .memrefPartialInout => flags &&& memInput ≠ 0 && flags &&& memOutput ≠ 0
  | _ => true

def isPartialRange : ParamType → Bool
  | .memrefPartialInput | .memrefPartialOutput | .memrefPartialInout => true
  | _ => false

def zeroSizePtr : Nat := 16

structure SharedMemory (P : Type) where
  buffer : P
  size : U32
  flags : U32
  opsCnt : U32
  isAllocated : Bool
  deriving DecidableEq, Repr

/-- The union `TEEC_Parameter`.  Its first eight bytes are read as a pointer
(`tmpref.buffer`, `memref.parent`) or as two words (`value.a` and `value.b`,
`ionref.ion_share_fd` and `ionref.ion_size`); `size` is shared by `tmpref` and
`memref`. -/
structure Parameter (P : Type) where
  ptr : P
  a : U32
  b : U32
  size : U32
  offset : U32
  deriving DecidableEq, Repr

namespace Parameter

variable {P : Type}

def ionShareFd (p : Parameter P) : Int := p.a.toInt

def ionSize (p : Parameter P) : U32 := p.b

end Parameter

section Check

variable {P : Type} [DecidableEq P] [Zero P]

/-- The check of a temporary reference, in the words of both libraries: a null
buffer is empty and only a null buffer is. -/
def checkTmpRef (tmpref : Parameter P) : TeecResult :=
  if tmpref.ptr = 0 ∧ tmpref.size ≠ 0 then .errorBadParameters
  else if tmpref.ptr ≠ 0 ∧ tmpref.size = 0 then .errorBadParameters
  else .success

theorem checkTmpRef_eq_success {tmpref : Parameter P} :
    checkTmpRef tmpref = .success ↔ (tmpref.ptr = 0 ↔ tmpref.size = 0) := by
  by_cases hp : tmpref.ptr = 0 <;> by_cases hs : tmpref.size = 0 <;>
    simp [checkTmpRef, hp, hs]

end Check

/-- The sixteen bytes of a `TEEC_Parameter`: what one process writes into a parcel
is reinterpreted by the other. -/
structure RawParameter where
  word : BitVec 64
  size : U32
  offset : U32
  deriving DecidableEq, Repr

def RawParameter.view {P : Type} (ptr : BitVec 64 → P) (p : RawParameter) : Parameter P where
  ptr := ptr p.word
  a := p.word.extractLsb' 0 32
  b := p.word.extractLsb' 32 32
  size := p.size
  offset := p.offset

structure Operation (P : Type) where
  started : U32
  paramTypes : U32
  params : Fin 4 → Parameter P
  cancelFlag : Bool
  deriving DecidableEq

namespace Operation

variable {P : Type}

def paramType (op : Operation P) (i : Fin 4) : ParamType := paramTypeGet op.paramTypes i

def setParam (op : Operation P) (i : Fin 4) (p : Parameter P) : Operation P :=
  { op with params := Function.update op.params i p }

@[simp] theorem paramTypes_setParam (op : Operation P) (i : Fin 4) (p : Parameter P) :
    (op.setParam i p).paramTypes = op.paramTypes := rfl

@[simp] theorem paramType_setParam (op : Operation P) (i j : Fin 4) (p : Parameter P) :
    (op.setParam i p).paramType j = op.paramType j := rfl

@[simp] theorem params_setParam_self (op : Operation P) (i : Fin 4) (p : Parameter P) :
    (op.setParam i p).params i = p := by simp [setParam]

@[simp] theorem params_setParam_of_ne (op : Operation P) {i j : Fin 4} (h : j ≠ i)
    (p : Parameter P) : (op.setParam i p).params j = op.params j := by simp [setParam, h]

/-- Both `OpenSession` paths keep slots 0 and 1 and overwrite the types of slots
2 and 3, which carry the caller's identity. -/
def maskIdentParams (op : Operation P) : Operation P :=
  { op with
    paramTypes := TeeClient.paramTypes (op.paramType 0).code (op.paramType 1).code
      ParamType.none.code ParamType.none.code }

theorem paramType_maskIdentParams (op : Operation P) (i : Fin 4) :
    op.maskIdentParams.paramType i = if i.val < 2 then op.paramType i else .none := by
  have h := paramTypeGet_paramTypes
    (fun j => if j.val < 2 then op.paramType j else .none) i
  simpa [maskIdentParams, paramType] using h

end Operation

structure RawOperation where
  started : U32
  paramTypes : U32
  params : Fin 4 → RawParameter
  cancelFlag : Bool
  deriving DecidableEq

namespace RawOperation

def paramType (op : RawOperation) (i : Fin 4) : ParamType := paramTypeGet op.paramTypes i

def view {P : Type} (ptr : BitVec 64 → P) (op : RawOperation) : Operation P where
  started := op.started
  paramTypes := op.paramTypes
  params i := (op.params i).view ptr
  cancelFlag := op.cancelFlag

@[simp] theorem paramType_view {P : Type} (ptr : BitVec 64 → P) (op : RawOperation) (i : Fin 4) :
    (op.view ptr).paramType i = op.paramType i := rfl

@[simp] theorem params_view {P : Type} (ptr : BitVec 64 → P) (op : RawOperation) (i : Fin 4) :
    (op.view ptr).params i = (op.params i).view ptr := rfl

end RawOperation

def paramIndices : List (Fin 4) := [0, 1, 2, 3]

@[simp] theorem mem_paramIndices (i : Fin 4) : i ∈ paramIndices := by
  fin_cases i <;> simp [paramIndices]

end TeeClient
