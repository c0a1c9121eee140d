import PeatBtle.Basic

/-!
# App-layer documents

Applications register a handler per document type. A handler works on
type-erased documents; what it does with them is up to the application.
-/

namespace PeatBtle

open Wire

def appTypeMin : UInt8 := 0xC0
def appTypeMax : UInt8 := 0xCF
def appOpBase : UInt8 := 0x10

@[ext] structure AppOperation where
  typeId : UInt8
  opCode : UInt8
  sourceNode : UInt32
  timestamp : UInt64
  payload : Bytes
deriving DecidableEq

namespace AppOperation

def isAppOpType (opType : UInt8) : Bool := appOpBase ≤ opType && opType < appOpBase + 16

def opTypeByte (op : AppOperation) : UInt8 := appOpBase + (op.typeId - appTypeMin)

def encode (op : AppOperation) : Bytes :=
  op.opTypeByte :: op.opCode :: (u32ToLe op.sourceNode ++ (u64ToLe op.timestamp ++
    (u16ToLe (UInt16.ofNat op.payload.length) ++ op.payload)))

/-- The operation and the number of bytes it took. -/
def decode (data : Bytes) : Option (AppOperation × Nat) :=
  if data.length < 16 then none
  else
    let opType := byteAt data 0
    if isAppOpType opType then
      let payloadLen := (u16At data 14).toNat
      if data.length < 16 + payloadLen then none
      else some
        ({ typeId := appTypeMin + (opType - appOpBase)
           opCode := byteAt data 1
           sourceNode := u32At data 2
           timestamp := u64At data 6
           payload := slice data 16 (16 + payloadLen) }, 16 + payloadLen)
    else none

end AppOperation

/-! ## Handlers -/

/-- What an application supplies for one document type. The flags say whether the document
changed. -/
structure DocumentHandler (D : Type) where
  decode : Bytes → Option D
  merge : D → D → D × Bool
  toDeltaOp : D → Option AppOperation
  applyDeltaOp : D → AppOperation → D × Bool

structure DocumentRegistry (D : Type) where
  handlers : Map UInt8 (DocumentHandler D)

namespace DocumentRegistry

variable {D : Type}

def new : DocumentRegistry D := ⟨∅⟩

/-- A type outside the app range or already registered is refused. -/
def tryRegister (r : DocumentRegistry D) (typeId : UInt8) (handler : DocumentHandler D) :
    DocumentRegistry D × Bool :=
  if (appTypeMin ≤ typeId ∧ typeId ≤ appTypeMax) ∧ ¬ typeId ∈ r.handlers then
    (⟨r.handlers.insert typeId handler⟩, true)
  else (r, false)

def decode (r : DocumentRegistry D) (typeId : UInt8) (data : Bytes) : Option D :=
  r.handlers[typeId]?.bind fun handler => handler.decode data

def merge (r : DocumentRegistry D) (typeId : UInt8) (doc other : D) : D × Bool :=
  r.handlers[typeId]?.elim (doc, false) fun handler => handler.merge doc other

def toDeltaOp (r : DocumentRegistry D) (typeId : UInt8) (doc : D) : Option AppOperation :=
  r.handlers[typeId]?.bind fun handler => handler.toDeltaOp doc

def applyDeltaOp (r : DocumentRegistry D) (typeId : UInt8) (doc : D) (op : AppOperation) :
    D × Bool :=
  r.handlers[typeId]?.elim (doc, false) fun handler => handler.applyDeltaOp doc op

end DocumentRegistry

/-! ## The document store -/

/-- A stored document is found by its type, its source and its timestamp. -/
structure DocumentKey where
  typeId : UInt8
  sourceNode : UInt32
  timestamp : UInt64
deriving DecidableEq

namespace DocumentKey

def cmp : DocumentKey → DocumentKey → Ordering :=
  compareLex (compareOn typeId) (compareLex (compareOn sourceNode) (compareOn timestamp))

instance : Ord DocumentKey := ⟨cmp⟩

instance : Std.TransOrd DocumentKey :=
  inferInstanceAs (Std.TransCmp
    (compareLex (compareOn typeId) (compareLex (compareOn sourceNode) (compareOn timestamp))))

instance : Std.LawfulEqOrd DocumentKey where
  eq_of_compare := by
    intro k k' h
    have hfields : cmp k k' = .eq := h
    simp only [cmp, compareLex, compareOn, Ordering.then_eq_eq, Std.LawfulEqOrd.compare_eq_iff_eq]
      at hfields
    cases k
    cases k'
    simp_all only

end DocumentKey

abbrev AppDocumentStore (D : Type) := Map DocumentKey D

end PeatBtle
