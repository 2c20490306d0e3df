import Stepwise.Source.Position
import Stepwise.Types.OrderedTable
import Stepwise.Types.Ty

/-!
# The registry of types and functions

What a program's declarations amount to: the known types, the fields of each record, and the
functions of the program and of its host, each under its call signature. A call resolves to the
program's function before the host's.
-/

set_option autoImplicit false

namespace Stepwise

/-- Which function a call goes to: one of the program or one of the host, by number. -/
inductive Callee where
  | user (index : Nat)
  | host (index : Nat)
  deriving Repr, DecidableEq

/-- A field of a record. -/
structure RecordField where
  name : String
  ty : Ty
  deriving Repr, DecidableEq

/-- A declared record: its fields in order and where it was declared. -/
structure RecordType where
  name : String
  fields : List RecordField
  span : Span
  deriving Repr, DecidableEq

/-- The place of a field among the fields. -/
def RecordType.fieldIndex? (r : RecordType) (name : String) : Option Nat :=
  r.fields.findIdx? (·.name == name)

/-- The field of a name. -/
def RecordType.field? (r : RecordType) (name : String) : Option RecordField :=
  r.fields.find? (·.name == name)

/-- A declared function and what a call of it goes to. -/
structure FunctionType where
  name : String
  params : List Ty
  result : Ty
  callee : Callee
  span : Span
  deriving Repr, DecidableEq

/-- The key that calls of the function are resolved by. -/
def FunctionType.callSignature (f : FunctionType) : String := Stepwise.callSignature f.name f.params

/-- The call signature and the type of the result. -/
def FunctionType.signature (f : FunctionType) : String :=
  Stepwise.signature f.name f.params f.result

/-- All types and functions known to a program. -/
structure Registry where
  /-- Every type by name. -/
  types : OrderedTable Ty
  /-- Every record by name. -/
  records : OrderedTable RecordType
  /-- The program's functions by call signature. -/
  userFunctions : OrderedTable FunctionType
  /-- The host's functions by call signature. -/
  hostFunctions : OrderedTable FunctionType
  deriving Repr, DecidableEq

namespace Registry

/-- The registry of the built-in types alone. -/
def initial : Registry :=
  ⟨Ty.builtIn.foldl (fun t ty => t.insert ty.name ty) .empty, .empty, .empty, .empty⟩

instance : Inhabited Registry := ⟨initial⟩

/-- The type of a name. -/
def resolve? (r : Registry) (name : String) : Option Ty := r.types.find? name

/-- Whether a name is that of a type. -/
def isDeclared (r : Registry) (name : String) : Bool := r.types.has name

/-- The record of a name. -/
def record? (r : Registry) (name : String) : Option RecordType := r.records.find? name

/-- The registry with a record's name declared; its fields are still to come. -/
def declareRecord (r : Registry) (name : String) (span : Span) : Registry :=
  { r with types := r.types.insert name (.record name), records :=
    r.records.insert name ⟨name, [], span⟩ }

/-- The registry with the fields of a declared record set. -/
def setFields (r : Registry) (name : String) (fields : List RecordField) : Registry :=
  { r with records := r.records.adjust name fun rec => { rec with fields } }

/-- The registry with a function of the program added. -/
def insertUser (r : Registry) (f : FunctionType) : Registry :=
  { r with userFunctions := r.userFunctions.insert f.callSignature f }

/-- The registry with a function of the host added. -/
def insertHost (r : Registry) (f : FunctionType) : Registry :=
  { r with hostFunctions := r.hostFunctions.insert f.callSignature f }

/-- The function that a call with these argument types goes to. -/
def resolveCall? (r : Registry) (name : String) (arguments : List Ty) : Option FunctionType :=
  let key := callSignature name arguments
  r.userFunctions.find? key <|> r.hostFunctions.find? key

end Registry

end Stepwise
