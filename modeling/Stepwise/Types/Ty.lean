/-!
# Types of the language

There are four built-in types and one type per declared record. A type is known by its name; two
types with one name are the same type as long as no record bears the name of a built-in type, which
declarations ensure.

A call signature, `name(type,type)`, is what a call is resolved by; the full signature adds the type
of the result.
-/

set_option autoImplicit false

namespace Stepwise

/-- A type of the language. -/
inductive Ty where
  /-- The type of what is not there. -/
  | nothing
  | boolean
  | number
  | string
  | record (name : String)
  deriving Repr, DecidableEq, Inhabited

/-- The name that a type is written and reported with. -/
def Ty.name : Ty → String
  | .nothing => "nothing"
  | .boolean => "boolean"
  | .number => "number"
  | .string => "string"
  | .record name => name

/-- The built-in types. -/
def Ty.builtIn : List Ty := [.nothing, .boolean, .number, .string]

/-- The type that a name means: a built-in type, or else the record of that name. -/
def Ty.ofName (name : String) : Ty :=
  (Ty.builtIn.find? (·.name == name)).getD (.record name)

/-- Names between parentheses, behind a name: `name(a,b)`. -/
def applied (name : String) (arguments : List String) : String :=
  name ++ "(" ++ ",".intercalate arguments ++ ")"

/-- The key that calls are resolved by. -/
def callSignature (name : String) (params : List Ty) : String := applied name (params.map Ty.name)

/-- The call signature and the type of the result. -/
def signature (name : String) (params : List Ty) (result : Ty) : String :=
  callSignature name params ++ ":" ++ result.name

end Stepwise
