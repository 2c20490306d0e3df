import Stepwise.Typing.Declaration
import Stepwise.Typing.Stmt

/-!
# Typing of programs

A program is checked against the functions of a host: declarations first, then the bodies of the
functions in order. The outcome is the annotated program with the registry and the host functions
that its calls refer to.
-/

set_option autoImplicit false

namespace Stepwise

/-- What code is made from, besides the functions: the registry, and the host functions with the
constructors. -/
structure Environment (σ : Type) where
  registry : Registry
  hostFunctions : HostTable σ

/-- A checked program. -/
structure CheckedProgram (σ : Type) where
  records : List RecordDecl
  functions : List FunctionDecl
  environment : Environment σ

/-- Declares parameters in order and notes their slots. -/
def checkParams (scopes : Scopes) : List Param → Diagnosed (List Param × Scopes)
  | [] => .ok ([], scopes)
  | p :: rest => do
    let (slot, scopes) ← declareVariable scopes p.name (p.ty.getD .nothing)
    let (others, scopes) ← checkParams scopes rest
    return ({ p with slot := some slot } :: others, scopes)

/-- Checks the body of a function whose signature is known. -/
def checkFunction (r : Registry) (decl : FunctionDecl) : Diagnosed FunctionDecl := do
  let (params, scopes) ← checkParams .initial decl.params
  let ctx : BodyContext := ⟨r, decl.name.name, decl.resultTy, decl.isMain⟩
  let (body, _) ← checkStmts ctx false scopes decl.body
  return { decl with params, body }

/-- Checks the bodies of functions in order. -/
def checkFunctions (r : Registry) : List FunctionDecl → Diagnosed (List FunctionDecl)
  | [] => .ok []
  | decl :: rest => do
    let decl ← checkFunction r decl
    let others ← checkFunctions r rest
    return decl :: others

/-- Checks records and functions against the functions of a host. -/
def checkProgram {σ : Type} (records : List RecordDecl) (functions : List FunctionDecl)
    (host : HostTable σ) :
    Diagnosed (CheckedProgram σ) := do
  let named ← declareRecords .initial records
  let (records, withFields) ← resolveRecords named records
  let hostFunctions := host ++ records.map recordConstructor
  let withHost ← declareHosts withFields 0 hostFunctions
  let (functions, registry) ← declareUsers withHost 0 functions
  let functions ← checkFunctions registry functions
  return ⟨records, functions, ⟨registry, hostFunctions⟩⟩

end Stepwise
