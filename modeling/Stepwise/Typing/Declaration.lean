import Stepwise.Diagnostic
import Stepwise.Host.Function
import Stepwise.Program.Tree

/-!
# Declarations

What a program declares enters the registry in this order: the names of the records, their fields,
the functions of the host followed by a constructor for every record, and the functions of the
program. The first declaration that breaks a rule is reported.
-/

set_option autoImplicit false

namespace Stepwise

/-- The type of a written name. -/
def resolveType (r : Registry) (name : Ident) : Diagnosed Ty :=
  match r.resolve? name.name with
  | some ty => .ok ty
  | none => failAt name.span (.unknownType name.name)

/-- The type of a written name that is not nothing. -/
def resolveStorable (r : Registry) (name : Ident) (ifNothing : Cause) : Diagnosed Ty := do
  let ty ← resolveType r name
  if ty = .nothing then failAt name.span ifNothing else return ty

/-! ## Records -/

/-- Declares the name of a record. -/
def declareRecord (r : Registry) (decl : RecordDecl) : Diagnosed Registry :=
  match r.record? decl.name.name with
  | some existing =>
    failAt decl.name.span (.recordRedeclared decl.name.name existing.span.start.line)
  | none =>
    if r.isDeclared decl.name.name then failAt decl.name.span (.builtInRedeclared decl.name.name)
    else .ok (r.declareRecord decl.name.name decl.span)

/-- Declares the names of records in order. -/
def declareRecords (r : Registry) : List RecordDecl → Diagnosed Registry
  | [] => .ok r
  | decl :: rest => do
    let r ← declareRecord r decl
    declareRecords r rest

/-- Finds the types of fields, behind the names of the fields before them. -/
def resolveFields (r : Registry) (record : String) (seen : List String) :
    List FieldDecl → Diagnosed (List FieldDecl)
  | [] => .ok []
  | f :: rest =>
    if f.name.name ∈ seen then failAt f.name.span (.fieldRedeclared record f.name.name)
    else do
      let ty ← resolveStorable r f.typeName (.fieldOfNothing f.name.name)
      let others ← resolveFields r record (f.name.name :: seen) rest
      return { f with ty := some ty } :: others

/-- The fields that a declaration with known types stands for. -/
def recordFields (fields : List FieldDecl) : List RecordField :=
  fields.map fun f => ⟨f.name.name, f.ty.getD .nothing⟩

/-- Finds the fields of records in order. -/
def resolveRecords (r : Registry) : List RecordDecl → Diagnosed (List RecordDecl × Registry)
  | [] => .ok ([], r)
  | decl :: rest => do
    let fields ← resolveFields r decl.name.name [] decl.fields
    let (others, r) ← resolveRecords (r.setFields decl.name.name (recordFields fields)) rest
    return ({ decl with fields } :: others, r)

/-! ## Functions of the host -/

/-- The constructor of a record: its fields are the parameters. -/
def recordConstructor {σ : Type} (decl : RecordDecl) : HostFunction σ :=
  ⟨decl.name.name, decl.fields.map fun f => ⟨f.name.name, f.typeName.name⟩, decl.name.name, false,
    "Create a new " ++ decl.name.name, some decl.name.span, .constructor⟩

/-- The type that a host function names. -/
def resolveHostType {σ : Type} (r : Registry) (host : HostFunction σ) (typeName : String) :
    Diagnosed Ty :=
  match r.resolve? typeName with
  | some ty => .ok ty
  | none => failAt host.place (.hostTypeUnknown typeName host.signature)

/-- The types of a host function's parameters. -/
def resolveHostParams {σ : Type} (r : Registry) (host : HostFunction σ) :
    List HostParameter → Diagnosed (List Ty)
  | [] => .ok []
  | p :: rest => do
    let ty ← resolveHostType r host p.typeName
    if ty = .nothing then failAt host.place (.hostParameterOfNothing p.name host.signature)
    else
      let others ← resolveHostParams r host rest
      return ty :: others

/-- Declares a host function under its number. -/
def declareHost {σ : Type} (r : Registry) (index : Nat) (host : HostFunction σ) :
    Diagnosed Registry := do
  let params ← resolveHostParams r host host.params
  let result ← resolveHostType r host host.resultName
  let f : FunctionType := ⟨host.name, params, result, .host index, host.place⟩
  match r.hostFunctions.find? f.callSignature with
  | none => return r.insertHost f
  | some existing =>
    match host.span with
    | some _ => failAt host.place (.recordCollides host.name existing.callSignature)
    | none => failAt host.place (.hostRedeclared f.callSignature)

/-- Declares host functions in order, numbered from `index`. -/
def declareHosts {σ : Type} (r : Registry) (index : Nat) : HostTable σ → Diagnosed Registry
  | [] => .ok r
  | host :: rest => do
    let r ← declareHost r index host
    declareHosts r (index + 1) rest

/-! ## Functions of the program -/

/-- Checks that no parameter's name is among those seen or declared twice. -/
def checkParamNames (seen : List String) : List Param → Diagnosed Unit
  | [] => .ok ()
  | p :: rest =>
    if p.name.name ∈ seen then failAt p.name.span (.parameterRedeclared p.name.name)
    else checkParamNames (p.name.name :: seen) rest

/-- Finds the types of parameters. -/
def resolveParams (r : Registry) : List Param → Diagnosed (List Param)
  | [] => .ok []
  | p :: rest => do
    let ty ← resolveStorable r p.typeName (.parameterOfNothing p.name.name)
    let others ← resolveParams r rest
    return { p with ty := some ty } :: others

/-- The type of a function's result. -/
def resolveResult (r : Registry) : Option Ident → Diagnosed Ty
  | some name => resolveType r name
  | none => .ok .nothing

/-- Finds the types of a function's parameters and result. -/
def resolveSignature (r : Registry) (decl : FunctionDecl) : Diagnosed FunctionDecl := do
  checkParamNames [] decl.params
  let params ← resolveParams r decl.params
  let result ← resolveResult r decl.returnTypeName
  return { decl with params, returnType := some result }

/-- Declares a function with known types under its number. -/
def declareUser (r : Registry) (index : Nat) (decl : FunctionDecl) : Diagnosed Registry :=
  let f : FunctionType :=
    ⟨decl.name.name, decl.paramTys, decl.resultTy, .user index, decl.name.span⟩
  match r.userFunctions.find? f.callSignature with
  | some existing =>
    failAt decl.name.span (.functionRedeclared f.callSignature existing.span.start.line)
  | none =>
    if r.hostFunctions.has f.callSignature then
      failAt decl.name.span (.functionProvided f.callSignature)
    else .ok (r.insertUser f)

/-- Declares functions in order, numbered from `index`. -/
def declareUsers (r : Registry) (index : Nat) :
    List FunctionDecl → Diagnosed (List FunctionDecl × Registry)
  | [] => .ok ([], r)
  | decl :: rest => do
    let decl ← resolveSignature r decl
    let r ← declareUser r index decl
    let (others, r) ← declareUsers r (index + 1) rest
    return (decl :: others, r)

end Stepwise
