import Stepwise.Code.Module
import Stepwise.Json.Tree

/-!
# Modules as data

A module as a data tree, for tools that work with compiled programs. Everything is in it but the
natives of the host.
-/

set_option autoImplicit false

namespace Stepwise

open Json (Tree)

/-! ## Types -/

/-- A type: its kind, and the name of a record. -/
def Ty.tree : Ty → Tree
  | .record name => .object [("kind", .string "record"), ("name", .string name)]
  | ty => .object [("kind", .string ty.name)]

/-- The function that calls go to. -/
def Callee.tree : Callee → Tree
  | .user index => .object [("kind", .string "user"), ("index", .natural index)]
  | .host index => .object [("kind", .string "host"), ("index", .natural index)]

/-- A record. -/
def RecordType.tree (r : RecordType) : Tree :=
  .object [("name", .string r.name),
    ("fields", .ofList (fun f => .object [("name", .string f.name), ("ty", f.ty.tree)]) r.fields)]

/-- A declared function. -/
def FunctionType.tree (f : FunctionType) : Tree :=
  .object [("name", .string f.name), ("params", .ofList Ty.tree f.params),
      ("return_type", f.result.tree),
    ("callee", f.callee.tree)]

/-- A table, each entry under its name. -/
def OrderedTable.tree {α : Type} (f : α → Tree) (t : OrderedTable α) : Tree :=
  .object (t.entries.map fun (name, entry) => (name, f entry))

/-- A registry. -/
def Registry.tree (r : Registry) : Tree :=
  .object [("all", r.types.tree Ty.tree), ("records", r.records.tree RecordType.tree),
    ("functions", r.userFunctions.tree FunctionType.tree),
    ("host_functions", r.hostFunctions.tree FunctionType.tree)]

/-! ## Places -/

/-- A position. -/
def Position.tree (p : Position) : Tree :=
  .object [("line", .natural p.line), ("column", .natural p.column), ("offset", .natural p.offset)]

/-- A span. -/
def Span.tree (s : Span) : Tree := .object [("start", s.start.tree), ("end", s.stop.tree)]

/-! ## Code -/

/-- A constant. -/
def Constant.tree : Constant → Tree
  | .boolean b => .boolean b
  | .number n => .number n
  | .string s => .string s

/-- The name of a binary operator. -/
def BinaryOp.label : BinaryOp → String
  | .add => "add"
  | .subtract => "sub"
  | .multiply => "mul"
  | .divide => "div"
  | .concat => "concat"
  | .less => "lt"
  | .lessEqual => "le"
  | .greater => "gt"
  | .greaterEqual => "ge"
  | .equal => "eq"
  | .notEqual => "ne"
  | .and => "and"
  | .or => "or"
  | .xor => "xor"

/-- The name of a unary operator. -/
def UnaryOp.label : UnaryOp → String
  | .negate => "neg"
  | .not => "not"

/-- The name of an instruction and its argument, if it has one. -/
def Instruction.parts : Instruction → String × Option Tree
  | .push c => ("push", some c.tree)
  | .pop => ("pop", none)
  | .dup => ("dup", none)
  | .load slot => ("load", some (.natural slot))
  | .store slot => ("store", some (.natural slot))
  | .loadField index => ("loadField", some (.natural index))
  | .storeField index => ("storeField", some (.natural index))
  | .jump target => ("jump", some (.natural target))
  | .jumpIfTrue target => ("jumpIfTrue", some (.natural target))
  | .jumpIfFalse target => ("jumpIfFalse", some (.natural target))
  | .call index => ("call", some (.natural index))
  | .callHost index => ("callExternal", some (.natural index))
  | .ret => ("return", none)
  | .binary op => ("binaryOp", some (.string op.label))
  | .unary op => ("unaryOp", some (.string op.label))
  | .concat => ("stringConcat", none)

/-- An instruction. -/
def Instruction.tree (i : Instruction) : Tree :=
  let (name, argument) := i.parts
  .object (("op", .string name) :: argument.toList.map fun a => ("arg", a))

/-- The statement of an instruction. -/
def LineInfo.tree (l : LineInfo) : Tree :=
  .object [("index", .natural l.index), ("line", .natural l.line)]

/-- A local. -/
def LocalInfo.tree (l : LocalInfo) : Tree :=
  .object [("name", .string l.name), ("ty", l.ty.tree), ("slot", .natural l.slot),
    ("scope", .object [("start_pc", .natural l.live.start), ("end_pc", .natural l.live.stop)]),
    ("is_parameter", .boolean l.isParameter), ("span", l.span.tree)]

/-- A breakpoint. -/
def breakpointTree (line : Nat) : Tree := .object [("line", .natural line)]

/-- The code of a function. -/
def FunctionCode.tree (f : FunctionCode) : Tree :=
  .object [("index", .natural f.index), ("signature", .string f.signature),
    ("num_parameters", .natural f.numParameters), ("return_type", f.returnType.tree),
    ("locals", .ofList LocalInfo.tree f.locals),
    ("instructions", .ofList Instruction.tree f.instructions.toList),
    ("line_infos", .ofList LineInfo.tree f.lineInfos.toList),
    ("breakpoints", .ofList (Tree.ofOption breakpointTree) f.breakpoints.toList)]

/-- A parameter of a host function. -/
def HostParameter.tree (p : HostParameter) : Tree :=
  .object [("name", .string p.name), ("type_name", .string p.typeName)]

/-- A host function; its span only if it has one. -/
def HostFunction.tree {σ : Type} (f : HostFunction σ) : Tree :=
  .object ([("name", .string f.name), ("params", .ofList HostParameter.tree f.params),
    ("return_type", .string f.resultName), ("is_async", .boolean f.isAsync),
    ("description", .string f.description)] ++ f.span.toList.map fun s => ("span", s.tree))

/-- A module. -/
def Module.tree {σ : Type} (m : Module σ) : Tree :=
  .object [("functions", .ofList FunctionCode.tree m.functions), ("types", m.registry.tree),
    ("host_functions", .ofList HostFunction.tree m.hostFunctions)]

end Stepwise
