import Stepwise.Operator
import Stepwise.Source.Report
import Stepwise.Token.Basic
import Stepwise.Types.Ty

/-!
# What can be wrong with a program

The causes for which compilation stops, each with what its message names. A cause belongs to one
kind of fault and has one wording; a diagnostic is a cause with the span it is reported at.
-/

set_option autoImplicit false

namespace Stepwise

/-- Why compilation stops. -/
inductive Cause where
  /-- An exclamation mark without an equals sign. -/
  | loneExclamation
  /-- A character that starts no token. -/
  | unexpectedCharacter (c : Char)
  /-- A string without its closing quote on the line. -/
  | unterminatedString
  | expectedTerminal (expected : Terminal) (found : Token)
  | expectedIdentifier (found : Token)
  | expectedStatement (found : Token)
  | expectedExpression (found : Token)
  /-- A declaration inside a body. -/
  | nestedDeclaration (keyword : Token)
  /-- An assignment to what is neither a variable nor a field. -/
  | notAssignable
  | recordRedeclared (name : String) (line : Nat)
  | builtInRedeclared (name : String)
  | fieldRedeclared (record field : String)
  | fieldOfNothing (field : String)
  | unknownType (name : String)
  | hostTypeUnknown (name hostSignature : String)
  | hostParameterOfNothing (param hostSignature : String)
  /-- A record whose constructor has the call signature of a host function. -/
  | recordCollides (record existing : String)
  | hostRedeclared (call : String)
  | parameterRedeclared (name : String)
  | parameterOfNothing (name : String)
  | functionRedeclared (call : String) (line : Nat)
  /-- A function that the host provides already. -/
  | functionProvided (call : String)
  | variableRedeclared (name : String) (place : Position)
  | conditionMismatch (actual : Ty)
  | countMismatch (actual : Ty)
  /-- A variable initialised with a call that yields nothing. -/
  | variableOfNothing (name : String)
  | initialiserMismatch (name : String) (declared actual : Ty)
  | assignmentMismatch (target actual : Ty)
  /-- A `break` or `continue` in no loop. -/
  | outsideLoop (keyword : Terminal)
  | mainReturnsValue
  | unexpectedValue (function : String)
  | resultMismatch (function : String) (expected actual : Ty)
  | missingValue (function : String) (expected : Ty)
  | unknownVariable (name : String)
  | unknownFunction (call : String)
  | unknownField (record field : String)
  | fieldOfPrimitive (field : String) (actual : Ty)
  | unaryMismatch (op : UnaryOp) (actual : Ty)
  | binaryMismatch (op : BinaryOp) (left right : Ty)
  /-- An expression statement without a type annotation. -/
  | expressionUnchecked
  /-- A variable declaration without a type annotation. -/
  | variableUnchecked
  /-- A declaration of a name that is visible already, found while making code. -/
  | slotTaken (name : String) (place : Position)
  | slotMismatch (name : String) (annotated : Option Nat) (slot : Nat)
  | variableUnresolved (name : String)
  | fieldUnresolved (field : String)
  | fieldOfNonRecord
  | invalidTarget
  /-- A jump out of a loop where no loop is open. -/
  | strayJump
  | callUnresolved
  /-- A target to be set where there is no jump. -/
  | jumpMissing (place : Nat)
  deriving Repr, DecidableEq

namespace Cause

/-- The kind of fault that a cause belongs to. -/
def kind : Cause → FaultKind
  | loneExclamation | unexpectedCharacter _ | unterminatedString | expectedTerminal _ _ |
      expectedIdentifier _
  | expectedStatement _ | expectedExpression _ | nestedDeclaration _ | notAssignable => .grammar
  | expressionUnchecked | variableUnchecked | slotTaken _ _ | slotMismatch _ _ _ |
      variableUnresolved _
  | fieldUnresolved _ | fieldOfNonRecord | invalidTarget | strayJump | callUnresolved
  | jumpMissing _ => .internal
  | _ => .typing

/-- The wording of a name that is declared a second time. -/
def alreadyDefined (name : String) (place : Position) : String :=
  s!"Variable '{name}' is already defined in line {place.line}, column {place.column}."

/-- The wording of an optional slot number. -/
def slotText : Option Nat → String
  | none => "None"
  | some n => s!"Some({n})"

/-- The wording of a cause. -/
def message : Cause → String
  | loneExclamation => "Expected '=' after '!'. Use 'not' for negation."
  | unexpectedCharacter c => s!"Unexpected character '{c}'."
  | unterminatedString => "Unterminated string literal."
  | expectedTerminal expected found =>
    s!"Expected '{expected.spelling}', but found {found.describe}."
  | expectedIdentifier found => s!"Expected identifier, but found {found.describe}."
  | expectedStatement found => s!"Expected statement, but found {found.describe}."
  | expectedExpression found => s!"Expected expression, but found {found.describe}."
  | nestedDeclaration keyword =>
    s!"{keyword.describe} declarations are only allowed at the top level."
  | notAssignable => "Only variables and record fields can be assigned to."
  | recordRedeclared name line => s!"Record '{name}' is already declared in line {line}."
  | builtInRedeclared name => s!"'{name}' is a built-in type and can not be redeclared."
  | fieldRedeclared record field => s!"Record '{record}' already has a field '{field}'."
  | fieldOfNothing field => s!"Field '{field}' can not be of type 'nothing'."
  | unknownType name => s!"Unknown type '{name}'."
  | hostTypeUnknown name hostSignature =>
    s!"Unknown type '{name}' in host function '{hostSignature}'."
  | hostParameterOfNothing param hostSignature =>
    s!"Parameter '{param}' of host function '{hostSignature}' can not be of type 'nothing'."
  | recordCollides record existing =>
    s!"Record '{record}' collides with function '{existing}' provided by the environment."
  | hostRedeclared call => s!"Host function '{call}' is declared more than once."
  | parameterRedeclared name => s!"Parameter '{name}' is declared more than once."
  | parameterOfNothing name => s!"Parameter '{name}' can not be of type 'nothing'."
  | functionRedeclared call line => s!"Function '{call}' is already declared in line {line}."
  | functionProvided call => s!"Function '{call}' is already provided by the environment."
  | variableRedeclared name place => alreadyDefined name place
  | conditionMismatch actual =>
    s!"Condition must be of type 'boolean', but is of type '{actual.name}'."
  | countMismatch actual =>
    s!"Repeat count must be of type 'number', but is of type '{actual.name}'."
  | variableOfNothing name => s!"Can not assign a value of type 'nothing' to variable '{name}'."
  | initialiserMismatch name declared actual =>
    s!"Can not assign a value of type '{actual.name}' to variable '{name}' " ++
      s!"of type '{declared.name}'."
  | assignmentMismatch target actual =>
    s!"Can not assign a value of type '{actual.name}' to a target of type '{target.name}'."
  | outsideLoop keyword => s!"'{keyword.spelling}' can only be used inside a loop."
  | mainReturnsValue => "Can not return a value from the main program."
  | unexpectedValue function => s!"Function '{function}' does not return a value."
  | resultMismatch function expected actual =>
    s!"Function '{function}' must return a value of type '{expected.name}', " ++
      s!"but returns '{actual.name}'."
  | missingValue function expected =>
    s!"Function '{function}' must return a value of type '{expected.name}'."
  | unknownVariable name => s!"Unknown variable '{name}'."
  | unknownFunction call => s!"Unknown function '{call}'."
  | unknownField record field => s!"Record '{record}' has no field '{field}'."
  | fieldOfPrimitive field actual =>
    s!"Can not access field '{field}' of a value of type '{actual.name}'."
  | unaryMismatch op actual =>
    s!"Operator '{op.symbol}' can not be applied to a value of type '{actual.name}'."
  | binaryMismatch op left right =>
    s!"Operator '{op.symbol}' can not be applied to '{left.name}' and '{right.name}'."
  | expressionUnchecked => "Expression was not type checked."
  | variableUnchecked => "Variable was not type checked."
  | slotTaken name place => alreadyDefined name place
  | slotMismatch name annotated slot =>
    s!"Slot mismatch for '{name}': checker assigned {slotText annotated}, emitter {slot}."
  | variableUnresolved name => s!"Unresolved variable '{name}'."
  | fieldUnresolved field => s!"Unknown field '{field}'."
  | fieldOfNonRecord => "Field access on a non-record value."
  | invalidTarget => "Invalid assignment target."
  | strayJump => "'break' or 'continue' outside of a loop."
  | callUnresolved => "Call was not resolved."
  | jumpMissing place => s!"No jump to patch at {place}."

end Cause

/-- A cause and where it is reported. -/
structure Diagnostic where
  cause : Cause
  span : Span
  deriving Repr, DecidableEq

/-- The report of a diagnostic. -/
def Diagnostic.report (d : Diagnostic) : Report := ⟨d.cause.kind, d.cause.message, d.span⟩

/-- Compilation that may stop with a diagnostic. -/
abbrev Diagnosed (α : Type) := Except Diagnostic α

/-- Stops with a cause at a span. -/
def failAt {α : Type} (span : Span) (cause : Cause) : Diagnosed α := .error ⟨cause, span⟩

end Stepwise
