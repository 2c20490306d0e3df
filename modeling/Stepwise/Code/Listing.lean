import Stepwise.Code.Module

/-!
# Listings

A module as text: its records, the functions of its host, and for every function the locals with the
instructions they live in and the code, one instruction a line. An asterisk marks a breakpoint; in
brackets stand the number of the statement and its line.
-/

set_option autoImplicit false

namespace Stepwise

/-- A number, filled up on the left to a width. -/
def padded (width n : Nat) : String :=
  let digits := Nat.repr n
  String.ofList (List.replicate (width - digits.length) ' ') ++ digits

namespace FunctionCode

/-- The line of a local. -/
def localLine (l : LocalInfo) : String :=
  s!"    [{l.slot}] {l.name}: {l.ty.name}" ++ (if l.isParameter then ", param" else "") ++
    s!" (pc {l.live.start}..={l.live.stop})\n"

/-- The line of an instruction. -/
def codeLine (f : FunctionCode) (pc : Nat) (i : Instruction) : String :=
  let info := (f.lineInfos[pc]?).getD ⟨0, 0⟩
  let marker := if ((f.breakpoints[pc]?).getD none).isSome then "*" else " "
  "  " ++ marker ++ padded 4 pc ++ "  [" ++ padded 3 info.index ++ ":" ++ padded 4 info.line ++
      "] " ++ i.display ++
    "\n"

/-- The listing of a function. -/
def listing (f : FunctionCode) : String :=
  s!"fun {f.signature} (#{f.index})\n" ++
    (if f.locals.isEmpty then "" else "  locals:\n" ++ String.join (f.locals.map localLine)) ++
    "  code:\n" ++ String.join (f.instructions.toList.zipIdx.map fun (i, pc) => f.codeLine pc i)

end FunctionCode

/-- The line of a record. -/
def RecordType.listing (r : RecordType) : String :=
  s!"record {r.name} \x7b " ++ ", ".intercalate (r.fields.map fun f => s!"{f.name}: {f.ty.name}") ++
    " \x7d\n"

/-- The line of a host function. -/
def HostFunction.listing {σ : Type} (f : HostFunction σ) (index : Nat) : String :=
  s!"  #{index} {f.signature}" ++ (if f.isAsync then " async" else "") ++ "\n"

/-- The listing of a module. -/
def Module.listing {σ : Type} (m : Module σ) : String :=
  String.join (m.registry.records.values.map (·.listing)) ++
    (if m.hostFunctions.isEmpty then ""
      else "host functions:\n" ++
        String.join (m.hostFunctions.zipIdx.map fun (f, i) => f.listing i)) ++
    String.join (m.functions.map fun f => "\n" ++ f.listing)

end Stepwise
