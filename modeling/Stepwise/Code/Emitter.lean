import Stepwise.Code.Module
import Stepwise.Diagnostic
import Stepwise.Scopes

/-!
# The emitter

What making the code of a function has at hand. Code only grows at its end. A jump whose target is
not known yet is made with the target 0 and patched as soon as it is: the jumps of an `if` or a loop
when their construct is complete, those of `break` and `continue` by the loop around them, in whose
context their places wait until then.

The locals of a block are likewise noted while it is open; their ranges end where the block is
closed.

* `Emitter.patchJump` sets the target of one jump and fails where there is none.
* `Emitter.openLoop` and `Emitter.closeLoop` are what stands around the body of a loop.
-/

set_option autoImplicit false

namespace Stepwise

/-- An instruction and the statement it belongs to. -/
structure CodeLine where
  instruction : Instruction
  info : LineInfo
  deriving Repr

/-- A jump with another target; other instructions have none to set. -/
def Instruction.withTarget? (target : Nat) : Instruction → Option Instruction
  | .jump _ => some (.jump target)
  | .jumpIfTrue _ => some (.jumpIfTrue target)
  | .jumpIfFalse _ => some (.jumpIfFalse target)
  | _ => none

/-- The places of the jumps out of the body of a loop, which wait for their targets. -/
structure LoopContext where
  breaks : List Nat
  continues : List Nat
  deriving Repr, DecidableEq

namespace LoopContext

/-- The context of a loop at its beginning. -/
def empty : LoopContext := ⟨[], []⟩

/-- The context with the place of one more `break`. -/
def noteBreak (context : LoopContext) (place : Nat) : LoopContext :=
  { context with breaks := context.breaks ++ [place] }

/-- The context with the place of one more `continue`. -/
def noteContinue (context : LoopContext) (place : Nat) : LoopContext :=
  { context with continues := context.continues ++ [place] }

end LoopContext

/-- The rows of a table of locals that stand at some places, with the end of their ranges set. -/
def endRanges (stop : Nat) (locals : List LocalInfo) (places : List Nat) : List LocalInfo :=
  places.foldl
    (fun rows place => rows.modify place fun l => { l with live := ⟨l.live.start, stop⟩ }) locals

/-- Declares a name in its annotated slot. -/
def declareSlot (scopes : Scopes) (name : Ident) (ty : Ty) (annotated : Option Nat) :
    Diagnosed (Nat × Scopes) :=
  match scopes.declare name ty with
  | (.error existing, _) => failAt name.span (.slotTaken name.name existing.span.start)
  | (.ok slot, scopes) =>
    if annotated = some slot then .ok (slot, scopes) else
      failAt name.span (.slotMismatch name.name annotated slot)

/-- What making the code of a function has at hand. -/
structure Emitter where
  scopes : Scopes
  code : Array CodeLine
  locals : List LocalInfo
  /-- The places in the table of locals of what each open block declares, the innermost block
  first. -/
  blocks : List (List Nat)
  /-- The contexts of the open loops, the innermost first. -/
  loops : List LoopContext
  /-- The number of the next statement. -/
  nextIndex : Nat
  /-- The statement that instructions belong to at the moment. -/
  current : LineInfo
  deriving Repr

namespace Emitter

/-- The emitter of a function on a line. -/
def initial (line : Nat) : Emitter := ⟨.initial, #[], [], [], [], 0, ⟨0, line⟩⟩

/-- The place of the next instruction. -/
def offset (E : Emitter) : Nat := E.code.size

/-- Begins a statement on a line. -/
def enter (E : Emitter) (line : Nat) : Emitter :=
  { E with nextIndex := E.nextIndex + 1, current := ⟨E.nextIndex, line⟩ }

/-- Appends instructions of the present statement. -/
def emit (E : Emitter) (code : List Instruction) : Emitter :=
  { E with code := E.code ++ code.map fun i => CodeLine.mk i E.current }

/-! ## Jumps -/

/-- Sets the target of the jump at a place. -/
def patchJump (E : Emitter) (target place : Nat) : Diagnosed Emitter :=
  match E.code[place]? with
  | none => failAt .origin (.jumpMissing place)
  | some line =>
    match line.instruction.withTarget? target with
    | none => failAt .origin (.jumpMissing place)
    | some jump => .ok { E with code := E.code.setIfInBounds place ⟨jump, line.info⟩ }

/-- Sets the targets of the jumps at some places, one after the other. -/
def patchJumps (target : Nat) (E : Emitter) : List Nat → Diagnosed Emitter
  | [] => .ok E
  | place :: places => do
    let E ← E.patchJump target place
    E.patchJumps target places

/-! ## Blocks and loops -/

/-- Declares a name in its annotated slot. The range of the local starts at an instruction and does
not end yet. -/
def declare (E : Emitter) (name : Ident) (ty : Ty) (annotated : Option Nat) (start : Nat)
    (isParameter : Bool) :
    Diagnosed (Nat × Emitter) := do
  let (slot, scopes) ← declareSlot E.scopes name ty annotated
  let row : LocalInfo := ⟨name.name, ty, slot, ⟨start, start⟩, isParameter, name.span⟩
  return (slot, { E with
    scopes
    locals := E.locals ++ [row]
    blocks := E.blocks.modifyHead (· ++ [E.locals.length]) })

/-- Notes what is declared from now on as locals of a new block. -/
def beginLocals (E : Emitter) : Emitter := { E with blocks := [] :: E.blocks }

/-- Ends the ranges of the innermost block's locals with the last instruction. -/
def endLocals (E : Emitter) : Emitter :=
  { E with
    locals := endRanges (E.offset - 1) E.locals (E.blocks.headD [])
    blocks := E.blocks.tail }

/-- Opens a block. -/
def openBlock (E : Emitter) : Emitter := { E with scopes := E.scopes.push }.beginLocals

/-- Closes the innermost block. -/
def closeBlock (E : Emitter) : Emitter := { E.endLocals with scopes := E.scopes.pop }

/-- Opens the body of a loop. -/
def openLoop (E : Emitter) : Emitter := { E with loops := .empty :: E.loops }.openBlock

/-- Closes the body of a loop and hands out the jumps that wait for their targets. -/
def closeLoop (E : Emitter) : LoopContext × Emitter :=
  (E.loops.headD .empty, { E.closeBlock with loops := E.loops.tail })

/-- Makes a jump out of the body of the innermost loop, whose context notes the place. -/
def leaveBody (E : Emitter) (span : Span) (note : LoopContext → Nat → LoopContext) :
    Diagnosed Emitter :=
  let place := E.offset
  let E := E.emit [.jump 0]
  match E.loops with
  | [] => failAt span .strayJump
  | context :: outer => .ok { E with loops := note context place :: outer }

end Emitter

end Stepwise
