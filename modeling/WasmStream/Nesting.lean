import WasmStream.DecodeError
import WasmStream.Descriptor

/-! The blocks open at a point of an instruction stream, and whether that point can be reached.
Only the flags of an instruction count, never its name:

* one that enters opens a block;
* one that enters and leaves turns from the first arm of an `if` to the second;
* one that leaves closes the innermost block;
* one without fallthrough makes the rest of its arm unreachable. -/

namespace WasmStream

/-- An open block, known by the instruction that opened it. -/
structure Frame where
  offset : Nat
  kind : BlockKind
  inElse : Bool := false
deriving DecidableEq, Repr

def Frame.text (frame : Frame) : String :=
  let arm := if frame.inElse then "/else" else ""
  s!"{frame.kind.name}{arm}@{frame.offset}"

/-- The open frames and, on a stack of its own, the reachability that the end of each restores. Both
are listed innermost first. -/
structure Nesting where
  stack : List Frame
  saved : List Bool
  unreachable : Bool
deriving DecidableEq, Repr

namespace Nesting

/-- What an instruction did to the open blocks. -/
inductive Event where
  | stayed
  | entered (frame : Frame)
  | switched (frame : Frame)
  | left (frame : Frame)
deriving DecidableEq, Repr

def empty : Nesting := ⟨[], [], false⟩

/-- A function body starts inside a block that no instruction has opened. -/
def functionBody : Nesting := ⟨[⟨0, .function, false⟩], [false], false⟩

def depth (nesting : Nesting) : Nat := nesting.stack.length

def isEmpty (nesting : Nesting) : Bool := nesting.stack.isEmpty

def top? (nesting : Nesting) : Option Frame := nesting.stack.head?

/-- The open frames, outermost first. -/
def frames (nesting : Nesting) : List Frame := nesting.stack.reverse

/-- A block opens reachable, whatever surrounds it. An instruction that opens one without saying of
which kind opens a plain block. -/
def enter (nesting : Nesting) (descriptor : Descriptor) (offset : Nat) : Event × Nesting :=
  let frame : Frame := ⟨offset, descriptor.blockKind.getD .block, false⟩
  (.entered frame, ⟨frame :: nesting.stack, nesting.unreachable :: nesting.saved, false⟩)

def switch (nesting : Nesting) : Except NestingFault (Event × Nesting) :=
  match nesting.stack with
  | [] => .error .elseWithoutIf
  | top :: outer =>
    if !top.kind.acceptsElse then .error .elseWithoutIf
    else if top.inElse then .error .duplicateElse
    else
      let frame := { top with inElse := true }
      .ok (.switched frame, { nesting with stack := frame :: outer, unreachable := false })

/-- A block whose flag is missing would end in a reachable arm. -/
def leave (nesting : Nesting) : Except NestingFault (Event × Nesting) :=
  match nesting.stack with
  | [] => .error .unmatchedEnd
  | top :: outer => .ok (.left top, ⟨outer, nesting.saved.tail, nesting.saved.headD false⟩)

def move (nesting : Nesting) (descriptor : Descriptor) (offset : Nat) :
    Except NestingFault (Event × Nesting) :=
  match descriptor.flags.entersBlock, descriptor.flags.leavesBlock with
  | true, false => .ok (nesting.enter descriptor offset)
  | true, true => nesting.switch
  | false, true => nesting.leave
  | false, false => .ok (.stayed, nesting)

/-- Feeds the instruction read at the offset. A misplaced one changes nothing. -/
def update (descriptor : Descriptor) (offset : Nat) : EStateM DecodeError Nesting Event :=
  fun nesting =>
    match nesting.move descriptor offset with
    | .ok (event, after) =>
      .ok event { after with unreachable := after.unreachable || descriptor.flags.noFallthrough }
    | .error fault => .error (.malformedNesting offset fault) nesting

theorem eq_of_update_error {descriptor : Descriptor} {offset : Nat} {nesting after : Nesting}
    {error : DecodeError} (failed : update descriptor offset nesting = .error error after) :
    after = nesting := by
  unfold update at failed
  split at failed
  · cases failed
  · cases failed
    rfl

end Nesting
end WasmStream
