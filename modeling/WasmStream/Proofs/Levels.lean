import WasmStream.Nesting

/-! The two stacks of a nesting as one. Each open frame goes with the flag at its height, and what
an instruction does to the frame and to the flag is then told of both together. -/

namespace WasmStream

/-- A frame with the reachability that its end restores. -/
structure Level where
  frame : Frame
  outerUnreachable : Bool

/-- Where flags are missing they count as a block's end counts them. -/
def Level.pair : List Frame → List Bool → List Level
  | [], _ => []
  | frame :: outer, saved => ⟨frame, saved.headD false⟩ :: pair outer saved.tail

@[simp] theorem Level.pair_nil (saved : List Bool) : pair [] saved = [] := rfl

@[simp] theorem Level.pair_cons (frame : Frame) (outer : List Frame) (saved : List Bool) :
    pair (frame :: outer) saved = ⟨frame, saved.headD false⟩ :: pair outer saved.tail := rfl

@[simp] theorem Level.map_frame_pair (stack : List Frame) (saved : List Bool) :
    (pair stack saved).map Level.frame = stack := by
  induction stack generalizing saved with
  | nil => rfl
  | cons frame outer ih => exact congrArg (List.cons frame) (ih saved.tail)

@[simp] theorem Level.length_pair (stack : List Frame) (saved : List Bool) :
    (pair stack saved).length = stack.length := by
  rw [← List.length_map Level.frame, map_frame_pair]

namespace Nesting

def levels (nesting : Nesting) : List Level := Level.pair nesting.stack nesting.saved

@[simp] theorem levels_mk (stack : List Frame) (saved : List Bool) (unreachable : Bool) :
    levels ⟨stack, saved, unreachable⟩ = Level.pair stack saved := rfl

theorem map_frame_levels (nesting : Nesting) : nesting.levels.map Level.frame = nesting.stack :=
  Level.map_frame_pair ..

theorem length_levels (nesting : Nesting) : nesting.levels.length = nesting.depth :=
  Level.length_pair ..

theorem levels_eq_nil_iff {nesting : Nesting} : nesting.levels = [] ↔ nesting.stack = [] := by
  rw [← nesting.map_frame_levels, List.map_eq_nil_iff]

theorem top?_eq_head? (nesting : Nesting) :
    nesting.top? = nesting.levels.head?.map Level.frame := by
  rw [top?, ← nesting.map_frame_levels, List.head?_map]

theorem isEmpty_iff {nesting : Nesting} : nesting.isEmpty = true ↔ nesting.levels = [] := by
  rw [isEmpty, List.isEmpty_iff, levels_eq_nil_iff]

end Nesting
end WasmStream
