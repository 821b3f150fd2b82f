import WasmStream.Decoder
import WasmStream.Proofs.Fields

/-! What holds of every reader of an instruction because it holds of the readers that
those are made of. -/

namespace WasmStream

/-- Errors for which the bytes of one instruction are enough. -/
def DecodeError.AboutBytes : DecodeError → Prop
  | malformedNesting _ _ => False
  | _ => True

namespace Immediate

/-- The room set aside depends on the bytes to come, but no label does. -/
theorem readBranchTable_eq : readBranchTable = (do
    let count ← Leb128.unsigned indexWidth
    let labels ← readLabelsInto readIndex count #[]
    let fallback ← readIndex
    return branchTable labels.toList fallback) := rfl

end Immediate

namespace Reader

/-- A property that passes from the parts of a reader to the whole. -/
structure Inherited (Good : ∀ {α : Type}, Reader α → Prop) : Prop where
  done : ∀ {α : Type} (value : α), Good (pure value)
  fault : ∀ {α : Type} {error : DecodeError}, error.AboutBytes → Good (throw error : Reader α)
  position : Good position
  byte : Good byte
  bytes : ∀ count, Good (bytes count)
  bind : ∀ {α β : Type} {reader : Reader α} {next : α → Reader β}, Good reader →
    (∀ value, Good (next value)) → Good (reader >>= next)

namespace Inherited

variable {Good : ∀ {α : Type}, Reader α → Prop} (inherited : Inherited Good)
include inherited

theorem map {α β : Type} {reader : Reader α} (good : Good reader) (f : α → β) :
    Good (reader >>= fun value => pure (f value)) :=
  inherited.bind good fun value => inherited.done (f value)

private theorem field (start width limit : Nat) : Good (Leb128.field start width limit) := by
  induction limit with
  | zero => exact inherited.fault trivial
  | succ limit ih =>
    refine inherited.bind inherited.byte fun byte => ?_
    split
    · exact inherited.map ih _
    · exact inherited.done _

theorem bounded {α : Type} (width : Nat) (value : List UInt8 → α) (Fits : α → Prop)
    [DecidablePred Fits] : Good (Leb128.bounded width value Fits) := by
  refine inherited.bind inherited.position fun start =>
    inherited.bind (inherited.field start width _) fun bytes => ?_
  unfold Leb128.checked
  split
  · exact inherited.done _
  · exact inherited.fault trivial

theorem unsigned {width : Nat} (positive : 0 < width) (word : width ≤ 64) :
    Good (Leb128.unsigned width) := by
  rw [Leb128.unsigned_eq_bounded positive word]
  exact inherited.bounded _ _ _

theorem signed {width : Nat} (positive : 0 < width) (word : width ≤ 64) :
    Good (Leb128.signed width) := by
  rw [Leb128.signed_eq_bounded positive word]
  exact inherited.bounded _ _ _

theorem index : Good Immediate.readIndex :=
  inherited.map (inherited.unsigned (by decide) (by decide)) _

private theorem reserved : Good Immediate.readReserved :=
  inherited.map (inherited.unsigned (by decide) (by decide)) _

private theorem blockType : Good Immediate.readBlockType := by
  refine inherited.bind inherited.position fun offset =>
    inherited.bind (inherited.signed (by decide) (by decide)) fun value => ?_
  dsimp only
  split
  · exact inherited.done _
  · exact inherited.fault trivial

private theorem labels (count : Nat) (read : Array UInt32) :
    Good (Immediate.readLabelsInto Immediate.readIndex count read) := by
  induction count generalizing read with
  | zero => exact inherited.done _
  | succ count ih => exact inherited.bind inherited.index fun _ => ih _

private theorem operands (kind : Immediate.Kind) : Good (Immediate.read kind) := by
  cases kind with
  | blockType => exact inherited.map inherited.blockType _
  | branchTable =>
    rw [Immediate.read, Immediate.readBranchTable_eq]
    exact inherited.bind (inherited.unsigned (by decide) (by decide)) fun _ =>
      inherited.bind (inherited.labels _ _) fun _ => inherited.map inherited.index _
  | branchTarget | callTarget | variableIndex => exact inherited.map inherited.index _
  | indirectCall => exact inherited.bind inherited.index fun _ => inherited.map inherited.reserved _
  | memoryAccess => exact inherited.bind inherited.index fun _ => inherited.map inherited.index _
  | memorySize => exact inherited.map inherited.reserved _
  | i32Const | i64Const => exact inherited.map (inherited.signed (by decide) (by decide)) _
  | f32Const | f64Const => exact inherited.map (inherited.map (inherited.bytes _) _) _

theorem instruction (registry : Registry) : Good (Decoder.readInstruction registry) := by
  refine inherited.bind ?_ fun descriptor => inherited.bind ?_ fun _ => inherited.done _
  · refine inherited.bind inherited.position fun offset =>
      inherited.bind inherited.byte fun opcode => ?_
    split
    · exact inherited.done _
    · exact inherited.fault trivial
  · unfold Decoder.readOperands
    split
    · exact inherited.map (inherited.operands _) _
    · exact inherited.done _

end Inherited
end Reader
end WasmStream
