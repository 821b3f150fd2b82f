import WasmStream.Proofs.BlockMachine
import WasmStream.Proofs.Resemblance

/-! Encoding what was decoded. The instructions of a run fix how the blocks nest, wherever
their bytes lie, so the shortest spelling of each gives the shortest stream that decodes
to them. -/

namespace WasmStream

namespace Instruction

def content (instruction : Instruction) : UInt8 × Option Immediate :=
  (instruction.descriptor.opcode, instruction.immediate)

/-- An instruction without the place where it was read. -/
def view (instruction : Instruction) : (UInt8 × Option Immediate) × Nat × Bool :=
  (instruction.content, instruction.depth, instruction.reachable)

end Instruction

namespace Coded

def canonical (coded : Coded) : Coded :=
  { coded with bytes := coded.descriptor.encode coded.immediate }

theorem Valid.canonical {registry : Registry} {coded : Coded} (valid : coded.Valid registry) :
    coded.canonical.Valid registry :=
  ⟨valid.1, spelled_encode valid.2.fits⟩

end Coded

namespace Decoder
open Nesting (Alike Moves update_eq_ok_iff)

/-- Streams of the same instructions are accepted alike, whatever bytes spell them. -/
theorem feed_canonical {mode : Mode} {stream : List Coded} {offset : Nat} (offset' : Nat)
    {nesting nesting' : Nesting} (alike : Alike nesting nesting')
    (clean : (feed mode offset nesting stream).failure = none) :
    (feed mode offset' nesting' (stream.map Coded.canonical)).failure = none ∧
      (feed mode offset' nesting' (stream.map Coded.canonical)).accepted.map Instruction.view =
        (feed mode offset nesting stream).accepted.map Instruction.view := by
  induction stream generalizing offset offset' nesting nesting' with
  | nil =>
    have closed : nesting.levels = [] := by simpa [feed, Nesting.isEmpty_iff] using clean
    have closed' := alike.levels_eq_nil_iff.mp closed
    simp [feed, Nesting.isEmpty_iff, closed']
  | cons coded rest ih =>
    have recorded : (nesting'.record offset' coded.canonical).view =
        (nesting.record offset coded).view := by
      simp only [Instruction.view, Instruction.content, Nesting.record, Coded.canonical,
        alike.depth_eq, alike.unreachable]
      rfl
    cases updated : Nesting.update coded.descriptor offset nesting with
    | error error same =>
      rw [feed_of_refused updated] at clean
      cases clean
    | ok event after =>
      have moved := update_eq_ok_iff.mp updated
      obtain ⟨event', after', moved', alike'⟩ : ∃ event' after',
          Moves coded.canonical.descriptor offset' nesting' event' after' ∧ Alike after after' :=
        alike.moves moved
      by_cases closed : mode = .functionBody ∧ after.levels = []
      · obtain ⟨body, closed⟩ := closed
        subst body
        rw [feed_of_closed moved closed] at clean ⊢
        rw [List.map_cons, feed_of_closed moved' (alike'.levels_eq_nil_iff.mp closed)]
        obtain rfl : rest = [] := by simpa using clean
        exact ⟨rfl, congrArg (fun view => [view]) recorded⟩
      · have going : mode = .functionBody → after.levels ≠ [] := fun body empty => closed ⟨body, empty⟩
        have going' : mode = .functionBody → after'.levels ≠ [] :=
          fun body empty => going body (alike'.levels_eq_nil_iff.mpr empty)
        rw [feed_of_moves moved going] at clean ⊢
        rw [List.map_cons, feed_of_moves moved' going']
        obtain ⟨clean', views⟩ := ih _ alike' clean
        refine ⟨clean', ?_⟩
        simp only [List.map_cons, recorded]
        exact congrArg _ views

/-- The instructions of a run, each in its shortest form. -/
def Run.encode (run : Run) : List UInt8 :=
  run.instructions.flatMap fun instruction =>
    instruction.descriptor.encode instruction.immediate

private theorem Run.encode_eq_of_content_eq {first second : Run}
    (same : first.instructions.map Instruction.content =
      second.instructions.map Instruction.content) : first.encode = second.encode := by
  have through : ∀ run : Run, run.encode = (run.instructions.map Instruction.content).flatMap
      fun content => content.1 :: (content.2.map Immediate.encode).getD [] := by
    intro run
    rw [List.flatMap_map]
    rfl
  rw [through, through, same]

private theorem canonical_shortens {stream : List Coded} {registry : Registry}
    (valid : ∀ coded ∈ stream, coded.Valid registry) :
    Shortens ((stream.map Coded.canonical).flatMap Coded.bytes) (stream.flatMap Coded.bytes) := by
  induction stream with
  | nil => exact .refl []
  | cons coded rest ih =>
    have first := (valid coded List.mem_cons_self).2.shortens
    have later := ih fun other member => valid other (.tail _ member)
    exact first.append later

private theorem stream_of_clean {mode : Mode} {bytes : List UInt8}
    (clean : (ofBytes .standard mode bytes).run.failure = none) :
    ∃ stream : List Coded, (∀ coded ∈ stream, coded.Valid .standard) ∧
      bytes = stream.flatMap Coded.bytes ∧
      (ofBytes .standard mode bytes).run.encode =
        (stream.map Coded.canonical).flatMap Coded.bytes := by
  obtain ⟨stream, valid, both, same⟩ := coded_of_clean (by simp [ofBytes]) clean
  refine ⟨stream, valid, both, ?_⟩
  have encoded := congrArg (List.flatMap fun pair : Descriptor × Option Immediate =>
    pair.1.encode pair.2) same
  rw [List.flatMap_map, List.flatMap_map] at encoded
  rw [List.flatMap_map]
  exact encoded

private theorem encode_shortens {mode : Mode} {bytes : List UInt8}
    (clean : (ofBytes .standard mode bytes).run.failure = none) :
    Shortens (ofBytes .standard mode bytes).run.encode bytes := by
  obtain ⟨stream, valid, both, encoded⟩ := stream_of_clean clean
  rw [encoded, both]
  exact canonical_shortens valid

theorem run_encode {mode : Mode} {bytes : List UInt8}
    (clean : (ofBytes .standard mode bytes).run.failure = none) :
    let run := (ofBytes .standard mode bytes).run
    (ofBytes .standard mode run.encode).run.failure = none ∧
      (ofBytes .standard mode run.encode).run.instructions.map Instruction.view =
        run.instructions.map Instruction.view := by
  intro run
  obtain ⟨stream, valid, both, encoded⟩ := stream_of_clean clean
  have valid' : ∀ coded ∈ stream.map Coded.canonical, coded.Valid .standard := by
    intro coded member
    obtain ⟨other, listed, same⟩ := List.mem_map.mp member
    exact same ▸ (valid other listed).canonical
  have outcome : run.outcome = feed mode 0 mode.nesting stream := run_standard valid both
  have outcome' : (ofBytes .standard mode run.encode).run.outcome =
      feed mode 0 mode.nesting (stream.map Coded.canonical) := run_standard valid' encoded
  have fed : (feed mode 0 mode.nesting stream).failure = none := by
    rw [← outcome]
    exact clean
  obtain ⟨clean', views⟩ := feed_canonical 0 (.refl _) fed
  rw [← outcome'] at clean' views
  rw [← outcome] at views
  exact ⟨clean', views⟩

/-- Encoding what was decoded without failure gives the one shortest stream that decodes to
the same instructions. -/
theorem encode_canonical (mode : Mode) (bytes : List UInt8)
    (clean : (ofBytes .standard mode bytes).run.failure = none) :
    let run := (ofBytes .standard mode bytes).run
    let again := (ofBytes .standard mode run.encode).run
    again.failure = none ∧
    again.instructions.map Instruction.view = run.instructions.map Instruction.view ∧
    again.encode = run.encode ∧
    run.encode.length ≤ bytes.length ∧
    ∀ other : List UInt8, (ofBytes .standard mode other).run.failure = none →
      (ofBytes .standard mode other).run.instructions.map Instruction.content =
        run.instructions.map Instruction.content →
      other ≠ run.encode → run.encode.length < other.length := by
  intro run again
  obtain ⟨clean', views⟩ := run_encode clean
  refine ⟨clean', views, ?_, (encode_shortens clean).length_le, ?_⟩
  · apply Run.encode_eq_of_content_eq
    have contents := congrArg (List.map Prod.fst) views
    rw [List.map_map, List.map_map] at contents
    exact contents
  · intro other cleanOther same different
    have shorter := encode_shortens cleanOther
    rw [Run.encode_eq_of_content_eq same] at shorter
    rcases shorter with equal | shorter
    · exact absurd equal.symm different
    · exact shorter

/-- A constant spelled in three bytes more than it needs, in a body. -/
theorem encode_canonical_padded :
    (ofBytes .standard .functionBody [0x41, 0x80, 0x80, 0x80, 0x00, 0x0b]).run.failure = none ∧
    (ofBytes .standard .functionBody [0x41, 0x80, 0x80, 0x80, 0x00, 0x0b]).run.encode =
      [0x41, 0x00, 0x0b] ∧
    (ofBytes .standard .functionBody [0x41, 0x00, 0x0b]).run.failure = none := by
  have clean : (ofBytes .standard .functionBody
      [0x41, 0x80, 0x80, 0x80, 0x00, 0x0b]).run.failure = none := by decide +kernel
  have encoded : (ofBytes .standard .functionBody
      [0x41, 0x80, 0x80, 0x80, 0x00, 0x0b]).run.encode = [0x41, 0x00, 0x0b] := by decide +kernel
  have again := (encode_canonical .functionBody _ clean).1
  rw [encoded] at again
  exact ⟨clean, encoded, again⟩

end Decoder
end WasmStream
