import WasmStream.Proofs.Causes
import WasmStream.Proofs.Points
import WasmStream.Registry.Standard

/-! Decoding with more instructions known. A decoder asks its registry for nothing but the descriptor
of an opcode byte, so as long as a registry knows the bytes it is asked for, a larger one gives the
same run. The two part at the first byte that only the larger one knows. -/

namespace WasmStream

variable {registry larger : Registry}

theorem Coded.Valid.of_subset {coded : Coded} (valid : coded.Valid registry)
    (subset : registry.descriptors ⊆ larger.descriptors) : coded.Valid larger :=
  ⟨subset valid.1, valid.2⟩

namespace Decoder

def knowing (decoder : Decoder) (registry : Registry) : Decoder := { decoder with registry }

private theorem readDescriptor_of_subset (subset : registry.descriptors ⊆ larger.descriptors)
    {cursor after : Cursor} {descriptor : Descriptor}
    (read : readDescriptor registry cursor = .ok descriptor after) :
    readDescriptor larger cursor = .ok descriptor after := by
  obtain ⟨bytes, reached, member, single⟩ := (reads_descriptor registry _ _ _).mp read
  exact (reads_descriptor larger _ _ _).mpr ⟨bytes, reached, subset member, single⟩

private theorem readDescriptor_eq_error {cursor after : Cursor} {error : DecodeError}
    (failed : readDescriptor registry cursor = .error error after) :
    (∀ other, readDescriptor other cursor = .error error after) ∨
      ∃ byte, error = .unknownOpcode byte cursor.position ∧
        ∀ other : Registry, other.lookup byte = .error ⟨byte⟩ →
          readDescriptor other cursor = .error error after := by
  rw [readDescriptor, Reader.position_bind] at failed
  rcases Reader.bind_eq_error.mp failed with ended | ⟨byte, middle, read, failed⟩
  · refine .inl fun other => ?_
    rw [readDescriptor, Reader.position_bind]
    exact Reader.bind_eq_error.mpr (.inl ended)
  · cases found : registry.lookup byte with
    | ok descriptor =>
      simp only [found] at failed
      cases failed
    | error unknown =>
      simp only [found] at failed
      obtain ⟨rfl, -⟩ := Registry.lookup_eq_error found
      cases failed
      refine .inr ⟨byte, rfl, ?_⟩
      intro other missing
      rw [readDescriptor, Reader.position_bind]
      refine Reader.bind_eq_error.mpr (.inr ⟨byte, _, read, ?_⟩)
      rw [missing]
      rfl

/-- A failure to read an instruction is the same with a larger registry, unless that one knows the
opcode byte. -/
theorem readInstruction_of_subset (subset : registry.descriptors ⊆ larger.descriptors)
    {cursor after : Cursor} {error : DecodeError}
    (failed : readInstruction registry cursor = .error error after) :
    readInstruction larger cursor = .error error after ∨
      ∃ byte, error = .unknownOpcode byte cursor.position ∧
        ∃ descriptor, larger.lookup byte = .ok descriptor := by
  rcases Reader.bind_eq_error.mp failed with failed | ⟨descriptor, middle, read, failed⟩
  · rcases readDescriptor_eq_error failed with ended | ⟨byte, reported, unknown⟩
    · exact .inl (Reader.bind_eq_error.mpr (.inl (ended larger)))
    · cases found : larger.lookup byte with
      | ok descriptor => exact .inr ⟨byte, reported, descriptor, found⟩
      | error missing =>
        obtain ⟨rfl, -⟩ := Registry.lookup_eq_error found
        exact .inl (Reader.bind_eq_error.mpr (.inl (unknown larger found)))
  · have read' := readDescriptor_of_subset subset read
    exact .inl (Reader.bind_eq_error.mpr (.inr ⟨descriptor, middle, read', failed⟩))

variable {decoder after : Decoder} {coded : Coded} {instruction : Instruction}
  {error : DecodeError} {cursor : Cursor}

private theorem Takes.knowing (takes : Takes decoder coded instruction after)
    (subset : decoder.registry.descriptors ⊆ larger.descriptors) :
    Takes (decoder.knowing larger) coded instruction (after.knowing larger) :=
  ⟨takes.running, takes.valid.of_subset subset, takes.reached, takes.moved, rfl, takes.recorded⟩

private theorem Fails.knowing (fails : Fails decoder error cursor)
    (subset : decoder.registry.descriptors ⊆ larger.descriptors) :
    Fails (decoder.knowing larger) error cursor ∨
      ∃ byte, error = .unknownOpcode byte decoder.cursor.position ∧
        ∃ descriptor, larger.lookup byte = .ok descriptor := by
  cases fails with
  | before failed => exact .inl (.before failed)
  | ended closed ended => exact .inl (.ended closed ended)
  | trailing closed more => exact .inl (.trailing closed more)
  | unread running unread =>
    exact (readInstruction_of_subset subset unread).imp_left (.unread running)
  | refused running valid reached refuses =>
    exact .inl (.refused running (valid.of_subset subset) reached refuses)

/-- A step fails at the place where it starts or behind it. -/
private theorem Fails.position_le (fails : Fails decoder error cursor)
    (fresh : ∀ earlier, decoder.phase ≠ .failed earlier) :
    decoder.cursor.position ≤ error.offset := by
  cases fails with
  | before failed => exact absurd failed (fresh error)
  | ended => exact Nat.le_refl _
  | trailing => exact Nat.le_refl _
  | refused => exact Nat.le_refl _
  | unread running unread =>
    rcases failsBy_instruction decoder.registry _ _ _ unread with rfl | ⟨read, rest, -, offset, -⟩
    · exact Nat.le_add_right _ _
    · exact offset ▸ Nat.le_add_right _ _

private theorem position_le_failure (failed : decoder.run.failure = some error) :
    decoder.cursor.position ≤ error.offset := by
  induction decoder using run_induction with
  | finished decoder finished =>
    rw [run_of_finished finished] at failed
    cases failed
  | fails decoder error cursor unfinished fails =>
    rw [run_of_fails unfinished fails] at failed
    cases failed
    refine fails.position_le fun earlier phase => ?_
    simp [isFinished, phase] at unfinished
  | takes decoder coded instruction after takes ih =>
    rw [run_of_takes takes] at failed
    exact takes.position_lt.le.trans (ih failed)

theorem offset_lt_failure (failed : decoder.run.failure = some error)
    (member : instruction ∈ decoder.run.instructions) : instruction.offset < error.offset := by
  induction decoder using run_induction with
  | finished decoder finished =>
    rw [run_of_finished finished] at failed
    cases failed
  | fails decoder error cursor unfinished fails =>
    rw [run_of_fails unfinished fails] at member
    cases member
  | takes decoder coded first after takes ih =>
    rw [run_of_takes takes] at failed member
    rcases List.mem_cons.mp member with rfl | rest
    · rw [takes.recorded]
      exact takes.position_lt.trans_le (position_le_failure failed)
    · exact ih failed rest

/-- How the run with a larger registry compares with a run: it is the same, or it goes on where that
one has come to a byte that only the larger registry knows. -/
inductive Conserves (larger : Registry) (run wide : Run) : Prop where
  | same (same : wide = { run with final := run.final.knowing larger }) : Conserves larger run wide
  | beyond {byte offset descriptor later} (failed : run.failure = some (.unknownOpcode byte offset))
      (known : larger.lookup byte = .ok descriptor)
      (yields : wide.instructions = run.instructions ++ later)
      (behind : ∀ instruction ∈ later, offset ≤ instruction.offset) : Conserves larger run wide

theorem conserves_run (decoder : Decoder)
    (subset : decoder.registry.descriptors ⊆ larger.descriptors) :
    Conserves larger decoder.run (decoder.knowing larger).run := by
  induction decoder using run_induction with
  | finished decoder finished =>
    have finished' : (decoder.knowing larger).isFinished = true := finished
    rw [run_of_finished finished, run_of_finished finished']
    exact .same rfl
  | fails decoder error cursor unfinished fails =>
    rw [run_of_fails unfinished fails]
    rcases fails.knowing subset with fails' | ⟨byte, rfl, descriptor, known⟩
    · have unfinished' : (decoder.knowing larger).isFinished = false := unfinished
      rw [run_of_fails unfinished' fails']
      exact .same rfl
    · refine .beyond rfl known (List.nil_append _).symm ?_
      exact fun instruction => @position_le_offset (decoder.knowing larger) instruction
  | takes decoder coded instruction after takes ih =>
    rw [run_of_takes takes, run_of_takes (takes.knowing subset)]
    have subset' : after.registry.descriptors ⊆ larger.descriptors := takes.registry ▸ subset
    cases ih subset' with
    | same same => exact .same (by rw [same])
    | beyond failed known yields behind =>
      exact .beyond failed known (congrArg (List.cons instruction) yields) behind

/-- A registry that knows more decodes in the same way all that the smaller one can decode. Only
where the smaller one stops at a byte it does not know can the larger one go on. -/
theorem run_larger_registry (registry larger : Registry)
    (subset : registry.descriptors ⊆ larger.descriptors) (mode : Mode) (bytes : List UInt8) :
    let run := (ofBytes registry mode bytes).run
    let wide := (ofBytes larger mode bytes).run
    ((∀ byte offset, run.failure ≠ some (.unknownOpcode byte offset)) →
      wide.instructions = run.instructions ∧ wide.failure = run.failure ∧
        wide.final = { run.final with registry := larger }) ∧
    ∀ byte offset, run.failure = some (.unknownOpcode byte offset) →
      (∃ later, wide.instructions = run.instructions ++ later ∧
        (∀ instruction ∈ run.instructions, instruction.offset < offset) ∧
        ∀ instruction ∈ later, offset ≤ instruction.offset) ∧
      (larger.lookup byte = .error ⟨byte⟩ →
        wide.instructions = run.instructions ∧ wide.failure = run.failure) := by
  intro run wide
  have conserves : Conserves larger run wide := conserves_run (ofBytes registry mode bytes) subset
  refine ⟨?_, ?_⟩
  · intro other
    cases conserves with
    | same same => exact same ▸ ⟨rfl, rfl, rfl⟩
    | beyond failed => exact absurd failed (other _ _)
  · intro byte offset failed
    have before : ∀ instruction ∈ run.instructions, instruction.offset < offset :=
      fun instruction member => offset_lt_failure failed member
    cases conserves with
    | same same =>
      refine ⟨⟨[], ?_, before, by simp⟩, fun _ => same ▸ ⟨rfl, rfl⟩⟩
      rw [same, List.append_nil]
    | beyond failed' known yields behind =>
      cases failed.symm.trans failed'
      refine ⟨⟨_, yields, before, behind⟩, ?_⟩
      intro missing
      cases known.symm.trans missing

def plainRegistry : Registry where
  descriptors := [Opcode.nop.descriptor]
  increasing := by simp
  distinct := by simp

/-- To know constants as well changes nothing before the first of them. -/
theorem run_larger_registry_constant :
    plainRegistry.descriptors ⊆ Registry.standard.descriptors ∧
    (ofBytes plainRegistry .bare [0x01, 0x41, 0x05, 0x01]).run.failure =
      some (.unknownOpcode 0x41 1) ∧
    ∃ later, (ofBytes .standard .bare [0x01, 0x41, 0x05, 0x01]).run.instructions =
        ⟨0, Opcode.nop.descriptor, none, 0, true⟩ :: later ∧
      ∀ instruction ∈ later, 1 ≤ instruction.offset := by
  have subset : plainRegistry.descriptors ⊆ Registry.standard.descriptors := by
    intro descriptor member
    exact Opcode.mem_standard_iff.mpr ⟨.nop, (List.mem_singleton.mp member).symm⟩
  have failed : (ofBytes plainRegistry .bare [0x01, 0x41, 0x05, 0x01]).run.failure =
      some (.unknownOpcode 0x41 1) := by decide +kernel
  have first : (ofBytes plainRegistry .bare [0x01, 0x41, 0x05, 0x01]).run.instructions =
      [⟨0, Opcode.nop.descriptor, none, 0, true⟩] := by decide +kernel
  obtain ⟨⟨later, yields, -, behind⟩, -⟩ :=
    (run_larger_registry _ _ subset .bare [0x01, 0x41, 0x05, 0x01]).2 _ _ failed
  rw [first] at yields
  exact ⟨subset, failed, later, yields, behind⟩

end Decoder
end WasmStream
