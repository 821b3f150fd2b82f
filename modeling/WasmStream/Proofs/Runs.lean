import WasmStream.Proofs.Steps

/-! Runs of a decoder: their equations, their induction, what a run without failure has
read, and how a run over whole instructions ends. -/

namespace WasmStream.Decoder
open Nesting (update_eq_ok_iff update_eq_error_iff)

theorem run_of_finished {decoder : Decoder} (finished : decoder.isFinished = true) :
    decoder.run = ⟨[], none, decoder⟩ := by
  have next : decoder.next? = none := by simp [next?, finished]
  rw [run]
  split
  · rfl
  next again =>
    rw [next] at again
    cases again
  next again =>
    rw [next] at again
    cases again

theorem Takes.next? {decoder after : Decoder} {coded : Coded} {instruction : Instruction}
    (takes : Takes decoder coded instruction after) :
    decoder.next? = some (.ok instruction after) := by
  simp [Decoder.next?, takes.unfinished, takes.step]

theorem run_of_takes {decoder after : Decoder} {coded : Coded} {instruction : Instruction}
    (takes : Takes decoder coded instruction after) :
    decoder.run = { after.run with instructions := instruction :: after.run.instructions } := by
  have next := takes.next?
  rw [run]
  split
  next again =>
    rw [next] at again
    cases again
  next again =>
    rw [next] at again
    cases again
    rfl
  next again =>
    rw [next] at again
    cases again

theorem run_of_fails {decoder : Decoder} {error : DecodeError} {cursor : Cursor}
    (unfinished : decoder.isFinished = false) (fails : Fails decoder error cursor) :
    decoder.run = ⟨[], some error, { decoder with cursor, phase := .failed error }⟩ := by
  have next : decoder.next? =
      some (.error error { decoder with cursor, phase := .failed error }) := by
    simp [next?, unfinished, fails.step]
  rw [run]
  split
  next again =>
    rw [next] at again
    cases again
  next again =>
    rw [next] at again
    cases again
  next again =>
    rw [next] at again
    cases again
    rfl

/-- Every property of runs follows from finished decoders, failing steps, and
steps that take an instruction before the rest of the run. -/
theorem run_induction {motive : Decoder → Prop}
    (finished : ∀ decoder, decoder.isFinished = true → motive decoder)
    (fails : ∀ decoder error cursor, decoder.isFinished = false → Fails decoder error cursor →
      motive decoder)
    (takes : ∀ decoder coded instruction after, Takes decoder coded instruction after →
      motive after → motive decoder) (decoder : Decoder) : motive decoder := by
  cases done : decoder.isFinished with
  | true => exact finished decoder done
  | false =>
    cases stepped : step decoder with
    | error error after =>
      obtain ⟨cursor, failed, -⟩ := step_eq_error_iff.mp stepped
      exact fails decoder error cursor done failed
    | ok instruction after =>
      obtain ⟨coded, taken⟩ := step_eq_ok_iff.mp stepped
      exact takes decoder coded instruction after taken
        (run_induction finished fails takes after)
termination_by decoder.cursor.remaining
decreasing_by exact step_remaining_lt stepped

/-- What every taken instruction keeps still holds of the decoder that a run ends with, or
of the one whose next step fails. -/
theorem run_ends {Kept : Decoder → Prop}
    (kept : ∀ {decoder coded instruction after}, Takes decoder coded instruction after →
      Kept decoder → Kept after) (decoder : Decoder) (start : Kept decoder) :
    (decoder.run.failure = none ∧ decoder.run.final.isFinished = true ∧ Kept decoder.run.final) ∨
      ∃ last error cursor, Kept last ∧ Fails last error cursor ∧
        decoder.run.failure = some error ∧
        decoder.run.final = { last with cursor, phase := .failed error } := by
  induction decoder using run_induction with
  | finished decoder finished =>
    rw [run_of_finished finished]
    exact .inl ⟨rfl, finished, start⟩
  | fails decoder error cursor unfinished fails =>
    rw [run_of_fails unfinished fails]
    exact .inr ⟨decoder, error, cursor, start, fails, rfl, rfl⟩
  | takes decoder coded instruction after takes ih =>
    rw [run_of_takes takes]
    exact ih (kept takes start)

theorem Takes.fresh {decoder after : Decoder} {coded : Coded} {instruction : Instruction}
    (takes : Takes decoder coded instruction after) (error : DecodeError) :
    after.phase ≠ .failed error := by
  obtain ⟨event, -, phase⟩ := takes.moved
  rw [phase, takes.running]
  unfold Phase.after
  split
  · split <;> simp
  · simp

theorem coded_of_clean {decoder : Decoder} (fresh : ∀ error, decoder.phase ≠ .failed error)
    (clean : decoder.run.failure = none) :
    ∃ stream : List Coded, (∀ coded ∈ stream, coded.Valid decoder.registry) ∧
      decoder.cursor.unread = stream.flatMap Coded.bytes ∧
      decoder.run.instructions.map (fun instruction => (instruction.descriptor, instruction.immediate)) =
        stream.map (fun coded => (coded.descriptor, coded.immediate)) := by
  induction decoder using run_induction with
  | finished decoder finished =>
    refine ⟨[], by simp, ((isFinished_iff fresh).mp finished).1, ?_⟩
    rw [run_of_finished finished]
    rfl
  | fails decoder error cursor unfinished fails =>
    rw [run_of_fails unfinished fails] at clean
    cases clean
  | takes decoder coded instruction after takes ih =>
    rw [run_of_takes takes] at clean ⊢
    obtain ⟨stream, valid, unread, instructions⟩ := ih takes.fresh clean
    refine ⟨coded :: stream, ?_, ?_, ?_⟩
    · intro other member
      rcases List.mem_cons.mp member with first | rest
      · exact first ▸ takes.valid
      · exact takes.registry ▸ valid other rest
    · rw [takes.reached.1, unread, List.flatMap_cons]
    · simp [instructions, takes.recorded, Nesting.record]

/-- How a run ends over whole instructions: where it has come to, and which of them are left. -/
inductive Halts (run : Run) (reached : Nat) : (rest : List Coded) → Prop where
  | finished (clean : run.failure = none) : Halts run reached []
  | unfinished (failed : run.failure = some (.unexpectedEnd reached))
      (opened : run.final.nesting.levels ≠ []) : Halts run reached []
  | refused {rest fault} (failed : run.failure = some (.malformedNesting reached fault)) :
      Halts run reached rest

private theorem Halts.takes {decoder after : Decoder} {coded : Coded} {instruction : Instruction}
    (takes : Takes decoder coded instruction after) {reached : Nat} {rest : List Coded}
    (halts : Halts after.run reached rest) : Halts decoder.run reached rest := by
  rw [run_of_takes takes]
  cases halts with
  | finished clean => exact .finished clean
  | unfinished failed opened => exact .unfinished failed opened
  | refused failed => exact .refused failed

theorem halts_at_end {decoder : Decoder} (fresh : ∀ error, decoder.phase ≠ .failed error)
    (ended : decoder.cursor.unread = []) :
    decoder.run.instructions = [] ∧ Halts decoder.run decoder.cursor.position [] := by
  cases done : decoder.isFinished with
  | true =>
    rw [run_of_finished done]
    exact ⟨rfl, .finished rfl⟩
  | false =>
    have going : ¬ (decoder.phase = .bodyClosed ∨ decoder.nesting.levels = []) := by
      intro closed
      rw [(isFinished_iff fresh).mpr ⟨ended, closed⟩] at done
      cases done
    rw [not_or] at going
    have running : decoder.phase = .running := by
      cases phase : decoder.phase with
      | running => rfl
      | bodyClosed => exact absurd phase going.1
      | failed error => exact absurd phase (fresh error)
    rw [run_of_fails done (.unread running (readInstruction_at_end ended))]
    exact ⟨rfl, .unfinished rfl going.2⟩

/-- A decoder that has whole instructions before it yields the first of them, and nothing
but the blocks keeps it from yielding all. -/
theorem exists_halts {stream : List Coded} {decoder : Decoder}
    (fresh : ∀ error, decoder.phase ≠ .failed error)
    (unread : decoder.cursor.unread = stream.flatMap Coded.bytes)
    (valid : ∀ coded ∈ stream, coded.Valid decoder.registry) :
    ∃ read rest, stream = read ++ rest ∧
      decoder.run.instructions.map (fun instruction => (instruction.descriptor, instruction.immediate)) =
        read.map (fun coded => (coded.descriptor, coded.immediate)) ∧
      Halts decoder.run (decoder.cursor.position + (read.flatMap Coded.bytes).length) rest := by
  induction stream generalizing decoder with
  | nil =>
    obtain ⟨nothing, halts⟩ := halts_at_end fresh unread
    exact ⟨[], [], rfl, congrArg _ nothing, halts⟩
  | cons coded rest ih =>
    have first := valid coded List.mem_cons_self
    have more : decoder.cursor.unread ≠ [] := by
      rw [unread, List.flatMap_cons]
      exact List.append_ne_nil_of_left_ne_nil first.ne_nil _
    have unfinished := unfinished_of_unread fresh more
    cases phase : decoder.phase with
    | failed error => exact absurd phase (fresh error)
    | bodyClosed =>
      rw [run_of_fails unfinished (.trailing phase more)]
      exact ⟨[], coded :: rest, rfl, rfl, .refused rfl⟩
    | running =>
      have unread' : decoder.cursor.unread = coded.bytes ++ rest.flatMap Coded.bytes := unread
      cases updated : Nesting.update coded.descriptor decoder.cursor.position decoder.nesting with
      | error error same =>
        obtain ⟨-, fault, reported, refuses⟩ := update_eq_error_iff.mp updated
        have reached : decoder.cursor.Reached coded.bytes
            ⟨decoder.cursor.position + coded.bytes.length, rest.flatMap Coded.bytes⟩ :=
          ⟨unread', rfl⟩
        rw [run_of_fails unfinished (.refused phase first reached refuses)]
        exact ⟨[], coded :: rest, rfl, rfl, .refused rfl⟩
      | ok event nesting =>
        obtain ⟨after, takes, cursor, -, -⟩ :=
          exists_takes phase first unread' (update_eq_ok_iff.mp updated)
        have valid' : ∀ other ∈ rest, other.Valid after.registry := by
          intro other member
          exact takes.registry ▸ valid other (.tail _ member)
        have rest' : after.cursor.unread = rest.flatMap Coded.bytes := by rw [cursor]
        obtain ⟨read, left, both, yields, halts⟩ := ih takes.fresh rest' valid'
        have reached : after.cursor.position + (read.flatMap Coded.bytes).length =
            decoder.cursor.position + ((coded :: read).flatMap Coded.bytes).length := by
          rw [cursor, List.flatMap_cons, List.length_append, Nat.add_assoc]
        refine ⟨coded :: read, left, congrArg (List.cons coded) both, ?_,
          reached ▸ halts.takes takes⟩
        rw [run_of_takes takes, List.map_cons, List.map_cons, yields, takes.recorded]
        rfl

end WasmStream.Decoder
