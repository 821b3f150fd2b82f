import WasmStream.Proofs.Points

/-! The instructions between two points of a run. Where a run is cut in two, the decoder at the cut
is reached over the first part and goes on with the second. -/

namespace WasmStream.Decoder
open Nesting (Moves)

inductive Trail : Decoder → List Instruction → Decoder → Prop where
  | here {decoder} : Trail decoder [] decoder
  | step {decoder coded instruction middle rest after}
      (takes : Takes decoder coded instruction middle) (later : Trail middle rest after) :
      Trail decoder (instruction :: rest) after

theorem Takes.moves {decoder after : Decoder} {coded : Coded} {instruction : Instruction}
    (takes : Takes decoder coded instruction after) :
    ∃ event, Moves instruction.descriptor instruction.offset decoder.nesting event after.nesting ∧
      after.phase = decoder.phase.after event := by
  rw [takes.recorded]
  exact takes.moved

theorem Trail.split {decoder after : Decoder} {first second : List Instruction}
    (trail : Trail decoder (first ++ second) after) :
    ∃ middle, Trail decoder first middle ∧ Trail middle second after := by
  induction first generalizing decoder with
  | nil => exact ⟨decoder, .here, trail⟩
  | cons instruction first ih =>
    cases trail with
    | step takes later =>
      obtain ⟨middle, left, right⟩ := ih later
      exact ⟨middle, .step takes left, right⟩

theorem Trail.concat {decoder middle after : Decoder} {coded : Coded} {history : List Instruction}
    {instruction : Instruction} (trail : Trail decoder history middle)
    (takes : Takes middle coded instruction after) :
    Trail decoder (history ++ [instruction]) after := by
  induction trail with
  | here => exact .step takes .here
  | step takes' _ ih => exact .step takes' (ih takes)

theorem Trail.reached {decoder after : Decoder} {history : List Instruction}
    (trail : Trail decoder history after) :
    ∃ read, decoder.cursor.Reached read after.cursor ∧ after.registry = decoder.registry := by
  induction trail with
  | here => exact ⟨[], .refl _, rfl⟩
  | step takes _ ih =>
    obtain ⟨read, reached, registry⟩ := ih
    exact ⟨_, takes.reached.trans reached, registry.trans takes.registry⟩

theorem trail_of_run {decoder : Decoder} {first second : List Instruction}
    (yields : decoder.run.instructions = first ++ second) :
    ∃ middle, Trail decoder first middle ∧ middle.run.instructions = second := by
  induction decoder using run_induction generalizing first with
  | finished decoder finished =>
    rw [run_of_finished finished] at yields
    obtain ⟨rfl, rfl⟩ := List.append_eq_nil_iff.mp yields.symm
    exact ⟨decoder, .here, by rw [run_of_finished finished]⟩
  | fails decoder error cursor unfinished fails =>
    rw [run_of_fails unfinished fails] at yields
    obtain ⟨rfl, rfl⟩ := List.append_eq_nil_iff.mp yields.symm
    exact ⟨decoder, .here, by rw [run_of_fails unfinished fails]⟩
  | takes decoder coded instruction after takes ih =>
    cases first with
    | nil => exact ⟨decoder, .here, yields⟩
    | cons _ first =>
      rw [run_of_takes takes] at yields
      obtain ⟨rfl, rest⟩ := List.cons.inj yields
      obtain ⟨middle, trail, later⟩ := ih rest
      exact ⟨middle, .step takes trail, later⟩

private theorem point_of_finished {decoder : Decoder} (finished : decoder.isFinished = true)
    (place : Nat) : decoder.point place = decoder := by
  apply Function.iterate_fixed
  simp [proceed, Decoder.next?, finished]

/-- Requests beyond the end of a run change no block. -/
theorem trail_point (decoder : Decoder) (place : Nat) :
    ∃ middle, Trail decoder (decoder.run.instructions.take place) middle ∧
      (decoder.point place).nesting = middle.nesting := by
  induction decoder using run_induction generalizing place with
  | finished decoder finished =>
    rw [run_of_finished finished, point_of_finished finished, List.take_nil]
    exact ⟨decoder, .here, rfl⟩
  | fails decoder error cursor unfinished fails =>
    rw [run_of_fails unfinished fails, List.take_nil]
    refine ⟨decoder, .here, ?_⟩
    cases place with
    | zero => rfl
    | succ place =>
      have stopped : decoder.proceed = { decoder with cursor, phase := .failed error } := by
        simp [proceed, Decoder.next?, unfinished, fails.step]
      rw [point_succ, stopped, point_of_finished rfl]
  | takes decoder coded instruction after takes ih =>
    cases place with
    | zero => exact ⟨decoder, .here, rfl⟩
    | succ place =>
      rw [run_of_takes takes, point_succ, takes.proceed]
      obtain ⟨middle, trail, same⟩ := ih place
      exact ⟨middle, .step takes trail, same⟩

end WasmStream.Decoder
