import WasmStream.Proofs.Trails

/-! The two ways to ask a decoder for an instruction, mixed in any order. Whichever is used, the
instructions come in the order of the run; a failure is final, and so is the end. -/

namespace WasmStream.Decoder

inductive Call where
  | step
  | next
deriving DecidableEq, Repr

inductive Reply where
  | nothing
  | taken (instruction : Instruction)
  | failure (error : DecodeError)
deriving DecidableEq, Repr

def Reply.instruction? : Reply → Option Instruction
  | .taken instruction => some instruction
  | _ => none

def reply : EStateM.Result DecodeError Decoder Instruction → Reply × Decoder
  | .ok instruction after => (.taken instruction, after)
  | .error error after => (.failure error, after)

def call (decoder : Decoder) : Call → Reply × Decoder
  | .step => reply (step decoder)
  | .next =>
    match decoder.next? with
    | none => (.nothing, decoder)
    | some outcome => reply outcome

def after (decoder : Decoder) (calls : List Call) : Decoder :=
  calls.foldl (fun decoder kind => (decoder.call kind).2) decoder

/-- The instructions that calls made one after another are answered with. -/
def yielded (decoder : Decoder) : List Call → List Instruction
  | [] => []
  | kind :: later =>
    let (reply, next) := decoder.call kind
    reply.instruction?.toList ++ next.yielded later

theorem yielded_cons (decoder : Decoder) (kind : Call) (later : List Call) :
    decoder.yielded (kind :: later) =
      (decoder.call kind).1.instruction?.toList ++ (decoder.call kind).2.yielded later :=
  rfl

theorem after_cons (decoder : Decoder) (kind : Call) (later : List Call) :
    decoder.after (kind :: later) = (decoder.call kind).2.after later :=
  rfl

inductive Answers (decoder : Decoder) (kind : Call) : Prop where
  | takes {coded instruction next} (takes : Takes decoder coded instruction next)
      (answered : decoder.call kind = (.taken instruction, next))
  | fails {error cursor} (fails : Fails decoder error cursor)
      (answered : decoder.call kind =
        (.failure error, { decoder with cursor, phase := .failed error }))
  | finished (asked : kind = .next) (finished : decoder.isFinished = true)
      (answered : decoder.call kind = (.nothing, decoder))

theorem answers (decoder : Decoder) (kind : Call) : Answers decoder kind := by
  have stepping : decoder.call kind = reply (step decoder) → Answers decoder kind := by
    intro called
    cases stepped : step decoder with
    | ok instruction next =>
      obtain ⟨coded, takes⟩ := step_eq_ok_iff.mp stepped
      exact .takes takes (by rw [called, stepped]; rfl)
    | error error next =>
      obtain ⟨cursor, fails, rfl⟩ := step_eq_error_iff.mp stepped
      exact .fails fails (by rw [called, stepped]; rfl)
  cases kind with
  | step => exact stepping rfl
  | next =>
    cases done : decoder.isFinished with
    | true => exact .finished rfl done (by simp [call, next?, done])
    | false => exact stepping (by simp [call, next?, done])

theorem isFinished_call {decoder : Decoder} (finished : decoder.isFinished = true) (kind : Call) :
    (decoder.call kind).2.isFinished = true ∧ (decoder.call kind).1.instruction? = none := by
  cases answers decoder kind with
  | takes takes => cases finished.symm.trans takes.unfinished
  | fails _ answered =>
    rw [answered]
    exact ⟨rfl, rfl⟩
  | finished _ finished answered =>
    rw [answered]
    exact ⟨finished, rfl⟩

theorem isFinished_after {decoder : Decoder} (finished : decoder.isFinished = true)
    (calls : List Call) : (decoder.after calls).isFinished = true := by
  induction calls generalizing decoder with
  | nil => exact finished
  | cons kind later ih => exact ih (isFinished_call finished kind).1

private theorem yielded_of_finished {decoder : Decoder} (finished : decoder.isFinished = true)
    (calls : List Call) : decoder.yielded calls = [] := by
  induction calls generalizing decoder with
  | nil => rfl
  | cons kind later ih =>
    obtain ⟨finished', nothing⟩ := isFinished_call finished kind
    rw [yielded_cons, nothing, ih finished']
    rfl

/-- The calls get the instructions of the run, from the first on and each of them once. -/
theorem yielded_in_order (decoder : Decoder) (calls : List Call) :
    decoder.yielded calls <+: decoder.run.instructions := by
  induction calls generalizing decoder with
  | nil => exact List.nil_prefix
  | cons kind later ih =>
    cases answers decoder kind with
    | takes takes answered =>
      rw [run_of_takes takes, yielded_cons, answered]
      exact List.prefix_cons_inj _ |>.mpr (ih _)
    | fails _ answered =>
      have finished : (decoder.call kind).2.isFinished = true := by rw [answered]; rfl
      rw [yielded_cons, yielded_of_finished finished, answered]
      exact List.nil_prefix
    | finished _ finished =>
      rw [yielded_of_finished finished]
      exact List.nil_prefix

/-- Each instruction takes at least one byte. -/
theorem length_instructions_le (decoder : Decoder) :
    decoder.run.instructions.length ≤ decoder.cursor.remaining := by
  induction decoder using run_induction with
  | finished decoder finished =>
    rw [run_of_finished finished]
    exact Nat.zero_le _
  | fails decoder error cursor unfinished fails =>
    rw [run_of_fails unfinished fails]
    exact Nat.zero_le _
  | takes decoder coded instruction next takes ih =>
    rw [run_of_takes takes]
    exact ih.trans_lt (step_remaining_lt takes.step)

theorem call_of_failed {decoder : Decoder} {error : DecodeError}
    (failed : decoder.phase = .failed error) :
    decoder.call .step = (.failure error, decoder) ∧ decoder.call .next = (.nothing, decoder) := by
  constructor
  · simp [call, step, failed, reply]
  · simp [call, next?, isFinished, failed]

theorem after_of_failed {decoder : Decoder} {error : DecodeError}
    (failed : decoder.phase = .failed error) (calls : List Call) : decoder.after calls = decoder := by
  induction calls with
  | nil => rfl
  | cons kind later ih =>
    obtain ⟨stepped, asked⟩ := call_of_failed failed
    have same : (decoder.call kind).2 = decoder := by
      cases kind with
      | step => rw [stepped]
      | next => rw [asked]
    rw [after_cons, same]
    exact ih

/-- As long as no call has failed, each of them has taken an instruction or nothing. -/
theorem trail_of_calls {decoder : Decoder} {calls : List Call}
    (fresh : ∀ error, (decoder.after calls).phase ≠ .failed error) :
    Trail decoder (decoder.yielded calls) (decoder.after calls) := by
  induction calls generalizing decoder with
  | nil => exact .here
  | cons kind later ih =>
    rw [after_cons] at fresh ⊢
    have trail := ih fresh
    rw [yielded_cons]
    cases answers decoder kind with
    | takes takes answered =>
      rw [answered] at trail ⊢
      exact .step takes trail
    | @fails error _ _ answered =>
      have failed : (decoder.call kind).2.phase = .failed error := by rw [answered]
      rw [after_of_failed failed later] at fresh
      exact absurd failed (fresh error)
    | finished _ _ answered =>
      rw [answered] at trail ⊢
      exact trail

/-- Through any calls a decoder yields a first part of its run, of no more instructions than there
are bytes. A call that fails leaves the blocks alone, and changes nothing for all later ones but
their answer. A decoder that is finished stays so and yields no more. -/
theorem calls_keep_order (registry : Registry) (mode : Mode) (bytes : List UInt8) (calls : List Call) :
    let start := ofBytes registry mode bytes
    let decoder := start.after calls
    start.yielded calls <+: start.run.instructions ∧
    (start.yielded calls).length ≤ bytes.length ∧
    (∀ kind error stopped, decoder.call kind = (.failure error, stopped) →
      stopped.nesting = decoder.nesting ∧
      ∀ later, stopped.after later = stopped ∧
        stopped.call .step = (.failure error, stopped) ∧
        stopped.call .next = (.nothing, stopped)) ∧
    (decoder.isFinished = true → ∀ later,
      (decoder.after later).isFinished = true ∧
      ∀ kind instruction, ((decoder.after later).call kind).1 ≠ .taken instruction) := by
  intro start decoder
  refine ⟨yielded_in_order start calls, ?_, ?_, ?_⟩
  · exact (yielded_in_order start calls).length_le.trans (length_instructions_le start)
  · intro kind error stopped failed
    cases answers decoder kind with
    | takes _ answered => cases answered.symm.trans failed
    | finished _ _ answered => cases answered.symm.trans failed
    | fails _ answered =>
      cases answered.symm.trans failed
      refine ⟨rfl, fun later => ⟨after_of_failed rfl later, call_of_failed rfl⟩⟩
  · intro finished later
    have finished' := isFinished_after finished later
    refine ⟨finished', ?_⟩
    intro kind instruction answered
    have nothing := (isFinished_call finished' kind).2
    rw [answered] at nothing
    cases nothing

/-- Asked for a step behind its end, a decoder that had finished well has failed. -/
example : let decoder := (ofBytes .standard .bare [0x01]).after [.next, .next]
    decoder.isFinished = true ∧ (decoder.call .step).1 = .failure (.unexpectedEnd 1) := by
  decide +kernel

end WasmStream.Decoder
