import Mathlib.Logic.Function.Iterate
import WasmStream.Proofs.Runs

/-! The points that a run passes through, counted by the instructions before them. -/

namespace WasmStream.Decoder

/-- The decoder after one request for the next instruction, whatever the answer. -/
def proceed (decoder : Decoder) : Decoder :=
  match decoder.next? with
  | none => decoder
  | some (.ok _ after) => after
  | some (.error _ after) => after

def point (decoder : Decoder) (place : Nat) : Decoder := proceed^[place] decoder

theorem Takes.proceed {decoder after : Decoder} {coded : Coded} {instruction : Instruction}
    (takes : Takes decoder coded instruction after) : decoder.proceed = after := by
  unfold Decoder.proceed
  rw [takes.next?]

theorem point_succ (decoder : Decoder) (place : Nat) :
    decoder.point (place + 1) = decoder.proceed.point place :=
  Function.iterate_succ_apply proceed place decoder

theorem takes_point {decoder : Decoder} {place : Nat} {instruction : Instruction}
    (yielded : decoder.run.instructions[place]? = some instruction) :
    ∃ coded, Takes (decoder.point place) coded instruction (decoder.point (place + 1)) := by
  induction decoder using run_induction generalizing place with
  | finished decoder finished =>
    rw [run_of_finished finished] at yielded
    cases yielded
  | fails decoder error cursor unfinished fails =>
    rw [run_of_fails unfinished fails] at yielded
    cases yielded
  | takes decoder coded first after takes ih =>
    have shift : ∀ later, decoder.point (later + 1) = after.point later := by
      intro later
      rw [point_succ, takes.proceed]
    rw [run_of_takes takes] at yielded
    cases place with
    | zero =>
      cases yielded
      rw [shift]
      exact ⟨coded, takes⟩
    | succ place =>
      rw [shift, shift]
      exact ih yielded

/-- What holds at the start and is kept by every instruction holds at every point up to the end of
the run. -/
theorem point_induction {motive : Nat → Decoder → Prop} {decoder : Decoder}
    (start : motive 0 decoder)
    (kept : ∀ place coded instruction, decoder.run.instructions[place]? = some instruction →
      Takes (decoder.point place) coded instruction (decoder.point (place + 1)) →
      motive place (decoder.point place) → motive (place + 1) (decoder.point (place + 1)))
    (place : Nat) (reached : place ≤ decoder.run.instructions.length) :
    motive place (decoder.point place) := by
  induction place with
  | zero => exact start
  | succ place ih =>
    have yielded := List.getElem?_eq_getElem reached
    obtain ⟨coded, takes⟩ := takes_point yielded
    exact kept place coded _ yielded takes (ih (Nat.le_of_succ_le reached))

theorem Takes.position_lt {decoder after : Decoder} {coded : Coded} {instruction : Instruction}
    (takes : Takes decoder coded instruction after) :
    decoder.cursor.position < after.cursor.position :=
  takes.reached.position_lt takes.valid.ne_nil

theorem position_point_mono {decoder : Decoder} {first last : Nat} (order : first ≤ last)
    (reached : last ≤ decoder.run.instructions.length) :
    (decoder.point first).cursor.position ≤ (decoder.point last).cursor.position := by
  induction last, order using Nat.le_induction with
  | base => exact Nat.le_refl _
  | succ last order ih =>
    obtain ⟨coded, takes⟩ := takes_point (List.getElem?_eq_getElem reached)
    exact (ih (Nat.le_of_succ_le reached)).trans takes.position_lt.le

theorem offset_eq_position {decoder : Decoder} {place : Nat} {instruction : Instruction}
    (yielded : decoder.run.instructions[place]? = some instruction) :
    instruction.offset = (decoder.point place).cursor.position := by
  obtain ⟨coded, takes⟩ := takes_point yielded
  rw [takes.recorded]
  rfl

theorem registry_point {decoder : Decoder} {place : Nat}
    (reached : place ≤ decoder.run.instructions.length) :
    (decoder.point place).registry = decoder.registry := by
  refine point_induction (motive := fun _ point => point.registry = decoder.registry) rfl ?_ place
    reached
  intro place coded instruction _ takes same
  exact takes.registry.trans same

theorem position_le_offset {decoder : Decoder} {instruction : Instruction}
    (member : instruction ∈ decoder.run.instructions) :
    decoder.cursor.position ≤ instruction.offset := by
  obtain ⟨place, inside, rfl⟩ := List.getElem_of_mem member
  rw [offset_eq_position (List.getElem?_eq_getElem inside)]
  exact position_point_mono (Nat.zero_le place) inside.le

theorem final_eq_point {decoder : Decoder} (clean : decoder.run.failure = none) :
    decoder.run.final = decoder.point decoder.run.instructions.length := by
  induction decoder using run_induction with
  | finished decoder finished =>
    rw [run_of_finished finished]
    rfl
  | fails decoder error cursor unfinished fails =>
    rw [run_of_fails unfinished fails] at clean
    cases clean
  | takes decoder coded instruction after takes ih =>
    rw [run_of_takes takes] at clean ⊢
    rw [List.length_cons, point_succ, takes.proceed]
    exact ih clean

theorem cursor_final {registry : Registry} {mode : Mode} {bytes : List UInt8}
    (clean : (ofBytes registry mode bytes).run.failure = none) :
    (ofBytes registry mode bytes).run.final.cursor = ⟨bytes.length, []⟩ := by
  have kept := @run_ends (fun decoder => (∀ error, decoder.phase ≠ .failed error) ∧
    decoder.cursor.limit = bytes.length) ?_ (ofBytes registry mode bytes)
    ⟨by simp [ofBytes], Nat.zero_add _⟩
  · rcases kept with ⟨-, finished, fresh, limit⟩ | ⟨_, _, _, _, _, failed, _⟩
    · generalize (ofBytes registry mode bytes).run.final = final at *
      obtain ⟨unread, -⟩ := (isFinished_iff fresh).mp finished
      obtain ⟨_, ⟨position, _⟩, _, _⟩ := final
      simp only at unread
      subst unread
      obtain rfl : position = bytes.length := limit
      rfl
    · cases clean.symm.trans failed
  · intro decoder coded instruction after takes both
    exact ⟨takes.fresh, takes.reached.limit_eq.trans both.2⟩

end WasmStream.Decoder
