import WasmStream.Proofs.Points
import WasmStream.Registry.Standard

/-! Where an instruction cannot be reached. The nesting keeps one flag for the innermost
arm and one for each arm around it. Each of them says of its arm whether the run has met
an instruction without fallthrough in it, and this is told from the run alone: by the
depth behind that instruction, and by no later one having closed or switched a block that
was open there. -/

namespace WasmStream

namespace Nesting

/-- Each level remembers whether the arm around it is cut off, told by the depth of that arm. -/
def Saved (cut : Nat → Prop) : List Level → Prop
  | [] => True
  | level :: outer => (level.outerUnreachable = true ↔ cut outer.length) ∧ Saved cut outer

private theorem Saved.congr {cut cut' : Nat → Prop} {levels : List Level} (saved : Saved cut levels)
    (same : ∀ depth < levels.length, cut' depth ↔ cut depth) : Saved cut' levels := by
  induction levels with
  | nil => trivial
  | cons level outer ih =>
    obtain ⟨here, below⟩ := saved
    refine ⟨here.trans (same _ (Nat.lt_succ_self _)).symm, ih below ?_⟩
    intro depth inside
    exact same depth (inside.trans (Nat.lt_succ_self _))

/-- The flags are right about the arms that are cut off, and there are no others. -/
structure Marks (cut : Nat → Prop) (nesting : Nesting) : Prop where
  bounded : ∀ depth, cut depth → depth ≤ nesting.depth
  current : nesting.unreachable = true ↔ cut nesting.depth
  saved : Saved cut nesting.levels

theorem marks_start (mode : Decoder.Mode) : Marks (fun _ => False) mode.nesting := by
  cases mode with
  | bare => exact ⟨by simp, by simp [Decoder.Mode.nesting, empty], trivial⟩
  | functionBody =>
    exact ⟨by simp, by simp [Decoder.Mode.nesting, functionBody],
      by simp [Decoder.Mode.nesting, functionBody], trivial⟩

/-- The arms that are cut off behind an instruction: its own if nothing falls through it, and
those that were and that it does not end. -/
def CutBehind (descriptor : Descriptor) (before after : Nesting) (cut : Nat → Prop)
    (depth : Nat) : Prop :=
  descriptor.flags.noFallthrough = true ∧ after.depth = depth ∨
    cut depth ∧ (descriptor.flags.leavesBlock = true → depth < before.depth)

section
variable {cut : Nat → Prop} {descriptor : Descriptor} {nesting after : Nesting}

private theorem CutBehind.le (same : ∀ depth, cut depth →
      (descriptor.flags.leavesBlock = true → depth < nesting.depth) → depth ≤ after.depth) :
    ∀ depth, CutBehind descriptor nesting after cut depth → depth ≤ after.depth := by
  rintro depth (⟨-, here⟩ | ⟨earlier, inside⟩)
  · exact here.ge
  · exact same depth earlier inside

/-- An instruction concerns no arm further out than those it moves between. -/
private theorem cutBehind_outside {depth : Nat} (outside : depth < nesting.depth)
    (outside' : depth < after.depth) :
    CutBehind descriptor nesting after cut depth ↔ cut depth := by
  simp [CutBehind, outside, outside'.ne']

end

private theorem Marks.moves {cut : Nat → Prop} {descriptor : Descriptor} {offset : Nat}
    {nesting after : Nesting} {event : Event} (marks : Marks cut nesting)
    (moves : Moves descriptor offset nesting event after) :
    Marks (CutBehind descriptor nesting after cut) after := by
  obtain ⟨bounded, current, flags⟩ := marks
  cases moves with
  | @stay stack saved unreachable stays =>
    refine ⟨CutBehind.le fun depth earlier _ => bounded depth earlier, ?_, flags.congr ?_⟩
    · simp only [depth] at current
      simp [CutBehind, stays.2, Nesting.depth, current, or_comm]
    · intro depth inside
      rw [Nesting.length_levels] at inside
      exact cutBehind_outside inside inside
  | @enter stack saved unreachable opens =>
    simp only [depth] at bounded current
    have fresh : ¬ cut (stack.length + 1) := fun earlier => Nat.not_succ_le_self _ (bounded _ earlier)
    refine ⟨CutBehind.le fun depth earlier _ => (bounded depth earlier).trans (Nat.le_succ _),
      ?_, ?_, flags.congr ?_⟩
    · simp [CutBehind, Nesting.depth, fresh]
    · simpa [CutBehind, opens.2, Nesting.depth] using current
    · intro depth inside
      rw [Nesting.length_levels] at inside
      exact cutBehind_outside inside (inside.trans (Nat.lt_succ_self _))
  | @switch start outer saved unreachable switches =>
    obtain ⟨here, below⟩ := flags
    refine ⟨CutBehind.le fun depth earlier _ => bounded depth earlier, ?_, ?_, below.congr ?_⟩
    · simp [CutBehind, switches.2, Nesting.depth]
    · simpa [CutBehind, Nesting.depth] using here
    · intro depth inside
      rw [Level.length_pair] at inside
      have outside := inside.trans (Nat.lt_succ_self outer.length)
      exact cutBehind_outside outside outside
  | @leave frame outer saved unreachable closes =>
    obtain ⟨here, below⟩ := flags
    rw [Level.length_pair] at here
    refine ⟨CutBehind.le fun depth _ inside => Nat.le_of_lt_succ (inside closes.2), ?_,
      below.congr ?_⟩
    · simp [CutBehind, Nesting.depth, ← here, or_comm]
    · intro depth inside
      rw [Level.length_pair] at inside
      exact cutBehind_outside (inside.trans (Nat.lt_succ_self _)) inside

end Nesting

namespace Decoder
open Nesting (Marks CutBehind)

/-- Nothing between two places of a run leaves a depth or goes below it. -/
def StaysAbove (start : Decoder) (depth earlier place : Nat) : Prop :=
  ∀ between middle, earlier < between → between < place →
    start.run.instructions[between]? = some middle →
    middle.descriptor.flags.leavesBlock = true → depth < (start.point between).nesting.depth

/-- The arm at a depth is cut off in front of a place of a run. -/
def CutOff (start : Decoder) (place depth : Nat) : Prop :=
  ∃ earlier cut, earlier < place ∧ start.run.instructions[earlier]? = some cut ∧
    cut.descriptor.flags.noFallthrough = true ∧
    (start.point (earlier + 1)).nesting.depth = depth ∧ start.StaysAbove depth earlier place

theorem staysAbove_succ {start : Decoder} {depth earlier place : Nat} {instruction : Instruction}
    (yielded : start.run.instructions[place]? = some instruction) (order : earlier < place) :
    start.StaysAbove depth earlier (place + 1) ↔ start.StaysAbove depth earlier place ∧
      (instruction.descriptor.flags.leavesBlock = true →
        depth < (start.point place).nesting.depth) := by
  constructor
  · intro stays
    refine ⟨?_, stays place instruction order (Nat.lt_succ_self place) yielded⟩
    intro between middle after before
    exact stays between middle after (before.trans (Nat.lt_succ_self place))
  · intro ⟨stays, last⟩ between middle after before listed
    rcases Nat.lt_succ_iff_lt_or_eq.mp before with before | same
    · exact stays between middle after before listed
    · subst same
      cases yielded.symm.trans listed
      exact last

private theorem cutOff_succ {start : Decoder} {place depth : Nat} {instruction : Instruction}
    (yielded : start.run.instructions[place]? = some instruction) :
    start.CutOff (place + 1) depth ↔ CutBehind instruction.descriptor (start.point place).nesting
      (start.point (place + 1)).nesting (start.CutOff place) depth := by
  constructor
  · intro ⟨earlier, cut, before, listed, stops, level, stays⟩
    rcases Nat.lt_succ_iff_lt_or_eq.mp before with before | same
    · obtain ⟨stays, last⟩ := (staysAbove_succ yielded before).mp stays
      exact .inr ⟨⟨earlier, cut, before, listed, stops, level, stays⟩, last⟩
    · subst same
      cases yielded.symm.trans listed
      exact .inl ⟨stops, level⟩
  · rintro (⟨stops, level⟩ | ⟨⟨earlier, cut, before, listed, stops, level, stays⟩, last⟩)
    · refine ⟨place, instruction, Nat.lt_succ_self place, yielded, stops, level, ?_⟩
      intro between middle after before
      omega
    · exact ⟨earlier, cut, before.trans (Nat.lt_succ_self place), listed, stops, level,
        (staysAbove_succ yielded before).mpr ⟨stays, last⟩⟩

/-- At every point of a run the flags tell which arms are cut off. -/
theorem marks_point {start : Decoder} (fresh : Marks (fun _ => False) start.nesting) {place : Nat}
    (reached : place ≤ start.run.instructions.length) :
    Marks (start.CutOff place) (start.point place).nesting := by
  refine point_induction (motive := fun place decoder => Marks (start.CutOff place) decoder.nesting)
    ?_ ?_ place reached
  · have nowhere : start.CutOff 0 = fun _ => False := by
      funext depth
      simp [CutOff]
    rwa [nowhere]
  · intro place coded instruction yielded takes marks
    obtain ⟨event, moves, -⟩ := takes.moved
    have behind := marks.moves moves
    have same : start.CutOff (place + 1) = CutBehind coded.descriptor (start.point place).nesting
        (start.point (place + 1)).nesting (start.CutOff place) := by
      funext depth
      rw [cutOff_succ yielded, takes.recorded]
      rfl
    rwa [same]

def Run.OpensBehind (run : Run) (place offset : Nat) : Prop :=
  ∃ later opener, place < later ∧ run.instructions[later]? = some opener ∧
    opener.descriptor.Opens ∧ opener.offset = offset

/-- Between two places of a run nothing is closed or switched but what was opened behind the
first: the two lie in the same arm of the same block. -/
def KeepsArm (start : Decoder) (earlier place : Nat) : Prop :=
  ∀ between middle, earlier < between → between < place →
    start.run.instructions[between]? = some middle →
    middle.descriptor.Closes ∨ middle.descriptor.Switches →
    ∃ frame, (start.point between).nesting.top? = some frame ∧
      start.run.OpensBehind earlier frame.offset

def OpenedBefore (decoder : Decoder) : Prop :=
  ∀ level ∈ decoder.nesting.levels, level.frame.offset ≤ decoder.cursor.position

private theorem openedBefore_ofBytes (registry : Registry) (mode : Mode) (bytes : List UInt8) :
    OpenedBefore (ofBytes registry mode bytes) := by
  intro level member
  cases mode with
  | bare => cases member
  | functionBody =>
    obtain rfl := List.mem_singleton.mp member
    exact Nat.zero_le _

private theorem openedBefore_point {start : Decoder} (opened : start.OpenedBefore) {place : Nat}
    (reached : place ≤ start.run.instructions.length) : (start.point place).OpenedBefore := by
  refine point_induction (motive := fun _ decoder => decoder.OpenedBefore) opened ?_ place reached
  intro place coded instruction yielded takes opened level member
  obtain ⟨event, moves, -⟩ := takes.moved
  exact (moves.offset_le opened level member).trans takes.position_lt.le

private theorem not_opensBehind {start : Decoder} (opened : start.OpenedBefore) {place : Nat}
    (reached : place < start.run.instructions.length) {level : Level}
    (member : level ∈ (start.point (place + 1)).nesting.levels) :
    ¬ start.run.OpensBehind place level.frame.offset := by
  intro ⟨later, opener, behind, listed, _, same⟩
  obtain ⟨coded, takes⟩ := takes_point (List.getElem?_eq_getElem reached)
  obtain ⟨event, moves, -⟩ := takes.moved
  have inside := (List.getElem?_eq_some_iff.mp listed).1
  have lower : level.frame.offset < (start.point (place + 1)).cursor.position :=
    (moves.offset_le (openedBefore_point opened reached.le) level member).trans_lt takes.position_lt
  have upper : (start.point (place + 1)).cursor.position ≤ level.frame.offset := by
    rw [← same, offset_eq_position listed]
    exact position_point_mono behind inside.le
  exact absurd lower (Nat.not_lt_of_le upper)

private theorem StaysAbove.levels_eq {start : Decoder} {earlier place : Nat}
    (order : earlier < place) (reached : place ≤ start.run.instructions.length)
    (stays : start.StaysAbove (start.point (earlier + 1)).nesting.depth earlier place) :
    ∃ above, (start.point place).nesting.levels =
        above ++ (start.point (earlier + 1)).nesting.levels ∧
      ∀ level ∈ above, start.run.OpensBehind earlier level.frame.offset := by
  induction place, Nat.succ_le_of_lt order using Nat.le_induction with
  | base => exact ⟨[], rfl, by simp⟩
  | succ place later ih =>
    have yielded := List.getElem?_eq_getElem reached
    obtain ⟨stays, last⟩ := (staysAbove_succ yielded later).mp stays
    obtain ⟨above, levels, recent⟩ := ih later (Nat.le_of_succ_le reached) stays
    obtain ⟨coded, takes⟩ := takes_point yielded
    obtain ⟨event, moves, -⟩ := takes.moved
    rw [takes.recorded] at last
    apply moves.above levels _ recent
    · intro opens
      refine ⟨place, _, later, yielded, ?_, offset_eq_position yielded⟩
      rw [takes.recorded]
      exact opens
    · intro leaves nothing
      have deeper := last leaves
      rw [← Nesting.length_levels, ← Nesting.length_levels, levels, nothing] at deeper
      exact absurd deeper (Nat.lt_irrefl _)

/-- Two places lie in the same arm exactly if nothing between them leaves the depth behind the
first. -/
theorem staysAbove_iff_keepsArm {start : Decoder} (opened : start.OpenedBefore)
    {earlier place : Nat} (order : earlier < place)
    (reached : place ≤ start.run.instructions.length) :
    start.StaysAbove (start.point (earlier + 1)).nesting.depth earlier place ↔
      start.KeepsArm earlier place := by
  constructor
  · intro stays between middle after before listed acts
    have within : start.StaysAbove (start.point (earlier + 1)).nesting.depth earlier between :=
      fun other instruction after' before' => stays other instruction after' (before'.trans before)
    obtain ⟨above, levels, recent⟩ := within.levels_eq after (before.le.trans reached)
    have deeper := stays between middle after before listed (Descriptor.leavesBlock_iff.mpr acts)
    cases above with
    | nil =>
      rw [← Nesting.length_levels, ← Nesting.length_levels, levels] at deeper
      exact absurd deeper (Nat.lt_irrefl _)
    | cons level above =>
      exact ⟨level.frame, by simp [Nesting.top?_eq_head?, levels], recent level List.mem_cons_self⟩
  · intro keeps
    induction place, Nat.succ_le_of_lt order using Nat.le_induction with
    | base =>
      intro between middle after before
      exact absurd after (Nat.not_lt_of_le (Nat.le_of_lt_succ before))
    | succ place later ih =>
      have reached' : place ≤ start.run.instructions.length := Nat.le_of_succ_le reached
      have yielded := List.getElem?_eq_getElem reached
      have stays := ih later reached' fun between middle after before =>
        keeps between middle after (before.trans (Nat.lt_succ_self place))
      refine (staysAbove_succ yielded later).mpr ⟨stays, ?_⟩
      intro leaves
      obtain ⟨frame, top, recent⟩ := keeps place _ later (Nat.lt_succ_self place) yielded
        (Descriptor.leavesBlock_iff.mp leaves)
      obtain ⟨above, levels, -⟩ := stays.levels_eq later reached'
      rw [Nesting.top?_eq_head?] at top
      obtain ⟨level, first, same⟩ := Option.map_eq_some_iff.mp top
      cases above with
      | nil =>
        rw [levels] at first
        subst same
        have old : level ∈ (start.point (earlier + 1)).nesting.levels := List.mem_of_mem_head? first
        exact absurd recent (not_opensBehind opened (Nat.lt_of_lt_of_le later reached') old)
      | cons level above =>
        rw [← Nesting.length_levels, ← Nesting.length_levels, levels, List.length_append]
        exact Nat.lt_add_of_pos_left (Nat.succ_pos _)

/-- An instruction of a run is unreachable exactly if nothing falls through an earlier one in the
same arm of the same block. -/
theorem unreachable_iff (registry : Registry) (mode : Mode) (bytes : List UInt8) (place : Nat)
    (instruction : Instruction)
    (yielded : (ofBytes registry mode bytes).run.instructions[place]? = some instruction) :
    let start := ofBytes registry mode bytes
    instruction.reachable = false ↔
      ∃ earlier cut, earlier < place ∧ start.run.instructions[earlier]? = some cut ∧
        cut.descriptor.flags.noFallthrough = true ∧
        (start.point place).nesting.depth = (start.point (earlier + 1)).nesting.depth ∧
        start.KeepsArm earlier place := by
  intro start
  have reached : place ≤ start.run.instructions.length :=
    (List.getElem?_eq_some_iff.mp yielded).1.le
  have opened : start.OpenedBefore := openedBefore_ofBytes registry mode bytes
  obtain ⟨coded, takes⟩ := takes_point yielded
  have flag : instruction.reachable = false ↔ (start.point place).nesting.unreachable = true := by
    rw [takes.recorded]
    simp [Nesting.record, start]
  rw [flag, (marks_point (Nesting.marks_start mode) reached).current]
  constructor
  · rintro ⟨earlier, cut, order, listed, stops, depth, stays⟩
    rw [← depth] at stays
    exact ⟨earlier, cut, order, listed, stops, depth.symm,
      (staysAbove_iff_keepsArm opened order reached).mp stays⟩
  · rintro ⟨earlier, cut, order, listed, stops, depth, keeps⟩
    refine ⟨earlier, cut, order, listed, stops, depth.symm, ?_⟩
    rw [depth]
    exact (staysAbove_iff_keepsArm opened order reached).mpr keeps

/-- Dead code goes on behind a block, whose own code is live. -/
theorem unreachable_behind_block :
    let start := ofBytes .standard .bare [0x00, 0x02, 0x40, 0x01, 0x0b, 0x01]
    start.run.instructions[4]? = some ⟨5, Opcode.nop.descriptor, none, 0, false⟩ ∧
      ∃ earlier cut, earlier < 4 ∧ start.run.instructions[earlier]? = some cut ∧
        cut.descriptor.flags.noFallthrough = true ∧
        (start.point 4).nesting.depth = (start.point (earlier + 1)).nesting.depth ∧
        start.KeepsArm earlier 4 := by
  intro start
  have yielded : start.run.instructions[4]? = some ⟨5, Opcode.nop.descriptor, none, 0, false⟩ := by
    decide +kernel
  exact ⟨yielded, (unreachable_iff .standard .bare _ 4 _ yielded).mp rfl⟩

end Decoder
end WasmStream
