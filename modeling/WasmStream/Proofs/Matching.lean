import WasmStream.Proofs.Steps

/-! Brackets among the instructions of a stream. An instruction that opens a block is an opening
bracket, one that closes a block is a closing one. What is matched is read off the instructions
alone, and the frames that a nesting holds are those of the opening instructions left unmatched. -/

namespace WasmStream

/-- Every opening instruction has its closing one, and the other way round. -/
inductive Matched : List Instruction → Prop where
  | empty : Matched []
  | other {first rest} (opens : ¬ first.descriptor.Opens) (closes : ¬ first.descriptor.Closes)
      (after : Matched rest) : Matched (first :: rest)
  | block {opener body closer rest} (opens : opener.descriptor.Opens) (within : Matched body)
      (closes : closer.descriptor.Closes) (after : Matched rest) :
      Matched (opener :: (body ++ closer :: rest))

private theorem Matched.append {first second : List Instruction} (left : Matched first)
    (right : Matched second) : Matched (first ++ second) := by
  induction left with
  | empty => exact right
  | other opens closes _ ih => exact .other opens closes ih
  | block opens within closes _ _ ih => simpa using Matched.block opens within closes ih

/-- Behind an opening instruction: one that acts so on the block itself, since there are only whole
blocks before it. -/
def OnLevel (Acts : Descriptor → Prop) (behind : List Instruction) : Prop :=
  ∃ before actor after, behind = before ++ actor :: after ∧ Matched before ∧ Acts actor.descriptor

private theorem Matched.onLevel {Acts : Descriptor → Prop} {blocks behind : List Instruction}
    (matched : Matched blocks) (level : OnLevel Acts behind) : OnLevel Acts (blocks ++ behind) := by
  obtain ⟨before, actor, after, both, matched', acts⟩ := level
  exact ⟨blocks ++ before, actor, after, by simp [both], matched.append matched', acts⟩

theorem onLevel_concat {Acts : Descriptor → Prop} {behind : List Instruction}
    {last : Instruction} : OnLevel Acts (behind ++ [last]) ↔
      OnLevel Acts behind ∨ Matched behind ∧ Acts last.descriptor := by
  constructor
  · rintro ⟨before, actor, after, both, matched, acts⟩
    rcases List.eq_nil_or_concat' after with rfl | ⟨after, final, rfl⟩
    · obtain ⟨rfl, rfl⟩ := List.append_inj' both rfl |>.imp_right List.singleton_inj.mp
      exact .inr ⟨matched, acts⟩
    · have both' : behind ++ [last] = (before ++ actor :: after) ++ [final] := by simpa using both
      exact .inl ⟨before, actor, after, List.append_inj_left' both' rfl, matched, acts⟩
  · rintro (⟨before, actor, after, rfl, matched, acts⟩ | ⟨matched, acts⟩)
    · exact ⟨before, actor, after ++ [last], by simp, matched, acts⟩
    · exact ⟨behind, last, [], rfl, matched, acts⟩

/-- The frames of the opening instructions that are not matched, in stream order. Each is in its
second arm if an instruction on its own level has switched to it. -/
inductive Unmatched : List Instruction → List Frame → Prop where
  | empty : Unmatched [] []
  | opened {opener behind frames inElse} (opens : opener.descriptor.Opens)
      (still : ¬ OnLevel Descriptor.Closes behind)
      (arm : inElse = true ↔ OnLevel Descriptor.Switches behind) (inner : Unmatched behind frames) :
      Unmatched (opener :: behind) (⟨opener.offset, opener.descriptor.opened, inElse⟩ :: frames)
  | other {first behind frames}
      (matched : first.descriptor.Opens → OnLevel Descriptor.Closes behind)
      (inner : Unmatched behind frames) : Unmatched (first :: behind) frames

theorem Unmatched.unique {history : List Instruction} {frames frames' : List Frame}
    (unmatched : Unmatched history frames) (unmatched' : Unmatched history frames') :
    frames = frames' := by
  induction unmatched generalizing frames' with
  | empty =>
    cases unmatched'
    rfl
  | opened opens still arm _ ih =>
    cases unmatched' with
    | opened _ _ arm' inner => rw [Bool.eq_iff_iff.mpr (arm.trans arm'.symm), ih inner]
    | other matched => exact absurd (matched opens) still
  | other matched _ ih =>
    cases unmatched' with
    | opened opens still => exact absurd (matched opens) still
    | other _ inner => exact ih inner

theorem Matched.unmatched {blocks behind : List Instruction} {frames : List Frame}
    (matched : Matched blocks) (unmatched : Unmatched (blocks ++ behind) frames) :
    Unmatched behind frames := by
  induction matched generalizing behind with
  | empty => exact unmatched
  | other opens _ _ ih =>
    cases unmatched with
    | opened opens' => exact absurd opens' opens
    | other _ inner => exact ih inner
  | @block opener body closer rest opens within closes _ ihBody ihRest =>
    rw [List.cons_append, List.append_assoc, List.cons_append] at unmatched
    cases unmatched with
    | opened _ still => exact absurd ⟨body, closer, _, rfl, within, closes⟩ still
    | other _ inner =>
      cases ihBody inner with
      | opened opens' => exact absurd (opens'.1.symm.trans closes.1) (by simp)
      | other _ inner' => exact ihRest inner'

/-- Where nothing is left open, and no closing instruction is left over, all is matched. -/
theorem matched_of_unmatched {behind : List Instruction} (unmatched : Unmatched behind [])
    (still : ¬ OnLevel Descriptor.Closes behind) : Matched behind := by
  -- A block may be followed by another, so the induction is on the length and not on the derivation.
  induction size : behind.length using Nat.strongRecOn generalizing behind with
  | ind size ih =>
    subst size
    cases unmatched with
    | empty => exact .empty
    | @other first behind _ matched inner =>
      by_cases opens : first.descriptor.Opens
      · obtain ⟨body, closer, rest, rfl, within, closes⟩ := matched opens
        have rest' : Unmatched rest [] := by
          cases within.unmatched inner with
          | other _ inner => exact inner
        have block : Matched (first :: (body ++ [closer])) := .block opens within closes .empty
        refine .block opens within closes (ih rest.length ?_ rest' (fun level => still ?_) rfl)
        · simp only [List.length_cons, List.length_append]
          omega
        · simpa using block.onLevel level
      · have closes : ¬ first.descriptor.Closes :=
          fun closes => still ⟨[], first, behind, rfl, .empty, closes⟩
        refine .other opens closes (ih behind.length ?_ inner (fun level => still ?_) rfl)
        · exact Nat.lt_succ_self _
        · exact (Matched.other opens closes .empty).onLevel level

theorem matched_iff {behind : List Instruction} {frames : List Frame}
    (unmatched : Unmatched behind frames) (still : ¬ OnLevel Descriptor.Closes behind) :
    Matched behind ↔ frames = [] := by
  constructor
  · intro matched
    rw [← List.append_nil behind] at unmatched
    cases matched.unmatched unmatched
    rfl
  · rintro rfl
    exact matched_of_unmatched unmatched still

namespace Unmatched
variable {history : List Instruction} {frames : List Frame} {last : Instruction}

private theorem extend (unmatched : Unmatched history frames)
    (idle : last.descriptor.flags.leavesBlock = true → frames = []) {own : List Frame}
    (alone : Unmatched [last] own) : Unmatched (history ++ [last]) (frames ++ own) := by
  induction unmatched with
  | empty => exact alone
  | opened opens still arm _ ih =>
    have closes : ¬ last.descriptor.Closes := fun closes => by cases idle closes.2
    have switches : ¬ last.descriptor.Switches := fun switches => by cases idle switches.2
    refine .opened opens ?_ ?_ (ih fun leaves => by cases idle leaves)
    · simpa [onLevel_concat, closes] using still
    · simpa [onLevel_concat, switches] using arm
  | other matched _ ih =>
    exact .other (fun opens => onLevel_concat.mpr (.inl (matched opens))) (ih idle)

/-- Only the innermost of the open blocks is affected by an instruction that leaves one: behind the
openers of the others something is open. -/
private theorem act {frame : Frame} {own : List Frame}
    (unmatched : Unmatched history (frames ++ [frame]))
    (innermost : ∀ {opener behind inElse}, frame = ⟨opener.offset, opener.descriptor.opened, inElse⟩ →
      opener.descriptor.Opens → ¬ OnLevel Descriptor.Closes behind → Matched behind →
      Unmatched behind [] → Unmatched (opener :: (behind ++ [last])) own) :
    Unmatched (history ++ [last]) (frames ++ own) := by
  generalize all : frames ++ [frame] = frames' at unmatched
  induction unmatched generalizing frames with
  | empty => simp at all
  | @opened opener behind inner inElse opens still arm unmatched ih =>
    cases frames with
    | nil =>
      obtain ⟨same, rfl⟩ := List.cons.inj all
      exact innermost same opens still (matched_of_unmatched unmatched still) unmatched
    | cons outer frames =>
      obtain ⟨rfl, rfl⟩ := List.cons.inj all
      have unfinished : ¬ Matched behind := by simp [matched_iff unmatched still]
      refine .opened opens ?_ ?_ (ih rfl)
      · simpa [onLevel_concat, unfinished] using still
      · simpa [onLevel_concat, unfinished] using arm
  | other matched _ ih =>
    exact .other (fun opens => onLevel_concat.mpr (.inl (matched opens))) (ih all)

/-- One move keeps the frames in step with the instructions. -/
theorem moves {nesting after : Nesting} {event : Nesting.Event}
    (unmatched : Unmatched history nesting.frames)
    (moved : Nesting.Moves last.descriptor last.offset nesting event after) :
    Unmatched (history ++ [last]) after.frames := by
  have alone : ¬ last.descriptor.Opens → Unmatched [last] [] :=
    fun opens => .other (fun opens' => absurd opens' opens) .empty
  cases moved with
  | stay stays =>
    have opens : ¬ last.descriptor.Opens := by simp [Descriptor.Opens, stays.1]
    have whole := unmatched.extend (by simp [stays.2]) (alone opens)
    rwa [List.append_nil] at whole
  | enter opens =>
    have single : Unmatched [last] [⟨last.offset, last.descriptor.opened, false⟩] :=
      .opened opens (by simp [OnLevel]) (by simp [OnLevel]) .empty
    simpa [Nesting.frames] using unmatched.extend (by simp [opens.2]) single
  | switch switches =>
    have opens : ¬ last.descriptor.Opens := by simp [Descriptor.Opens, switches.2]
    have closes : ¬ last.descriptor.Closes := by simp [Descriptor.Closes, switches.1]
    simp only [Nesting.frames, List.reverse_cons] at unmatched ⊢
    refine unmatched.act ?_
    rintro opener behind inElse same opens' still matched inner
    obtain ⟨offset, kind, -⟩ := Frame.mk.inj same
    rw [offset, kind]
    refine .opened opens' ?_ ?_ (inner.extend (fun _ => rfl) (alone opens))
    · simpa [onLevel_concat, closes] using still
    · simp [onLevel_concat, matched, switches]
  | leave closes =>
    have opens : ¬ last.descriptor.Opens := by simp [Descriptor.Opens, closes.2]
    simp only [Nesting.frames, List.reverse_cons] at unmatched ⊢
    rw [← List.append_nil (List.reverse _)]
    refine unmatched.act ?_
    rintro opener behind inElse - - - matched inner
    refine .other (fun _ => ?_) (inner.extend (fun _ => rfl) (alone opens))
    exact onLevel_concat.mpr (.inr ⟨matched, closes⟩)

end Unmatched
end WasmStream
