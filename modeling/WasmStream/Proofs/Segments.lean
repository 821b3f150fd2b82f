import WasmStream.Proofs.Brackets
import WasmStream.Proofs.OpenFrames

/-! Stretches of updates that leave their surroundings alone. These are the well nested ones: behind
a well nested sequence all is open that was open before it, and a sequence that touches nothing
below the depth it starts and ends at is well nested. -/

namespace WasmStream.Nesting

def updates (segment : List Placed) : EStateM DecodeError Nesting (List Event) :=
  segment.mapM fun placed => update placed.descriptor placed.offset

variable {nesting after : Nesting} {segment rest : List Placed} {placed : Placed}
  {events : List Event} {depth : Nat}

theorem updates_cons_eq_ok_iff :
    updates (placed :: rest) nesting = .ok events after ↔
      ∃ event middle later, Moves placed.descriptor placed.offset nesting event middle ∧
        updates rest middle = .ok later after ∧ events = event :: later := by
  simp only [updates, List.mapM_cons, Reader.bind_eq_ok, update_eq_ok_iff]
  constructor
  · rintro ⟨event, middle, moves, later, last, updated, done⟩
    cases done
    exact ⟨event, middle, later, moves, updated, rfl⟩
  · rintro ⟨event, middle, later, moves, updated, rfl⟩
    exact ⟨event, middle, moves, later, after, updated, rfl⟩

private theorem Passes.updates {base : List Level}
    (passes : Passes base nesting segment events after) :
    updates segment nesting = .ok events after := by
  induction passes with
  | done => rfl
  | step _ moves _ ih => exact updates_cons_eq_ok_iff.mpr ⟨_, _, _, moves, ih, rfl⟩

/-- Along the segment nothing below the depth is closed, nor turned to its second arm. -/
def Spares (depth : Nat) (nesting : Nesting) (segment : List Placed) : Prop :=
  ∀ before rest, segment = before ++ rest → ∀ events middle,
    updates before nesting = .ok events middle →
    depth ≤ middle.depth ∧ ∀ next ∈ rest.head?, next.descriptor.Switches → depth < middle.depth

private theorem spares_nil_iff : Spares depth nesting [] ↔ depth ≤ nesting.depth := by
  constructor
  · intro spares
    exact (spares [] [] rfl [] nesting rfl).1
  · intro above before rest split events middle updated
    obtain ⟨rfl, rfl⟩ := List.append_eq_nil_iff.mp split.symm
    cases updated
    exact ⟨above, by simp⟩

theorem spares_cons_iff : Spares depth nesting (placed :: rest) ↔
    depth ≤ nesting.depth ∧ (placed.descriptor.Switches → depth < nesting.depth) ∧
      ∀ event middle, Moves placed.descriptor placed.offset nesting event middle →
        Spares depth middle rest := by
  constructor
  · intro spares
    obtain ⟨above, inside⟩ := spares [] (placed :: rest) rfl [] nesting rfl
    refine ⟨above, inside placed rfl, ?_⟩
    intro event middle moves before rest' split events last updated
    exact spares (placed :: before) rest' (congrArg _ split) (event :: events) last
      (updates_cons_eq_ok_iff.mpr ⟨event, middle, events, moves, updated, rfl⟩)
  · intro ⟨above, inside, later⟩ before rest' split events last updated
    cases before with
    | nil =>
      obtain rfl : placed :: rest = rest' := split
      cases updated
      exact ⟨above, by simpa using inside⟩
    | cons first before =>
      obtain ⟨rfl, same⟩ := List.cons.inj split
      obtain ⟨event, middle, events, moves, updated, -⟩ := updates_cons_eq_ok_iff.mp updated
      exact later event middle moves before rest' same events last updated

private theorem Moves.suffix {base : List Level} {descriptor : Descriptor} {offset : Nat}
    {event : Event} (moves : Moves descriptor offset nesting event after)
    (above : base <:+ nesting.levels) (inside : descriptor.Switches → base.length < nesting.depth)
    (kept : base.length ≤ after.depth) : base <:+ after.levels := by
  obtain ⟨higher, levels⟩ := above
  have depth : higher.length + base.length = nesting.depth := by
    rw [← nesting.length_levels, ← levels, List.length_append]
  have leaves : descriptor.flags.leavesBlock = true → higher ≠ [] := by
    rintro leaves rfl
    have bottom : base.length = nesting.depth := by simpa using depth
    rcases Descriptor.leavesBlock_iff.mp leaves with closes | switches
    · have shallower := moves.depth_of_closes closes
      omega
    · have deeper := inside switches
      omega
  -- Where the frames above start does not matter here.
  obtain ⟨higher', levels', -⟩ := @Moves.above _ _ _ _ _ base higher (fun _ => True) moves
    levels.symm leaves (fun _ _ => trivial) (fun _ => trivial)
  exact ⟨higher', levels'.symm⟩

private theorem Spares.passes {base : List Level} (spares : Spares base.length nesting segment)
    (above : base <:+ nesting.levels) (updated : updates segment nesting = .ok events after) :
    Passes base nesting segment events after := by
  induction segment generalizing nesting events with
  | nil =>
    cases updated
    exact .done above
  | cons placed rest ih =>
    obtain ⟨event, middle, later, moves, goes, rfl⟩ := updates_cons_eq_ok_iff.mp updated
    obtain ⟨-, inside, spares⟩ := spares_cons_iff.mp spares
    have spares := spares event middle moves
    have kept := (spares [] rest rfl [] middle rfl).1
    exact .step above moves (ih spares (moves.suffix above inside kept) goes)

private theorem Moves.inside {base : List Level} {descriptor : Descriptor} {offset : Nat}
    {event : Event} (moves : Moves descriptor offset nesting event after)
    (switches : descriptor.Switches) (above : base <:+ nesting.levels)
    (above' : base <:+ after.levels) :
    base.length < nesting.depth := by
  cases moves with
  | stay stays => cases stays.1.symm.trans switches.1
  | enter opens => cases opens.2.symm.trans switches.2
  | leave closes => cases closes.1.symm.trans switches.1
  | switch =>
    simp only [levels_mk, Level.pair_cons, List.suffix_cons_iff] at above above'
    rcases above with rfl | lower
    · rcases above' with same | lower
      · cases same
      · exact absurd lower.length_le (by simp)
    · exact Nat.lt_succ_of_le (by simpa using lower.length_le)

private theorem Passes.ends {base : List Level}
    (passes : Passes base nesting segment events after) :
    base <:+ after.levels := by
  induction passes with
  | done above => exact above
  | step _ _ _ ih => exact ih

private theorem Passes.spares {base : List Level}
    (passes : Passes base nesting segment events after) :
    Spares base.length nesting segment := by
  induction passes with
  | @done nesting above => exact spares_nil_iff.mpr (nesting.length_levels ▸ above.length_le)
  | @step nesting middle after placed rest event events above moves later ih =>
    refine spares_cons_iff.mpr ⟨nesting.length_levels ▸ above.length_le,
      fun switches => moves.inside switches above later.above, ?_⟩
    intro event' middle' moves'
    -- An update has one outcome, so this is the move that the sequence makes.
    obtain ⟨rfl, rfl⟩ : event = event' ∧ middle = middle' := by
      simpa using moves.update.symm.trans moves'.update
    exact ih

/-- Whatever is open, a well nested sequence does not fail, ends each block with the frame that
opened it, and leaves the frames and their flags as they were. It makes the rest unreachable
exactly if one of its outermost instructions does. No other sequence returns to the depth it starts
at without closing or switching a block that was open before. -/
theorem nested_iff_transparent (nesting : Nesting) :
    (∀ segment events stops, Nested segment events stops →
      updates segment nesting =
        .ok events { nesting with unreachable := nesting.unreachable || stops }) ∧
    ∀ segment events, (∃ stops, Nested segment events stops) ↔
      ∃ after, updates segment nesting = .ok events after ∧ Spares nesting.depth nesting segment ∧
        after.depth = nesting.depth := by
  refine ⟨fun segment events stops nested => (nested.passes nesting).updates, ?_⟩
  intro segment events
  rw [← nesting.length_levels]
  constructor
  · intro ⟨stops, nested⟩
    have passes := nested.passes nesting
    exact ⟨_, passes.updates, passes.spares, nesting.length_levels.symm⟩
  · intro ⟨after, updated, spares, returned⟩
    have passes := spares.passes (List.suffix_refl _) updated
    have same := passes.ends.eq_of_length (returned.symm.trans after.length_levels.symm)
    exact passes.nested rfl same.symm

/-- A conditional whose second arm is cut off, in a place that nothing reaches anyway. -/
theorem nested_iff_transparent_conditional :
    let descriptor := Opcode.descriptor
    let segment : List Placed := [⟨4, descriptor .ifBlock⟩, ⟨6, descriptor .elseArm⟩,
      ⟨7, descriptor .unreachable⟩, ⟨8, descriptor .endBlock⟩]
    let events := [.entered ⟨4, .ifBlock, false⟩, .switched ⟨4, .ifBlock, true⟩, .stayed,
      .left ⟨4, .ifBlock, true⟩]
    Nested segment events false ∧
    updates segment ⟨[⟨0, .function, false⟩], [false], true⟩ =
      .ok events ⟨[⟨0, .function, false⟩], [false], true⟩ := by
  intro descriptor segment events
  have nested : Nested segment events false :=
    .conditional ⟨rfl, rfl⟩ rfl .empty ⟨rfl, rfl⟩ (.plain ⟨rfl, rfl⟩ .empty) ⟨rfl, rfl⟩ .empty
  obtain ⟨passes, -⟩ := nested_iff_transparent ⟨[⟨0, .function, false⟩], [false], true⟩
  exact ⟨nested, passes segment events false nested⟩

end WasmStream.Nesting
