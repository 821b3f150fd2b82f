import WasmStream.Descriptor

/-! Where the descriptors of a list stand, by opcode byte and by mnemonic. One pass over the list
fills both tables; it ends at the first descriptor in conflict with one before it. -/

namespace WasmStream.Registry

/-- What two descriptors of one registry must not share. -/
inductive Conflict where
  | opcode (byte : UInt8)
  | mnemonic (name : String)
deriving DecidableEq, Repr

def Conflict.message : Conflict → String
  | opcode byte => s!"opcode {Hex.literal byte} is registered twice"
  | mnemonic name => s!"mnemonic `{name}` is registered twice"

/-- Opcode bytes and mnemonics in pairs, none of either in two pairs. -/
structure Names where
  pairs : List (UInt8 × String) := []

namespace Names

def hasByte (names : Names) (byte : UInt8) : Bool := names.pairs.any (·.1 == byte)

def hasName (names : Names) (name : String) : Bool := names.pairs.any (·.2 == name)

/-- A pair is refused rather than another one overwritten. -/
def insert? (names : Names) (byte : UInt8) (name : String) : Option Names :=
  if names.hasByte byte || names.hasName name then none else some ⟨(byte, name) :: names.pairs⟩

def byteOf? (names : Names) (name : String) : Option UInt8 :=
  (names.pairs.find? (·.2 == name)).map (·.1)

end Names

structure Tables where
  /-- A slot for each byte: the position of the descriptor that has it. -/
  index : UInt8 → Option Nat := fun _ => none
  names : Names := {}

namespace Tables

/-- A refused descriptor may share both with descriptors before it; then the byte is reported. -/
def enter (tables : Tables) (position : Nat) (descriptor : Descriptor) : Except Conflict Tables :=
  match tables.names.insert? descriptor.opcode descriptor.mnemonic with
  | none =>
    if tables.names.hasByte descriptor.opcode then .error (.opcode descriptor.opcode)
    else .error (.mnemonic descriptor.mnemonic)
  | some names =>
    let index byte := if byte = descriptor.opcode then some position else tables.index byte
    .ok { index, names }

/-- Enters descriptors that stand in a row from the position on. -/
def fill (tables : Tables) (position : Nat) : List Descriptor → Except Conflict Tables
  | [] => .ok tables
  | descriptor :: rest =>
    match tables.enter position descriptor with
    | .error conflict => .error conflict
    | .ok tables => tables.fill (position + 1) rest

/-- The tables of a list without conflicts. -/
def of (descriptors : List Descriptor) : Tables where
  index byte := descriptors.findIdx? (·.opcode == byte)
  names := ⟨(descriptors.map fun descriptor => (descriptor.opcode, descriptor.mnemonic)).reverse⟩

end Tables

/-- Two descriptors that fit into one registry. -/
def Apart (first second : Descriptor) : Prop :=
  first.opcode ≠ second.opcode ∧ first.mnemonic ≠ second.mnemonic

namespace Tables

private theorem hasByte_of {descriptors : List Descriptor} {byte : UInt8} :
    (of descriptors).names.hasByte byte = true ↔
      ∃ earlier ∈ descriptors, earlier.opcode = byte := by
  simp [of, Names.hasByte]

private theorem hasName_of {descriptors : List Descriptor} {name : String} :
    (of descriptors).names.hasName name = true ↔
      ∃ earlier ∈ descriptors, earlier.mnemonic = name := by
  simp [of, Names.hasName]

private theorem index_concat {earlier : List Descriptor} {descriptor : Descriptor}
    (fresh : ∀ other ∈ earlier, other.opcode ≠ descriptor.opcode) :
    (of (earlier ++ [descriptor])).index = fun byte =>
      if byte = descriptor.opcode then some earlier.length else (of earlier).index byte := by
  funext byte
  simp only [of, List.findIdx?_append, List.findIdx?_singleton, beq_iff_eq]
  by_cases same : byte = descriptor.opcode
  · subst same
    have absent : earlier.findIdx? (·.opcode == descriptor.opcode) = none := by
      apply List.findIdx?_eq_none_iff.mpr
      intro other member
      simpa using fresh other member
    simp [absent]
  · simp [same, Ne.symm same]

/-- What entering a descriptor behind others comes to. -/
inductive Entered (earlier : List Descriptor) (descriptor : Descriptor) :
    Except Conflict Tables → Prop where
  | fits (fresh : ∀ other ∈ earlier, Apart other descriptor) :
      Entered earlier descriptor (.ok (of (earlier ++ [descriptor])))
  | sameOpcode {other} (member : other ∈ earlier) (same : other.opcode = descriptor.opcode) :
      Entered earlier descriptor (.error (.opcode descriptor.opcode))
  | sameMnemonic {other} (member : other ∈ earlier) (same : other.mnemonic = descriptor.mnemonic)
      (different : other.opcode ≠ descriptor.opcode) :
      Entered earlier descriptor (.error (.mnemonic descriptor.mnemonic))

private theorem entered_enter (earlier : List Descriptor) (descriptor : Descriptor) :
    Entered earlier descriptor ((of earlier).enter earlier.length descriptor) := by
  unfold enter Names.insert?
  by_cases byte : ∃ other ∈ earlier, other.opcode = descriptor.opcode
  · obtain ⟨other, member, same⟩ := byte
    simp only [hasByte_of.mpr ⟨other, member, same⟩, Bool.true_or, if_true]
    exact .sameOpcode member same
  · have freeByte : (of earlier).names.hasByte descriptor.opcode = false :=
      Bool.eq_false_iff.mpr (mt hasByte_of.mp byte)
    have fresh : ∀ other ∈ earlier, other.opcode ≠ descriptor.opcode :=
      fun other member same => byte ⟨other, member, same⟩
    by_cases name : ∃ other ∈ earlier, other.mnemonic = descriptor.mnemonic
    · obtain ⟨other, member, same⟩ := name
      simp only [freeByte, hasName_of.mpr ⟨other, member, same⟩, Bool.or_true, if_true,
        Bool.false_eq_true, if_false]
      exact .sameMnemonic member same (fresh other member)
    · have freeName : (of earlier).names.hasName descriptor.mnemonic = false :=
        Bool.eq_false_iff.mpr (mt hasName_of.mp name)
      have fits : ∀ other ∈ earlier, Apart other descriptor := fun other member =>
        ⟨fresh other member, fun same => name ⟨other, member, same⟩⟩
      have pairs : (of (earlier ++ [descriptor])).names =
          ⟨(descriptor.opcode, descriptor.mnemonic) :: (of earlier).names.pairs⟩ := by
        simp [of]
      simp only [freeByte, freeName, Bool.or_self, Bool.false_eq_true, if_false]
      rw [← index_concat fresh, ← pairs]
      exact .fits fits

/-- What entering a whole list comes to. -/
inductive Filled (descriptors : List Descriptor) : Except Conflict Tables → Prop where
  | whole (apart : descriptors.Pairwise Apart) : Filled descriptors (.ok (of descriptors))
  | sameOpcode {first second} (both : [first, second].Sublist descriptors)
      (same : first.opcode = second.opcode) :
      Filled descriptors (.error (.opcode second.opcode))
  | sameMnemonic {first second} (both : [first, second].Sublist descriptors)
      (same : first.mnemonic = second.mnemonic) (different : first.opcode ≠ second.opcode) :
      Filled descriptors (.error (.mnemonic second.mnemonic))

theorem filled_fill {earlier : List Descriptor} (apart : earlier.Pairwise Apart)
    (descriptors : List Descriptor) :
    Filled (earlier ++ descriptors) ((of earlier).fill earlier.length descriptors) := by
  induction descriptors generalizing earlier with
  | nil =>
    rw [List.append_nil]
    exact .whole apart
  | cons descriptor rest ih =>
    have both : ∀ other ∈ earlier, [other, descriptor].Sublist (earlier ++ descriptor :: rest) :=
      fun other member => (List.singleton_sublist.mpr member).append
        (List.singleton_sublist.mpr List.mem_cons_self)
    have step := entered_enter earlier descriptor
    rw [fill]
    generalize (of earlier).enter earlier.length descriptor = outcome at step
    cases step with
    | fits fresh =>
      have apart' : (earlier ++ [descriptor]).Pairwise Apart := by
        simpa [List.pairwise_append, apart] using fresh
      have later := ih apart'
      rwa [List.append_assoc, List.singleton_append, List.length_append,
        List.length_singleton] at later
    | sameOpcode member same => exact .sameOpcode (both _ member) same
    | sameMnemonic member same different => exact .sameMnemonic (both _ member) same different

end Tables
end WasmStream.Registry
