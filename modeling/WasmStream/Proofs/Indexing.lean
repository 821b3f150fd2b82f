import Mathlib.Data.List.Nodup
import WasmStream.Proofs.Coding

/-! A registry as an index of the list it was made from. Both of its tables lead to the one
descriptor of the list that fits, the order of the list leaves no trace in it, and a list is refused
for two of its descriptors only. -/

namespace WasmStream.Registry

private theorem eq_of_descriptors_eq {first second : Registry}
    (same : first.descriptors = second.descriptors) : first = second := by
  apply Registry.ext same
  rw [first.tabulated, second.tabulated, same]

theorem perm_byOpcode (descriptors : List Descriptor) :
    (byOpcode descriptors).Perm descriptors := List.mergeSort_perm ..

theorem pairwise_apart_iff {descriptors : List Descriptor} :
    descriptors.Pairwise Apart ↔
      (descriptors.map Descriptor.opcode).Nodup ∧ (descriptors.map Descriptor.mnemonic).Nodup := by
  unfold List.Nodup
  rw [List.pairwise_map, List.pairwise_map]
  exact List.pairwise_and_iff

private theorem Apart.symm {first second : Descriptor} (apart : Apart first second) :
    Apart second first := ⟨apart.1.symm, apart.2.symm⟩

theorem pairwise_apart_perm {first second : List Descriptor} (same : first.Perm second) :
    first.Pairwise Apart ↔ second.Pairwise Apart := same.pairwise_iff Apart.symm

theorem byOpcode_perm {first second : List Descriptor} (same : first.Perm second)
    (apart : first.Pairwise Apart) : byOpcode first = byOpcode second := by
  have sorted := (perm_byOpcode first).trans (same.trans (perm_byOpcode second).symm)
  apply List.Perm.eq_of_pairwise ?_ (byOpcode_sorted first) (byOpcode_sorted second) sorted
  intro left right member member' le ge
  have inside := (perm_byOpcode first).mem_iff.mp member
  have inside' := same.mem_iff.mpr ((perm_byOpcode second).mem_iff.mp member')
  have distinct := (pairwise_apart_iff.mp apart).1
  exact List.inj_on_of_nodup_map distinct inside inside' (UInt8.le_antisymm le ge)

private theorem Tables.Filled.not_apart {descriptors : List Descriptor} {conflict : Conflict}
    (refused : Tables.Filled descriptors (.error conflict)) : ¬ descriptors.Pairwise Apart := by
  intro apart
  cases refused with
  | sameOpcode both same => exact (List.pairwise_pair.mp (apart.sublist both)).1 same
  | sameMnemonic both same => exact (List.pairwise_pair.mp (apart.sublist both)).2 same

inductive Made (descriptors : List Descriptor) : Except Conflict Registry → Prop where
  | whole {registry} (apart : descriptors.Pairwise Apart)
      (sorted : registry.descriptors = byOpcode descriptors) : Made descriptors (.ok registry)
  | refused {conflict} (filled : Tables.Filled (byOpcode descriptors) (.error conflict)) :
      Made descriptors (.error conflict)

theorem made_ofDescriptors (descriptors : List Descriptor) :
    Made descriptors (ofDescriptors descriptors) := by
  unfold ofDescriptors
  split
  next conflict refused =>
    have outcome := Tables.filled_fill .nil (byOpcode descriptors)
    exact .refused (refused ▸ outcome)
  next tables filled =>
    have apart := (whole_of_fill filled).1
    exact .whole ((pairwise_apart_perm (perm_byOpcode descriptors)).mp apart) rfl

theorem exists_ofDescriptors_iff {descriptors : List Descriptor} :
    (∃ registry, ofDescriptors descriptors = .ok registry) ↔ descriptors.Pairwise Apart := by
  have outcome := made_ofDescriptors descriptors
  generalize ofDescriptors descriptors = result at outcome
  cases outcome with
  | whole apart => simp [apart]
  | refused filled =>
    rw [← pairwise_apart_perm (perm_byOpcode descriptors)]
    simp [filled.not_apart]

theorem nodup_mnemonic (registry : Registry) :
    (registry.descriptors.map Descriptor.mnemonic).Nodup :=
  List.pairwise_map.mpr registry.distinct

private theorem names_eq (registry : Registry) : registry.tables.names.pairs =
    (registry.descriptors.map fun descriptor =>
      (descriptor.opcode, descriptor.mnemonic)).reverse := by
  rw [registry.tabulated]
  rfl

theorem byteOf?_eq_some_iff {registry : Registry} {name : String} {byte : UInt8} :
    registry.tables.names.byteOf? name = some byte ↔
      ∃ descriptor ∈ registry.descriptors, descriptor.mnemonic = name ∧
        descriptor.opcode = byte := by
  have distinct : (registry.tables.names.pairs.map Prod.snd).Nodup := by
    rw [names_eq, List.map_reverse, List.nodup_reverse, List.map_map]
    exact registry.nodup_mnemonic
  unfold Names.byteOf?
  rw [Option.map_eq_some_iff]
  simp only [find?_key_eq_some_iff distinct]
  simp only [names_eq, List.mem_reverse, List.mem_map]
  constructor
  · intro ⟨pair, ⟨⟨descriptor, member, paired⟩, name'⟩, byte'⟩
    subst paired
    exact ⟨descriptor, member, name', byte'⟩
  · intro ⟨descriptor, member, name', byte'⟩
    exact ⟨_, ⟨⟨descriptor, member, rfl⟩, name'⟩, byte'⟩

theorem byMnemonic?_eq_some_iff {registry : Registry} {name : String} {descriptor : Descriptor} :
    registry.byMnemonic? name = some descriptor ↔
      descriptor ∈ registry.descriptors ∧ descriptor.mnemonic = name := by
  unfold byMnemonic?
  rw [Option.bind_eq_some_iff]
  constructor
  · intro ⟨byte, paired, found⟩
    obtain ⟨other, member, name', same⟩ := byteOf?_eq_some_iff.mp paired
    subst same
    rw [lookup_eq_ok_iff.mpr ⟨member, rfl⟩] at found
    cases found
    exact ⟨member, name'⟩
  · intro ⟨member, name'⟩
    refine ⟨descriptor.opcode, byteOf?_eq_some_iff.mpr ⟨descriptor, member, name', rfl⟩, ?_⟩
    rw [lookup_eq_ok_iff.mpr ⟨member, rfl⟩]
    rfl

structure Sole (descriptors : List Descriptor) (property : Descriptor → Prop)
    (found : Descriptor) : Prop where
  member : found ∈ descriptors
  fits : property found
  only : ∀ other ∈ descriptors, property other → other = found

private theorem sole_iff {α : Type} {key : Descriptor → α} {descriptors : List Descriptor}
    (distinct : (descriptors.map key).Nodup) {wanted : α} {found : Descriptor} :
    Sole descriptors (key · = wanted) found ↔ found ∈ descriptors ∧ key found = wanted := by
  constructor
  · intro sole
    exact ⟨sole.member, sole.fits⟩
  · intro ⟨member, same⟩
    refine ⟨member, same, fun other member' same' => ?_⟩
    exact List.inj_on_of_nodup_map distinct member' member (same'.trans same.symm)

/-- A registry that finds the descriptors of a list, and no others. -/
structure Indexes (registry : Registry) (descriptors : List Descriptor) : Prop where
  perm : registry.descriptors.Perm descriptors
  increasing : registry.descriptors.Pairwise (·.opcode < ·.opcode)
  lookup : ∀ byte found,
    registry.lookup byte = .ok found ↔ Sole descriptors (·.opcode = byte) found
  unknown : ∀ byte, registry.lookup byte = .error ⟨byte⟩ ↔
    ∀ descriptor ∈ descriptors, descriptor.opcode ≠ byte
  byMnemonic : ∀ name found,
    registry.byMnemonic? name = some found ↔ Sole descriptors (·.mnemonic = name) found
  unnamed : ∀ name, registry.byMnemonic? name = none ↔
    ∀ descriptor ∈ descriptors, descriptor.mnemonic ≠ name

theorem indexes_of_perm {registry : Registry} {descriptors : List Descriptor}
    (perm : registry.descriptors.Perm descriptors) : registry.Indexes descriptors where
  perm := perm
  increasing := registry.increasing
  lookup byte found := by
    rw [sole_iff ((perm.map _).nodup_iff.mp registry.nodup_opcode), lookup_eq_ok_iff, perm.mem_iff]
  unknown byte := by
    constructor
    · intro missing descriptor member
      exact (lookup_eq_error missing).2 descriptor (perm.mem_iff.mpr member)
    · intro absent
      cases found : registry.lookup byte with
      | ok descriptor =>
        obtain ⟨member, same⟩ := lookup_eq_ok_iff.mp found
        exact absurd same (absent descriptor (perm.mem_iff.mp member))
      | error unknown => rw [(lookup_eq_error found).1]
  byMnemonic name found := by
    rw [sole_iff ((perm.map _).nodup_iff.mp registry.nodup_mnemonic), byMnemonic?_eq_some_iff,
      perm.mem_iff]
  unnamed name := by
    rw [Option.eq_none_iff_forall_ne_some]
    constructor
    · intro missing descriptor member same
      exact missing descriptor (byMnemonic?_eq_some_iff.mpr ⟨perm.mem_iff.mpr member, same⟩)
    · intro absent descriptor found
      obtain ⟨member, same⟩ := byMnemonic?_eq_some_iff.mp found
      exact absent descriptor (perm.mem_iff.mp member) same

/-- The order of a list leaves no trace in its registry. -/
theorem ofDescriptors_perm {descriptors other : List Descriptor} (same : other.Perm descriptors)
    {registry : Registry} (made : ofDescriptors descriptors = .ok registry) :
    ofDescriptors other = .ok registry := by
  have outcome := made_ofDescriptors descriptors
  rw [made] at outcome
  cases outcome with
  | whole apart sorted =>
    have apart' := (pairwise_apart_perm same).mpr apart
    obtain ⟨registry', made'⟩ := exists_ofDescriptors_iff.mpr apart'
    have outcome' := made_ofDescriptors other
    rw [made'] at outcome' ⊢
    cases outcome' with
    | whole _ sorted' =>
      apply congrArg Except.ok
      apply eq_of_descriptors_eq
      rw [sorted', sorted, byOpcode_perm same apart']

theorem exists_refused_iff {descriptors : List Descriptor} :
    (∃ conflict, ofDescriptors descriptors = .error conflict) ↔
      ¬ descriptors.Pairwise Apart := by
  rw [← exists_ofDescriptors_iff]
  cases ofDescriptors descriptors <;> simp

/-- Descriptors whose bytes and whose names all differ make a registry that indexes them, the same
in every order; others are refused, in every order, for two of them that do not differ. -/
theorem ofDescriptors_indexes (descriptors : List Descriptor) :
    ((∃ registry, ofDescriptors descriptors = .ok registry) ↔
      (descriptors.map Descriptor.opcode).Nodup ∧
      (descriptors.map Descriptor.mnemonic).Nodup) ∧
    (∀ registry, ofDescriptors descriptors = .ok registry →
      registry.Indexes descriptors ∧
      ∀ other, other.Perm descriptors → ofDescriptors other = .ok registry) ∧
    (∀ byte, ofDescriptors descriptors = .error (.opcode byte) →
      2 ≤ descriptors.countP (·.opcode == byte)) ∧
    (∀ name, ofDescriptors descriptors = .error (.mnemonic name) →
      ∃ first ∈ descriptors, ∃ second ∈ descriptors, first.opcode ≠ second.opcode ∧
        first.mnemonic = name ∧ second.mnemonic = name) ∧
    ∀ other, other.Perm descriptors →
      ((∃ conflict, ofDescriptors other = .error conflict) ↔
        ∃ conflict, ofDescriptors descriptors = .error conflict) := by
  have sorted := perm_byOpcode descriptors
  have outcome := made_ofDescriptors descriptors
  refine ⟨exists_ofDescriptors_iff.trans pairwise_apart_iff, ?_, ?_, ?_, ?_⟩
  · intro registry made
    rw [made] at outcome
    cases outcome with
    | whole _ listed =>
      exact ⟨indexes_of_perm (listed ▸ sorted), fun other same => ofDescriptors_perm same made⟩
  · intro byte refused
    rw [refused] at outcome
    cases outcome with
    | refused filled =>
      cases filled with
      | sameOpcode both same =>
        rw [← sorted.countP_eq]
        refine le_trans ?_ both.countP_le
        simp [same]
  · intro name refused
    rw [refused] at outcome
    cases outcome with
    | refused filled =>
      cases filled with
      | @sameMnemonic first second both same different =>
        have inside : ∀ descriptor ∈ [first, second], descriptor ∈ descriptors :=
          fun descriptor member => sorted.mem_iff.mp (both.subset member)
        exact ⟨first, inside first (by simp), second, inside second (by simp), different, same, rfl⟩
  · intro other same
    rw [exists_refused_iff, exists_refused_iff, pairwise_apart_perm same]

end WasmStream.Registry
