import WasmStream.Proofs.Tallies

/-! Reading a field in two steps: its bytes first, and then the number they spell. A field that is
read into a word byte by byte has the same outcome, up to the width of the word. -/

namespace WasmStream.Leb128

/-- The bytes of one field: up to the first that announces no other. A field still going on when
its limit is used up is malformed, whatever follows. -/
def field (start width : Nat) : (limit : Nat) → Reader (List UInt8)
  | 0 => throw (.malformedVarint start width .tooLong)
  | limit + 1 => do
    let byte ← Reader.byte
    if 128 ≤ byte.toNat then
      let rest ← field start width limit
      return byte :: rest
    else
      return [byte]

def checked {α : Type} (start width : Nat) (value : List UInt8 → α) (Fits : α → Prop)
    [DecidablePred Fits] (bytes : List UInt8) : Reader α :=
  if Fits (value bytes) then return value bytes
  else throw (.malformedVarint start width .overflow)

def bounded {α : Type} (width : Nat) (value : List UInt8 → α) (Fits : α → Prop)
    [DecidablePred Fits] : Reader α := do
  let start ← Reader.position
  let bytes ← field start width (width ⌈/⌉ 7)
  checked start width value Fits bytes

section
variable {α : Type} {representation : Representation α} {width : Nat} {value : List UInt8 → α}
  {Fits : α → Prop} [DecidablePred Fits]

theorem field_cons (start limit position : Nat) (byte : UInt8) (rest : List UInt8) :
    field start width (limit + 1) ⟨position, byte :: rest⟩ =
      if 128 ≤ byte.toNat then
        (field start width limit >>= fun bytes => pure (byte :: bytes)) ⟨position + 1, rest⟩
      else .ok [byte] ⟨position + 1, rest⟩ := by
  change (if 128 ≤ byte.toNat then _ else pure [byte] : Reader _) ⟨position + 1, rest⟩ = _
  split <;> rfl

private theorem field_cons_bind (start limit position : Nat) (byte : UInt8) (rest : List UInt8)
    (next : List UInt8 → Reader α) :
    (field start width (limit + 1) >>= next) ⟨position, byte :: rest⟩ =
      if 128 ≤ byte.toNat then
        (field start width limit >>= fun bytes => next (byte :: bytes)) ⟨position + 1, rest⟩
      else next [byte] ⟨position + 1, rest⟩ := by
  change ((if 128 ≤ byte.toNat then field start width limit >>= fun rest => pure (byte :: rest)
    else pure [byte]) >>= next) ⟨position + 1, rest⟩ = _
  split
  · rw [bind_assoc]
    simp only [pure_bind]
  · rw [pure_bind]

private theorem scan_eq (stands : Stands representation width value Fits) (word : width ≤ 64)
    {start limit position : Nat} {read unread : List UInt8} {tally : Tally}
    (counts : Counts read tally) (bytes : width ⌈/⌉ 7 = read.length + (limit + 1)) :
    scan representation start width position tally unread =
      (field start width (limit + 1) >>= fun rest =>
        checked start width value Fits (read ++ rest)) ⟨position, unread⟩ := by
  induction unread generalizing read tally limit position with
  | nil => rfl
  | cons byte unread ih =>
    have count := counts.count
    have size := bytes
    rw [Nat.ceilDiv_eq_add_pred_div] at size
    rw [field_cons_bind, scan]
    by_cases goes : 128 ≤ byte.toNat
    · rw [if_pos goes]
      cases limit with
      | zero =>
        rw [turn_tooLong (by omega) goes]
        rfl
      | succ limit =>
        obtain ⟨more, pushed⟩ := turn_more representation counts (by omega) word goes
        have fewer : width ⌈/⌉ 7 = (read ++ [byte]).length + (limit + 1) := by
          rw [bytes, List.length_append, List.length_singleton]
          omega
        simp only [more, ih pushed fewer, List.append_assoc, List.singleton_append]
    · rw [if_neg goes, turn_stops stands counts (by omega) (by omega), checked]
      by_cases fits : Fits (value (read ++ [byte]))
      · rw [if_pos fits, if_pos fits]
        rfl
      · rw [if_neg fits, if_neg fits]
        rfl

theorem read_eq_bounded (stands : Stands representation width value Fits) (positive : 0 < width)
    (word : width ≤ 64) : read representation width = bounded width value Fits := by
  have room : 0 < width ⌈/⌉ 7 := lt_ceilDiv_seven_iff.mpr positive
  obtain ⟨limit, some⟩ := Nat.exists_eq_add_one_of_ne_zero room.ne'
  funext cursor
  have whole : read representation width cursor =
      (field cursor.position width (limit + 1) >>= checked cursor.position width value Fits)
        cursor := scan_eq stands word counts_nil (by rw [some, List.length_nil, zero_add])
  rw [whole, ← some]
  rfl

end

theorem unsigned_eq_bounded {width : Nat} (positive : 0 < width) (word : width ≤ 64) :
    unsigned width = bounded width magnitude (· < 2 ^ width) :=
  read_eq_bounded (stands_unsigned word) positive word

theorem signed_eq_bounded {width : Nat} (positive : 0 < width) (word : width ≤ 64) :
    signed width = bounded width twosComplement
      fun value => -2 ^ (width - 1) ≤ value ∧ value < 2 ^ (width - 1) :=
  read_eq_bounded (stands_signed word) positive word

end WasmStream.Leb128
