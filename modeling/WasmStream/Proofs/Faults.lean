import WasmStream.Proofs.Inheritance

/-! Why reading fails. No reader knows about blocks, so none complains about them. -/

namespace WasmStream
namespace Reader

def Local {α : Type} (reader : Reader α) : Prop :=
  ∀ cursor error after, reader cursor = .error error after → error.AboutBytes

private theorem inherited_local : Inherited Local where
  done := by
    intro α value cursor error after failed
    cases failed
  fault := by
    intro α error about cursor other after failed
    cases failed
    exact about
  position := by
    intro cursor error after failed
    cases failed
  byte := by
    intro cursor error after failed
    simp only [byte] at failed
    split at failed
    · cases failed
      trivial
    · cases failed
  bytes := by
    intro count cursor error after failed
    simp only [bytes] at failed
    split at failed
    · cases failed
    · cases failed
      trivial
  bind := by
    intro α β reader next first second cursor error after failed
    rcases bind_eq_error.mp failed with failed | ⟨value, middle, _, failed⟩
    · exact first cursor error after failed
    · exact second value middle error after failed

end Reader

namespace Decoder

theorem local_readInstruction (registry : Registry) : Reader.Local (readInstruction registry) :=
  Reader.inherited_local.instruction registry

end Decoder
end WasmStream
