import Curves.Catalogue.Entry

namespace Curves

open Json (Field Record decodeDouble)

/-- Reads a number under a name, and multiplies it. -/
def ScaledNumber.read (scale : Float) : EntryReader Json Float := fun _ j => do
  let name ← (Definition.nameRecord.decode j).mapError .mismatch
  let record := (Record.of "ScaleJsonProp" id).field (.required "value" decodeDouble)
  let value ← (record.decode j).mapError .mismatch
  return ⟨name, value * scale, []⟩

def Loader.scaledNumbers (scale : Float) : Loader Float :=
  .inOrder (ScaledNumber.read scale)

end Curves
