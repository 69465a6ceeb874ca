/-!
# Open enumerations

The protocol numbers its modes, types and results, and newer modules use numbers that older
descriptions lack. A `Code` is a value of such an enumeration: a known one with its name, or a raw
number that has none. Every raw value has a code and nothing is lost by reading it.
-/

namespace BleHost

/-- A list of known values with their raw numbers and names, in the order they are declared. -/
class Vocabulary (κ : Type) (ρ : outParam Type) where
  /-- The known values in their declared order. -/
  all : List κ
  /-- The number on the wire. -/
  raw : κ → ρ
  /-- The name shown to people. -/
  name : κ → String

/-- A known value, or a number outside the vocabulary. -/
inductive Code (κ ρ : Type)
  | known (value : κ)
  | unknown (raw : ρ)
deriving DecidableEq, Repr

namespace Code

variable {κ ρ : Type} [Vocabulary κ ρ]

/-- The code of a raw number. -/
def ofRaw [DecidableEq ρ] (r : ρ) : Code κ ρ :=
  match (Vocabulary.all (κ := κ)).find? fun k => Vocabulary.raw k = r with
  | some k => known k
  | none => unknown r

/-- The raw number of a code. -/
def raw : Code κ ρ → ρ
  | known k => Vocabulary.raw k
  | unknown r => r

/-- The name of a code; a number without one is shown in decimal. -/
def name [ToString ρ] : Code κ ρ → String
  | known k => Vocabulary.name k
  | unknown r => s!"Unknown({r})"

/-- Known values come first, in the order they are declared, then the others by number. -/
def le [DecidableEq κ] [LE ρ] [DecidableLE ρ] : Code κ ρ → Code κ ρ → Bool
  | known a, known b =>
    (Vocabulary.all (κ := κ)).idxOf a ≤ (Vocabulary.all (κ := κ)).idxOf b
  | known _, unknown _ => true
  | unknown _, known _ => false
  | unknown a, unknown b => a ≤ b

end Code

end BleHost
