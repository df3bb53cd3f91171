/-!
# Choices by name

A choice is named by a text; the case of ASCII letters may be ignored.
-/

namespace DigitiserSums

/-- A text that names none of the choices. -/
structure UnknownChoice where
  text : String
deriving DecidableEq, Repr

def UnknownChoice.message (e : UnknownChoice) : String :=
  s!"invalid variant: {e.text}"

variable {α : Type}

def isNamed (name : α → String) (ignoreCase : Bool) (text : String) (a : α) : Bool :=
  name a == text || (ignoreCase && (name a).toLower == text.toLower)

/-- The first of the choices that the text names. -/
def choose (choices : List α) (name : α → String) (ignoreCase : Bool) (text : String) :
    Except UnknownChoice α :=
  match choices.find? (isNamed name ignoreCase text) with
  | none => .error ⟨text⟩
  | some a => .ok a

end DigitiserSums
