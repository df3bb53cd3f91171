import DigitiserSums.Decimal.Digit
import DigitiserSums.Json.Lexer

/-!
# Socket addresses

A socket address is that of a host and a port behind a colon. A host has four bytes, in decimal with
points between them, or eight groups of up to four hexadecimal digits, with colons between them and
brackets around them. One run of zero groups may be left out between two colons, and the last two
groups may be written as four bytes.
-/

namespace DigitiserSums

inductive HostAddress where
  | v4 (first second third fourth : UInt8)
  | v6 (groups : Vector UInt16 8) (scope : UInt32)
deriving DecidableEq, Repr

structure SocketAddress where
  host : HostAddress
  port : UInt16
deriving DecidableEq, Repr

namespace SocketAddress

open Json (hexDigit?)

/-- Takes something off the front of a text, if it is there. -/
abbrev Taker (α : Type) := StateT (List Char) Option α

def mark (c : Char) : Taker Unit
  | [] => none
  | d :: cs => if d = c then some ((), cs) else none

/-! ### Numbers -/

/-- All the digits at the front, if their number is below the limit. -/
def decimalBelow (limit : Nat) : Taker Nat := fun cs =>
  let (digits, rest) := Decimal.span cs
  if digits ≠ [] ∧ Decimal.value digits < limit then some (Decimal.value digits, rest) else none

/-- A byte has no zeros before its other digits. -/
def byte : Taker UInt8 := fun cs =>
  if cs.head? = some '0' ∧ (Decimal.span cs).1.length ≠ 1 then none
  else (UInt8.ofNat <$> decimalBelow UInt8.size) cs

def fourBytes : Taker (UInt8 × UInt8 × UInt8 × UInt8) := do
  let a ← byte
  mark '.'
  let b ← byte
  mark '.'
  let c ← byte
  mark '.'
  let d ← byte
  return (a, b, c, d)

/-- A group has all the hexadecimal digits at the front, four at most. -/
def group : Taker UInt16 := fun cs =>
  let digits := (cs.takeWhile fun c => (hexDigit? c).isSome).filterMap hexDigit?
  if digits ≠ [] ∧ digits.length ≤ 4 then
    some (.ofNat (digits.foldl (fun n d => 16 * n + d) 0), cs.drop digits.length)
  else none

/-! ### Hosts -/

def pair (high low : UInt8) : UInt16 :=
  .ofNat (UInt8.size * high.toNat + low.toNat)

/-- Groups at the front, with colons between them, while there is room; whether the last two are
written as four bytes, which ends them; and what follows. -/
def groups : Nat → Taker Unit → List Char → List UInt16 × Bool × List Char
  | 0, _, cs => ([], false, cs)
  | room + 1, lead, cs =>
    match if room = 0 then none else (lead *> fourBytes) cs with
    | some ((a, b, c, d), cs) => ([pair a b, pair c d], true, cs)
    | none =>
      match (lead *> group) cs with
      | none => ([], false, cs)
      | some (g, cs) =>
        let (gs, inBytes, cs) := groups room (mark ':') cs
        (g :: gs, inBytes, cs)

theorem length_groups_le (room : Nat) (lead : Taker Unit) (cs : List Char) :
    (groups room lead cs).1.length ≤ room := by
  induction room generalizing lead cs with
  | zero => exact Nat.le_refl 0
  | succ room ih =>
    simp only [groups]
    split
    · next hbytes =>
      split at hbytes
      · cases hbytes
      · simp only [List.length_cons, List.length_nil]
        omega
    · split
      · exact Nat.zero_le _
      · exact Nat.succ_le_succ (ih _ _)

/-- The groups before and behind the two colons leave at most all eight to the zeros. -/
theorem length_add_length_groups_le {front : List UInt16} (h : front.length ≤ 8)
    (lead : Taker Unit) (cs : List Char) :
    front.length + (groups (7 - front.length) lead cs).1.length ≤ 8 := by
  have hback := length_groups_le (7 - front.length) lead cs
  omega

theorem length_fill {front back : List UInt16} (h : front.length + back.length ≤ 8) :
    (front ++ List.replicate (8 - front.length - back.length) 0 ++ back).length = 8 := by
  simp only [List.length_append, List.length_replicate]
  omega

/-- Eight groups with zeros in the middle. -/
def fill (front back : List UInt16) (h : front.length + back.length ≤ 8) : Vector UInt16 8 :=
  ⟨(front ++ List.replicate (8 - front.length - back.length) 0 ++ back).toArray, length_fill h⟩

/-- All the groups, with zeros for those that two colons stand for. Bytes may not stand before the
two colons. -/
def eightGroups : Taker (Vector UInt16 8) := fun cs =>
  let front := groups 8 (pure ()) cs
  if h : front.1.length = 8 then some (⟨front.1.toArray, h⟩, front.2.2)
  else
    match front.2 with
    | (false, ':' :: ':' :: rest) =>
      let back := groups (7 - front.1.length) (pure ()) rest
      have h := length_add_length_groups_le (length_groups_le 8 (pure ()) cs) (pure ()) rest
      some (fill front.1 back.1 h, back.2.2)
    | _ => none

def scope : Taker UInt32 :=
  (mark '%' *> UInt32.ofNat <$> decimalBelow UInt32.size) <|> pure 0

def hostAddress : Taker HostAddress :=
  (do
    let (a, b, c, d) ← fourBytes
    return .v4 a b c d) <|>
  (do
    mark '['
    let groups ← eightGroups
    let scope ← scope
    mark ']'
    return .v6 groups scope)

def ofText? (text : String) : Option SocketAddress := do
  let (host, rest) ← hostAddress text.toList
  match ← (mark ':' *> decimalBelow UInt16.size) rest with
  | (port, []) => return ⟨host, .ofNat port⟩
  | _ => none

end SocketAddress

end DigitiserSums
