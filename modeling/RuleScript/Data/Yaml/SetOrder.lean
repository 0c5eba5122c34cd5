/-
# The order of a set

A set of numbers shows its elements in the order of a table of slots. A
number has a residue modulo `2 ^ 61 - 1`, equal numbers the same one, and
that gives the slot where the search for a free slot starts. The search goes
on to the next slots while at least nine more follow, and else jumps by a
rule that uses up the higher digits of the residue.

Key definitions: `residue?`, `slotCount`, `slotOrder`.
-/
import RuleScript.Number.Exact

namespace RuleScript.Yaml

/-- The modulus of residues. -/
def residueModulus : Nat := Nat.pow 2 61 - 1

/-- A residue with its sign, where one less than zero is left out. -/
def signedResidue (negative : Bool) (n : Nat) : Int :=
  let r := Number.signed negative n
  if r = -1 then -2 else r

/-- The residue of a number. Halving is multiplying by `2 ^ 60`. -/
def residue? : Number.Exact → Option Int
  | .finite negative mantissa exponent =>
    let factor := if 0 ≤ exponent then 2 else Nat.pow 2 60
    let turns := exponent.natAbs % 61
    some (signedResidue negative
      (mantissa * (Nat.pow factor turns % residueModulus) % residueModulus))
  | .infinite negative => some (Number.signed negative 314159)
  | .nan => none

/-- The residue of an integer. -/
def integerResidue (n : Int) : Int := signedResidue (n < 0) (n.natAbs % residueModulus)

/-- The number of slots for `n` elements: eight, or the least power of two
above twice as many. -/
def slotCount (n : Nat) : Nat :=
  if n < 5 then 8 else max 8 (Nat.pow 2 (Nat.log2 (2 * n) + 1))

/-- How many slots are tried side by side. -/
def slotReach : Nat := 9

/-- The slots to try from slot `i` on. -/
def nearSlots (slots i : Nat) : List Nat :=
  if i + slotReach < slots then List.range' i (slotReach + 1) else [i]

/-- The first free slot; `digits` are those of the residue not yet used. -/
def freeSlot {α : Type} (table : List (Option α)) : (fuel i digits : Nat) → Nat
  | 0, i, _ => i
  | fuel + 1, i, digits =>
    match (nearSlots table.length i).find? fun j => (table.getD j none).isNone with
    | some j => j
    | none =>
      let digits := digits / 32
      freeSlot table fuel ((5 * i + 1 + digits) % table.length) digits

/-- Put an element into the table. -/
def placeElement {α : Type} (table : List (Option α)) (residue : Int) (x : α) : List (Option α) :=
  let digits := (residue % Int.pow 2 64).toNat
  table.set (freeSlot table (table.length + 64) (digits % table.length) digits) (some x)

/-- Elements with their residues in the order of their slots. -/
def slotOrder {α : Type} (xs : List (Int × α)) : List α :=
  let empty : List (Option α) := List.replicate (slotCount xs.length) none
  (xs.foldl (fun table x => placeElement table x.1 x.2) empty).filterMap id

end RuleScript.Yaml
