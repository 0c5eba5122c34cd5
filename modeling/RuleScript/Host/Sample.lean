/-
# Sample hosts

Three small hosts that exercise the boundary: one with state, faults and
every kind of product; one that shadows builtins; and one that counts as
empty.

Key definitions: `Host.demo`, `Host.other`, `Host.falsy`.
-/
import RuleScript.Host.Method
import RuleScript.Number.Arithmetic

namespace RuleScript

namespace Host.Sample

/-- A method that ignores the state. -/
def stateless (member : String) (arity : Arity) (usage : Option String)
    (run : List Value → Except HostFault Product) : HostMethod :=
  ⟨member, arity, usage, true, fun counters args => (run args, counters)⟩

/-- A scalar as a host shows it. -/
def show? : Value → Option String
  | .string s => some s
  | .number x => some (Number.literal x)
  | .bool b => some (if b then "True" else "False")
  | _ => none

/-- Add two numbers, and a thousand. -/
def add : HostMethod := stateless "add" (.exactly 2) none fun
  | [.number a, .number b] => .ok (.value (.number (a + b + 1000.0)))
  | _ => .error ⟨.typing, some "add needs numbers"⟩

/-- Count the arguments after the first. -/
def atLeastOne : HostMethod := stateless "at_least_one" (.atLeast 1) none fun args =>
  .ok (.integer (args.length - 1 : Nat))

/-- Fail as the first argument says. -/
def fault : HostMethod := stateless "fault" (.between 1 2) none fun args =>
  match args with
  | name :: rest =>
    let shown := (show? name).getD "None"
    match HostFaultClass.ofName? shown with
    | some c => .error ⟨c, (rest.head?).bind show?⟩
    | none => .error ⟨.key, some shown⟩
  | [] => .error ⟨.typing, none⟩

/-- A number as a product. -/
def number (x : Float) : Product := .value (.number x)

/-- One product of every kind, by name. -/
def gifts : List (String × Product) := [
  ("int", .integer 7),
  ("negint", .integer (-3)),
  ("hugeint", .integer (Int.pow 10 400)),
  ("bool", .value (.bool true)),
  ("none", .value .null),
  ("float", number 2.5),
  ("text", .value (.string "t")),
  ("tuple", .sequence [.integer 1, .sequence [.integer 2, .integer 3]]),
  ("nested", .mapping [
    (.text "a", .sequence [.integer 1, .sequence [.integer 2]]),
    (.text "b", .mapping [(.text "c", .value (.bool false))])]),
  ("badkey", .mapping [(.other, .integer 2)]),
  ("object", .foreign "Widget"),
  ("objects", .sequence [.integer 1, .foreign "Widget"]),
  ("bytes", .foreign "bytes"),
  ("novalue", .value .absent),
  ("novalues", .sequence [.value .absent]),
  ("callable", .method 9)]

/-- Hand back a product by name. -/
def give : HostMethod := stateless "give" (.exactly 1) none fun args =>
  let shown := (args.head?.bind show?).getD "None"
  match gifts.lookup shown with
  | some p => .ok p
  | none => .error ⟨.key, some shown⟩

/-- Three values, null where one is missing. -/
def opt : HostMethod := stateless "opt" (.between 1 3) (some "opt(a, b?, c?)") fun args =>
  .ok (.sequence ((List.range 3).map fun k => .value (args.getD k .null)))

/-- Take damage off the health points and give what is left. -/
def takeDamage : HostMethod :=
  ⟨"take_damage", .exactly 1, some "takeDamage(amount)", true, fun counters args =>
    match args with
    | [.number x] =>
      match Number.truncate? x with
      | some n =>
        let left := (Table.get? counters "hp").getD 0 - n
        (.ok (.integer left), Table.set counters "hp" left)
      | none => (.error ⟨.value, some "bad amount"⟩, counters)
    | _ => (.error ⟨.value, some "bad amount"⟩, counters)⟩

/-- Give a fixed text. -/
def say (member text : String) (arity : Arity) : HostMethod :=
  stateless member arity none fun _ => .ok (.value (.string text))

/-- A method that scripts see only when it is handed to them. -/
def pick : HostMethod :=
  { stateless "pick" (.between 1 2) (some "pick(x, y = 2)") (fun args =>
      .ok (.sequence [.value (args.getD 0 .null), .value (args.getD 1 (.number 2.0))])) with
    exposed := false }

/-- A method that scripts never see. -/
def secret : HostMethod := { say "secret" "secret" (.exactly 0) with exposed := false }

/-- The methods of the first host. -/
def methods : List HostMethod :=
  [say "_hidden__api_name_" "hidden" (.exactly 0), add, atLeastOne, fault, give, opt,
    say "print" "host print" (.atLeast 0), secret, takeDamage, pick]

end Host.Sample

/-- A host with health points and one method of every kind. -/
def Host.demo : Host := ⟨Host.Sample.methods, false, [("hp", 100)]⟩

/-- A host that shadows builtins. -/
def Host.other : Host where
  methods := [
    Host.Sample.stateless "array" (.exactly 0) none fun _ =>
      .ok (.sequence [.integer 1, .integer 2]),
    Host.Sample.say "if_else" "shadowed" (.exactly 0),
    Host.Sample.stateless "print" (.exactly 1) (some "print one value") fun args =>
      .ok (.value (args.getD 0 .null))]
  isEmpty := false
  counters := []

/-- The first host, counting as empty. -/
def Host.falsy : Host := { Host.demo with isEmpty := true }

end RuleScript
