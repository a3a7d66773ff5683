import GrammarView.Entries

/-!
# JSON values

The values that a grammar is described with. Integers and doubles are kept apart, as an integer
has no limit and a double has the range of its format, and the members of an object keep their
order.
-/

namespace GrammarView

/-- A JSON value. -/
inductive Json where
  | null
  | bool (value : Bool)
  | int (value : Int)
  | real (value : Float)
  | str (value : String)
  | arr (items : List Json)
  | obj (members : List (String × Json))

instance : Inhabited Json :=
  ⟨.null⟩

namespace Json

/-- The word by which a complaint names the type of a value. -/
def typeName : Json → String
  | .null => "NoneType"
  | .bool _ => "bool"
  | .int _ => "int"
  | .real _ => "float"
  | .str _ => "str"
  | .arr _ => "list"
  | .obj _ => "dict"

/-- Whether a value holds nothing: null, false, a zero, an empty text, array or object. -/
def isEmpty : Json → Bool
  | .null => true
  | .bool value => !value
  | .int value => value == 0
  | .real value => value == 0.0
  | .str value => value == ""
  | .arr items => items.isEmpty
  | .obj members => members.isEmpty

/-- The members of an object are smaller than the object. -/
theorem sizeOf_lt_of_get? {members : Entries Json} {name : String} {value : Json}
    (found : members.get? name = some value) : sizeOf value < sizeOf (Json.obj members) := by
  have listed := List.sizeOf_lt_of_mem (Entries.mem_of_get? found)
  simp only [Json.obj.sizeOf_spec, Prod.mk.sizeOf_spec] at listed ⊢
  omega

end Json

end GrammarView
