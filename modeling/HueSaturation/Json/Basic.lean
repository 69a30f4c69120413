import HueSaturation.Number.Numeral

/-!
# JSON values

* `Json`          a JSON value; numbers keep their digits, objects the order of their members;
* `Json.named`    the members of an object that have a name.

A string may name half of a surrogate pair by an escape. It is well formed and still has no text:
then it is a string without text, which no reader of a value accepts.
-/

namespace HueSaturation

inductive Json where
  | null
  | bool (b : Bool)
  /-- a number, as it is written -/
  | number (n : Numeral)
  /-- a string; `none` if it names half of a surrogate pair -/
  | string (text : Option String)
  | array (elements : List Json)
  /-- the members in their order, repeated names included -/
  | object (members : List (Option String × Json))

namespace Json

def named (name : String) (members : List (Option String × Json)) : List Json :=
  (members.filter fun m => m.1 = some name).map Prod.snd

end Json
end HueSaturation
