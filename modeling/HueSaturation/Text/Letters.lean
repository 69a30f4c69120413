/-!
# Names in text

* `equalIgnoringCase`   equality of texts up to the case of the letters `A` to `Z`;
* `isBlank`             the characters that Unicode calls white space;
* `trimBlanks`          text without white space at its two ends;
* `joined`              texts with a separator between them.
-/

namespace HueSaturation

def equalIgnoringCase (s t : String) : Bool :=
  s.toList.map Char.toLower == t.toList.map Char.toLower

def isBlank (c : Char) : Bool :=
  (0x9 ≤ c.val && c.val ≤ 0xd) || c.val == 0x20 || c.val == 0x85 || c.val == 0xa0
    || c.val == 0x1680 || (0x2000 ≤ c.val && c.val ≤ 0x200a) || c.val == 0x2028 || c.val == 0x2029
    || c.val == 0x202f || c.val == 0x205f || c.val == 0x3000

def trimBlanks (s : String) : String :=
  String.ofList ((s.toList.dropWhile isBlank).reverse.dropWhile isBlank).reverse

def joined (separator : String) (parts : List String) : String :=
  separator.intercalate parts

end HueSaturation
