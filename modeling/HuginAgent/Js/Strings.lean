/-
String methods of the standard library, as far as the daemon's readers of session files use
them, what `JSON.parse` makes of a text beside its shape, and POSIX paths, as `node:path` has them.

A parsed number is the double nearest to what was written.  The model leaves this rounding
open: `number` may be any function, and nothing that is proved depends on it.
-/
import HuginAgent.Js.Json
import HuginAgent.Kit.Lines
import Mathlib.Data.List.DropRight

namespace HuginAgent

/-- What `trim` takes for white space: `WhiteSpace` and `LineTerminator` of ECMAScript. -/
def isWhite (u : UInt16) : Bool :=
  (9 ≤ u && u ≤ 13) || u = 32 || u = 0xA0 || u = 0x1680 || (0x2000 ≤ u && u ≤ 0x200A) ||
    u = 0x2028 || u = 0x2029 || u = 0x202F || u = 0x205F || u = 0x3000 || u = 0xFEFF

/-- `s.trim()`. -/
def trim (s : JsString) : JsString := (s.dropWhile isWhite).rdropWhile isWhite

/-- `parts.join(separator)`. -/
def join (separator : Char) (parts : List JsString) : JsString := [unit separator].intercalate parts

/-- `s.toLowerCase()` of the ASCII letters.  No other character lowers to one of the letters
that the result is compared with. -/
def toLowerCase (s : JsString) : JsString :=
  s.map fun u => if 65 ≤ u && u ≤ 90 then u + 32 else u

/-- Is the name an array index?  Such properties come first in an object, in their order. -/
def isIndexKey (key : JsString) : Bool :=
  key ≠ [] && key.all isDigit && (key.length = 1 || key.head? ≠ some (unit '0')) &&
    digitsValue key < 4294967295

/-- The order in which the properties of an object are listed. -/
def propertyOrder (o : JsObject) : JsObject :=
  (o.filter fun p => isIndexKey p.1).insertionSort
      (fun p q => digitsValue p.1 ≤ digitsValue q.1) ++
    o.filter fun p => !isIndexKey p.1

namespace JsValue

mutual

/-- A parsed value as the engine holds it. -/
def loaded (number : Decimal → JsNumber) : JsValue → JsValue
  | .num (.finite d) => .num (number d)
  | .arr items => .arr (loadedItems number items)
  | .obj fields => .obj (propertyOrder (loadedFields number fields))
  | v => v

def loadedItems (number : Decimal → JsNumber) : List JsValue → List JsValue
  | [] => []
  | v :: rest => v.loaded number :: loadedItems number rest

def loadedFields (number : Decimal → JsNumber) : JsObject → JsObject
  | [] => []
  | p :: rest => (p.1, p.2.loaded number) :: loadedFields number rest

end

end JsValue

/-! ### Paths -/

/-- `path.sep`. -/
def sep : UInt16 := unit '/'

/-- `path.split("/")`. -/
def segments (path : JsString) : List JsString :=
  (splitLines sep path).1 ++ [(splitLines sep path).2]

/-- One more segment, on those before it from last to first. -/
def pushSegment (absolute : Bool) (before : List JsString) (segment : JsString) : List JsString :=
  if segment = [] ∨ segment = js "." then before
  else if segment = js ".." then
    match before with
    | [] => if absolute then [] else [segment]
    | last :: rest => if last = js ".." then segment :: before else rest
  else segment :: before

/-- `normalize(path)`. -/
def normalizePath (path : JsString) : JsString :=
  if path = [] then js "."
  else
    let absolute : Bool := path.head? = some sep
    let trailing : Bool := path.getLast? = some sep
    let body := join '/' ((segments path).foldl (pushSegment absolute) []).reverse
    if body = [] then
      if absolute then [sep] else if trailing then js "./" else js "."
    else
      let body := if trailing then body ++ [sep] else body
      if absolute then sep :: body else body

/-- `join(dir, name)` where the name is not empty. -/
def joinPath (dir name : JsString) : JsString :=
  if dir = [] then normalizePath name else normalizePath (dir ++ sep :: name)

/-- `basename(path)`. -/
def basename (path : JsString) : JsString := (splitLines sep (path.rdropWhile fun u => u = sep)).2

example : joinPath (js "/a/./b/../c/") (js "d") = js "/a/c/d" ∧ basename (js "/a/b/") = js "b" := by
  decide +kernel

end HuginAgent
