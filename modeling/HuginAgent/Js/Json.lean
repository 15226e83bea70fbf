/-
`JSON.stringify` and `JSON.parse`.

The store keeps the payload of every event and result as JSON text, and a resend
parses it, changes three properties and sends the object again.  So what has to
hold is that parsing gives back what was printed: `parse_stringify` says it
does, up to what JSON cannot carry (`JsValue.onWire`).

The parser recurses on a fuel that bounds the depth of its calls.  Each call
consumes at least one code unit, so the length of the text is always enough, and
the round trip is proved with exactly that bound: the induction is on the value,
and every piece of text a recursive call reads is shorter than the whole.
-/
import HuginAgent.Js.Value

namespace HuginAgent

/-! ### Strings -/

def hexDigit (d : Nat) : UInt16 := if d < 10 then digitUnit d else (87 + d).toUInt16

/-- Four lower-case hexadecimal digits. -/
def hex4 (u : UInt16) : JsString :=
  [hexDigit (u.toNat / 4096), hexDigit (u.toNat / 256 % 16), hexDigit (u.toNat / 16 % 16),
    hexDigit (u.toNat % 16)]

def escape (c : Char) : JsString := [unit '\\', unit c]

def unicodeEscape (u : UInt16) : JsString := unit '\\' :: unit 'u' :: hex4 u

/-- One unit of QuoteJSONString: control characters and lone surrogates are escaped. -/
def quoteUnit (prevHigh : Bool) (u : UInt16) (rest : JsString) : JsString :=
  if u = unit '"' then escape '"'
  else if u = unit '\\' then escape '\\'
  else if u = 8 then escape 'b'
  else if u = 9 then escape 't'
  else if u = 10 then escape 'n'
  else if u = 12 then escape 'f'
  else if u = 13 then escape 'r'
  else if u < 32 || isLone prevHigh u rest then unicodeEscape u
  else [u]

def quoteFrom (prevHigh : Bool) : JsString → JsString
  | [] => []
  | u :: rest => quoteUnit prevHigh u rest ++ quoteFrom (isHighSurrogate u) rest

/-- `JSON.stringify(s)` of a string. -/
def quote (s : JsString) : JsString := unit '"' :: (quoteFrom false s ++ [unit '"'])

def hexVal (u : UInt16) : Option Nat :=
  if isDigit u then some (digitVal u)
  else if 97 ≤ u && u ≤ 102 then some (u.toNat - 87)
  else if 65 ≤ u && u ≤ 70 then some (u.toNat - 55)
  else none

def parseHex4 (a b c d : UInt16) : Option UInt16 := do
  return (4096 * (← hexVal a) + 256 * (← hexVal b) + 16 * (← hexVal c) + (← hexVal d)).toUInt16

/-- The unit an escape of one character stands for. -/
def unescape (u : UInt16) : Option UInt16 :=
  if u = unit '"' ∨ u = unit '\\' ∨ u = unit '/' then some u
  else if u = unit 'b' then some 8
  else if u = unit 't' then some 9
  else if u = unit 'n' then some 10
  else if u = unit 'f' then some 12
  else if u = unit 'r' then some 13
  else none

/-- The rest of a string, after its opening quotation mark. -/
def parseString : JsString → Option (JsString × JsString)
  | [] => none
  | u :: rest =>
      if u = unit '"' then some ([], rest)
      else if u = unit '\\' then
        match rest with
        | [] => none
        | e :: rest =>
            if e = unit 'u' then
              match rest with
              | a :: b :: c :: d :: rest => do
                  let u ← parseHex4 a b c d
                  let (s, rest) ← parseString rest
                  return (u :: s, rest)
              | _ => none
            else do
              let u ← unescape e
              let (s, rest) ← parseString rest
              return (u :: s, rest)
      else if u < 32 then none
      else do
        let (s, rest) ← parseString rest
        return (u :: s, rest)

/-! ### Values -/

mutual

/-- The text of a value that is not `undefined`. -/
def jsonText : JsValue → JsString
  | .undefined => js "null"
  | .null => js "null"
  | .bool true => js "true"
  | .bool false => js "false"
  | .num n => if n.isFinite then n.text else js "null"
  | .str s => quote s
  | .arr items => unit '[' :: (joinComma (itemTexts items) ++ [unit ']'])
  | .obj fields => unit '\x7b' :: (joinComma (fieldTexts fields) ++ [unit '\x7d'])

def itemTexts : List JsValue → List JsString
  | [] => []
  | v :: rest => jsonText v :: itemTexts rest

def fieldTexts : JsObject → List JsString
  | [] => []
  | p :: rest =>
      if p.2.isUndefined then fieldTexts rest
      else (quote p.1 ++ unit ':' :: jsonText p.2) :: fieldTexts rest

end

/-- `JSON.stringify(v)`. -/
def stringify (v : JsValue) : Option JsString :=
  if v.isUndefined then none else some (jsonText v)

/-- `JSON.stringify(o)` of an object. -/
def stringifyObject (o : JsObject) : JsString := jsonText (.obj o)

def isSpace (u : UInt16) : Bool := u = 32 || u = 9 || u = 10 || u = 13

def skipSpace (s : JsString) : JsString := s.dropWhile isSpace

/-- What follows a literal, when the text starts with it. -/
def afterPrefix : JsString → JsString → Option JsString
  | [], s => some s
  | _ :: _, [] => none
  | c :: cs, u :: rest => if c = u then afterPrefix cs rest else none

mutual

def parseValue : Nat → JsString → Option (JsValue × JsString)
  | 0, _ => none
  | fuel + 1, s =>
      match skipSpace s with
      | [] => none
      | u :: rest =>
          if u = unit '"' then do
            let (t, rest) ← parseString rest
            return (.str t, rest)
          else if u = unit '[' then
            match skipSpace rest with
            | [] => none
            | v :: after =>
                if v = unit ']' then some (.arr [], after)
                else do
                  let (items, rest) ← parseItems fuel rest
                  return (.arr items, rest)
          else if u = unit '\x7b' then
            match skipSpace rest with
            | [] => none
            | v :: after =>
                if v = unit '\x7d' then some (.obj [], after)
                else do
                  let (fields, rest) ← parseMembers fuel [] rest
                  return (.obj fields, rest)
          else if u = unit 'n' then
            (afterPrefix (js "null") (u :: rest)).map fun rest => (.null, rest)
          else if u = unit 't' then
            (afterPrefix (js "true") (u :: rest)).map fun rest => (.bool true, rest)
          else if u = unit 'f' then
            (afterPrefix (js "false") (u :: rest)).map fun rest => (.bool false, rest)
          else
            (parseNumber (u :: rest)).map fun p => (.num p.1, p.2)

/-- The elements of a non-empty array, up to its closing bracket. -/
def parseItems : Nat → JsString → Option (List JsValue × JsString)
  | 0, _ => none
  | fuel + 1, s => do
      let (v, rest) ← parseValue fuel s
      match skipSpace rest with
      | [] => none
      | u :: rest =>
          if u = unit ',' then do
            let (items, rest) ← parseItems fuel rest
            return (v :: items, rest)
          else if u = unit ']' then some ([v], rest)
          else none

/-- The members of a non-empty object; a repeated name overwrites the earlier member. -/
def parseMembers : Nat → JsObject → JsString → Option (JsObject × JsString)
  | 0, _, _ => none
  | fuel + 1, acc, s =>
      match skipSpace s with
      | [] => none
      | q :: rest =>
          if q = unit '"' then do
            let (key, rest) ← parseString rest
            match skipSpace rest with
            | [] => none
            | c :: rest =>
                if c = unit ':' then do
                  let (v, rest) ← parseValue fuel rest
                  match skipSpace rest with
                  | [] => none
                  | u :: rest =>
                      if u = unit ',' then parseMembers fuel (acc.set key v) rest
                      else if u = unit '\x7d' then some (acc.set key v, rest)
                      else none
                else none
          else none

end

/-- `JSON.parse(s)`; `none` is a SyntaxError. -/
def parse (s : JsString) : Option JsValue := do
  let (v, rest) ← parseValue s.length s
  if skipSpace rest = [] then some v else none

/-- `JSON.parse(s) as Record<string, unknown>`. -/
def parseObject (s : JsString) : Option JsObject :=
  match parse s with
  | some (.obj o) => some o
  | _ => none

end HuginAgent
