/-
The records of a session file, `src/sessions/history.ts`.

A session file is JSON lines.  A line that is no JSON object is skipped and still counts:
what is made of a record is named after the number of its line.  The readers of fields take a
record as it comes, and answer `none` where a field is missing or of another type.
-/
import HuginAgent.History.Entry
import HuginAgent.Js.Date
import HuginAgent.Js.OneLine
import HuginAgent.Js.Strings
import HuginAgent.Kit.Lines

namespace HuginAgent

/-- What the builder has from outside: `createHash("sha256")` of a text, `Date.parse` (`none`
for NaN), and the number that `JSON.parse` makes of a decimal. -/
structure HistoryHost where
  sha256 : JsString → List UInt8
  parseDate : JsString → Option TimeValue
  number : Decimal → JsNumber

/-- The digests of a few texts. -/
def digestTable (digests : List (JsString × List UInt8)) (text : JsString) : List UInt8 :=
  ((digests.find? fun p => p.1 = text).map Prod.snd).getD []

/-! ### Lines -/

structure JsonlLine where
  lineIndex : Nat
  record : JsObject

/-- A line without the `\r` that `/\r?\n/` takes off. -/
def dropReturn (line : JsString) : JsString :=
  if line.getLast? = some (unit '\r') then line.dropLast else line

/-- `content.split(/\r?\n/)`. -/
def splitRecords (content : JsString) : List JsString :=
  let cut := splitLines newline content
  cut.1.map dropReturn ++ [cut.2]

/-- The object on a line, if there is one. -/
def parseRecord (host : HistoryHost) (raw : JsString) : Option JsObject :=
  if trim raw = [] then none
  else
    match (parse raw).map (JsValue.loaded host.number) with
    | some (.obj record) => some record
    | _ => none

def jsonlFrom (host : HistoryHost) : Nat → List JsString → List JsonlLine
  | _, [] => []
  | i, raw :: lines =>
      match parseRecord host raw with
      | some record => ⟨i, record⟩ :: jsonlFrom host (i + 1) lines
      | none => jsonlFrom host (i + 1) lines

def parseJsonlLines (host : HistoryHost) (content : JsString) : List JsonlLine :=
  jsonlFrom host 0 (splitRecords content)

/-! ### Fields -/

def stringFromUnknown : JsValue → Option JsString
  | .str s => some s
  | _ => none

/-- `obj?.[key]`. -/
def fieldOf (obj : Option JsObject) (key : String) : JsValue :=
  match obj with
  | some obj => JsObject.get obj (js key)
  | none => .undefined

def stringField (obj : Option JsObject) (key : String) : Option JsString :=
  stringFromUnknown (fieldOf obj key)

def objectField (obj : Option JsObject) (key : String) : Option JsObject :=
  match fieldOf obj key with
  | .obj value => some value
  | _ => none

def arrayBlocks : JsValue → List JsObject
  | .arr items => items.filterMap fun
      | .obj block => some block
      | _ => none
  | _ => []

/-- A string that counts as true. -/
def nonEmpty (s : Option JsString) : Option JsString := s.filter fun t => t ≠ []

def isoFromUnknown (host : HistoryHost) (value : JsValue) : Option JsString :=
  (stringFromUnknown value).bind fun s => (host.parseDate s).map TimeValue.toISOString

/-! ### Text and values -/

def historyContentCap : Nat := 16384

def historyToolIoCap : Nat := 8192

/-- The text under a cap, and whether that cut it. -/
def capString (value : JsString) (cap : Nat) : JsString × Bool :=
  if cap < value.length then (value.take cap, true) else (value, false)

def blockText (block : JsObject) : Option JsString :=
  (stringFromUnknown (fieldOf block "text")).or (stringFromUnknown (fieldOf block "content"))

/-- `JSON.stringify(value) ?? ""`. -/
def safeStringify (value : JsValue) : JsString := (stringify value).getD []

/-- The text of one part of a tool's value. -/
def partText : JsValue → Option JsString
  | .str s => some s
  | .obj obj =>
      let type := stringField obj "type"
      if type = some (js "text") ∨ type = some (js "input_text") ∨ type = some (js "output_text")
      then blockText obj else none
  | _ => none

def toolValueToString (value : JsValue) : JsString :=
  match value with
  | .undefined => []
  | .null => []
  | .str s => s
  | .num n => n.text
  | .bool true => js "true"
  | .bool false => js "false"
  | .arr items =>
      match items.filterMap partText with
      | [] => safeStringify value
      | textParts => join '\n' textParts
  | .obj _ => safeStringify value

def isTrue : JsValue → Bool
  | .bool b => b
  | _ => false

def isFalse : JsValue → Bool
  | .bool b => !b
  | _ => false

/-- `typeof exitCode === "number" && exitCode !== 0`. -/
def isFailureCode : JsValue → Bool
  | .num n => n ≠ .ofInt 0
  | _ => false

def statusFromPayload (payload : JsObject) : ToolStatus :=
  if isTrue (fieldOf payload "is_error") ∨ isFalse (fieldOf payload "success") then .error
  else
    let status := (stringField payload "status").map toLowerCase
    if status = some (js "error") ∨ status = some (js "failed") ∨ status = some (js "failure") then
      .error
    else if isFailureCode (fieldOf payload "exit_code") then .error
    else .ok

end HuginAgent
