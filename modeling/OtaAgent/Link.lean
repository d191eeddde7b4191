import OtaAgent.Bus
import OtaAgent.Endpoint
import OtaAgent.Json.Doc
import OtaAgent.Json.Printer
import OtaAgent.Text.Blank
import OtaAgent.Wire

set_option autoImplicit false

namespace OtaAgent.Link

def address (url : String) : Except ConfigFault String :=
  let cs := Endpoint.addressChars url.toList
  if ':' ∈ cs then .ok (String.ofList cs) else .error (.badBusUrl url)

def newLine : UInt8 := 10

def carriageReturn : UInt8 := 13

def frame (envelope : Json) : Bytes := Text.Utf8.encode envelope.compact ++ [newLine]

/-- The lines that end in the stream, and what follows the last of them. -/
def cut : Bytes → List Bytes × Bytes
  | [] => ([], [])
  | b :: bs =>
    let (lines, rest) := cut bs
    if b = newLine then ([] :: lines, rest)
    else match lines with
      | line :: lines => ((b :: line) :: lines, rest)
      | [] => ([], b :: rest)

def dropReturn (line : Bytes) : Bytes :=
  if line.getLast? = some carriageReturn then line.dropLast else line

/-- The texts of lines, up to the first that is no text. -/
def texts : List Bytes → List String
  | [] => []
  | line :: lines =>
    match Text.Utf8.decode? line with
    | some s => s :: texts lines
    | none => []

def lines (bs : Bytes) : List String :=
  let (ended, rest) := cut bs
  texts (ended.map dropReturn ++ if rest = [] then [] else [rest])

def presence? (line : String) : Option Bool := do
  let v ← Json.parse? line
  if (← (← v.member? "type").string?) = Wire.presence then
    (← (← v.member? "body").member? "connected").bool?
  else none

def arrivalOf (line : String) : Arrival :=
  match presence? line with
  | some connected => .presence connected
  | none => .message line

def isBlank (line : String) : Bool := line.toList.all Text.isBlank

def arrivals (bs : Bytes) : List Arrival := ((lines bs).filter (!isBlank ·)).map arrivalOf

/-- The bus that is reached over connections: `connect` gives the bytes that come from an address
if there is a peer. -/
def bus (connect : String → Option Bytes) : Bus where
  join := fun r => do
    let address ← (address r.url).mapError .config
    match connect address with
    | some bytes => return arrivals bytes
    | none => throw (.bus (.notConnected address .unreachable))
  refusal := fun _ => none

def notJoined : Error := .bus .notStarted

end OtaAgent.Link
