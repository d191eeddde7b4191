import OtaAgent.Text.Digits

set_option autoImplicit false

namespace OtaAgent

structure Endpoint where
  host : String
  port : Nat
  deriving DecidableEq, Repr

namespace Endpoint

def scheme : List Char := ['t', 'c', 'p', ':', '/', '/']

def defaultHost : String := "localhost"

def defaultPort : Nat := 9133

def maxPort : Nat := 65535

/-- The address in a url: what follows the scheme, which may be missing. -/
def addressChars (url : List Char) : List Char :=
  if scheme.isPrefixOf url then url.drop scheme.length else url

/-- What precedes the last colon, and what follows it. -/
def cutAtColon? (cs : List Char) : Option (List Char × List Char) :=
  match cs.reverse.dropWhile (· != ':') with
  | _ :: before => some (before.reverse, (cs.reverse.takeWhile (· != ':')).reverse)
  | [] => none

def port? (cs : List Char) : Option Nat :=
  (Text.unsigned? 10 cs).filter (· ≤ maxPort)

/-- The parts that an address lacks are the usual ones. A colon with nothing before it does not
end a host. -/
def ofAddress (cs : List Char) : Endpoint :=
  match cutAtColon? cs with
  | some (c :: host, port) => ⟨String.ofList (c :: host), (port? port).getD defaultPort⟩
  | _ => if cs = [] then ⟨defaultHost, defaultPort⟩ else ⟨String.ofList cs, defaultPort⟩

def ofUrl (url : String) : Endpoint := ofAddress (addressChars url.toList)

def url (e : Endpoint) : String := s!"tcp://{e.host}:{e.port}"

end Endpoint
end OtaAgent
