import Sieve.Analyzer.ParseLine

/-!
# The log of the API server

`parse_api_event` and the constructor `APIEvent` of `k8s_event.py`, and the loop over the lines of
`apiserver1.log` that the functions of the oracle begin with.  `json.loads` is a parameter.
-/

namespace Sieve.Oracle

open Sieve.Event Sieve.Library Sieve.Analyzer

instance : LawfulBEq Text := inferInstanceAs (LawfulBEq (List Char))

def SIEVE_API_EVENT_MARK : Text := "[SIEVE-API-EVENT]".toList

structure APIEvent where
  etype : Text
  originalKey : Text
  key : Text
  rtype : Text
  objNamespace : Text
  name : Text
  objStr : Text
  objMap : Json

def parseApiEvent (loads : Text → Option Json) (line : Text) : Except ParseError APIEvent := do
  let tokens ← tokensFrom SIEVE_API_EVENT_MARK line
  let etype ← token tokens 1
  let originalKey ← token tokens 2
  let rtype ← token tokens 3
  let objNamespace ← token tokens 4
  let name ← token tokens 5
  let objStr ← token tokens 6
  let objMap ← jsonLoads loads objStr
  .ok ⟨etype, originalKey, slashKey rtype objNamespace name, rtype, objNamespace, name, objStr, objMap⟩

/-- `SIEVE_API_EVENT_MARK in line`. -/
def isApiEventLine (line : Text) : Bool := (fromFirst SIEVE_API_EVENT_MARK line).isSome

/-- The events of the log, in order. -/
def apiEventList (loads : Text → Option Json) (log : Text) : Except ParseError (List APIEvent) :=
  ((readlines log).filter isApiEventLine).mapM (parseApiEvent loads)

end Sieve.Oracle
