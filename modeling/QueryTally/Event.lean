import QueryTally.Verdict
import QueryTally.Address

/-! # Events

An event is one query as the resolver observed it. It counts only if it has a
verdict, a domain and a client address; what is counted of it is a `Lookup`. -/

namespace QueryTally

structure Event where
  /-- How the query was resolved, if the resolver said so. -/
  verdict : Option Verdict
  domain : String
  /-- The bytes of the client's address. -/
  client : List UInt8
  /-- Processing time in microseconds. -/
  micros : UInt64
  deriving DecidableEq, Repr

/-- What is counted of a query. -/
structure Lookup where
  verdict : Verdict
  domain : String
  /-- The text of the client's address. -/
  client : String
  /-- Processing time in microseconds. -/
  micros : UInt64
  deriving DecidableEq, Repr

def Event.clientText? (e : Event) : Option String := Address.text? e.client

/-- What an event counts as: nothing without a verdict, a domain or an address. -/
def Event.lookup? (e : Event) : Option Lookup :=
  match e.verdict, e.clientText? with
  | some verdict, some client =>
    if e.domain = "" then none
    else some { verdict, domain := e.domain, client, micros := e.micros }
  | _, _ => none

end QueryTally
