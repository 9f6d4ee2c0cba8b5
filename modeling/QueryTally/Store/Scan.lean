import QueryTally.Notice
import QueryTally.Store.Database

/-! # Looking through the hours of a table

The units of a table are visited in the order of their keys. Keys that are no hour's are
skipped, a key that is text ends the look with an error, and the visitor may end it. -/

namespace QueryTally

structure Scan where
  /-- The hours that were visited, in order. -/
  seen : List Hour := []
  /-- The lengths of the keys that were skipped because they are no hour's. -/
  malformed : List Nat := []
  /-- What ended the look early, if anything did. -/
  error : Option StoreError := none
  deriving DecidableEq, Repr

/-- Visits units up to the first hour at which `stop` holds. A key that is no hour's is
skipped, and one that is text ends the look. -/
def Scan.ofUnits (stop : Hour → Bool) : List Cell → Scan
  | [] => {}
  | .text _ :: _ => { error := some .database }
  | .blob bytes :: rest =>
    match Hour.ofKey? bytes with
    | none =>
      let scan := ofUnits stop rest
      { scan with malformed := bytes.length :: scan.malformed }
    | some hour =>
      if stop hour then { seen := [hour] }
      else
        let scan := ofUnits stop rest
        { scan with seen := hour :: scan.seen }

def Scan.notices (s : Scan) : List Notice := s.malformed.map .malformedKey

end QueryTally
