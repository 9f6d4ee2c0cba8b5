import QueryTally.Store.Transaction

/-! # Calls in a transaction

A transaction as a list of calls and a way to end it. A call that fails is answered with
its failure, and the calls after it are made all the same. -/

namespace QueryTally

inductive StoreCall where
  | put (hour : Hour) (record : HourRecord)
  | get (hour : Hour)
  | delete (hour : Hour)
  /-- Visits all hours, up to the first at or after `limit` if that is given. -/
  | scan (limit : Option Hour)
  deriving DecidableEq, Repr

inductive StoreReply where
  | put (result : Except StoreError Unit)
  | get (result : Except StoreError (Option HourRecord))
  | delete (result : Except StoreError Bool)
  | scan (result : Scan)

inductive Finish where
  | commit
  | rollback
  | drop
  deriving DecidableEq, Repr

def Transaction.call (t : Transaction) : StoreCall → StoreReply × List Notice × Transaction
  | .put hour record =>
    let (result, t) := t.put hour record
    (.put result, [], t)
  | .get hour => (.get (t.get hour), [], t.look)
  | .delete hour =>
    let (result, t) := t.delete hour
    (.delete result, [], t)
  | .scan limit =>
    let scan := t.scan fun hour => limit.any fun bound => decide (bound ≤ hour)
    (.scan scan, scan.notices, t.look)

/-- Makes calls in a transaction, one after the other. A failed call does not end it. -/
def Transaction.calls (t : Transaction) :
    List StoreCall → List StoreReply × List Notice × Transaction
  | [] => ([], [], t)
  | c :: rest =>
    let (reply, notices, t) := t.call c
    let (replies, more, t) := t.calls rest
    (reply :: replies, notices ++ more, t)

def Transaction.finish (t : Transaction) : Finish → Transaction.Ending
  | .commit => t.commit
  | .rollback => t.rollback
  | .drop => t.drop

end QueryTally
