import QueryTally.Store.Database

/-! # Sabotage

What a database can be made to refuse on purpose, to see what its users do then. One
sabotage adds to another until all are taken back. -/

namespace QueryTally

/-- What a database can be made to refuse. -/
inductive Sabotage where
  /-- Nothing any more. -/
  | none
  /-- Everything that needs the table, which is dropped. -/
  | table
  /-- Every put. -/
  | put
  /-- Every put, which also ends the transaction. -/
  | putAndTransaction
  /-- Every delete that meets a row. -/
  | delete
  /-- Every commit after a row was put or deleted. -/
  | commit
  deriving DecidableEq, Repr

/-- Whether a sabotage would change nothing. -/
def Faults.has (f : Faults) : Sabotage → Bool
  | .none => (f.put 0 recordSlot).isNone && !f.delete 0 recordSlot && !f.commit true
  | .table => false
  | .put => f.put 0 recordSlot = some .statement
  | .putAndTransaction => f.put 0 recordSlot = some .transaction
  | .delete => f.delete 0 recordSlot
  | .commit => f.commit true

def Faults.add (f : Faults) : Sabotage → Faults
  | .none | .table => {}
  | .put => { f with put := fun _ _ => some .statement }
  | .putAndTransaction => { f with put := fun _ _ => some .transaction }
  | .delete => { f with delete := fun _ _ => true }
  | .commit => { f with commit := id }

end QueryTally
