import QueryTally.Store.Transaction

/-! # Purging old hours

A purge deletes the hours before a cutoff. It visits the hours in the order of their keys
and stops at the first that is to be kept, so an hour before the epoch, whose key comes
after those of all others, is found only if no hour is kept before it. -/

namespace QueryTally.Transaction

def deleteAll (t : Transaction) : List Hour → List (Hour × Except StoreError Bool) × Transaction
  | [] => ([], t)
  | hour :: rest =>
    let (result, t) := t.delete hour
    let (results, t) := t.deleteAll rest
    ((hour, result) :: results, t)

structure Purge where
  scan : Scan
  deletions : List (Hour × Except StoreError Bool)
  transaction : Transaction

/-- Deletes the hours before `cutoff`. Hours are visited in the order of their keys, and
the first that is not before `cutoff` ends the search. -/
def purgeBefore (t : Transaction) (cutoff : Hour) : Purge :=
  let scan := t.scan fun hour => decide (cutoff ≤ hour)
  let stale := scan.seen.filter fun hour => decide (hour < cutoff)
  let (deletions, transaction) := t.look.deleteAll stale
  { scan, deletions, transaction }

/-- The notice for a deletion. A unit that had no rows is passed over. -/
def deletionNotice? : Hour × Except StoreError Bool → Option Notice
  | (hour, .ok true) => some (.deleted hour)
  | (_, .ok false) => none
  | (hour, .error e) => some (.deleteFailed hour e)

namespace Purge

def deletedAny (p : Purge) : Bool :=
  p.deletions.any fun d => match d.2 with
    | .ok b => b
    | .error _ => false

def deletedCount (p : Purge) : Nat :=
  p.deletions.countP fun d => match d.2 with
    | .ok b => b
    | .error _ => false

theorem deletedAny_iff (p : Purge) : p.deletedAny = true ↔ p.deletedCount ≠ 0 := by
  rw [deletedAny, deletedCount, List.any_eq_true, ← Nat.pos_iff_ne_zero, List.countP_pos_iff]

def notices (p : Purge) : List Notice :=
  p.scan.notices ++ (p.scan.error.map Notice.listFailed).toList ++
    p.deletions.filterMap deletionNotice?

end Purge
end QueryTally.Transaction
