import QueryTally.Engine
import QueryTally.RotationTask
import QueryTally.Store.Call
import QueryTally.Store.Sabotage

/-! # The steps of a session

What can be asked of a session, and what it answers. -/

namespace QueryTally

/-- One step of a session. Files are named relative to the session's directory. -/
inductive Step where
  | setClock (hour : Hour)
  | addClock (hours : Hour)
  | launch (file : String) (days : UInt32) (pollMillis : Option UInt64)
  | ingest (events : List (Event × Nat))
  | query (g : Granularity)
  | rotate
  | configure (days : Int32)
  | info
  | clear
  | close
  | drop
  | debug
  | awaitRotation
  | spawn (pollMillis : UInt64)
  | join
  | runTask (withEngine : Bool) (policy : RotationPolicy) (signal : Signal)
  | storeOpen (file : String)
  | storeClose
  | storeReset
  | storeInfo
  | load (first last : Hour)
  | transaction (writable : Bool) (calls : List StoreCall) (finish : Finish)
  | writeFile (file : String) (text : String)
  | makeDirectory (file : String)
  | remove (file : String)
  | fileExists (file : String)
  | putRow (file : String) (row : Row)
  | dump (file : String)
  | dumpRaw (file : String)
  | sabotage (file : String) (what : Sabotage)

structure Info where
  unit : Option Hour
  limit : UInt32
  days : UInt32
  closed : Bool
  shutdown : Bool
  deriving DecidableEq, Repr

def Engine.info (e : Engine) : Info where
  unit := e.hour?
  limit := e.limit
  days := e.days
  closed := e.isClosed
  shutdown := e.shutdown

inductive Answer where
  | done
  | noEngine
  | noStore
  | noTask
  | noFile
  | statsError (e : StatsError)
  | storeError (e : StoreError)
  | now (hour : Hour)
  | info (info : Info)
  | unit (hour : Option Hour)
  | report (r : Report)
  | rotated (rotated : Bool) (hour : Option Hour)
  | debug (text : String)
  | finished (ends : Bool)
  | opened (file : String)
  | storeState (isOpen : Bool)
  | resetFailed (isOpen : Bool) (e : StoreError)
  | storeInfo (isOpen : Bool) (text : String)
  | records (records : List HourRecord)
  | refused
  | transaction (writable : Bool) (replies : List StoreReply) (result : Except StoreError Unit)
  | fileExists (there : Bool)
  | decodedRows (rows : List (Option Hour × Option HourRecord))
  | rows (rows : List Row)

end QueryTally
