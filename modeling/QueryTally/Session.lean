import QueryTally.Engine.Opening
import QueryTally.Engine.Query
import QueryTally.RotationTask
import QueryTally.Session.Step

/-! # Sessions

A session has a clock that is set by hand, a directory of its own, at most one engine
and at most one store, and goes through steps one at a time. Some steps work on the
engine or the store, others prepare or inspect the files below them: they write files,
put rows past the store, or make a database refuse what it is asked. -/

namespace QueryTally

structure Session where
  /-- The name of the session's directory. -/
  base : String
  /-- Whether tasks can run. -/
  runtime : Bool
  clock : Hour
  disk : Disk
  engine : Option Engine := none
  store : Option Store := none
  /-- Whether a task rotates the engine. -/
  rotating : Bool := false
  /-- Whether the task that was spawned and not yet waited for has ended. -/
  spawned : Option Bool := none

namespace Session

def start (base : String) (runtime : Bool) (clock : Hour) : Session :=
  { base, runtime, clock, disk := Disk.empty.set [base] .directory }

def fullName (s : Session) (file : String) : String := s.base ++ "/" ++ file

/-- The tasks of an engine that is gone or closed have ended. -/
def endTasks (s : Session) : Session :=
  { s with rotating := false, spawned := s.spawned.map fun _ => true }

/-- The session without its engine, which is not closed. -/
def dropEngine (s : Session) : Session :=
  let disk := match s.engine with
    | some e => e.store.release s.disk
    | none => s.disk
  { s.endTasks with engine := none, disk }

def dropStore (s : Session) : Session :=
  let disk := match s.store with
    | some store => store.release s.disk
    | none => s.disk
  { s with store := none, disk }

/-- What a step gives: an answer unless it overflows, the session afterwards, and notices. -/
structure Outcome where
  answer : Checked Answer
  session : Session
  notices : List Notice := []

def reply (s : Session) (a : Answer) : Outcome := { answer := .ok a, session := s }

def withEngine (s : Session) (f : Engine → Outcome) : Outcome :=
  match s.engine with
  | none => s.reply .noEngine
  | some e => f e

def withStore (s : Session) (f : Store → Outcome) : Outcome :=
  match s.store with
  | none => s.reply .noStore
  | some store => f store

def afterTurn {α : Type} (s : Session) (turn : Engine.Turn α) (answer : α → Answer) : Outcome where
  answer := turn.result.map answer
  session := { s with engine := some turn.engine, disk := turn.disk }
  notices := turn.notices

def launch (s : Session) (file : String) (days : UInt32) (pollMillis : Option UInt64) : Outcome :=
  let s := s.dropEngine
  let config : Config :=
    { path := s.fullName file, days
      rotation := { pollMillis := pollMillis.getD 1000, enabled := pollMillis.isSome } }
  let opening := Engine.launch config s.runtime s.clock s.disk
  let s := { s with disk := opening.disk }
  match opening.result with
  | .ok e =>
    { answer := .ok (.info e.info)
      session := { s with engine := some e, rotating := pollMillis.isSome }
      notices := opening.notices }
  | .error (.failure err) =>
    { answer := .ok (.statsError err), session := s, notices := opening.notices }
  | .error (.overflow o) => { answer := .error o, session := s, notices := opening.notices }

def ingest (s : Session) (e : Engine) (events : List (Event × Nat)) : Outcome :=
  match events.foldlM (fun e (event, times) => Engine.ingestTimes e event times) e with
  | .ok e => { s with engine := some e }.reply (.unit e.hour?)
  | .error o => { answer := .error o, session := s }

def query (s : Session) (e : Engine) (g : Granularity) : Outcome :=
  let answer := e.query g s.clock s.disk
  { answer := match answer.result with
      | .ok r => .ok (.report r)
      | .error (.failure err) => .ok (.statsError err)
      | .error (.overflow o) => .error o
    session := { s with disk := answer.disk }
    notices := answer.notices }

def clear (s : Session) (e : Engine) : Outcome :=
  let turn := e.clear s.clock s.disk
  s.afterTurn turn fun () => .info turn.engine.info

def awaitRotation (s : Session) (e : Engine) : Outcome :=
  if s.rotating then
    let look := RotationTask.look (some e) s.clock s.disk
    { answer := .ok (.unit (look.engine.bind (·.hour?)))
      session := { s with engine := look.engine, disk := look.disk }
      notices := look.notices }
  else s.reply (.unit e.hour?)

def spawn (s : Session) (e : Engine) (pollMillis : UInt64) : Outcome :=
  match startRotation pollMillis s.runtime with
  | .error err => s.reply (.statsError err)
  | .ok () =>
    { s with rotating := s.rotating || !e.isClosed, spawned := some e.isClosed }.reply .done

/-- Runs a rotation task by itself, with the engine or with one that is gone. -/
def runTask (s : Session) (withEngine : Bool) (policy : RotationPolicy) (signal : Signal) :
    Outcome :=
  if withEngine && s.engine.isNone then s.reply .noEngine
  else
    let engine := if withEngine then s.engine else none
    let look := RotationTask.run policy signal engine s.clock s.disk
    { answer := .ok (.finished look.ends)
      session :=
        { s with engine := if withEngine then look.engine else s.engine, disk := look.disk }
      notices := look.notices }

def join (s : Session) : Outcome :=
  match s.spawned with
  | none => s.reply .noTask
  | some ended => { s with spawned := none }.reply (.finished ended)

/-- A name without the slashes and dots at its ends that lead nowhere. -/
def trimmed (name : String) : String :=
  let idle (step : String) : Bool := step = "" || step = "."
  let steps := ((nameSteps name).dropWhile idle).reverse.dropWhile idle
  "/".intercalate steps.reverse

def storeOpen (s : Session) (file : String) : Outcome :=
  let s := s.dropStore
  let (result, disk, notices) := Store.connect (s.fullName file) s.disk
  let s := { s with disk, store := result.toOption }
  { answer := .ok (match result with
      | .ok _ => .opened (trimmed file)
      | .error e => .storeError e)
    session := s
    notices }

def storeReset (s : Session) (store : Store) : Outcome :=
  let (result, store, disk, notices) := store.reset s.disk
  { answer := .ok (match result with
      | .ok () => .storeState store.isOpen
      | .error e => .resetFailed store.isOpen e)
    session := { s with disk, store := some store }
    notices }

def transaction (s : Session) (store : Store) (writable : Bool) (calls : List StoreCall)
    (finish : Finish) : Outcome :=
  match store.begin s.disk writable with
  | (none, disk, notices) => { { s with disk }.reply .refused with notices }
  | (some t, disk, notices) =>
    let (replies, more, t) := t.calls calls
    let ending := t.finish finish
    { answer := .ok (.transaction writable replies ending.result)
      session := { s with disk := store.settle disk ending }
      notices := notices ++ more ++ ending.notices }

def afterChange (s : Session) (change : Except StoreError Unit × Disk) : Outcome :=
  { s with disk := change.2 }.reply (match change.1 with
    | .ok () => .done
    | .error e => .storeError e)

/-- A step by another connection to a file, which is ended afterwards. -/
def withDatabase (s : Session) (file : String) (f : Session → Link → Database → Outcome) :
    Outcome :=
  match s.disk.find (s.fullName file) with
  | .error _ => s.reply .noFile
  | .ok p =>
    match s.disk.node p with
    | .file number =>
      let (link, disk) := s.disk.newLink number (some p) false
      let db := disk.seen link
      let s := { s with disk := disk.look link }
      let outcome := if (disk.readFailure link).isSome then s.reply (.storeError .database)
        else f s link db
      let session := outcome.session
      { outcome with session := { session with disk := session.disk.release link } }
    | _ => s.reply .noFile

def withTable (s : Session) (file : String) (f : Session → Link → Database → Table → Outcome) :
    Outcome :=
  s.withDatabase file fun s link db =>
    match db.table with
    | none => s.reply (.storeError .database)
    | some table => f s link db table

def afterOutside (s : Session) (link : Link) (db : Database) : Outcome :=
  let db := { db with changes := db.changes + 1 }
  { s with disk := (s.disk.dropJournal link).fill link.file (.database db) }.reply .done

def putRow (s : Session) (file : String) (row : Row) : Outcome :=
  s.withTable file fun s link db table =>
    if (db.faults.put 0 row.unit).isSome || db.faults.commit true then
      s.reply (.storeError .database)
    else s.afterOutside link { db with table := some (table.put row) }

def decodeRow (row : Row) : Option Hour × Option HourRecord :=
  (match row.unit with
    | .blob bytes => Hour.ofKey? bytes
    | .text _ => none,
   match row.value with
    | .blob bytes => (Codec.decode bytes).toOption
    | .text _ => none)

/-- The rows of a table as the store reads them, unless one has text for its key or value. -/
def dump (s : Session) (table : Table) : Outcome :=
  if table.rows.any fun row => row.unit.isText || row.value.isText then
    s.reply (.storeError .database)
  else s.reply (.decodedRows (table.rows.map decodeRow))

/-- Makes a database refuse what it is asked, until that is taken back or the table goes. -/
def sabotage (s : Session) (file : String) (what : Sabotage) : Outcome :=
  s.withDatabase file fun s link db =>
    if db.table.isNone then
      s.reply (if what = .none || what = .table then .done else .storeError .database)
    else if db.faults.has what then s.reply .done
    else if what = .table then s.afterOutside link { db with table := none, faults := {} }
    else s.afterOutside link { db with faults := db.faults.add what }

def step (s : Session) : Step → Outcome
  | .setClock hour => { s with clock := hour }.reply (.now hour)
  | .addClock hours => { s with clock := s.clock + hours }.reply (.now (s.clock + hours))
  | .launch file days pollMillis => s.launch file days pollMillis
  | .ingest events => s.withEngine fun e => s.ingest e events
  | .query g => s.withEngine fun e => s.query e g
  | .rotate => s.withEngine fun e =>
    let turn := e.rotate s.clock s.disk
    s.afterTurn turn fun rotated => .rotated rotated turn.engine.hour?
  | .configure days => s.withEngine fun e =>
    let (e, notices) := e.configure days
    { { s with engine := some e }.reply (.info e.info) with notices }
  | .info => s.withEngine fun e => s.reply (.info e.info)
  | .clear => s.withEngine s.clear
  | .close => s.withEngine fun e =>
    let turn := e.close s.disk
    s.endTasks.afterTurn turn fun () => .info turn.engine.info
  | .drop => s.withEngine fun _ => s.dropEngine.reply .done
  | .debug => s.withEngine fun e => s.reply (.debug e.debugText)
  | .awaitRotation => s.withEngine s.awaitRotation
  | .spawn pollMillis => s.withEngine fun e => s.spawn e pollMillis
  | .join => s.join
  | .runTask withEngine policy signal => s.runTask withEngine policy signal
  | .storeOpen file => s.storeOpen file
  | .storeClose => s.withStore fun store =>
    let (store, disk, notices) := store.close s.disk
    { { s with store := some store, disk }.reply (.storeState store.isOpen) with notices }
  | .storeReset => s.withStore s.storeReset
  | .storeInfo => s.withStore fun store => s.reply (.storeInfo store.isOpen store.debugText)
  | .load first last => s.withStore fun store =>
    let loading := store.load s.disk first last
    { { s with disk := loading.disk }.reply (.records loading.records) with
      notices := loading.notices }
  | .transaction writable calls finish => s.withStore fun store =>
    s.transaction store writable calls finish
  | .writeFile file text => s.afterChange (s.disk.writeFile (s.fullName file) (Utf8.encode text))
  | .makeDirectory file => s.afterChange (s.disk.makeDirectory (s.fullName file))
  | .remove file => s.afterChange (s.disk.removeAll (s.fullName file))
  | .fileExists file => s.reply (.fileExists !(s.disk.nodeNamed (s.fullName file)).isAbsent)
  | .putRow file row => s.putRow file row
  | .dump file => s.withTable file fun s _ _ table => s.dump table
  | .dumpRaw file => s.withTable file fun s _ _ table => s.reply (.rows table.rows)
  | .sabotage file what => s.sabotage file what

/-- Takes steps one after the other. A step that overflows is the last. -/
def run (s : Session) : List Step → List (Checked Answer × List Notice)
  | [] => []
  | step :: rest =>
    let outcome := s.step step
    (outcome.answer, outcome.notices) ::
      match outcome.answer with
      | .ok _ => outcome.session.run rest
      | .error _ => []

end Session
end QueryTally
