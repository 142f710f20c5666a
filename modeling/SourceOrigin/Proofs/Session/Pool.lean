import SourceOrigin.Cache.Call
import SourceOrigin.Session.Scan

/-! A scan by a pool of workers that share the session. A free worker takes the next file of the list and works on it
by atomic steps; the outcomes are collected as they come. A list of events says who acts when, so a theorem about every
list of events is one about every interleaving and every order in which the files are finished. -/
namespace SourceOrigin

/-- How far a file of a scan has come. -/
inductive JobStage where
  | waiting
  | starting
  | loading (stage : LoadStage)
  | classifying (unit : LoadedUnit) (stage : CallStage)
  | finished (outcome : Except SessionError Bool)
  | delivered (outcome : Except SessionError Bool)
  | dropped

namespace JobStage

def isRunning : JobStage → Bool
  | starting | loading _ | classifying _ _ => true
  | _ => false

def isWaiting : JobStage → Bool
  | waiting => true
  | _ => false

def isDelivered : JobStage → Bool
  | delivered _ => true
  | _ => false

def afterLoading : LoadStage → JobStage
  | .finished (.ok unit) => .classifying unit .lookup
  | .finished (.error error) => .finished (.error (.load error))
  | stage => .loading stage

def afterClassifying (unit : LoadedUnit) : CallStage → JobStage
  | .finished outcome => .finished (outcome.mapError .classify)
  | stage => .classifying unit stage

end JobStage

structure Job where
  path : Path
  stage : JobStage := .waiting

/-- One atomic step of the worker on a file: the poll at its start, a step of loading, or a step of the call for the
verdict. -/
def Job.step (files : FileTree) (session : Session) (job : Job) : Session × Job :=
  match job.stage with
  | .starting =>
    let session := { session with token := session.token.poll }
    if session.token.cancelled then (session, { job with stage := .finished (.error (.classify .cancelled)) })
    else match files.resolutionError? job.path with
      | some error => (session, { job with stage := .finished (.error (.load error)) })
      | none => (session, { job with stage := .loading .lookup })
  | .loading stage =>
    let (units, call) :=
      LoadCall.step files session.config.sourceEncoding session.units ⟨files.resolve job.path, stage⟩
    ({ session with units }, { job with stage := .afterLoading call.stage })
  | .classifying unit stage =>
    let (cache, call, _) := Call.step session.config session.cache ⟨some unit.document, session.token, stage⟩
    ({ session with cache, token := call.token }, { job with stage := .afterClassifying unit call.stage })
  | _ => (session, job)

/-- A scan under way: the session, the files in the order of the list, and the outcomes collected so far. -/
structure Pool where
  session : Session
  jobs : List Job
  collected : List (Path × Except SessionError Bool) := []
  interrupted : Bool := false

/-- A free worker takes the next file, the worker on a file makes a step, the outcome of a file is collected, a file that
still waits is dropped; and somebody cancels the session, or the user interrupts the scan. -/
inductive PoolEvent where
  | start
  | step (position : Nat)
  | collect (position : Nat)
  | drop (position : Nat)
  | cancel
  | interrupt
  deriving DecidableEq, Repr

namespace Pool

def start (session : Session) (paths : List Path) : Pool := { session, jobs := paths.map fun path => { path } }

/-- What has ended the collecting before all outcomes were there. -/
def failure? (pool : Pool) : Option SessionError :=
  if pool.interrupted then some .interrupted else (Tally.collect {} pool.collected).2

def isDropping : SessionError → Bool
  | .interrupted | .classify .cancelled => true
  | _ => false

def put (pool : Pool) (position : Nat) (path : Path) (stage : JobStage) : Pool :=
  { pool with jobs := pool.jobs.set position ⟨path, stage⟩ }

def next (files : FileTree) (pool : Pool) : PoolEvent → Pool
  | .start =>
    match pool.jobs.findIdx? (·.stage.isWaiting) with
    | none => pool
    | some position =>
      if (pool.jobs.countP (·.stage.isRunning) : Int) < pool.session.config.maxWorkers then
        { pool with jobs := pool.jobs.modify position fun job => { job with stage := .starting } }
      else pool
  | .step position =>
    match pool.jobs[position]? with
    | none => pool
    | some job =>
      let (session, job) := job.step files pool.session
      { pool with session, jobs := pool.jobs.set position job }
  | .collect position =>
    match pool.failure?, pool.jobs[position]? with
    | none, some ⟨path, .finished outcome⟩ =>
      { pool.put position path (.delivered outcome) with collected := pool.collected ++ [(path, outcome)] }
    | _, _ => pool
  | .drop position =>
    match pool.failure?, pool.jobs[position]? with
    | some error, some ⟨path, .waiting⟩ => if isDropping error then pool.put position path .dropped else pool
    | _, _ => pool
  | .cancel => { pool with session := pool.session.cancel.session }
  | .interrupt =>
    if pool.failure?.isSome || pool.jobs.all (·.stage.isDelivered) then pool
    else { pool with session := pool.session.cancel.session, interrupted := true }

def run (files : FileTree) (pool : Pool) (events : List PoolEvent) : Pool := events.foldl (next files) pool

/-- What the scan comes to, once no worker is at work any more and no file waits for one. -/
def outcome? (pool : Pool) (root : Text) : Option (Except SessionError ScanResult) :=
  if pool.jobs.any fun job => job.stage.isWaiting || job.stage.isRunning then none
  else match pool.failure? with
    | some error => some (.error error)
    | none =>
      if pool.jobs.all (·.stage.isDelivered) then
        some (.ok ((Tally.collect {} pool.collected).1.report pool.jobs.length root))
      else none

end Pool

end SourceOrigin
