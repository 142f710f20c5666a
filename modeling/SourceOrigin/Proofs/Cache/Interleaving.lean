import SourceOrigin.AnalysisContext
import SourceOrigin.Cache.Call

/-! Workers that share one cache. Each works off its calls in order, one atomic step at a time, and a schedule
says whose turn it is; any call may be cancelled between any two steps. A theorem about every schedule is a
theorem about every interleaving. -/
namespace SourceOrigin
variable {κ : Type}

/-- A unit together with its name. Names stand for object identity, so a name has one content. -/
def documentOf (units : κ → SyntaxTree) (name : κ) : Document κ := ⟨name, units name⟩

/-- What a host asks for: a verdict on a unit, on the unit of a node, or on the unit of a context, each under a
token of its own. The unit may be missing, and so may the node. -/
inductive Request (κ : Type) where
  | document (unit : Option κ) (token : CancellationToken)
  | node (unit : Option (Option κ)) (kind : Text) (token : CancellationToken)
  | tree (unit : Option κ) (token : CancellationToken)

namespace Request

def unit : Request κ → Option κ
  | document unit _ => unit
  | node unit _ _ => unit.join
  | tree unit _ => unit

def token : Request κ → CancellationToken
  | document _ token => token
  | node _ _ token => token
  | tree _ token => token

def call (units : κ → SyntaxTree) (request : Request κ) : Call κ :=
  ⟨request.unit.map (documentOf units), request.token, .lookup⟩

variable [DecidableEq κ]

def classify (units : κ → SyntaxTree) (config : Config) (cache : Cache κ) :
    Request κ → CachedClassification κ
  | document unit token => cache.classifyDocument config (unit.map (documentOf units)) token
  | node unit kind token =>
    NodeContext.classify ⟨unit.map fun unit => ⟨unit.map (documentOf units), kind⟩, token⟩ cache config
  | tree unit token => TreeContext.classify ⟨unit.map (documentOf units), token⟩ cache config

/-- The steps of the call, one after the other, come to the same. -/
theorem advance_call (units : κ → SyntaxTree) (config : Config) (cache : Cache κ) (request : Request κ) :
    (request.call units).advance config 7 cache =
      Call.ofResult (request.unit.map (documentOf units)) (request.classify units config cache) := by
  rw [call, Call.advance_eq_classifyDocument]
  cases request with
  | document unit token => rfl
  | node unit kind token => cases unit <;> rfl
  | tree unit token => rfl

end Request

namespace Call

def outcome? (call : Call κ) : Option (Except ClassifyError Bool) :=
  match call.stage with
  | .finished outcome => some outcome
  | _ => none

theorem stage_of_outcome? {call : Call κ} {outcome : Except ClassifyError Bool}
    (h : call.outcome? = some outcome) : call.stage = .finished outcome := by
  unfold outcome? at h
  split at h
  · next hstage => rw [hstage, Option.some.inj h]
  · simp at h

def hasLooked (call : Call κ) : Bool :=
  call.document.isSome &&
    match call.stage with
    | .lookup | .recording _ => false
    | _ => true

end Call

structure Task (κ : Type) where
  worker : Nat
  call : Call κ

/-- The cache, and the calls of all workers. Those of one worker stand in the order in which it makes them. -/
structure System (κ : Type) where
  cache : Cache κ := {}
  tasks : List (Task κ)

/-- A worker gets its turn, or somebody cancels a call. -/
inductive Event where
  | turn (worker : Nat)
  | cancel (task : Nat)
  deriving DecidableEq, Repr

namespace System

def start (units : κ → SyntaxTree) (requests : List (Nat × Request κ)) : System κ :=
  { tasks := requests.map fun (worker, request) => ⟨worker, request.call units⟩ }

def current? (system : System κ) (worker : Nat) : Option Nat :=
  system.tasks.findIdx? fun task => task.worker = worker && task.call.outcome?.isNone

def outcome? (system : System κ) (task : Nat) : Option (Except ClassifyError Bool) :=
  system.tasks[task]?.bind (·.call.outcome?)

variable [DecidableEq κ]

def step (config : Config) (system : System κ) (task : Nat) : System κ :=
  match system.tasks[task]? with
  | none => system
  | some { worker, call } =>
    let (cache, call, _) := call.step config system.cache
    ⟨cache, system.tasks.set task ⟨worker, call⟩⟩

def cancel (system : System κ) (task : Nat) : System κ :=
  match system.tasks[task]? with
  | none => system
  | some { worker, call } =>
    { system with tasks := system.tasks.set task ⟨worker, { call with token := call.token.cancel }⟩ }

/-- What an event makes of the system. A worker without calls to make does nothing. -/
def next (config : Config) (system : System κ) : Event → System κ
  | .turn worker =>
    match system.current? worker with
    | none => system
    | some task => system.step config task
  | .cancel task => system.cancel task

def run (config : Config) (system : System κ) (events : List Event) : System κ :=
  events.foldl (next config) system

def reached (config : Config) (units : κ → SyntaxTree) (requests : List (Nat × Request κ))
    (events : List Event) : System κ :=
  (start units requests).run config events

theorem reached_append (config : Config) (units : κ → SyntaxTree) (requests : List (Nat × Request κ))
    (events more : List Event) :
    reached config units requests (events ++ more) = (reached config units requests events).run config more :=
  List.foldl_append

end System

end SourceOrigin
