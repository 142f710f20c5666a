import SourceOrigin.AnalysisContext
import SourceOrigin.Session.UnitTable

/-! Sessions: one cache, one token and one table of loaded units, kept from operation to operation.
Operations are functions from session to session; an operation that fails keeps what it did before. -/
namespace SourceOrigin

inductive SessionError where
  | classify (error : ClassifyError)
  | load (error : LoadError)
  | interrupted
  deriving DecidableEq, Repr

structure Session where
  config : Config
  token : CancellationToken := {}
  cache : Cache UnitId := {}
  units : UnitTable := {}

structure SessionResult (α : Type) where
  outcome : Except SessionError α
  session : Session
  log : Log := []

structure SessionStats where
  cache : CacheStats
  unitsLoaded : Nat
  deriving DecidableEq, Repr

namespace Session

/-- A new session. Without a configuration it takes that of the environment; a bad one is refused. -/
def start (environment : Environment) (config : Option Config) (token : CancellationToken) :
    Except ValidationError Session :=
  match config.map Except.ok |>.getD ((Config.ofEnvironment environment).mapError .refused) with
  | .error error => .error error
  | .ok config =>
    match config.validate with
    | .error error => .error error
    | .ok () => .ok { config, token }

/-- The session with a unit that the host made itself, which is not entered under any location. -/
def adopt (session : Session) (tree : SyntaxTree) : Session × Document UnitId :=
  let (units, id) := session.units.reserve
  ({ session with units }, ⟨id, tree⟩)

/-- The unit of a path. All paths to one file have one unit, which is read once. -/
def load (session : Session) (files : FileTree) (path : Path) : SessionResult LoadedUnit :=
  match files.resolutionError? path with
  | some error => ⟨.error (.load error), session, []⟩
  | none =>
    let (units, outcome) :=
      session.units.load files session.config.sourceEncoding (files.resolve path)
    ⟨outcome.mapError .load, { session with units }, []⟩

def absorb (session : Session) (done : CachedClassification UnitId) : SessionResult Bool :=
  ⟨done.outcome.mapError .classify, { session with cache := done.cache, token := done.token }, done.log⟩

def classify (session : Session) (document : Option (Document UnitId)) : SessionResult Bool :=
  let context : TreeContext UnitId := ⟨document, session.token⟩
  session.absorb (context.classify session.cache session.config)

def classifyNode (session : Session) (node : Option (SyntaxNode UnitId)) : SessionResult Bool :=
  let context : NodeContext UnitId := ⟨node, session.token⟩
  session.absorb (context.classify session.cache session.config)

def classifyPath (session : Session) (files : FileTree) (path : Path) : SessionResult Bool :=
  let loaded := session.load files path
  match loaded.outcome with
  | .error error => ⟨.error error, loaded.session, loaded.log⟩
  | .ok unit =>
    let done := loaded.session.classify (some unit.document)
    ⟨done.outcome, done.session, loaded.log ++ done.log⟩

def cancel (session : Session) : SessionResult Unit :=
  ⟨.ok (), { session with token := session.token.cancel },
    [⟨.info, .session, "Cancellation requested".toList⟩]⟩

def close (session : Session) : Session :=
  { session with cache := session.cache.clear, units := session.units.clear }

def stats (session : Session) : SessionStats := ⟨session.cache.stats, session.units.size⟩

end Session

end SourceOrigin
