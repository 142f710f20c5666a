import SourceOrigin.Classification

/-! The classification cache: verdicts by unit, of which the first one committed stays, and the
classification of a document through it. -/
namespace SourceOrigin

/-- A unit under a name of its own, by which the cache knows it. -/
structure Document (κ : Type) where
  name : κ
  tree : SyntaxTree
  deriving DecidableEq, Repr

/-- Verdicts in the order in which they were committed, and the tally of lookups. Units are told
apart by name, never by content, so equal units may have different verdicts. -/
structure Cache (κ : Type) where
  entries : List (κ × Bool) := []
  hits : Nat := 0
  misses : Nat := 0
  deriving DecidableEq, Repr

structure CacheStats where
  entries : Nat
  generated : Nat
  hits : Nat
  misses : Nat
  deriving DecidableEq, Repr

namespace Cache
variable {κ : Type} [DecidableEq κ]

def get? (cache : Cache κ) (unit : κ) : Option Bool := cache.entries.lookup unit

def contains (cache : Cache κ) (unit : κ) : Bool := (cache.get? unit).isSome

def size (cache : Cache κ) : Nat := cache.entries.length

def tryAdd (cache : Cache κ) (unit : κ) (verdict : Bool) : Cache κ × Bool :=
  if cache.contains unit then (cache, false)
  else ({ cache with entries := cache.entries ++ [(unit, verdict)] }, true)

def clear (_ : Cache κ) : Cache κ := {}

def recordLookup (cache : Cache κ) (hit : Bool) : Cache κ :=
  if hit then { cache with hits := cache.hits + 1 } else { cache with misses := cache.misses + 1 }

def stats (cache : Cache κ) : CacheStats :=
  ⟨cache.size, cache.entries.countP (·.2), cache.hits, cache.misses⟩

end Cache

structure CachedClassification (κ : Type) where
  outcome : Except ClassifyError Bool
  cache : Cache κ
  token : CancellationToken
  log : Log := []

namespace Cache
variable {κ : Type} [DecidableEq κ]

/-- Stores the verdict of a finished classification. The verdict of another worker that was faster
stays, and is not looked at. -/
def commit (cache : Cache κ) (document : Document κ) (done : Classified) : CachedClassification κ :=
  match done.outcome with
  | .error error => ⟨.error error, cache, done.token, done.log⟩
  | .ok verdict =>
    match cache.tryAdd document.name verdict with
    | (cache, true) => ⟨.ok verdict, cache, done.token, done.log⟩
    | (cache, false) =>
      let lost : LogRecord :=
        ⟨.debug, .cache,
          shownPath document.tree.filePath ++ ": verdict already cached by another worker".toList⟩
      ⟨.ok verdict, cache, done.token, done.log ++ [lost]⟩

/-- Whether a document is generated. A stored verdict is returned without a poll; otherwise the unit
is classified and the verdict stored. `meanwhile` is what other workers do to the cache between the
lookup and the commit. No document at all is not generated. -/
def classifyDocument (cache : Cache κ) (config : Config) (document : Option (Document κ))
    (token : CancellationToken) (meanwhile : Cache κ → Cache κ := id) : CachedClassification κ :=
  match document with
  | none => ⟨.ok false, cache, token, []⟩
  | some document =>
    match cache.get? document.name with
    | some verdict => ⟨.ok verdict, cache.recordLookup true, token, []⟩
    | none =>
      (meanwhile (cache.recordLookup false)).commit document (classify config document.tree token)

/-- Classifies documents one after the other, each under a token of its own. The first error is the
outcome, but the others are still classified. -/
def classifyAll (cache : Cache κ) (config : Config) :
    List (Option (Document κ)) → Except ClassifyError (List Bool) × Cache κ × Log
  | [] => (.ok [], cache, [])
  | document :: rest =>
    let first := cache.classifyDocument config document {}
    let (others, cache, log) := first.cache.classifyAll config rest
    let outcome :=
      match first.outcome, others with
      | .error error, _ => .error error
      | .ok _, .error error => .error error
      | .ok verdict, .ok verdicts => .ok (verdict :: verdicts)
    (outcome, cache, first.log ++ log)

end Cache

end SourceOrigin
