import SourceOrigin.Cache

/-! The two shapes in which a host hands over what it analyses: a node inside a unit, or a unit. Both
carry a cancellation token. -/
namespace SourceOrigin
variable {κ : Type} [DecidableEq κ]

/-- A node of interest; only the unit that it belongs to matters. -/
structure SyntaxNode (κ : Type) where
  document : Option (Document κ)
  kind : Text := []

structure NodeContext (κ : Type) where
  node : Option (SyntaxNode κ)
  token : CancellationToken := {}

structure TreeContext (κ : Type) where
  document : Option (Document κ)
  token : CancellationToken := {}

/-- Whether the unit of the node is generated. `meanwhile` is what other workers do to the cache. -/
def NodeContext.classify (context : NodeContext κ) (cache : Cache κ) (config : Config)
    (meanwhile : Cache κ → Cache κ := id) : CachedClassification κ :=
  cache.classifyDocument config (context.node.bind (·.document)) context.token meanwhile

def TreeContext.classify (context : TreeContext κ) (cache : Cache κ) (config : Config)
    (meanwhile : Cache κ → Cache κ := id) : CachedClassification κ :=
  cache.classifyDocument config context.document context.token meanwhile

end SourceOrigin
