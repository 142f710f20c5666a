import SourceOrigin.Proofs.Cache.Accounting
import SourceOrigin.Proofs.Polling

/-! Calls that are cancelled, and calls that are made again. A call on a unit either takes effect as a whole or leaves the
entries of the cache alone, so however many have been cancelled, the next one finds the cache as the first one did. -/
namespace SourceOrigin
variable {κ : Type} [DecidableEq κ] {config : Config} {units : κ → SyntaxTree} {cache last : Cache κ} {name : κ}

/-! ### A unit with a stored verdict -/

inductive Call.Finds (cache : Cache κ) (document : Document κ) (verdict : Bool) : Call κ → Prop where
  | looking (token : CancellationToken) : cache.get? document.name = some verdict →
      Finds cache document verdict ⟨some document, token, .lookup⟩
  | counting (token : CancellationToken) : Finds cache document verdict ⟨some document, token, .recording (some verdict)⟩
  | finished (token : CancellationToken) : Finds cache document verdict ⟨some document, token, .finished (.ok verdict)⟩

theorem Call.Finds.step {document : Document κ} {verdict : Bool} {call : Call κ}
    (h : call.Finds cache document verdict) (config : Config) :
    (call.step config cache).2.1.Finds (call.step config cache).1 document verdict := by
  cases h with
  | looking token hfound =>
    simp only [Call.step, hfound]
    exact .counting token
  | counting token => exact .finished token
  | finished token => exact .finished token

theorem Call.Finds.advance {document : Document κ} {verdict : Bool} {call : Call κ}
    (h : call.Finds cache document verdict) (config : Config) (steps : Nat) :
    (call.advance config steps cache).2.1.Finds (call.advance config steps cache).1 document verdict := by
  induction steps generalizing call cache with
  | zero => exact h
  | succ steps ih => exact ih (h.step config)

private theorem Call.Finds.stage_ne {document : Document κ} {verdict : Bool} {call : Call κ}
    (h : call.Finds cache document verdict) (pending : List Heuristic) : call.stage ≠ .checking pending := by
  cases h <;> simp

/-! ### One call -/

namespace Request

/-- All kinds of requests come to a classification of the unit through the cache. -/
theorem classify_eq (units : κ → SyntaxTree) (config : Config) (cache : Cache κ) (request : Request κ) :
    request.classify units config cache =
      cache.classifyDocument config (request.unit.map (documentOf units)) request.token := by
  cases request with
  | document unit token => rfl
  | node unit kind token => cases unit <;> rfl
  | tree unit token => rfl

variable {request : Request κ} (hunit : request.unit = some name)
include hunit

private theorem classify_of_stored {verdict : Bool} (h : cache.get? name = some verdict) :
    request.classify units config cache = ⟨.ok verdict, { cache with hits := cache.hits + 1 }, request.token, []⟩ := by
  simp only [classify_eq, hunit, Option.map_some, Cache.classifyDocument, documentOf, h]
  rfl

/-- Without a stored verdict a call counts a miss, and commits what its classification comes to. -/
theorem classify_of_unstored (h : cache.get? name = none) : request.classify units config cache =
    { cache with misses := cache.misses + 1 }.commit (documentOf units name)
      (SourceOrigin.classify config (units name) request.token) := by
  simp only [classify_eq, hunit, Option.map_some, Cache.classifyDocument, documentOf, h]
  rfl

/-- A call that no poll stops returns the verdict and adds one entry. -/
theorem classify_of_passes {verdict : Bool} (hverdict : HasVerdict config (units name) verdict)
    (h : cache.get? name = none) (hpasses : request.token.Passes (pollsBy config (units name) Heuristic.all)) :
    (request.classify units config cache).outcome = .ok verdict ∧
      (request.classify units config cache).cache =
        { cache with entries := cache.entries ++ [(name, verdict)], misses := cache.misses + 1 } := by
  have hdone := classifyBy_of_passes hpasses
  rw [(hasVerdict_iff config (units name) verdict).mp hverdict] at hdone
  have hcontains : Cache.contains { cache with misses := cache.misses + 1 } name = false := by
    rw [Cache.contains]
    exact congrArg Option.isSome h
  rw [classify_of_unstored hunit h, SourceOrigin.classify, hdone]
  obtain ⟨hcache, houtcome⟩ := Cache.commit_ok { cache with misses := cache.misses + 1 } (documentOf units name) verdict
    (request.token.afterPolls (pollsBy config (units name) Heuristic.all)) (logBy config (units name) Heuristic.all)
  refine ⟨houtcome, hcache.trans ?_⟩
  rw [documentOf, Cache.tryAdd, hcontains]
  rfl

/-- A call that a poll stops has counted a miss, and done nothing else to the cache. -/
theorem classify_of_not_passes (h : cache.get? name = none)
    (hpasses : ¬ request.token.Passes (pollsBy config (units name) Heuristic.all)) :
    request.classify units config cache =
      ⟨.error .cancelled, { cache with misses := cache.misses + 1 }, request.token.tripped, []⟩ := by
  rw [classify_of_unstored hunit h, SourceOrigin.classify, classifyBy_of_not_passes hpasses]
  rfl

end Request

/-- What is promised of a call on a unit, whatever the state of the cache. -/
structure Request.IsAtomic (units : κ → SyntaxTree) (config : Config) (cache : Cache κ) (request : Request κ)
    (name : κ) : Prop where
  /-- A stored verdict is returned as it is under every token; there is no poll, and only a hit is counted. -/
  stored : ∀ verdict, cache.get? name = some verdict →
    request.classify units config cache = ⟨.ok verdict, { cache with hits := cache.hits + 1 }, request.token, []⟩
  /-- On its way to a stored verdict the call comes to no heuristic. -/
  direct : ∀ verdict, cache.get? name = some verdict → ∀ steps pending,
    ((request.call units).advance config steps cache).2.1.stage ≠ .checking pending
  /-- Without a stored verdict the call returns that of the classification and adds one entry, or it is cancelled and adds
  none. In both cases a miss is counted, and nothing else is changed. -/
  unstored : cache.get? name = none →
    let done := request.classify units config cache
    (∃ verdict, HasVerdict config (units name) verdict ∧ done.outcome = .ok verdict ∧
      done.cache = { cache with entries := cache.entries ++ [(name, verdict)], misses := cache.misses + 1 }) ∨
    (done.outcome = .error .cancelled ∧ done.token.cancelled = true ∧
      done.cache = { cache with misses := cache.misses + 1 })

theorem Request.isAtomic (hvalid : config.validate = .ok ()) (cache : Cache κ) {request : Request κ}
    (hunit : request.unit = some name) : request.IsAtomic units config cache name := by
  refine ⟨fun verdict hfound => classify_of_stored hunit hfound, fun verdict hfound steps pending => ?_, fun hnone => ?_⟩
  · have hfinds : (request.call units).Finds cache (documentOf units name) verdict := by
      rw [call, hunit]
      exact .looking request.token hfound
    exact (hfinds.advance config steps).stage_ne pending
  · by_cases hpasses : request.token.Passes (pollsBy config (units name) Heuristic.all)
    · obtain ⟨verdict, hverdict⟩ := exists_hasVerdict hvalid (units name)
      exact .inl ⟨verdict, hverdict, classify_of_passes hunit hverdict hnone hpasses⟩
    · rw [classify_of_not_passes hunit hnone hpasses]
      exact .inr ⟨rfl, rfl, rfl⟩

/-! ### Calls one after the other -/

/-- The calls are made one after the other on a cache, and all of them are cancelled. -/
inductive Request.AllCancelled (units : κ → SyntaxTree) (config : Config) : Cache κ → List (Request κ) → Cache κ → Prop where
  | nil (cache : Cache κ) : AllCancelled units config cache [] cache
  | cons {cache last : Cache κ} {request : Request κ} {rest : List (Request κ)} :
      (request.classify units config cache).outcome = .error .cancelled →
      AllCancelled units config (request.classify units config cache).cache rest last →
      AllCancelled units config cache (request :: rest) last

private theorem Request.cache_of_cancelled (hvalid : config.validate = .ok ()) {request : Request κ}
    (h : (request.classify units config cache).outcome = .error .cancelled) :
    (request.classify units config cache).cache = { cache with misses := cache.misses + 1 } := by
  cases hunit : request.unit with
  | none =>
    rw [classify_eq, hunit] at h
    simp [Cache.classifyDocument] at h
  | some name =>
    have hatomic : request.IsAtomic units config cache name := isAtomic hvalid cache hunit
    cases hfound : cache.get? name with
    | some verdict =>
      rw [hatomic.stored verdict hfound] at h
      simp at h
    | none =>
      rcases hatomic.unstored hfound with ⟨verdict, -, houtcome, -⟩ | ⟨-, -, hcache⟩
      · rw [houtcome] at h
        simp at h
      · exact hcache

/-- Calls that are cancelled leave their misses behind, and nothing else. -/
theorem Request.AllCancelled.last_eq (hvalid : config.validate = .ok ()) {requests : List (Request κ)}
    (h : AllCancelled units config cache requests last) :
    last = { cache with misses := cache.misses + requests.length } := by
  induction h with
  | nil cache => rfl
  | @cons cache last request rest hcancelled hrest ih =>
    rw [ih, Request.cache_of_cancelled hvalid hcancelled, List.length_cons, Nat.add_assoc, Nat.add_comm 1]

/-- A cancelled call can be made again. A call on a unit is atomic in every state of the cache. However many calls have been
cancelled, on whatever units, the entries are as before; a call that no poll stops then returns the verdict on its unit and
leaves it stored, unless somebody has stored another one beforehand. -/
theorem Request.classify_reissued (hvalid : config.validate = .ok ()) (units : κ → SyntaxTree) (cache : Cache κ) :
    (∀ (request : Request κ) name, request.unit = some name → request.IsAtomic units config cache name) ∧
    ∀ attempts last, AllCancelled units config cache attempts last →
      last = { cache with misses := cache.misses + attempts.length } ∧
      ∀ (request : Request κ) name, request.unit = some name →
        request.token.Passes (pollsBy config (units name) Heuristic.all) →
        ∃ verdict, HasVerdict config (units name) verdict ∧
          let done := request.classify units config last
          ((∀ stored, cache.get? name = some stored → stored = verdict) →
            done.outcome = .ok verdict ∧ done.cache.get? name = some verdict) ∧
          (cache.get? name = none → done.cache.entries = cache.entries ++ [(name, verdict)]) := by
  refine ⟨fun request name hunit => isAtomic hvalid cache hunit, fun attempts last hattempts => ?_⟩
  have hlast := hattempts.last_eq hvalid
  refine ⟨hlast, fun request name hunit hpasses => ?_⟩
  obtain ⟨verdict, hverdict⟩ := exists_hasVerdict hvalid (units name)
  refine ⟨verdict, hverdict, ?_⟩
  have hget : last.get? name = cache.get? name := by
    rw [hlast]
    rfl
  cases hfound : cache.get? name with
  | some stored =>
    rw [classify_of_stored hunit (hget.trans hfound)]
    refine ⟨fun hagrees => ?_, fun hnone => by simp at hnone⟩
    obtain rfl := hagrees stored rfl
    exact ⟨rfl, hget.trans hfound⟩
  | none =>
    obtain ⟨houtcome, hcache⟩ := classify_of_passes hunit hverdict (hget.trans hfound) hpasses
    have hentries : (request.classify units config last).cache.entries = cache.entries ++ [(name, verdict)] := by
      rw [hcache, hlast]
    refine ⟨fun _ => ⟨houtcome, ?_⟩, fun _ => hentries⟩
    have hbefore : cache.entries.lookup name = none := hfound
    rw [Cache.get?, hentries, List.lookup_append, hbefore, Option.none_or, List.lookup_cons_self]

/-- Two calls on the same unit are cancelled, one before and one between its heuristics; a third call on it is not. -/
theorem Request.classify_reissued_marked :
    let units : Nat → SyntaxTree := fun _ => ⟨none, none, none, .endOfFile, [], [⟨.lineComment, "// <autogenerated>".toList⟩]⟩
    let attempts : List (Request Nat) := [.document (some 0) ⟨0, true, none⟩, .node (some (some 0)) [] ⟨0, false, some 2⟩]
    let request : Request Nat := .tree (some 0) ⟨0, false, some 3⟩
    Config.validate {} = .ok () ∧ AllCancelled units {} {} attempts { misses := 2 } ∧ request.unit = some 0 ∧
      request.token.Passes (pollsBy {} (units 0) Heuristic.all) ∧
      (request.classify units {} { misses := 2 }).outcome = .ok true ∧
      (request.classify units {} { misses := 2 }).cache.entries = [(0, true)] := by
  have hvalid := Config.validate_default
  intro units attempts request
  have hcomment : hasGeneratedComment {} (units 0) = true := by decide +kernel
  obtain ⟨houtcome, hpolls⟩ := @outcomeBy_all {} (units 0) false rfl
  rw [hcomment] at houtcome hpolls
  have hfirst : Request.classify units {} {} (.document (some 0) ⟨0, true, none⟩) =
      ⟨.error .cancelled, { misses := 1 }, ⟨1, true, none⟩, []⟩ := rfl
  have hsecond : Request.classify units {} { misses := 1 } (.node (some (some 0)) [] ⟨0, false, some 2⟩) =
      ⟨.error .cancelled, { misses := 2 }, ⟨2, true, some 2⟩, []⟩ := rfl
  have hattempts : AllCancelled units {} {} attempts { misses := 2 } := by
    refine .cons (by rw [hfirst]) ?_
    rw [hfirst]
    refine .cons (by rw [hsecond]) ?_
    rw [hsecond]
    exact .nil _
  have hpasses : request.token.Passes (pollsBy {} (units 0) Heuristic.all) := by
    rw [hpolls]
    exact (CancellationToken.passes_iff (by decide)).mpr ⟨rfl, by simp [request, Request.token]⟩
  obtain ⟨-, hreissued⟩ := classify_reissued hvalid units {}
  obtain ⟨verdict, hverdict, hdone⟩ := (hreissued attempts _ hattempts).2 request 0 rfl hpasses
  obtain rfl : true = verdict := by
    have hsame := houtcome.symm.trans ((hasVerdict_iff {} (units 0) verdict).mp hverdict)
    exact Except.ok.inj hsame
  obtain ⟨hreturns, hstores⟩ := hdone
  exact ⟨hvalid, hattempts, rfl, hpasses, (hreturns (by simp [Cache.get?])).1, hstores rfl⟩

end SourceOrigin
