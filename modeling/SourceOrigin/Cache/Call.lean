import SourceOrigin.Cache

/-! A call for a document's verdict as a sequence of atomic steps, between which other workers may
act. Left alone, a call does what `Cache.classifyDocument` does (`advance_eq_classifyDocument`). -/
namespace SourceOrigin

inductive CallStage where
  | lookup
  | recording (found : Option Bool)
  | checking (pending : List Heuristic)
  | committing (verdict : Bool)
  | finished (outcome : Except ClassifyError Bool)

structure Call (κ : Type) where
  document : Option (Document κ)
  token : CancellationToken
  stage : CallStage := .lookup

namespace Call
variable {κ : Type} [DecidableEq κ]

/-- One atomic step: a lookup, a count, a poll with the heuristic behind it, or a commit. A call
without a document has nothing to do. -/
def step (config : Config) (cache : Cache κ) (call : Call κ) : Cache κ × Call κ × Log :=
  match call.document with
  | none => (cache, { call with stage := .finished (.ok false) }, [])
  | some document =>
    match call.stage with
    | .lookup => (cache, { call with stage := .recording (cache.get? document.name) }, [])
    | .recording (some verdict) =>
      (cache.recordLookup true, { call with stage := .finished (.ok verdict) }, [])
    | .recording none =>
      (cache.recordLookup false, { call with stage := .checking Heuristic.all }, [])
    | .checking [] => (cache, { call with stage := .committing false }, [])
    | .checking (heuristic :: rest) =>
      let token := call.token.poll
      if token.cancelled then
        (cache, { call with token, stage := .finished (.error .cancelled) }, [])
      else match heuristic.holds config document.tree with
        | .error error =>
          (cache, { call with token, stage := .finished (.error (.badPattern error)) }, [])
        | .ok true =>
          (cache, { call with token, stage := .committing true }, [heuristic.record document.tree])
        | .ok false => (cache, { call with token, stage := .checking rest }, [])
    | .committing verdict =>
      let done := cache.commit document ⟨.ok verdict, call.token, []⟩
      (done.cache, { call with stage := .finished done.outcome }, done.log)
    | .finished _ => (cache, call, [])

def advance (config : Config) : Nat → Cache κ → Call κ → Cache κ × Call κ × Log
  | 0, cache, call => (cache, call, [])
  | n + 1, cache, call =>
    let (cache, call, log) := call.step config cache
    let (cache, call, later) := advance config n cache call
    (cache, call, log ++ later)

def ofResult (document : Option (Document κ)) (result : CachedClassification κ) :
    Cache κ × Call κ × Log :=
  (result.cache, ⟨document, result.token, .finished result.outcome⟩, result.log)

theorem advance_finished (config : Config) (n : Nat) (cache : Cache κ)
    (document : Option (Document κ)) (token : CancellationToken) (outcome : Except ClassifyError Bool)
    (h : document = none → outcome = .ok false) :
    advance config n cache ⟨document, token, .finished outcome⟩ =
      (cache, ⟨document, token, .finished outcome⟩, []) := by
  induction n with
  | zero => rfl
  | succ n ih =>
    cases document with
    | none => simp_all [advance, step]
    | some document => simp_all [advance, step]

private theorem advance_committing (config : Config) (cache : Cache κ) (document : Document κ)
    (token : CancellationToken) (verdict : Bool) (n : Nat) :
    advance config (n + 1) cache ⟨some document, token, .committing verdict⟩ =
      ofResult (some document) (cache.commit document ⟨.ok verdict, token, []⟩) := by
  have htoken : (cache.commit document ⟨.ok verdict, token, []⟩).token = token := by
    simp only [Cache.commit]; split <;> rfl
  simp [advance, step, ofResult, advance_finished, htoken]

private theorem commit_log (cache : Cache κ) (document : Document κ) (verdict : Bool)
    (token : CancellationToken) (log : Log) :
    cache.commit document ⟨.ok verdict, token, log⟩ =
      { cache.commit document ⟨.ok verdict, token, []⟩ with
        log := log ++ (cache.commit document ⟨.ok verdict, token, []⟩).log } := by
  simp only [Cache.commit]
  split <;> simp

private theorem advance_checking (config : Config) (cache : Cache κ) (document : Document κ)
    (pending : List Heuristic) (token : CancellationToken) (n : Nat) :
    advance config (n + pending.length + 2) cache ⟨some document, token, .checking pending⟩ =
      ofResult (some document)
        (cache.commit document (classifyBy config document.tree token pending)) := by
  induction pending generalizing token with
  | nil =>
    rw [List.length_nil, Nat.add_zero, advance]
    simp only [step, classifyBy, advance_committing, List.nil_append, ofResult]
  | cons heuristic rest ih =>
    rw [show n + (heuristic :: rest).length + 2 = (n + rest.length + 2) + 1 by simp; omega, advance]
    simp only [step, classifyBy]
    by_cases hcancelled : token.poll.cancelled = true
    · simp [hcancelled, advance_finished, ofResult, Cache.commit]
    simp only [hcancelled, Bool.false_eq_true, if_false]
    cases heuristic.holds config document.tree with
    | error error => simp [advance_finished, ofResult, Cache.commit]
    | ok sign =>
      cases sign with
      | false => simp [ih, ofResult]
      | true =>
        simp only [advance_committing, ofResult]
        rw [commit_log cache document true token.poll [heuristic.record document.tree]]

/-- A call that no other worker disturbs ends, within seven steps, as the classification through the
cache does. -/
theorem advance_eq_classifyDocument (config : Config) (cache : Cache κ)
    (document : Option (Document κ)) (token : CancellationToken) :
    advance config 7 cache ⟨document, token, .lookup⟩ =
      ofResult document (cache.classifyDocument config document token) := by
  cases document with
  | none => simp [advance, step, ofResult, Cache.classifyDocument]
  | some document =>
    have hlookup : advance config 7 cache ⟨some document, token, .lookup⟩ =
        advance config 6 cache ⟨some document, token, .recording (cache.get? document.name)⟩ := rfl
    rw [hlookup]
    cases hfound : cache.get? document.name with
    | some verdict =>
      simp [advance, step, hfound, ofResult, Cache.classifyDocument]
    | none =>
      have hrecord : advance config 6 cache ⟨some document, token, .recording none⟩ =
          advance config (0 + Heuristic.all.length + 2) (cache.recordLookup false)
            ⟨some document, token, .checking Heuristic.all⟩ := rfl
      rw [hrecord, advance_checking]
      simp [Cache.classifyDocument, hfound, classify]

end Call

end SourceOrigin
