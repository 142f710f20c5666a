import SourceOrigin.Proofs.Cache.Interleaving

/-! What one event can do: it moves at most one call by one step, and the cache along with it. All invariants of
a system are shown by cases on these moves. -/
namespace SourceOrigin
variable {κ : Type} [DecidableEq κ]

/-- One step of a call on the given unit, from a stage to a stage and to a cache. A cancellation leaves both as
they are. -/
inductive Moves (config : Config) (cache : Cache κ) :
    Option (Document κ) → CallStage → Cache κ → CallStage → Prop where
  | stays (document : Option (Document κ)) (stage : CallStage) : Moves config cache document stage cache stage
  | answers {stage : CallStage} : (∀ outcome, stage ≠ .finished outcome) →
      Moves config cache none stage cache (.finished (.ok false))
  | looksUp (document : Document κ) :
      Moves config cache (some document) .lookup cache (.recording (cache.get? document.name))
  | hits (document : Document κ) (verdict : Bool) :
      Moves config cache (some document) (.recording (some verdict)) (cache.recordLookup true)
        (.finished (.ok verdict))
  | misses (document : Document κ) :
      Moves config cache (some document) (.recording none) (cache.recordLookup false) (.checking Heuristic.all)
  | concludes (document : Document κ) :
      Moves config cache (some document) (.checking []) cache (.committing false)
  | stops (document : Document κ) (heuristic : Heuristic) (rest : List Heuristic) :
      Moves config cache (some document) (.checking (heuristic :: rest)) cache (.finished (.error .cancelled))
  | fails {document : Document κ} {heuristic : Heuristic} {error : PatternError} (rest : List Heuristic) :
      heuristic.holds config document.tree = .error error →
      Moves config cache (some document) (.checking (heuristic :: rest)) cache
        (.finished (.error (.badPattern error)))
  | finds {document : Document κ} {heuristic : Heuristic} (rest : List Heuristic) :
      heuristic.holds config document.tree = .ok true →
      Moves config cache (some document) (.checking (heuristic :: rest)) cache (.committing true)
  | passes {document : Document κ} {heuristic : Heuristic} (rest : List Heuristic) :
      heuristic.holds config document.tree = .ok false →
      Moves config cache (some document) (.checking (heuristic :: rest)) cache (.checking rest)
  | commits (document : Document κ) (verdict : Bool) :
      Moves config cache (some document) (.committing verdict) (cache.tryAdd document.name verdict).1
        (.finished (.ok verdict))

/-- A commit adds an entry at the end, or nothing. -/
theorem Cache.entries_tryAdd (cache : Cache κ) (name : κ) (verdict : Bool) :
    (cache.tryAdd name verdict).1.entries = cache.entries ∨
      cache.contains name = false ∧ (cache.tryAdd name verdict).1.entries = cache.entries ++ [(name, verdict)] := by
  unfold tryAdd
  cases hcontains : cache.contains name with
  | true => exact .inl rfl
  | false => exact .inr ⟨rfl, rfl⟩

/-- A verdict is returned whether it is stored or not. -/
theorem Cache.commit_ok (cache : Cache κ) (document : Document κ) (verdict : Bool) (token : CancellationToken)
    (log : Log) :
    (cache.commit document ⟨.ok verdict, token, log⟩).cache = (cache.tryAdd document.name verdict).1 ∧
      (cache.commit document ⟨.ok verdict, token, log⟩).outcome = .ok verdict := by
  rcases hadd : cache.tryAdd document.name verdict with ⟨after, _ | _⟩
  all_goals simp [Cache.commit, hadd]

/-- A commit returns what the classification came to, and keeps its token. -/
theorem Cache.commit_outcome_token (cache : Cache κ) (document : Document κ)
    (done : Classified) :
    (cache.commit document done).outcome = done.outcome ∧ (cache.commit document done).token = done.token := by
  obtain ⟨outcome, token, log⟩ := done
  cases outcome with
  | error error => exact ⟨rfl, rfl⟩
  | ok verdict =>
    simp only [commit]
    split <;> exact ⟨rfl, rfl⟩

section
variable {config : Config} {cache after : Cache κ} {document : Option (Document κ)} {stage stage' : CallStage}

/-- A move adds an entry at the end if the call comes to that value, and changes no entry otherwise. -/
theorem Moves.entries (h : Moves config cache document stage after stage') :
    after.entries = cache.entries ∨
      ∃ name verdict, stage' = .finished (.ok verdict) ∧ after.entries = cache.entries ++ [(name, verdict)] := by
  cases h with
  | commits document verdict =>
    rcases cache.entries_tryAdd document.name verdict with hentries | ⟨-, hentries⟩
    · exact .inl hentries
    · exact .inr ⟨_, _, rfl, hentries⟩
  | _ => exact .inl rfl

theorem Moves.finished {outcome : Except ClassifyError Bool}
    (h : Moves config cache document (.finished outcome) after stage') : stage' = .finished outcome := by
  cases h with
  | stays => rfl
  | answers hunfinished => exact absurd rfl (hunfinished outcome)

theorem Moves.cache_of_none (h : Moves config cache none stage after stage') : after = cache := by
  cases h <;> rfl

end

theorem Call.step_moves (config : Config) (cache : Cache κ) {call : Call κ} (h : call.outcome? = none) :
    (call.step config cache).2.1.document = call.document ∧
      Moves config cache call.document call.stage (call.step config cache).1 (call.step config cache).2.1.stage := by
  obtain ⟨document, token, stage⟩ := call
  cases document with
  | none =>
    refine ⟨rfl, .answers ?_⟩
    rintro outcome rfl
    simp [outcome?] at h
  | some document =>
    cases stage with
    | lookup => exact ⟨rfl, .looksUp document⟩
    | recording found =>
      cases found with
      | none => exact ⟨rfl, .misses document⟩
      | some verdict => exact ⟨rfl, .hits document verdict⟩
    | checking pending =>
      cases pending with
      | nil => exact ⟨rfl, .concludes document⟩
      | cons heuristic rest =>
        simp only [step]
        split
        · exact ⟨rfl, .stops document heuristic rest⟩
        split
        · next error hfails => exact ⟨rfl, .fails rest hfails⟩
        · next hfinds => exact ⟨rfl, .finds rest hfinds⟩
        · next hpasses => exact ⟨rfl, .passes rest hpasses⟩
    | committing verdict =>
      simp only [step, cache.commit_ok document verdict token [], true_and]
      exact .commits document verdict
    | finished outcome => simp [outcome?] at h

namespace System

def MovesAt (config : Config) (system : System κ) (position : Nat) (after : System κ) : Prop :=
  ∃ task call cache, system.tasks[position]? = some task ∧ call.document = task.call.document ∧
    Moves config system.cache task.call.document task.call.stage cache call.stage ∧
    after = ⟨cache, system.tasks.set position ⟨task.worker, call⟩⟩

/-- On its turn a worker moves the call that it has come to. -/
theorem next_turn (config : Config) {system : System κ} {worker position : Nat}
    (h : system.current? worker = some position) :
    system.MovesAt config position (system.next config (.turn worker)) := by
  obtain ⟨hlt, hcurrent, -⟩ := List.findIdx?_eq_some_iff_getElem.mp h
  have hread : system.tasks[position]? = some system.tasks[position] := List.getElem?_eq_getElem hlt
  have hunfinished : system.tasks[position].call.outcome? = none := by
    simpa using (Bool.and_eq_true_iff.mp hcurrent).2
  obtain ⟨hdocument, hmoves⟩ := Call.step_moves config system.cache hunfinished
  refine ⟨_, _, _, hread, hdocument, hmoves, ?_⟩
  simp only [next, h, step, hread]

/-- An event moves one call, or nothing. -/
theorem next_moves (config : Config) (system : System κ) (event : Event) :
    system.next config event = system ∨ ∃ position, system.MovesAt config position (system.next config event) := by
  cases event with
  | turn worker =>
    cases hcurrent : system.current? worker with
    | none => exact .inl (by simp only [next, hcurrent])
    | some position => exact .inr ⟨position, next_turn config hcurrent⟩
  | cancel position =>
    cases hread : system.tasks[position]? with
    | none => exact .inl (by simp only [next, cancel, hread])
    | some task =>
      refine .inr ⟨position, task, { task.call with token := task.call.token.cancel }, system.cache, hread, rfl,
        .stays _ _, ?_⟩
      simp only [next, cancel, hread]

section
variable {config : Config} {system after : System κ} {position : Nat}

theorem MovesAt.entries_prefix (h : system.MovesAt config position after) :
    system.cache.entries <+: after.cache.entries := by
  obtain ⟨task, call, cache, -, -, hmoves, rfl⟩ := h
  rcases hmoves.entries with hentries | ⟨name, verdict, -, hentries⟩
  · exact (congrArg (system.cache.entries <+: ·) hentries).mpr List.prefix_rfl
  · exact ⟨_, hentries.symm⟩

/-- A move that changes the entries is one by which the call comes to a value. -/
theorem MovesAt.entries_eq (h : system.MovesAt config position after)
    (hvalue : ∀ verdict, after.outcome? position ≠ some (.ok verdict)) :
    after.cache.entries = system.cache.entries := by
  obtain ⟨task, call, cache, hread, -, hmoves, rfl⟩ := h
  rcases hmoves.entries with hentries | ⟨name, verdict, hstage, -⟩
  · exact hentries
  · have hlt := (List.getElem?_eq_some_iff.mp hread).1
    exact absurd (by simp [outcome?, hlt, Call.outcome?, hstage]) (hvalue verdict)

/-- What a call has come to, it has come to for good. -/
theorem MovesAt.outcome (h : system.MovesAt config position after) {task : Nat}
    {outcome : Except ClassifyError Bool} (houtcome : system.outcome? task = some outcome) :
    after.outcome? task = some outcome := by
  obtain ⟨moved, call, cache, hread, -, hmoves, rfl⟩ := h
  by_cases hposition : position = task
  · subst hposition
    have hlt := (List.getElem?_eq_some_iff.mp hread).1
    rw [outcome?, hread, Option.bind_some] at houtcome
    have hstage : moved.call.stage = .finished outcome := moved.call.stage_of_outcome? houtcome
    rw [hstage] at hmoves
    simp [outcome?, hlt, Call.outcome?, hmoves.finished]
  · rw [outcome?, List.getElem?_set_ne hposition]
    exact houtcome

/-- Nobody changes what a call is about. -/
theorem MovesAt.documents (h : system.MovesAt config position after) :
    after.tasks.map (·.call.document) = system.tasks.map (·.call.document) := by
  obtain ⟨task, call, cache, hread, hdocument, -, rfl⟩ := h
  have hmap : (system.tasks.map (·.call.document))[position]? = some call.document := by
    rw [List.getElem?_map, hread, hdocument]
    rfl
  obtain ⟨hlt, hself⟩ := List.getElem?_eq_some_iff.mp hmap
  rw [List.map_set]
  dsimp only
  rw [← hself, List.set_getElem_self]

theorem MovesAt.cache_of_none (h : system.MovesAt config position after)
    (hnone : (system.tasks.map (·.call.document))[position]? = some none) : after.cache = system.cache := by
  obtain ⟨task, call, cache, hread, -, hmoves, rfl⟩ := h
  rw [List.getElem?_map, hread, Option.map_some, Option.some_inj] at hnone
  rw [hnone] at hmoves
  exact hmoves.cache_of_none

end

/-- What every move preserves, every schedule preserves. -/
theorem run_induction {config : Config} {P : System κ → Prop}
    (hmoves : ∀ {system after : System κ} {position : Nat}, system.MovesAt config position after →
      P system → P after) {system : System κ} (h : P system) (events : List Event) :
    P (system.run config events) := by
  induction events generalizing system with
  | nil => exact h
  | cons event events ih =>
    have hnext : P (system.next config event) := by
      rcases system.next_moves config event with hstays | ⟨position, hmove⟩
      · rwa [hstays]
      · exact hmoves hmove h
    exact ih hnext

end System

end SourceOrigin
