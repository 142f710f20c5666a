import SourceOrigin.Proofs.Session.Loading
import SourceOrigin.Proofs.Session.Processed

/-! What a scan under way leaves behind it. The unit of every file that has come to a verdict is in the table of units and
its verdict in the cache, so the session can answer for the file from then on; and every file that is classified has
counted one lookup. -/
namespace SourceOrigin
variable {files : FileTree} {session after : Session} {path : Path}

namespace Cache
variable {κ : Type} [DecidableEq κ] {cache after : Cache κ} {name : κ}

private theorem contains_of_prefix (h : cache.entries <+: after.entries) (hcontains : cache.contains name = true) :
    after.contains name = true := by
  obtain ⟨more, hmore⟩ := h
  obtain ⟨verdict, hfound⟩ := Option.isSome_iff_exists.mp hcontains
  rw [contains, get?, ← hmore, List.lookup_append, show cache.entries.lookup name = some verdict from hfound,
    Option.some_or]
  rfl

private theorem contains_tryAdd (cache : Cache κ) (name : κ) (verdict : Bool) :
    (cache.tryAdd name verdict).1.contains name = true := by
  unfold tryAdd
  split
  · next hcontains => exact hcontains
  · next hcontains =>
    have hnone : cache.entries.lookup name = none := by
      rw [Bool.not_eq_true, contains, Option.isSome_eq_false_iff, Option.isNone_iff_eq_none] at hcontains
      exact hcontains
    rw [contains, get?, List.lookup_append, hnone, Option.none_or]
    simp

end Cache

def CallStage.isAnswered : CallStage → Bool
  | .recording (some _) | .finished (.ok _) => true
  | _ => false

theorem Moves.entries_prefix {κ : Type} [DecidableEq κ] {config : Config} {cache after : Cache κ}
    {document : Option (Document κ)} {stage stage' : CallStage} (h : Moves config cache document stage after stage') :
    cache.entries <+: after.entries := by
  rcases h.entries with hentries | ⟨name, verdict, -, hentries⟩
  · exact hentries ▸ List.prefix_rfl
  · exact ⟨_, hentries.symm⟩

/-- A call comes to a verdict by finding it in the cache, or by committing it. -/
theorem Moves.contains {κ : Type} [DecidableEq κ] {config : Config} {cache after : Cache κ} {document : Document κ}
    {stage stage' : CallStage} (h : Moves config cache (some document) stage after stage')
    (hstage : stage.isAnswered = true → cache.contains document.name = true) (hanswered : stage'.isAnswered = true) :
    after.contains document.name = true := by
  cases h with
  | stays => exact hstage hanswered
  | looksUp =>
    cases hfound : cache.get? document.name with
    | none => simp [hfound, CallStage.isAnswered] at hanswered
    | some verdict => simp [Cache.contains, hfound]
  | hits => exact hstage rfl
  | commits document verdict => exact cache.contains_tryAdd document.name verdict
  | _ => simp [CallStage.isAnswered] at hanswered

namespace Session

/-- The session has the unit of the path and a verdict on it, so it answers for the path without reading or classifying
anything. -/
def Answers (session : Session) (files : FileTree) (path : Path) : Prop :=
  ∃ unit, session.units.find? (files.resolve path) = some unit ∧ session.cache.contains unit.id = true

theorem Answers.extends (h : session.Answers files path) (hextends : session.Extends after) :
    after.Answers files path := by
  obtain ⟨unit, hfound, hstored⟩ := h
  exact ⟨unit, UnitTable.find?_of_prefix hextends.units hfound, Cache.contains_of_prefix hextends.verdicts hstored⟩

end Session

/-! ### One step of a worker -/

def Job.IsHeld (files : FileTree) (session : Session) (job : Job) : Prop :=
  match job.stage with
  | .loading stage => ∀ unit, stage = .finished (.ok unit) → session.units.find? (files.resolve job.path) = some unit
  | .classifying unit stage => session.units.find? (files.resolve job.path) = some unit ∧
      (stage.isAnswered = true → session.cache.contains unit.id = true)
  | .finished (.ok _) | .delivered (.ok _) => session.Answers files job.path
  | _ => True

theorem Job.IsHeld.extends {job : Job} (h : job.IsHeld files session) (hextends : session.Extends after) :
    job.IsHeld files after := by
  obtain ⟨path, stage⟩ := job
  cases stage with
  | loading stage =>
    intro unit hunit
    exact UnitTable.find?_of_prefix hextends.units (h unit hunit)
  | classifying unit stage =>
    refine ⟨UnitTable.find?_of_prefix hextends.units h.1, fun hanswered => ?_⟩
    exact Cache.contains_of_prefix hextends.verdicts (h.2 hanswered)
  | finished outcome =>
    cases outcome with
    | ok verdict => exact Session.Answers.extends h hextends
    | error error => trivial
  | delivered outcome =>
    cases outcome with
    | ok verdict => exact Session.Answers.extends h hextends
    | error error => trivial
  | _ => trivial

private theorem Job.afterLoading_isHeld {stage : LoadStage}
    (h : ∀ unit, stage = .finished (.ok unit) → session.units.find? (files.resolve path) = some unit) :
    Job.IsHeld files session ⟨path, .afterLoading stage⟩ := by
  cases stage with
  | finished outcome =>
    cases outcome with
    | ok unit => exact ⟨h unit rfl, by simp [CallStage.isAnswered]⟩
    | error error => trivial
  | _ => exact h

private theorem Job.afterClassifying_isHeld {unit : LoadedUnit} {stage : CallStage}
    (hfound : session.units.find? (files.resolve path) = some unit)
    (hstored : stage.isAnswered = true → session.cache.contains unit.id = true) :
    Job.IsHeld files session ⟨path, .afterClassifying unit stage⟩ := by
  cases stage with
  | finished outcome =>
    cases outcome with
    | ok verdict => exact ⟨unit, hfound, hstored rfl⟩
    | error error => trivial
  | _ => exact ⟨hfound, hstored⟩

private theorem Call.moves_step {κ : Type} [DecidableEq κ] (config : Config) (cache : Cache κ) (document : Document κ)
    (token : CancellationToken) (stage : CallStage) :
    Moves config cache (some document) stage (Call.step config cache ⟨some document, token, stage⟩).1
      (Call.step config cache ⟨some document, token, stage⟩).2.1.stage := by
  cases hopen : (⟨some document, token, stage⟩ : Call κ).outcome? with
  | none => exact (step_moves config cache hopen).2
  | some outcome =>
    obtain rfl : stage = .finished outcome := stage_of_outcome? hopen
    exact .stays _ _

private theorem Job.step_isHeld {job : Job} (h : job.IsHeld files session) :
    session.Extends (job.step files session).1 ∧ (job.step files session).2.IsHeld files (job.step files session).1 := by
  obtain ⟨path, stage⟩ := job
  cases stage with
  | starting =>
    simp only [step]
    refine ⟨?_, ?_⟩
    · repeat' split
      all_goals exact ⟨List.prefix_rfl, List.prefix_rfl⟩
    · repeat' split
      all_goals simp [IsHeld]
  | loading stage =>
    have hloads := LoadCall.step_loads files session.config.sourceEncoding session.units ⟨files.resolve path, stage⟩
    refine ⟨⟨hloads.entries, List.prefix_rfl⟩, Job.afterLoading_isHeld fun unit hunit => ?_⟩
    by_cases hopen : ∀ outcome, stage ≠ .finished outcome
    · have hfound := hloads.find? hopen hunit
      rwa [hloads.location] at hfound
    · obtain ⟨outcome, rfl⟩ : ∃ outcome, stage = .finished outcome := by simpa using hopen
      exact h unit hunit
  | classifying unit stage =>
    have hmoves := Call.moves_step session.config session.cache unit.document session.token stage
    exact ⟨⟨List.prefix_rfl, hmoves.entries_prefix⟩, Job.afterClassifying_isHeld h.1 (hmoves.contains h.2)⟩
  | _ => exact ⟨.refl session, h⟩

/-! ### Lookups -/

def JobStage.hasLooked : JobStage → Bool
  | .classifying unit stage => Call.hasLooked ⟨some unit.document, {}, stage⟩
  | .finished (.ok _) | .delivered (.ok _) => true
  | _ => false

def JobStage.isStopped : JobStage → Bool
  | .finished (.error (.classify _)) | .delivered (.error (.classify _)) => true
  | _ => false

private theorem JobStage.hasLooked_afterClassifying (unit : LoadedUnit) (stage : CallStage) :
    (afterClassifying unit stage).hasLooked.toNat + (afterClassifying unit stage).isStopped.toNat =
      (Call.hasLooked ⟨some unit.document, {}, stage⟩).toNat := by
  cases stage with
  | finished outcome => cases outcome <;> rfl
  | _ => rfl

private theorem JobStage.hasLooked_afterLoading (stage : LoadStage) :
    (afterLoading stage).hasLooked = false ∧ (afterLoading stage).isStopped = false := by
  cases stage with
  | finished outcome => cases outcome <;> exact ⟨rfl, rfl⟩
  | _ => exact ⟨rfl, rfl⟩

def Cache.lookups {κ : Type} (cache : Cache κ) : Nat := cache.hits + cache.misses

/-- What a step adds to the lookups of the cache is what it changes about the file; if it stops the file, its lookup may
have been counted or not. -/
def Job.CountsAs (session last : Session) (old new : Job) : Prop :=
  session.cache.lookups + new.stage.hasLooked.toNat ≤ last.cache.lookups + old.stage.hasLooked.toNat ∧
    last.cache.lookups + old.stage.hasLooked.toNat + old.stage.isStopped.toNat ≤
      session.cache.lookups + new.stage.hasLooked.toNat + new.stage.isStopped.toNat

private theorem Job.step_countsAs (files : FileTree) (session : Session) {job : Job} (h : job.stage.isRunning = true) :
    CountsAs session (job.step files session).1 job (job.step files session).2 := by
  obtain ⟨path, stage⟩ := job
  cases stage with
  | starting =>
    simp only [step]
    repeat' split
    all_goals simp [CountsAs, JobStage.hasLooked, JobStage.isStopped]
  | loading stage =>
    obtain ⟨hlooked, hstopped⟩ := JobStage.hasLooked_afterLoading
      (LoadCall.step files session.config.sourceEncoding session.units ⟨files.resolve path, stage⟩).2.stage
    rw [CountsAs, step, hlooked, hstopped]
    exact ⟨Nat.le_refl _, Nat.le_refl _⟩
  | classifying unit stage =>
    have hmoves := Call.moves_step session.config session.cache unit.document session.token stage
    simp only [CountsAs, step, Cache.lookups]
    generalize Call.step session.config session.cache ⟨some unit.document, session.token, stage⟩ = done at hmoves ⊢
    obtain ⟨cache, ⟨document, token, stage'⟩, log⟩ := done
    have hcounts := (@Moves.counts UnitId _ session.config session.cache cache ⟨some unit.document, {}, stage⟩
      ⟨some unit.document, {}, stage'⟩ hmoves rfl).1
    have hafter := JobStage.hasLooked_afterClassifying unit stage'
    have hlooked : (JobStage.classifying unit stage).hasLooked = Call.hasLooked ⟨some unit.document, {}, stage⟩ := rfl
    have hstopped : (JobStage.classifying unit stage).isStopped = false := rfl
    rw [hlooked, hstopped, Bool.toNat_false]
    dsimp only at hcounts ⊢
    omega
  | _ => simp [JobStage.isRunning] at h

/-! ### A whole scan -/

/-- A scan that was started with this session keeps its tables, holds what its files have come to, and has counted their
lookups. -/
structure Pool.Accounts (files : FileTree) (session : Session) (pool : Pool) : Prop where
  grown : session.Extends pool.session
  held : ∀ job ∈ pool.jobs, job.IsHeld files pool.session
  least : session.cache.lookups + pool.jobs.countP (·.stage.hasLooked) ≤ pool.session.cache.lookups
  most : pool.session.cache.lookups ≤
    session.cache.lookups + pool.jobs.countP (·.stage.hasLooked) + pool.jobs.countP (·.stage.isStopped)

namespace Pool
variable {pool next : Pool}

private theorem accounts_start (files : FileTree) (session : Session) (paths : List Path) :
    (Pool.start session paths).Accounts files session where
  grown := .refl session
  held job hmem := by
    obtain ⟨path, -, rfl⟩ := List.mem_map.mp hmem
    trivial
  least := by simp [start, List.countP_map, Function.comp_def, JobStage.hasLooked]
  most := Nat.le_trans (Nat.le_add_right _ _) (Nat.le_add_right _ _)

/-- One file comes to another stage. -/
theorem Accounts.set (h : pool.Accounts files session) {position : Nat} {old : Job}
    (hread : pool.jobs[position]? = some old) (new : Job) {last : Session} (hextends : pool.session.Extends last)
    (hheld : new.IsHeld files last) (hcounts : Job.CountsAs pool.session last old new)
    (collected : List (Path × Except SessionError Bool)) :
    Accounts files session { pool with session := last, jobs := pool.jobs.set position new, collected } := by
  have hlooked := @countP_set_add _ (fun job : Job => job.stage.hasLooked) _ _ _ new hread
  have hstopped := @countP_set_add _ (fun job : Job => job.stage.isStopped) _ _ _ new hread
  obtain ⟨hlower, hupper⟩ := hcounts
  have hleast := h.least
  have hmost := h.most
  refine ⟨h.grown.trans hextends, fun job hmem => ?_, ?_, ?_⟩
  · rcases List.mem_or_eq_of_mem_set hmem with hmem | rfl
    · exact (h.held job hmem).extends hextends
    · exact hheld
  · dsimp only
    omega
  · dsimp only
    omega

theorem Accounts.cancelled (h : pool.Accounts files session) (interrupted : Bool) :
    Accounts files session { pool with session := pool.session.cancel.session, interrupted } :=
  ⟨⟨h.grown.units, h.grown.verdicts⟩, fun job hmem => (h.held job hmem).extends ⟨List.prefix_rfl, List.prefix_rfl⟩,
    h.least, h.most⟩

private theorem Moves.accounts (hmove : pool.Moves files next) (h : pool.Accounts files session) :
    next.Accounts files session := by
  have hstays := Session.Extends.refl pool.session
  have hsame : ∀ {old new : Job}, new.stage.hasLooked = old.stage.hasLooked → new.stage.isStopped = old.stage.isStopped →
      Job.CountsAs pool.session pool.session old new := by
    intro old new hlooked hstopped
    rw [Job.CountsAs, hlooked, hstopped]
    exact ⟨Nat.le_refl _, Nat.le_refl _⟩
  cases hmove with
  | @starts position path hread =>
    exact h.set hread ⟨path, .starting⟩ hstays trivial (hsame rfl rfl) pool.collected
  | @steps position job hread hrunning =>
    obtain ⟨hextends, hheld⟩ := Job.step_isHeld (h.held job (List.mem_of_getElem? hread))
    exact h.set hread _ hextends hheld (Job.step_countsAs files pool.session hrunning) pool.collected
  | @collects position path outcome hopen hread =>
    have hheld := h.held _ (List.mem_of_getElem? hread)
    refine h.set hread ⟨path, .delivered outcome⟩ hstays ?_ (hsame ?_ ?_) _
    · cases outcome <;> exact hheld
    · cases outcome <;> rfl
    · rcases outcome with (error | error | _) | verdict <;> rfl
  | @drops position path error hfailure hdropping hread =>
    exact h.set hread ⟨path, .dropped⟩ hstays trivial (hsame rfl rfl) pool.collected
  | cancels => exact h.cancelled pool.interrupted
  | interrupts => exact h.cancelled true

theorem accounts_run (files : FileTree) (session : Session) (paths : List Path) (schedule : List PoolEvent) :
    ((Pool.start session paths).run files schedule).Accounts files session :=
  run_induction Moves.accounts (accounts_start files session paths) schedule

end Pool

end SourceOrigin
