import SourceOrigin.Proofs.Cache.Moves

/-! Sharing a cache changes no verdict. Whatever the schedule, the entries of the cache and the values that calls
return are the verdicts that classification gives without cache and token. -/
namespace SourceOrigin
variable {κ : Type}

/-- The verdict on a unit: what its classification comes to if nobody cancels it. -/
def HasVerdict (config : Config) (tree : SyntaxTree) (verdict : Bool) : Prop :=
  (classify config tree {}).outcome = .ok verdict

def outcomeBy (config : Config) (tree : SyntaxTree) : List Heuristic → Except ClassifyError Bool
  | [] => .ok false
  | heuristic :: rest =>
    match heuristic.holds config tree with
    | .error error => .error (.badPattern error)
    | .ok true => .ok true
    | .ok false => outcomeBy config tree rest

theorem outcome_classifyBy (config : Config) (tree : SyntaxTree) {token : CancellationToken}
    (hcancelled : token.cancelled = false) (hcountdown : token.countdown = none) (pending : List Heuristic) :
    (classifyBy config tree token pending).outcome = outcomeBy config tree pending := by
  induction pending generalizing token with
  | nil => rfl
  | cons heuristic rest ih =>
    have hpoll : token.poll.cancelled = false := by simp [CancellationToken.poll, hcancelled, hcountdown]
    rw [classifyBy, outcomeBy]
    simp only [hpoll, Bool.false_eq_true, if_false]
    cases heuristic.holds config tree with
    | error error => rfl
    | ok sign =>
      cases sign with
      | true => rfl
      | false => exact ih hpoll hcountdown

theorem hasVerdict_iff (config : Config) (tree : SyntaxTree) (verdict : Bool) :
    HasVerdict config tree verdict ↔ outcomeBy config tree Heuristic.all = .ok verdict := by
  rw [HasVerdict, classify, outcome_classifyBy config tree rfl rfl]

/-- What the stage of a call on a unit tells of the verdict is right. -/
def CallStage.Agrees (config : Config) (tree : SyntaxTree) : CallStage → Prop
  | .recording (some verdict) => HasVerdict config tree verdict
  | .checking pending => outcomeBy config tree pending = outcomeBy config tree Heuristic.all
  | .committing verdict => HasVerdict config tree verdict
  | .finished (.ok verdict) => HasVerdict config tree verdict
  | _ => True

def Call.Agrees (config : Config) (units : κ → SyntaxTree) (call : Call κ) : Prop :=
  match call.document with
  | none => ∀ outcome, call.stage = .finished outcome → outcome = .ok false
  | some document => document = documentOf units document.name ∧ call.stage.Agrees config document.tree

/-- The entries of a cache are verdicts on the units, one for a unit at most. -/
structure Cache.Agrees (config : Config) (units : κ → SyntaxTree) (cache : Cache κ) : Prop where
  verdicts : ∀ name verdict, (name, verdict) ∈ cache.entries → HasVerdict config (units name) verdict
  distinct : (cache.entries.map (·.1)).Nodup

structure System.Agrees (config : Config) (units : κ → SyntaxTree) (system : System κ) : Prop where
  cache : system.cache.Agrees config units
  calls : ∀ task ∈ system.tasks, task.call.Agrees config units

def Call.isComputing (call : Call κ) : Bool :=
  call.document.isSome &&
    match call.stage with
    | .checking _ | .committing _ => true
    | _ => false

/-- All lookups are counted, and the calls that still compute account for misses without an entry. -/
structure System.Balanced (system : System κ) : Prop where
  lookups : system.cache.hits + system.cache.misses = system.tasks.countP (·.call.hasLooked)
  misses : system.cache.entries.length + system.tasks.countP (·.call.isComputing) ≤ system.cache.misses

private theorem System.start_agrees (config : Config) (units : κ → SyntaxTree) (requests : List (Nat × Request κ)) :
    (System.start units requests).Agrees config units := by
  refine ⟨⟨by simp [System.start], by simp [System.start]⟩, fun task hmem => ?_⟩
  obtain ⟨⟨worker, request⟩, -, rfl⟩ := List.mem_map.mp hmem
  simp only [Call.Agrees, Request.call]
  cases request.unit with
  | none => simp
  | some name => exact ⟨rfl, trivial⟩

private theorem System.start_balanced (units : κ → SyntaxTree) (requests : List (Nat × Request κ)) :
    (System.start units requests).Balanced := by
  constructor
  · simp [System.start, List.countP_map, Function.comp_def, Request.call, Call.hasLooked]
  · simp [System.start, List.countP_map, Function.comp_def, Request.call, Call.isComputing]

variable [DecidableEq κ] {config : Config} {units : κ → SyntaxTree} {cache after : Cache κ}

namespace Cache

theorem mem_of_get? {name : κ} {verdict : Bool} (h : cache.get? name = some verdict) :
    (name, verdict) ∈ cache.entries := by
  obtain ⟨before, behind, hentries, -⟩ := List.lookup_eq_some_iff.mp h
  simp [hentries]

theorem not_mem_of_contains {name : κ} (h : cache.contains name = false) :
    name ∉ cache.entries.map (·.1) := by
  rw [contains, get?, Option.isSome_eq_false_iff, Option.isNone_iff_eq_none, List.lookup_eq_none_iff] at h
  intro hmem
  obtain ⟨entry, hentry, hname⟩ := List.mem_map.mp hmem
  simpa [hname] using h entry hentry

theorem Agrees.tryAdd {name : κ} {verdict : Bool} (h : cache.Agrees config units)
    (hverdict : HasVerdict config (units name) verdict) : (cache.tryAdd name verdict).1.Agrees config units := by
  rcases cache.entries_tryAdd name verdict with hentries | ⟨hcontains, hentries⟩
  · exact ⟨hentries ▸ h.verdicts, hentries ▸ h.distinct⟩
  · refine ⟨fun other found hmem => ?_, ?_⟩
    · rw [hentries, List.mem_append, List.mem_singleton] at hmem
      rcases hmem with hmem | heq
      · exact h.verdicts other found hmem
      · obtain ⟨rfl, rfl⟩ := Prod.mk.inj heq
        exact hverdict
    · rw [hentries, List.map_append, List.map_singleton]
      have hfresh : name ∉ cache.entries.map (·.1) := not_mem_of_contains hcontains
      refine List.nodup_append.mpr ⟨h.distinct, by simp, ?_⟩
      intro other hmem last hlast
      obtain rfl := List.mem_singleton.mp hlast
      exact ne_of_mem_of_not_mem hmem hfresh

end Cache

/-- A call learns its verdict from the heuristics, or from a cache that knows it, and commits it. -/
theorem Moves.agrees {call call' : Call κ} (h : Moves config cache call.document call.stage after call'.stage)
    (hdocument : call'.document = call.document) (hcache : cache.Agrees config units)
    (hcall : call.Agrees config units) : after.Agrees config units ∧ call'.Agrees config units := by
  obtain ⟨document, token, stage⟩ := call
  obtain ⟨document', token', stage'⟩ := call'
  dsimp only at h hdocument
  subst hdocument
  cases document' with
  | none =>
    cases h with
    | stays => exact ⟨hcache, hcall⟩
    | answers =>
      refine ⟨hcache, fun outcome houtcome => ?_⟩
      exact (CallStage.finished.inj houtcome).symm
  | some document =>
    obtain ⟨hunit, hstage⟩ := hcall
    obtain ⟨name, tree⟩ := document
    obtain rfl : tree = units name := congrArg Document.tree hunit
    suffices after.Agrees config units ∧ stage'.Agrees config (units name) from ⟨this.1, hunit, this.2⟩
    cases h with
    | stays => exact ⟨hcache, hstage⟩
    | looksUp =>
      refine ⟨hcache, ?_⟩
      cases hfound : cache.get? name with
      | none => trivial
      | some verdict => exact hcache.verdicts name verdict (Cache.mem_of_get? hfound)
    | hits => exact ⟨⟨hcache.verdicts, hcache.distinct⟩, hstage⟩
    | misses => exact ⟨⟨hcache.verdicts, hcache.distinct⟩, rfl⟩
    | concludes => exact ⟨hcache, (hasVerdict_iff config (units name) false).mpr hstage.symm⟩
    | stops => exact ⟨hcache, trivial⟩
    | fails => exact ⟨hcache, trivial⟩
    | finds rest hfinds =>
      refine ⟨hcache, (hasVerdict_iff config (units name) true).mpr (hstage.symm.trans ?_)⟩
      simp only [outcomeBy, hfinds]
    | passes rest hpasses =>
      refine ⟨hcache, Eq.trans ?_ hstage⟩
      simp only [outcomeBy, hpasses]
    | commits => exact ⟨hcache.tryAdd hstage, hstage⟩

namespace System
variable {system next : System κ} {position : Nat}

theorem MovesAt.agrees (hmove : system.MovesAt config position next) (h : system.Agrees config units) :
    next.Agrees config units := by
  obtain ⟨task, call, cache, hread, hdocument, hmoves, rfl⟩ := hmove
  obtain ⟨hcache, hcall⟩ := hmoves.agrees hdocument h.cache (h.calls task (List.mem_of_getElem? hread))
  refine ⟨hcache, fun other hmem => ?_⟩
  rcases List.mem_or_eq_of_mem_set hmem with hmem | rfl
  · exact h.calls other hmem
  · exact hcall

end System

theorem Cache.counts_tryAdd (cache : Cache κ) (name : κ) (verdict : Bool) :
    (cache.tryAdd name verdict).1.hits = cache.hits ∧ (cache.tryAdd name verdict).1.misses = cache.misses ∧
      (cache.tryAdd name verdict).1.entries.length ≤ cache.entries.length + 1 := by
  unfold tryAdd
  split <;> simp

/-- A move counts a lookup if the call has not done so before, and a commit uses up a miss. -/
theorem Moves.counts {call call' : Call κ} (h : Moves config cache call.document call.stage after call'.stage)
    (hdocument : call'.document = call.document) :
    after.hits + after.misses + call.hasLooked.toNat = cache.hits + cache.misses + call'.hasLooked.toNat ∧
      after.entries.length + call'.isComputing.toNat + cache.misses ≤
        cache.entries.length + call.isComputing.toNat + after.misses := by
  obtain ⟨document, token, stage⟩ := call
  obtain ⟨document', token', stage'⟩ := call'
  dsimp only at h hdocument
  subst hdocument
  -- Only these moves touch a count or an entry, or change whether the call has looked or is computing.
  cases h with
  | hits document verdict =>
    simp only [Call.hasLooked, Call.isComputing, Cache.recordLookup, if_true]
    exact ⟨by simp; omega, by simp⟩
  | misses document =>
    simp only [Call.hasLooked, Call.isComputing, Cache.recordLookup, Bool.false_eq_true, if_false]
    exact ⟨by simp; omega, by simp; omega⟩
  | commits document verdict =>
    obtain ⟨hhits, hmisses, hentries⟩ := cache.counts_tryAdd document.name verdict
    simp only [Call.hasLooked, Call.isComputing, hhits, hmisses]
    exact ⟨trivial, by simp; omega⟩
  | stops => exact ⟨rfl, by simp [Call.isComputing]⟩
  | fails => exact ⟨rfl, by simp [Call.isComputing]⟩
  | _ => exact ⟨rfl, Nat.le_refl _⟩

theorem countP_set_add {α : Type} {p : α → Bool} {list : List α} {position : Nat} {old new : α}
    (h : list[position]? = some old) :
    (list.set position new).countP p + (p old).toNat = list.countP p + (p new).toNat := by
  obtain ⟨hlt, rfl⟩ := List.getElem?_eq_some_iff.mp h
  have hle := List.boole_getElem_le_countP (p := p) hlt
  rw [List.countP_set hlt]
  cases hold : p list[position] with
  | false =>
    cases p new <;> simp
  | true =>
    rw [hold, if_pos rfl] at hle
    cases p new
    all_goals
      simp only [if_true, Bool.false_eq_true, if_false, Bool.toNat_true, Bool.toNat_false]
      omega

namespace System
variable {system next : System κ} {position : Nat}

private theorem MovesAt.balanced (hmove : system.MovesAt config position next) (h : system.Balanced) :
    next.Balanced := by
  obtain ⟨task, call, cache, hread, hdocument, hmoves, rfl⟩ := hmove
  obtain ⟨hlooked, hcomputing⟩ := hmoves.counts hdocument
  have hlookups := h.lookups
  have hmisses := h.misses
  have hset : ∀ p : Call κ → Bool,
      (system.tasks.set position ⟨task.worker, call⟩).countP (p ·.call) + (p task.call).toNat =
        system.tasks.countP (p ·.call) + (p call).toNat :=
    fun p => countP_set_add hread
  have hlookedSet := hset Call.hasLooked
  have hcomputingSet := hset Call.isComputing
  constructor
  · dsimp only
    omega
  · dsimp only
    omega

end System

/-- What is promised of workers that share a cache, after any schedule. -/
structure System.Transparent (config : Config) (units : κ → SyntaxTree) (requests : List (Nat × Request κ))
    (events : List Event) : Prop where
  /-- Every entry is the verdict on its unit. -/
  entry : ∀ name verdict, (name, verdict) ∈ (reached config units requests events).cache.entries →
    HasVerdict config (units name) verdict
  /-- A unit has one entry at most. -/
  distinct : ((reached config units requests events).cache.entries.map (·.1)).Nodup
  /-- Whatever comes later, the entries stay as they are. -/
  stays : ∀ more, (reached config units requests events).cache.entries <+:
    (reached config units requests (events ++ more)).cache.entries
  /-- A call that returns a value returns the verdict on its unit. -/
  value : ∀ task worker request name verdict, requests[task]? = some (worker, request) →
    request.unit = some name →
    (reached config units requests events).outcome? task = some (.ok verdict) →
    HasVerdict config (units name) verdict
  /-- A call that ends in an error has inserted nothing on any of its turns. -/
  error : ∀ task error before worker after,
    (reached config units requests events).outcome? task = some (.error error) →
    events = before ++ .turn worker :: after →
    (reached config units requests before).current? worker = some task →
    (reached config units requests (before ++ [.turn worker])).cache.entries =
      (reached config units requests before).cache.entries
  /-- A call without a unit can only return `false`. -/
  missing : ∀ task worker request outcome, requests[task]? = some (worker, request) →
    request.unit = none → (reached config units requests events).outcome? task = some outcome →
    outcome = .ok false
  /-- A call without a unit leaves the cache alone on all of its turns. -/
  untouched : ∀ task worker request before after, requests[task]? = some (worker, request) →
    request.unit = none → events = before ++ .turn worker :: after →
    (reached config units requests before).current? worker = some task →
    (reached config units requests (before ++ [.turn worker])).cache =
      (reached config units requests before).cache
  /-- The lookups that are counted are those of the calls that have come past their lookup. -/
  lookups : (reached config units requests events).cache.hits +
      (reached config units requests events).cache.misses =
    (reached config units requests events).tasks.countP (·.call.hasLooked)
  /-- There are no more entries than misses. -/
  misses : (reached config units requests events).cache.entries.length ≤
    (reached config units requests events).cache.misses

namespace System
variable (config : Config) (units : κ → SyntaxTree) (requests : List (Nat × Request κ)) (events : List Event)

private theorem agrees_reached : (reached config units requests events).Agrees config units :=
  run_induction MovesAt.agrees (start_agrees config units requests) events

private theorem balanced_reached : (reached config units requests events).Balanced :=
  run_induction MovesAt.balanced (start_balanced units requests) events

private theorem documents_reached : (reached config units requests events).tasks.map (·.call.document) =
    requests.map fun request => request.2.unit.map (documentOf units) := by
  refine run_induction (P := fun system => system.tasks.map (·.call.document) = _) ?_ ?_ events
  · exact fun hmove h => hmove.documents.trans h
  · simp [start, Request.call, Function.comp_def]

private theorem exists_call {task worker : Nat} {request : Request κ} (h : requests[task]? = some (worker, request)) :
    ∃ call : Call κ, call.Agrees config units ∧ call.document = request.unit.map (documentOf units) ∧
      (reached config units requests events).outcome? task = call.outcome? := by
  have hdocument := congrArg (·[task]?) (documents_reached config units requests events)
  simp only [List.getElem?_map, h, Option.map_some] at hdocument
  obtain ⟨reachedTask, hread, hdocument⟩ := Option.map_eq_some_iff.mp hdocument
  refine ⟨reachedTask.call, ?_, hdocument, by rw [outcome?, hread]; rfl⟩
  exact (agrees_reached config units requests events).calls _ (List.mem_of_getElem? hread)

private theorem outcome_reached {task : Nat} {outcome : Except ClassifyError Bool}
    (h : (reached config units requests events).outcome? task = some outcome) (more : List Event) :
    (reached config units requests (events ++ more)).outcome? task = some outcome := by
  rw [reached_append]
  exact run_induction (P := fun system => system.outcome? task = some outcome)
    (fun hmove houtcome => hmove.outcome houtcome) h more

private theorem reached_turn {worker task : Nat}
    (h : (reached config units requests events).current? worker = some task) :
    (reached config units requests events).MovesAt config task
      (reached config units requests (events ++ [.turn worker])) := by
  rw [reached_append]
  exact next_turn config h

end System

/-- Sharing a cache is transparent: for all workers and calls, and for every interleaving of their steps and of
cancellations. -/
theorem System.transparent (config : Config) (units : κ → SyntaxTree) (requests : List (Nat × Request κ))
    (events : List Event) : System.Transparent config units requests events where
  entry := (agrees_reached config units requests events).cache.verdicts
  distinct := (agrees_reached config units requests events).cache.distinct
  stays more := by
    rw [reached_append]
    exact run_induction (P := fun system => _ <+: system.cache.entries)
      (fun hmove h => h.trans hmove.entries_prefix) List.prefix_rfl more
  value task worker request name verdict hrequest hunit houtcome := by
    obtain ⟨call, hcall, hdocument, hcome⟩ := exists_call config units requests events hrequest
    rw [hcome] at houtcome
    rw [hunit, Option.map_some] at hdocument
    simp only [Call.Agrees, hdocument, call.stage_of_outcome? houtcome] at hcall
    exact hcall.2
  error task error before worker after houtcome hevents hcurrent := by
    refine (reached_turn config units requests before hcurrent).entries_eq fun verdict hvalue => ?_
    have hlater := outcome_reached config units requests _ hvalue after
    rw [List.append_assoc, List.singleton_append, ← hevents, houtcome] at hlater
    simp at hlater
  missing task worker request outcome hrequest hunit houtcome := by
    obtain ⟨call, hcall, hdocument, hcome⟩ := exists_call config units requests events hrequest
    rw [hcome] at houtcome
    rw [hunit, Option.map_none] at hdocument
    simp only [Call.Agrees, hdocument] at hcall
    exact hcall outcome (call.stage_of_outcome? houtcome)
  untouched task worker request before after hrequest hunit hevents hcurrent := by
    refine (reached_turn config units requests before hcurrent).cache_of_none ?_
    rw [documents_reached, List.getElem?_map, hrequest]
    simp [hunit]
  lookups := (balanced_reached config units requests events).lookups
  misses := Nat.le_trans (Nat.le_add_right _ _) (balanced_reached config units requests events).misses

end SourceOrigin
