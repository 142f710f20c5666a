import SourceOrigin.Proofs.Session.Sequential

/-! Verdicts do not depend on what a session has done before. Whatever a host does with a session, and however its
operations end, a classification afterwards gives the verdict that a new session gives, unless it finds the session
cancelled. -/
namespace SourceOrigin
variable {files : FileTree} {units : UnitId → SyntaxTree} {session : Session}

/-- A session, and the units that its host holds. -/
structure Host where
  session : Session
  held : List (Document UnitId) := []

/-- What a host does with a session. Units are named by their position among those held. A scan processes its files in
order, or by a pool of workers under a schedule; it may be interrupted. -/
inductive Operation where
  | load (path : Path)
  | adopt (tree : SyntaxTree)
  | classify (unit : Option Nat)
  | classifyNode (unit : Option (Option Nat)) (kind : Text)
  | classifyPath (path : Path)
  | run (paths : List Path) (interrupt : Bool)
  | scan (directory : Path) (interrupt : Bool)
  | pool (paths : List Path) (schedule : List PoolEvent)
  | cancel
  | close

namespace Host

def unit? (host : Host) (position : Option Nat) : Option (Document UnitId) := position.bind (host.held[·]?)

def keep (host : Host) (loaded : SessionResult LoadedUnit) : Host :=
  match loaded.outcome with
  | .ok unit => ⟨loaded.session, host.held ++ [unit.document]⟩
  | .error _ => ⟨loaded.session, host.held⟩

def perform (files : FileTree) (host : Host) : Operation → Host
  | .load path => host.keep (host.session.load files path)
  | .adopt tree => ⟨(host.session.adopt tree).1, host.held ++ [(host.session.adopt tree).2]⟩
  | .classify unit => { host with session := (host.session.classify (host.unit? unit)).session }
  | .classifyNode unit kind =>
    let node : Option (SyntaxNode UnitId) := unit.map fun unit => ⟨host.unit? unit, kind⟩
    { host with session := (host.session.classifyNode node).session }
  | .classifyPath path => { host with session := (host.session.classifyPath files path).session }
  | .run paths interrupt => { host with session := (host.session.run files paths [] interrupt).session }
  | .scan directory interrupt => { host with session := (host.session.scan files directory interrupt).session }
  | .pool paths schedule => { host with session := ((Pool.start host.session paths).run files schedule).session }
  | .cancel => { host with session := host.session.cancel.session }
  | .close => { host with session := host.session.close }

def after (files : FileTree) (host : Host) (operations : List Operation) : Host := operations.foldl (perform files) host

/-- The session agrees with its files, and every unit held has its number from it. -/
structure Agrees (files : FileTree) (units : UnitId → SyntaxTree) (host : Host) : Prop where
  session : host.session.Agrees files units
  held : ∀ document ∈ host.held, host.session.Knows units document

end Host

/-- What a classification makes of the session is one of the states that the session may come to. -/
theorem Session.Agrees.classify (h : session.Agrees files units) {document : Option (Document UnitId)}
    (hknown : ∀ unit ∈ document, session.Knows units unit) :
    session.Grows units units (session.classify document).session ∧
      (session.classify document).session.Agrees files units := by
  cases document with
  | none => exact ⟨.refl units session, h⟩
  | some document => exact Session.classify_agrees h (hknown document rfl)

theorem Session.Agrees.classifyPath (h : session.Agrees files units) (path : Path) :
    ∃ units', session.Grows units units' (session.classifyPath files path).session ∧
      (session.classifyPath files path).session.Agrees files units' := by
  obtain ⟨units', hgrows, hagrees, -, -, hloaded⟩ := Session.load_agrees h path
  refine ⟨units', ?_⟩
  rw [Session.classifyPath]
  cases houtcome : (session.load files path).outcome with
  | error error => exact ⟨hgrows, hagrees⟩
  | ok unit =>
    rw [houtcome] at hloaded
    obtain ⟨hgrows', hagrees'⟩ := Session.classify_agrees hagrees hloaded.1
    exact ⟨hgrows.trans hgrows', hagrees'⟩

theorem Session.Agrees.pool (h : session.Agrees files units) (paths : List Path) (schedule : List PoolEvent) :
    ∃ units', session.Grows units units' ((Pool.start session paths).run files schedule).session ∧
      ((Pool.start session paths).run files schedule).session.Agrees files units' := by
  obtain ⟨units', hgrows, hagrees⟩ := Pool.agrees_run (Pool.agrees_start h paths) schedule
  exact ⟨units', hgrows, hagrees.session⟩

theorem Session.Agrees.run (h : session.Agrees files units) (paths : List Path) (root : Text) (interrupt : Bool) :
    ∃ units', session.Grows units units' (session.run files paths root interrupt).session ∧
      (session.run files paths root interrupt).session.Agrees files units' := by
  obtain ⟨schedule, hsession, -, -⟩ :=
    session.exists_schedule files paths root interrupt (Config.validate_ok h.valid).1
  rw [← hsession]
  exact h.pool paths schedule

theorem Session.Agrees.scan (h : session.Agrees files units) (directory : Path) (interrupt : Bool) :
    ∃ units', session.Grows units units' (session.scan files directory interrupt).session ∧
      (session.scan files directory interrupt).session.Agrees files units' := by
  unfold Session.scan
  split
  · exact ⟨units, .refl units session, h⟩
  dsimp only
  split
  · exact ⟨units, .refl units session, h⟩
  · exact h.run _ _ interrupt

namespace Host
variable {host : Host}

section
variable {units' : UnitId → SyntaxTree} {session' : Session} (h : host.Agrees files units)
  (hgrows : host.session.Grows units units' session') (hagrees : session'.Agrees files units')
include h

private theorem Agrees.knows {position : Option Nat} : ∀ unit ∈ host.unit? position, host.session.Knows units unit := by
  intro unit hmem
  obtain ⟨index, -, hread⟩ := Option.bind_eq_some_iff.mp hmem
  exact h.held unit (List.mem_of_getElem? hread)

include hgrows hagrees

/-- The units that are held are known to the session that it has become. -/
private theorem Agrees.onto : Agrees files units' { host with session := session' } :=
  ⟨hagrees, fun document hmem => (h.held document hmem).grows hgrows⟩

/-- So is another one that it knows. -/
private theorem Agrees.keeping {added : Document UnitId} (hknown : session'.Knows units' added) :
    Agrees files units' ⟨session', host.held ++ [added]⟩ := by
  refine ⟨hagrees, fun document hmem => ?_⟩
  rcases List.mem_append.mp hmem with hmem | hmem
  · exact (h.onto hgrows hagrees).held document hmem
  · rwa [List.mem_singleton.mp hmem]

end

private theorem Agrees.load (h : host.Agrees files units) (path : Path) :
    ∃ units', host.session.Grows units units' (host.perform files (.load path)).session ∧
      (host.perform files (.load path)).Agrees files units' := by
  obtain ⟨units', hgrows, hagrees, -, -, hloaded⟩ := Session.load_agrees h.session path
  refine ⟨units', ?_⟩
  rw [Host.perform, keep]
  cases houtcome : (host.session.load files path).outcome with
  | ok unit =>
    rw [houtcome] at hloaded
    exact ⟨hgrows, h.keeping hgrows hagrees hloaded.1⟩
  | error error => exact ⟨hgrows, h.onto hgrows hagrees⟩

private theorem Agrees.classifyNode (h : host.Agrees files units) (unit : Option (Option Nat)) (kind : Text) :
    host.session.Grows units units (host.perform files (.classifyNode unit kind)).session ∧
      (host.perform files (.classifyNode unit kind)).Agrees files units := by
  have hnode : ∀ document ∈ (unit.map fun unit => (⟨host.unit? unit, kind⟩ : SyntaxNode UnitId)).bind (·.document),
      host.session.Knows units document := by
    cases unit with
    | none => simp
    | some unit => exact h.knows
  obtain ⟨hgrows, hagrees⟩ := h.session.classify hnode
  exact ⟨hgrows, h.onto hgrows hagrees⟩

/-- Every operation keeps the agreement, however it ends. -/
theorem Agrees.perform (h : host.Agrees files units) (operation : Operation) :
    ∃ units', host.session.Grows units units' (host.perform files operation).session ∧
      (host.perform files operation).Agrees files units' := by
  cases operation with
  | load path => exact h.load path
  | adopt tree =>
    obtain ⟨hgrows, hagrees, hknown⟩ := h.session.adopt tree
    exact ⟨_, hgrows, h.keeping hgrows hagrees hknown⟩
  | classify unit =>
    obtain ⟨hgrows, hagrees⟩ := h.session.classify h.knows
    exact ⟨units, hgrows, h.onto hgrows hagrees⟩
  | classifyNode unit kind => exact ⟨units, h.classifyNode unit kind⟩
  | classifyPath path =>
    obtain ⟨units', hgrows, hagrees⟩ := h.session.classifyPath path
    exact ⟨units', hgrows, h.onto hgrows hagrees⟩
  | run paths interrupt =>
    obtain ⟨units', hgrows, hagrees⟩ := h.session.run paths [] interrupt
    exact ⟨units', hgrows, h.onto hgrows hagrees⟩
  | scan directory interrupt =>
    obtain ⟨units', hgrows, hagrees⟩ := h.session.scan directory interrupt
    exact ⟨units', hgrows, h.onto hgrows hagrees⟩
  | pool paths schedule =>
    obtain ⟨units', hgrows, hagrees⟩ := h.session.pool paths schedule
    exact ⟨units', hgrows, h.onto hgrows hagrees⟩
  | cancel =>
    obtain ⟨hgrows, hagrees⟩ := h.session.cancel
    exact ⟨units, hgrows, h.onto hgrows hagrees⟩
  | close =>
    obtain ⟨hgrows, hagrees⟩ := h.session.close
    exact ⟨units, hgrows, h.onto hgrows hagrees⟩

theorem Agrees.after (h : host.Agrees files units) (operations : List Operation) :
    ∃ units', host.session.Grows units units' (host.after files operations).session ∧
      (host.after files operations).Agrees files units' := by
  induction operations generalizing host units with
  | nil => exact ⟨units, .refl units host.session, h⟩
  | cons operation operations ih =>
    obtain ⟨next, hgrows, hagrees⟩ := h.perform operation
    obtain ⟨last, hgrows', hagrees'⟩ := ih hagrees
    exact ⟨last, hgrows.trans hgrows', hagrees'⟩

/-- Whatever is done with a session that was just started, it agrees with its files. -/
theorem exists_agrees (files : FileTree) {environment : Environment} {config : Option Config}
    {token : CancellationToken} (h : Session.start environment config token = .ok session)
    (operations : List Operation) :
    ∃ units, Agrees files units (after files { session } operations) ∧
      (after files { session } operations).session.config = session.config := by
  have hstart : Agrees files (fun _ => (SourceUnit.ofText []).tree) { session } := ⟨Session.agrees_of_start h _, by simp⟩
  obtain ⟨units, hgrows, hagrees⟩ := hstart.after operations
  exact ⟨units, hagrees, hgrows.config⟩

end Host

/-! ### Verdicts -/

def CancellationToken.FoundCancelled (before after : CancellationToken) : Prop :=
  ∃ polls, 0 < polls ∧ after = poll^[polls] before ∧ after.cancelled = true

private theorem Session.classify_new (config : Config) (document : Document UnitId) :
    (Session.classify { config } (some document)).outcome =
      (SourceOrigin.classify config document.tree {}).outcome.mapError .classify := by
  have hcommit := Cache.commit_outcome_token (({} : Cache UnitId).recordLookup false) document
    (SourceOrigin.classify config document.tree {})
  exact congrArg (Except.mapError SessionError.classify) hcommit.1

/-- A new session gives the verdict on the unit of a path, or the error of reading it. -/
theorem Session.classifyPath_new (files : FileTree) (config : Config) (path : Path) :
    (Session.classifyPath { config } files path).outcome = files.verdictAt config path := by
  unfold Session.classifyPath Session.load FileTree.verdictAt FileTree.unitAt
  cases files.resolutionError? path with
  | some error => rfl
  | none =>
    simp only [UnitTable.load, UnitTable.find?, List.lookup_nil, FileTree.unitIn]
    cases files.readUnit (Path.ofLocation (files.resolve path)) config.sourceEncoding with
    | error error => rfl
    | ok unit =>
      have hcommit := Cache.commit_outcome_token (({} : Cache UnitId).recordLookup false) ⟨0, unit.tree⟩
        (SourceOrigin.classify config unit.tree {})
      exact congrArg (Except.mapError SessionError.classify) hcommit.1

theorem Session.classify_of_hit {document : Document UnitId} {verdict : Bool}
    (h : session.cache.get? document.name = some verdict) :
    session.classify (some document) =
      ⟨.ok verdict, { session with cache := session.cache.recordLookup true }, []⟩ := by
  simp only [classify, TreeContext.classify, Cache.classifyDocument, h]
  rfl

theorem Session.classify_of_unstored {document : Document UnitId} (h : session.cache.get? document.name = none) :
    session.classify (some document) = session.absorb ((session.cache.recordLookup false).commit document
      (SourceOrigin.classify session.config document.tree session.token)) := by
  simp only [classify, TreeContext.classify, Cache.classifyDocument, h, id]

theorem Session.classifyPath_of_error {path : Path} {error : SessionError}
    (h : (session.load files path).outcome = .error error) :
    (session.classifyPath files path).outcome = .error error ∧
      (session.classifyPath files path).session = (session.load files path).session := by
  simp only [classifyPath, h, and_self]

theorem Session.classifyPath_of_unit {path : Path} {unit : LoadedUnit}
    (h : (session.load files path).outcome = .ok unit) :
    (session.classifyPath files path).outcome =
        ((session.load files path).session.classify (some unit.document)).outcome ∧
      (session.classifyPath files path).session =
        ((session.load files path).session.classify (some unit.document)).session := by
  simp only [classifyPath, h, and_self]

/-- A session that agrees gives the verdict on a unit, from its cache or not, unless a poll finds it cancelled. -/
theorem Session.Agrees.classify_cases (h : session.Agrees files units) {document : Document UnitId}
    (hknown : session.Knows units document) :
    (∃ verdict, (session.classify (some document)).outcome = .ok verdict ∧
      HasVerdict session.config document.tree verdict) ∨
    (session.classify (some document)).outcome = .error (.classify .cancelled) ∧
      session.cache.contains document.name = false ∧
      session.token.FoundCancelled (session.classify (some document)).session.token := by
  have hunits : units document.name = document.tree := (congrArg Document.tree hknown.2).symm
  cases hfound : session.cache.get? document.name with
  | some verdict =>
    have hverdict := h.cached.verdicts document.name verdict (Cache.mem_of_get? hfound)
    refine .inl ⟨verdict, ?_, hunits ▸ hverdict⟩
    rw [Session.classify_of_hit hfound]
  | none =>
    have hresult := Session.classify_of_unstored hfound
    obtain ⟨houtcome, htoken⟩ := (session.cache.recordLookup false).commit_outcome_token document
      (SourceOrigin.classify session.config document.tree session.token)
    obtain ⟨verdict, hverdict⟩ := exists_outcomeBy h.valid document.tree Heuristic.all
    rcases classifyBy_cases session.config document.tree session.token Heuristic.all with
      hpending | ⟨hpending, polls, hpos, hpolled, hcancelled⟩
    · refine .inl ⟨verdict, ?_, (hasVerdict_iff _ _ _).mpr hverdict⟩
      rw [hresult, Session.absorb, houtcome, SourceOrigin.classify, hpending, hverdict]
      rfl
    · refine .inr ⟨?_, ?_, polls, hpos, ?_⟩
      · rw [hresult, Session.absorb, houtcome, SourceOrigin.classify, hpending]
        rfl
      · rw [Cache.contains, hfound, Option.isSome_none]
      · rw [hresult, Session.absorb, htoken, SourceOrigin.classify, hpolled]
        exact ⟨rfl, hcancelled⟩

/-- The result is that of a new session, unless nothing is stored of the unit and a poll made since finds the token
cancelled. -/
structure SessionResult.Follows (result fresh : SessionResult Bool) (token : CancellationToken) (unstored : Prop) :
    Prop where
  value : ∀ verdict, result.outcome = .ok verdict → fresh.outcome = .ok verdict
  reading : ∀ error, result.outcome = .error (.load error) ↔ fresh.outcome = .error (.load error)
  cancelled : ∀ error, result.outcome = .error (.classify error) →
    error = .cancelled ∧ unstored ∧ token.FoundCancelled result.session.token
  uninterrupted : result.outcome ≠ .error .interrupted

private theorem Session.Agrees.classify_follows (h : session.Agrees files units) {document : Document UnitId}
    (hknown : session.Knows units document) :
    (session.classify (some document)).Follows (Session.classify { config := session.config } (some document))
      session.token (session.cache.contains document.name = false) := by
  obtain ⟨verdict, hverdict⟩ := exists_hasVerdict h.valid document.tree
  have hnew : (Session.classify { config := session.config } (some document)).outcome = .ok verdict := by
    rw [Session.classify_new, show (SourceOrigin.classify _ _ _).outcome = _ from hverdict]
    rfl
  rcases h.classify_cases hknown with ⟨found, houtcome, hfound⟩ | ⟨houtcome, hunstored, hcancelled⟩
  · obtain rfl : verdict = found := Except.ok.inj (hverdict.symm.trans hfound)
    constructor <;> simp [houtcome, hnew]
  · constructor <;> simp [houtcome, hnew, hunstored, hcancelled]

theorem Session.Agrees.classifyPath_follows (h : session.Agrees files units) (path : Path) :
    (session.classifyPath files path).Follows (Session.classifyPath { config := session.config } files path)
      session.token (∃ unit, (session.load files path).outcome = .ok unit ∧
        session.cache.contains unit.id = false) := by
  obtain ⟨units', hgrows, hagrees, hcache, htoken, hloaded⟩ := Session.load_agrees h path
  cases houtcome : (session.load files path).outcome with
  | error error =>
    rw [houtcome] at hloaded
    obtain ⟨fault, hunit, rfl⟩ := hloaded
    have hresult := (Session.classifyPath_of_error houtcome).1
    have hnew := (Session.classifyPath_new files session.config path).trans (FileTree.verdictAt_of_error hunit)
    constructor <;> simp [hresult, hnew]
  | ok unit =>
    rw [houtcome] at hloaded
    obtain ⟨hknown, hunit⟩ := hloaded
    have hresult := Session.classifyPath_of_unit houtcome
    have hnew : (Session.classifyPath { config := session.config } files path).outcome =
        (Session.classify { config := session.config } (some unit.document)).outcome := by
      rw [Session.classifyPath_new, Session.classify_new, FileTree.verdictAt, hunit]
      rfl
    have hfollows := hagrees.classify_follows hknown
    rw [hgrows.config, hcache, htoken] at hfollows
    constructor
    · intro verdict hverdict
      exact hnew.trans (hfollows.value verdict (hresult.1.symm.trans hverdict))
    · intro error
      rw [hresult.1, hnew]
      exact hfollows.reading error
    · intro error herror
      obtain ⟨hcancelled, hunstored, hfound⟩ := hfollows.cancelled error (hresult.1.symm.trans herror)
      rw [← hresult.2] at hfound
      exact ⟨hcancelled, ⟨unit, rfl, hunstored⟩, hfound⟩
    · rw [hresult.1]
      exact hfollows.uninterrupted

/-- Verdicts do not depend on history: after any operations on a session, classifying a path, or a unit that the host
holds, follows what a new session with the same configuration gives. -/
theorem Host.classify_follows_new (files : FileTree) {environment : Environment} {config : Option Config}
    {token : CancellationToken} {session : Session} (h : Session.start environment config token = .ok session)
    (operations : List Operation) :
    let host := after files { session } operations
    (∀ path, (host.session.classifyPath files path).Follows
      (Session.classifyPath { config := session.config } files path) host.session.token
      (∃ unit, (host.session.load files path).outcome = .ok unit ∧ host.session.cache.contains unit.id = false)) ∧
    ∀ document ∈ host.held, (host.session.classify (some document)).Follows
      (Session.classify { config := session.config } (some document)) host.session.token
      (host.session.cache.contains document.name = false) := by
  intro host
  obtain ⟨units, hagrees, hconfig⟩ := exists_agrees files h operations
  rw [← hconfig]
  refine ⟨fun path => ?_, fun document hmem => ?_⟩
  · exact hagrees.session.classifyPath_follows path
  · exact hagrees.session.classify_follows (hagrees.held document hmem)

def FileTree.single (name : Text) (content : Bytes) : FileTree where
  root := .directory [(name, .file content)]
  workingDirectory := []

/-- The unit was loaded before an interrupted scan cancelled the session and the host closed it. -/
theorem Host.classify_follows_new_closed :
    let files : FileTree := .single "a.cs".toList []
    let path : Path := ⟨[], ["a.cs".toList]⟩
    let host := after files { session := { config := {} } } [.load path, .run [path] true, .close]
    Session.start {} (some {}) {} = .ok { config := {} } ∧ host.held.length = 1 ∧
      ∀ document ∈ host.held, (host.session.classify (some document)).Follows
        (Session.classify { config := {} } (some document)) host.session.token
        (host.session.cache.contains document.name = false) := by
  have hstart : Session.start {} (some {}) {} = .ok { config := {} } :=
    Session.start_eq_ok Config.validate_default {} {}
  exact ⟨hstart, by decide +kernel, (classify_follows_new _ hstart _).2⟩

end SourceOrigin
