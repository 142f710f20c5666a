import SourceOrigin.Proofs.Session.Verdict

/-! The two tables of a session tell the truth. `units` says which tree stands behind each number that the session has
given out; it grows with the session, and what is known of a number is never taken back. Both invariants are shown for
one atomic step of loading and for one of classifying, and from there for whole calls. -/
namespace SourceOrigin
variable {files : FileTree} {units units' : UnitId → SyntaxTree} {session session' : Session}

namespace Session

/-- The number of the document was given out, and it was given to this tree. -/
def Knows (units : UnitId → SyntaxTree) (session : Session) (document : Document UnitId) : Prop :=
  document.name < session.units.nextId ∧ document = documentOf units document.name

/-- Every loaded unit is what its file is read as, and every verdict is that on its unit. -/
structure Agrees (files : FileTree) (units : UnitId → SyntaxTree) (session : Session) : Prop where
  valid : session.config.validate = .ok ()
  loaded : ∀ location loaded, (location, loaded) ∈ session.units.entries →
    session.Knows units loaded.document ∧ files.unitIn session.config location = .ok loaded.unit
  cached : session.cache.Agrees session.config units
  named : ∀ name verdict, (name, verdict) ∈ session.cache.entries → name < session.units.nextId

/-- The second state may come after the first: numbers keep their trees, and a cancellation is for ever. -/
structure Grows (units units' : UnitId → SyntaxTree) (session session' : Session) : Prop where
  config : session'.config = session.config
  count : session.units.nextId ≤ session'.units.nextId
  kept : ∀ id < session.units.nextId, units' id = units id
  cancelled : session.token.cancelled = true → session'.token.cancelled = true

theorem Grows.refl (units : UnitId → SyntaxTree) (session : Session) : session.Grows units units session :=
  ⟨rfl, Nat.le_refl _, fun _ _ => rfl, id⟩

theorem Grows.trans {later : UnitId → SyntaxTree} {last : Session} (h : session.Grows units units' session')
    (h' : session'.Grows units' later last) : session.Grows units later last where
  config := h'.config.trans h.config
  count := Nat.le_trans h.count h'.count
  kept id hid := (h'.kept id (Nat.lt_of_lt_of_le hid h.count)).trans (h.kept id hid)
  cancelled hcancelled := h'.cancelled (h.cancelled hcancelled)

theorem Knows.grows {document : Document UnitId} (h : session.Knows units document)
    (hgrows : session.Grows units units' session') : session'.Knows units' document := by
  obtain ⟨hname, hdocument⟩ := h
  refine ⟨Nat.lt_of_lt_of_le hname hgrows.count, hdocument.trans ?_⟩
  rw [documentOf, documentOf, hgrows.kept _ hname]

/-- A number that is given out changes nothing about those given out before. -/
theorem Agrees.adopt (h : session.Agrees files units) (tree : SyntaxTree) :
    session.Grows units (Function.update units session.units.nextId tree) (session.adopt tree).1 ∧
      (session.adopt tree).1.Agrees files (Function.update units session.units.nextId tree) ∧
      (session.adopt tree).1.Knows (Function.update units session.units.nextId tree) (session.adopt tree).2 := by
  have hgrows : session.Grows units (Function.update units session.units.nextId tree) (session.adopt tree).1 := by
    refine ⟨rfl, Nat.le_succ _, fun id hid => ?_, id⟩
    exact Function.update_of_ne (Nat.ne_of_lt hid) _ _
  refine ⟨hgrows, ⟨h.valid, fun location loaded hmem => ?_, ⟨fun name verdict hmem => ?_, h.cached.distinct⟩,
    fun name verdict hmem => ?_⟩, Nat.lt_succ_self _, ?_⟩
  · obtain ⟨hknown, hunit⟩ := h.loaded location loaded hmem
    exact ⟨hknown.grows hgrows, hunit⟩
  · rw [hgrows.kept name (h.named name verdict hmem)]
    exact h.cached.verdicts name verdict hmem
  · exact Nat.lt_succ_of_lt (h.named name verdict hmem)
  · change Document.mk session.units.nextId tree =
      documentOf (Function.update units session.units.nextId tree) session.units.nextId
    rw [documentOf, Function.update_self]

/-- A session that has only come to a cancelled token agrees as before. -/
theorem Agrees.withToken (h : session.Agrees files units) (token : CancellationToken) :
    Agrees files units { session with token } :=
  ⟨h.valid, h.loaded, h.cached, h.named⟩

theorem Agrees.cancel (h : session.Agrees files units) :
    session.Grows units units session.cancel.session ∧ session.cancel.session.Agrees files units :=
  ⟨⟨rfl, Nat.le_refl _, fun _ _ => rfl, fun _ => rfl⟩, h.withToken _⟩

/-- Both tables are emptied, but the numbers stay given out. -/
theorem Agrees.close (h : session.Agrees files units) :
    session.Grows units units session.close ∧ session.close.Agrees files units := by
  refine ⟨⟨rfl, Nat.le_refl _, fun _ _ => rfl, id⟩, h.valid, ?_, ⟨?_, ?_⟩, ?_⟩
  · intro location loaded hmem
    exact absurd hmem List.not_mem_nil
  · intro name verdict hmem
    exact absurd hmem List.not_mem_nil
  · exact List.nodup_nil
  · intro name verdict hmem
    exact absurd hmem List.not_mem_nil

/-- A session starts with any configuration that is accepted. -/
theorem start_eq_ok {config : Config} (hvalid : config.validate = .ok ()) (environment : Environment)
    (token : CancellationToken) : Session.start environment (some config) token = .ok { config, token } := by
  simp only [start, Option.map_some, Option.getD_some, hvalid]

/-- A session that has just been started knows nothing yet. -/
theorem agrees_of_start {environment : Environment} {config : Option Config} {token : CancellationToken}
    (h : Session.start environment config token = .ok session) (units : UnitId → SyntaxTree) :
    session.Agrees files units := by
  unfold Session.start at h
  split at h
  · simp at h
  split at h
  · simp at h
  · next hvalid =>
    obtain rfl := Except.ok.inj h
    exact ⟨hvalid, by simp, ⟨by simp, by simp⟩, by simp⟩

end Session

/-! ### Loading -/

def LoadCall.Agrees (files : FileTree) (units : UnitId → SyntaxTree) (session : Session) (call : LoadCall) : Prop :=
  match call.stage with
  | .lookup | .reading => True
  | .inserting loaded | .finished (.ok loaded) =>
    session.Knows units loaded.document ∧ files.unitIn session.config call.location = .ok loaded.unit
  | .finished (.error error) => files.unitIn session.config call.location = .error error

theorem UnitTable.mem_of_find? {table : UnitTable} {location : Location} {loaded : LoadedUnit}
    (h : table.find? location = some loaded) : (location, loaded) ∈ table.entries := by
  obtain ⟨before, behind, hentries, -⟩ := List.lookup_eq_some_iff.mp h
  simp [hentries]

/-- A unit of the file is entered under its location, or another one that is there already is found. -/
theorem Session.Agrees.insert (h : session.Agrees files units) {location : Location} {fresh : LoadedUnit}
    (hknown : session.Knows units fresh.document) (hunit : files.unitIn session.config location = .ok fresh.unit) :
    Agrees files units { session with units := (session.units.insertIfAbsent location fresh).1 } ∧
      Knows units { session with units := (session.units.insertIfAbsent location fresh).1 }
        (session.units.insertIfAbsent location fresh).2.document ∧
      files.unitIn session.config location = .ok (session.units.insertIfAbsent location fresh).2.unit := by
  unfold UnitTable.insertIfAbsent
  cases hfound : session.units.find? location with
  | some present => exact ⟨h, h.loaded location present (UnitTable.mem_of_find? hfound)⟩
  | none =>
    refine ⟨⟨h.valid, fun other loaded hmem => ?_, h.cached, h.named⟩, hknown, hunit⟩
    rcases List.mem_append.mp hmem with hmem | hmem
    · exact h.loaded other loaded hmem
    · obtain ⟨rfl, rfl⟩ := Prod.mk.inj (List.mem_singleton.mp hmem)
      exact ⟨hknown, hunit⟩

/-- One step of loading keeps the agreement; the step that reads the file gives its unit a number. -/
theorem LoadCall.step_agrees {call : LoadCall} (h : session.Agrees files units)
    (hcall : call.Agrees files units session) :
    ∃ units', session.Grows units units'
        { session with units := (call.step files session.config.sourceEncoding session.units).1 } ∧
      Session.Agrees files units'
        { session with units := (call.step files session.config.sourceEncoding session.units).1 } ∧
      (call.step files session.config.sourceEncoding session.units).2.Agrees files units'
        { session with units := (call.step files session.config.sourceEncoding session.units).1 } := by
  obtain ⟨location, stage⟩ := call
  cases stage with
  | lookup =>
    refine ⟨units, ?_⟩
    simp only [step]
    cases hfound : session.units.find? location with
    | none => exact ⟨.refl units session, h, trivial⟩
    | some loaded => exact ⟨.refl units session, h, h.loaded location loaded (UnitTable.mem_of_find? hfound)⟩
  | reading =>
    simp only [step]
    cases hread : files.readUnit (Path.ofLocation location) session.config.sourceEncoding with
    | error error => exact ⟨units, .refl units session, h, hread⟩
    | ok unit =>
      obtain ⟨hgrows, hagrees, hknows⟩ := h.adopt unit.tree
      exact ⟨_, hgrows, hagrees, hknows, hread⟩
  | inserting fresh =>
    obtain ⟨hagrees, hfound⟩ := h.insert hcall.1 hcall.2
    refine ⟨units, ⟨rfl, ?_, fun _ _ => rfl, id⟩, hagrees, hfound⟩
    simp only [step, UnitTable.insertIfAbsent]
    split <;> exact Nat.le_refl _
  | finished outcome => exact ⟨units, .refl units session, h, hcall⟩

private theorem LoadCall.advance_agrees (n : Nat) {call : LoadCall} (h : session.Agrees files units)
    (hcall : call.Agrees files units session) :
    ∃ units', session.Grows units units'
        { session with units := (advance files session.config.sourceEncoding n session.units call).1 } ∧
      Session.Agrees files units'
        { session with units := (advance files session.config.sourceEncoding n session.units call).1 } ∧
      (advance files session.config.sourceEncoding n session.units call).2.Agrees files units'
        { session with units := (advance files session.config.sourceEncoding n session.units call).1 } := by
  induction n generalizing session units call with
  | zero => exact ⟨units, .refl units session, h, hcall⟩
  | succ n ih =>
    obtain ⟨next, hgrows, hagrees, hnext⟩ := step_agrees h hcall
    obtain ⟨last, hgrows', hagrees', hlast⟩ := ih hagrees hnext
    exact ⟨last, hgrows.trans hgrows', hagrees', hlast⟩

/-- Loading a path gives its unit, or the error of reading it. -/
theorem Session.load_agrees (h : session.Agrees files units) (path : Path) :
    ∃ units', session.Grows units units' (session.load files path).session ∧
      (session.load files path).session.Agrees files units' ∧
      (session.load files path).session.cache = session.cache ∧
      (session.load files path).session.token = session.token ∧
      match (session.load files path).outcome with
      | .ok loaded => (session.load files path).session.Knows units' loaded.document ∧
          files.unitAt session.config path = .ok loaded.unit
      | .error error => ∃ fault, files.unitAt session.config path = .error fault ∧ error = .load fault := by
  unfold Session.load FileTree.unitAt
  cases files.resolutionError? path with
  | some error => exact ⟨units, .refl units session, h, rfl, rfl, error, rfl, rfl⟩
  | none =>
    have hstart : LoadCall.Agrees files units session ⟨files.resolve path, .lookup⟩ := trivial
    obtain ⟨units', hgrows, hagrees, hcall⟩ := LoadCall.advance_agrees 3 h hstart
    rw [LoadCall.advance_eq_load] at hgrows hagrees hcall
    refine ⟨units', hgrows, hagrees, rfl, rfl, ?_⟩
    dsimp only [LoadCall.Agrees] at hcall ⊢
    cases houtcome : (session.units.load files session.config.sourceEncoding (files.resolve path)).2 with
    | ok loaded =>
      rw [houtcome] at hcall
      exact hcall
    | error error =>
      rw [houtcome] at hcall
      exact ⟨error, hcall, rfl⟩

/-! ### Classifying -/

private theorem Moves.mem_entries {κ : Type} [DecidableEq κ] {config : Config} {cache after : Cache κ}
    {document : Document κ}
    {stage stage' : CallStage} (h : Moves config cache (some document) stage after stage') {name : κ} {verdict : Bool}
    (hmem : (name, verdict) ∈ after.entries) : (name, verdict) ∈ cache.entries ∨ name = document.name := by
  cases h with
  | commits document verdict' =>
    rcases cache.entries_tryAdd document.name verdict' with hentries | ⟨-, hentries⟩
    · exact .inl (hentries ▸ hmem)
    · rw [hentries, List.mem_append, List.mem_singleton] at hmem
      exact hmem.imp id fun heq => (Prod.mk.inj heq).1
  | _ => exact .inl hmem

/-- A step keeps the document of the call, and polls its token once at most. -/
theorem Call.step_document_token {κ : Type} [DecidableEq κ] (config : Config) (cache : Cache κ) (call : Call κ) :
    (call.step config cache).2.1.document = call.document ∧
      ((call.step config cache).2.1.token = call.token ∨ (call.step config cache).2.1.token = call.token.poll) := by
  obtain ⟨document, token, stage⟩ := call
  cases document with
  | none => exact ⟨rfl, .inl rfl⟩
  | some document =>
    cases stage with
    | recording found => cases found <;> exact ⟨rfl, .inl rfl⟩
    | checking pending =>
      cases pending with
      | nil => exact ⟨rfl, .inl rfl⟩
      | cons heuristic rest =>
        simp only [step]
        split
        · exact ⟨rfl, .inr rfl⟩
        split <;> exact ⟨rfl, .inr rfl⟩
    | _ => exact ⟨rfl, .inl rfl⟩

/-- A step fails only if its poll finds the token cancelled: no pattern of an accepted configuration is bad. -/
theorem Call.step_error {κ : Type} [DecidableEq κ] {config : Config} (hvalid : config.validate = .ok ())
    {cache : Cache κ} {document : Document κ} {token : CancellationToken} {stage : CallStage} {error : ClassifyError}
    (hopen : ∀ outcome, stage ≠ .finished outcome)
    (h : (Call.step config cache ⟨some document, token, stage⟩).2.1.stage = .finished (.error error)) :
    error = .cancelled ∧ (Call.step config cache ⟨some document, token, stage⟩).2.1.token.cancelled = true := by
  cases stage with
  | lookup => simp [step] at h
  | recording found => cases found <;> simp [step] at h
  | checking pending =>
    cases pending with
    | nil => simp [step] at h
    | cons heuristic rest =>
      obtain ⟨sign, hsign⟩ := heuristic.exists_holds hvalid document.tree
      simp only [step, hsign] at h ⊢
      by_cases hcancelled : token.poll.cancelled = true
      · simp only [hcancelled, if_true] at h ⊢
        exact ⟨(Except.error.inj (CallStage.finished.inj h)).symm, trivial⟩
      · simp only [hcancelled, Bool.false_eq_true, if_false] at h
        cases sign <;> simp at h
  | committing verdict =>
    rcases hadd : cache.tryAdd document.name verdict with ⟨after, _ | _⟩
    all_goals simp [step, Cache.commit, hadd] at h
  | finished outcome => exact absurd rfl (hopen outcome)

/-- The stage of a call on a document tells nothing wrong, and an error only of a cancellation. -/
structure Session.Backs (units : UnitId → SyntaxTree) (session : Session) (document : Document UnitId)
    (stage : CallStage) : Prop where
  known : session.Knows units document
  verdict : stage.Agrees session.config document.tree
  error : ∀ error, stage = .finished (.error error) → error = .cancelled ∧ session.token.cancelled = true

theorem Session.Backs.grows {document : Document UnitId} {stage : CallStage} (h : session.Backs units document stage)
    (hgrows : session.Grows units units' session') : session'.Backs units' document stage where
  known := h.known.grows hgrows
  verdict := hgrows.config ▸ h.verdict
  error error hstage := (h.error error hstage).imp id hgrows.cancelled

def Session.afterStep (session : Session) (document : Document UnitId) (stage : CallStage) : Session :=
  let (cache, call, _) := Call.step session.config session.cache ⟨some document, session.token, stage⟩
  { session with cache, token := call.token }

theorem Call.step_agrees {document : Document UnitId} {stage : CallStage} (h : session.Agrees files units)
    (hstage : session.Backs units document stage) :
    session.Grows units units (session.afterStep document stage) ∧
      (session.afterStep document stage).Agrees files units ∧
      (session.afterStep document stage).Backs units document
        (Call.step session.config session.cache ⟨some document, session.token, stage⟩).2.1.stage := by
  have hgrows : session.Grows units units (session.afterStep document stage) := by
    refine ⟨rfl, Nat.le_refl _, fun _ _ => rfl, fun hcancelled => ?_⟩
    rcases (Call.step_document_token session.config session.cache ⟨some document, session.token, stage⟩).2 with
      htoken | htoken
    · exact (congrArg (·.cancelled) htoken).trans hcancelled
    · exact (congrArg (·.cancelled) htoken).trans (CancellationToken.cancelled_poll hcancelled)
  refine ⟨hgrows, ?_⟩
  by_cases hopen : ∀ outcome, stage ≠ .finished outcome
  · have hunfinished : (⟨some document, session.token, stage⟩ : Call UnitId).outcome? = none := by
      cases stage with
      | finished outcome => exact absurd rfl (hopen outcome)
      | _ => rfl
    obtain ⟨hdocument, hmoves⟩ := Call.step_moves session.config session.cache hunfinished
    obtain ⟨hcached, hcall⟩ := hmoves.agrees hdocument h.cached ⟨hstage.known.2, hstage.verdict⟩
    simp only [Call.Agrees, hdocument] at hcall
    refine ⟨⟨h.valid, h.loaded, hcached, fun name verdict hmem => ?_⟩, hstage.known, hcall.2, fun error hfailed => ?_⟩
    · rcases hmoves.mem_entries hmem with hmem | rfl
      · exact h.named name verdict hmem
      · exact hstage.known.1
    · exact Call.step_error h.valid hopen hfailed
  · obtain ⟨outcome, rfl⟩ : ∃ outcome, stage = .finished outcome := by simpa using hopen
    exact ⟨h, hstage⟩

private theorem Call.advance_agrees (n : Nat) {document : Document UnitId} {stage : CallStage}
    (h : session.Agrees files units)
    (hstage : session.Backs units document stage) :
    let last := advance session.config n session.cache ⟨some document, session.token, stage⟩
    session.Grows units units { session with cache := last.1, token := last.2.1.token } ∧
      Session.Agrees files units { session with cache := last.1, token := last.2.1.token } := by
  induction n generalizing session stage with
  | zero => exact ⟨.refl units session, h⟩
  | succ n ih =>
    obtain ⟨hgrows, hagrees, hnext⟩ := step_agrees h hstage
    have hcall : (Call.step session.config session.cache ⟨some document, session.token, stage⟩).2.1 =
        ⟨some document, (session.afterStep document stage).token,
          (Call.step session.config session.cache ⟨some document, session.token, stage⟩).2.1.stage⟩ :=
      congrArg (Call.mk · _ _) (step_document_token session.config session.cache ⟨some document, session.token, stage⟩).1
    obtain ⟨hgrows', hagrees'⟩ := ih hagrees hnext
    rw [← hcall] at hgrows' hagrees'
    exact ⟨hgrows.trans hgrows', hagrees'⟩

/-- A classification leaves both tables in agreement. -/
theorem Session.classify_agrees {document : Document UnitId} (h : session.Agrees files units)
    (hknown : session.Knows units document) :
    session.Grows units units (session.classify (some document)).session ∧
      (session.classify (some document)).session.Agrees files units := by
  have hstart : session.Backs units document .lookup := ⟨hknown, trivial, by simp⟩
  have hlast := Call.advance_agrees 7 h hstart
  rw [Call.advance_eq_classifyDocument] at hlast
  exact hlast

end SourceOrigin
