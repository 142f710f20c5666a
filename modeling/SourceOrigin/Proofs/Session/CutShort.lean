import SourceOrigin.Proofs.Session.SingleWorker

/-! A cancelled scan leaves exactly a prefix of its work. Where one worker processes the files of a list in order, the session
is afterwards the one that an uncancelled scan of the first files leaves, and the next file may be loaded besides. From then
on it is cancelled for ever, and scans change nothing of it. -/
namespace SourceOrigin
variable {files : FileTree} {units : UnitId → SyntaxTree} {session : Session} {paths : List Path}

/-- The session of the host is cancelled. However a scan of a list goes on, it changes nothing of the session but the token;
and unless the list is empty or the user interrupts it, it ends in a cancellation. -/
structure Host.IsHalted (files : FileTree) (host : Host) : Prop where
  cancelled : host.session.token.cancelled = true
  pool : ∀ paths schedule root,
    let pool := (Pool.start host.session paths).run files schedule
    pool.session = host.session.under pool.session.token ∧
      (paths ≠ [] → pool.interrupted = false → ∀ outcome, pool.outcome? root = some outcome →
        outcome = .error (.classify .cancelled)) ∧
      (pool.IsSettled files → ∃ outcome, pool.outcome? root = some outcome)
  run : ∀ paths root interrupt,
    let scan := host.session.run files paths root interrupt
    scan.session = host.session.under scan.session.token ∧
      (paths ≠ [] → interrupt = false → scan.outcome = .error (.classify .cancelled))

/-- A scan of the list was cancelled at one of its files, and has left the host this session. -/
structure Host.IsCutShort (files : FileTree) (host : Host) (paths : List Path) (last : Session) : Prop where
  /-- The files before it are processed as if nobody had cancelled the scan, and the work on it has stored no verdict. -/
  stopped : ∃ position path, paths[position]? = some path ∧
    let before := host.session.processed files (paths.take position)
    before.StoppedAt files path last ∧ last.cache.entries = before.cache.entries ∧
      ∀ listed ∈ paths.take position, before.Settles files listed
  /-- What was in the tables before the scan is in them still. -/
  kept : host.session.Extends last
  /-- Whatever the host does with the session from now on, it stays cancelled, and scans change nothing of it. -/
  halted : ∀ operations, (after files { host with session := last } operations).IsHalted files

namespace Host
variable {host : Host}

theorem Agrees.isHalted (h : host.Agrees files units) (hcancelled : host.session.token.cancelled = true) :
    host.IsHalted files := by
  have hworkers := (Config.validate_ok h.session.valid).1
  have hpool (paths : List Path) (schedule : List PoolEvent) (root : Text) :
      let pool := (Pool.start host.session paths).run files schedule
      pool.session = host.session.under pool.session.token ∧
        (paths ≠ [] → pool.interrupted = false → ∀ outcome, pool.outcome? root = some outcome →
          outcome = .error (.classify .cancelled)) ∧
        (pool.IsSettled files → ∃ outcome, pool.outcome? root = some outcome) := by
    obtain ⟨units', hgrows, hagrees⟩ := Pool.agrees_run (Pool.agrees_start h.session paths) schedule
    have hhalted := Pool.isHalted_run hcancelled files paths schedule
    refine ⟨hhalted.unchanged, fun hne hinterrupted outcome houtcome => ?_, fun hsettled => ?_⟩
    · exact hagrees.outcome_of_isHalted hhalted hne hinterrupted houtcome
    · exact Pool.exists_outcome (hgrows.config ▸ hworkers) (Pool.dropsForCause_run host.session paths schedule) hsettled root
  refine ⟨hcancelled, hpool, fun paths root interrupt => ?_⟩
  obtain ⟨schedule, hsession, hinterrupted, houtcome⟩ :=
    host.session.exists_schedule files paths root interrupt hworkers
  obtain ⟨hunchanged, hends, -⟩ := hpool paths schedule root
  refine ⟨hsession ▸ hunchanged, fun hne hinterrupt => hends hne ?_ _ houtcome⟩
  subst hinterrupt
  exact Bool.eq_false_iff.mpr fun hstopped => Bool.false_ne_true (hinterrupted hstopped)

/-- A scan by one worker that ends in a cancellation has come to a file of the list, and has left what an uncancelled scan
of the files before it leaves. -/
theorem Agrees.isCutShort (h : host.Agrees files units) (hworkers : host.session.config.maxWorkers = 1) {root : Text}
    {schedule : List PoolEvent}
    (houtcome : ((Pool.start host.session paths).run files schedule).outcome? root =
      some (.error (.classify .cancelled))) :
    host.IsCutShort files paths ((Pool.start host.session paths).run files schedule).session := by
  obtain ⟨units', hgrows, hagrees⟩ := Pool.agrees_run (Pool.agrees_start h.session paths) schedule
  obtain ⟨position, hscan⟩ := Pool.scanAt_run h.session hworkers paths schedule
  obtain ⟨hcancelled, hlt, hrests⟩ := hagrees.restsAt_of_cancelled hscan houtcome
  have hlisted : paths[position]? = some paths[position] := List.getElem?_eq_getElem hlt
  have hstopped : (host.session.processed files (paths.take position)).StoppedAt files paths[position]
      ((Pool.start host.session paths).run files schedule).session := by
    rcases hrests with hlast | ⟨-, path, hpath, hstopped⟩
    · exact .unloaded hlast
    · obtain rfl := Option.some.inj (hpath.symm.trans hlisted)
      exact hstopped
  obtain ⟨hextends, hentries⟩ := hstopped.extends
  obtain ⟨hprocessed, -, hsettled⟩ := h.session.settles_processed (paths.take position)
  refine ⟨⟨position, _, hlisted, hstopped, hentries, hsettled⟩, hprocessed.trans hextends, fun operations => ?_⟩
  have hlast : Agrees files units'
      { host with session := ((Pool.start host.session paths).run files schedule).session } :=
    ⟨hagrees.session, fun document hmem => (h.held document hmem).grows hgrows⟩
  obtain ⟨_, hgrows', hafter⟩ := hlast.after operations
  exact hafter.isHalted (hgrows'.cancelled hcancelled)

/-- A cancelled scan leaves a prefix of its work. Whatever was done with a session of one worker before, wherever a poll finds
the cancellation, and whichever schedule the pool follows, a scan that ends in a cancellation is cut short at one file of its
list; so is a scan that processes its files in order. -/
theorem scan_isCutShort (files : FileTree) {environment : Environment} {config : Option Config}
    {token : CancellationToken} {session : Session} (h : Session.start environment config token = .ok session)
    (hworkers : session.config.maxWorkers = 1) (operations : List Operation) (paths : List Path) (root : Text) :
    let host := after files { session } operations
    (∀ schedule,
      let pool := (Pool.start host.session paths).run files schedule
      pool.outcome? root = some (.error (.classify .cancelled)) → host.IsCutShort files paths pool.session) ∧
    let scan := host.session.run files paths root
    scan.outcome = .error (.classify .cancelled) → host.IsCutShort files paths scan.session := by
  intro host
  obtain ⟨units, hagrees, hconfig⟩ := exists_agrees files h operations
  have hone : host.session.config.maxWorkers = 1 := hconfig ▸ hworkers
  refine ⟨fun schedule houtcome => hagrees.isCutShort hone houtcome, fun hcancelled => ?_⟩
  obtain ⟨schedule, hsession, -, houtcome⟩ :=
    host.session.exists_schedule files paths root false (Config.validate_ok hagrees.session.valid).1
  rw [hcancelled] at houtcome
  exact hsession ▸ hagrees.isCutShort hone houtcome

/-- The fourth poll finds the cancellation: the first file is missing, and the second has been loaded by then. -/
theorem scan_isCutShort_loaded :
    let files : FileTree := .single "a.cs".toList []
    let present : Path := ⟨[], ["a.cs".toList]⟩
    let missing : Path := ⟨[], ["b.cs".toList]⟩
    let session : Session := { config := { maxWorkers := 1 }, token := { countdown := some 4 } }
    let paths := [missing, present, present]
    let schedule : List PoolEvent :=
      .start :: .replicate 3 (.step 0) ++ [.collect 0, .start] ++ .replicate 8 (.step 1) ++ [.collect 1, .drop 2]
    let pool := (Pool.start session paths).run files schedule
    let scan := session.run files paths []
    Session.start {} (some { maxWorkers := 1 }) { countdown := some 4 } = .ok session ∧
      session.config.maxWorkers = 1 ∧ pool.outcome? [] = some (.error (.classify .cancelled)) ∧
      scan.outcome = .error (.classify .cancelled) ∧ scan.session.units.size = 1 ∧
      Host.IsCutShort files { session } paths pool.session ∧ Host.IsCutShort files { session } paths scan.session := by
  intro files present missing session paths schedule pool scan
  have hstart : Session.start {} (some { maxWorkers := 1 }) { countdown := some 4 } = .ok session :=
    Session.start_eq_ok (eq_ok_of_toOption (by decide +kernel)) {} _
  have hpool : pool.outcome? [] = some (.error (.classify .cancelled)) := by decide +kernel
  have hscan : scan.outcome = .error (.classify .cancelled) := by decide +kernel
  have hloaded : scan.session.units.size = 1 := by decide +kernel
  obtain ⟨hscheduled, hordered⟩ := scan_isCutShort files hstart rfl [] paths []
  exact ⟨hstart, rfl, hpool, hscan, hloaded, hscheduled schedule hpool, hordered hscan⟩

end Host

end SourceOrigin
