import SourceOrigin.Proofs.Session.Cancellation

/-! Scans by one worker. It takes the files in the order of the list, so at any moment there is a position before which every
file is processed and behind which nothing has been done. This is where a cancellation stops the scan, whichever poll finds
it. -/
namespace SourceOrigin

def JobStage.IsDone : JobStage → Prop
  | finished outcome | delivered outcome => outcome ≠ .error (.classify .cancelled)
  | _ => False

private theorem JobStage.IsDone.not_isRunning {stage : JobStage} (h : stage.IsDone) : stage.isRunning = false := by
  cases stage with
  | finished outcome => rfl
  | delivered outcome => rfl
  | _ => exact absurd h id

/-- What a scan may have made of its session when every file before the position is processed and none behind it is touched:
the file at the position is not touched either, or the scan is cancelled and the work on it was stopped. -/
def Session.RestsAt (session : Session) (files : FileTree) (paths : List Path) (position : Nat) (now : Session) : Prop :=
  now = (session.processed files (paths.take position)).under now.token ∨
    now.token.cancelled = true ∧ ∃ path, paths[position]? = some path ∧
      (session.processed files (paths.take position)).StoppedAt files path now

def Session.ready (session : Session) (files : FileTree) (paths : List Path) (position : Nat) : Session :=
  (session.processed files (paths.take position)).under (session.processed files (paths.take position)).token.poll

/-- One worker has come to the position of the list: the files before it are processed, nothing has been done with those
behind it, and the worker is at work on the file at the position or rests. -/
structure Session.ScanAt (session : Session) (files : FileTree) (paths : List Path) (position : Nat) (now : Session)
    (jobs : List Job) : Prop where
  done : ∀ index job, index < position → jobs[index]? = some job → job.stage.IsDone
  pending : ∀ index job, position < index → jobs[index]? = some job → job.stage.IsPending now.token
  here : ((∀ job, jobs[position]? = some job → job.stage.IsPending now.token) ∧
      session.RestsAt files paths position now) ∨
    ∃ job, jobs[position]? = some job ∧ job.stage.isRunning = true ∧ job.Tracks files (session.ready files paths position) now

private theorem getElem?_set_cases {α : Type} {list : List α} {position index : Nat} {new a : α}
    (h : (list.set position new)[index]? = some a) :
    index = position ∧ a = new ∨ index ≠ position ∧ list[index]? = some a := by
  by_cases hindex : index = position
  · subst hindex
    have hlt : index < list.length := by simpa using (List.getElem?_eq_some_iff.mp h).1
    rw [List.getElem?_set_self hlt] at h
    exact .inl ⟨rfl, (Option.some.inj h).symm⟩
  · rw [List.getElem?_set_ne (Ne.symm hindex)] at h
    exact .inr ⟨hindex, h⟩

namespace Session
variable {files : FileTree} {session now : Session} {paths : List Path} {position index : Nat} {jobs : List Job}
  {job : Job} {path : Path}

theorem RestsAt.under (h : session.RestsAt files paths position now) {token : CancellationToken}
    (htoken : now.token.cancelled = true → token.cancelled = true) :
    session.RestsAt files paths position (now.under token) := by
  rcases h with hnow | ⟨hcancelled, path, hpath, hstopped⟩
  · exact .inl (under_eq hnow token)
  · refine .inr ⟨htoken hcancelled, path, hpath, ?_⟩
    cases hstopped with
    | unloaded hnow => exact .unloaded (under_eq hnow token)
    | unclassified hloaded hunstored hnow => exact .unclassified hloaded hunstored (under_eq hnow token)

private theorem neverTrips_ready (session : Session) (files : FileTree) (paths : List Path) (position : Nat) :
    (session.ready files paths position).token.NeverTrips :=
  (session.neverTrips_processed files (paths.take position)).poll

private theorem processed_of_tracks {outcome : Except SessionError Bool} (hlisted : paths[position]? = some path)
    (h : Job.Tracks files (session.ready files paths position) now ⟨path, .finished outcome⟩) :
    outcome ≠ .error (.classify .cancelled) ∧
      now = (session.processed files (paths.take (position + 1))).under now.token := by
  obtain ⟨hnow, houtcome⟩ := h
  have hnever := (classifyPath_of_neverTrips (session.neverTrips_ready files paths position) files path).2
  refine ⟨fun hcancelled => hnever (houtcome.symm.trans hcancelled), ?_⟩
  rw [session.processed_take_succ files hlisted,
    processFile_of_neverTrips (session.neverTrips_processed files (paths.take position))]
  exact hnow

namespace ScanAt

theorem start (session : Session) (files : FileTree) (paths : List Path) :
    session.ScanAt files paths 0 session ((Pool.start session paths).jobs) := by
  have hwaiting (index : Nat) (job : Job) (hread : (Pool.start session paths).jobs[index]? = some job) :
      job.stage.IsPending session.token := by
    obtain ⟨path, -, rfl⟩ := List.mem_map.mp (List.mem_of_getElem? hread)
    trivial
  refine ⟨fun index job hlt _ => absurd hlt (Nat.not_lt_zero index), fun index job _ hread => hwaiting index job hread, ?_⟩
  exact .inl ⟨hwaiting 0, .inl rfl⟩

/-- The token alone has changed, and a cancellation is kept. -/
theorem under (h : session.ScanAt files paths position now jobs) {token : CancellationToken}
    (htoken : now.token.cancelled = true → token.cancelled = true) :
    session.ScanAt files paths position (now.under token) jobs where
  done := h.done
  pending index job hlt hread := (h.pending index job hlt hread).later htoken
  here := by
    rcases h.here with ⟨hpending, hrests⟩ | ⟨job, hread, hrunning, htracks⟩
    · exact .inl ⟨fun job hread => (hpending job hread).later htoken, hrests.under htoken⟩
    · exact .inr ⟨job, hread, hrunning, htracks.under token⟩

/-- A file where the worker is not at work comes to another stage. -/
theorem set (h : session.ScanAt files paths position now jobs) {new : Job}
    (hdone : index < position → new.stage.IsDone) (hpending : position ≤ index → new.stage.IsPending now.token)
    (hrests : index = position → session.RestsAt files paths position now) :
    session.ScanAt files paths position now (jobs.set index new) where
  done other job hlt hread := by
    rcases getElem?_set_cases hread with ⟨rfl, rfl⟩ | ⟨-, hread⟩
    · exact hdone hlt
    · exact h.done other job hlt hread
  pending other job hlt hread := by
    rcases getElem?_set_cases hread with ⟨rfl, rfl⟩ | ⟨-, hread⟩
    · exact hpending (Nat.le_of_lt hlt)
    · exact h.pending other job hlt hread
  here := by
    by_cases hindex : index = position
    · subst hindex
      refine .inl ⟨fun job hread => ?_, hrests rfl⟩
      rcases getElem?_set_cases hread with ⟨-, rfl⟩ | ⟨hne, -⟩
      · exact hpending (Nat.le_refl _)
      · exact absurd rfl hne
    · rw [List.getElem?_set_ne hindex]
      exact h.here

private theorem of_idle (h : session.ScanAt files paths position now jobs) (hread : jobs[index]? = some job)
    (hidle : job.stage.isRunning = false) :
    (position ≤ index → job.stage.IsPending now.token) ∧ (index = position → session.RestsAt files paths position now) := by
  rcases h.here with ⟨hpending, hrests⟩ | ⟨worked, hworked, hrunning, -⟩
  · refine ⟨fun hle => ?_, fun _ => hrests⟩
    rcases Nat.lt_or_eq_of_le hle with hlt | rfl
    · exact h.pending index job hlt hread
    · exact hpending job hread
  · have hne : index ≠ position := by
      rintro rfl
      obtain rfl : job = worked := Option.some.inj (hread.symm.trans hworked)
      simp [hidle] at hrunning
    exact ⟨fun hle => h.pending index job (Nat.lt_of_le_of_ne hle (Ne.symm hne)) hread, fun heq => absurd heq hne⟩

/-- Whatever becomes of the file at the position, the others stay as they are. -/
theorem others (h : session.ScanAt files paths position now jobs) (new : Job) :
    (∀ index job, index < position → (jobs.set position new)[index]? = some job → job.stage.IsDone) ∧
      ∀ index job, position < index → (jobs.set position new)[index]? = some job → job.stage.IsPending now.token := by
  refine ⟨fun index job hlt hread => ?_, fun index job hlt hread => ?_⟩
  · rw [List.getElem?_set_ne (Nat.ne_of_gt hlt)] at hread
    exact h.done index job hlt hread
  · rw [List.getElem?_set_ne (Nat.ne_of_lt hlt)] at hread
    exact h.pending index job hlt hread

/-- The worker takes the file at the position, or finds the session cancelled: a second one could take another. -/
theorem starts (h : session.ScanAt files paths position now jobs) (hworkers : now.config.maxWorkers = 1)
    (hread : jobs[index]? = some ⟨path, .waiting⟩) (hfirst : jobs.findIdx? (·.stage.isWaiting) = some index)
    (hfree : (jobs.countP (·.stage.isRunning) : Int) < now.config.maxWorkers) :
    session.ScanAt files paths position now (jobs.set index ⟨path, .starting⟩) := by
  have hle : position ≤ index := by
    by_contra hlt
    exact h.done index _ (Nat.lt_of_not_le hlt) hread
  obtain ⟨hwaits, hrests⟩ := h.of_idle hread rfl
  by_cases hcancelled : now.token.cancelled = true
  · exact h.set (fun hlt => absurd hle (Nat.not_le_of_lt hlt)) (fun _ => hcancelled) hrests
  -- Nothing runs, so the worker rests, and the files from the position on have all been waiting.
  have hidle : ∀ job ∈ jobs, job.stage.isRunning = false := by
    have hcount : jobs.countP (·.stage.isRunning) = 0 := by omega
    intro job hmem
    exact Bool.eq_false_iff.mpr (List.countP_eq_zero.mp hcount job hmem)
  have hindex : index = position := by
    by_contra hne
    have hlt : position < jobs.length := by
      have hbound := (List.getElem?_eq_some_iff.mp hread).1
      omega
    obtain ⟨hpending, -⟩ := h.of_idle (List.getElem?_eq_getElem hlt) (hidle _ (List.getElem_mem hlt))
    obtain ⟨_, -, hbefore⟩ := List.findIdx?_eq_some_iff_getElem.mp hfirst
    have hwaiting := (hpending (Nat.le_refl position)).isWaiting hcancelled
    exact hbefore position (Nat.lt_of_le_of_ne hle (Ne.symm hne)) hwaiting
  subst hindex
  have hnow : now = (session.processed files (paths.take index)).under now.token := by
    rcases hrests rfl with hnow | ⟨hfound, -⟩
    · exact hnow
    · exact absurd hfound hcancelled
  have hstarted : (jobs.set index ⟨path, .starting⟩)[index]? = some ⟨path, .starting⟩ :=
    List.getElem?_set_self (List.getElem?_eq_some_iff.mp hread).1
  obtain ⟨hdone, hpending⟩ := h.others ⟨path, .starting⟩
  exact ⟨hdone, hpending, .inr ⟨_, hstarted, rfl, hnow⟩⟩

/-- The worker on the file at the position makes a step: it comes further with the file, or to its end, or a poll stops
it. -/
theorem works (h : session.ScanAt files paths position now jobs) (hpaths : jobs.map (·.path) = paths)
    (hread : jobs[position]? = some job) (htracks : job.Tracks files (session.ready files paths position) now) :
    ∃ next, session.ScanAt files paths next (job.step files now).1 (jobs.set position (job.step files now).2) := by
  obtain ⟨hpath, hkept⟩ := Job.step_path_token files now job
  have hlisted : paths[position]? = some job.path := by
    rw [← hpaths, List.getElem?_map, hread]
    rfl
  have hstep := htracks.step (session.neverTrips_ready files paths position)
  generalize job.step files now = result at hpath hkept hstep ⊢
  obtain ⟨after, next⟩ := result
  dsimp only at hpath hkept hstep ⊢
  have hset : (jobs.set position next)[position]? = some next :=
    List.getElem?_set_self (List.getElem?_eq_some_iff.mp hread).1
  obtain ⟨hdone, hbefore⟩ := h.others next
  have hpending : ∀ index job, position < index → (jobs.set position next)[index]? = some job →
      job.stage.IsPending after.token := by
    intro index job hlt hindex
    exact (hbefore index job hlt hindex).later hkept
  rcases hstep with htracks | ⟨hstage, hcancelled, hstopped⟩
  · by_cases hrunning : next.stage.isRunning = true
    · exact ⟨position, hdone, hpending, .inr ⟨next, hset, hrunning, htracks⟩⟩
    · obtain ⟨path, stage⟩ := next
      cases stage with
      | finished outcome =>
        obtain rfl : path = job.path := hpath
        obtain ⟨houtcome, hafter⟩ := processed_of_tracks hlisted htracks
        refine ⟨position + 1, fun index other hlt hindex => ?_, fun index other hlt hindex => ?_, .inl ⟨?_, .inl hafter⟩⟩
        · rcases Nat.lt_succ_iff_lt_or_eq.mp hlt with hlt | rfl
          · exact hdone index other hlt hindex
          · obtain rfl := Option.some.inj (hset.symm.trans hindex)
            exact houtcome
        · exact hpending index other (Nat.lt_of_succ_lt hlt) hindex
        · intro other hnext
          exact hpending (position + 1) other (Nat.lt_succ_self position) hnext
      | starting => simp [JobStage.isRunning] at hrunning
      | loading stage => simp [JobStage.isRunning] at hrunning
      | classifying unit stage => simp [JobStage.isRunning] at hrunning
      | _ => exact absurd htracks id
  · refine ⟨position, hdone, hpending, .inl ⟨fun other hother => ?_, .inr ⟨hcancelled, _, hlisted, hstopped.of_under⟩⟩⟩
    obtain rfl := Option.some.inj (hset.symm.trans hother)
    rw [hstage]
    exact ⟨rfl, hcancelled⟩

/-- A worker makes a step. -/
theorem steps (h : session.ScanAt files paths position now jobs) (hpaths : jobs.map (·.path) = paths)
    (hread : jobs[index]? = some job) (hrunning : job.stage.isRunning = true) :
    ∃ next, session.ScanAt files paths next (job.step files now).1 (jobs.set index (job.step files now).2) := by
  have hstops (hle : position ≤ index) (hpending : job.stage.IsPending now.token)
      (hrests : index = position → session.RestsAt files paths position now) :
      session.ScanAt files paths position (job.step files now).1 (jobs.set index (job.step files now).2) := by
    obtain ⟨hcancelled, hstep⟩ := Job.step_of_isPending files hpending hrunning
    have hpolled : now.token.poll.cancelled = true := CancellationToken.cancelled_poll hcancelled
    rw [hstep]
    refine (h.under fun _ => hpolled).set (fun hlt => absurd hle (Nat.not_le_of_lt hlt)) (fun _ => ⟨rfl, hpolled⟩) ?_
    exact fun heq => (hrests heq).under fun _ => hpolled
  rcases Nat.lt_trichotomy index position with hlt | rfl | hlt
  · have hidle := (h.done index job hlt hread).not_isRunning
    simp [hidle] at hrunning
  · rcases h.here with ⟨hpending, hrests⟩ | ⟨worked, hworked, -, htracks⟩
    · exact ⟨index, hstops (Nat.le_refl index) (hpending job hread) fun _ => hrests⟩
    · obtain rfl := Option.some.inj (hread.symm.trans hworked)
      exact h.works hpaths hread htracks
  · exact ⟨position, hstops (Nat.le_of_lt hlt) (h.pending index job hlt hread) fun heq => absurd heq (Nat.ne_of_gt hlt)⟩

end ScanAt

end Session

namespace Pool
variable {files : FileTree} {units : UnitId → SyntaxTree} {session : Session} {paths : List Path} {position : Nat}
  {pool after : Pool} {root : Text}

/-- Every move keeps the scan at a position of the list. -/
theorem Moves.scanAt (hmove : pool.Moves files after) (hagrees : pool.Agrees files paths units)
    (hworkers : pool.session.config.maxWorkers = 1) (h : session.ScanAt files paths position pool.session pool.jobs) :
    ∃ next, session.ScanAt files paths next after.session after.jobs := by
  cases hmove with
  | starts hread hfirst hfree => exact ⟨position, h.starts hworkers hread hfirst hfree⟩
  | steps hread hrunning => exact h.steps hagrees.paths hread hrunning
  | collects hopen hread =>
    obtain ⟨hpending, hrests⟩ := h.of_idle hread rfl
    refine ⟨position, h.set (fun hlt => ?_) hpending hrests⟩
    have hdone := h.done _ _ hlt hread
    exact hdone
  | drops hfailure hdropping hread =>
    obtain ⟨-, hrests⟩ := h.of_idle hread rfl
    have hcancelled := hagrees.cancelled_of_isDropping hfailure hdropping
    refine ⟨position, h.set (fun hlt => ?_) (fun _ => hcancelled) hrests⟩
    exact absurd (h.done _ _ hlt hread) id
  | cancels hopen => exact ⟨position, h.under fun _ => rfl⟩
  | interrupts hopen => exact ⟨position, h.under fun _ => rfl⟩

theorem scanAt_run (h : session.Agrees files units) (hworkers : session.config.maxWorkers = 1) (paths : List Path)
    (schedule : List PoolEvent) :
    ∃ position, session.ScanAt files paths position ((start session paths).run files schedule).session
      ((start session paths).run files schedule).jobs := by
  -- The agreement goes along with the position: by it, files are dropped only after a cancellation.
  have hstart : ∃ units, (start session paths).Agrees files paths units := ⟨units, agrees_start h paths⟩
  refine (run_induction (P := fun pool => (∃ units, pool.Agrees files paths units) ∧
    pool.session.config.maxWorkers = 1 ∧ ∃ position, session.ScanAt files paths position pool.session pool.jobs)
    ?_ ⟨hstart, hworkers, 0, .start session files paths⟩ schedule).2.2
  rintro pool after hmove ⟨⟨units, hagrees⟩, hworkers, position, hscan⟩
  obtain ⟨units', hgrows, hagrees'⟩ := hmove.agrees hagrees
  exact ⟨⟨units', hagrees'⟩, hgrows.config ▸ hworkers, hmove.scanAt hagrees hworkers hscan⟩

/-- A scan that a cancellation has ended rests at a file of the list. -/
theorem Agrees.restsAt_of_cancelled (hagrees : pool.Agrees files paths units)
    (h : session.ScanAt files paths position pool.session pool.jobs)
    (houtcome : pool.outcome? root = some (.error (.classify .cancelled))) :
    pool.session.token.cancelled = true ∧ position < paths.length ∧
      session.RestsAt files paths position pool.session := by
  obtain ⟨hidle, ⟨error, hfailure, herror⟩ | ⟨-, -, hreport⟩⟩ := outcome?_cases houtcome
  · obtain rfl := Except.error.inj herror
    rcases hagrees.exists_of_failure hfailure with ⟨hinterrupted, -⟩ | ⟨path, hmem, -⟩
    · simp at hinterrupted
    obtain ⟨index, hread⟩ := List.mem_iff_getElem?.mp hmem
    -- The outcome that ended the collecting is that of a file which is not done, so none before the position.
    have hle : position ≤ index := by
      by_contra hlt
      exact h.done index _ (Nat.lt_of_not_le hlt) hread rfl
    have hlength : index < paths.length := by
      rw [← hagrees.paths, List.length_map]
      exact (List.getElem?_eq_some_iff.mp hread).1
    obtain ⟨hpending, -⟩ := h.of_idle hread rfl
    refine ⟨(hpending hle).2, Nat.lt_of_le_of_lt hle hlength, ?_⟩
    rcases h.here with ⟨-, hrests⟩ | ⟨job, hworked, hrunning, -⟩
    · exact hrests
    · simp [(hidle job (List.mem_of_getElem? hworked)).2] at hrunning
  · simp at hreport

end Pool

end SourceOrigin
