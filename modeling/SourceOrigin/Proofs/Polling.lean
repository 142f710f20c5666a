import SourceOrigin.Proofs.Session.Verdict

/-! The polls of a classification. There is one before each heuristic, up to the first that finds its sign. If none of them
finds the token cancelled, the classification comes to its verdict; otherwise the token alone tells all that comes of it. -/
namespace SourceOrigin

namespace CancellationToken

def Passes (token : CancellationToken) : Nat → Prop
  | 0 => True
  | count + 1 => token.poll.cancelled = false ∧ token.poll.Passes count

def afterPolls (token : CancellationToken) (count : Nat) : CancellationToken :=
  { token with polls := token.polls + count }

/-- The token after the first poll that finds it cancelled. For a token that is cancelled already this is the next poll, and
otherwise the one that the countdown names, if that is still to come. -/
def tripped (token : CancellationToken) : CancellationToken :=
  let next := token.polls + 1
  { token with polls := if token.cancelled then next else max next (token.countdown.getD 0).toNat, cancelled := true }

variable {token : CancellationToken} {count : Nat}

private theorem cancelled_poll_eq_false_iff : token.poll.cancelled = false ↔
    token.cancelled = false ∧ ∀ n ∈ token.countdown, (token.polls : Int) + 1 < n := by
  obtain ⟨polls, cancelled, countdown⟩ := token
  cases countdown <;> simp [poll]

private theorem poll_of_passing (h : token.poll.cancelled = false) : token.poll = token.afterPolls 1 := by
  have hcancelled := (cancelled_poll_eq_false_iff.mp h).1
  have hpoll : token.poll = { token.afterPolls 1 with cancelled := token.poll.cancelled } := rfl
  rw [hpoll, h, ← hcancelled]
  rfl

private theorem afterPolls_afterPolls (token : CancellationToken) (count more : Nat) :
    (token.afterPolls count).afterPolls more = token.afterPolls (count + more) := by
  simp only [afterPolls, Nat.add_assoc]

/-- How far a token passes is told by its flag and its countdown. -/
theorem passes_iff (hcount : 0 < count) : token.Passes count ↔
    token.cancelled = false ∧ ∀ n ∈ token.countdown, (token.polls : Int) + count < n := by
  obtain ⟨count, rfl⟩ := Nat.exists_eq_succ_of_ne_zero (Nat.pos_iff_ne_zero.mp hcount)
  induction count generalizing token with
  | zero => simp [Passes, cancelled_poll_eq_false_iff]
  | succ count ih =>
    constructor
    · rintro ⟨hpoll, hrest⟩
      rw [poll_of_passing hpoll] at hrest
      obtain ⟨hcancelled, hcountdown⟩ := (ih (Nat.succ_pos count)).mp hrest
      refine ⟨hcancelled, fun n hn => ?_⟩
      have hlt := hcountdown n hn
      simp only [afterPolls] at hlt
      omega
    · rintro ⟨hcancelled, hcountdown⟩
      have hpoll : token.poll.cancelled = false := by
        refine cancelled_poll_eq_false_iff.mpr ⟨hcancelled, fun n hn => ?_⟩
        have hlt := hcountdown n hn
        omega
      refine ⟨hpoll, ?_⟩
      rw [poll_of_passing hpoll]
      refine (ih (Nat.succ_pos count)).mpr ⟨hcancelled, fun n hn => ?_⟩
      have hlt := hcountdown n hn
      simp only [afterPolls]
      omega

private theorem poll_of_tripping (h : token.poll.cancelled = true) : token.poll = token.tripped := by
  obtain ⟨polls, cancelled, countdown⟩ := token
  cases cancelled with
  | true => rfl
  | false =>
    cases countdown with
    | none => simp [poll] at h
    | some n =>
      have hn : n ≤ (polls : Int) + 1 := by simpa [poll] using h
      have hmax : max (polls + 1) n.toNat = polls + 1 := by omega
      simp only [poll, tripped, Option.getD_some, Bool.false_eq_true, if_false, hmax]
      simpa using hn

/-- A token that does not pass has the poll that stops it ahead of it, wherever the polls before have come to. -/
theorem tripped_poll (hpoll : token.poll.cancelled = false) (h : ¬ token.poll.Passes count) :
    token.poll.tripped = token.tripped := by
  obtain ⟨hcancelled, hlater⟩ := cancelled_poll_eq_false_iff.mp hpoll
  rw [poll_of_passing hpoll] at h ⊢
  obtain ⟨polls, cancelled, countdown⟩ := token
  obtain rfl : cancelled = false := hcancelled
  cases countdown with
  | none =>
    cases count with
    | zero => exact absurd trivial h
    | succ count => exact absurd ((passes_iff (Nat.succ_pos count)).mpr ⟨rfl, fun n hn => absurd hn (by simp [afterPolls])⟩) h
  | some n =>
    have hn : (polls : Int) + 1 < n := hlater n rfl
    have hmax : max (polls + 1 + 1) n.toNat = max (polls + 1) n.toNat := by omega
    simp only [tripped, afterPolls, Option.getD_some, Bool.false_eq_true, if_false, hmax]

end CancellationToken

/-! ### One poll before each heuristic -/

def pollsBy (config : Config) (tree : SyntaxTree) : List Heuristic → Nat
  | [] => 0
  | heuristic :: rest =>
    match heuristic.holds config tree with
    | .ok false => pollsBy config tree rest + 1
    | _ => 1

def logBy (config : Config) (tree : SyntaxTree) : List Heuristic → Log
  | [] => []
  | heuristic :: rest =>
    match heuristic.holds config tree with
    | .error _ => []
    | .ok true => [heuristic.record tree]
    | .ok false => logBy config tree rest

def CancellationToken.stopped (token : CancellationToken) : Classified := ⟨.error .cancelled, token.tripped, []⟩

variable {config : Config} {tree : SyntaxTree} {token : CancellationToken} {pending : List Heuristic}

/-- An evaluation that no poll stops makes its polls, comes to what the heuristics say, and records it. -/
theorem classifyBy_of_passes (h : token.Passes (pollsBy config tree pending)) : classifyBy config tree token pending =
    ⟨outcomeBy config tree pending, token.afterPolls (pollsBy config tree pending), logBy config tree pending⟩ := by
  induction pending generalizing token with
  | nil => rfl
  | cons heuristic rest ih =>
    rw [classifyBy, outcomeBy, logBy]
    rw [pollsBy] at h ⊢
    cases hholds : heuristic.holds config tree with
    | error error =>
      simp only [hholds] at h ⊢
      rw [if_neg (by simp [h.1]), CancellationToken.poll_of_passing h.1]
    | ok sign =>
      cases sign with
      | true =>
        simp only [hholds] at h ⊢
        rw [if_neg (by simp [h.1]), CancellationToken.poll_of_passing h.1]
      | false =>
        simp only [hholds] at h ⊢
        rw [if_neg (by simp [h.1]), ih h.2, CancellationToken.poll_of_passing h.1, CancellationToken.afterPolls_afterPolls,
          Nat.add_comm 1]

/-- An evaluation that a poll stops leaves nothing of what the heuristics before it have found. -/
theorem classifyBy_of_not_passes (h : ¬ token.Passes (pollsBy config tree pending)) :
    classifyBy config tree token pending = token.stopped := by
  induction pending generalizing token with
  | nil => exact absurd trivial h
  | cons heuristic rest ih =>
    rw [classifyBy]
    cases hpoll : token.poll.cancelled with
    | true => simp only [if_true, CancellationToken.stopped, CancellationToken.poll_of_tripping hpoll]
    | false =>
      rw [pollsBy] at h
      simp only [Bool.false_eq_true, if_false]
      cases hholds : heuristic.holds config tree with
      | error error =>
        simp only [hholds] at h
        exact absurd ⟨hpoll, trivial⟩ h
      | ok sign =>
        cases sign with
        | true =>
          simp only [hholds] at h
          exact absurd ⟨hpoll, trivial⟩ h
        | false =>
          simp only [hholds] at h
          have hrest : ¬ token.poll.Passes (pollsBy config tree rest) := fun hpasses => h ⟨hpoll, hpasses⟩
          rw [ih hrest, CancellationToken.stopped, CancellationToken.tripped_poll hpoll hrest, CancellationToken.stopped]

/-- What the three heuristics come to if the file name can be told. -/
theorem outcomeBy_all {byName : Bool} (hname : isGeneratedFileName config tree.filePath = .ok byName) :
    outcomeBy config tree Heuristic.all = .ok (byName || hasGeneratedComment config tree || isEmptySource tree) ∧
      pollsBy config tree Heuristic.all = if byName then 1 else if hasGeneratedComment config tree then 2 else 3 := by
  simp only [Heuristic.all, outcomeBy, pollsBy, Heuristic.holds, hname]
  cases byName with
  | true => exact ⟨rfl, rfl⟩
  | false =>
    cases hasGeneratedComment config tree with
    | true => exact ⟨rfl, rfl⟩
    | false => cases isEmptySource tree <;> exact ⟨rfl, rfl⟩

/-- When a classification is stopped, and what it comes to. Let `polls` be the place of the first heuristic that finds its
sign, or of the last one. There is a verdict if and only if the token is not cancelled and its countdown names no poll up to
this one; it is what the three heuristics come to without a token, and so many polls have been made. Otherwise the
classification ends in a cancellation, and nothing in it depends on the unit or the configuration. -/
theorem classify_underToken (hvalid : config.validate = .ok ()) (tree : SyntaxTree) (token : CancellationToken) :
    ∃ byName, isGeneratedFileName config tree.filePath = .ok byName ∧
      let byComment := hasGeneratedComment config tree
      let polls : Nat := if byName then 1 else if byComment then 2 else 3
      let done := classify config tree token
      let passes := token.cancelled = false ∧ ∀ n ∈ token.countdown, (token.polls : Int) + polls < n
      ((∃ verdict, done.outcome = .ok verdict) ↔ passes) ∧
      (passes → done.outcome = .ok (byName || byComment || isEmptySource tree) ∧
        done.token.polls = token.polls + polls ∧ done.token.cancelled = false) ∧
      (¬ passes → done = token.stopped ∧ done.outcome = .error .cancelled ∧ done.token.cancelled = true ∧
        (done.token.polls : Int) =
          if token.cancelled then (token.polls : Int) + 1 else max (token.polls + 1) (token.countdown.getD 0)) := by
  obtain ⟨byName, hname⟩ := Heuristic.fileName.exists_holds hvalid tree
  obtain ⟨houtcome, hpolls⟩ := outcomeBy_all hname
  refine ⟨byName, hname, ?_⟩
  intro byComment polls done passes
  have hpos : 0 < polls := by
    simp only [polls]
    split
    · exact Nat.one_pos
    split <;> omega
  have hpasses : token.Passes (pollsBy config tree Heuristic.all) ↔ passes := by
    rw [hpolls]
    exact CancellationToken.passes_iff hpos
  by_cases h : passes
  · have hdone : done = ⟨_, _, _⟩ := classifyBy_of_passes (hpasses.mpr h)
    rw [houtcome, hpolls] at hdone
    rw [hdone]
    exact ⟨⟨fun _ => h, fun _ => ⟨_, rfl⟩⟩, fun _ => ⟨rfl, rfl, h.1⟩, fun hnot => absurd h hnot⟩
  · have hdone : done = token.stopped := classifyBy_of_not_passes (mt hpasses.mp h)
    rw [hdone]
    refine ⟨⟨?_, fun hsurvives => absurd hsurvives h⟩, fun hsurvives => absurd hsurvives h, fun _ => ⟨rfl, rfl, rfl, ?_⟩⟩
    · rintro ⟨verdict, hverdict⟩
      simp [CancellationToken.stopped] at hverdict
    · simp only [CancellationToken.stopped, CancellationToken.tripped]
      split
      · rfl
      · omega

/-- A marked comment is found at the second poll. Of two tokens with four polls behind them, one is stopped just there. -/
theorem classify_underToken_marked :
    let config : Config := {}
    let tree := (SourceUnit.ofText "// <auto-generated/>\nclass A".toList (some "A.cs".toList)).tree
    config.validate = .ok () ∧
      classify config tree ⟨4, false, some 6⟩ = ⟨.error .cancelled, ⟨6, true, some 6⟩, []⟩ ∧
      (classify config tree ⟨4, false, some 7⟩).outcome = .ok true ∧
      (classify config tree ⟨4, false, some 7⟩).token.polls = 6 := by
  have hvalid := Config.validate_default
  intro config tree
  have hname : (isGeneratedFileName config tree.filePath).toOption = some false := by decide +kernel
  have hcomment : hasGeneratedComment config tree = true := by decide +kernel
  refine ⟨hvalid, ?_, ?_⟩
  · obtain ⟨byName, hbyName, -, -, hstops⟩ := classify_underToken hvalid tree ⟨4, false, some 6⟩
    obtain rfl : byName = false := Option.some.inj ((congrArg Except.toOption hbyName).symm.trans hname)
    rw [hcomment] at hstops
    exact (hstops (by simp)).1
  · obtain ⟨byName, hbyName, -, hreturns, -⟩ := classify_underToken hvalid tree ⟨4, false, some 7⟩
    obtain rfl : byName = false := Option.some.inj ((congrArg Except.toOption hbyName).symm.trans hname)
    rw [hcomment] at hreturns
    obtain ⟨houtcome, hpolls, -⟩ := hreturns (by simp)
    exact ⟨houtcome, hpolls⟩

end SourceOrigin
