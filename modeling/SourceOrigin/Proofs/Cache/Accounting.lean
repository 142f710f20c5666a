import Mathlib.Data.List.Dedup
import Mathlib.Data.List.Induction
import SourceOrigin.Proofs.Cache.Transparency

/-! The books of a cache. After any run of operations a cache holds, for each unit, the first verdict that was put
forward for it since the cache was last cleared, and its counts are those of the lookups since then. -/
namespace SourceOrigin
variable {κ : Type}

/-- What may be done to a cache. Between the lookup and the commit of a classification, other workers may put verdicts of
their own forward for its unit. -/
inductive CacheOperation (κ : Type) where
  | get (unit : κ)
  | contains (unit : κ)
  | add (unit : κ) (verdict : Bool)
  | record (hit : Bool)
  | clear
  | classify (config : Config) (document : Option (Document κ)) (token : CancellationToken) (rivals : List Bool)

def countAmong {α : Type} (p : List α → α → Bool) (list : List α) : Nat :=
  (List.range list.length).countP fun position => list[position]?.any (p (list.take position))

namespace CacheOperation

def isClear : CacheOperation κ → Bool
  | clear => true
  | _ => false

def rivalOffers (document : Option (Document κ)) (rivals : List Bool) : List (κ × Bool) :=
  document.toList.flatMap fun document => rivals.map (document.name, ·)

def ownOffer (config : Config) (document : Option (Document κ)) (token : CancellationToken) : List (κ × Bool) :=
  document.toList.flatMap fun document =>
    match (SourceOrigin.classify config document.tree token).outcome with
    | .ok verdict => [(document.name, verdict)]
    | .error _ => []

/-- The verdicts that are put forward for commit, in order. A classification that finds a verdict is not completed, but
what it could put forward is not the first for its unit. -/
def offers : CacheOperation κ → List (κ × Bool)
  | add unit verdict => [(unit, verdict)]
  | classify config document token rivals => rivalOffers document rivals ++ ownOffer config document token
  | _ => []

def sinceClear (operations : List (CacheOperation κ)) : List (CacheOperation κ) :=
  (operations.reverse.takeWhile (!·.isClear)).reverse

section
variable [DecidableEq κ]

def firstVerdict? (history : List (CacheOperation κ)) (unit : κ) : Option Bool := (history.flatMap offers).lookup unit

def judged (history : List (CacheOperation κ)) : List κ := ((history.flatMap offers).map (·.1)).dedup

/-- The operation counts as a lookup with this result: it is recorded as one, or it is a classification of a unit that has
a verdict, or has none, from the operations before. -/
def isLookup (hit : Bool) (before : List (CacheOperation κ)) : CacheOperation κ → Bool
  | record recorded => recorded == hit
  | classify _ (some document) _ _ => (firstVerdict? before document.name).isSome == hit
  | _ => false

end

end CacheOperation

namespace Cache
variable [DecidableEq κ]

def offer (cache : Cache κ) (offers : List (κ × Bool)) : Cache κ :=
  offers.foldl (fun cache offer => (cache.tryAdd offer.1 offer.2).1) cache

def perform (cache : Cache κ) : CacheOperation κ → Cache κ
  | .get _ | .contains _ => cache
  | .add unit verdict => (cache.tryAdd unit verdict).1
  | .record hit => cache.recordLookup hit
  | .clear => cache.clear
  | .classify config document token rivals =>
    (cache.classifyDocument config document token (·.offer (CacheOperation.rivalOffers document rivals))).cache

def afterRun (operations : List (CacheOperation κ)) : Cache κ := operations.foldl perform {}

/-! ### One commit, and several -/

private theorem get?_tryAdd (cache : Cache κ) (name : κ) (verdict : Bool) (unit : κ) :
    (cache.tryAdd name verdict).1.get? unit = (cache.get? unit).or ([(name, verdict)].lookup unit) := by
  unfold tryAdd
  by_cases hcontains : cache.contains name = true
  · rw [if_pos hcontains]
    by_cases hunit : unit = name
    · subst hunit
      rw [contains, Option.isSome_iff_exists] at hcontains
      obtain ⟨stored, hstored⟩ := hcontains
      rw [hstored, Option.some_or]
    · have hother : [(name, verdict)].lookup unit = none := by
        rw [List.lookup_cons, beq_eq_false_iff_ne.mpr hunit, List.lookup_nil]
      rw [hother, Option.or_none]
  · rw [if_neg hcontains]
    exact List.lookup_append

private theorem offer_append (cache : Cache κ) (offers others : List (κ × Bool)) :
    cache.offer (offers ++ others) = (cache.offer offers).offer others := List.foldl_append

private theorem get?_offer (cache : Cache κ) (offers : List (κ × Bool)) (unit : κ) :
    (cache.offer offers).get? unit = (cache.get? unit).or (offers.lookup unit) := by
  induction offers generalizing cache with
  | nil => exact (Option.or_none).symm
  | cons first rest ih =>
    obtain ⟨name, verdict⟩ := first
    have hcons : ([(name, verdict)] ++ rest).lookup unit = ([(name, verdict)].lookup unit).or (rest.lookup unit) :=
      List.lookup_append
    rw [← List.singleton_append, hcons, ← Option.or_assoc, ← get?_tryAdd]
    exact ih _

private theorem distinct_tryAdd {cache : Cache κ} (h : (cache.entries.map (·.1)).Nodup) (name : κ) (verdict : Bool) :
    ((cache.tryAdd name verdict).1.entries.map (·.1)).Nodup := by
  rcases cache.entries_tryAdd name verdict with hentries | ⟨hcontains, hentries⟩
  · rwa [hentries]
  · rw [hentries, List.map_append, List.map_singleton]
    refine List.nodup_append.mpr ⟨h, by simp, fun other hmem last hlast => ?_⟩
    obtain rfl := List.mem_singleton.mp hlast
    exact ne_of_mem_of_not_mem hmem (not_mem_of_contains hcontains)

private theorem offer_recordLookup (cache : Cache κ) (hit : Bool) (offers : List (κ × Bool)) :
    (cache.recordLookup hit).offer offers = (cache.offer offers).recordLookup hit := by
  induction offers generalizing cache with
  | nil => rfl
  | cons first rest ih =>
    have hfirst : ((cache.recordLookup hit).tryAdd first.1 first.2).1 =
        (cache.tryAdd first.1 first.2).1.recordLookup hit := by
      have hcontains : (cache.recordLookup hit).contains first.1 = cache.contains first.1 := by cases hit <;> rfl
      rw [tryAdd, tryAdd, hcontains]
      cases cache.contains first.1 <;> cases hit <;> rfl
    rw [offer, List.foldl_cons, hfirst]
    exact ih _

private theorem offer_keeps (cache : Cache κ) (offers : List (κ × Bool)) :
    (cache.offer offers).hits = cache.hits ∧ (cache.offer offers).misses = cache.misses ∧
      ((cache.entries.map (·.1)).Nodup → ((cache.offer offers).entries.map (·.1)).Nodup) := by
  induction offers generalizing cache with
  | nil => exact ⟨rfl, rfl, id⟩
  | cons first rest ih =>
    obtain ⟨hhits, hmisses, -⟩ := cache.counts_tryAdd first.1 first.2
    obtain ⟨hhits', hmisses', hdistinct⟩ := ih (cache.tryAdd first.1 first.2).1
    exact ⟨hhits'.trans hhits, hmisses'.trans hmisses, fun h => hdistinct (distinct_tryAdd h _ _)⟩

/-- A classification that finds no verdict counts a miss; its rivals commit before it does. -/
theorem classifyDocument_of_unstored {cache : Cache κ} {document : Document κ} (h : cache.get? document.name = none)
    (config : Config) (token : CancellationToken) (rivals : List Bool) :
    (cache.classifyDocument config (some document) token
        (·.offer (CacheOperation.rivalOffers (some document) rivals))).cache =
      (cache.offer (CacheOperation.classify config (some document) token rivals).offers).recordLookup false := by
  have hoffers : (CacheOperation.classify config (some document) token rivals).offers =
      CacheOperation.rivalOffers (some document) rivals ++ CacheOperation.ownOffer config (some document) token := rfl
  rw [← offer_recordLookup, hoffers, offer_append]
  simp only [classifyDocument, h, CacheOperation.ownOffer, Option.toList_some, List.flatMap_singleton]
  generalize (cache.recordLookup false).offer (CacheOperation.rivalOffers (some document) rivals) = before
  generalize SourceOrigin.classify config document.tree token = done
  obtain ⟨outcome, token', log⟩ := done
  cases outcome with
  | error error => rfl
  | ok verdict => exact (before.commit_ok document verdict token' log).1

private theorem offer_of_contains {cache : Cache κ} {offers : List (κ × Bool)}
    (h : ∀ offer ∈ offers, cache.contains offer.1 = true) : cache.offer offers = cache := by
  induction offers with
  | nil => rfl
  | cons first rest ih =>
    have hfirst : (cache.tryAdd first.1 first.2).1 = cache := by
      rw [tryAdd, if_pos (h first List.mem_cons_self)]
    rw [offer, List.foldl_cons, hfirst]
    exact ih fun other hmem => h other (List.mem_cons_of_mem first hmem)

end Cache

/-! ### One operation more -/

private theorem countAmong_concat {α : Type} (p : List α → α → Bool) (list : List α) (last : α) :
    countAmong p (list ++ [last]) = countAmong p list + (p list last).toNat := by
  have hbefore : (List.range list.length).countP
        (fun position => (list ++ [last])[position]?.any (p ((list ++ [last]).take position))) =
      countAmong p list := by
    refine List.countP_congr fun position hmem => ?_
    have hlt := List.mem_range.mp hmem
    rw [List.getElem?_append_left hlt, List.take_append_of_le_length (Nat.le_of_lt hlt)]
  rw [countAmong, List.length_append, List.length_singleton, List.range_succ, List.countP_append, hbefore]
  cases hlast : p list last <;> simp [hlast]

namespace CacheOperation

private theorem firstVerdict?_concat [DecidableEq κ] (history : List (CacheOperation κ))
    (operation : CacheOperation κ) (unit : κ) :
    firstVerdict? (history ++ [operation]) unit = (firstVerdict? history unit).or (operation.offers.lookup unit) := by
  rw [firstVerdict?, List.flatMap_append, List.flatMap_singleton]
  exact List.lookup_append

private theorem sinceClear_concat (operations : List (CacheOperation κ)) (operation : CacheOperation κ) :
    sinceClear (operations ++ [operation]) =
      if operation.isClear then [] else sinceClear operations ++ [operation] := by
  rw [sinceClear, List.reverse_append, List.reverse_singleton, List.singleton_append, List.takeWhile_cons]
  cases operation.isClear with
  | true => rfl
  | false => exact List.reverse_cons

private theorem name_of_mem_offers {config : Config} {document : Document κ} {token : CancellationToken}
    {rivals : List Bool}
    {offer : κ × Bool} (h : offer ∈ (classify config (some document) token rivals).offers) :
    offer.1 = document.name := by
  simp only [offers, rivalOffers, ownOffer, Option.toList_some, List.flatMap_singleton] at h
  rcases List.mem_append.mp h with hmem | hmem
  · obtain ⟨verdict, -, rfl⟩ := List.mem_map.mp hmem
    rfl
  · split at hmem
    · rw [List.mem_singleton.mp hmem]
    · exact absurd hmem List.not_mem_nil

end CacheOperation

namespace Cache
open CacheOperation
variable [DecidableEq κ]

/-- The cache holds what its history comes to. -/
structure Mirrors (cache : Cache κ) (history : List (CacheOperation κ)) : Prop where
  verdicts : ∀ unit, cache.get? unit = firstVerdict? history unit
  distinct : (cache.entries.map (·.1)).Nodup
  hits : cache.hits = countAmong (isLookup true) history
  misses : cache.misses = countAmong (isLookup false) history

variable {cache : Cache κ} {history : List (CacheOperation κ)}

/-- An operation commits what it puts forward, and counts what it looks up. -/
theorem Mirrors.perform_cases (h : cache.Mirrors history) {operation : CacheOperation κ}
    (hopen : operation.isClear = false) :
    (cache.perform operation).entries = (cache.offer operation.offers).entries ∧
      (cache.perform operation).hits = cache.hits + (isLookup true history operation).toNat ∧
      (cache.perform operation).misses = cache.misses + (isLookup false history operation).toNat := by
  cases operation with
  | get unit => exact ⟨rfl, rfl, rfl⟩
  | contains unit => exact ⟨rfl, rfl, rfl⟩
  | add unit verdict =>
    obtain ⟨hhits, hmisses, -⟩ := cache.counts_tryAdd unit verdict
    exact ⟨rfl, hhits, hmisses⟩
  | record hit => cases hit <;> exact ⟨rfl, rfl, rfl⟩
  | clear => simp [isClear] at hopen
  | classify config document token rivals =>
    cases document with
    | none => exact ⟨rfl, rfl, rfl⟩
    | some document =>
      have hverdict := h.verdicts document.name
      cases hfound : cache.get? document.name with
      | some verdict =>
        have hcontains : ∀ offer ∈ (CacheOperation.classify config (some document) token rivals).offers,
            cache.contains offer.1 = true := by
          intro offer hmem
          rw [name_of_mem_offers hmem, contains, hfound, Option.isSome_some]
        have hperform : cache.perform (.classify config (some document) token rivals) = cache.recordLookup true := by
          simp only [perform, classifyDocument, hfound]
        rw [hperform, offer_of_contains hcontains]
        simp only [isLookup, ← hverdict, hfound, Option.isSome_some]
        exact ⟨rfl, rfl, rfl⟩
      | none =>
        have hperform := classifyDocument_of_unstored hfound config token rivals
        rw [perform, hperform]
        obtain ⟨hhits, hmisses, -⟩ :=
          cache.offer_keeps (CacheOperation.classify config (some document) token rivals).offers
        simp only [isLookup, ← hverdict, hfound, Option.isSome_none]
        exact ⟨rfl, hhits, congrArg (· + 1) hmisses⟩

/-- Clearing begins a new history; every other operation goes on with the one there is. -/
theorem Mirrors.perform (h : cache.Mirrors history) (operation : CacheOperation κ) :
    (cache.perform operation).Mirrors (if operation.isClear then [] else history ++ [operation]) := by
  cases hclear : operation.isClear with
  | true =>
    cases operation with
    | clear => exact ⟨fun _ => rfl, List.nodup_nil, rfl, rfl⟩
    | _ => simp [isClear] at hclear
  | false =>
    obtain ⟨hentries, hhits, hmisses⟩ := h.perform_cases hclear
    rw [if_neg Bool.false_ne_true]
    refine ⟨fun unit => ?_, ?_, ?_, ?_⟩
    · rw [firstVerdict?_concat, ← h.verdicts unit, ← get?_offer, get?, get?, hentries]
    · rw [hentries]
      exact (cache.offer_keeps operation.offers).2.2 h.distinct
    · rw [hhits, countAmong_concat, h.hits]
    · rw [hmisses, countAmong_concat, h.misses]

private theorem mirrors_afterRun (operations : List (CacheOperation κ)) :
    (afterRun operations).Mirrors (sinceClear operations) := by
  induction operations using List.reverseRecOn with
  | nil => exact ⟨fun _ => rfl, List.nodup_nil, rfl, rfl⟩
  | append_singleton operations operation ih =>
    rw [afterRun, List.foldl_append, List.foldl_cons, List.foldl_nil, sinceClear_concat]
    exact ih.perform operation

/-! ### The books -/

private theorem isSome_lookup {entries : List (κ × Bool)} {unit : κ} :
    (entries.lookup unit).isSome = true ↔ unit ∈ entries.map (·.1) := by
  rw [Option.isSome_iff_ne_none, ne_eq, List.lookup_eq_none_iff, List.mem_map]
  constructor
  · intro hfound
    by_contra hnone
    refine hfound fun entry hmem => ?_
    rw [bne_iff_ne]
    exact fun hname => hnone ⟨entry, hmem, hname.symm⟩
  · rintro ⟨entry, hmem, rfl⟩ hnone
    exact absurd rfl (bne_iff_ne.mp (hnone entry hmem))

/-- The units with an entry are those for which a verdict was put forward. -/
theorem Mirrors.perm (h : cache.Mirrors history) : (cache.entries.map (·.1)).Perm (judged history) := by
  refine (List.perm_ext_iff_of_nodup h.distinct (List.nodup_dedup _)).mpr fun unit => ?_
  rw [← isSome_lookup, List.mem_dedup, ← isSome_lookup]
  exact Bool.eq_iff_iff.mp (congrArg Option.isSome (h.verdicts unit))

private theorem get?_of_mem (h : (cache.entries.map (·.1)).Nodup) {entry : κ × Bool} (hmem : entry ∈ cache.entries) :
    cache.get? entry.1 = some entry.2 := by
  obtain ⟨stored, hstored⟩ := Option.isSome_iff_exists.mp (isSome_lookup.mpr (List.mem_map_of_mem hmem))
  have hfound : (entry.1, stored) ∈ cache.entries := mem_of_get? hstored
  have hentry : (entry.1, stored) = entry := List.inj_on_of_nodup_map h hfound hmem rfl
  rw [get?, hstored, ← hentry]

theorem Mirrors.generated (h : cache.Mirrors history) :
    cache.entries.countP (·.2) = (judged history).countP (firstVerdict? history · = some true) := by
  rw [← h.perm.countP_eq, List.countP_map]
  refine List.countP_congr fun entry hmem => ?_
  rw [Function.comp_apply, ← h.verdicts, get?_of_mem h.distinct hmem, decide_eq_true_eq, Option.some_inj]

/-- What is promised of a cache with this history: what it tells of every unit, its size, its statistics, and what an
insertion and a classification come to next. -/
structure Accounts (cache : Cache κ) (history : List (CacheOperation κ)) : Prop where
  get? : ∀ unit, cache.get? unit = firstVerdict? history unit
  contains : ∀ unit, cache.contains unit = (firstVerdict? history unit).isSome
  size : cache.size = (judged history).length
  entries : cache.stats.entries = (judged history).length
  generated : cache.stats.generated = (judged history).countP (firstVerdict? history · = some true)
  hits : cache.stats.hits = countAmong (isLookup true) history
  misses : cache.stats.misses = countAmong (isLookup false) history
  /-- An insertion tells whether it has committed its verdict, which it does if there is none before. -/
  added : ∀ unit verdict, (cache.tryAdd unit verdict).2 = (firstVerdict? history unit).isNone
  /-- A stored verdict is returned without a poll; otherwise it counts what the call itself has found. -/
  classified : ∀ config document token meanwhile,
    let call := cache.classifyDocument config (some document) token meanwhile
    let own := SourceOrigin.classify config document.tree token
    match firstVerdict? history document.name with
    | some verdict => call.outcome = .ok verdict ∧ call.token = token
    | none => call.outcome = own.outcome ∧ call.token = own.token

/-- The books of a cache are right after any run of operations: insertions, recorded lookups, and classifications that
are completed, cancelled or overtaken by a rival. -/
theorem accounts_afterRun (operations : List (CacheOperation κ)) :
    (afterRun operations).Accounts (sinceClear operations) := by
  have h := mirrors_afterRun operations
  have hsize := h.perm.length_eq
  rw [List.length_map] at hsize
  refine ⟨h.verdicts, fun unit => ?_, hsize, hsize, h.generated, h.hits, h.misses, fun unit verdict => ?_, ?_⟩
  · rw [contains, h.verdicts]
  · rw [← h.verdicts, tryAdd, contains]
    cases (afterRun operations).get? unit <;> rfl
  · intro config document token meanwhile call own
    rw [← h.verdicts]
    cases hfound : (afterRun operations).get? document.name with
    | some verdict =>
      simp only [call, classifyDocument, hfound, and_self]
    | none =>
      simp only [call, classifyDocument, hfound]
      exact commit_outcome_token _ document own

end Cache

end SourceOrigin
