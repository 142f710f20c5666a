import SourceOrigin.Report.Json

/-! JSON documents are written in printable ASCII and line feeds, whatever texts they hold. -/
namespace SourceOrigin.JsonValue

def isWritten (c : Char) : Bool := c = '\n' || (0x20 ≤ c.toNat && c.toNat < 0x7F)

def Written (text : Text) : Prop := ∀ c ∈ text, isWritten c = true

namespace Written
variable {text other : Text} {c : Char}

theorem nil : Written [] := fun _ hmem => absurd hmem List.not_mem_nil

theorem cons (hc : isWritten c = true) (h : Written text) : Written (c :: text) := by
  intro d hmem
  rcases List.mem_cons.mp hmem with rfl | hmem
  · exact hc
  · exact h d hmem

theorem append (h : Written text) (hother : Written other) : Written (text ++ other) := by
  intro d hmem
  rcases List.mem_append.mp hmem with hmem | hmem
  · exact h d hmem
  · exact hother d hmem

theorem replicate (hc : isWritten c = true) (count : Nat) : Written (List.replicate count c) := by
  intro d hmem
  rwa [List.eq_of_mem_replicate hmem]

theorem intercalate (h : Written text) {pieces : List Text} (hpieces : ∀ piece ∈ pieces, Written piece) :
    Written (text.intercalate pieces) := by
  induction pieces with
  | nil => exact nil
  | cons first rest ih =>
    have hfirst := hpieces first List.mem_cons_self
    have hrest := ih fun piece hmem => hpieces piece (List.mem_cons_of_mem first hmem)
    cases rest with
    | nil => simpa using hfirst
    | cons second rest =>
      rw [List.intercalate_cons_cons]
      exact (hfirst.append h).append hrest

end Written

private theorem written_toDigits {base : Nat} (hbase : 1 < base) (hlimit : base ≤ 16) (n : Nat) :
    Written (Nat.toDigits base n) := by
  have hdigit : ∀ digit < 16, isWritten (Nat.digitChar digit) = true := by decide
  induction n using Nat.strongRecOn with
  | ind n ih =>
    rw [Nat.toDigits_eq_if hbase]
    split
    · next hlt => exact .cons (hdigit n (by omega)) .nil
    · next hge =>
      have hless : n / base < n := Nat.div_lt_self (by omega) hbase
      have hlast : n % base < base := Nat.mod_lt n (by omega)
      exact (ih (n / base) hless).append (.cons (hdigit (n % base) (by omega)) .nil)

private theorem written_escapeUnit (unit : Nat) : Written (escapeUnit unit) := by
  refine .cons (by decide) (.cons (by decide) ?_)
  exact (Written.replicate (by decide) _).append (written_toDigits (by decide) (by decide) unit)

private theorem written_escapeChar (c : Char) : Written (escapeChar c) := by
  unfold escapeChar
  split
  all_goals try exact .cons (by decide) (.cons (by decide) .nil)
  dsimp only
  split
  · next hprintable => exact .cons (by simp [isWritten, hprintable]) .nil
  split
  · exact written_escapeUnit _
  · exact (written_escapeUnit _).append (written_escapeUnit _)

private theorem written_escape (text : Text) : Written (escape text) := by
  have hbody : Written (text.flatMap escapeChar) := by
    intro c hmem
    obtain ⟨d, -, hc⟩ := List.mem_flatMap.mp hmem
    exact written_escapeChar d c hc
  exact (Written.cons (by decide) hbody).append (.cons (by decide) .nil)

private theorem written_newLine (depth : Nat) : Written (newLine depth) := .cons (by decide) (.replicate (by decide) _)

private theorem written_enclose (depth : Nat) {left right : Char} (hleft : isWritten left = true)
    (hright : isWritten right = true)
    {items : List Text} (hitems : ∀ item ∈ items, Written item) : Written (enclose depth left right items) := by
  unfold enclose
  split
  · exact .cons hleft (.cons hright .nil)
  · have hseparator : Written (',' :: newLine (depth + 1)) := .cons (by decide) (written_newLine _)
    have hinner := ((written_newLine (depth + 1)).append (hseparator.intercalate hitems)).append (written_newLine depth)
    simpa using Written.cons hleft (hinner.append (.cons hright .nil))

mutual
/-- A document holds nothing but printable ASCII and line feeds. -/
theorem written_render (depth : Nat) : ∀ value : JsonValue, Written (render depth value)
  | number n => by
    rw [render]
    exact written_toDigits (by decide) (by decide) n
  | string text => by
    rw [render]
    exact written_escape text
  | array items => by
    rw [render]
    refine written_enclose depth (by decide) (by decide) fun item hmem => ?_
    obtain ⟨text, -, rfl⟩ := List.mem_map.mp hmem
    exact written_escape text
  | object members => by
    rw [render]
    exact written_enclose depth (by decide) (by decide) (written_renderMembers (depth + 1) members)

private theorem written_renderMembers (depth : Nat) : ∀ members : List (Text × JsonValue),
    ∀ member ∈ renderMembers depth members, Written member
  | [], member, hmem => by simp [renderMembers] at hmem
  | (name, value) :: rest, member, hmem => by
    rw [renderMembers] at hmem
    rcases List.mem_cons.mp hmem with rfl | hmem
    · have hseparator : Written [':', ' '] := .cons (by decide) (.cons (by decide) .nil)
      exact ((written_escape name).append hseparator).append (written_render depth value)
    · exact written_renderMembers depth rest member hmem
end

end SourceOrigin.JsonValue
