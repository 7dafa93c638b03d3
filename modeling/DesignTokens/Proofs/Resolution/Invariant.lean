/-
What holds of every normal form.

A normal form is put together from what the traversal finds in the value and
from the normal forms that references come to. So a property of normal forms that
passes from parts to the whole holds of the normal form of a value as soon as the
values that are traversed, the one at hand and those in the sources, have in them
what the property asks of their numbers and of the names of their members
(`Value.CarriesOver`).
-/
import DesignTokens.Proofs.Members
import DesignTokens.Proofs.Resolution.Memory

namespace DesignTokens

/-- The members of the normal form of an object are among its own. -/
theorem Value.memberNames_normalMembers (follow : String → Traced (Option Value))
    (members : List (String × Value)) :
    (memberNames (normalMembers follow members).result).Sublist (memberNames members) := by
  induction members with
  | nil => exact .slnil
  | cons head tail ih =>
      obtain ⟨name, value⟩ := head
      rw [normalMembers, Traced.result_bind, Traced.result_bind, Traced.result_pure]
      cases (value.normalWith follow).result with
      | some normal => exact ih.cons_cons name
      | none => exact ih.cons name

/-- The normal form of a value has the second property when the value, and each value that a
reference leads to, has the first. -/
structure Value.CarriesOver (before after : Value → Prop) : Prop where
  null : after .null
  bool : ∀ flag, after (.bool flag)
  number : ∀ number, before (.number number) → after (.number number)
  string : ∀ text, referencePath? text = none → after (.string text)
  array : ∀ items, (∀ item ∈ items, after item) → after (collapse items)
  object : ∀ members kept, before (.object members) →
    (memberNames kept).Sublist (memberNames members) →
    (∀ name value, (name, value) ∈ kept → after value) → after (.object kept)
  items : ∀ items, before (.array items) → ∀ item ∈ items, before item
  members : ∀ members, before (.object members) →
    ∀ name value, (name, value) ∈ members → before value

variable {before after : Value → Prop}

namespace Value.CarriesOver

section Traversal

variable {follow : String → Traced (Option Value)}

mutual

theorem of_normalWith (carries : CarriesOver before after)
    (each : ∀ path, ∀ normal ∈ (follow path).result, after normal) :
    (value : Value) → before value → ∀ normal ∈ (value.normalWith follow).result, after normal
  | .string text, _ => by
      rw [normalWith]
      cases refers : referencePath? text with
      | some path => exact each path
      | none =>
          rintro normal ⟨⟩
          exact carries.string text refers
  | .array items, start => by
      rw [normalWith]
      rintro normal ⟨⟩
      exact carries.array _ (carries.of_normalItems each items (carries.items items start))
  | .object members, start => by
      rw [normalWith]
      rintro normal ⟨⟩
      exact carries.object members _ start (memberNames_normalMembers follow members)
        (carries.of_normalMembers each members (carries.members members start))
  | .null, _ => by
      rintro normal ⟨⟩
      exact carries.null
  | .bool flag, _ => by
      rintro normal ⟨⟩
      exact carries.bool flag
  | .number number, start => by
      rintro normal ⟨⟩
      exact carries.number number start

theorem of_normalItems (carries : CarriesOver before after)
    (each : ∀ path, ∀ normal ∈ (follow path).result, after normal) :
    (items : List Value) → (∀ item ∈ items, before item) →
      ∀ normal ∈ (normalItems follow items).result, after normal
  | [], _ => fun _ present => absurd present List.not_mem_nil
  | item :: rest, start => by
      obtain ⟨here, further⟩ := List.forall_mem_cons.mp start
      have first := carries.of_normalWith each item here
      rw [normalItems]
      simp only [Traced.result_bind, Traced.result_pure]
      refine List.forall_mem_cons.mpr ⟨?_, carries.of_normalItems each rest further⟩
      cases normal : (item.normalWith follow).result with
      | some defined => exact first defined normal
      | none => exact carries.null

theorem of_normalMembers (carries : CarriesOver before after)
    (each : ∀ path, ∀ normal ∈ (follow path).result, after normal) :
    (members : List (String × Value)) →
      (∀ name value, (name, value) ∈ members → before value) →
      ∀ name normal, (name, normal) ∈ (normalMembers follow members).result → after normal
  | [], _ => fun _ _ present => absurd present List.not_mem_nil
  | (name, value) :: rest, start => by
      obtain ⟨here, further⟩ := forall_mem_members_cons.mp start
      have first := carries.of_normalWith each value here
      have later := carries.of_normalMembers each rest further
      rw [normalMembers]
      simp only [Traced.result_bind, Traced.result_pure]
      cases normal : (value.normalWith follow).result with
      | some defined => exact forall_mem_members_cons.mpr ⟨first defined normal, later⟩
      | none => exact later

end

end Traversal

variable {registry : SourceRegistry}

theorem of_follow (carries : CarriesOver before after)
    (known : ∀ path value, registry.valueAt? path = some value → before value)
    (trail : Trail) (path : String) :
    ∀ normal ∈ (registry.follow trail path).result, after normal := by
  induction trail, path using SourceRegistry.follow.induct registry with
  | case1 trail path walk ended =>
      rw [SourceRegistry.follow_eq, ended]
      rintro normal ⟨⟩
  | case2 trail path walk again ended =>
      rw [SourceRegistry.follow_eq, ended]
      rintro normal ⟨⟩
  | case3 trail path walk value ended ih =>
      rw [SourceRegistry.follow_eq, ended]
      obtain ⟨last, found⟩ := SourceRegistry.exists_valueAt?_of_walk ended
      exact carries.of_normalWith ih value (known last value found)

theorem of_normalizeIn (carries : CarriesOver before after)
    (known : ∀ path value, registry.valueAt? path = some value → before value)
    {resolver : Resolver registry} (reachable : resolver.Reachable) (trail : Trail)
    {value : Value} (start : before value) :
    ∀ normal ∈ (resolver.normalizeIn trail value).result.1, after normal := by
  rw [Resolver.result_normalizeIn reachable]
  exact carries.of_normalWith (carries.of_follow known trail) value start

end Value.CarriesOver

end DesignTokens
