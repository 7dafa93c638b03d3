/-
Well-formed token maps.

In a map each category occurs once, each key occurs once in its category, and
the values are well-formed. The empty map is well-formed, and filling a slot with
a well-formed value keeps a map so.
-/
import DesignTokens.Proofs.Value.WellFormed
import DesignTokens.Theme.TokenMap

namespace DesignTokens

namespace TokenMap

variable {map : TokenMap}

def WellFormed (map : TokenMap) : Prop := map.toValue.WellFormed

instance (map : TokenMap) : Decidable map.WellFormed :=
  inferInstanceAs (Decidable map.toValue.WellFormed)

/-- The keys of a category occur once each, and its values are well-formed. -/
def SlotsWellFormed (slots : TokenCategory) : Prop :=
  DistinctNames slots ∧ ∀ key value, (key, some value) ∈ slots → value.WellFormed

theorem wellFormed_slotMembers {slots : TokenCategory} :
    (Value.object (slotMembers slots)).WellFormed ↔ SlotsWellFormed slots := by
  have names : memberNames (slotMembers slots) = memberNames slots :=
    memberNames_map_items slots fun content => content.getD .null
  rw [Value.WellFormed, Value.membersWellFormed_iff, DistinctNames, names]
  refine and_congr_right fun _ => ⟨?_, ?_⟩
  · intro each key value present
    exact each key value (List.mem_map_of_mem present)
  · intro each key value present
    obtain ⟨⟨_, content⟩, among, same⟩ := List.mem_map.mp present
    cases same
    cases content with
    | none => trivial
    | some value => exact each _ value among

theorem wellFormed_iff : map.WellFormed ↔
    DistinctNames map.categories ∧
      ∀ category slots, (category, slots) ∈ map.categories → SlotsWellFormed slots := by
  rw [WellFormed, toValue, Value.WellFormed, Value.membersWellFormed_iff, DistinctNames,
    memberNames_map_items map.categories fun slots => Value.object (slotMembers slots)]
  refine and_congr_right fun _ => ⟨?_, ?_⟩
  · intro each category slots present
    exact wellFormed_slotMembers.mp (each category _ (List.mem_map_of_mem present))
  · intro each category value present
    obtain ⟨⟨_, slots⟩, among, same⟩ := List.mem_map.mp present
    cases same
    exact wellFormed_slotMembers.mpr (each _ slots among)

/-- The values of a map are what its slots hold. -/
theorem get?_eq_some_iff (wellFormed : map.WellFormed) {category key : String} {value : Value} :
    map.get? category key = some value ↔
      ∃ slots, (category, slots) ∈ map.categories ∧ (key, some value) ∈ slots := by
  obtain ⟨distinct, each⟩ := wellFormed_iff.mp wellFormed
  rw [get?, Option.join_eq_some_iff, slot?, Option.bind_eq_some_iff]
  constructor
  · rintro ⟨slots, found, filled⟩
    exact ⟨slots, mem_of_lookup found, mem_of_lookup filled⟩
  · rintro ⟨slots, present, filled⟩
    exact ⟨slots, lookup_of_mem distinct present,
      lookup_of_mem (each category slots present).1 filled⟩

theorem SlotsWellFormed.putMember {slots : TokenCategory} (wellFormed : SlotsWellFormed slots)
    (key : String) {content : Option Value}
    (fits : ∀ value, content = some value → value.WellFormed) :
    SlotsWellFormed (putMember key content slots) := by
  refine ⟨wellFormed.1.putMember key content, ?_⟩
  intro other value present
  rcases mem_putMember present with new | old
  · cases new
    exact fits value rfl
  · exact wellFormed.2 other value old

theorem wellFormed_empty : empty.WellFormed :=
  wellFormed_iff.mpr ⟨List.nodup_nil, nofun⟩

theorem WellFormed.insert (wellFormed : map.WellFormed) (category key : String)
    {content : Option Value} (fits : ∀ value, content = some value → value.WellFormed) :
    (map.insert category key content).WellFormed := by
  obtain ⟨distinct, slots⟩ := wellFormed_iff.mp wellFormed
  have there : SlotsWellFormed ((map.category? category).getD []) := by
    cases found : map.category? category with
    | none => exact ⟨List.nodup_nil, nofun⟩
    | some present => exact slots category present (mem_of_lookup found)
  refine wellFormed_iff.mpr ⟨distinct.putMember _ _, ?_⟩
  intro other present among
  rcases mem_putMember among with new | old
  · cases new
    exact there.putMember key fits
  · exact slots other present old

end TokenMap

end DesignTokens
