/-
The same tokens in JSON and in TOML.

The two formats are written by two recursions over the values of a map, with
different limits for integers and different ways with null. `Data` is what a
document says apart from the format it is written in: a number is given by its
exact value, whether it stands there as an integer or as a float. The digits that
are written are the shortest ones, and what they say is the number that they are
read back as. The data of a TOML document are those of the JSON document with
every null left out, wherever it stands in an array or an object, and with
nothing else left out.
-/
import DesignTokens.Output.Render
import DesignTokens.Proofs.MemberOrder
import DesignTokens.Proofs.Number.ReadBack
import DesignTokens.Proofs.Theme.WellFormed
import DesignTokens.Proofs.Value.Canonical

namespace DesignTokens

/-- What a document says, apart from how it is written. -/
inductive Data
  | null
  | bool (flag : Bool)
  | number (value : ℚ)
  | text (content : String)
  | array (items : List Data)
  | object (members : List (String × Data))

/-! ### Leaving nulls out -/

namespace Data

def isNull : Data → Bool
  | .null => true
  | _ => false

mutual

/-- The data without the nulls among the items of arrays and the members of objects, at any
depth. Containers that become empty stay. -/
def withoutNulls : Data → Data
  | .array items => .array (itemsWithoutNulls items)
  | .object members => .object (membersWithoutNulls members)
  | data => data

def itemsWithoutNulls : List Data → List Data
  | [] => []
  | item :: rest =>
    if item.isNull then itemsWithoutNulls rest
    else item.withoutNulls :: itemsWithoutNulls rest

def membersWithoutNulls : List (String × Data) → List (String × Data)
  | [] => []
  | (name, data) :: rest =>
    if data.isNull then membersWithoutNulls rest
    else (name, data.withoutNulls) :: membersWithoutNulls rest

end

/-- What stays of an item or a member. -/
def kept? (data : Data) : Option Data :=
  if data.isNull then none else some data.withoutNulls

theorem itemsWithoutNulls_cons (item : Data) (rest : List Data) :
    itemsWithoutNulls (item :: rest) = item.kept?.toList ++ itemsWithoutNulls rest := by
  rw [itemsWithoutNulls, kept?]
  split <;> rfl

theorem membersWithoutNulls_eq (members : List (String × Data)) :
    membersWithoutNulls members = filterItems kept? members := by
  induction members with
  | nil => rfl
  | cons head tail ih =>
      obtain ⟨name, data⟩ := head
      rw [membersWithoutNulls]
      by_cases null : data.isNull = true
      · have dropped : data.kept? = none := if_pos null
        rw [if_pos null, ih, filterItems_cons_none dropped]
      · have stays : data.kept? = some data.withoutNulls := if_neg null
        rw [if_neg null, ih, filterItems_cons_some stays]

end Data

/-- What the text of a number says: the exact value of the number nearest to its digits, and null
when it does not stand for a finite number. -/
def Data.ofNumeral (text : List Char) : Data :=
  match (Number.ofText? text).bind Number.value? with
  | some value => .number value
  | none => .null

/-! ### What JSON says -/

def Number.data (number : Number) : Data := .ofNumeral number.jsonText

namespace Value

mutual

def data : Value → Data
  | .null => .null
  | .bool flag => .bool flag
  | .number value => value.data
  | .string text => .text text
  | .array items => .array (dataItems items)
  | .object members => .object (dataMembers members)

def dataItems : List Value → List Data
  | [] => []
  | item :: rest => item.data :: dataItems rest

def dataMembers : List (String × Value) → List (String × Data)
  | [] => []
  | (name, value) :: rest => (name, value.data) :: dataMembers rest

end

theorem dataMembers_eq_map (members : List (String × Value)) :
    dataMembers members = members.map fun (name, value) => (name, value.data) := by
  induction members with
  | nil => rfl
  | cons head tail ih => rw [dataMembers, ih, List.map_cons]

theorem dataMembers_sortMembers (members : List (String × Value)) :
    dataMembers (sortMembers members) = sortMembers (dataMembers members) := by
  rw [dataMembers_eq_map, dataMembers_eq_map, sortMembers_map]

end Value

/-! ### What TOML says -/

namespace Toml.Value

mutual

def data : Toml.Value → Data
  | .string text => .text text
  | .integer value => .number value
  | .float number => .ofNumeral number.tomlText
  | .boolean flag => .bool flag
  | .dateTime text => .text text
  | .array items => .array (dataItems items)
  | .table entries => .object (dataEntries entries)

def dataItems : List Toml.Value → List Data
  | [] => []
  | item :: rest => item.data :: dataItems rest

def dataEntries : List (String × Toml.Value) → List (String × Data)
  | [] => []
  | (name, value) :: rest => (name, value.data) :: dataEntries rest

end

theorem dataEntries_eq_map (entries : List (String × Toml.Value)) :
    dataEntries entries = entries.map fun (name, value) => (name, value.data) := by
  induction entries with
  | nil => rfl
  | cons head tail ih => rw [dataEntries, ih, List.map_cons]

theorem dataEntries_sortMembers (entries : List (String × Toml.Value)) :
    dataEntries (sortMembers entries) = sortMembers (dataEntries entries) := by
  rw [dataEntries_eq_map, dataEntries_eq_map, sortMembers_map]

end Toml.Value

/-! ### Numbers -/

section Numbers

variable {number : Number} {value : ℚ}

theorem Number.value?_plain (number : Number) : number.plain.value? = number.value? := by
  rcases number.plain_cases with same | ⟨negative, rfl, plain⟩
  · rw [same]
  · have zeros (negative : Bool) : (zero negative).value? = some 0 := by
      have counts : (zero negative).integer? = some 0 := by
        cases negative <;> decide +kernel
      exact value?_of_integer? counts
    rw [plain, zeros, zeros]

theorem Number.data_of_value? (exact : number.value? = some value) :
    number.data = .number value := by
  have finite : number.isFinite = true := by
    cases number with
    | finite negative magnitude => rfl
    | nan => cases exact
    | infinity => cases exact
  rw [data, Data.ofNumeral, ofText?_jsonText finite, Option.bind_some, value?_plain, exact]

theorem data_tomlNumber_of_value? (exact : number.value? = some value) :
    (tomlNumber number).data = .number value := by
  have asFloat : (Toml.Value.float number).data = .number value := by
    rw [Toml.Value.data, Data.ofNumeral, Number.ofText?_tomlText, Option.bind_some, exact]
  cases whole : number.integer? with
  | none =>
      rw [tomlNumber, whole]
      exact asFloat
  | some integer =>
      rw [Number.value?_of_integer? whole] at exact
      cases exact
      rw [tomlNumber, whole]
      dsimp only
      split
      · rfl
      · exact asFloat

end Numbers

/-! ### Values -/

theorem data_tomlObject {members : List (String × Value)} (distinct : DistinctNames members)
    (entries : Toml.Value.dataEntries (tomlEntries members) =
      filterItems Data.kept? (Value.dataMembers (Value.sortedMembers members))) :
    (Toml.Value.table (sortMembers (tomlEntries members))).data =
      (Value.object members).sorted.data.withoutNulls := by
  have stillDistinct : DistinctNames (Value.dataMembers (Value.sortedMembers members)) := by
    rw [Value.dataMembers_eq_map, Value.sortedMembers_eq_map]
    exact (distinct.map_items _).map_items _
  rw [Toml.Value.data, Value.sorted, Value.data, Data.withoutNulls]
  refine congrArg Data.object ?_
  calc
    Toml.Value.dataEntries (sortMembers (tomlEntries members))
      = sortMembers (Toml.Value.dataEntries (tomlEntries members)) :=
        Toml.Value.dataEntries_sortMembers _
    _ = sortMembers (filterItems Data.kept? (Value.dataMembers (Value.sortedMembers members))) := by
        rw [entries]
    _ = filterItems Data.kept? (sortMembers (Value.dataMembers (Value.sortedMembers members))) :=
        sortMembers_filterItems stillDistinct _
    _ = Data.membersWithoutNulls
          (Value.dataMembers (sortMembers (Value.sortedMembers members))) := by
        rw [Value.dataMembers_sortMembers, Data.membersWithoutNulls_eq]

mutual

/-- A value without a form in TOML is null in JSON, and any other says the same in both. -/
theorem data_tomlValue? : (value : Value) → value.WellFormed → value.Finite →
    (tomlValue? value).map Toml.Value.data = value.sorted.data.kept?
  | .null, _, _ => rfl
  | .bool _, _, _ => rfl
  | .string _, _, _ => rfl
  | .number number, _, finite => by
      obtain ⟨value, exact⟩ := Number.exists_value?_of_isFinite (finite number (.head _))
      rw [tomlValue?, Option.map_some, data_tomlNumber_of_value? exact]
      change some (Data.number value) = number.data.kept?
      rw [Number.data_of_value? exact]
      rfl
  | .array items, wellFormed, finite => by
      rw [tomlValue?, Option.map_some, Toml.Value.data,
        dataItems_tomlItems items wellFormed finite, Value.sorted, Value.data]
      rfl
  | .object members, wellFormed, finite => by
      rw [Value.WellFormed] at wellFormed
      have entries := dataEntries_tomlEntries members wellFormed.2 finite
      rw [tomlValue?, Option.map_some, data_tomlObject wellFormed.1 entries, Value.sorted,
        Value.data]
      rfl

theorem dataItems_tomlItems : (items : List Value) → Value.ItemsWellFormed items →
    (∀ number ∈ Value.itemNumbers items, number.isFinite = true) →
    Toml.Value.dataItems (tomlItems items) =
      Data.itemsWithoutNulls (Value.dataItems (Value.sortedItems items))
  | [], _, _ => rfl
  | item :: rest, wellFormed, finite => by
      rw [Value.ItemsWellFormed] at wellFormed
      rw [Value.itemNumbers, List.forall_mem_append] at finite
      have first := data_tomlValue? item wellFormed.1 finite.1
      have later := dataItems_tomlItems rest wellFormed.2 finite.2
      rw [Value.sortedItems, Value.dataItems, Data.itemsWithoutNulls_cons, ← first, ← later,
        tomlItems]
      cases tomlValue? item <;> rfl

theorem dataEntries_tomlEntries : (members : List (String × Value)) →
    Value.MembersWellFormed members →
    (∀ number ∈ Value.memberNumbers members, number.isFinite = true) →
    Toml.Value.dataEntries (tomlEntries members) =
      filterItems Data.kept? (Value.dataMembers (Value.sortedMembers members))
  | [], _, _ => rfl
  | (name, value) :: rest, wellFormed, finite => by
      rw [Value.MembersWellFormed] at wellFormed
      rw [Value.memberNumbers, List.forall_mem_append] at finite
      have first := data_tomlValue? value wellFormed.1 finite.1
      have later := dataEntries_tomlEntries rest wellFormed.2 finite.2
      rw [Value.sortedMembers, Value.dataMembers, tomlEntries]
      cases written : tomlValue? value with
      | none =>
          rw [written] at first
          rw [filterItems_cons_none first.symm]
          exact later
      | some entry =>
          rw [written] at first
          rw [filterItems_cons_some first.symm, ← later]
          rfl

end

/-! ### Maps and themes -/

theorem tomlEntries_eq (members : List (String × Value)) :
    tomlEntries members = filterItems tomlValue? members := by
  induction members with
  | nil => rfl
  | cons head tail ih =>
      obtain ⟨name, value⟩ := head
      rw [tomlEntries]
      cases written : tomlValue? value with
      | none => rw [ih, filterItems_cons_none written]
      | some entry => rw [ih, filterItems_cons_some written]

theorem tomlValue?_slotMembers (slots : TokenCategory) :
    tomlValue? (.object (TokenMap.slotMembers slots)) = some (.table (slotTable slots)) := by
  rw [tomlValue?, tomlEntries_eq, filterItems, TokenMap.slotMembers, List.filterMap_map, slotTable]
  refine congrArg (fun entries => some (Toml.Value.table (sortMembers entries))) ?_
  refine List.filterMap_congr fun slot _ => ?_
  obtain ⟨key, content⟩ := slot
  cases content <;> rfl

theorem tomlEntries_categories (categories : List (String × TokenCategory)) :
    tomlEntries (categories.map fun (category, slots) =>
        (category, .object (TokenMap.slotMembers slots))) =
      categories.map fun (category, slots) => (category, .table (slotTable slots)) := by
  rw [tomlEntries_eq]
  exact filterItems_map fun _ slots _ => tomlValue?_slotMembers slots

/-- The table of a map is the map's own object of objects in TOML. -/
theorem tomlValue?_toValue (map : TokenMap) :
    tomlValue? map.toValue = some (.table (mapTable map)) := by
  rw [TokenMap.toValue, tomlValue?, tomlEntries_categories, mapTable]

theorem data_mapTable {map : TokenMap} (wellFormed : map.WellFormed)
    (finite : map.toValue.Finite) :
    some (Toml.Value.table (mapTable map)).data = map.toValue.sorted.data.kept? := by
  rw [← data_tomlValue? _ wellFormed finite, tomlValue?_toValue, Option.map_some]

/-- Maps under the names of their variants. A variant may be given twice: the later map counts in
both formats. -/
theorem data_namedTables {themes : List RenderedTheme}
    (wellFormed : ∀ theme ∈ themes, theme.2.WellFormed)
    (finite : ∀ theme ∈ themes, theme.2.toValue.Finite) :
    (Toml.Value.table (sortMembers (themes.map fun (variant, map) =>
        (variant.name, .table (mapTable map))))).data =
      (Value.object (themes.map fun (variant, map) =>
        (variant.name, map.toValue))).sorted.data.withoutNulls := by
  let named := themes.map fun (variant, map) => (variant.name, map)
  have tables : Toml.Value.dataEntries (themes.map fun (variant, map) =>
        (variant.name, .table (mapTable map))) =
      named.map fun (name, map) => (name, (Toml.Value.table (mapTable map)).data) := by
    rw [Toml.Value.dataEntries_eq_map, List.map_map, List.map_map]
    rfl
  have objects : Value.dataMembers (Value.sortedMembers (themes.map fun (variant, map) =>
        (variant.name, map.toValue))) =
      named.map fun (name, map) => (name, map.toValue.sorted.data) := by
    rw [Value.sortedMembers_eq_map, List.map_map, Value.dataMembers_eq_map, List.map_map,
      List.map_map]
    rfl
  rw [Toml.Value.data, Toml.Value.dataEntries_sortMembers, tables, Value.sorted, Value.data,
    Value.dataMembers_sortMembers, objects, Data.withoutNulls, Data.membersWithoutNulls_eq]
  refine congrArg Data.object (Eq.symm ?_)
  refine filterItems_sortMembers_map (fun map => map.toValue.sorted.data)
    (fun map => (Toml.Value.table (mapTable map)).data) ?_
  intro name map present
  obtain ⟨theme, given, same⟩ := List.mem_map.mp present
  cases same
  exact (data_mapTable (wellFormed theme given) (finite theme given)).symm

/-- A single map stands at the top. -/
theorem data_themesTable (themes : List RenderedTheme)
    (wellFormed : ∀ theme ∈ themes, theme.2.WellFormed)
    (finite : ∀ theme ∈ themes, theme.2.toValue.Finite) :
    (Toml.Value.table (themesTable themes)).data =
      (themesValue themes).sorted.data.withoutNulls := by
  have named := data_namedTables wellFormed finite
  rcases themes with _ | ⟨⟨variant, map⟩, _ | ⟨second, others⟩⟩
  · exact named
  · have same := data_mapTable (wellFormed _ (.head _)) (finite _ (.head _))
    exact Option.some.inj same
  · exact named

/-- The table that TOML output writes says what the value that JSON output writes says, less its
nulls, and every number is written with its exact value in both. -/
theorem toml_agrees_with_json (themes : List RenderedTheme)
    (wellFormed : ∀ theme ∈ themes, theme.2.WellFormed)
    (finite : ∀ theme ∈ themes, theme.2.toValue.Finite) :
    render themes .json = Json.writePretty (themesValue themes).sorted ∧
      render themes .toml = Toml.write (themesTable themes) ∧
      (Toml.Value.table (themesTable themes)).data =
        (themesValue themes).sorted.data.withoutNulls ∧
      ∀ number value, number.value? = some value →
        number.data = .number value ∧ (tomlNumber number).data = .number value := by
  refine ⟨rfl, rfl, data_themesTable themes wellFormed finite, ?_⟩
  intro number value exact
  exact ⟨Number.data_of_value? exact, data_tomlNumber_of_value? exact⟩

/-- A whole number beyond the whole limit, a negative zero, a half, nulls in an array and in an
object, and a category with nothing but an undefined slot. -/
def mixedMap : TokenMap :=
  ((((TokenMap.empty.insert "size" "large" (some (.number (.ofInt 9007199254740993)))).insert
    "size" "none" (some (.number (.zero true)))).insert
    "size" "half" (some (.array [.null, .number (.ofRatio false 1 2)]))).insert
    "shadow" "soft" (some (.object [("y", .null), ("x", .array [.null])]))).insert
    "gap" "wide" none

theorem toml_agrees_with_json_of_mixedMap :
    let themes : List RenderedTheme := [(.light, mixedMap), (.dark, .empty), (.light, mixedMap)]
    (∀ theme ∈ themes, theme.2.WellFormed) ∧ (∀ theme ∈ themes, theme.2.toValue.Finite) ∧
      (Toml.Value.table (themesTable themes)).data =
        (themesValue themes).sorted.data.withoutNulls := by
  intro themes
  have wellFormed : ∀ theme ∈ themes, theme.2.WellFormed := by decide
  have finite : ∀ theme ∈ themes, theme.2.toValue.Finite := by decide +kernel
  exact ⟨wellFormed, finite, (toml_agrees_with_json themes wellFormed finite).2.2.1⟩

end DesignTokens
