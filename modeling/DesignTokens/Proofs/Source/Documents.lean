/-
Values that come from documents.

Every way in which a program comes to a registry gives it sources that are built in
or were read from documents (`SourceRegistry.FromDocuments`). Reading refuses
numbers that are not finite and keeps the last of the members with one name, so
the trees of such a registry have finite numbers only and each name once. Looking
up a node keeps that, and so does normalizing, which makes no numbers and no names.

A value is loaded when it was read from JSON text, stands at a path of a registry
from documents, or is a part of a loaded value (`Value.Loaded`).
-/
import DesignTokens.Configuration.Loading
import DesignTokens.Proofs.Resolution.Settled
import DesignTokens.Proofs.Source.WellFormed
import DesignTokens.Proofs.Tree.Document
import DesignTokens.Proofs.Value.Canonical

namespace DesignTokens

/-! ### Finite numbers of documents -/

theorem Json.inherited_finite : Inherited Value.Finite where
  null _ present := absurd present List.not_mem_nil
  bool _ _ present := absurd present List.not_mem_nil
  number number finite other present := by
    rw [List.mem_singleton.mp present]
    exact finite
  string _ _ present := absurd present List.not_mem_nil
  array _ each := Value.finite_array_iff.mpr each
  object _ _ each := Value.finite_object_iff.mpr each

namespace Value

mutual

theorem finite_content : (value : Value) → value.Finite → value.content.Finite
  | .object members, finite => by
      have each := finite_object_iff.mp finite
      rw [content]
      cases wraps : members.lookup "$value" with
      | some inner => exact each _ inner (mem_of_lookup wraps)
      | none => exact finite_object_iff.mpr (finite_contentMembers members each)
  | .null, finite => finite
  | .bool _, finite => finite
  | .number _, finite => finite
  | .string _, finite => finite
  | .array _, finite => finite

theorem finite_contentMembers :
    (members : List (String × Value)) →
      (∀ name value, (name, value) ∈ members → value.Finite) →
      ∀ name value, (name, value) ∈ contentMembers members → value.Finite
  | [], _ => fun _ _ present => absurd present List.not_mem_nil
  | (name, value) :: rest, each => by
      obtain ⟨here, further⟩ := forall_mem_members_cons.mp each
      have others := finite_contentMembers rest further
      rw [contentMembers]
      split
      · exact others
      · exact forall_mem_members_cons.mpr ⟨finite_content value here, others⟩

end

end Value

namespace TokenTree

/-- Every number in the tree is finite. -/
def Finite (tree : TokenTree) : Prop := tree.toValue.Finite

instance (tree : TokenTree) : Decidable tree.Finite :=
  inferInstanceAs (Decidable tree.toValue.Finite)

variable {tree : TokenTree}

theorem Finite.of_lookup (finite : tree.Finite) {path : String} {node : TokenNode}
    (found : tree.lookup? path = some node) : node.toValue.Finite := by
  let Finitely (node : TokenNode) : Prop := node.toValue.Finite
  have below (kind : Option String) (children : List (String × TokenNode))
      (group : Finitely (.group kind children)) (name : String) (child : TokenNode)
      (member : children.lookup name = some child) : Finitely child := by
    have value : (childValues children).lookup name = some child.toValue := by
      rw [lookup_childValues, member]
      rfl
    exact Value.finite_object_iff.mp group name _ (mem_of_lookup value)
  exact tree.holds_of_lookup below finite found

theorem finite_of_ofValue? {value : Value} (finite : value.Finite)
    (isTree : ofValue? value = some tree) : tree.Finite := by
  by_cases group : value.IsGroup
  · obtain ⟨members, rfl, inside⟩ := group
    rw [ofValue?_group inside] at isTree
    cases isTree
    rw [Finite, toValue, TokenNode.childValues_childrenOfMembers, Value.finite_object_iff]
    exact Value.finite_contentMembers members (Value.finite_object_iff.mp finite)
  · rw [ofValue?_of_not_isGroup group] at isTree
    cases isTree

theorem finite_of_ofJson {name text : String} (read : ofJson name text = .ok tree) :
    tree.Finite := by
  obtain ⟨value, isValue, isTree⟩ := exists_read_of_ofJson read
  exact finite_of_ofValue? (Json.inherited_finite.of_read? isValue) isTree

end TokenTree

/-! ### Registries from documents -/

namespace SourceRegistry

variable {registry next : SourceRegistry}

/-- Every source is built in, or its tree was read from a document. -/
def FromDocuments (registry : SourceRegistry) : Prop :=
  ∀ source ∈ registry.sources, source ∈ builtin.sources ∨
    ∃ text, TokenTree.ofJson source.name text = .ok source.tree

theorem empty_fromDocuments : empty.FromDocuments := fun _ present =>
  absurd present List.not_mem_nil

theorem builtin_finite : ∀ source ∈ builtin.sources, source.tree.Finite := by decide +kernel

namespace FromDocuments

theorem wellFormed (documents : registry.FromDocuments) : registry.WellFormed := by
  intro source present
  rcases documents source present with isBuiltin | ⟨text, read⟩
  · exact builtin_wellFormed source isBuiltin
  · exact TokenTree.wellFormed_ofJson read

theorem finite_tree (documents : registry.FromDocuments) {source : Source}
    (present : source ∈ registry.sources) : source.tree.Finite := by
  rcases documents source present with isBuiltin | ⟨text, read⟩
  · exact builtin_finite source isBuiltin
  · exact TokenTree.finite_of_ofJson read

theorem finite (documents : registry.FromDocuments) {path : String} {value : Value}
    (found : registry.valueAt? path = some value) : value.Finite := by
  obtain ⟨⟨name, node⟩, isFound, rfl⟩ := Option.map_eq_some_iff.mp found
  obtain ⟨source, present, -, looked⟩ := exists_source_of_firstFound? isFound
  exact (documents.finite_tree present).of_lookup looked

theorem pushJson (documents : registry.FromDocuments) {name text : String}
    (pushed : registry.pushJson name text = .ok next) : next.FromDocuments := by
  unfold SourceRegistry.pushJson at pushed
  cases read : TokenTree.ofJson name text with
  | error failure => rw [read] at pushed; cases pushed
  | ok tree =>
      rw [read] at pushed
      intro source present
      rw [sources_push pushed] at present
      rcases List.mem_append.mp present with old | new
      · exact documents source old
      · rw [List.mem_singleton.mp new]
        exact .inr ⟨text, read⟩

theorem pushFile (documents : registry.FromDocuments) {name path : String}
    {content : Except ReadFailure String}
    (pushed : registry.pushFile name path content = .ok next) : next.FromDocuments := by
  cases content with
  | error failure => cases pushed
  | ok text => exact documents.pushJson pushed

end FromDocuments

end SourceRegistry

/-! ### Loading -/

namespace Configuration

variable (read : FileReader Id) (configuration : Configuration) {next : SourceRegistry}

theorem fromDocuments_of_loadSources {registry : SourceRegistry}
    (documents : registry.FromDocuments) (sources : List SourceFile)
    (loaded : Id.run (configuration.loadSources read registry sources) = .ok next) :
    next.FromDocuments := by
  induction sources generalizing registry with
  | nil =>
      cases loaded
      exact documents
  | cons source rest ih =>
      rw [loadSources] at loaded
      dsimp only [Id.run, bind, pure] at loaded
      split at loaded
      · cases loaded
      · rename_i between pushed
        exact ih (documents.pushFile pushed) loaded

theorem fromDocuments_of_loadRegistry
    (loaded : Id.run (configuration.loadRegistry read) = .ok next) : next.FromDocuments := by
  rw [loadRegistry] at loaded
  split at loaded
  · cases loaded
    exact fun source present => .inl present
  · have start := SourceRegistry.empty_fromDocuments
    exact fromDocuments_of_loadSources read configuration start _ loaded

/-- Every registry that is loaded is well-formed, whatever the files hold. -/
theorem wellFormed_of_loadRegistry
    (loaded : Id.run (configuration.loadRegistry read) = .ok next) : next.WellFormed :=
  (fromDocuments_of_loadRegistry read configuration loaded).wellFormed

end Configuration

/-! ### Loaded values -/

/-- A value that was read from a document, or stands in a source, or is a part of such a value. -/
inductive Value.Loaded : Value → Prop
  | read {text : String} {value : Value} (read : Json.read? text = some value) : Loaded value
  | found {registry : SourceRegistry} {path : String} {value : Value}
      (documents : registry.FromDocuments) (found : registry.valueAt? path = some value) :
      Loaded value
  | item {items : List Value} {item : Value} (whole : Loaded (.array items))
      (present : item ∈ items) : Loaded item
  | member {members : List (String × Value)} {name : String} {value : Value}
      (whole : Loaded (.object members)) (present : (name, value) ∈ members) : Loaded value

theorem Value.Loaded.finite {value : Value} (loaded : value.Loaded) : value.Finite := by
  induction loaded with
  | read read => exact Json.inherited_finite.of_read? read
  | found documents found => exact documents.finite found
  | item _ present ih => exact finite_array_iff.mp ih _ present
  | member _ present ih => exact finite_object_iff.mp ih _ _ present

/-! ### Normal forms -/

namespace Value

/-- What holds of an array and of every text holds of the array when it is collapsed. -/
theorem holds_collapse {holds : Value → Prop} {items : List Value} (array : holds (.array items))
    (texts : ∀ text, holds (.string text)) : holds (collapse items) := by
  rcases collapse_cases items with same | ⟨text, same, -⟩
  · rw [same]
    exact array
  · rw [same]
    exact texts text

theorem wellFormed_carriesOver : CarriesOver WellFormed WellFormed where
  null := trivial
  bool _ := trivial
  number _ _ := trivial
  string _ _ := trivial
  array items each := by
    have array : (array items).WellFormed := by
      rw [WellFormed]
      exact itemsWellFormed_iff.mpr each
    exact holds_collapse array fun _ => trivial
  object _ _ whole kept each := by
    rw [WellFormed] at whole ⊢
    exact ⟨whole.1.sublist kept, membersWellFormed_iff.mpr each⟩
  items _ whole := by
    rw [WellFormed] at whole
    exact itemsWellFormed_iff.mp whole
  members _ whole := by
    rw [WellFormed] at whole
    exact membersWellFormed_iff.mp whole.2

theorem finite_carriesOver : CarriesOver Finite Finite where
  null _ present := absurd present List.not_mem_nil
  bool _ _ present := absurd present List.not_mem_nil
  number _ finite := finite
  string _ _ _ present := absurd present List.not_mem_nil
  array _ each := holds_collapse (finite_array_iff.mpr each) fun _ _ present =>
    absurd present List.not_mem_nil
  object _ _ _ _ each := finite_object_iff.mpr each
  items _ finite := finite_array_iff.mp finite
  members _ finite := finite_object_iff.mp finite

end Value

end DesignTokens
