/-
What a token document means.

Reading, looking up and taking the value of a node are three recursions, and
they agree on what is a group, a token and metadata. A path leads from group to
group along names that are not metadata (`Value.Reaches`), and it finds a node
exactly where it comes to a value of the document. The value of that node is
the content of what was reached (`Value.content`): inside `$value` nothing is
metadata any more.
-/
import DesignTokens.Proofs.Members
import DesignTokens.Tree.Document
import DesignTokens.Tree.Path

namespace DesignTokens

/-! ### Documents -/

/-- Names of metadata, which are no children. -/
def IsMetadataName (name : String) : Prop := ['$'] <+: name.toList

instance (name : String) : Decidable (IsMetadataName name) :=
  inferInstanceAs (Decidable (['$'] <+: name.toList))

namespace Value

/-- An object without `$value`. -/
def IsGroup (value : Value) : Prop :=
  ∃ members, value = .object members ∧ "$value" ∉ memberNames members

/-- From a value on, these names lead to a value below it: each step leaves a group by one of its
names that is not metadata. -/
inductive Reaches : Value → List String → Value → Prop
  | here (value : Value) : Reaches value [] value
  | step {members : List (String × Value)} {name : String} {child reached : Value}
      {rest : List String} (group : "$value" ∉ memberNames members)
      (plain : ¬IsMetadataName name) (found : members.lookup name = some child)
      (onward : Reaches child rest reached) :
      Reaches (.object members) (name :: rest) reached

mutual

/-- What a value of a document stands for: a wrapper for the content of its `$value`, another
object for its members without the metadata, and any other value for itself. -/
def content : Value → Value
  | .object members => (members.lookup "$value").getD (.object (contentMembers members))
  | value => value

def contentMembers : List (String × Value) → List (String × Value)
  | [] => []
  | (name, value) :: rest =>
    if IsMetadataName name then contentMembers rest
    else (name, value.content) :: contentMembers rest

end

/-- The metadata of a wrapper under a name: a text, or nothing when no text is there. -/
def IsTextUnder (members : List (String × Value)) (name : String) (text : Option String) : Prop :=
  ∀ written, text = some written ↔ members.lookup name = some (.string written)

end Value

/-- The node stands for a value of a document. -/
structure TokenNode.Represents (node : TokenNode) (value : Value) : Prop where
  leaf_iff : (∃ token, node = .leaf token) ↔ ¬value.IsGroup
  toValue : node.toValue = value.content
  /-- Of a wrapper three members show in the token, and no others. -/
  wrapper : ∀ members inner, value = .object members → members.lookup "$value" = some inner →
    ∃ kind description, node = .leaf ⟨inner, kind, description⟩ ∧
      Value.IsTextUnder members "$type" kind ∧
      Value.IsTextUnder members "$description" description

theorem isMetadataKey_iff {name : String} : isMetadataKey name = true ↔ IsMetadataName name := by
  unfold isMetadataKey IsMetadataName
  cases name.toList with
  | nil => simp
  | cons first rest => simp [eq_comm]

theorem isTextUnder_textMember? (members : List (String × Value)) (name : String) :
    Value.IsTextUnder members name (textMember? name members) := by
  intro written
  unfold textMember?
  cases members.lookup name with
  | none => simp
  | some value => cases value <;> simp [Value.string?]

/-! ### Nodes of a document -/

namespace TokenNode

theorem ofValue_wrapper {members : List (String × Value)} {inner : Value}
    (wraps : members.lookup "$value" = some inner) :
    ofValue (.object members) =
      .leaf ⟨inner, textMember? "$type" members, textMember? "$description" members⟩ := by
  rw [ofValue, valueKey, wraps, kindKey, descriptionKey]

theorem ofValue_group {members : List (String × Value)}
    (group : "$value" ∉ memberNames members) :
    ofValue (.object members) =
      .group (textMember? "$type" members) (childrenOfMembers members) := by
  rw [ofValue, valueKey, lookup_eq_none_of_not_mem group, kindKey]

/-- A value is read as a group when it is one, and as a token otherwise. -/
theorem ofValue_cases (value : Value) :
    (∃ members, value = .object members ∧ "$value" ∉ memberNames members) ∨
      ¬value.IsGroup ∧ ∃ token, ofValue value = .leaf token := by
  by_cases group : value.IsGroup
  · exact .inl group
  · refine .inr ⟨group, ?_⟩
    cases value with
    | object members =>
        cases found : members.lookup "$value" with
        | some inner => exact ⟨_, ofValue_wrapper found⟩
        | none => exact absurd ⟨members, rfl, lookup_eq_none_iff.mp found⟩ group
    | _ => exact ⟨_, rfl⟩

mutual

theorem toValue_ofValue : (value : Value) → (ofValue value).toValue = value.content
  | .object members => by
      rw [ofValue, Value.content, valueKey]
      cases members.lookup "$value" with
      | some inner => rfl
      | none =>
          rw [Option.getD_none]
          dsimp only
          rw [toValue, childValues_childrenOfMembers members]
  | .null => rfl
  | .bool _ => rfl
  | .number _ => rfl
  | .string _ => rfl
  | .array _ => rfl

theorem childValues_childrenOfMembers : (members : List (String × Value)) →
    childValues (childrenOfMembers members) = Value.contentMembers members
  | [] => rfl
  | (name, value) :: rest => by
      rw [childrenOfMembers, Value.contentMembers]
      by_cases metadata : isMetadataKey name = true
      · rw [if_pos metadata, if_pos (isMetadataKey_iff.mp metadata)]
        exact childValues_childrenOfMembers rest
      · rw [if_neg metadata, if_neg (mt isMetadataKey_iff.mpr metadata), childValues,
          toValue_ofValue value, childValues_childrenOfMembers rest]

end

theorem represents_ofValue (value : Value) : (ofValue value).Represents value where
  leaf_iff := by
    rcases ofValue_cases value with ⟨members, rfl, group⟩ | ⟨notGroup, token, leaf⟩
    · rw [ofValue_group group]
      constructor
      · rintro ⟨token, same⟩
        cases same
      · exact fun notGroup => absurd ⟨members, rfl, group⟩ notGroup
    · exact ⟨fun _ => notGroup, fun _ => ⟨token, leaf⟩⟩
  toValue := toValue_ofValue value
  wrapper := by
    rintro members inner rfl wraps
    exact ⟨_, _, ofValue_wrapper wraps, isTextUnder_textMember? members _,
      isTextUnder_textMember? members _⟩

end TokenNode

/-! ### Paths into a document -/

theorem lookup_childrenOfMembers (members : List (String × Value)) (name : String) :
    (childrenOfMembers members).lookup name =
      if IsMetadataName name then none else (members.lookup name).map TokenNode.ofValue := by
  induction members with
  | nil => simp [childrenOfMembers]
  | cons head tail ih =>
      obtain ⟨other, value⟩ := head
      rw [childrenOfMembers, List.lookup_cons]
      by_cases metadata : IsMetadataName other
      · rw [if_pos (isMetadataKey_iff.mpr metadata), ih]
        by_cases same : name = other
        · subst same
          rw [if_pos metadata, if_pos metadata]
        · rw [beq_eq_false_iff_ne.mpr same]
      · rw [if_neg (mt isMetadataKey_iff.mp metadata), List.lookup_cons, ih]
        by_cases same : name = other
        · subst same
          rw [beq_self_eq_true]
          exact (if_neg metadata).symm
        · rw [beq_eq_false_iff_ne.mpr same]

/-- A name leads to no child, or to the child that was read from the member of that name. -/
theorem lookup_childrenOfMembers_cases (members : List (String × Value)) (name : String) :
    (childrenOfMembers members).lookup name = none ∧
        (IsMetadataName name ∨ members.lookup name = none) ∨
      ∃ child, ¬IsMetadataName name ∧ members.lookup name = some child ∧
        (childrenOfMembers members).lookup name = some (TokenNode.ofValue child) := by
  rw [lookup_childrenOfMembers]
  by_cases metadata : IsMetadataName name
  · exact .inl ⟨if_pos metadata, .inl metadata⟩
  · rw [if_neg metadata]
    cases found : members.lookup name with
    | none => exact .inl ⟨rfl, .inr rfl⟩
    | some child => exact .inr ⟨child, metadata, rfl, rfl⟩

namespace Value

theorem reaches_nil_iff {value reached : Value} : value.Reaches [] reached ↔ value = reached := by
  constructor
  · intro reaches
    cases reaches
    rfl
  · rintro rfl
    exact .here value

theorem reaches_step_iff {members : List (String × Value)} {name : String} {child reached : Value}
    {rest : List String} (group : "$value" ∉ memberNames members)
    (plain : ¬IsMetadataName name) (found : members.lookup name = some child) :
    (object members).Reaches (name :: rest) reached ↔ child.Reaches rest reached := by
  constructor
  · intro reaches
    cases reaches with
    | step _ _ again onward =>
        cases found.symm.trans again
        exact onward
  · exact .step group plain found

theorem Reaches.isGroup {value reached : Value} {name : String} {rest : List String}
    (reaches : value.Reaches (name :: rest) reached) : value.IsGroup := by
  cases reaches with
  | step group => exact ⟨_, rfl, group⟩

theorem not_reaches_of_absent {members : List (String × Value)} {name : String}
    {rest : List String} {reached : Value}
    (absent : IsMetadataName name ∨ members.lookup name = none) :
    ¬(object members).Reaches (name :: rest) reached := by
  intro reaches
  cases reaches with
  | step _ plain found =>
      rcases absent with metadata | missing
      · exact plain metadata
      · rw [missing] at found
        cases found

end Value

theorem descend?_of_missing {children : List (String × TokenNode)} {segment : String}
    (missing : children.lookup segment = none) (rest : List String) :
    descend? children (segment :: rest) = none := by
  cases rest with
  | nil => exact missing
  | cons next more => rw [descend?, missing]; simp

/-- A descent finds the nodes of the values that the names reach, and nothing else. -/
theorem descend?_childrenOfMembers_iff {members : List (String × Value)}
    (group : "$value" ∉ memberNames members) {parts : List String} (nonempty : parts ≠ [])
    {node : TokenNode} :
    descend? (childrenOfMembers members) parts = some node ↔
      ∃ reached, (Value.object members).Reaches parts reached ∧
        TokenNode.ofValue reached = node := by
  induction parts generalizing members with
  | nil => exact absurd rfl nonempty
  | cons segment rest ih =>
      rcases lookup_childrenOfMembers_cases members segment with
        ⟨missing, absent⟩ | ⟨child, plain, found, isChild⟩
      · rw [descend?_of_missing missing]
        constructor
        · intro none
          cases none
        · rintro ⟨reached, reaches, -⟩
          exact absurd reaches (Value.not_reaches_of_absent absent)
      · simp only [Value.reaches_step_iff group plain found]
        cases rest with
        | nil =>
            rw [descend?, isChild]
            simp only [Value.reaches_nil_iff, exists_eq_left', Option.some.injEq]
        | cons next more =>
            rw [descend?, isChild]
            · rcases TokenNode.ofValue_cases child with
                ⟨inner, rfl, inside⟩ | ⟨notGroup, token, leaf⟩
              · rw [TokenNode.ofValue_group inside]
                exact ih inside (List.cons_ne_nil next more)
              · rw [leaf]
                constructor
                · intro none
                  cases none
                · rintro ⟨reached, reaches, -⟩
                  exact absurd reaches.isGroup notGroup
            · simp

namespace TokenTree

theorem ofValue?_group {members : List (String × Value)}
    (group : "$value" ∉ memberNames members) :
    ofValue? (.object members) =
      some ⟨textMember? "$type" members, childrenOfMembers members⟩ := by
  rw [ofValue?, valueKey, lookup_eq_none_of_not_mem group, kindKey]

theorem ofValue?_of_not_isGroup {document : Value} (notGroup : ¬document.IsGroup) :
    ofValue? document = none := by
  cases document with
  | object members =>
      cases found : members.lookup "$value" with
      | some inner => rw [ofValue?, valueKey, found]
      | none => exact absurd ⟨members, rfl, lookup_eq_none_iff.mp found⟩ notGroup
  | _ => rfl

theorem lookup?_iff {document : Value} {tree : TokenTree}
    (read : ofValue? document = some tree) {path : String} {node : TokenNode} :
    tree.lookup? path = some node ↔
      ∃ reached, document.Reaches (segments path) reached ∧ TokenNode.ofValue reached = node := by
  by_cases group : document.IsGroup
  · obtain ⟨members, rfl, inside⟩ := group
    rw [ofValue?_group inside] at read
    cases read
    exact descend?_childrenOfMembers_iff inside (segments_ne_nil path)
  · rw [ofValue?_of_not_isGroup group] at read
    cases read

/-- A document is read as a tree exactly when it is a group. In the tree a path finds a node
exactly when its segments reach a value of the document, and that node stands for that value: it
is a token unless the value is a group, its value is the content of that value, and the metadata
of a token are the texts under `$type` and `$description` of its wrapper. -/
theorem lookup_of_document (document : Value) :
    ((ofValue? document).isSome = true ↔ document.IsGroup) ∧
      ∀ tree, ofValue? document = some tree → ∀ path,
        ((tree.lookup? path).isSome = true ↔ ∃ reached, document.Reaches (segments path) reached) ∧
        ∀ node reached, tree.lookup? path = some node →
          document.Reaches (segments path) reached → node.Represents reached := by
  constructor
  · constructor
    · intro read
      by_contra notGroup
      rw [ofValue?_of_not_isGroup notGroup] at read
      cases read
    · rintro ⟨members, rfl, group⟩
      rw [ofValue?_group group]
      rfl
  · intro tree read path
    constructor
    · rw [Option.isSome_iff_exists]
      constructor
      · rintro ⟨node, found⟩
        obtain ⟨reached, reaches, -⟩ := (lookup?_iff read).mp found
        exact ⟨reached, reaches⟩
      · rintro ⟨reached, reaches⟩
        exact ⟨_, (lookup?_iff read).mpr ⟨reached, reaches, rfl⟩⟩
    · intro node reached found reaches
      have again := (lookup?_iff read).mpr ⟨reached, reaches, rfl⟩
      cases found.symm.trans again
      exact TokenNode.represents_ofValue reached

/-- A group with a wrapper whose content looks like a wrapper again, and which has a member that
looks like a child. -/
def mixedDocument : Value :=
  .object [("$type", .string "border"), ("line", .object [("$order", .array []),
    ("thin", .object [("$description", .null), ("$type", .string "border"),
      ("$value", .object [("$value", .string "{ink}")]), ("width", .string "1px")])])]

theorem lookup_of_mixedDocument :
    ∃ tree, ofValue? mixedDocument = some tree ∧
      (∃ token, tree.lookup? "line.thin" = some (.leaf token) ∧
        token.value = .object [("$value", .string "{ink}")] ∧ token.kind = some "border" ∧
        token.description = none) ∧
      tree.lookup? "line.thin.width" = none := by
  obtain ⟨readable, described⟩ := lookup_of_document mixedDocument
  have group : mixedDocument.IsGroup := ⟨_, rfl, by decide⟩
  obtain ⟨tree, read⟩ := Option.isSome_iff_exists.mp (readable.mpr group)
  have toThin {rest : List String} {reached : Value} :
      mixedDocument.Reaches ("line" :: "thin" :: rest) reached ↔ _ :=
    (Value.reaches_step_iff (by decide) (by decide) rfl).trans
      (Value.reaches_step_iff (by decide) (by decide) rfl)
  refine ⟨tree, read, ?_, ?_⟩
  · obtain ⟨found, represents⟩ := described tree read "line.thin"
    have reaches : mixedDocument.Reaches (segments "line.thin") _ := toThin.mpr (.here _)
    obtain ⟨node, looked⟩ := Option.isSome_iff_exists.mp (found.mpr ⟨_, reaches⟩)
    obtain ⟨kind, description, rfl, isKind, isDescription⟩ :=
      (represents node _ looked reaches).wrapper _ _ rfl rfl
    refine ⟨_, looked, rfl, (isKind "border").mpr rfl, ?_⟩
    cases description with
    | none => rfl
    | some written => cases (isDescription written).mp rfl
  · -- No step leaves the wrapper.
    obtain ⟨found, -⟩ := described tree read "line.thin.width"
    rw [← Option.not_isSome_iff_eq_none, found]
    rintro ⟨reached, reaches⟩
    have inside : segments "line.thin.width" = ["line", "thin", "width"] := by decide
    rw [inside] at reaches
    obtain ⟨members, same, withoutValue⟩ := (toThin.mp reaches).isGroup
    cases same
    exact withoutValue (by decide)

end TokenTree

end DesignTokens
