/-
Normal forms are settled.

A settled value has no reference in it, and none of its arrays is still to be
collapsed. Normalizing gives settled values only, and gives a settled value
back as it is, over any registry and without looking anything up: what was
published once depends on no source any more.

That the text of a shadow is not a reference rests on its first character,
which comes from a mark, a number or the unit behind it.
-/
import DesignTokens.Proofs.Number.Characters
import DesignTokens.Proofs.Resolution.Expansion
import DesignTokens.Proofs.Resolution.Invariant

namespace DesignTokens

/-! ### Texts that are not references -/

/-- The text has a first character, and it is not an opening brace. -/
def OpensPlainly (text : String) : Prop :=
  ∃ first rest, text.toList = first :: rest ∧ first ≠ '{'

theorem OpensPlainly.append {text : String} (opens : OpensPlainly text) (more : String) :
    OpensPlainly (text ++ more) := by
  obtain ⟨first, rest, split, other⟩ := opens
  exact ⟨first, rest ++ more.toList, by rw [String.toList_append, split, List.cons_append], other⟩

theorem OpensPlainly.referencePath?_eq_none {text : String} (opens : OpensPlainly text) :
    referencePath? text = none := by
  obtain ⟨first, rest, split, other⟩ := opens
  simp [referencePath?, split, other]

namespace ShadowLayer

theorem pixels_opensPlainly (length : Number) : OpensPlainly (pixels length) := by
  have unit : (pixels length).toList = length.displayText ++ ['p', 'x'] := by
    rw [pixels, String.toList_append, String.toList_ofList]
    rfl
  rw [OpensPlainly, unit]
  cases written : length.displayText with
  | nil => exact ⟨'p', ['x'], rfl, by decide⟩
  | cons first rest =>
      refine ⟨first, rest ++ ['p', 'x'], rfl, ?_⟩
      rintro rfl
      have brace : '{' ∈ length.displayText := by
        rw [written]
        exact List.mem_cons_self
      have impossible := Number.mem_displayText brace
      revert impossible
      decide

theorem text_opensPlainly (layer : ShadowLayer) : OpensPlainly layer.text := by
  unfold text
  cases layer.kind with
  | inner =>
      have mark : OpensPlainly "inset " := ⟨'i', _, rfl, by decide⟩
      iterate 8 apply OpensPlainly.append
      exact mark.append _
  | outer =>
      iterate 8 apply OpensPlainly.append
      rw [String.empty_append]
      exact pixels_opensPlainly layer.x

end ShadowLayer

theorem shadowText_opensPlainly (layer : ShadowLayer) (layers : List ShadowLayer) :
    OpensPlainly (shadowText (layer :: layers)) := by
  rw [shadowText, List.map_cons]
  cases layers with
  | nil =>
      rw [List.map_nil, String.intercalate_singleton]
      exact layer.text_opensPlainly
  | cons next rest =>
      rw [String.intercalate_cons_of_ne_nil (by simp), String.append_assoc]
      exact layer.text_opensPlainly.append _

/-- An array stays as it is, or becomes a text that is not a reference. -/
theorem collapse_cases (items : List Value) :
    collapse items = .array items ∨
      ∃ text, collapse items = .string text ∧ referencePath? text = none := by
  cases items with
  | nil => exact .inl rfl
  | cons first rest =>
      simp only [collapse]
      split
      · split
        · rename_i layers read
          cases layers with
          | nil =>
              unfold shadowLayers? at read
              split at read <;> cases read
          | cons layer others =>
              exact .inr ⟨_, rfl,
                (shadowText_opensPlainly layer others).referencePath?_eq_none⟩
        · exact .inl rfl
      · exact .inl rfl

/-! ### Settled values -/

namespace Value

mutual

/-- No text in the value is a reference, and no array in it collapses. -/
def Settled : Value → Prop
  | .string text => referencePath? text = none
  | .array items => collapse items = .array items ∧ ItemsSettled items
  | .object members => MembersSettled members
  | _ => True

def ItemsSettled : List Value → Prop
  | [] => True
  | item :: rest => item.Settled ∧ ItemsSettled rest

def MembersSettled : List (String × Value) → Prop
  | [] => True
  | (_, value) :: rest => value.Settled ∧ MembersSettled rest

end

theorem collapse_settled {items : List Value} (settled : ItemsSettled items) :
    (collapse items).Settled := by
  rcases collapse_cases items with same | ⟨text, same, plain⟩
  · rw [same, Settled]
    exact ⟨same, settled⟩
  · rw [same, Settled]
    exact plain

mutual

theorem references_of_settled : (value : Value) → value.Settled → value.references = []
  | .string text, settled => by
      rw [Settled] at settled
      rw [references, settled]
      rfl
  | .array items, settled => by
      rw [Settled] at settled
      rw [references]
      exact itemReferences_of_settled items settled.2
  | .object members, settled => by
      rw [Settled] at settled
      rw [references]
      exact memberReferences_of_settled members settled
  | .null, _ => rfl
  | .bool _, _ => rfl
  | .number _, _ => rfl

theorem itemReferences_of_settled :
    (items : List Value) → ItemsSettled items → itemReferences items = []
  | [], _ => rfl
  | item :: rest, settled => by
      rw [ItemsSettled] at settled
      rw [itemReferences, references_of_settled item settled.1,
        itemReferences_of_settled rest settled.2]
      rfl

theorem memberReferences_of_settled :
    (members : List (String × Value)) → MembersSettled members → memberReferences members = []
  | [], _ => rfl
  | (_, value) :: rest, settled => by
      rw [MembersSettled] at settled
      rw [memberReferences, references_of_settled value settled.1,
        memberReferences_of_settled rest settled.2]
      rfl

end

/-! ### Settled values are given back -/

section Fixed

variable {m : Type → Type} [Monad m] [LawfulMonad m]

mutual

theorem normalWith_of_settled (follow : String → m (Option Value)) :
    (value : Value) → value.Settled → value.normalWith follow = pure (some value)
  | .string text, settled => by
      rw [Settled] at settled
      rw [normalWith, settled]
  | .array items, settled => by
      rw [Settled] at settled
      rw [normalWith, normalItems_of_settled follow items settled.2, pure_bind, settled.1]
  | .object members, settled => by
      rw [Settled] at settled
      rw [normalWith, normalMembers_of_settled follow members settled, pure_bind]
  | .null, _ => rfl
  | .bool _, _ => rfl
  | .number _, _ => rfl

theorem normalItems_of_settled (follow : String → m (Option Value)) :
    (items : List Value) → ItemsSettled items → normalItems follow items = pure items
  | [], _ => rfl
  | item :: rest, settled => by
      rw [ItemsSettled] at settled
      rw [normalItems, normalWith_of_settled follow item settled.1, pure_bind,
        normalItems_of_settled follow rest settled.2, pure_bind]
      rfl

theorem normalMembers_of_settled (follow : String → m (Option Value)) :
    (members : List (String × Value)) → MembersSettled members →
      normalMembers follow members = pure members
  | [], _ => rfl
  | (name, value) :: rest, settled => by
      rw [MembersSettled] at settled
      rw [normalMembers, normalWith_of_settled follow value settled.1, pure_bind,
        normalMembers_of_settled follow rest settled.2, pure_bind]

end

end Fixed

/-! ### Normal forms are settled -/

theorem itemsSettled_iff {items : List Value} :
    ItemsSettled items ↔ ∀ item ∈ items, item.Settled := by
  induction items with
  | nil => simp [ItemsSettled]
  | cons item rest ih => simp [ItemsSettled, ih]

theorem membersSettled_iff {members : List (String × Value)} :
    MembersSettled members ↔ ∀ name value, (name, value) ∈ members → value.Settled := by
  induction members with
  | nil => simp [MembersSettled]
  | cons head tail ih =>
      obtain ⟨name, value⟩ := head
      rw [MembersSettled, ih, forall_mem_members_cons]

/-- Whatever is traversed, only what is settled gets into the normal form. -/
theorem settled_carriesOver : CarriesOver (fun _ => True) Settled where
  null := trivial
  bool _ := trivial
  number _ _ := trivial
  string text plain := by
    rw [Settled]
    exact plain
  array _ each := collapse_settled (itemsSettled_iff.mpr each)
  object _ _ _ _ each := by
    rw [Settled]
    exact membersSettled_iff.mpr each
  items _ _ _ _ := trivial
  members _ _ _ _ _ := trivial

end Value

instance : LawfulMonad Traced :=
  LawfulMonad.mk' Traced
    (fun first => congrArg (Traced.mk first.result) (List.append_nil first.warnings))
    (fun _ _ => rfl)
    (fun first next last => congrArg (Traced.mk _) (List.append_assoc _ _ _))

namespace Resolver

variable {registry : SourceRegistry} {resolver : Resolver registry}

theorem settled_of_normalize (reachable : resolver.Reachable) {value normal : Value}
    (result : (resolver.normalize value).result.1 = some normal) : normal.Settled :=
  Value.settled_carriesOver.of_normalizeIn (fun _ _ _ => trivial) reachable [] trivial normal result

theorem normalize_of_settled (resolver : Resolver registry) {value : Value}
    (settled : value.Settled) : resolver.normalize value = ⟨(some value, resolver), []⟩ := by
  rw [normalize, normalizeIn, Value.normalWith_of_settled _ value settled]
  rfl

/-- What normalizing gives has no reference in it, at any depth. Over any registry and with
whatever a resolver remembers, it normalizes to itself in silence. -/
theorem normalize_of_normal_form (reachable : resolver.Reachable) {value normal : Value}
    (result : (resolver.normalize value).result.1 = some normal) :
    normal.references = [] ∧ ∀ (elsewhere : SourceRegistry) (other : Resolver elsewhere),
      other.normalize normal = ⟨(some normal, other), []⟩ := by
  have settled := settled_of_normalize reachable result
  constructor
  · exact Value.references_of_settled normal settled
  · intro elsewhere other
    exact other.normalize_of_settled settled

/-- A shadow of one layer, with this color. -/
def plainLayer (color : String) : Value :=
  .object [("x", .number (.zero false)), ("y", .number (.zero false)),
    ("blur", .number (.zero false)), ("spread", .number (.zero false)), ("color", .string color)]

theorem plainLayer_expands {color expanded : String}
    (expands : registry.Expands (.string color) (some (.string expanded))) :
    registry.Expands (plainLayer color) (some (plainLayer expanded)) :=
  .object (.kept (.number _) (.kept (.number _) (.kept (.number _) (.kept (.number _)
    (.kept expands .nil)))))

/-- A shadow that has an undefined second layer stays an array, also the second time. -/
theorem normalize_unfinished_shadow :
    let resolver := ((fresh palette).walk [] "ink").2
    let shadow := Value.array [plainLayer "{ink}", .string "{gone}"]
    let normal := Value.array [plainLayer "#000000", .null]
    resolver.Reachable ∧ (resolver.normalize shadow).result.1 = some normal ∧
      normal.references = [] ∧
      (fresh .empty).normalize normal = ⟨(some normal, fresh .empty), []⟩ := by
  intro resolver shadow normal
  have reachable : resolver.Reachable := .walk .fresh [] "ink"
  have color : palette.Expands (.string "{ink}") (some (.string "#000000")) :=
    .reference rfl (.onward rfl rfl (.literal rfl rfl)) (.text rfl)
  have layer := plainLayer_expands color
  have lost : palette.Expands (.string "{gone}") none := .dangling rfl (.undefined rfl)
  have expands : palette.Expands shadow (some normal) := .array (.cons layer (.cons lost .nil))
  have result : (resolver.normalize shadow).result.1 = some normal :=
    (normalize_of_expands reachable expands).1
  obtain ⟨plain, fixed⟩ := normalize_of_normal_form reachable result
  exact ⟨reachable, result, plain, fixed .empty (fresh .empty)⟩

end Resolver

end DesignTokens
