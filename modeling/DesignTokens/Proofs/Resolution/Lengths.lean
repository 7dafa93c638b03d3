/-
The lengths of published shadows.

Every number of a loaded value is finite, and so is every number of its normal form.
So a length that is not finite can only come from a text, and it does exactly when
the text names an infinity or a NaN or is a numeral that rounds past the largest
number (`Value.UnboundedAt`). Such a text is read as a length like any other, and
the shadow is written with it; without such texts every length is finite and is
written with digits, a point and a sign.
-/
import DesignTokens.Proofs.Json.RoundTrip
import DesignTokens.Proofs.Number.Numeral
import DesignTokens.Proofs.Resolution.Arrays
import DesignTokens.Proofs.Source.Documents

namespace DesignTokens

namespace Value

/-- The member under the name is a text from which a length is read that is not finite. -/
def UnboundedAt (value : Value) (name : String) : Prop :=
  ∃ text, value.member? name = some (.string text) ∧ Number.Unbounded (trimBlank text.toList)

variable {value : Value}

theorem Finite.member? (finite : value.Finite) {name : String} {member : Value}
    (present : value.member? name = some member) : member.Finite := by
  obtain ⟨members, isObject, found⟩ := Option.bind_eq_some_iff.mp present
  cases value with
  | object own =>
      cases isObject
      exact finite_object_iff.mp finite name member (mem_of_lookup found)
  | _ => cases isObject

/-- A length of a value with finite numbers is not finite exactly when it comes from such a
text. -/
theorem length_unbounded_iff (finite : value.Finite) {name : String} {length : Number}
    (read : (value.member? name).bind shadowLength? = some length) :
    length.isFinite = false ↔ value.UnboundedAt name := by
  obtain ⟨member, present, isLength⟩ := Option.bind_eq_some_iff.mp read
  cases member with
  | number own =>
      cases isLength
      refine iff_of_false ?_ ?_
      · have isFinite := finite.member? present length (List.mem_singleton_self length)
        rw [isFinite]
        exact Bool.false_ne_true.symm
      · rintro ⟨text, isText, -⟩
        cases present.symm.trans isText
  | string text =>
      have reads : Number.ofText? (trimBlank text.toList) = some length := isLength
      constructor
      · intro unfinite
        exact ⟨text, present, Number.unbounded_iff.mpr ⟨length, reads, unfinite⟩⟩
      · rintro ⟨other, isOther, unbounded⟩
        cases present.symm.trans isOther
        obtain ⟨number, again, unfinite⟩ := Number.unbounded_iff.mp unbounded
        cases reads.symm.trans again
        exact unfinite
  | _ => cases isLength

end Value

namespace Resolver

variable {registry : SourceRegistry} {resolver : Resolver registry}

theorem finite_of_mem_normalizeItems (documents : registry.FromDocuments)
    (reachable : resolver.Reachable) (trail : Trail) {items : List Value}
    (loaded : (Value.array items).Loaded) :
    ∀ normal ∈ resolver.normalizeItems trail items, normal.Finite := by
  intro normal among
  obtain ⟨item, present, rfl⟩ := List.mem_map.mp among
  have start : item.Finite := (loaded.item present).finite
  cases result : (resolver.normalizeIn trail item).result.1 with
  | none => exact Value.finite_carriesOver.null
  | some defined =>
      exact Value.finite_carriesOver.of_normalizeIn (fun _ _ => documents.finite) reachable trail
        start defined result

/-- When an array collapses over documents, each length of its layers was read from the member of
its name, and it is finite unless that is a text that names an infinity or a NaN or is too large a
numeral. Where no item has such a text, all lengths are finite and are written without letters. -/
theorem lengths_of_collapsed (documents : registry.FromDocuments) (reachable : resolver.Reachable)
    (trail : Trail) {items : List Value} (loaded : (Value.array items).Loaded) {text : String}
    (collapsed : (resolver.normalizeIn trail (.array items)).result.1 = some (.string text)) :
    let normal := resolver.normalizeItems trail items
    ∃ layers : List ShadowLayer, normal.map ShadowLayer.ofValue? = layers.map some ∧
      text = shadowText layers ∧
      (∀ item ∈ normal, ∀ layer, ShadowLayer.ofValue? item = some layer →
        ∀ length ∈ layer.lengths,
          (item.member? length.1).bind shadowLength? = some length.2 ∧
            (length.2.isFinite = false ↔ item.UnboundedAt length.1)) ∧
      ((∀ item ∈ normal, ∀ name ∈ ShadowLayer.lengthNames, ¬item.UnboundedAt name) →
        ∀ layer ∈ layers, ∀ length ∈ layer.lengths, length.2.isFinite = true ∧
          ∀ c ∈ length.2.displayText, c.isDigit = true ∨ c = '.' ∨ c = '-') := by
  intro normal
  have result := result_normalizeIn_array reachable trail items
  have isText := Option.some.inj (result.symm.trans collapsed)
  obtain ⟨-, layers, each, written⟩ := collapse_eq_string_iff.mp isText
  have finite := finite_of_mem_normalizeItems documents reachable trail loaded
  have unbounded (item : Value) (present : item ∈ normal) (layer : ShadowLayer)
      (read : ShadowLayer.ofValue? item = some layer) (length : String × Number)
      (among : length ∈ layer.lengths) :
      (item.member? length.1).bind shadowLength? = some length.2 ∧
        (length.2.isFinite = false ↔ item.UnboundedAt length.1) := by
    have isLength := (ShadowLayer.members_of_ofValue? read).1 length among
    exact ⟨isLength, Value.length_unbounded_iff (finite item present) isLength⟩
  refine ⟨layers, each, written, unbounded, ?_⟩
  intro bounded layer present length among
  have isRead : some layer ∈ normal.map ShadowLayer.ofValue? := by
    rw [each]
    exact List.mem_map_of_mem present
  obtain ⟨item, inside, read⟩ := List.mem_map.mp isRead
  have named : length.1 ∈ ShadowLayer.lengthNames := by
    rw [← layer.map_lengths]
    exact List.mem_map_of_mem among
  have isFinite : length.2.isFinite = true := by
    rw [← Bool.not_eq_false, (unbounded item inside layer read length among).2]
    exact bounded item inside length.1 named
  exact ⟨isFinite, fun c => Number.mem_displayText_of_isFinite isFinite⟩

/-- A layer with its first offset as a text. -/
def offsetLayer (offset : String) : Value :=
  .object [("blur", .number (.zero false)), ("color", .string "red"),
    ("spread", .number (.zero false)), ("x", .string offset), ("y", .number (.zero false))]

theorem loaded_offsetLayer (offset : String) : (Value.array [offsetLayer offset]).Loaded := by
  have whole : Json.AllWhole (Value.array [offsetLayer offset]).numbers :=
    show Json.AllWhole [.zero false, .zero false, .zero false] by decide +kernel
  have ordered : ["blur", "color", "spread", "x", "y"].Pairwise (· < ·) := by decide
  have layer : (offsetLayer offset).canonical = offsetLayer offset :=
    Value.canonical_object_of_ordered ordered rfl
  have same : (Value.array [offsetLayer offset]).canonical = .array [offsetLayer offset] :=
    congrArg (fun item => Value.array [item]) layer
  exact .read (Json.read?_write_of_canonical whole (show 2 ≤ 127 by decide) same)

theorem expands_offsetLayer {offset expanded : String}
    (expands : registry.Expands (.string offset) (some (.string expanded))) :
    registry.Expands (offsetLayer offset) (some (offsetLayer expanded)) :=
  .object (.kept (.number _) (.kept (.text rfl) (.kept (.number _) (.kept expands
    (.kept (.number _) .nil)))))

/-- What a layer with its first offset as a text is read as. -/
def offsetShadow (offset : Number) : ShadowLayer :=
  ⟨offset, .zero false, .zero false, .zero false, "red", .outer⟩

theorem ofValue?_offsetLayer {offset : String} {length : Number}
    (reads : Number.ofText? (trimBlank offset.toList) = some length) :
    ShadowLayer.ofValue? (offsetLayer offset) = some (offsetShadow length) := by
  simp [ShadowLayer.ofValue?, offsetLayer, Value.members?, List.lookup_cons, shadowLength?,
    Value.string?, ShadowLayer.kindOf, offsetShadow, reads]

/-- What an array of such a layer comes to when the text stands for a text of a length. -/
theorem result_offsetLayer (reachable : resolver.Reachable) {offset expanded : String}
    (expands : registry.Expands (.string offset) (some (.string expanded))) {length : Number}
    (reads : Number.ofText? (trimBlank expanded.toList) = some length) :
    (resolver.normalizeIn [] (.array [offsetLayer offset])).result.1 =
      some (.string (shadowText [offsetShadow length])) := by
  have each : [offsetLayer expanded].map ShadowLayer.ofValue? = [offsetShadow length].map some :=
    congrArg (fun read => [read]) (ofValue?_offsetLayer reads)
  rw [← collapse_of_layers (List.cons_ne_nil _ _) each]
  exact (normalize_of_expands reachable (.array (.cons (expands_offsetLayer expands) .nil))).1

/-- A length as a text between blanks. -/
def gapRegistry : SourceRegistry := .ofTokens [("gap", .string " 12 ")]

theorem gapRegistry_fromDocuments : gapRegistry.FromDocuments := by
  intro source present
  obtain rfl := List.mem_singleton.mp present
  let document := Value.object [("gap", .string " 12 ")]
  have read : Json.read? (Json.write document) = some document :=
    Json.read?_write_of_canonical (by decide) (show 1 ≤ 127 by decide)
      (Value.canonical_object_of_ordered (List.pairwise_singleton _ _) rfl)
  refine .inr ⟨Json.write document, ?_⟩
  rw [TokenTree.ofJson, read]
  rfl

theorem lengths_of_gapRegistry :
    let resolver := ((fresh gapRegistry).walk [] "gap").2
    let items := [offsetLayer "{gap}"]
    gapRegistry.FromDocuments ∧ resolver.Reachable ∧ (Value.array items).Loaded ∧
      (resolver.normalizeIn [] (.array items)).result.1 = some (.string "12px 0px 0px 0px red") ∧
      ∃ layers : List ShadowLayer, "12px 0px 0px 0px red" = shadowText layers ∧
        ∀ layer ∈ layers, ∀ length ∈ layer.lengths, length.2.isFinite = true := by
  intro resolver items
  have reachable : resolver.Reachable := .walk .fresh [] "gap"
  have gap : gapRegistry.Expands (.string "{gap}") (some (.string " 12 ")) :=
    .reference rfl (.literal rfl rfl) (.text rfl)
  have reads : Number.ofText? (trimBlank " 12 ".toList) = some (.ofInt 12) := by decide +kernel
  have finite : ∀ length ∈ (offsetShadow (.ofInt 12)).lengths, length.2.isFinite = true := by
    decide +kernel
  have written : shadowText [offsetShadow (.ofInt 12)] = "12px 0px 0px 0px red" := by
    decide +kernel
  have result := result_offsetLayer reachable gap reads
  rw [written] at result
  obtain ⟨layers, each, text, unbounded, bounded⟩ :=
    lengths_of_collapsed gapRegistry_fromDocuments reachable [] (loaded_offsetLayer "{gap}") result
  refine ⟨gapRegistry_fromDocuments, reachable, loaded_offsetLayer "{gap}", result, layers, text,
    ?_⟩
  have item : (resolver.normalizeIn [] (offsetLayer "{gap}")).result.1 =
      some (offsetLayer " 12 ") := (normalize_of_expands reachable (expands_offsetLayer gap)).1
  have normal : resolver.normalizeItems [] items = [offsetLayer " 12 "] := by
    simp only [normalizeItems, items, List.map_cons, List.map_nil, item, Option.getD_some]
  rw [normal] at unbounded bounded
  refine fun layer present length among => (bounded ?_ layer present length among).1
  intro item among name named unboundedAt
  obtain rfl := List.mem_singleton.mp among
  rw [← (offsetShadow (.ofInt 12)).map_lengths] at named
  obtain ⟨length, own, rfl⟩ := List.mem_map.mp named
  have unfinite :=
    (unbounded _ among _ (ofValue?_offsetLayer reads) length own).2.mpr unboundedAt
  rw [finite length own] at unfinite
  cases unfinite

/-- An infinite length is published, and no number of the document is infinite. -/
theorem infinite_length_published :
    let resolver := fresh .empty
    let items := [offsetLayer "inf"]
    SourceRegistry.empty.FromDocuments ∧ resolver.Reachable ∧ (Value.array items).Loaded ∧
      (resolver.normalizeIn [] (.array items)).result.1 =
        some (.string "infpx 0px 0px 0px red") ∧
      ∃ layer, ShadowLayer.ofValue? (offsetLayer "inf") = some layer ∧
        layer.x.isFinite = false := by
  intro resolver items
  have reads : Number.ofText? (trimBlank "inf".toList) = some (.infinity false) := by
    decide +kernel
  have written : shadowText [offsetShadow (.infinity false)] = "infpx 0px 0px 0px red" := by
    decide +kernel
  have result := result_offsetLayer (.fresh : resolver.Reachable) (.text rfl) reads
  rw [written] at result
  exact ⟨SourceRegistry.empty_fromDocuments, .fresh, loaded_offsetLayer "inf", result, _,
    ofValue?_offsetLayer reads, rfl⟩

end Resolver

end DesignTokens
