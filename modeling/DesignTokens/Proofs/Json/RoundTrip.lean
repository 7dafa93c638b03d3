/-
Written values read back.

Both layouts of a value spell the same tokens, since they differ in blanks only,
and the machine makes the canonical form of the value from these tokens. So a
value of whole numbers that is not nested too deeply is read back from its text
as a value that is equal to it.
-/
import DesignTokens.Json.Reader
import DesignTokens.Proofs.Json.Ordered
import DesignTokens.Proofs.Json.Spelling

namespace DesignTokens

namespace Json

/-! ### The tokens of a value -/

mutual

/-- The tokens of a value, its zeros unsigned. -/
def tokensOf : Value → List Token
  | .null => [.null]
  | .bool flag => [.bool flag]
  | .number value => [.number value.plain]
  | .string text => [.string text]
  | .array [] => [.openArray, .closeArray]
  | .array (item :: rest) => .openArray :: (tokensOf item ++ itemTokens rest)
  | .object [] => [.openObject, .closeObject]
  | .object ((name, value) :: rest) =>
    .openObject :: .string name :: .colon :: (tokensOf value ++ memberTokens rest)

def itemTokens : List Value → List Token
  | [] => [.closeArray]
  | item :: rest => .comma :: (tokensOf item ++ itemTokens rest)

def memberTokens : List (String × Value) → List Token
  | [] => [.closeObject]
  | (name, value) :: rest =>
    .comma :: .string name :: .colon :: (tokensOf value ++ memberTokens rest)

end

/-- Every number has no fractional part and is within the whole limit. -/
def AllWhole (numbers : List Number) : Prop := ∀ number ∈ numbers, number.whole?.isSome = true

instance (numbers : List Number) : Decidable (AllWhole numbers) :=
  inferInstanceAs (Decidable (∀ number ∈ numbers, _))

theorem allWhole_append {numbers others : List Number} :
    AllWhole (numbers ++ others) ↔ AllWhole numbers ∧ AllWhole others :=
  List.forall_mem_append

section Layouts

variable {text more : List Char} {tokens others : List Token}

theorem spells_null : Spells ['n', 'u', 'l', 'l'] [.null] := .word rfl fun _ => rfl

theorem spells_true : Spells ['t', 'r', 'u', 'e'] [.bool true] := .word rfl fun _ => rfl

theorem spells_false : Spells ['f', 'a', 'l', 's', 'e'] [.bool false] := .word rfl fun _ => rfl

theorem spells_whole {number : Number} (whole : AllWhole [number]) :
    Spells number.jsonText [.number number.plain] := by
  obtain ⟨value, isWhole⟩ := Option.isSome_iff_exists.mp (whole number List.mem_cons_self)
  exact spells_number isWhole

/-! ### The compact form -/

theorem Spells.member (name : String) (spells : Spells text tokens) :
    Spells (Json.quoted name ++ ':' :: text) (.string name :: .colon :: tokens) :=
  .quoted name (.mark rfl rfl spells)

theorem endsNumber_compactItems (items : List Value) (rest : List Char) :
    EndsNumber (compactItems items ++ rest) := by
  cases items <;> rfl

theorem endsNumber_compactMembers (members : List (String × Value)) (rest : List Char) :
    EndsNumber (compactMembers members ++ rest) := by
  cases members <;> rfl

mutual

theorem spells_compact :
    (value : Value) → AllWhole value.numbers → Spells (compact value) (tokensOf value)
  | .null, _ => spells_null
  | .bool true, _ => spells_true
  | .bool false, _ => spells_false
  | .number _, whole => spells_whole whole
  | .string text, _ => spells_string text
  | .array [], _ => .mark rfl rfl (.mark rfl rfl .nil)
  | .array (item :: rest), whole => by
      obtain ⟨first, later⟩ := allWhole_append.mp whole
      apply Spells.mark rfl rfl
      exact (spells_compact item first).append (spells_compactItems rest later)
        (endsNumber_compactItems rest)
  | .object [], _ => .mark rfl rfl (.mark rfl rfl .nil)
  | .object ((name, value) :: rest), whole => by
      obtain ⟨first, later⟩ := allWhole_append.mp whole
      apply Spells.mark rfl rfl
      apply Spells.member name
      exact (spells_compact value first).append (spells_compactMembers rest later)
        (endsNumber_compactMembers rest)

theorem spells_compactItems :
    (items : List Value) → AllWhole (Value.itemNumbers items) →
      Spells (compactItems items) (itemTokens items)
  | [], _ => .mark rfl rfl .nil
  | item :: rest, whole => by
      obtain ⟨first, later⟩ := allWhole_append.mp whole
      apply Spells.mark rfl rfl
      exact (spells_compact item first).append (spells_compactItems rest later)
        (endsNumber_compactItems rest)

theorem spells_compactMembers :
    (members : List (String × Value)) → AllWhole (Value.memberNumbers members) →
      Spells (compactMembers members) (memberTokens members)
  | [], _ => .mark rfl rfl .nil
  | (name, value) :: rest, whole => by
      obtain ⟨first, later⟩ := allWhole_append.mp whole
      apply Spells.mark rfl rfl
      apply Spells.member name
      exact (spells_compact value first).append (spells_compactMembers rest later)
        (endsNumber_compactMembers rest)

end

/-! ### The pretty form -/

theorem Spells.newLine (depth : Nat) (spells : Spells text tokens) :
    Spells (newLine depth ++ text) tokens := by
  have blanks (count : Nat) : Spells (List.replicate count ' ' ++ text) tokens := by
    induction count with
    | zero => exact spells
    | succ count ih => exact ih.space rfl
  exact (blanks (2 * depth)).space rfl

theorem Spells.itemLine (depth : Nat) (first : Spells text tokens) (later : Spells more others)
    (ends : ∀ rest, EndsNumber (more ++ rest)) :
    Spells (Json.newLine depth ++ text ++ more) (tokens ++ others) := by
  rw [List.append_assoc]
  exact (first.append later ends).newLine depth

theorem Spells.memberLine (depth : Nat) (name : String) (first : Spells text tokens)
    (later : Spells more others) (ends : ∀ rest, EndsNumber (more ++ rest)) :
    Spells (Json.newLine depth ++ Json.quoted name ++ ':' :: ' ' :: (text ++ more))
      (.string name :: .colon :: (tokens ++ others)) := by
  rw [List.append_assoc]
  exact (((first.append later ends).space rfl).member name).newLine depth

theorem endsNumber_prettyItems (depth : Nat) (items : List Value) (rest : List Char) :
    EndsNumber (prettyItems depth items ++ rest) := by
  cases items <;> rfl

theorem endsNumber_prettyMembers (depth : Nat) (members : List (String × Value))
    (rest : List Char) : EndsNumber (prettyMembers depth members ++ rest) := by
  cases members <;> rfl

mutual

theorem spells_prettyAt :
    (value : Value) → AllWhole value.numbers → (depth : Nat) →
      Spells (prettyAt depth value) (tokensOf value)
  | .null, _, _ => spells_null
  | .bool true, _, _ => spells_true
  | .bool false, _, _ => spells_false
  | .number _, whole, _ => spells_whole whole
  | .string text, _, _ => spells_string text
  | .array [], _, _ => .mark rfl rfl (.mark rfl rfl .nil)
  | .array (item :: rest), whole, depth => by
      obtain ⟨first, later⟩ := allWhole_append.mp whole
      apply Spells.mark rfl rfl
      exact .itemLine (depth + 1) (spells_prettyAt item first (depth + 1))
        (spells_prettyItems rest later depth) (endsNumber_prettyItems depth rest)
  | .object [], _, _ => .mark rfl rfl (.mark rfl rfl .nil)
  | .object ((name, value) :: rest), whole, depth => by
      obtain ⟨first, later⟩ := allWhole_append.mp whole
      apply Spells.mark rfl rfl
      exact .memberLine (depth + 1) name (spells_prettyAt value first (depth + 1))
        (spells_prettyMembers rest later depth) (endsNumber_prettyMembers depth rest)

theorem spells_prettyItems :
    (items : List Value) → AllWhole (Value.itemNumbers items) → (depth : Nat) →
      Spells (prettyItems depth items) (itemTokens items)
  | [], _, depth => .newLine depth (.mark rfl rfl .nil)
  | item :: rest, whole, depth => by
      obtain ⟨first, later⟩ := allWhole_append.mp whole
      apply Spells.mark rfl rfl
      exact .itemLine (depth + 1) (spells_prettyAt item first (depth + 1))
        (spells_prettyItems rest later depth) (endsNumber_prettyItems depth rest)

theorem spells_prettyMembers :
    (members : List (String × Value)) → AllWhole (Value.memberNumbers members) → (depth : Nat) →
      Spells (prettyMembers depth members) (memberTokens members)
  | [], _, depth => .newLine depth (.mark rfl rfl .nil)
  | (name, value) :: rest, whole, depth => by
      obtain ⟨first, later⟩ := allWhole_append.mp whole
      apply Spells.mark rfl rfl
      exact .memberLine (depth + 1) name (spells_prettyAt value first (depth + 1))
        (spells_prettyMembers rest later depth) (endsNumber_prettyMembers depth rest)

end

end Layouts

end Json

/-! ### What the machine makes of the tokens -/

namespace Value

mutual

/-- How many containers are open at once, at most, on the way through a value. -/
def depth : Value → Nat
  | .array items => itemsDepth items + 1
  | .object members => membersDepth members + 1
  | _ => 0

def itemsDepth : List Value → Nat
  | [] => 0
  | item :: rest => max item.depth (itemsDepth rest)

def membersDepth : List (String × Value) → Nat
  | [] => 0
  | (_, value) :: rest => max value.depth (membersDepth rest)

end

end Value

namespace Json

namespace Machine

variable {machine next : Machine} {frames : List Frame} {token : Token}

theorem run_cons (stepped : machine.step token = some next) (rest : List Token) :
    machine.run (token :: rest) = next.run rest := by
  rw [run, stepped, Option.bind_some]

theorem step_openArray (room : frames.length < depthLimit) :
    (Machine.mk .value frames).step .openArray = some ⟨.firstItem, .array [] :: frames⟩ :=
  if_pos room

theorem step_openObject (room : frames.length < depthLimit) :
    (Machine.mk .value frames).step .openObject = some ⟨.firstName, frames⟩ :=
  if_pos room

theorem exists_firstToken (value : Value) :
    ∃ token rest, tokensOf value = token :: rest ∧ token ≠ .closeArray := by
  cases value with
  | array items => cases items <;> exact ⟨_, _, rfl, nofun⟩
  | object members => cases members <;> exact ⟨_, _, rfl, nofun⟩
  | _ => exact ⟨_, _, rfl, nofun⟩

/-- The first item of an array is read like any other value. -/
theorem run_firstItem (frames : List Frame) (item : Value) (rest : List Token) :
    (Machine.mk .firstItem frames).run (tokensOf item ++ rest) =
      (Machine.mk .value frames).run (tokensOf item ++ rest) := by
  obtain ⟨token, tokens, split, nonempty⟩ := exists_firstToken item
  rw [split, List.cons_append, run, run, step_firstItem nonempty]
  rfl

mutual

/-- Reading the tokens of a value gives its canonical form and leaves the open containers as they
are, when there is room for the containers of the value. -/
theorem run_tokensOf :
    (value : Value) → (frames : List Frame) → frames.length + value.depth ≤ depthLimit →
      (rest : List Token) → (Machine.mk .value frames).run (tokensOf value ++ rest) =
        (Machine.mk (.afterValue value.canonical) frames).run rest
  | .null, _, _, _ => rfl
  | .bool _, _, _, _ => rfl
  | .number _, _, _, _ => rfl
  | .string _, _, _, _ => rfl
  | .array [], frames, room, rest => by
      rw [Value.depth] at room
      have opens : (Machine.mk .value frames).step .openArray = _ := step_openArray (by omega)
      rw [tokensOf, List.cons_append, run_cons opens]
      rfl
  | .array (item :: items), frames, room, rest => by
      rw [Value.depth, Value.itemsDepth] at room
      have opens : (Machine.mk .value frames).step .openArray = _ := step_openArray (by omega)
      rw [tokensOf, List.cons_append, run_cons opens, List.append_assoc, run_firstItem,
        run_tokensOf item (.array [] :: frames) (by rw [List.length_cons]; omega),
        run_itemTokens items frames (by omega)]
      rfl
  | .object [], frames, room, rest => by
      rw [Value.depth] at room
      have opens : (Machine.mk .value frames).step .openObject = _ := step_openObject (by omega)
      rw [tokensOf, List.cons_append, run_cons opens]
      rfl
  | .object ((name, value) :: members), frames, room, rest => by
      rw [Value.depth, Value.membersDepth] at room
      have opens : (Machine.mk .value frames).step .openObject = _ := step_openObject (by omega)
      rw [tokensOf, List.cons_append, List.cons_append, List.cons_append, run_cons opens,
        run_cons rfl, run_cons rfl, List.append_assoc,
        run_tokensOf value (.object [] name :: frames) (by rw [List.length_cons]; omega),
        run_memberTokens members frames (by omega)]
      rfl

/-- The items before the last are kept in reverse until the array closes. -/
theorem run_itemTokens :
    (items : List Value) → (frames : List Frame) →
      frames.length + 1 + Value.itemsDepth items ≤ depthLimit → (last : Value) →
      (before : List Value) → (rest : List Token) →
      (Machine.mk (.afterValue last) (.array before :: frames)).run (itemTokens items ++ rest) =
        (Machine.mk (.afterValue (.array ((last :: before).reverse ++ Value.canonicalItems items)))
          frames).run rest
  | [], frames, _, last, before, rest => by
      have closed : (last :: before).reverse ++ Value.canonicalItems [] =
          (last :: before).reverse := List.append_nil _
      rw [itemTokens, List.singleton_append, run_cons rfl, closed]
  | item :: items, frames, room, last, before, rest => by
      rw [Value.itemsDepth] at room
      have onward : (item.canonical :: last :: before).reverse ++ Value.canonicalItems items =
          (last :: before).reverse ++ Value.canonicalItems (item :: items) := by
        rw [List.reverse_cons, List.append_assoc]
        rfl
      rw [itemTokens, List.cons_append, run_cons rfl, List.append_assoc,
        run_tokensOf item (.array (last :: before) :: frames) (by rw [List.length_cons]; omega),
        run_itemTokens items frames (by omega), onward]

/-- The members before the last are already in the order of their names, and the last still has to
be put in its place. -/
theorem run_memberTokens :
    (members : List (String × Value)) → (frames : List Frame) →
      frames.length + 1 + Value.membersDepth members ≤ depthLimit → (last : Value) →
      (name : String) → (before : List (String × Value)) → (rest : List Token) →
      (Machine.mk (.afterValue last) (.object before name :: frames)).run
          (memberTokens members ++ rest) =
        (Machine.mk (.afterValue (.object
          ((Value.canonicalMembers members).foldl
            (fun sorted entry => putSorted entry.1 entry.2 sorted) (putSorted name last before))))
          frames).run rest
  | [], frames, _, last, name, before, rest => by
      rw [memberTokens, List.singleton_append, run_cons rfl]
      rfl
  | (other, value) :: members, frames, room, last, name, before, rest => by
      rw [Value.membersDepth] at room
      rw [memberTokens, List.cons_append, List.cons_append, List.cons_append, run_cons rfl,
        run_cons rfl, run_cons rfl, List.append_assoc,
        run_tokensOf value (.object (putSorted name last before) other :: frames)
          (by rw [List.length_cons]; omega),
        run_memberTokens members frames (by omega)]
      rfl

end

end Machine

theorem ofTokens?_tokensOf {value : Value} (shallow : value.depth ≤ depthLimit) :
    ofTokens? (tokensOf value) = some value.canonical := by
  have room : ([] : List Frame).length + value.depth ≤ depthLimit := by
    rw [List.length_nil]
    omega
  have ran := Machine.run_tokensOf value [] room []
  rw [List.append_nil] at ran
  rw [ofTokens?, Machine.initial, ran]
  rfl

theorem read?_of_spells {text : List Char} {value : Value}
    (spells : Spells text (tokensOf value)) (shallow : value.depth ≤ depthLimit) :
    read? (String.ofList text) = some value.canonical := by
  have cut := spells [] trivial
  rw [List.append_nil, tokens?, Option.map_some, List.append_nil] at cut
  rw [read?, String.toList_ofList, cut, Option.bind_some, ofTokens?_tokensOf shallow]

theorem read?_write_of_canonical {value : Value} (whole : AllWhole value.numbers)
    (shallow : value.depth ≤ depthLimit) (same : value.canonical = value) :
    read? (write value) = some value := by
  have read := read?_of_spells (spells_compact value whole) shallow
  rw [same] at read
  exact read

/-! ### Reading what is written -/

theorem finite_of_allWhole {value : Value} (whole : AllWhole value.numbers) : value.Finite := by
  intro number present
  obtain ⟨integer, isWhole⟩ := Option.isSome_iff_exists.mp (whole number present)
  exact Number.isFinite_of_integer? (Number.integer?_of_whole? isWhole)

/-- A value whose numbers are all whole and that is not nested more deeply than the reader allows is
read back from both of its texts, as the canonical form of the value, which is equal to it: its
members may come in another order. -/
theorem read_of_written {value : Value} (wellFormed : value.WellFormed)
    (whole : AllWhole value.numbers) (shallow : value.depth ≤ depthLimit) :
    read? (write value) = some value.canonical ∧ read? (writePretty value) = some value.canonical ∧
      value.equals value.canonical = true := by
  refine ⟨?_, ?_, ?_⟩
  · exact read?_of_spells (spells_compact value whole) shallow
  · exact read?_of_spells (spells_prettyAt value whole 0) shallow
  · exact (value.matches_canonical wellFormed (finite_of_allWhole whole)).2

/-- Members out of order, a negative zero, the least whole number, an empty array, and characters
that are escaped beside some that are not. -/
def escapedValue : Value :=
  .object
    [("k\n", .array [.number (.zero true), .number (.ofInt (-9007199254740991)), .array []]),
      ("", .object [("z\"", .null), ("\\", .string "\"\x01é😀\x7f")])]

theorem read_of_written_escapedValue :
    escapedValue.WellFormed ∧ AllWhole escapedValue.numbers ∧ escapedValue.depth ≤ depthLimit ∧
      read? (write escapedValue) = some escapedValue.canonical ∧
      read? (writePretty escapedValue) = some escapedValue.canonical := by
  have wellFormed : escapedValue.WellFormed := by decide
  have whole : AllWhole escapedValue.numbers := by decide +kernel
  have shallow : escapedValue.depth ≤ depthLimit := by decide
  obtain ⟨compact, pretty, -⟩ := read_of_written wellFormed whole shallow
  exact ⟨wellFormed, whole, shallow, compact, pretty⟩

end Json

end DesignTokens
