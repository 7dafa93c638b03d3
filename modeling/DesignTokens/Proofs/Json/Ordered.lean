/-
What holds of every value read from JSON text.

The members that the machine has read of an object stand in the order of their
names, and its tokens hold no number that is not finite. A property that passes
from the parts of a value to the whole under these conditions (`Json.Inherited`)
holds of everything that the machine has read: every step keeps that, in the open
containers and in the value read last. So it holds of the value that a text is
read as. That values are well-formed is one such property, because no name stands
twice in an order of names.
-/
import DesignTokens.Json.Reader
import DesignTokens.Proofs.Json.Token
import DesignTokens.Proofs.MemberOrder
import DesignTokens.Proofs.Value.Equality

namespace DesignTokens

namespace Json

/-- A property that a value read from text has as soon as its parts have it. -/
structure Inherited (holds : Value → Prop) : Prop where
  null : holds .null
  bool : ∀ flag, holds (.bool flag)
  number : ∀ number : Number, number.isFinite = true → holds (.number number)
  string : ∀ text, holds (.string text)
  array : ∀ items, (∀ item ∈ items, holds item) → holds (.array items)
  object : ∀ members, OrderedNames members →
    (∀ name value, (name, value) ∈ members → holds value) → holds (.object members)

variable {holds : Value → Prop}

/-! ### What the machine has read -/

/-- The members stand in the order of their names, and the property holds of their values. -/
structure MembersRead (holds : Value → Prop) (members : List (String × Value)) : Prop where
  ordered : OrderedNames members
  each : ∀ name value, (name, value) ∈ members → holds value

theorem MembersRead.nil : MembersRead holds [] where
  ordered := List.Pairwise.nil
  each _ _ present := absurd present List.not_mem_nil

theorem MembersRead.putSorted {members : List (String × Value)} (read : MembersRead holds members)
    (name : String) {value : Value} (here : holds value) :
    MembersRead holds (putSorted name value members) where
  ordered := read.ordered.putSorted name value
  each inner kept present := by
    rcases mem_putSorted present with new | old
    · cases new
      exact here
    · exact read.each inner kept old

theorem MembersRead.object {members : List (String × Value)} (inherited : Inherited holds)
    (read : MembersRead holds members) : holds (.object members) :=
  inherited.object members read.ordered read.each

def Frame.Holds (holds : Value → Prop) : Frame → Prop
  | .array before => ∀ item ∈ before, holds item
  | .object before _ => MembersRead holds before

def Awaiting.Holds (holds : Value → Prop) : Awaiting → Prop
  | .name before => MembersRead holds before
  | .colon before _ => MembersRead holds before
  | .afterValue last => holds last
  | _ => True

namespace Machine

/-- The property holds of everything that the machine has read so far. -/
structure Holds (holds : Value → Prop) (machine : Machine) : Prop where
  awaiting : machine.awaiting.Holds holds
  frames : ∀ frame ∈ machine.frames, frame.Holds holds

theorem initial_holds : initial.Holds holds := ⟨trivial, by simp [initial]⟩

variable {machine next : Machine} {token : Token}

theorem startValue_holds (inherited : Inherited holds) (finite : token.Finite)
    {frames : List Frame} (inside : ∀ frame ∈ frames, frame.Holds holds)
    (started : startValue frames token = some next) : next.Holds holds := by
  cases token with
  | null => cases started; exact ⟨inherited.null, inside⟩
  | bool flag => cases started; exact ⟨inherited.bool flag, inside⟩
  | number value => cases started; exact ⟨inherited.number value (finite value rfl), inside⟩
  | string text => cases started; exact ⟨inherited.string text, inside⟩
  | openArray =>
      rw [startValue] at started
      split at started
      · cases started
        have opened : (Frame.array []).Holds holds := by simp [Frame.Holds]
        exact ⟨trivial, List.forall_mem_cons.mpr ⟨opened, inside⟩⟩
      · cases started
  | openObject =>
      rw [startValue] at started
      split at started
      · cases started
        exact ⟨trivial, inside⟩
      · cases started
  | closeArray => cases started
  | closeObject => cases started
  | comma => cases started
  | colon => cases started

theorem afterValue_holds (inherited : Inherited holds) {value : Value} {frames : List Frame}
    (read : holds value) (inside : ∀ frame ∈ frames, frame.Holds holds)
    (stepped : afterValue value frames token = some next) : next.Holds holds := by
  cases frames with
  | nil => cases stepped
  | cons frame outer =>
      obtain ⟨innermost, outside⟩ := List.forall_mem_cons.mp inside
      cases frame with
      | array before =>
          have items : ∀ item ∈ value :: before, holds item :=
            List.forall_mem_cons.mpr ⟨read, innermost⟩
          cases token with
          | comma =>
              cases stepped
              exact ⟨trivial, List.forall_mem_cons.mpr ⟨items, outside⟩⟩
          | closeArray =>
              cases stepped
              refine ⟨inherited.array _ ?_, outside⟩
              exact fun item present => items item (List.mem_reverse.mp present)
          | _ => cases stepped
      | object before name =>
          have members : MembersRead holds (putSorted name value before) :=
            MembersRead.putSorted innermost name read
          cases token with
          | comma =>
              cases stepped
              exact ⟨members, outside⟩
          | closeObject =>
              cases stepped
              exact ⟨members.object inherited, outside⟩
          | _ => cases stepped

theorem step_firstItem (nonempty : token ≠ .closeArray) (frames : List Frame) :
    step ⟨.firstItem, frames⟩ token = startValue frames token := by
  cases token with
  | closeArray => exact absurd rfl nonempty
  | _ => rfl

theorem step_holds (inherited : Inherited holds) (finite : token.Finite)
    (before : machine.Holds holds) (stepped : machine.step token = some next) :
    next.Holds holds := by
  obtain ⟨awaiting, frames⟩ := machine
  obtain ⟨awaited, inside⟩ := before
  cases awaiting with
  | value => exact startValue_holds inherited finite inside stepped
  | firstItem =>
      by_cases empty : token = .closeArray
      · subst empty
        cases stepped
        refine ⟨inherited.array [] (fun _ present => absurd present List.not_mem_nil), ?_⟩
        exact fun frame present => inside frame (List.mem_of_mem_tail present)
      · rw [step_firstItem empty] at stepped
        exact startValue_holds inherited finite inside stepped
  | firstName =>
      cases token with
      | closeObject => cases stepped; exact ⟨MembersRead.nil.object inherited, inside⟩
      | string => cases stepped; exact ⟨MembersRead.nil, inside⟩
      | _ => cases stepped
  | name before =>
      cases token with
      | string => cases stepped; exact ⟨awaited, inside⟩
      | _ => cases stepped
  | colon before name =>
      cases token with
      | colon =>
          cases stepped
          exact ⟨trivial, List.forall_mem_cons.mpr ⟨awaited, inside⟩⟩
      | _ => cases stepped
  | afterValue value => exact afterValue_holds inherited awaited inside stepped

theorem run_holds (inherited : Inherited holds) {tokens : List Token}
    (finite : ∀ token ∈ tokens, token.Finite) (before : machine.Holds holds)
    (ran : machine.run tokens = some next) : next.Holds holds := by
  induction tokens generalizing machine with
  | nil =>
      cases ran
      exact before
  | cons token rest ih =>
      obtain ⟨first, later⟩ := List.forall_mem_cons.mp finite
      obtain ⟨between, stepped, further⟩ := Option.bind_eq_some_iff.mp ran
      exact ih later (step_holds inherited first before stepped) further

end Machine

theorem Inherited.of_read? (inherited : Inherited holds) {text : String} {value : Value}
    (read : read? text = some value) : holds value := by
  obtain ⟨tokens, lexed, ofTokens⟩ := Option.bind_eq_some_iff.mp read
  obtain ⟨⟨awaiting, frames⟩, ran, result⟩ := Option.bind_eq_some_iff.mp ofTokens
  have final := Machine.run_holds inherited (finite_of_tokens? lexed) Machine.initial_holds ran
  cases awaiting with
  | afterValue last =>
      cases frames with
      | nil =>
          cases result
          exact final.awaiting
      | cons => cases result
  | _ => cases result

/-! ### Values are well-formed -/

theorem inherited_wellFormed : Inherited Value.WellFormed where
  null := trivial
  bool _ := trivial
  number _ _ := trivial
  string _ := trivial
  array _ each := Value.itemsWellFormed_iff.mpr each
  object _ ordered each := ⟨ordered.distinct, Value.membersWellFormed_iff.mpr each⟩

theorem wellFormed_of_read? {text : String} {value : Value} (read : read? text = some value) :
    value.WellFormed :=
  inherited_wellFormed.of_read? read

end Json

end DesignTokens
