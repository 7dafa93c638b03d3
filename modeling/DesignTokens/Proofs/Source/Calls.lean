/-
Registries made by calls.

A call comes to a tree, by itself, from a document or from a file, and pushes it
under its name. Whatever keeps it from its tree counts before a name that is
taken, and only the push changes the registry. So from the empty registry on,
the sources are those of the calls that succeeded, in the order of the calls,
and the other calls leave no trace.

The calls can also be made in place, on a list of sources that is changed step by
step and stays as it is when an error is thrown. That comes to the same registry.
-/
import Mathlib.Data.List.Basic
import DesignTokens.Proofs.Source.Search
import DesignTokens.Proofs.Tree.Document

namespace DesignTokens

/-! ### Documents -/

namespace TokenTree

variable {value : Value} {text : String}

theorem ofJson_unread (name : String) (unread : Json.read? text = none) :
    ofJson name text = .error (.malformedDocument name) := by
  rw [ofJson, unread]

theorem ofJson_notGroup (name : String) (read : Json.read? text = some value)
    (notGroup : ¬ value.IsGroup) : ofJson name text = .error (.rootNotGroup name) := by
  rw [ofJson, read]
  dsimp only
  rw [ofValue?_of_not_isGroup notGroup]

theorem exists_ofJson (name : String) (read : Json.read? text = some value)
    (group : value.IsGroup) : ∃ tree, ofJson name text = .ok tree := by
  obtain ⟨members, rfl, unmarked⟩ := group
  rw [ofJson, read]
  dsimp only
  rw [ofValue?_group unmarked]
  exact ⟨_, rfl⟩

end TokenTree

/-! ### One call -/

/-- A call that adds a source. A file is given with what reading it comes to at the call. -/
inductive SourceCall
  | push (name : String) (tree : TokenTree)
  | json (name text : String)
  | file (name path : String) (content : Except ReadFailure String)

namespace SourceCall

def name : SourceCall → String
  | .push name _ | .json name _ | .file name _ _ => name

/-- The tree that a call comes to before it pushes. -/
def load : SourceCall → Except LoadError TokenTree
  | .push _ tree => .ok tree
  | .json name text => TokenTree.ofJson name text
  | .file _ path (.error failure) => .error (.unreadable path failure)
  | .file name _ (.ok text) => TokenTree.ofJson name text

def run (registry : SourceRegistry) : SourceCall → Except LoadError SourceRegistry
  | .push name tree => registry.push name tree
  | .json name text => registry.pushJson name text
  | .file name path content => registry.pushFile name path content

/-- Why a call fails when these names are taken. -/
inductive Refused (taken : List String) : SourceCall → LoadError → Prop
  | push {name : String} {tree : TokenTree} (used : name ∈ taken) :
      Refused taken (.push name tree) (.duplicateSource name)
  | unread {name text : String} (unread : Json.read? text = none) :
      Refused taken (.json name text) (.malformedDocument name)
  | notGroup {name text : String} {value : Value} (read : Json.read? text = some value)
      (notGroup : ¬ value.IsGroup) : Refused taken (.json name text) (.rootNotGroup name)
  | json {name text : String} {value : Value} (read : Json.read? text = some value)
      (group : value.IsGroup) (used : name ∈ taken) :
      Refused taken (.json name text) (.duplicateSource name)
  | unreadable {name path : String} {failure : ReadFailure} :
      Refused taken (.file name path (.error failure)) (.unreadable path failure)
  | file {name path text : String} {error : LoadError}
      (content : Refused taken (.json name text) error) :
      Refused taken (.file name path (.ok text)) error

variable {registry larger : SourceRegistry} {call : SourceCall} {error : LoadError}

theorem run_eq_bind (registry : SourceRegistry) (call : SourceCall) :
    call.run registry = call.load.bind (registry.push call.name) := by
  cases call with
  | push => rfl
  | json => rfl
  | file name path content => cases content <;> rfl

/-- All that a call does when it succeeds. -/
theorem exists_load_of_run (ran : call.run registry = .ok larger) :
    ∃ tree, call.load = .ok tree ∧ larger.sources = registry.sources ++ [⟨call.name, tree⟩] := by
  rw [run_eq_bind] at ran
  cases loaded : call.load with
  | error failure =>
      rw [loaded] at ran
      cases ran
  | ok tree =>
      rw [loaded] at ran
      exact ⟨tree, rfl, SourceRegistry.sources_push ran⟩

theorem Refused.run (refused : Refused registry.names call error) :
    call.run registry = .error error := by
  induction refused with
  | push used => exact SourceRegistry.push_eq_error_iff.mpr ⟨used, rfl⟩
  | unread unread =>
      rw [run_eq_bind, load, TokenTree.ofJson_unread _ unread]
      rfl
  | notGroup read notGroup =>
      rw [run_eq_bind, load, TokenTree.ofJson_notGroup _ read notGroup]
      rfl
  | @json name text _ read group used =>
      obtain ⟨tree, loaded⟩ := TokenTree.exists_ofJson name read group
      rw [run_eq_bind, load, loaded]
      exact SourceRegistry.push_eq_error_iff.mpr ⟨used, rfl⟩
  | unreadable => rfl
  | file _ ih => exact ih

theorem refused_json {name text : String} (failed : (json name text).run registry = .error error) :
    Refused registry.names (.json name text) error := by
  rw [run_eq_bind, load] at failed
  cases read : Json.read? text with
  | none =>
      rw [TokenTree.ofJson_unread name read] at failed
      cases failed
      exact .unread read
  | some value =>
      by_cases group : value.IsGroup
      · obtain ⟨tree, loaded⟩ := TokenTree.exists_ofJson name read group
        rw [loaded] at failed
        obtain ⟨used, rfl⟩ := SourceRegistry.push_eq_error_iff.mp failed
        exact .json read group used
      · rw [TokenTree.ofJson_notGroup name read group] at failed
        cases failed
        exact .notGroup read group

theorem run_eq_error_iff :
    call.run registry = .error error ↔ Refused registry.names call error := by
  refine ⟨fun failed => ?_, Refused.run⟩
  cases call with
  | push name tree =>
      obtain ⟨used, rfl⟩ := SourceRegistry.push_eq_error_iff.mp failed
      exact .push used
  | json name text => exact refused_json failed
  | file name path content =>
      cases content with
      | error failure =>
          cases failed
          exact .unreadable
      | ok text => exact .file (refused_json failed)

end SourceCall

/-! ### Calls one after another -/

namespace SourceRegistry

/-- The registry after a call, which is the same one when the call fails. -/
def after (registry : SourceRegistry) (call : SourceCall) : SourceRegistry :=
  match call.run registry with
  | .ok larger => larger
  | .error _ => registry

def afterAll (registry : SourceRegistry) (calls : List SourceCall) : SourceRegistry :=
  calls.foldl after registry

/-- The calls that succeed, each on what the earlier calls have left. -/
def accepted (registry : SourceRegistry) : List SourceCall → List SourceCall
  | [] => []
  | call :: rest =>
    match call.run registry with
    | .ok larger => call :: larger.accepted rest
    | .error _ => registry.accepted rest

variable {registry larger : SourceRegistry} {call : SourceCall} {error : LoadError}

theorem after_of_ok (ran : call.run registry = .ok larger) : registry.after call = larger := by
  rw [after, ran]

theorem after_of_error (failed : call.run registry = .error error) :
    registry.after call = registry := by
  rw [after, failed]

theorem accepted_of_ok (ran : call.run registry = .ok larger) (rest : List SourceCall) :
    registry.accepted (call :: rest) = call :: larger.accepted rest := by
  rw [accepted, ran]

theorem accepted_of_error (failed : call.run registry = .error error) (rest : List SourceCall) :
    registry.accepted (call :: rest) = registry.accepted rest := by
  rw [accepted, failed]

theorem afterAll_cons (registry : SourceRegistry) (call : SourceCall) (rest : List SourceCall) :
    registry.afterAll (call :: rest) = (registry.after call).afterAll rest := rfl

theorem names_afterAll (registry : SourceRegistry) (calls : List SourceCall) :
    (registry.afterAll calls).names =
      registry.names ++ (registry.accepted calls).map SourceCall.name := by
  induction calls generalizing registry with
  | nil => exact (List.append_nil _).symm
  | cons call rest ih =>
      rw [afterAll_cons]
      cases ran : call.run registry with
      | error failure => rw [after_of_error ran, accepted_of_error ran, ih]
      | ok larger =>
          obtain ⟨tree, -, sources⟩ := SourceCall.exists_load_of_run ran
          have names : larger.names = registry.names ++ [call.name] := by
            rw [SourceRegistry.names, sources, List.map_append]
            rfl
          rw [after_of_ok ran, accepted_of_ok ran, ih, names, List.append_assoc]
          rfl

theorem mem_sources_afterAll {source : Source} (registry : SourceRegistry)
    (calls : List SourceCall) :
    source ∈ (registry.afterAll calls).sources ↔ source ∈ registry.sources ∨
      ∃ call ∈ registry.accepted calls, call.name = source.name ∧ call.load = .ok source.tree := by
  induction calls generalizing registry with
  | nil => simp [afterAll, accepted]
  | cons call rest ih =>
      rw [afterAll_cons]
      cases ran : call.run registry with
      | error failure => rw [after_of_error ran, accepted_of_error ran, ih]
      | ok larger =>
          obtain ⟨tree, loaded, sources⟩ := SourceCall.exists_load_of_run ran
          have added : source ∈ larger.sources ↔ source ∈ registry.sources ∨
              call.name = source.name ∧ call.load = .ok source.tree := by
            obtain ⟨name, other⟩ := source
            simp [sources, loaded, eq_comm]
          rw [after_of_ok ran, accepted_of_ok ran, ih, added, List.exists_mem_cons_iff, or_assoc]

theorem tree?_eq_some_iff {name : String} {tree : TokenTree} :
    registry.tree? name = some tree ↔ (⟨name, tree⟩ : Source) ∈ registry.sources := by
  constructor
  · intro found
    obtain ⟨source, present, rfl, rfl⟩ := exists_source_of_tree? found
    exact present
  · exact tree?_of_mem

theorem find?_eq_some_iff {path : String} {found : Found} :
    registry.find? path = some found ↔ ∃ before source after,
      registry.sources = before ++ source :: after ∧
        (∀ earlier ∈ before, earlier.tree.lookup? path = none) ∧
        source.name = found.source ∧ source.tree.lookup? path = some found.node := by
  rw [find?, List.findSome?_eq_some_iff]
  refine exists_congr fun before => exists_congr fun source => exists_congr fun after => ?_
  have here : (source.tree.lookup? path).map (⟨source.name, ·⟩) = some found ↔
      source.name = found.source ∧ source.tree.lookup? path = some found.node := by
    obtain ⟨name, node⟩ := found
    cases source.tree.lookup? path with
    | none => simp
    | some other => simp
  simp only [here, Option.map_eq_none_iff]
  exact and_congr_right fun _ => and_comm

/-- Calls that failed can be left out. -/
theorem afterAll_accepted (registry : SourceRegistry) (calls : List SourceCall) :
    registry.afterAll (registry.accepted calls) = registry.afterAll calls := by
  induction calls generalizing registry with
  | nil => rfl
  | cons call rest ih =>
      rw [afterAll_cons]
      cases ran : call.run registry with
      | error failure => rw [after_of_error ran, accepted_of_error ran, ih]
      | ok larger => rw [accepted_of_ok ran, afterAll_cons, after_of_ok ran, ih]

end SourceRegistry

/-! ### Calls in place -/

/-- A change of a list of sources in place: an error leaves the list as it is at that point. -/
abbrev InPlace := ExceptT LoadError (StateM (List Source))

namespace InPlace

/-- What the change answers, and the list that it leaves. -/
def outcome (change : InPlace Unit) (sources : List Source) : Except LoadError Unit × List Source :=
  Id.run (StateT.run (ExceptT.run change) sources)

def push (name : String) (tree : TokenTree) : InPlace Unit := do
  let sources ← get
  if sources.any fun source => source.name == name then
    throw (.duplicateSource name)
  else
    set (sources ++ [⟨name, tree⟩])

def pushJson (name text : String) : InPlace Unit := do
  let tree ← ExceptT.mk (pure (TokenTree.ofJson name text))
  push name tree

def pushFile (name path : String) : Except ReadFailure String → InPlace Unit
  | .error failure => throw (.unreadable path failure)
  | .ok text => pushJson name text

end InPlace

def SourceCall.inPlace : SourceCall → InPlace Unit
  | .push name tree => InPlace.push name tree
  | .json name text => InPlace.pushJson name text
  | .file name path content => InPlace.pushFile name path content

namespace SourceRegistry

def settled (registry : SourceRegistry) :
    Except LoadError SourceRegistry → Except LoadError Unit × List Source
  | .ok larger => (.ok (), larger.sources)
  | .error error => (.error error, registry.sources)

theorem outcome_push (registry : SourceRegistry) (name : String) (tree : TokenTree) :
    (InPlace.push name tree).outcome registry.sources =
      registry.settled (registry.push name tree) := by
  have taken : (registry.sources.any fun source => source.name == name) =
      decide (name ∈ registry.names) := by
    rw [Bool.eq_iff_iff, List.any_eq_true, decide_eq_true_iff, names, List.mem_map]
    simp
  have opened : (InPlace.push name tree).outcome registry.sources =
      InPlace.outcome (if registry.sources.any fun source => source.name == name then
        throw (.duplicateSource name)
      else set (registry.sources ++ [⟨name, tree⟩])) registry.sources := rfl
  rw [opened, taken, SourceRegistry.push]
  by_cases used : name ∈ registry.names
  · rw [decide_eq_true used, dif_pos used]
    rfl
  · rw [decide_eq_false used, dif_neg used]
    rfl

theorem outcome_pushJson (registry : SourceRegistry) (name text : String) :
    (InPlace.pushJson name text).outcome registry.sources =
      registry.settled (registry.pushJson name text) := by
  unfold InPlace.pushJson SourceRegistry.pushJson
  cases TokenTree.ofJson name text with
  | error failure => rfl
  | ok tree => exact outcome_push registry name tree

/-- In place a call comes to the same, and when it fails the list is as it was. -/
theorem outcome_inPlace (registry : SourceRegistry) (call : SourceCall) :
    call.inPlace.outcome registry.sources = registry.settled (call.run registry) := by
  cases call with
  | push name tree => exact outcome_push registry name tree
  | json name text => exact outcome_pushJson registry name text
  | file name path content =>
      cases content with
      | error failure => rfl
      | ok text => exact outcome_pushJson registry name text

/-- The list that calls in place leave one after another. -/
def sourcesInPlace (sources : List Source) (calls : List SourceCall) : List Source :=
  calls.foldl (fun sources call => (call.inPlace.outcome sources).2) sources

theorem sourcesInPlace_eq (registry : SourceRegistry) (calls : List SourceCall) :
    sourcesInPlace registry.sources calls = (registry.afterAll calls).sources := by
  refine List.foldl_hom SourceRegistry.sources fun registry call => ?_
  rw [outcome_inPlace, after]
  cases call.run registry <;> rfl

/-- However calls that succeed and calls that fail are mixed, in place or not: names are distinct,
the sources are those of the calls that succeeded in the order of the calls, and a call that fails
changes nothing. It fails for the first reason that there is, and a search ends in the first source
that has the path. -/
theorem registry_of_calls (calls : List SourceCall) :
    let registry := empty.afterAll calls
    let accepted := empty.accepted calls
    sourcesInPlace [] calls = registry.sources ∧
      (registry.names.Nodup ∧ registry.names = accepted.map SourceCall.name) ∧
      (∀ name tree, registry.tree? name = some tree ↔
        ∃ call ∈ accepted, call.name = name ∧ call.load = .ok tree) ∧
      empty.afterAll accepted = registry ∧
      (∀ (call : SourceCall) (error : LoadError),
        (call.inPlace.outcome registry.sources).1 = .error error →
          (call.inPlace.outcome registry.sources).2 = registry.sources ∧
            registry.after call = registry) ∧
      (∀ (call : SourceCall) (error : LoadError),
        call.run registry = .error error ↔ call.Refused registry.names error) ∧
      (∀ name path text, registry.pushFile name path (.ok text) = registry.pushJson name text) ∧
      ∀ path found, registry.find? path = some found ↔ ∃ before source after,
        registry.sources = before ++ source :: after ∧
          (∀ earlier ∈ before, earlier.tree.lookup? path = none) ∧
          source.name = found.source ∧ source.tree.lookup? path = some found.node := by
  intro registry accepted
  have trees (name : String) (tree : TokenTree) : registry.tree? name = some tree ↔
      ∃ call ∈ accepted, call.name = name ∧ call.load = .ok tree := by
    rw [tree?_eq_some_iff, mem_sources_afterAll]
    exact or_iff_right List.not_mem_nil
  refine ⟨sourcesInPlace_eq empty calls, ⟨registry.distinct, names_afterAll empty calls⟩, trees,
    afterAll_accepted empty calls, ?_, fun _ _ => SourceCall.run_eq_error_iff,
    fun _ _ _ => rfl, fun _ _ => find?_eq_some_iff⟩
  intro call error failed
  rw [outcome_inPlace] at failed ⊢
  cases ran : call.run registry with
  | error failure => exact ⟨rfl, after_of_error ran⟩
  | ok larger =>
      rw [ran] at failed
      cases failed

/-- A text that is not JSON, two roots that are not groups, a missing file and a name that is taken,
between two calls that succeed. -/
def mixedCalls : List SourceCall :=
  [.json "core" "\x7b\"ink\": \"#000\"\x7d", .json "core" "\x7b", .json "alias" "[]",
    .json "web" "\x7b\"$value\": 1\x7d", .file "web" "web.json" (.error .notFound),
    .json "core" "\x7b\x7d", .file "alias" "alias.json" (.ok "\x7b\"ink\": 1, \"dim\": 2\x7d")]

theorem registry_of_mixedCalls :
    (empty.accepted mixedCalls).map SourceCall.name = ["core", "alias"] ∧
      (empty.afterAll mixedCalls).names = ["core", "alias"] := by
  have accepted : (empty.accepted mixedCalls).map SourceCall.name = ["core", "alias"] := by
    decide +kernel
  obtain ⟨-, ⟨-, names⟩, -⟩ := registry_of_calls mixedCalls
  exact ⟨accepted, names.trans accepted⟩

end SourceRegistry

end DesignTokens
