/-
Members with distinct names.

When each name occurs once, looking a name up is the same as finding its member,
so the order of the members does not show in any lookup. Two lists of members
are the same up to order (`SameMembers`) when one of them can be arranged like
the other.
-/
import Mathlib.Data.List.Forall2
import Mathlib.Data.List.Induction
import DesignTokens.Members

namespace DesignTokens

variable {α β : Type}

/-! ### Related options -/

section Related

variable {γ δ : Type} {related : α → β → Prop} {left : Option α} {right : Option β}

theorem eq_none_of_rel (same : Option.Rel related left right) (absent : left = none) :
    right = none := by
  cases same with
  | none => rfl
  | some => cases absent

theorem exists_of_rel (same : Option.Rel related left right) {item : α}
    (present : left = some item) : ∃ other, right = some other ∧ related item other := by
  cases same with
  | none => cases present
  | some both =>
      cases present
      exact ⟨_, rfl, both⟩

theorem rel_isSome (same : Option.Rel related left right) : left.isSome = right.isSome := by
  cases same <;> rfl

theorem rel_bind {further : γ → δ → Prop} {leftNext : α → Option γ} {rightNext : β → Option δ}
    (first : Option.Rel related left right)
    (later : ∀ one other, related one other →
      Option.Rel further (leftNext one) (rightNext other)) :
    Option.Rel further (left.bind leftNext) (right.bind rightNext) := by
  cases first with
  | none => exact .none
  | some both => exact later _ _ both

theorem bind_eq_of_rel {leftNext : α → Option γ} {rightNext : β → Option γ}
    (first : Option.Rel related left right)
    (later : ∀ one other, related one other → leftNext one = rightNext other) :
    left.bind leftNext = right.bind rightNext := by
  cases first with
  | none => rfl
  | some both => exact later _ _ both

theorem rel_of_eq {same : α → α → Prop} (reflexive : ∀ item, same item item)
    {left right : Option α} (equal : left = right) : Option.Rel same left right := by
  rw [equal]
  cases right with
  | none => exact .none
  | some item => exact .some (reflexive item)

end Related

/-! ### Lookups -/

theorem distinctNames_cons {name : String} {item : α} {rest : List (String × α)} :
    DistinctNames ((name, item) :: rest) ↔ name ∉ memberNames rest ∧ DistinctNames rest :=
  List.nodup_cons

theorem mem_memberNames {name : String} {item : α} {members : List (String × α)}
    (present : (name, item) ∈ members) : name ∈ memberNames members :=
  List.mem_map_of_mem present

theorem forall_mem_members_cons {holds : String → α → Prop} {name : String} {item : α}
    {rest : List (String × α)} :
    (∀ other kept, (other, kept) ∈ (name, item) :: rest → holds other kept) ↔
      holds name item ∧ ∀ other kept, (other, kept) ∈ rest → holds other kept := by
  constructor
  · intro each
    exact ⟨each name item List.mem_cons_self,
      fun other kept present => each other kept (List.mem_cons_of_mem _ present)⟩
  · rintro ⟨first, later⟩ other kept present
    rcases List.mem_cons.mp present with same | inRest
    · cases same
      exact first
    · exact later other kept inRest

theorem mem_of_lookup {name : String} {item : α} {members : List (String × α)}
    (found : members.lookup name = some item) : (name, item) ∈ members := by
  obtain ⟨before, after, split, -⟩ := List.lookup_eq_some_iff.mp found
  rw [split]
  exact List.mem_append_right before List.mem_cons_self

theorem lookup_eq_none_of_not_mem {name : String} {members : List (String × α)}
    (absent : name ∉ memberNames members) : members.lookup name = none := by
  cases found : members.lookup name with
  | none => rfl
  | some item => exact absurd (mem_memberNames (mem_of_lookup found)) absent

theorem lookup_eq_none_iff {name : String} {members : List (String × α)} :
    members.lookup name = none ↔ name ∉ memberNames members := by
  refine ⟨fun missing among => ?_, lookup_eq_none_of_not_mem⟩
  obtain ⟨⟨_, item⟩, present, rfl⟩ := List.mem_map.mp among
  exact absurd (List.lookup_eq_none_iff.mp missing _ present) (by simp)

theorem lookup_of_mem {members : List (String × α)} (distinct : DistinctNames members)
    {name : String} {item : α} (present : (name, item) ∈ members) :
    members.lookup name = some item := by
  induction members with
  | nil => cases present
  | cons head tail ih =>
      obtain ⟨other, kept⟩ := head
      obtain ⟨absent, rest⟩ := distinctNames_cons.mp distinct
      rcases List.mem_cons.mp present with first | later
      · cases first
        exact List.lookup_cons_self
      · have differs : (name == other) = false := by
          rw [beq_eq_false_iff_ne]
          rintro rfl
          exact absent (mem_memberNames later)
        rw [List.lookup_cons, differs]
        exact ih rest later

theorem lookup_map_items (members : List (String × α)) (image : α → β) (name : String) :
    (members.map fun (other, item) => (other, image item)).lookup name =
      (members.lookup name).map image := by
  induction members with
  | nil => rfl
  | cons head tail ih =>
      obtain ⟨other, item⟩ := head
      rw [List.map_cons, List.lookup_cons, List.lookup_cons, ih]
      split <;> rfl

theorem memberNames_map_items (members : List (String × α)) (image : α → β) :
    memberNames (members.map fun (name, item) => (name, image item)) = memberNames members := by
  rw [memberNames, List.map_map]
  rfl

theorem DistinctNames.map_items {members : List (String × α)} (distinct : DistinctNames members)
    (image : α → β) : DistinctNames (members.map fun (name, item) => (name, image item)) := by
  rw [DistinctNames, memberNames_map_items]
  exact distinct

theorem DistinctNames.putMember {members : List (String × α)} (distinct : DistinctNames members)
    (name : String) (item : α) : DistinctNames (putMember name item members) := by
  rw [DistinctNames, memberNames_putMember]
  by_cases old : name ∈ memberNames members
  · rw [if_pos old]
    exact distinct
  · rw [if_neg old]
    exact (List.perm_append_singleton name _).symm.nodup (List.nodup_cons.mpr ⟨old, distinct⟩)

/-! ### Members put one after another -/

theorem eraseDups_concat (items : List String) (last : String) :
    (items ++ [last]).eraseDups =
      if last ∈ items then items.eraseDups else items.eraseDups ++ [last] := by
  rw [List.eraseDups_append]
  by_cases old : last ∈ items
  · simp [List.removeAll, old]
  · simp [List.removeAll, old, List.eraseDups_cons]

theorem memberNames_putMember_eraseDups {members : List (String × α)}
    {items : List String} (names : memberNames members = items.eraseDups) (name : String)
    (item : α) : memberNames (putMember name item members) = (items ++ [name]).eraseDups := by
  rw [memberNames_putMember, eraseDups_concat, names]
  by_cases old : name ∈ items
  · rw [if_pos old, if_pos (List.mem_eraseDups.mpr old)]
  · rw [if_neg old, if_neg (fun present => old (List.mem_eraseDups.mp present))]

theorem putMember_of_not_mem {name : String} {members : List (String × α)}
    (absent : name ∉ memberNames members) (item : α) :
    putMember name item members = members ++ [(name, item)] := by
  induction members with
  | nil => rfl
  | cons head tail ih =>
      obtain ⟨other, kept⟩ := head
      have differs : name ≠ other := List.ne_of_not_mem_cons absent
      rw [putMember, if_neg (Ne.symm differs), ih (List.not_mem_of_not_mem_cons absent),
        List.cons_append]

section PutAll

variable (entries : List (String × α))

theorem memberNames_foldl_putMember :
    memberNames (entries.foldl (fun found entry => putMember entry.1 entry.2 found) []) =
      (memberNames entries).eraseDups := by
  induction entries using List.reverseRecOn with
  | nil => rfl
  | append_singleton entries last ih =>
      rw [List.foldl_append, List.foldl_cons, List.foldl_nil, memberNames, memberNames,
        List.map_append, List.map_singleton]
      exact memberNames_putMember_eraseDups ih last.1 last.2

theorem distinctNames_foldl_putMember :
    DistinctNames (entries.foldl (fun found entry => putMember entry.1 entry.2 found) []) := by
  induction entries using List.reverseRecOn with
  | nil => exact List.nodup_nil
  | append_singleton entries last ih =>
      rw [List.foldl_append, List.foldl_cons, List.foldl_nil]
      exact ih.putMember last.1 last.2

/-- The later of two entries of one name counts. -/
theorem lookup_foldl_putMember (name : String) :
    (entries.foldl (fun found entry => putMember entry.1 entry.2 found) []).lookup name =
      entries.reverse.lookup name := by
  induction entries using List.reverseRecOn with
  | nil => rfl
  | append_singleton entries last ih =>
      obtain ⟨other, item⟩ := last
      rw [List.foldl_append, List.foldl_cons, List.foldl_nil, List.reverse_append,
        List.reverse_singleton, List.singleton_append]
      by_cases same : name = other
      · subst same
        rw [lookup_putMember_self, List.lookup_cons_self]
      · rw [lookup_putMember_of_ne same, ih, List.lookup_cons, beq_eq_false_iff_ne.mpr same]

theorem foldl_putMember_of_distinct {entries : List (String × α)}
    (distinct : DistinctNames entries) :
    entries.foldl (fun found entry => putMember entry.1 entry.2 found) [] = entries := by
  induction entries using List.reverseRecOn with
  | nil => rfl
  | append_singleton entries last ih =>
      rw [DistinctNames, memberNames, List.map_append, List.map_singleton] at distinct
      obtain ⟨rest, -, apart⟩ := List.nodup_append.mp distinct
      have absent : last.1 ∉ memberNames entries := fun among =>
        apart last.1 among last.1 (List.mem_singleton.mpr rfl) rfl
      rw [List.foldl_append, List.foldl_cons, List.foldl_nil, ih rest,
        putMember_of_not_mem absent]

end PutAll

/-! ### Members in another order -/

theorem DistinctNames.perm {members others : List (String × α)} (distinct : DistinctNames members)
    (reordered : members.Perm others) : DistinctNames others :=
  (reordered.map Prod.fst).nodup distinct

theorem lookup_perm {members others : List (String × α)} (distinct : DistinctNames members)
    (reordered : members.Perm others) (name : String) :
    members.lookup name = others.lookup name := by
  cases found : others.lookup name with
  | some item =>
      exact lookup_of_mem distinct (reordered.mem_iff.mpr (mem_of_lookup found))
  | none =>
      apply lookup_eq_none_of_not_mem
      intro among
      obtain ⟨⟨_, item⟩, present, rfl⟩ := List.mem_map.mp among
      have again := lookup_of_mem (distinct.perm reordered) (reordered.mem_iff.mp present)
      rw [again] at found
      cases found

theorem map_eq_of_forall₂ {γ : Type} {related : α → β → Prop} {left : List α} {right : List β}
    (same : List.Forall₂ related left right) {first : α → γ} {second : β → γ}
    (each : ∀ one other, related one other → first one = second other) :
    left.map first = right.map second := by
  have equal : List.Forall₂ (· = ·) (left.map first) (right.map second) :=
    List.rel_map (fun {one other} both => each one other both) same
  rw [List.forall₂_eq_eq_eq] at equal
  exact equal

/-- Two members of one name with related items. -/
def SameNamed (related : α → β → Prop) (one : String × α) (other : String × β) : Prop :=
  one.1 = other.1 ∧ related one.2 other.2

/-- Member by member in some order, the names are the same and the items related. -/
def SameMembers (related : α → β → Prop) (left : List (String × α))
    (right : List (String × β)) : Prop :=
  ∃ arranged, right.Perm arranged ∧ List.Forall₂ (SameNamed related) left arranged

variable {related : α → β → Prop} {left : List (String × α)} {right : List (String × β)}

theorem memberNames_of_forall₂ (same : List.Forall₂ (SameNamed related) left right) :
    memberNames left = memberNames right := by
  induction same with
  | nil => rfl
  | cons first _ ih =>
      rw [memberNames, memberNames, List.map_cons, List.map_cons, first.1]
      exact congrArg _ ih

theorem lookup_of_forall₂ (same : List.Forall₂ (SameNamed related) left right) (name : String) :
    Option.Rel related (left.lookup name) (right.lookup name) := by
  induction same with
  | nil => exact .none
  | @cons one other _ _ first _ ih =>
      rw [List.lookup_cons, List.lookup_cons, first.1]
      cases name == other.1 with
      | true => exact .some first.2
      | false => exact ih

theorem putMember_forall₂ (same : List.Forall₂ (SameNamed related) left right) (name : String)
    {item : α} {other : β} (both : related item other) :
    List.Forall₂ (SameNamed related) (putMember name item left) (putMember name other right) := by
  induction same with
  | nil => exact .cons ⟨rfl, both⟩ .nil
  | @cons one another _ _ first later ih =>
      rw [putMember, putMember, ← first.1]
      by_cases here : one.1 = name
      · rw [if_pos here, if_pos here]
        exact .cons ⟨rfl, both⟩ later
      · rw [if_neg here, if_neg here]
        exact .cons ⟨rfl, first.2⟩ ih

namespace SameMembers

theorem distinct_right (same : SameMembers related left right) (distinct : DistinctNames left) :
    DistinctNames right := by
  obtain ⟨arranged, reordered, each⟩ := same
  rw [DistinctNames, memberNames_of_forall₂ each] at distinct
  exact DistinctNames.perm distinct reordered.symm

theorem lookup (same : SameMembers related left right) (distinct : DistinctNames left)
    (name : String) : Option.Rel related (left.lookup name) (right.lookup name) := by
  have distinctRight := same.distinct_right distinct
  obtain ⟨arranged, reordered, each⟩ := same
  rw [lookup_perm distinctRight reordered]
  exact lookup_of_forall₂ each name

theorem length_eq (same : SameMembers related left right) : left.length = right.length := by
  obtain ⟨arranged, reordered, each⟩ := same
  rw [each.length_eq, reordered.length_eq]

theorem of_forall₂ (same : List.Forall₂ (SameNamed related) left right) :
    SameMembers related left right :=
  ⟨right, .refl right, same⟩

theorem map_items {γ δ : Type} {further : γ → δ → Prop} (same : SameMembers related left right)
    (first : α → γ) (second : β → δ)
    (each : ∀ item other, related item other → further (first item) (second other)) :
    SameMembers further (left.map fun (name, item) => (name, first item))
      (right.map fun (name, other) => (name, second other)) := by
  obtain ⟨arranged, reordered, pairs⟩ := same
  refine ⟨_, reordered.map _, List.rel_map ?_ pairs⟩
  intro one other both
  exact ⟨both.1, each one.2 other.2 both.2⟩

/-- As many members on both sides, and each on the left with one of its name on the right. -/
theorem of_lookup (distinct : DistinctNames left) (count : left.length = right.length)
    (within : ∀ name item, (name, item) ∈ left →
      ∃ other, right.lookup name = some other ∧ related item other) :
    SameMembers related left right := by
  induction left generalizing right with
  | nil =>
      have empty : right = [] := List.length_eq_zero_iff.mp count.symm
      exact ⟨[], by rw [empty], .nil⟩
  | cons head tail ih =>
      obtain ⟨name, item⟩ := head
      obtain ⟨absent, rest⟩ := distinctNames_cons.mp distinct
      obtain ⟨other, found, first⟩ := within name item List.mem_cons_self
      obtain ⟨before, after, split, -⟩ := List.lookup_eq_some_iff.mp found
      -- The member of this name is taken out on the right, which no other lookup sees.
      have front : right.Perm ((name, other) :: (before ++ after)) := by
        rw [split]
        exact List.perm_middle
      have remaining : tail.length = (before ++ after).length := by
        rw [front.length_eq, List.length_cons, List.length_cons] at count
        omega
      have later : ∀ inner kept, (inner, kept) ∈ tail →
          ∃ met, (before ++ after).lookup inner = some met ∧ related kept met := by
        intro inner kept present
        obtain ⟨met, atInner, fits⟩ := within inner kept (List.mem_cons_of_mem _ present)
        have differs : (inner == name) = false := by
          rw [beq_eq_false_iff_ne]
          rintro rfl
          exact absent (mem_memberNames present)
        rw [split, List.lookup_append, List.lookup_cons, differs] at atInner
        exact ⟨met, by rw [List.lookup_append]; exact atInner, fits⟩
      obtain ⟨arranged, reordered, each⟩ := ih rest remaining later
      exact ⟨(name, other) :: arranged, front.trans (reordered.cons _), .cons ⟨rfl, first⟩ each⟩

theorem exists_of_mem (same : SameMembers related left right) (distinct : DistinctNames left)
    {name : String} {item : α} (present : (name, item) ∈ left) :
    ∃ other, right.lookup name = some other ∧ related item other :=
  exists_of_rel (same.lookup distinct name) (lookup_of_mem distinct present)

end SameMembers

end DesignTokens
