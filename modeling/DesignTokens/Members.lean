/-
Ordered members: lists of named items in which each name occurs once.

Putting an item under a name that is already present replaces the item in its
place; a new name goes last. Sorting orders the names by code point. The items
of the other names keep their places.
-/

namespace DesignTokens

variable {α β : Type}

def memberNames (members : List (String × α)) : List String :=
  members.map Prod.fst

def DistinctNames (members : List (String × α)) : Prop :=
  (memberNames members).Nodup

/-- The members with an item put under a name: in place when the name is present, else last. -/
def putMember (name : String) (item : α) : List (String × α) → List (String × α)
  | [] => [(name, item)]
  | (other, kept) :: rest =>
    if other = name then (name, item) :: rest
    else (other, kept) :: putMember name item rest

def putSorted (name : String) (item : α) : List (String × α) → List (String × α)
  | [] => [(name, item)]
  | (other, kept) :: rest =>
    if other = name then (name, item) :: rest
    else if name < other then (name, item) :: (other, kept) :: rest
    else (other, kept) :: putSorted name item rest

/-- The members ordered by name; of two members of one name the later counts. -/
def sortMembers (members : List (String × α)) : List (String × α) :=
  members.foldl (fun sorted entry => putSorted entry.1 entry.2 sorted) []

/-! ### What `putMember` does -/

theorem lookup_putMember_self (name : String) (item : α) (members : List (String × α)) :
    (putMember name item members).lookup name = some item := by
  induction members with
  | nil => simp [putMember]
  | cons head tail ih =>
    obtain ⟨other, kept⟩ := head
    by_cases same : other = name
    · simp [putMember, same]
    · have differs : (name == other) = false := by simp [Ne.symm same]
      simp [putMember, same, List.lookup_cons, differs, ih]

theorem lookup_putMember_of_ne {name wanted : String} (differs : wanted ≠ name) (item : α)
    (members : List (String × α)) :
    (putMember name item members).lookup wanted = members.lookup wanted := by
  have unequal : (wanted == name) = false := by simp [differs]
  induction members with
  | nil => simp [putMember, List.lookup_cons, unequal]
  | cons head tail ih =>
    obtain ⟨other, kept⟩ := head
    by_cases same : other = name
    · subst same
      simp [putMember, List.lookup_cons, unequal]
    · simp [putMember, same, List.lookup_cons, ih]

theorem memberNames_cons (name : String) (item : α) (members : List (String × α)) :
    memberNames ((name, item) :: members) = name :: memberNames members := rfl

theorem memberNames_putMember (name : String) (item : α) (members : List (String × α)) :
    memberNames (putMember name item members) =
      if name ∈ memberNames members then memberNames members
      else memberNames members ++ [name] := by
  induction members with
  | nil => rfl
  | cons head tail ih =>
    obtain ⟨other, kept⟩ := head
    by_cases same : other = name
    · simp [putMember, same, memberNames_cons]
    · rw [putMember, if_neg same, memberNames_cons, memberNames_cons, ih]
      by_cases later : name ∈ memberNames tail
      · rw [if_pos later, if_pos (List.mem_cons_of_mem _ later)]
      · have absent : name ∉ other :: memberNames tail :=
          List.not_mem_cons_of_ne_of_not_mem (Ne.symm same) later
        rw [if_neg later, if_neg absent, List.cons_append]

theorem mem_putMember {name : String} {item : α} {members : List (String × α)}
    {entry : String × α} (member : entry ∈ putMember name item members) :
    entry = (name, item) ∨ entry ∈ members := by
  induction members with
  | nil => simpa [putMember] using member
  | cons head tail ih =>
    obtain ⟨other, kept⟩ := head
    by_cases same : other = name
    · simp only [putMember, same, ↓reduceIte, List.mem_cons] at member
      rcases member with first | later
      · exact Or.inl first
      · exact Or.inr (List.mem_cons_of_mem _ later)
    · simp only [putMember, same, ↓reduceIte, List.mem_cons] at member
      rcases member with first | later
      · exact Or.inr (by simp [first])
      · rcases ih later with new | old
        · exact Or.inl new
        · exact Or.inr (List.mem_cons_of_mem _ old)

end DesignTokens
