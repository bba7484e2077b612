import FlowGraph.Fragment.Renaming

/-!
# Completeness of renaming

The variables of a renamed fragment are the new names of its variables.  Collecting
leaves out reserved names below an index range or a comparison at any depth, while
renaming spares them only where they stand directly in it.  A reserved name further
inside is renamed like a variable, and the two traversals agree only because such a
name is a variable elsewhere in the fragment.
-/

namespace FlowGraph.Fragment

mutual

/-- Whether no tagged form stands in a fragment. -/
def isUntagged : Value → Bool
  | .list items => areUntagged items
  | .tuple items => areUntagged items
  | .expr _ arguments => areUntagged arguments
  | .form _ _ _ => false
  | _ => true

/-- Whether no tagged form stands in some fragments. -/
def areUntagged : List Value → Bool
  | [] => true
  | item :: rest => isUntagged item && areUntagged rest

end

theorem isUntagged_of_mem {items : List Value} (untagged : areUntagged items = true)
    {item : Value} (member : item ∈ items) : isUntagged item = true := by
  induction items with
  | nil => cases member
  | cons first rest induction =>
      obtain ⟨here, later⟩ := (Bool.and_eq_true _ _).mp untagged
      rcases List.mem_cons.mp member with rfl | further
      · exact here
      · exact induction later further

/-- The names that stand for no variable in some position. -/
def reservedNames : List String :=
  rangePlaceholders ++ comparisonOperators

/-- A role leaves out reserved names only. -/
theorem Role.reserved_subset {head : String} {reserved : List String}
    (role : Role.ofHead head = .plain reserved) : reserved ⊆ reservedNames := by
  unfold Role.ofHead Role.ofTag at role
  split at role
  · cases role
  · cases role
  · cases role
    exact List.subset_append_left _ _
  · cases role
    exact List.subset_append_right _ _
  · cases role
    exact List.nil_subset _

theorem mem_unreserved {reserved : List String} {name : String} {list : List String} :
    (name ∈ list.filter fun name => !reserved.contains name) ↔ name ∈ list ∧ name ∉ reserved := by
  simp

theorem filter_symbols_reserved {reserved : List String} {item : Value}
    (spared : isReserved reserved item = true) :
    (symbols item).filter (fun name => !reserved.contains name) = [] := by
  cases item with
  | symbol name =>
      have member : name ∈ reserved := List.contains_iff_mem.mp spared
      simp [symbols, member]
  | _ => cases spared

namespace Renaming

theorem apply_of_some {names : Renaming} {name target : String}
    (renamed : names name = some target) : names.apply name = target := by
  simp [apply, renamed]

theorem apply_of_none {names : Renaming} {name : String} (kept : names name = none) :
    names.apply name = name := by
  simp [apply, kept]

/-- No variable receives a reserved name, and a reserved name that is renamed is one
of the known variables. -/
structure Respects (names : Renaming) (known : List String) : Prop where
  targets : ∀ name target, names name = some target → target ∉ reservedNames
  keys : ∀ name ∈ reservedNames, names name ≠ none → name ∈ known

/-- Every variable has its new name among the later ones, and every later one is the
new name of a variable or of a known name. -/
structure Carries (names : Renaming) (known before after : List String) : Prop where
  forward : ∀ name ∈ before, names.apply name ∈ after
  backward : ∀ name ∈ after,
    ∃ original, (original ∈ before ∨ original ∈ known) ∧ names.apply original = name

variable {names : Renaming} {known : List String}

namespace Carries

theorem nil : names.Carries known [] [] := by
  constructor
  · intro name member
    cases member
  · intro name member
    cases member

theorem append {before after beforeRest afterRest : List String}
    (first : names.Carries known before after)
    (rest : names.Carries known beforeRest afterRest) :
    names.Carries known (before ++ beforeRest) (after ++ afterRest) := by
  constructor
  · intro name member
    rcases List.mem_append.mp member with here | later
    · exact List.mem_append_left _ (first.forward name here)
    · exact List.mem_append_right _ (rest.forward name later)
  · intro name member
    rcases List.mem_append.mp member with here | later
    · obtain ⟨original, found, renamed⟩ := first.backward name here
      exact ⟨original, found.imp_left (List.mem_append_left _), renamed⟩
    · obtain ⟨original, found, renamed⟩ := rest.backward name later
      exact ⟨original, found.imp_left (List.mem_append_right _), renamed⟩

/-- Leaving out reserved names keeps the correspondence: a new name is never reserved,
and a reserved name with a new name is known. -/
theorem unreserved {before after : List String} (carries : names.Carries known before after)
    (respects : names.Respects known) {reserved : List String}
    (subset : reserved ⊆ reservedNames) :
    names.Carries known (before.filter fun name => !reserved.contains name)
      (after.filter fun name => !reserved.contains name) := by
  constructor
  · intro name member
    obtain ⟨found, free⟩ := mem_unreserved.mp member
    apply mem_unreserved.mpr
    refine ⟨carries.forward name found, ?_⟩
    cases renamed : names name with
    | none => rwa [Renaming.apply_of_none renamed]
    | some target =>
        rw [Renaming.apply_of_some renamed]
        intro taken
        exact respects.targets name target renamed (subset taken)
  · intro name member
    obtain ⟨found, free⟩ := mem_unreserved.mp member
    obtain ⟨original, source, rfl⟩ := carries.backward name found
    refine ⟨original, ?_, rfl⟩
    by_cases taken : original ∈ reserved
    · right
      apply respects.keys original (subset taken)
      intro kept
      rw [Renaming.apply_of_none kept] at free
      exact free taken
    · exact source.imp_left fun here => mem_unreserved.mpr ⟨here, taken⟩

end Carries

end Renaming

section Traversal

variable {names : Renaming} {known : List String}

theorem carries_renameAll {items : List Value}
    (each : ∀ item ∈ items, names.Carries known (symbols item) (symbols (rename names item))) :
    names.Carries known (symbolsOfAll items) (symbolsOfAll (renameAll names items)) := by
  induction items with
  | nil => exact .nil
  | cons item rest induction =>
      apply Renaming.Carries.append
      · exact each item List.mem_cons_self
      · apply induction
        intro later member
        exact each later (List.mem_cons_of_mem _ member)

/-- Where reserved names are left out, it does not matter whether they are renamed. -/
theorem carries_renameUnreserved (respects : names.Respects known) {reserved : List String}
    (subset : reserved ⊆ reservedNames) {items : List Value}
    (each : ∀ item ∈ items, names.Carries known (symbols item) (symbols (rename names item))) :
    names.Carries known ((symbolsOfAll items).filter fun name => !reserved.contains name)
      ((symbolsOfAll (renameUnreserved names reserved items)).filter
        fun name => !reserved.contains name) := by
  induction items with
  | nil => exact .nil
  | cons item rest induction =>
      rw [renameUnreserved, symbolsOfAll, symbolsOfAll, List.filter_append, List.filter_append]
      apply Renaming.Carries.append
      · split
        · rename_i spared
          rw [filter_symbols_reserved spared]
          exact .nil
        · exact (each item List.mem_cons_self).unreserved respects subset
      · apply induction
        intro later member
        exact each later (List.mem_cons_of_mem _ member)

theorem carries_renameArguments (respects : names.Respects known) (head : String)
    {arguments : List Value}
    (each : ∀ item ∈ arguments, names.Carries known (symbols item) (symbols (rename names item))) :
    names.Carries known (symbolsOfArguments (Role.ofHead head) arguments)
      (symbolsOfArguments (Role.ofHead head)
        (renameArguments names (Role.ofHead head) arguments)) := by
  cases arguments with
  | nil => exact .nil
  | cons first rest =>
      cases role : Role.ofHead head with
      | call =>
          apply carries_renameAll
          intro item member
          exact each item (List.mem_cons_of_mem _ member)
      | field => exact each first List.mem_cons_self
      | plain reserved =>
          exact carries_renameUnreserved respects (Role.reserved_subset role) each

/-- The variables of a fragment without tagged forms correspond to those of the renamed
fragment. -/
theorem carries_rename (respects : names.Respects known) (fragment : Value)
    (untagged : isUntagged fragment = true) :
    names.Carries known (symbols fragment) (symbols (rename names fragment)) := by
  cases fragment with
  | symbol name =>
      constructor
      · intro found member
        rw [List.mem_singleton.mp member]
        exact List.mem_singleton.mpr rfl
      · intro found member
        exact ⟨name, .inl (List.mem_singleton.mpr rfl), (List.mem_singleton.mp member).symm⟩
  | list items =>
      apply carries_renameAll
      intro item member
      exact carries_rename respects item (isUntagged_of_mem untagged member)
  | tuple items =>
      apply carries_renameAll
      intro item member
      exact carries_rename respects item (isUntagged_of_mem untagged member)
  | expr head arguments =>
      apply carries_renameArguments respects head
      intro item member
      exact carries_rename respects item (isUntagged_of_mem untagged member)
  | form head arguments => cases untagged
  | _ => exact .nil
termination_by sizeOf fragment

end Traversal

/-- The variables of a renamed fragment are exactly the new names of its variables. -/
theorem mem_symbols_rename_iff {names : Renaming} {fragment : Value}
    (untagged : isUntagged fragment = true)
    (targets : ∀ name target, names name = some target → target ∉ reservedNames)
    (keys : ∀ name ∈ reservedNames, names name ≠ none → name ∈ symbols fragment)
    (name : String) :
    name ∈ symbols (rename names fragment) ↔
      ∃ original ∈ symbols fragment, names.apply original = name := by
  have carries := carries_rename ⟨targets, keys⟩ fragment untagged
  constructor
  · intro member
    obtain ⟨original, found, renamed⟩ := carries.backward name member
    exact ⟨original, found.elim id id, renamed⟩
  · rintro ⟨original, found, rfl⟩
    exact carries.forward original found

/-- A reserved name as a variable, in an index range, and below the range. -/
def endOfRange : Value :=
  .list [.symbol "end",
    .expr "ref" [.symbol "x", .symbol "end", .expr "call" [.symbol "end", .tuple [.symbol "end"]]]]

def lastForEnd : Renaming := fun name =>
  if name = "end" then some "last" else if name = "x" then some "y" else none

theorem lastForEnd_cases {name target : String} (renamed : lastForEnd name = some target) :
    (name = "end" ∧ target = "last") ∨ (name = "x" ∧ target = "y") := by
  unfold lastForEnd at renamed
  split at renamed
  · exact .inl ⟨‹_›, (Option.some.inj renamed).symm⟩
  split at renamed
  · exact .inr ⟨‹_›, (Option.some.inj renamed).symm⟩
  · cases renamed

theorem endOfRange_renamed :
    isUntagged endOfRange = true ∧ symbols endOfRange = ["end", "x"] ∧
      ∀ name, name ∈ symbols (rename lastForEnd endOfRange) ↔
        ∃ original ∈ symbols endOfRange, lastForEnd.apply original = name := by
  refine ⟨rfl, rfl, mem_symbols_rename_iff rfl ?_ ?_⟩
  · intro name target renamed
    rcases lastForEnd_cases renamed with ⟨rfl, rfl⟩ | ⟨rfl, rfl⟩
    · decide
    · decide
  · decide

end FlowGraph.Fragment
