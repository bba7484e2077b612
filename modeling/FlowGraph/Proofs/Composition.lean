import FlowGraph.Proofs.Occurrences

/-!
# Composition of renamings

Renaming twice is renaming once, by the new names of the new names.  A position is spared
for the name that it carries at the moment, so this needs that no variable is given a
reserved name: then what the first renaming reaches, the second one reaches too.  A renaming
to new names is undone by its inverse.
-/

namespace FlowGraph.Fragment

namespace Renaming

/-- The renaming by one and then by the other: a name with a new name in either of them
goes to the new name of its new name. -/
def andThen (first second : Renaming) : Renaming := fun name =>
  if (first name).isSome ∨ (second name).isSome then some (second.apply (first.apply name))
  else none

theorem apply_andThen (first second : Renaming) (name : String) :
    (first.andThen second).apply name = second.apply (first.apply name) := by
  by_cases known : (first name).isSome ∨ (second name).isSome
  · exact apply_of_some (if_pos known)
  · have unnamed : first name = none ∧ second name = none := by simpa using known
    rw [apply_of_none (if_neg known), apply_of_none unnamed.1, apply_of_none unnamed.2]

/-- No variable receives a reserved name. -/
def AvoidsReserved (names : Renaming) : Prop :=
  ∀ name target, names name = some target → target ∉ reservedNames

/-- Different names have different new names. -/
def IsInjective (names : Renaming) : Prop :=
  ∀ name other target, names name = some target → names other = some target → name = other

/-- The names that are renamed and their new names, the other way round. -/
def Inverts (names back : Renaming) : Prop :=
  ∀ name target, back target = some name ↔ names name = some target

theorem IsInjective.exists_inverts {names : Renaming} (injective : names.IsInjective) :
    ∃ back, names.Inverts back := by
  have preimage : ∀ target, ∃ found : Option String, ∀ name,
      found = some name ↔ names name = some target := by
    intro target
    by_cases known : ∃ origin, names origin = some target
    · obtain ⟨origin, renamed⟩ := known
      refine ⟨some origin, fun name => ⟨?_, ?_⟩⟩
      · rintro ⟨⟩
        exact renamed
      · intro again
        rw [injective origin name target renamed again]
    · refine ⟨none, fun name => ⟨?_, ?_⟩⟩
      · rintro ⟨⟩
      · intro renamed
        exact absurd ⟨name, renamed⟩ known
  choose back inverse using preimage
  exact ⟨back, fun name target => inverse target name⟩

end Renaming

section Twice

variable {first second : Renaming}

theorem renameAll_renameAll {items : List Value}
    (each : ∀ item ∈ items,
      rename second (rename first item) = rename (first.andThen second) item) :
    renameAll second (renameAll first items) = renameAll (first.andThen second) items := by
  rw [renameAll_eq_map, renameAll_eq_map, renameAll_eq_map, List.map_map]
  exact List.map_congr_left each

variable (avoids : first.AvoidsReserved)
include avoids

/-- What is not reserved is not reserved after renaming. -/
theorem isReserved_rename {reserved : List String} (subset : reserved ⊆ reservedNames)
    {item : Value} (free : isReserved reserved item = false) :
    isReserved reserved (rename first item) = false := by
  cases item with
  | symbol name =>
      cases renamed : first name with
      | none => rwa [rename, Renaming.apply_of_none renamed]
      | some target =>
          rw [rename, Renaming.apply_of_some renamed]
          have unreserved : target ∉ reserved := fun taken =>
            avoids name target renamed (subset taken)
          simpa [isReserved] using unreserved
  | _ => simp only [rename, isReserved]

theorem renameArguments_renameArguments (head : String) {arguments : List Value}
    (each : ∀ item ∈ arguments,
      rename second (rename first item) = rename (first.andThen second) item) :
    renameArguments second (Role.ofHead head)
        (renameArguments first (Role.ofHead head) arguments) =
      renameArguments (first.andThen second) (Role.ofHead head) arguments := by
  cases role : Role.ofHead head with
  | call =>
      cases arguments with
      | nil => rfl
      | cons operator rest =>
          have later := renameAll_renameAll fun item member =>
            each item (List.mem_cons_of_mem _ member)
          simp only [renameArguments, later]
  | field =>
      cases arguments with
      | nil => rfl
      | cons base rest => simp only [renameArguments, each base List.mem_cons_self]
  | plain reserved =>
      simp only [renameArguments_plain, List.map_map]
      refine List.map_congr_left fun item member => ?_
      cases spared : isReserved reserved item with
      | true => simp [spared]
      | false =>
          have stillFree := isReserved_rename avoids (Role.reserved_subset role) spared
          simp [spared, stillFree, each item member]

theorem rename_rename (fragment : Value) :
    rename second (rename first fragment) = rename (first.andThen second) fragment := by
  induction fragment using renameInduction with
  | symbol name => simp only [rename, Renaming.apply_andThen]
  | list items induction => simp only [rename, renameAll_renameAll induction]
  | tuple items induction => simp only [rename, renameAll_renameAll induction]
  | expr head arguments induction =>
      simp only [rename, renameArguments_renameArguments avoids head induction]
  | literal value kept _ => simp only [kept]

/-- Renaming back is renaming every occurring name to itself, when no new name occurs. -/
theorem rename_back {back : Renaming} (inverts : first.Inverts back) {fragment : Value}
    (unused : ∀ name target, first name = some target →
      ∀ around, ¬ Occurs target around fragment) :
    rename back (rename first fragment) = fragment := by
  rw [rename_rename avoids, rename_eq_self_iff]
  intro name around occurs
  rw [Renaming.apply_andThen]
  cases renamed : first name with
  | some target =>
      rw [Renaming.apply_of_some renamed]
      exact Renaming.apply_of_some ((inverts name target).mpr renamed)
  | none =>
      rw [Renaming.apply_of_none renamed]
      cases returned : back name with
      | none => exact Renaming.apply_of_none returned
      | some original =>
          have target := (inverts original name).mp returned
          exact absurd occurs (unused original name target around)

end Twice

/-- Renaming by one renaming and then by another is renaming by their composition, when the
first gives no reserved name; and a renaming that gives different names new names, which do
not occur in the fragment, has an inverse that gives the fragment back. -/
theorem renamings_compose {first : Renaming} (avoids : first.AvoidsReserved) (fragment : Value) :
    (∀ second, rename second (rename first fragment) = rename (first.andThen second) fragment) ∧
    (first.IsInjective →
      (∀ name target, first name = some target → ∀ around, ¬ Occurs target around fragment) →
      (∃ back, first.Inverts back) ∧
        ∀ back, first.Inverts back → rename back (rename first fragment) = fragment) := by
  refine ⟨fun second => rename_rename avoids fragment, ?_⟩
  intro injective unused
  exact ⟨injective.exists_inverts, fun back inverts => rename_back avoids inverts unused⟩

def endForLast : Renaming := fun name =>
  if name = "last" then some "end" else if name = "y" then some "x" else none

theorem lastForEnd_inverts : lastForEnd.Inverts endForLast := by
  intro name target
  constructor
  · intro found
    unfold endForLast at found
    split at found
    · rename_i isLast
      cases found
      exact isLast ▸ rfl
    split at found
    · rename_i isY
      cases found
      exact isY ▸ rfl
    · cases found
  · intro renamed
    rcases lastForEnd_cases renamed with ⟨rfl, rfl⟩ | ⟨rfl, rfl⟩ <;> rfl

/-- A renaming that renames a reserved name as well, then others, and back. -/
theorem endOfRange_renamed_back :
    (∀ second, rename second (rename lastForEnd endOfRange) =
      rename (lastForEnd.andThen second) endOfRange) ∧
    rename endForLast (rename lastForEnd endOfRange) = endOfRange := by
  have avoids : lastForEnd.AvoidsReserved := by
    intro name target renamed
    rcases lastForEnd_cases renamed with ⟨_, rfl⟩ | ⟨_, rfl⟩ <;> decide
  have injective : lastForEnd.IsInjective := by
    intro name other target renamed renamedOther
    have back := (lastForEnd_inverts name target).mpr renamed
    rw [(lastForEnd_inverts other target).mpr renamedOther] at back
    exact (Option.some.inj back).symm
  have unused : ∀ name target, lastForEnd name = some target →
      ∀ around, ¬ Occurs target around endOfRange := by
    intro name target renamed
    rcases lastForEnd_cases renamed with ⟨_, rfl⟩ | ⟨_, rfl⟩
    · exact @not_occurs_of_rename_eq _ "z" _ (by decide) rfl
    · exact @not_occurs_of_rename_eq _ "z" _ (by decide) rfl
  obtain ⟨composes, returns⟩ := renamings_compose avoids endOfRange
  exact ⟨composes, (returns injective unused).2 endForLast lastForEnd_inverts⟩

end FlowGraph.Fragment
