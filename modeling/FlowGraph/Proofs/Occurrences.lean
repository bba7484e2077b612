import FlowGraph.Proofs.Renaming
import Mathlib.Data.List.Basic

/-!
# Occurrences of variables

A name occurs in a fragment where it stands in the position of a variable, and the index
ranges and comparisons around it reserve some names.  Renaming changes every occurrence;
collecting takes only those whose name is not reserved around it.  So a fragment may be
changed by a renaming that renames none of its variables, through a reserved name that
stands further inside a range or a comparison than directly in it.
-/

namespace FlowGraph.Fragment

namespace Role

/-- The arguments in which variables are read: all but the operator of a call, only the
base of a field, and those that are no reserved symbol themselves. -/
def entered : Role → List Value → List Value
  | .call, arguments => arguments.tail
  | .field, arguments => arguments.take 1
  | .plain reserved, arguments => arguments.filter fun item => !isReserved reserved item

/-- The names that stand for no variable anywhere below an expression. -/
def reserved : Role → List String
  | .plain reserved => reserved
  | _ => []

theorem mem_of_entered {role : Role} {arguments : List Value} {item : Value}
    (member : item ∈ role.entered arguments) : item ∈ arguments := by
  cases role with
  | call => exact List.mem_of_mem_tail member
  | field => exact List.mem_of_mem_take member
  | plain reserved => exact (List.mem_filter.mp member).1

theorem reserved_ofHead_subset (head : String) :
    (Role.ofHead head).reserved ⊆ reservedNames := by
  cases role : Role.ofHead head with
  | plain reserved => exact Role.reserved_subset role
  | _ => exact List.nil_subset _

end Role

/-- The name stands in the position of a variable in a fragment, and the ranges and
comparisons around that position reserve the names `around`. -/
inductive Occurs (name : String) : List String → Value → Prop where
  | symbol : Occurs name [] (.symbol name)
  | list {around : List String} {items : List Value} {item : Value} (member : item ∈ items)
      (inside : Occurs name around item) : Occurs name around (.list items)
  | tuple {around : List String} {items : List Value} {item : Value} (member : item ∈ items)
      (inside : Occurs name around item) : Occurs name around (.tuple items)
  | expr {around : List String} {head : String} {arguments : List Value} {item : Value}
      (member : item ∈ (Role.ofHead head).entered arguments) (inside : Occurs name around item) :
      Occurs name ((Role.ofHead head).reserved ++ around) (.expr head arguments)

/-- A property of all fragments passes from the parts that renaming enters to the whole,
and holds of all that renaming leaves alone. -/
theorem renameInduction {motive : Value → Prop} (symbol : ∀ name, motive (.symbol name))
    (list : ∀ items, (∀ item ∈ items, motive item) → motive (.list items))
    (tuple : ∀ items, (∀ item ∈ items, motive item) → motive (.tuple items))
    (expr : ∀ head arguments, (∀ item ∈ arguments, motive item) → motive (.expr head arguments))
    (literal : ∀ value, (∀ names, rename names value = value) →
      (∀ name around, ¬ Occurs name around value) → motive value)
    (fragment : Value) : motive fragment := by
  cases fragment with
  | symbol name => exact symbol name
  | list items =>
      exact list items fun item _ => renameInduction symbol list tuple expr literal item
  | tuple items =>
      exact tuple items fun item _ => renameInduction symbol list tuple expr literal item
  | expr head arguments =>
      exact expr head arguments fun item _ => renameInduction symbol list tuple expr literal item
  | _ =>
      refine literal _ (fun names => by simp only [rename]) ?_
      rintro name around ⟨⟩
termination_by sizeOf fragment

theorem renameAll_eq_map (names : Renaming) (items : List Value) :
    renameAll names items = items.map (rename names) := by
  induction items with
  | nil => rfl
  | cons item rest induction => rw [renameAll, induction, List.map_cons]

theorem renameUnreserved_eq_map (names : Renaming) (reserved : List String)
    (items : List Value) :
    renameUnreserved names reserved items =
      items.map fun item => if isReserved reserved item then item else rename names item := by
  induction items with
  | nil => rfl
  | cons item rest induction => rw [renameUnreserved, induction, List.map_cons]

theorem renameArguments_plain (names : Renaming) (reserved : List String)
    (arguments : List Value) :
    renameArguments names (.plain reserved) arguments =
      arguments.map fun item => if isReserved reserved item then item else rename names item := by
  rw [← renameUnreserved_eq_map]
  cases arguments <;> rfl

section Agreement

variable {names others : Renaming}

theorem renameAll_eq_iff {items : List Value} :
    renameAll names items = renameAll others items ↔
      ∀ item ∈ items, rename names item = rename others item := by
  rw [renameAll_eq_map, renameAll_eq_map, List.map_inj_left]

theorem renameArguments_eq_iff {role : Role} {arguments : List Value} :
    renameArguments names role arguments = renameArguments others role arguments ↔
      ∀ item ∈ role.entered arguments, rename names item = rename others item := by
  cases role with
  | call =>
      cases arguments with
      | nil => simp [renameArguments, Role.entered]
      | cons first rest =>
          rw [renameArguments, renameArguments, List.cons_inj_right, renameAll_eq_iff]
          rfl
  | field => cases arguments <;> simp [renameArguments, Role.entered]
  | plain reserved =>
      rw [renameArguments_plain, renameArguments_plain, List.map_inj_left]
      constructor
      · intro same item member
        obtain ⟨isArgument, free⟩ := List.mem_filter.mp member
        have notReserved : isReserved reserved item = false := by simpa using free
        simpa [notReserved] using same item isArgument
      · intro same item isArgument
        cases spared : isReserved reserved item with
        | true => rfl
        | false => simpa using same item (List.mem_filter.mpr ⟨isArgument, by simp [spared]⟩)

/-- Two renamings make the same of a fragment exactly when they agree on all names that
occur in it. -/
theorem rename_eq_iff {fragment : Value} :
    rename names fragment = rename others fragment ↔
      ∀ name around, Occurs name around fragment → names.apply name = others.apply name := by
  induction fragment using renameInduction with
  | symbol found =>
      simp only [rename, Value.symbol.injEq]
      constructor
      · rintro same name around ⟨⟩
        exact same
      · intro same
        exact same found [] .symbol
  | list items induction =>
      simp only [rename, Value.list.injEq, renameAll_eq_iff]
      constructor
      · rintro same name around (_ | ⟨member, inside⟩)
        exact (induction _ member).mp (same _ member) name around inside
      · intro same item member
        exact (induction item member).mpr fun name around inside =>
          same name around (.list member inside)
  | tuple items induction =>
      simp only [rename, Value.tuple.injEq, renameAll_eq_iff]
      constructor
      · rintro same name around (_ | _ | ⟨member, inside⟩)
        exact (induction _ member).mp (same _ member) name around inside
      · intro same item member
        exact (induction item member).mpr fun name around inside =>
          same name around (.tuple member inside)
  | expr head arguments induction =>
      simp only [rename, Value.expr.injEq, true_and, renameArguments_eq_iff]
      constructor
      · rintro same name around (_ | _ | _ | ⟨member, inside⟩)
        exact (induction _ (Role.mem_of_entered member)).mp (same _ member) name _ inside
      · intro same item member
        exact (induction item (Role.mem_of_entered member)).mpr fun name around inside =>
          same name _ (.expr member inside)
  | literal value kept closed =>
      rw [kept, kept]
      exact iff_of_true rfl fun name around inside => absurd inside (closed name around)

end Agreement

/-- The renaming without new names. -/
def Renaming.unchanging : Renaming := fun _ => none

theorem renameAll_of_kept {names : Renaming} {items : List Value}
    (kept : ∀ item ∈ items, rename names item = item) : renameAll names items = items := by
  rw [renameAll_eq_map]
  exact (List.map_congr_left kept).trans (List.map_id' items)

theorem renameArguments_of_kept {names : Renaming} {role : Role} {arguments : List Value}
    (kept : ∀ item ∈ arguments, rename names item = item) :
    renameArguments names role arguments = arguments := by
  cases role with
  | call =>
      cases arguments with
      | nil => rfl
      | cons first rest =>
          rw [renameArguments, renameAll_of_kept fun item member =>
            kept item (List.mem_cons_of_mem _ member)]
  | field =>
      cases arguments with
      | nil => rfl
      | cons first rest => rw [renameArguments, kept first List.mem_cons_self]
  | plain reserved =>
      rw [renameArguments_plain]
      refine (List.map_congr_left fun item member => ?_).trans (List.map_id' arguments)
      rw [kept item member, ite_self]

theorem rename_unchanging (fragment : Value) : rename .unchanging fragment = fragment := by
  induction fragment using renameInduction with
  | symbol name => rfl
  | list items induction => rw [rename, renameAll_of_kept induction]
  | tuple items induction => rw [rename, renameAll_of_kept induction]
  | expr head arguments induction => rw [rename, renameArguments_of_kept induction]
  | literal value kept _ => exact kept _

/-- A renaming leaves a fragment as it was exactly when it keeps all names that occur in it. -/
theorem rename_eq_self_iff {names : Renaming} {fragment : Value} :
    rename names fragment = fragment ↔
      ∀ name around, Occurs name around fragment → names.apply name = name := by
  have compared := @rename_eq_iff names .unchanging fragment
  rwa [rename_unchanging] at compared

section Collection

variable {name : String}

theorem mem_symbolsOfAll {items : List Value} :
    name ∈ symbolsOfAll items ↔ ∃ item ∈ items, name ∈ symbols item := by
  induction items with
  | nil => simp [symbolsOfAll]
  | cons item rest induction => simp [symbolsOfAll, induction]

theorem mem_symbolsOfArguments {role : Role} {arguments : List Value} {item : Value}
    (member : item ∈ role.entered arguments) (found : name ∈ symbols item)
    (free : name ∉ role.reserved) : name ∈ symbolsOfArguments role arguments := by
  cases arguments with
  | nil => cases role <;> cases member
  | cons first rest =>
      cases role with
      | call => exact mem_symbolsOfAll.mpr ⟨item, member, found⟩
      | field =>
          rw [List.mem_singleton.mp member] at found
          exact found
      | plain reserved =>
          refine mem_unreserved.mpr ⟨?_, free⟩
          exact mem_symbolsOfAll.mpr ⟨item, (List.mem_filter.mp member).1, found⟩

/-- What occurs without being reserved around it is a variable of the fragment. -/
theorem Occurs.mem_symbols {around : List String} {fragment : Value}
    (occurs : Occurs name around fragment) (free : name ∉ around) : name ∈ symbols fragment := by
  induction occurs with
  | symbol => exact List.mem_singleton.mpr rfl
  | list member _ induction => exact mem_symbolsOfAll.mpr ⟨_, member, induction free⟩
  | tuple member _ induction => exact mem_symbolsOfAll.mpr ⟨_, member, induction free⟩
  | expr member _ induction =>
      rw [List.mem_append, not_or] at free
      exact mem_symbolsOfArguments member (induction free.2) free.1

theorem Occurs.around_subset {around : List String} {fragment : Value}
    (occurs : Occurs name around fragment) : around ⊆ reservedNames := by
  induction occurs with
  | symbol => exact List.nil_subset _
  | list _ _ induction => exact induction
  | tuple _ _ induction => exact induction
  | expr _ _ induction =>
      exact List.append_subset.mpr ⟨Role.reserved_ofHead_subset _, induction⟩

end Collection

/-- A renaming of one name. -/
def Renaming.single (name target : String) : Renaming := fun found =>
  if found = name then some target else none

theorem Renaming.apply_single (name target : String) :
    (Renaming.single name target).apply name = target :=
  apply_of_some (if_pos rfl)

/-- A name that can be renamed without a change does not occur. -/
theorem not_occurs_of_rename_eq {name target : String} {fragment : Value}
    (different : target ≠ name) (kept : rename (.single name target) fragment = fragment)
    (around : List String) : ¬ Occurs name around fragment := by
  intro occurs
  have same := rename_eq_self_iff.mp kept name around occurs
  rw [Renaming.apply_single] at same
  exact different same

/-- A renaming that renames no variable of a fragment leaves the fragment as it was exactly
when it keeps every name that occurs where the name itself is reserved around; so it does
when it renames no reserved name, and all such renamings do exactly when every name that
occurs so is a variable of the fragment as well. -/
theorem rename_keeps_uncollected_iff (fragment : Value) :
    (∀ names : Renaming, (∀ name ∈ symbols fragment, names name = none) →
      ((rename names fragment = fragment ↔ ∀ name around, Occurs name around fragment →
        name ∈ around → names.apply name = name) ∧
      ((∀ name ∈ reservedNames, names name = none) → rename names fragment = fragment))) ∧
    ((∀ names : Renaming, (∀ name ∈ symbols fragment, names name = none) →
        rename names fragment = fragment) ↔
      ∀ name around, Occurs name around fragment → name ∈ around → name ∈ symbols fragment) := by
  have exact : ∀ names : Renaming, (∀ name ∈ symbols fragment, names name = none) →
      (rename names fragment = fragment ↔ ∀ name around, Occurs name around fragment →
        name ∈ around → names.apply name = name) := by
    intro names uncollected
    rw [rename_eq_self_iff]
    refine forall₃_congr fun name around occurs => ?_
    constructor
    · exact fun keeps _ => keeps
    · intro keeps
      by_cases isReserved : name ∈ around
      · exact keeps isReserved
      · exact Renaming.apply_of_none (uncollected name (occurs.mem_symbols isReserved))
  refine ⟨fun names uncollected => ⟨exact names uncollected, ?_⟩, ?_, ?_⟩
  · intro unreserved
    apply (exact names uncollected).mpr
    intro name around occurs isReserved
    exact Renaming.apply_of_none (unreserved name (occurs.around_subset isReserved))
  · intro all name around occurs isReserved
    by_contra uncollected
    -- A longer name differs, and the only name renamed is no variable.
    have different : name ++ "'" ≠ name := by simp
    have others : ∀ found ∈ symbols fragment, Renaming.single name (name ++ "'") found = none := by
      intro found member
      apply if_neg
      rintro rfl
      exact uncollected member
    exact not_occurs_of_rename_eq different (all _ others) around occurs
  · intro collected names uncollected
    apply (exact names uncollected).mpr
    intro name around occurs isReserved
    exact Renaming.apply_of_none (uncollected name (collected name around occurs isReserved))

/-- The placeholder of a range inside a call in the range. -/
def placeholderInCall : Value :=
  .expr "ref" [.symbol "A", .symbol ":", .expr "call" [.symbol "f", .symbol ":"]]

/-- No variable of the fragment is renamed, and yet the fragment is changed. -/
theorem rename_changes_uncollected :
    symbols placeholderInCall = ["A"] ∧
    (∀ name ∈ symbols placeholderInCall, Renaming.single ":" "x" name = none) ∧
    rename (.single ":" "x") placeholderInCall ≠ placeholderInCall := by
  refine ⟨rfl, by decide, ?_⟩
  have changed : rename (.single ":" "x") placeholderInCall = .expr "ref"
      [.symbol "A", .symbol ":", .expr "call" [.symbol "f", .symbol "x"]] := rfl
  rw [changed, placeholderInCall]
  simp

/-- A renaming of other names leaves that fragment as it was. -/
theorem placeholderInCall_kept :
    rename (.single "f" "g") placeholderInCall = placeholderInCall :=
  ((rename_keeps_uncollected_iff placeholderInCall).1 _ (by decide)).2 (by decide)

end FlowGraph.Fragment
