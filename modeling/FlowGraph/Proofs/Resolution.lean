import FlowGraph.Operation.Registry
import FlowGraph.Proofs.FreshNames
import Mathlib.Data.List.Induction

/-!
# Resolution of overloads

A registry is the outcome of the requests that were made of it.  `Selects` says which
operation a call runs by looking at these requests alone: the earliest typed overload
that takes the operands, else the latest overload without types, else a function of the
library.  Registering replaces overloads without types and keeps the typed ones in their
order, so what a registry finds is what its history selects.
-/

namespace FlowGraph

variable {ι : Type}

/-- A request in the history of a registry. -/
inductive Registration (ι : Type) where
  | overload (name : String) (overload : Overload ι)
  | definition (name : String) (value : Value)

/-- The overload that a request gives to a name. -/
def Registration.overloadFor? (name : String) : Registration ι → Option (Overload ι)
  | .overload given found => if given = name then some found else none
  | .definition _ _ => none

/-- The overloads that a history gives to a name, the earliest first. -/
def registered (history : List (Registration ι)) (name : String) : List (Overload ι) :=
  history.filterMap (Registration.overloadFor? name)

theorem registered_append (before after : List (Registration ι)) (name : String) :
    registered (before ++ after) name = registered before name ++ registered after name :=
  List.filterMap_append

theorem registered_cons (request : Registration ι) (after : List (Registration ι)) (name : String) :
    registered (request :: after) name =
      (request.overloadFor? name).toList ++ registered after name := by
  unfold registered
  rw [List.filterMap_cons]
  cases request.overloadFor? name <;> rfl

namespace Registry

def record (registry : Registry ι) : Registration ι → Registry ι
  | .overload name overload => registry.register name overload
  | .definition name value => registry.define name value

/-- The registry that a history makes of one without operations and names. -/
def ofHistory (library : Option (Library ι)) (history : List (Registration ι)) : Registry ι :=
  history.foldl record (empty library)

end Registry

/-- There are as many types as operands, and each operand is of its type. -/
def Overload.Takes (overload : Overload ι) (operands : List Value) : Prop :=
  ∃ types, overload.types = some types ∧
    List.Forall₂ (fun (type : OperandType) operand => type.accepts operand = true) types operands

/-- What a call of a name runs, as the overloads given to the name and the library
decide. -/
inductive Selects (library : Option (Library ι)) (given : List (Overload ι)) (name : String)
    (operands : List Value) : Except Fault ι → Prop where
  | typed {earlier later : List (Overload ι)} {overload : Overload ι}
      (place : given = earlier ++ overload :: later) (takes : overload.Takes operands)
      (earliest : ∀ other ∈ earlier, ¬ other.Takes operands) :
      Selects library given name operands (.ok overload.action)
  | untyped {earlier later : List (Overload ι)} {overload : Overload ι}
      (noneTakes : ∀ other ∈ given, ¬ other.Takes operands)
      (place : given = earlier ++ overload :: later) (untyped : overload.types = none)
      (latest : ∀ other ∈ later, other.types ≠ none) :
      Selects library given name operands (.ok overload.action)
  | member {members : Library ι} {action : ι}
      (noneTakes : ∀ other ∈ given, ¬ other.Takes operands)
      (allTyped : ∀ other ∈ given, other.types ≠ none)
      (behind : library = some members) (identifier : Text.isIdentifier name = true)
      (callable : members name = some (.operation action)) :
      Selects library given name operands (.ok action)
  | unresolved (noneTakes : ∀ other ∈ given, ¬ other.Takes operands)
      (allTyped : ∀ other ∈ given, other.types ≠ none)
      (unknown : ∀ members action, library = some members → Text.isIdentifier name = true →
        members name ≠ some (.operation action)) :
      Selects library given name operands
        (.error (.unresolvedOperation name (operands.map Value.typeName)))

section Overloads

variable {overload : Overload ι} {operands : List Value}

theorem acceptsAll_iff {types : List OperandType} :
    acceptsAll types operands = true ↔
      List.Forall₂ (fun (type : OperandType) operand => type.accepts operand = true)
        types operands := by
  induction types generalizing operands with
  | nil => cases operands <;> simp [acceptsAll]
  | cons type types induction =>
      cases operands with
      | nil => simp [acceptsAll]
      | cons operand operands => simp [acceptsAll, induction]

theorem Overload.matchesOperands_iff :
    overload.matchesOperands operands = true ↔ overload.Takes operands := by
  unfold matchesOperands Takes
  cases overload.types with
  | none => simp
  | some types => simp [acceptsAll_iff]

theorem Overload.isTyped_iff : overload.isTyped = true ↔ overload.types ≠ none := by
  simp [isTyped, Option.isSome_iff_ne_none]

theorem Overload.isTyped_of_matches (taken : overload.matchesOperands operands = true) :
    overload.isTyped = true := by
  obtain ⟨types, typed, _⟩ := matchesOperands_iff.mp taken
  simp [isTyped, typed]

end Overloads

/-- The overloads that are kept of those given: all typed ones, in their order, and the
latest without types before any other such. -/
structure Keeps (given kept : List (Overload ι)) : Prop where
  typed : kept.filter Overload.isTyped = given.filter Overload.isTyped
  untyped : (kept.find? fun overload => !overload.isTyped) =
    given.reverse.find? fun overload => !overload.isTyped

namespace Keeps

variable {given kept : List (Overload ι)}

theorem concat (keeps : Keeps given kept) (overload : Overload ι) :
    Keeps (given ++ [overload])
      ((if overload.isTyped then kept else kept.filter Overload.isTyped) ++ [overload]) := by
  cases typed : overload.isTyped with
  | true =>
      constructor
      · simp [typed, keeps.typed]
      · simp [typed, keeps.untyped, List.find?_append]
  | false =>
      constructor
      · simp [typed, keeps.typed]
      · have noneLeft :
            ((kept.filter Overload.isTyped).find? fun other => !other.isTyped) = none := by
          apply List.find?_eq_none.mpr
          intro other member
          simp [(List.mem_filter.mp member).2]
        simp [typed, noneLeft, List.find?_append]

/-- Only typed overloads take operands, so the first kept one that does is the first
given one. -/
theorem find?_matches (keeps : Keeps given kept) (operands : List Value) :
    (kept.find? fun overload => overload.matchesOperands operands) =
      given.find? fun overload => overload.matchesOperands operands := by
  have amongTyped : ∀ overloads : List (Overload ι),
      (overloads.find? fun overload => overload.matchesOperands operands) =
        (overloads.filter Overload.isTyped).find?
          fun overload => overload.matchesOperands operands := by
    intro overloads
    rw [List.find?_filter]
    congr 1
    funext overload
    apply Bool.eq_iff_iff.mpr
    rw [decide_eq_true_iff]
    constructor
    · intro taken
      exact ⟨Overload.isTyped_of_matches taken, taken⟩
    · intro both
      exact both.2
  rw [amongTyped kept, amongTyped given, keeps.typed]

end Keeps

namespace Registry

variable {library : Option (Library ι)} {history : List (Registration ι)} {name : String}

theorem overloadsOf_register (registry : Registry ι) (given : String) (overload : Overload ι)
    (name : String) :
    (registry.register given overload).overloadsOf name =
      if name = given then
        (if overload.isTyped then registry.overloadsOf given
          else (registry.overloadsOf given).filter Overload.isTyped) ++ [overload]
      else registry.overloadsOf name := by
  unfold register overloadsOf
  rw [lookup_assign]
  split <;> rfl

theorem keeps_record {registry : Registry ι} {given : List (Overload ι)}
    (keeps : Keeps given (registry.overloadsOf name)) (request : Registration ι) :
    Keeps (given ++ (request.overloadFor? name).toList)
      ((registry.record request).overloadsOf name) := by
  cases request with
  | definition defined value =>
      rw [Registration.overloadFor?, Option.toList_none, List.append_nil]
      exact keeps
  | overload registered overload =>
      rw [record, overloadsOf_register]
      by_cases same : registered = name
      · subst same
        simpa [Registration.overloadFor?] using keeps.concat overload
      · simpa [Registration.overloadFor?, same, Ne.symm same] using keeps

theorem ofHistory_concat (library : Option (Library ι)) (history : List (Registration ι))
    (request : Registration ι) :
    ofHistory library (history ++ [request]) = (ofHistory library history).record request :=
  List.foldl_concat record (empty library) request history

/-- The invariant of registering, over a whole history. -/
theorem keeps_ofHistory (library : Option (Library ι)) (history : List (Registration ι))
    (name : String) :
    Keeps (registered history name) ((ofHistory library history).overloadsOf name) := by
  induction history using List.reverseRecOn with
  | nil => exact ⟨rfl, rfl⟩
  | append_singleton earlier request induction =>
      have later := keeps_record induction request
      rw [ofHistory_concat, registered_append, registered_cons]
      simpa [registered] using later

theorem library_ofHistory : (ofHistory library history).library = library := by
  induction history using List.reverseRecOn with
  | nil => rfl
  | append_singleton earlier request induction =>
      rw [ofHistory_concat]
      cases request <;> exact induction

theorem member?_eq_operation {registry : Registry ι} {action : ι} :
    registry.member? name = some (.operation action) ↔
      Text.isIdentifier name = true ∧ ∃ members, registry.library = some members ∧
        members name = some (.operation action) := by
  unfold member?
  split
  · rename_i identifier
    simp [identifier, Option.bind_eq_some_iff]
  · rename_i other
    simp [other]

section Lists

variable {given : List (Overload ι)} {operands : List Value}

theorem find?_matches_eq_some {overload : Overload ι} :
    (given.find? fun other => other.matchesOperands operands) = some overload ↔
      overload.Takes operands ∧ ∃ earlier later, given = earlier ++ overload :: later ∧
        ∀ other ∈ earlier, ¬ other.Takes operands := by
  simp [List.find?_eq_some_iff_append, ← Overload.matchesOperands_iff]

theorem find?_matches_eq_none :
    (given.find? fun other => other.matchesOperands operands) = none ↔
      ∀ other ∈ given, ¬ other.Takes operands := by
  simp [List.find?_eq_none, ← Overload.matchesOperands_iff]

theorem find?_untyped_eq_some {overload : Overload ι} :
    (given.reverse.find? fun other => !other.isTyped) = some overload ↔
      overload.types = none ∧ ∃ earlier later, given = earlier ++ overload :: later ∧
        ∀ other ∈ later, other.types ≠ none := by
  rw [List.find?_eq_some_iff_append]
  simp only [Bool.not_not, ← Overload.isTyped_iff]
  constructor
  · rintro ⟨untyped, later, earlier, place, typed⟩
    refine ⟨by simpa [Overload.isTyped] using untyped, earlier.reverse, later.reverse, ?_, ?_⟩
    · simpa using congrArg List.reverse place
    · intro other member
      exact typed other (List.mem_reverse.mp member)
  · rintro ⟨untyped, earlier, later, place, typed⟩
    refine ⟨by simp [Overload.isTyped, untyped], later.reverse, earlier.reverse, ?_, ?_⟩
    · simp [place]
    · intro other member
      exact typed other (List.mem_reverse.mp member)

theorem find?_untyped_eq_none :
    (given.reverse.find? fun other => !other.isTyped) = none ↔
      ∀ other ∈ given, other.types ≠ none := by
  simp [List.find?_eq_none, ← Overload.isTyped_iff]

end Lists

theorem selects_resolve (library : Option (Library ι)) (history : List (Registration ι))
    (name : String) (operands : List Value) :
    Selects library (registered history name) name operands
      ((ofHistory library history).resolve name operands) := by
  have keeps := keeps_ofHistory library history name
  unfold resolve
  simp only [keeps.find?_matches operands, keeps.untyped]
  cases taken : (registered history name).find?
      fun overload => overload.matchesOperands operands with
  | some overload =>
      obtain ⟨takes, earlier, later, place, earliest⟩ := find?_matches_eq_some.mp taken
      exact .typed place takes earliest
  | none =>
      have noneTakes := find?_matches_eq_none.mp taken
      cases last : (registered history name).reverse.find? fun overload => !overload.isTyped with
      | some overload =>
          obtain ⟨untyped, earlier, later, place, latest⟩ := find?_untyped_eq_some.mp last
          exact .untyped noneTakes place untyped latest
      | none =>
          have allTyped := find?_untyped_eq_none.mp last
          dsimp only
          split
          · rename_i action found
            obtain ⟨identifier, members, behind, callable⟩ := member?_eq_operation.mp found
            rw [library_ofHistory] at behind
            exact .member noneTakes allTyped behind identifier callable
          · rename_i unknown
            apply Selects.unresolved noneTakes allTyped
            intro members action behind identifier callable
            apply unknown action
            apply member?_eq_operation.mpr
            rw [library_ofHistory]
            exact ⟨identifier, members, behind, callable⟩

theorem resolve_of_selects {operands : List Value} {result : Except Fault ι}
    (selects : Selects library (registered history name) name operands result) :
    (ofHistory library history).resolve name operands = result := by
  have keeps := keeps_ofHistory library history name
  unfold resolve
  simp only [keeps.find?_matches operands, keeps.untyped]
  cases selects with
  | typed place takes earliest =>
      rw [find?_matches_eq_some.mpr ⟨takes, _, _, place, earliest⟩]
  | untyped noneTakes place untyped latest =>
      rw [find?_matches_eq_none.mpr noneTakes,
        find?_untyped_eq_some.mpr ⟨untyped, _, _, place, latest⟩]
  | member noneTakes allTyped behind identifier callable =>
      have found := member?_eq_operation.mpr
        ⟨identifier, _, (@library_ofHistory _ library history).trans behind, callable⟩
      rw [find?_matches_eq_none.mpr noneTakes, find?_untyped_eq_none.mpr allTyped]
      simp only [found]
  | unresolved noneTakes allTyped unknown =>
      rw [find?_matches_eq_none.mpr noneTakes, find?_untyped_eq_none.mpr allTyped]
      dsimp only
      split
      · rename_i action found
        obtain ⟨identifier, members, behind, callable⟩ := member?_eq_operation.mp found
        rw [library_ofHistory] at behind
        exact absurd callable (unknown members action behind identifier)
      · rfl

/-- A registry finds what its history selects. -/
theorem resolve_eq_iff_selects {operands : List Value} {result : Except Fault ι} :
    (ofHistory library history).resolve name operands = result ↔
      Selects library (registered history name) name operands result :=
  ⟨fun resolved => resolved ▸ selects_resolve library history name operands, resolve_of_selects⟩

/-- What a registry finds is decided by the requests of its history.  Requests that give
nothing to a name do not matter for it, wherever they stand, and an overload without types
leaves the typed ones as they are. -/
theorem resolution_follows_history (library : Option (Library ι)) (name : Value)
    (operands : List Value) :
    (∀ history result, (ofHistory library history).resolve name.plain operands = result ↔
      Selects library (registered history name.plain) name.plain operands result) ∧
    (∀ before after request, request.overloadFor? name.plain = none →
      (ofHistory library (before ++ request :: after)).resolve name.plain operands =
        (ofHistory library (before ++ after)).resolve name.plain operands) ∧
    ∀ before after given overload, overload.types = none →
      ((ofHistory library (before ++ .overload given overload :: after)).overloadsOf
          name.plain).filter Overload.isTyped =
        ((ofHistory library (before ++ after)).overloadsOf name.plain).filter
          Overload.isTyped := by
  refine ⟨fun history result => resolve_eq_iff_selects, ?_, ?_⟩
  · intro before after request nothing
    apply resolve_eq_iff_selects.mpr
    have same : registered (before ++ request :: after) name.plain =
        registered (before ++ after) name.plain := by
      simp [registered_append, registered_cons, nothing]
    rw [same]
    exact resolve_eq_iff_selects.mp rfl
  · intro before after given overload untyped
    rw [(keeps_ofHistory _ _ _).typed, (keeps_ofHistory _ _ _).typed]
    have dropped : (((Registration.overload given overload).overloadFor?
        name.plain).toList).filter Overload.isTyped = [] := by
      by_cases same : given = name.plain <;>
        simp [Registration.overloadFor?, same, Overload.isTyped, untyped]
    simp [registered_append, registered_cons, dropped]

end Registry

section Sample

/-- Overloads of one name around requests that do not concern it. -/
def mixedHistory : List (Registration String) :=
  [.overload "f" ⟨none, "first"⟩, .overload "f" ⟨some [.int], "whole"⟩, .definition "f" .null,
    .overload "g" ⟨none, "other"⟩, .overload "f" ⟨some [.bool], "flag"⟩,
    .overload "f" ⟨none, "second"⟩]

def smallLibrary : Library String
  | "sin" => some (.operation "sine")
  | "half" => some (.value (.bool true))
  | _ => none

theorem mixedHistory_resolves :
    Selects (some smallLibrary) (registered mixedHistory "f") "f" [.bool true] (.ok "whole") ∧
    Selects (some smallLibrary) (registered mixedHistory "f") "f" [.null] (.ok "second") ∧
    Selects (some smallLibrary) (registered mixedHistory "sin") "sin" [.null] (.ok "sine") ∧
    Selects (some smallLibrary) (registered mixedHistory "half") "half" [.null]
      (.error (.unresolvedOperation "half" ["NoneType"])) ∧
    (Registry.ofHistory (some smallLibrary)
      ([.overload "g" ⟨none, "other"⟩] ++ .definition "f" .null :: mixedHistory)).resolve "f" [] =
        .ok "second" ∧
    (((Registry.ofHistory (some smallLibrary)
      (mixedHistory ++ [.overload "f" ⟨none, "third"⟩])).overloadsOf "f").filter
        Overload.isTyped).map Overload.action = ["whole", "flag"] := by
  refine ⟨?_, ?_, ?_, ?_, ?_, ?_⟩
  · exact ((Registry.resolution_follows_history _ (.text "f") _).1 mixedHistory _).mp rfl
  · exact ((Registry.resolution_follows_history _ (.text "f") _).1 mixedHistory _).mp rfl
  · exact ((Registry.resolution_follows_history _ (.symbol "sin") _).1 mixedHistory _).mp rfl
  · exact ((Registry.resolution_follows_history _ (.text "half") _).1 mixedHistory _).mp rfl
  · exact ((Registry.resolution_follows_history _ (.text "f") _).2.1 _ _ _ rfl).trans rfl
  · have kept := (Registry.resolution_follows_history (some smallLibrary) (.text "f") []).2.2
      mixedHistory [] "f" ⟨none, "third"⟩ rfl
    exact (congrArg (List.map Overload.action) kept).trans rfl

end Sample

end FlowGraph
