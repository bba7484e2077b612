import FlowGraph.Naming
import Mathlib.Algebra.Group.Nat.Defs
import Mathlib.Data.List.Nodup
import Mathlib.Data.Set.Basic

/-!
# Collisions of fresh names

A counter numbers the names of every radix on its own, and a name is the radix
followed by the number.  Two requests therefore receive one name exactly when one
radix is the other one followed by a numeral: the eleventh name of `x` is the first
name of `x1`.  `NameCounter.nodup_names_iff` says for which runs, and for which sets of
radices, all names are different.
-/

namespace FlowGraph

section Numerals

theorem toList_toString (number : Nat) : (toString number).toList = Nat.toDigits 10 number := by
  rw [Nat.toString_eq_ofList_toDigits, String.toList_ofList]

theorem toDigits_injective {number other : Nat}
    (same : Nat.toDigits 10 number = Nat.toDigits 10 other) : number = other := by
  have read := congrArg (fun digits => Nat.ofDigitChars 10 digits 0) same
  simpa only [Nat.ofDigitChars_ten_toDigits] using read

/-- The first digits of a positive number are the digits of a positive number. -/
theorem exists_number_of_leading {number : Nat} (positive : 0 < number) {digits : List Char}
    (leading : digits <+: Nat.toDigits 10 number) (nonempty : digits ≠ []) :
    ∃ lead, 0 < lead ∧ digits = Nat.toDigits 10 lead := by
  induction number using Nat.strongRecOn with
  | ind number induction =>
      by_cases small : number < 10
      · rw [Nat.toDigits_of_lt_base small, ← List.nil_append [_], List.prefix_concat_iff,
          List.prefix_nil] at leading
        have whole := leading.resolve_right nonempty
        exact ⟨number, positive, whole.trans (Nat.toDigits_of_lt_base small).symm⟩
      · have large : 10 ≤ number := Nat.le_of_not_lt small
        rw [Nat.toDigits_of_base_le (by decide) large, List.prefix_concat_iff,
          ← Nat.toDigits_of_base_le (by decide) large] at leading
        rcases leading with whole | shorter
        · exact ⟨number, positive, whole⟩
        · exact induction (number / 10) (by omega) (by omega) shorter

/-- The number whose numeral is one numeral followed by another. -/
def joinedNumber (lead number : Nat) : Nat :=
  lead * 10 ^ (toString number).length + number

theorem toDigits_append {lead : Nat} (positive : 0 < lead) (number : Nat) :
    Nat.toDigits 10 lead ++ Nat.toDigits 10 number =
      Nat.toDigits 10 (lead * 10 ^ (Nat.toDigits 10 number).length + number) := by
  induction number using Nat.strongRecOn with
  | ind number induction =>
      by_cases small : number < 10
      · rw [Nat.toDigits_append_toDigits (by decide) positive small,
          Nat.toDigits_of_lt_base small, List.length_singleton, Nat.pow_one, Nat.mul_comm]
      · -- the last digit is split off on both sides
        have large : 10 ≤ number := Nat.le_of_not_lt small
        have digits := Nat.toDigits_of_base_le (b := 10) (by decide) large
        have joined : lead * 10 ^ (Nat.toDigits 10 number).length + number =
            10 * (lead * 10 ^ (Nat.toDigits 10 (number / 10)).length + number / 10) +
              number % 10 := by
          rw [digits, List.length_append, List.length_singleton, Nat.pow_succ, Nat.mul_add,
            Nat.add_assoc, Nat.div_add_mod, ← Nat.mul_assoc, Nat.mul_comm]
        have first : 0 < lead * 10 ^ (Nat.toDigits 10 (number / 10)).length + number / 10 :=
          Nat.add_pos_right _ (Nat.div_pos large (by decide))
        rw [joined, ← Nat.toDigits_append_toDigits (by decide) first (Nat.mod_lt _ (by decide)),
          ← induction (number / 10) (by omega), digits,
          Nat.toDigits_of_lt_base (Nat.mod_lt _ (by decide)), List.append_assoc]

theorem toString_joinedNumber {lead : Nat} (positive : 0 < lead) (number : Nat) :
    toString (joinedNumber lead number) = toString lead ++ toString number := by
  apply String.toList_injective
  rw [String.toList_append, toList_toString, toList_toString, toList_toString,
    toDigits_append positive, joinedNumber, ← String.length_toList, toList_toString]

/-- A name is read in two ways when the longer radix is the shorter one followed by
the first digits of the other number. -/
theorem exists_lead_of_append_eq {radix other : String} {number larger : Nat}
    (positive : 0 < larger) (same : radix ++ toString number = other ++ toString larger)
    (longer : other.toList <+: radix.toList) :
    (radix = other ∧ number = larger) ∨
      ∃ lead, 0 < lead ∧ radix = other ++ toString lead ∧ larger = joinedNumber lead number := by
  obtain ⟨digits, extended⟩ := longer
  have split : digits ++ Nat.toDigits 10 number = Nat.toDigits 10 larger := by
    have lists := congrArg String.toList same
    rw [String.toList_append, String.toList_append, toList_toString, toList_toString,
      ← extended, List.append_assoc] at lists
    exact List.append_cancel_left lists
  by_cases nonempty : digits = []
  · subst nonempty
    left
    constructor
    · apply String.toList_injective
      rw [← extended, List.append_nil]
    · exact toDigits_injective split
  · right
    obtain ⟨lead, counted, rfl⟩ := exists_number_of_leading positive ⟨_, split⟩ nonempty
    refine ⟨lead, counted, ?_, ?_⟩
    · apply String.toList_injective
      rw [String.toList_append, toList_toString, extended]
    · apply toDigits_injective
      rw [← split, ← toList_toString, ← toList_toString, ← toList_toString,
        toString_joinedNumber counted, String.toList_append]

end Numerals

theorem lookup_cons_ite {α : Type} (key other : String) (value : α) (rest : List (String × α)) :
    ((key, value) :: rest).lookup other = if other = key then some value else rest.lookup other := by
  by_cases same : other = key
  · subst same
    simp
  · have different : (other == key) = false := beq_eq_false_iff_ne.mpr same
    simp [List.lookup_cons, different, same]

theorem lookup_assign {α : Type} (key other : String) (value : α) (table : List (String × α)) :
    (assign key value table).lookup other =
      if other = key then some value else table.lookup other := by
  induction table with
  | nil => exact lookup_cons_ite key other value []
  | cons entry rest induction =>
      obtain ⟨name, old⟩ := entry
      rw [assign]
      by_cases here : name = key
      · subst here
        rw [if_pos rfl, lookup_cons_ite, lookup_cons_ite]
        split <;> rfl
      · rw [if_neg here, lookup_cons_ite, lookup_cons_ite, induction]
        by_cases found : other = name
        · subst found
          rw [if_pos rfl, if_neg here, if_pos rfl]
        · rw [if_neg found, if_neg found]

namespace NameCounter

/-- The names that a run of requests hands out, one for every requested radix. -/
def names : NameCounter → List String → List String
  | _, [] => []
  | counter, radix :: requests =>
      (counter.next radix).2 :: (counter.next radix).1.names requests

/-- A run of requests hands out the name of a radix with this number. -/
def Issues (counter : NameCounter) (requests : List String) (radix : String) (number : Nat) :
    Prop :=
  counter.count radix < number ∧ number ≤ counter.count radix + requests.count radix

instance (counter : NameCounter) (requests : List String) (radix : String) (number : Nat) :
    Decidable (counter.Issues requests radix number) :=
  inferInstanceAs (Decidable (_ ∧ _))

variable {counter : NameCounter} {requests : List String}

theorem count_next (counter : NameCounter) (radix other : String) :
    (counter.next radix).1.count other =
      if other = radix then counter.count radix + 1 else counter.count other := by
  unfold count next
  rw [lookup_assign]
  split <;> rfl

theorem Issues.positive {radix : String} {number : Nat}
    (issues : counter.Issues requests radix number) : 0 < number :=
  Nat.zero_lt_of_lt issues.1

theorem Issues.requested {radix : String} {number : Nat}
    (issues : counter.Issues requests radix number) : radix ∈ requests := by
  apply List.count_pos_iff.mp
  have above := issues.1
  have below := issues.2
  omega

/-- A run hands out the next number of the first radix, and then what is handed out
by the rest of the run. -/
theorem issues_cons {first radix : String} {number : Nat} :
    counter.Issues (first :: requests) radix number ↔
      (radix = first ∧ number = counter.count first + 1) ∨
        (counter.next first).1.Issues requests radix number := by
  unfold Issues
  rw [count_next, List.count_cons]
  by_cases same : radix = first
  · subst same
    simp only [beq_self_eq_true, if_true, true_and]
    omega
  · have different : (first == radix) = false := beq_eq_false_iff_ne.mpr (Ne.symm same)
    simp only [same, different, if_false, false_and, false_or]
    simp

theorem mem_names {name : String} :
    name ∈ counter.names requests ↔
      ∃ radix number, counter.Issues requests radix number ∧ name = radix ++ toString number := by
  induction requests generalizing counter with
  | nil =>
      constructor
      · intro member
        cases member
      · rintro ⟨radix, number, ⟨above, below⟩, _⟩
        exact absurd above (Nat.not_lt.mpr below)
  | cons first requests induction =>
      rw [names, List.mem_cons, induction]
      constructor
      · rintro (here | ⟨radix, number, issues, named⟩)
        · exact ⟨first, counter.count first + 1, issues_cons.mpr (.inl ⟨rfl, rfl⟩), here⟩
        · exact ⟨radix, number, issues_cons.mpr (.inr issues), named⟩
      · rintro ⟨radix, number, issues, named⟩
        rcases issues_cons.mp issues with ⟨rfl, rfl⟩ | later
        · exact .inl named
        · exact .inr ⟨radix, number, later, named⟩

/-- The names of a run are different when no two of its numbered radices give the
same text. -/
theorem nodup_names_iff_injective :
    (counter.names requests).Nodup ↔
      ∀ radix number other larger, counter.Issues requests radix number →
        counter.Issues requests other larger →
        radix ++ toString number = other ++ toString larger → radix = other ∧ number = larger := by
  induction requests generalizing counter with
  | nil =>
      constructor
      · intro _ radix number _ _ issues
        exact absurd issues.1 (Nat.not_lt.mpr issues.2)
      · intro _
        exact List.nodup_nil
  | cons first requests induction =>
      rw [names, List.nodup_cons, induction, mem_names]
      constructor
      · intro ⟨unused, injective⟩ radix number other larger issues issuesOther same
        rcases issues_cons.mp issues with ⟨rfl, rfl⟩ | later
        · rcases issues_cons.mp issuesOther with ⟨rfl, rfl⟩ | laterOther
          · exact ⟨rfl, rfl⟩
          · exact absurd ⟨other, larger, laterOther, same⟩ unused
        · rcases issues_cons.mp issuesOther with ⟨rfl, rfl⟩ | laterOther
          · exact absurd ⟨radix, number, later, same.symm⟩ unused
          · exact injective radix number other larger later laterOther same
      · intro injective
        constructor
        · rintro ⟨radix, number, later, same⟩
          obtain ⟨rfl, rfl⟩ := injective first (counter.count first + 1) radix number
            (issues_cons.mpr (.inl ⟨rfl, rfl⟩)) (issues_cons.mpr (.inr later)) same
          have above := later.1
          rw [count_next, if_pos rfl] at above
          exact absurd above (Nat.lt_irrefl _)
        · intro radix number other larger later laterOther
          exact injective radix number other larger (issues_cons.mpr (.inr later))
            (issues_cons.mpr (.inr laterOther))

/-- Two names collide when one radix is the other one followed by the first digits of
the larger number. -/
theorem nodup_names_iff_joined :
    (counter.names requests).Nodup ↔
      ∀ radix lead number, 0 < lead → counter.Issues requests (radix ++ toString lead) number →
        ¬ counter.Issues requests radix (joinedNumber lead number) := by
  rw [nodup_names_iff_injective]
  constructor
  · intro injective radix lead number positive issues issuesJoined
    have same : radix ++ toString lead ++ toString number =
        radix ++ toString (joinedNumber lead number) := by
      rw [toString_joinedNumber positive, String.append_assoc]
    have smaller := (injective _ _ _ _ issues issuesJoined same).2
    have power : 0 < 10 ^ (toString number).length := Nat.pow_pos (by decide)
    have grown : 0 < lead * 10 ^ (toString number).length := Nat.mul_pos positive power
    unfold joinedNumber at smaller
    omega
  · intro apart radix number other larger issues issuesOther same
    have lists := congrArg String.toList same
    rw [String.toList_append, String.toList_append] at lists
    rcases List.prefix_or_prefix_of_prefix (List.prefix_append radix.toList _)
      (lists ▸ List.prefix_append other.toList _) with shorter | longer
    · rcases exists_lead_of_append_eq issues.positive same.symm shorter with equal | joined
      · exact ⟨equal.1.symm, equal.2.symm⟩
      · obtain ⟨lead, positive, rfl, rfl⟩ := joined
        exact absurd issues (apart radix lead larger positive issuesOther)
    · rcases exists_lead_of_append_eq issuesOther.positive same longer with equal | joined
      · exact equal
      · obtain ⟨lead, positive, rfl, rfl⟩ := joined
        exact absurd issuesOther (apart other lead number positive issues)

/-- A radix and the same radix followed by a numeral collide in some run. -/
theorem exists_collision (counter : NameCounter) (radix : String) {lead : Nat}
    (positive : 0 < lead) :
    ∃ requests : List String,
      (∀ request ∈ requests, request = radix ∨ request = radix ++ toString lead) ∧
        ¬ (counter.names requests).Nodup := by
  -- far enough above both counts that neither number was handed out before
  let number := counter.count (radix ++ toString lead) + counter.count radix + 1
  let requests := List.replicate number (radix ++ toString lead) ++
    List.replicate (joinedNumber lead number) radix
  have issues : counter.Issues requests (radix ++ toString lead) number := by
    constructor
    · omega
    · rw [List.count_append, List.count_replicate_self]
      omega
  have issuesJoined : counter.Issues requests radix (joinedNumber lead number) := by
    constructor
    · unfold joinedNumber
      omega
    · rw [List.count_append, List.count_replicate_self]
      omega
  refine ⟨requests, ?_, ?_⟩
  · intro request member
    rcases List.mem_append.mp member with longer | shorter
    · exact .inr (List.eq_of_mem_replicate longer)
    · exact .inl (List.eq_of_mem_replicate shorter)
  · intro distinct
    exact nodup_names_iff_joined.mp distinct radix lead number positive issues issuesJoined

/-- The names of a run are pairwise different unless it numbers a radix followed by a
numeral, and the radix itself up to the number that joins the two.  Every run over a set
of radices has different names exactly when no radix of the set is another one
followed by a positive numeral. -/
theorem nodup_names_iff (counter : NameCounter) :
    (∀ requests, (counter.names requests).Nodup ↔
      ∀ radix lead number, 0 < lead → counter.Issues requests (radix ++ toString lead) number →
        ¬ counter.Issues requests radix (joinedNumber lead number)) ∧
    ∀ radices : Set String,
      (∀ requests, (∀ radix ∈ requests, radix ∈ radices) → (counter.names requests).Nodup) ↔
        ∀ radix ∈ radices, ∀ lead, 0 < lead → radix ++ toString lead ∉ radices := by
  refine ⟨fun requests => nodup_names_iff_joined, fun radices => ?_⟩
  constructor
  · intro distinct radix member lead positive numbered
    obtain ⟨requests, both, collides⟩ := exists_collision counter radix positive
    apply collides
    apply distinct
    intro request requested
    rcases both request requested with rfl | rfl
    · exact member
    · exact numbered
  · intro apart requests within
    rw [nodup_names_iff_joined]
    intro radix lead number positive issues issuesJoined
    exact apart radix (within radix issuesJoined.requested) lead positive
      (within _ issues.requested)

/-- The first name of `x1` is the eleventh name of `x`. -/
theorem names_collide :
    ¬ (NameCounter.start.names ("x1" :: List.replicate 11 "x")).Nodup := by
  rw [nodup_names_iff_joined]
  intro apart
  exact apart "x" 1 1 (by decide) (by decide) (by decide)

end NameCounter

end FlowGraph
