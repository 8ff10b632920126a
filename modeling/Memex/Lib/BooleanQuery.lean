import Mathlib.Data.List.Basic

/-! # Boolean queries

A query is built from terms with clauses that must, should or must not hold. Which terms hold of
a document is left open. -/

namespace BooleanQuery

inductive Occur where
  | must
  | should
  | mustNot
  deriving DecidableEq, Repr

/-- A tree of clauses over the terms. -/
inductive Query (Term : Type*) where
  | all
  | empty
  | term (term : Term)
  | boolean (clauses : List (Occur × Query Term))

variable {Term : Type*} (holds : Term → Bool)

/-- All of some queries. -/
def Query.must (queries : List (Query Term)) : Query Term :=
  .boolean (queries.map fun query => (.must, query))

/-- Some of some queries. -/
def Query.should (queries : List (Query Term)) : Query Term :=
  .boolean (queries.map fun query => (.should, query))

/-- Whether some clause must hold. -/
def hasMust (clauses : List (Occur × Query Term)) : Bool :=
  clauses.any fun clause => clause.1 = .must

mutual

/-- No clause may fail, and where none must hold, one that should hold does. -/
def accepts : Query Term → Bool
  | .all => true
  | .empty => false
  | .term term => holds term
  | .boolean clauses =>
      acceptsStrict clauses && (hasMust clauses || acceptsShould clauses)

/-- The clauses that must and that must not hold. -/
def acceptsStrict : List (Occur × Query Term) → Bool
  | [] => true
  | (occur, query) :: rest =>
      (match occur with
        | .must => accepts query
        | .should => true
        | .mustNot => !accepts query) && acceptsStrict rest

/-- Some of the clauses that should hold. -/
def acceptsShould : List (Occur × Query Term) → Bool
  | [] => false
  | (occur, query) :: rest => (occur = .should && accepts query) || acceptsShould rest

end

variable {holds}

@[simp] theorem accepts_all : accepts holds (.all : Query Term) = true := by
  rw [accepts]

@[simp] theorem accepts_empty : accepts holds (.empty : Query Term) = false := by
  rw [accepts]

@[simp] theorem accepts_term (term : Term) : accepts holds (.term term) = holds term := by
  rw [accepts]

theorem acceptsStrict_must (queries : List (Query Term)) :
    acceptsStrict holds (queries.map fun query => (.must, query)) =
      queries.all (accepts holds) := by
  induction queries with
  | nil => rw [List.map_nil, acceptsStrict, List.all_nil]
  | cons query rest ih => rw [List.map_cons, acceptsStrict, ih, List.all_cons]

theorem acceptsStrict_should (queries : List (Query Term)) :
    acceptsStrict holds (queries.map fun query => (.should, query)) = true := by
  induction queries with
  | nil => rw [List.map_nil, acceptsStrict]
  | cons query rest ih => rw [List.map_cons, acceptsStrict, ih, Bool.true_and]

theorem acceptsShould_should (queries : List (Query Term)) :
    acceptsShould holds (queries.map fun query => (.should, query)) =
      queries.any (accepts holds) := by
  induction queries with
  | nil => rw [List.map_nil, acceptsShould, List.any_nil]
  | cons query rest ih =>
      rw [List.map_cons, acceptsShould, ih, List.any_cons, decide_eq_true rfl, Bool.true_and]

/-- Clauses that must hold are a conjunction. -/
theorem accepts_must (queries : List (Query Term)) (hne : queries ≠ []) :
    accepts holds (.must queries) = queries.all (accepts holds) := by
  have hmust : hasMust (queries.map fun query => (Occur.must, query)) = true := by
    obtain ⟨query, hmem⟩ := List.exists_mem_of_ne_nil _ hne
    rw [hasMust, List.any_map, List.any_eq_true]
    exact ⟨query, hmem, rfl⟩
  rw [Query.must, accepts, hmust, Bool.true_or, Bool.and_true, acceptsStrict_must]

/-- Clauses that should hold are a disjunction. -/
theorem accepts_should (queries : List (Query Term)) :
    accepts holds (.should queries) = queries.any (accepts holds) := by
  have hmust : hasMust (queries.map fun query => (Occur.should, query)) = false := by
    rw [hasMust, List.any_map, List.any_eq_false]
    intro query _ hfalse
    simp at hfalse
  rw [Query.should, accepts, hmust, acceptsStrict_should, acceptsShould_should, Bool.true_and,
    Bool.false_or]

end BooleanQuery
