import Memex.Lib.Replace

/-! # Placeholders in a template

Placeholders are names that stand for values in a template. Substituting one value after the
other looks for the later names in the values of the earlier ones as well; where they are not
found there, it puts every value in the place of its own name at once. -/

namespace Placeholders

open Replace

/-- A symbol of the template itself, or the place of a value. -/
inductive Piece (κ α : Type*) where
  | text (symbol : α)
  | hole (key : κ)
deriving DecidableEq

variable {κ α : Type*} [DecidableEq κ] [DecidableEq α]

/-- The text of pieces, with something put in every hole. -/
def fill (insert : κ → List α) (pieces : List (Piece κ α)) : List α :=
  pieces.flatMap fun piece =>
    match piece with
    | .text symbol => [symbol]
    | .hole key => insert key

/-- The pieces of a template: the names are replaced by holes, in their order. -/
def pieces (name : κ → List α) (order : List κ) (template : List (Piece κ α)) :
    List (Piece κ α) :=
  order.foldl (fun pieces key => replaceAll ((name key).map .text) [.hole key] pieces) template

/-- The values are substituted for their names one after the other. -/
def substitute (name insert : κ → List α) (order : List κ) (template : List α) : List α :=
  order.foldl (fun text key => replaceAll (name key) (insert key) text) template

variable {name insert : κ → List α} {order : List κ} {symbol separator : α} {key : κ}
  {left right template : List (Piece κ α)}

section Fill

omit [DecidableEq κ] [DecidableEq α]

@[simp] theorem fill_nil : fill insert [] = [] := rfl

@[simp] theorem fill_text :
    fill insert (.text symbol :: template) = symbol :: fill insert template := rfl

@[simp] theorem fill_hole :
    fill insert (.hole key :: template) = insert key ++ fill insert template := rfl

theorem fill_append : fill insert (left ++ right) = fill insert left ++ fill insert right :=
  List.flatMap_append

theorem fill_map_text (text : List α) : fill insert (text.map .text) = text := by
  induction text with
  | nil => rfl
  | cons first rest ih => rw [List.map_cons, fill_text, ih]

/-- The name of a hole occurs in the template. -/
theorem infix_of_hole_mem (h : .hole key ∈ template) : name key <:+: fill name template := by
  obtain ⟨before, after, rfl⟩ := List.append_of_mem h
  rw [fill_append, fill_hole, ← List.append_assoc]
  exact List.infix_append _ _ _

end Fill

section Pieces

/-- A hole in the place of its name leaves the text of the template as it is. -/
theorem fill_replaceAll_hole (hname : name key ≠ []) (template : List (Piece κ α)) :
    fill name (replaceAll ((name key).map .text) [.hole key] template) = fill name template := by
  have hne : (name key).map (@Piece.text κ α) ≠ [] := by
    rwa [Ne, List.map_eq_nil_iff]
  induction hlength : template.length using Nat.strong_induction_on generalizing template with
  | _ length ih =>
      by_cases hbegins : (name key).map (@Piece.text κ α) <+: template
      · obtain ⟨rest, rfl⟩ := hbegins
        have hpositive := List.length_pos_iff.mpr hne
        rw [List.length_append] at hlength
        rw [replaceAll_append_self hne, List.singleton_append, fill_hole, fill_append,
          fill_map_text, ih rest.length (by omega) rest rfl]
      · cases template with
        | nil => rfl
        | cons first rest =>
            have hrest := ih rest.length (by rw [← hlength, List.length_cons]; omega) rest rfl
            rw [replaceAll_cons_of_not_begins hbegins]
            cases first with
            | text symbol => rw [fill_text, fill_text, hrest]
            | hole other => rw [fill_hole, fill_hole, hrest]

/-- The pieces of a template spell the template. -/
theorem fill_pieces (hname : ∀ key ∈ order, name key ≠ []) :
    fill name (pieces name order template) = fill name template := by
  induction order generalizing template with
  | nil => rfl
  | cons first rest ih =>
      rw [pieces, List.foldl_cons]
      exact (ih fun key hmem => hname key (List.mem_cons_of_mem _ hmem)).trans
        (fill_replaceAll_hole (hname first List.mem_cons_self) template)

/-- A replacement adds holes of its own name only. -/
theorem hole_mem_replaceAll {other : κ} (hname : name key ≠ [])
    (h : .hole other ∈ replaceAll ((name key).map .text) [.hole key] template) :
    other = key ∨ .hole other ∈ template := by
  have hne : (name key).map (@Piece.text κ α) ≠ [] := by
    rwa [Ne, List.map_eq_nil_iff]
  induction hlength : template.length using Nat.strong_induction_on generalizing template with
  | _ length ih =>
      by_cases hbegins : (name key).map (@Piece.text κ α) <+: template
      · obtain ⟨rest, rfl⟩ := hbegins
        have hpositive := List.length_pos_iff.mpr hne
        rw [List.length_append] at hlength
        rw [replaceAll_append_self hne, List.singleton_append, List.mem_cons] at h
        obtain h | h := h
        · cases h
          exact Or.inl rfl
        · obtain h | h := ih rest.length (by omega) h rfl
          · exact Or.inl h
          · exact Or.inr (List.mem_append_right _ h)
      · cases template with
        | nil => exact absurd h List.not_mem_nil
        | cons first rest =>
            rw [replaceAll_cons_of_not_begins hbegins] at h
            obtain h | h := List.mem_cons.mp h
            · exact Or.inr (List.mem_cons.mpr (Or.inl h))
            · obtain h | h := ih rest.length (by rw [← hlength, List.length_cons]; omega) h rfl
              · exact Or.inl h
              · exact Or.inr (List.mem_cons_of_mem _ h)

end Pieces

section Substitute

/-- A text begins and ends with a separator. -/
def Enclosed (separator : α) (text : List α) : Prop :=
  ∃ within, text = separator :: (within ++ [separator])

omit [DecidableEq κ] [DecidableEq α] in
/-- A name that is found at the start of the filled template is found in the template. -/
theorem prefix_of_prefix_fill {pattern : List α} (hseparator : separator ∉ pattern)
    (henclosed : ∀ key, .hole key ∈ template → Enclosed separator (insert key))
    (h : pattern <+: fill insert template) : pattern.map .text <+: template := by
  induction pattern generalizing template with
  | nil => exact List.nil_prefix
  | cons first rest ih =>
      cases template with
      | nil => exact absurd (List.prefix_nil.mp h) (List.cons_ne_nil _ _)
      | cons piece after =>
          cases piece with
          | text symbol =>
              rw [fill_text, List.cons_prefix_cons] at h
              rw [List.map_cons, h.1, List.cons_prefix_cons]
              refine ⟨rfl, ih (fun hmem => hseparator (List.mem_cons_of_mem _ hmem)) ?_ h.2⟩
              exact fun key hmem => henclosed key (List.mem_cons_of_mem _ hmem)
          | hole key =>
              obtain ⟨within, heq⟩ := henclosed key List.mem_cons_self
              rw [fill_hole, heq, List.cons_append, List.cons_prefix_cons] at h
              exact absurd (h.1 ▸ List.mem_cons_self) hseparator

omit [DecidableEq κ] in
/-- A name does not begin within an enclosed text that does not contain it. -/
theorem replaceAll_append_of_enclosed {pattern replacement text after : List α}
    (hseparator : separator ∉ pattern) (henclosed : Enclosed separator text)
    (hnot : ¬ pattern <:+: text) :
    replaceAll pattern replacement (text ++ after) =
      text ++ replaceAll pattern replacement after := by
  apply replaceAll_append_of_not_begins
  intro rest hrest hne hbegins
  obtain ⟨within, rfl⟩ := henclosed
  obtain ⟨init, last, rfl⟩ : ∃ init last, rest = init ++ [last] :=
    ⟨rest.dropLast, rest.getLast hne, (List.dropLast_append_getLast hne).symm⟩
  have hlast : last = separator := by
    obtain ⟨before, heq⟩ := hrest
    rw [← List.cons_append, ← List.append_assoc] at heq
    exact List.singleton_inj.mp (List.append_inj_right' heq rfl)
  rw [hlast, List.append_assoc, List.singleton_append,
    prefix_append_cons_iff hseparator] at hbegins
  exact hnot ((hbegins.isInfix.trans (List.prefix_append _ _).isInfix).trans hrest.isInfix)

/-- One substitution, where what stands in the holes does not contain the name. -/
theorem replaceAll_fill (hname : name key ≠ []) (hseparator : separator ∉ name key)
    (henclosed : ∀ other, .hole other ∈ template → Enclosed separator (insert other))
    (hnot : ∀ other, .hole other ∈ template → ¬ name key <:+: insert other) :
    replaceAll (name key) (insert key) (fill insert template) =
      fill insert (replaceAll ((name key).map .text) [.hole key] template) := by
  have hne : (name key).map (@Piece.text κ α) ≠ [] := by
    rwa [Ne, List.map_eq_nil_iff]
  induction hlength : template.length using Nat.strong_induction_on generalizing template with
  | _ length ih =>
      by_cases hbegins : (name key).map (@Piece.text κ α) <+: template
      · obtain ⟨rest, rfl⟩ := hbegins
        have hpositive := List.length_pos_iff.mpr hne
        rw [List.length_append] at hlength
        rw [replaceAll_append_self hne, List.singleton_append, fill_hole, fill_append,
          fill_map_text, replaceAll_append_self hname]
        refine congrArg (insert key ++ ·) (ih rest.length (by omega) ?_ ?_ rfl)
        · exact fun other hmem => henclosed other (List.mem_append_right _ hmem)
        · exact fun other hmem => hnot other (List.mem_append_right _ hmem)
      · cases template with
        | nil => rfl
        | cons first rest =>
            have hrest := ih rest.length (by rw [← hlength, List.length_cons]; omega)
              (fun other hmem => henclosed other (List.mem_cons_of_mem _ hmem))
              (fun other hmem => hnot other (List.mem_cons_of_mem _ hmem)) rfl
            rw [replaceAll_cons_of_not_begins hbegins]
            cases first with
            | text symbol =>
                have hbegin : ¬ name key <+: symbol :: fill insert rest :=
                  fun h => hbegins (prefix_of_prefix_fill hseparator henclosed h)
                rw [fill_text, fill_text, replaceAll_cons_of_not_begins hbegin, hrest]
            | hole other =>
                rw [fill_hole, fill_hole, replaceAll_append_of_enclosed hseparator
                  (henclosed other List.mem_cons_self) (hnot other List.mem_cons_self), hrest]

/-- The names of a template that are looked for after a name are not found in its value. -/
def NoneNested (name insert : κ → List α) (order : List κ) (template : List α) : Prop :=
  order.Pairwise fun earlier later =>
    name earlier <:+: template → ¬ name later <:+: insert earlier

/-- Values in which no later name is found are all put in the place of their names. -/
theorem substitute_fill (hname : ∀ key ∈ order, name key ≠ [] ∧ separator ∉ name key)
    (henclosed : ∀ key, name key <:+: fill name template → Enclosed separator (insert key))
    (hnested : NoneNested name insert order (fill name template))
    (hholes : ∀ other, .hole other ∈ template →
      ∀ key ∈ order, ¬ name key <:+: insert other) :
    substitute name insert order (fill insert template) =
      fill insert (pieces name order template) := by
  induction order generalizing template with
  | nil => rfl
  | cons first rest ih =>
      obtain ⟨hne, hsep⟩ := hname first List.mem_cons_self
      obtain ⟨hfirst, hrest⟩ := List.pairwise_cons.mp hnested
      have hspell : fill name (replaceAll ((name first).map .text) [.hole first] template) =
          fill name template := fill_replaceAll_hole hne template
      rw [substitute, pieces, List.foldl_cons, List.foldl_cons,
        replaceAll_fill hne hsep
          (fun other hmem => henclosed other (infix_of_hole_mem hmem))
          (fun other hmem => hholes other hmem first List.mem_cons_self)]
      apply ih
      · exact fun key hmem => hname key (List.mem_cons_of_mem _ hmem)
      · rw [hspell]
        exact henclosed
      · rw [hspell]
        exact hrest
      · intro other hmem key hkey
        obtain rfl | hold := hole_mem_replaceAll hne hmem
        · apply hfirst key hkey
          rw [← hspell]
          exact infix_of_hole_mem hmem
        · exact hholes other hold key (List.mem_cons_of_mem _ hkey)

/-- Values in which no later name is found are all put in the place of their names. -/
theorem substitute_eq_fill {template : List α}
    (hname : ∀ key ∈ order, name key ≠ [] ∧ separator ∉ name key)
    (henclosed : ∀ key, name key <:+: template → Enclosed separator (insert key))
    (hnested : NoneNested name insert order template) :
    substitute name insert order template =
      fill insert (pieces name order (template.map .text)) := by
  have hspell : fill name (template.map (@Piece.text κ α)) = template :=
    fill_map_text template
  have h := @substitute_fill κ α _ _ name insert order separator (template.map .text) hname
    (hspell.symm ▸ henclosed) (hspell.symm ▸ hnested) (by
      intro other hmem
      obtain ⟨_, -, heq⟩ := List.mem_map.mp hmem
      cases heq)
  rwa [fill_map_text] at h

omit [DecidableEq κ] in
/-- A symbol of no name separates the substitutions on both sides. -/
theorem substitute_append_cons
    (hname : ∀ key ∈ order, name key ≠ [] ∧ separator ∉ name key) (left right : List α) :
    substitute name insert order (left ++ separator :: right) =
      substitute name insert order left ++
        separator :: substitute name insert order right := by
  induction order generalizing left right with
  | nil => rfl
  | cons first rest ih =>
      obtain ⟨hne, hsep⟩ := hname first List.mem_cons_self
      rw [substitute, List.foldl_cons, replaceAll_append_cons hne hsep]
      exact ih (fun key hmem => hname key (List.mem_cons_of_mem _ hmem)) _ _

theorem pieces_append_cons
    (hname : ∀ key ∈ order, name key ≠ [] ∧ separator ∉ name key)
    (left right : List (Piece κ α)) :
    pieces name order (left ++ .text separator :: right) =
      pieces name order left ++ .text separator :: pieces name order right := by
  induction order generalizing left right with
  | nil => rfl
  | cons first rest ih =>
      obtain ⟨hne, hsep⟩ := hname first List.mem_cons_self
      rw [pieces, List.foldl_cons, replaceAll_append_cons]
      · exact ih (fun key hmem => hname key (List.mem_cons_of_mem _ hmem)) _ _
      · rwa [Ne, List.map_eq_nil_iff]
      · intro hmem
        obtain ⟨_, hmem, heq⟩ := List.mem_map.mp hmem
        cases heq
        exact hsep hmem

omit [DecidableEq κ] in
/-- A text in which no name is found stays as it is. -/
theorem substitute_of_not_infix {text : List α}
    (h : ∀ key ∈ order, ¬ name key <:+: text) : substitute name insert order text = text := by
  induction order with
  | nil => rfl
  | cons first rest ih =>
      rw [substitute, List.foldl_cons,
        replaceAll_of_not_infix (h first List.mem_cons_self)]
      exact ih fun key hmem => h key (List.mem_cons_of_mem _ hmem)

end Substitute

end Placeholders
