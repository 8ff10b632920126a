import Mathlib.Data.List.Sort

/-! # What the order of arrival leaves its mark on

Two lists of the same entries, sorted by one order that leaves ties, differ at most in the
order of their ties. What is kept of them, the first so many entries, is the same exactly if
the ties that reach into it stand in the same order. Pieces that are put together in any order
give one list exactly if each two of them do. -/

namespace StableOrder

variable {α : Type*}

/-- Neither of two entries has to stand before the other. -/
def Tied (r : α → α → Prop) (left right : α) : Prop := r left right ∧ r right left

/-- An entry has to stand before another one. -/
def Before (r : α → α → Prop) (left right : α) : Prop := r left right ∧ ¬ r right left

section Relations

variable {r : α → α → Prop} {entry other third : α}

theorem Tied.symm (h : Tied r entry other) : Tied r other entry := ⟨h.2, h.1⟩

theorem Tied.trans [IsTrans α r] (h : Tied r entry other) (h' : Tied r other third) :
    Tied r entry third :=
  ⟨IsTrans.trans _ _ _ h.1 h'.1, IsTrans.trans _ _ _ h'.2 h.2⟩

theorem tied_refl [Std.Total r] : Tied r entry entry := by
  have h : r entry entry := or_self_iff.mp (Std.Total.total entry entry)
  exact ⟨h, h⟩

/-- What stands before an entry stands before its ties. -/
theorem Before.trans_tied [IsTrans α r] (h : Before r third entry) (h' : Tied r entry other) :
    Before r third other :=
  ⟨IsTrans.trans _ _ _ h.1 h'.1, fun hback => h.2 (IsTrans.trans _ _ _ h'.1 hback)⟩

end Relations

variable {r : α → α → Prop} [DecidableRel r]

instance (left right : α) : Decidable (Tied r left right) :=
  inferInstanceAs (Decidable (_ ∧ _))

instance (left right : α) : Decidable (Before r left right) :=
  inferInstanceAs (Decidable (_ ∧ _))

variable (r) in
/-- The entries of a list that are tied with a given one. -/
def ties (entry : α) (entries : List α) : List α :=
  entries.filter fun other => decide (Tied r other entry)

variable (r) in
/-- How many entries of a list have to stand before a given one. -/
def countBefore (entry : α) (entries : List α) : Nat :=
  entries.countP fun other => decide (Before r other entry)

variable {entries left right : List α} {entry other : α}

theorem mem_ties : other ∈ ties r entry entries ↔ other ∈ entries ∧ Tied r other entry := by
  rw [ties, List.mem_filter, decide_eq_true_eq]

theorem ties_cons_of_tied (h : Tied r other entry) :
    ties r entry (other :: entries) = other :: ties r entry entries :=
  List.filter_cons_of_pos (decide_eq_true h)

theorem ties_cons_of_not_tied (h : ¬ Tied r other entry) :
    ties r entry (other :: entries) = ties r entry entries :=
  List.filter_cons_of_neg (by rw [decide_eq_true_eq]; exact h)

theorem countBefore_cons_of_before (h : Before r other entry) :
    countBefore r entry (other :: entries) = countBefore r entry entries + 1 := by
  rw [countBefore, List.countP_cons, if_pos (decide_eq_true h)]
  rfl

theorem countBefore_cons_le :
    countBefore r entry (other :: entries) ≤ countBefore r entry entries + 1 := by
  rw [countBefore, List.countP_cons]
  split
  · exact Nat.le_refl _
  · exact Nat.le_succ _

theorem perm_countBefore (h : left.Perm right) : countBefore r entry left =
    countBefore r entry right :=
  h.countP_eq _

/-- In a sorted list nothing stands before the first entry. -/
theorem countBefore_head (h : (entry :: entries).Pairwise r) :
    countBefore r entry (entry :: entries) = 0 := by
  rw [countBefore, List.countP_eq_zero]
  intro other hmem hbefore
  rw [decide_eq_true_eq] at hbefore
  obtain rfl | hrest := List.mem_cons.mp hmem
  · exact hbefore.2 hbefore.1
  · exact hbefore.2 (List.rel_of_pairwise_cons h hrest)

/-- Tied entries have the same entries before them. -/
theorem countBefore_congr [IsTrans α r] (h : Tied r entry other) :
    countBefore r entry entries = countBefore r other entries := by
  apply List.countP_congr
  intro third _
  rw [decide_eq_true_eq, decide_eq_true_eq]
  exact ⟨fun hbefore => hbefore.trans_tied h, fun hbefore => hbefore.trans_tied h.symm⟩

/-- Tied entries have the same ties. -/
theorem ties_congr [IsTrans α r] (h : Tied r entry other) :
    ties r entry entries = ties r other entries := by
  apply List.filter_congr
  intro third _
  rw [decide_eq_decide]
  exact ⟨fun hthird => hthird.trans h, fun hthird => hthird.trans h.symm⟩

section Total

variable [Std.Total r] [IsTrans α r]

omit [Std.Total r] in
/-- Sorting leaves tied entries in their order. -/
theorem ties_insertionSort :
    ties r entry (entries.insertionSort r) = ties r entry entries := by
  have hpairwise : (ties r entry entries).Pairwise r := by
    apply List.pairwise_of_forall_mem_list
    intro first hfirst second hsecond
    exact (mem_ties.mp hfirst).2.trans (mem_ties.mp hsecond).2.symm |>.1
  have hsublist : (ties r entry entries).Sublist (entries.insertionSort r) :=
    List.sublist_insertionSort hpairwise List.filter_sublist
  have hties := hsublist.filter fun other => decide (Tied r other entry)
  rw [ties, List.filter_filter] at hties
  simp only [Bool.and_self] at hties
  apply (hties.eq_of_length _).symm
  exact ((List.perm_insertionSort r entries).filter _).length_eq.symm

/-- The first of the entries tied with one stands after all that have to stand before. -/
theorem getElem?_countBefore (h : entries.Pairwise r) (hmem : entry ∈ entries) :
    entries[countBefore r entry entries]? = (ties r entry entries).head? := by
  induction entries with
  | nil => cases hmem
  | cons first rest ih =>
      by_cases htied : Tied r first entry
      · rw [← countBefore_congr htied, countBefore_head h, ties_cons_of_tied htied]
        rfl
      · have hrest : entry ∈ rest := by
          obtain rfl | hrest := List.mem_cons.mp hmem
          · exact absurd tied_refl htied
          · exact hrest
        have hfirst : r first entry := List.rel_of_pairwise_cons h hrest
        have hbefore : Before r first entry := ⟨hfirst, fun hback => htied ⟨hfirst, hback⟩⟩
        rw [countBefore_cons_of_before hbefore, ties_cons_of_not_tied htied,
          List.getElem?_cons_succ]
        exact ih h.of_cons hrest

/-- Sorted lists of the same entries agree at their beginning if the ties that reach into it
stand in the same order. -/
theorem take_eq_of_ties (hleft : left.Pairwise r) (hright : right.Pairwise r)
    (hperm : left.Perm right) {limit : Nat}
    (hties : ∀ entry ∈ left, countBefore r entry left < limit →
      ties r entry left = ties r entry right) : left.take limit = right.take limit := by
  induction left generalizing right limit with
  | nil =>
      obtain rfl := hperm.nil_eq
      rfl
  | cons first left ih =>
      cases limit with
      | zero => rfl
      | succ limit =>
          have hhead : ties r first (first :: left) = ties r first right := by
            apply hties first List.mem_cons_self
            rw [countBefore_head hleft]
            exact Nat.succ_pos limit
          cases right with
          | nil => exact absurd hperm.length_eq (Nat.succ_ne_zero _)
          | cons second right =>
              have htied : Tied r second first := by
                have hsecond : r second first := by
                  obtain heq | hmem := List.mem_cons.mp (hperm.mem_iff.mp List.mem_cons_self)
                  · rw [← heq]
                    exact (tied_refl : Tied r _ _).1
                  · exact List.rel_of_pairwise_cons hright hmem
                have hfirst : r first second := by
                  obtain heq | hmem := List.mem_cons.mp (hperm.mem_iff.mpr List.mem_cons_self)
                  · rw [heq]
                    exact (tied_refl : Tied r _ _).1
                  · exact List.rel_of_pairwise_cons hleft hmem
                exact ⟨hsecond, hfirst⟩
              have hsame : first = second := by
                rw [ties_cons_of_tied tied_refl, ties_cons_of_tied htied] at hhead
                exact (List.cons.inj hhead).1
              subst hsame
              rw [List.take_succ_cons, List.take_succ_cons]
              congr 1
              apply ih hleft.of_cons hright.of_cons hperm.cons_inv
              intro entry hmem hcount
              by_cases htie : Tied r first entry
              · rw [ties_congr htie, ties_congr htie, ties_cons_of_tied htie,
                  ties_cons_of_tied htie] at hhead
                exact (List.cons.inj hhead).2
              · have hall := hties entry (List.mem_cons_of_mem first hmem)
                  (Nat.lt_of_le_of_lt countBefore_cons_le (Nat.succ_lt_succ hcount))
                rwa [ties_cons_of_not_tied htie, ties_cons_of_not_tied htie] at hall

/-- Two lists of the same entries, sorted and cut. -/
theorem take_insertionSort_eq (hperm : left.Perm right) {limit : Nat}
    (hties : ∀ entry ∈ left, countBefore r entry left < limit →
      ties r entry left = ties r entry right) :
    (left.insertionSort r).take limit = (right.insertionSort r).take limit := by
  have hsorted := (List.perm_insertionSort r left)
  apply take_eq_of_ties (List.pairwise_insertionSort r left) (List.pairwise_insertionSort r right)
  · exact hsorted.trans (hperm.trans (List.perm_insertionSort r right).symm)
  · intro entry hmem hcount
    rw [ties_insertionSort, ties_insertionSort]
    apply hties entry (hsorted.mem_iff.mp hmem)
    rwa [← perm_countBefore hsorted]

/-- What sorting and cutting keeps at the place of a tie that reaches into it. -/
theorem getElem?_take_insertionSort (hmem : entry ∈ entries) {limit : Nat}
    (hcount : countBefore r entry entries < limit) :
    ((entries.insertionSort r).take limit)[countBefore r entry entries]? =
      (ties r entry entries).head? := by
  have hsorted := List.perm_insertionSort r entries
  calc ((entries.insertionSort r).take limit)[countBefore r entry entries]?
      = (entries.insertionSort r)[countBefore r entry (entries.insertionSort r)]? := by
        rw [List.getElem?_take_of_lt hcount, perm_countBefore hsorted]
    _ = (ties r entry (entries.insertionSort r)).head? :=
        getElem?_countBefore (List.pairwise_insertionSort r entries) (hsorted.mem_iff.mpr hmem)
    _ = (ties r entry entries).head? := by rw [ties_insertionSort]

end Total

section Pieces

variable {β : Type*} {piece : α → List β} {names arrived : List α}

/-- Pieces of which each two commute are put together in any order. -/
theorem flatMap_eq_of_commute (hperm : arrived.Perm names)
    (h : ∀ first ∈ names, ∀ second ∈ names,
      piece first ++ piece second = piece second ++ piece first) :
    arrived.flatMap piece = names.flatMap piece := by
  induction hperm with
  | nil => rfl
  | cons name _ ih =>
      rw [List.flatMap_cons, List.flatMap_cons, ih]
      intro first hfirst second hsecond
      exact h first (List.mem_cons_of_mem name hfirst) second (List.mem_cons_of_mem name hsecond)
  | swap first second rest =>
      have hcommute := h second (by simp) first (by simp)
      rw [List.flatMap_cons, List.flatMap_cons, List.flatMap_cons, List.flatMap_cons,
        ← List.append_assoc, hcommute, List.append_assoc]
  | trans hleft hright ih₁ ih₂ =>
      rw [ih₁, ih₂ h]
      intro first hfirst second hsecond
      exact h first (hright.mem_iff.mp hfirst) second (hright.mem_iff.mp hsecond)

/-- Two names of a list may come first. -/
theorem exists_perm_first_two {first second : α} (hfirst : first ∈ names)
    (hsecond : second ∈ names) (hne : first ≠ second) :
    ∃ rest, names.Perm (first :: second :: rest) := by
  obtain ⟨before, after, rfl⟩ := List.append_of_mem hfirst
  have hrest : second ∈ before ++ after := by
    rw [List.mem_append, List.mem_cons] at hsecond
    obtain hbefore | rfl | hafter := hsecond
    · exact List.mem_append_left _ hbefore
    · exact absurd rfl hne
    · exact List.mem_append_right _ hafter
  obtain ⟨front, back, hsplit⟩ := List.append_of_mem hrest
  refine ⟨front ++ back, List.perm_middle.trans ?_⟩
  rw [hsplit]
  exact List.perm_middle.cons first

/-- The order in which pieces are put together does not matter exactly if each two commute. -/
theorem forall_perm_flatMap_iff :
    (∀ arrived : List α, arrived.Perm names → arrived.flatMap piece = names.flatMap piece) ↔
      ∀ first ∈ names, ∀ second ∈ names,
        piece first ++ piece second = piece second ++ piece first := by
  constructor
  · intro h first hfirst second hsecond
    by_cases heq : first = second
    · rw [heq]
    · obtain ⟨rest, hrest⟩ := exists_perm_first_two hfirst hsecond heq
      have hone := h _ hrest.symm
      have hother := h _ (hrest.trans (List.Perm.swap second first rest)).symm
      rw [List.flatMap_cons, List.flatMap_cons, ← List.append_assoc] at hone hother
      exact List.append_cancel_right (hone.trans hother.symm)
  · exact fun h arrived hperm => flatMap_eq_of_commute hperm h

/-- If all other pieces are empty, the one that is left is put there. -/
theorem flatMap_eq_of_single {name : α} (hnodup : names.Nodup) (hname : name ∈ names)
    (h : ∀ other ∈ names, other ≠ name → piece other = []) : names.flatMap piece = piece name := by
  obtain ⟨before, after, rfl⟩ := List.append_of_mem hname
  rw [List.nodup_middle, List.nodup_cons] at hnodup
  have hempty : ∀ part, part ⊆ before ++ after → part.flatMap piece = [] := by
    intro part hpart
    rw [List.flatMap_eq_nil_iff]
    intro other hother
    apply h other
    · rw [List.mem_append, List.mem_cons]
      exact (List.mem_append.mp (hpart hother)).imp_right Or.inr
    · rintro rfl
      exact hnodup.1 (hpart hother)
  rw [List.flatMap_append, List.flatMap_cons, hempty before (List.subset_append_left _ _),
    hempty after (List.subset_append_right _ _), List.nil_append, List.append_nil]

end Pieces

section Cut

variable {β γ δ : Type*} {r : β → β → Prop} [DecidableRel r] [Std.Total r] [IsTrans β r]
  {piece : α → List β} {names : List α} {tag : α → γ} {shown : β → δ} {owner : δ → γ}
  {limit : Nat}

omit [Std.Total r] [IsTrans β r] in
/-- Of the pieces the first one has the first tie, if it has one. -/
theorem exists_head?_ties {name : α} (rest : List α) {entry other : β}
    (hmem : other ∈ piece name) (htied : Tied r other entry) : ∃ found ∈ piece name,
      (ties r entry ((name :: rest).flatMap piece)).head? = some found := by
  have hties : ties r entry ((name :: rest).flatMap piece) =
      ties r entry (piece name) ++ ties r entry (rest.flatMap piece) := by
    rw [List.flatMap_cons]
    exact List.filter_append _ _
  have hother : other ∈ ties r entry (piece name) := mem_ties.mpr ⟨hmem, htied⟩
  cases hfound : ties r entry (piece name) with
  | nil =>
      rw [hfound] at hother
      cases hother
  | cons found more =>
      have hin : found ∈ ties r entry (piece name) := by
        rw [hfound]
        exact List.mem_cons_self
      refine ⟨found, (mem_ties.mp hin).1, ?_⟩
      rw [hties, hfound]
      rfl

variable (r piece tag shown owner limit) in
/-- Pieces that arrive in any order are put together, sorted and cut. The order of arrival
does not matter exactly if ties of different pieces stand behind the cut. -/
theorem forall_perm_take_insertionSort_iff (hnodup : (names.map tag).Nodup)
    (howner : ∀ name ∈ names, ∀ entry ∈ piece name, owner (shown entry) = tag name) :
    (∀ first second : List α, first.Perm names → second.Perm names →
      (((first.flatMap piece).insertionSort r).take limit).map shown =
        (((second.flatMap piece).insertionSort r).take limit).map shown) ↔
    ∀ left ∈ names.flatMap piece, ∀ right ∈ names.flatMap piece,
      owner (shown left) ≠ owner (shown right) → Tied r left right →
        limit ≤ countBefore r left (names.flatMap piece) := by
  have hinj : ∀ name ∈ names, ∀ other ∈ names, tag name = tag other → name = other :=
    fun name hname other hother => List.inj_on_of_nodup_map hnodup hname hother
  constructor
  · intro hall left hleft right hright hne htied
    by_contra hcount
    rw [Nat.not_le] at hcount
    obtain ⟨name, hname, hleft⟩ := List.mem_flatMap.mp hleft
    obtain ⟨other, hother, hright⟩ := List.mem_flatMap.mp hright
    rw [howner name hname left hleft, howner other hother right hright] at hne
    obtain ⟨rest, hrest⟩ := exists_perm_first_two hname hother fun heq => hne (heq ▸ rfl)
    have hswap := hrest.trans (List.Perm.swap other name rest)
    have hkept : ∀ arrived : List α, names.Perm arrived →
        ((((arrived.flatMap piece).insertionSort r).take limit).map shown)[countBefore r left
          (names.flatMap piece)]? = (ties r left (arrived.flatMap piece)).head?.map shown := by
      intro arrived harrived
      have hperm := harrived.flatMap_right piece
      rw [perm_countBefore hperm] at hcount ⊢
      rw [List.getElem?_map, getElem?_take_insertionSort _ hcount]
      exact hperm.mem_iff.mp (List.mem_flatMap.mpr ⟨name, hname, hleft⟩)
    have hsame := congrArg (fun result => result[countBefore r left (names.flatMap piece)]?)
      (hall _ _ hrest.symm hswap.symm)
    rw [hkept _ hrest, hkept _ hswap] at hsame
    obtain ⟨first, hfirst, hfirstHead⟩ :=
      exists_head?_ties (other :: rest) hleft (tied_refl : Tied r left left)
    obtain ⟨second, hsecond, hsecondHead⟩ :=
      exists_head?_ties (name :: rest) hright htied.symm
    rw [hfirstHead, hsecondHead, Option.map_some, Option.map_some, Option.some.injEq] at hsame
    apply hne
    rw [← howner name hname first hfirst, ← howner other hother second hsecond, hsame]
  · intro hcut first second hfirst hsecond
    congr 1
    apply take_insertionSort_eq
    · exact (hfirst.trans hsecond.symm).flatMap_right piece
    · intro entry hentry hcount
      have hperm := hfirst.flatMap_right piece
      obtain ⟨name, hname, hpiece⟩ := List.mem_flatMap.mp (hperm.mem_iff.mp hentry)
      have hsingle : ∀ arrived : List α, arrived.Perm names →
          ties r entry (arrived.flatMap piece) = ties r entry (piece name) := by
        intro arrived harrived
        have hties : ties r entry (arrived.flatMap piece) =
            arrived.flatMap fun name => ties r entry (piece name) :=
          List.filter_flatMap
        rw [hties]
        apply @flatMap_eq_of_single _ _ fun name => ties r entry (piece name)
        · exact harrived.nodup_iff.mpr (List.Nodup.of_map tag hnodup)
        · exact harrived.mem_iff.mpr hname
        · intro other hother hne
          rw [List.eq_nil_iff_forall_not_mem]
          intro tie htie
          obtain ⟨hmem, htied⟩ := mem_ties.mp htie
          have hother := harrived.mem_iff.mp hother
          have hlimit := hcut entry (hperm.mem_iff.mp hentry) tie
            (List.mem_flatMap.mpr ⟨other, hother, hmem⟩) ?_ htied.symm
          · rw [perm_countBefore hperm] at hcount
            omega
          · rw [howner name hname entry hpiece, howner other hother tie hmem]
            exact fun heq => hne (hinj name hname other hother heq).symm
      rw [hsingle first hfirst, hsingle second hsecond]

end Cut

end StableOrder
