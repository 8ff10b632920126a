import Memex.Machine.HybridSearch

/-! # Results and the order of arrival

Machines answer in any order, and a hash map enumerates its entries in any order. What is
shown depends on that order exactly if ties of score and time reach into it, and for a usage
report if two machines have rows. -/

namespace Memex.Machine

open Sources StableOrder

section Order

variable {Score : Type} [LinearOrder Score] {α : Type} {key : α → Score × Nat}

theorem byScore_iff {left right : Score × Nat} : byScore left right ↔
    right.1 < left.1 ∨ right.1 = left.1 ∧ right.2 ≤ left.2 := by
  rw [byScore]
  obtain hlt | heq | hgt := lt_trichotomy right.1 left.1
  · rw [compare_lt_iff_lt.mpr hlt]
    simp [hlt]
  · rw [compare_eq_iff_eq.mpr heq]
    simp only [Ordering.eq_then, heq, lt_irrefl, true_and, false_or]
    obtain hlt | hsame | hgt := lt_trichotomy right.2 left.2
    · rw [compare_lt_iff_lt.mpr hlt]
      simp [hlt.le]
    · rw [compare_eq_iff_eq.mpr hsame]
      simp [hsame]
    · rw [compare_gt_iff_gt.mpr hgt]
      simp [hgt]
  · rw [compare_gt_iff_gt.mpr hgt]
    simp [hgt.not_gt, hgt.ne']

instance : Std.Total fun left right : α => byScore (key left) (key right) where
  total left right := by
    rw [byScore_iff, byScore_iff]
    obtain hlt | heq | hgt := lt_trichotomy (key left).1 (key right).1
    · exact Or.inr (Or.inl hlt)
    · obtain hle | hle := Nat.le_total (key left).2 (key right).2
      · exact Or.inr (Or.inr ⟨heq, hle⟩)
      · exact Or.inl (Or.inr ⟨heq.symm, hle⟩)
    · exact Or.inl (Or.inl hgt)

instance : IsTrans α fun left right => byScore (key left) (key right) where
  trans first second third h h' := by
    rw [byScore_iff] at h h' ⊢
    obtain hlt | ⟨heq, hle⟩ := h
    · obtain hlt' | ⟨heq', -⟩ := h'
      · exact Or.inl (hlt'.trans hlt)
      · exact Or.inl (heq' ▸ hlt)
    · obtain hlt' | ⟨heq', hle'⟩ := h'
      · exact Or.inl (heq ▸ hlt')
      · exact Or.inr ⟨heq'.trans heq, hle'.trans hle⟩

/-- Ties have the same score and the same time. -/
theorem tied_byScore_iff {left right : α} :
    Tied (fun left right => byScore (key left) (key right)) left right ↔
      key left = key right := by
  rw [Tied, byScore_iff, byScore_iff, Prod.ext_iff]
  constructor
  · rintro ⟨hlt | ⟨heq, hle⟩, hlt' | ⟨heq', hle'⟩⟩
    · exact absurd hlt' hlt.asymm
    · exact absurd heq' hlt.ne'
    · exact absurd heq hlt'.ne'
    · exact ⟨heq', le_antisymm hle' hle⟩
  · rintro ⟨heq, htime⟩
    exact ⟨Or.inr ⟨heq.symm, htime.ge⟩, Or.inr ⟨heq, htime.le⟩⟩

/-- Entries that a different arrival may swap are tied only behind what is shown: as many
entries as are shown have a better score, or the same score and a later time. -/
def TiesCutOff (key : α → Score × Nat) (limit : Nat) (apart : α → α → Prop)
    (entries : List α) : Prop :=
  ∀ left ∈ entries, ∀ right ∈ entries, apart left right → key left = key right →
    limit ≤ countBefore (fun left right => byScore (key left) (key right)) left entries

end Order

/-! ## The selected machines -/

theorem nodup_retainFirst (ids : List String) : (retainFirst ids).Nodup := by
  induction ids using List.reverseRecOn with
  | nil => exact List.nodup_nil
  | append_singleton ids id ih =>
      rw [retainFirst, List.foldl_append, List.foldl_cons, List.foldl_nil, ← retainFirst]
      split
      · exact ih
      · next hnew =>
        rw [List.nodup_append']
        exact ⟨ih, List.nodup_singleton id, List.disjoint_singleton.mpr hnew⟩

theorem nodup_requestedIds (config : UserConfig) (requested : List String) :
    (requestedIds config requested).Nodup := by
  have hlocal : ∀ kept : List String, kept.Nodup →
      (if kept = [] then [localMachineId] else kept).Nodup := by
    intro kept hkept
    split
    · exact List.nodup_singleton localMachineId
    · exact hkept
  exact hlocal _ (nodup_retainFirst _)

theorem forM_eq_ok {check : String → Except String Unit} {ids : List String} {result : Unit}
    (h : ids.forM check = .ok result) : ∀ id ∈ ids, check id = .ok () := by
  induction ids with
  | nil =>
      intro id hid
      cases hid
  | cons first rest ih =>
      rw [List.forM_eq_forM, List.forM_cons] at h
      cases hfirst : check first with
      | error message =>
          rw [hfirst] at h
          cases h
      | ok done =>
          rw [hfirst] at h
          intro id hid
          obtain rfl | hrest := List.mem_cons.mp hid
          · exact hfirst
          · exact ih h id hrest

/-- The selected machines are those asked for, each valid. -/
theorem selectedMachineIds_eq_ok {config : UserConfig} {requested ids : List String}
    (h : selectedMachineIds config requested = .ok ids) :
    ids = requestedIds config requested ∧ ∀ id ∈ ids, checkSelected config id = .ok () := by
  rw [selectedMachineIds] at h
  cases hcheck : (requestedIds config requested).forM (checkSelected config) with
  | error message =>
      rw [hcheck] at h
      cases h
  | ok result =>
      rw [hcheck] at h
      obtain rfl := Except.ok.inj h
      exact ⟨rfl, forM_eq_ok hcheck⟩

/-- No selected machine has a slash in its name. -/
theorem slash_notMem_of_checkSelected {config : UserConfig} {id : String}
    (h : checkSelected config id = .ok ()) : '/' ∉ id.toList := by
  rw [checkSelected] at h
  split at h
  · next hlocal =>
    rw [hlocal]
    decide
  · split at h
    · cases h
    · next machine hmachine =>
      have hid : machine.id = id := by simpa using List.find?_some hmachine
      rw [validateMachine] at h
      split at h
      · cases h
      · next hvalid =>
        intro hslash
        apply hvalid
        refine Or.inr (Or.inr ?_)
        rw [List.all_eq_false]
        exact ⟨'/', hid ▸ hslash, by decide⟩

section Arrival

variable {α : Type} {answer : String → Except String α} {ids arrival : List String}

/-- The machines that succeeded, with their answers. -/
def answered (answer : String → Except String α) (ids : List String) : List (String × α) :=
  ids.filterMap fun id => (answer id).toOption.map fun result => (id, result)

/-- The machines that failed, with their messages. -/
def refused (answer : String → Except String α) (ids : List String) : List (String × String) :=
  ids.filterMap fun id =>
    match answer id with
    | .ok _ => none
    | .error message => some (id, message)

/-- What is received. -/
theorem receive_map (what : String) :
    receive what (arrival.map fun id => (id, answer id)) =
      if answered answer arrival = [] then
        .error (what ++ "; ".intercalate ((refused answer arrival).map fun failure =>
          s!"{failure.1}: {failure.2}"))
      else .ok (answered answer arrival, refused answer arrival) := by
  rw [receive, answered, refused, List.filterMap_map, List.filterMap_map]
  rfl

theorem answered_perm (h : arrival.Perm ids) : (answered answer arrival).Perm
    (answered answer ids) :=
  h.filterMap _

end Arrival

/-! ## Search -/

section Search

variable {Score : Type} [LinearOrder Score] {ops : ScoreOps Score} {config : UserConfig}
  {requested ids arrival : List String} {limit : Nat}
  {answer : String → Except String (List (Score × Record))}

/-- The list of a result, if there is one. -/
def shownItems {α : Type} (result : Except String (Federated α)) : Option (List α) :=
  result.toOption.map Federated.items

/-- The entries of one machine. -/
def searchPiece (ops : ScoreOps Score) (useRrf : Bool)
    (answer : String → Except String (List (Score × Record))) (id : String) :
    List (LocatedRecord Score) :=
  match answer id with
  | .ok records => locate ops useRrf id records
  | .error _ => []

theorem flatMap_answered {α β : Type} (answer : String → Except String α)
    (piece : String → α → List β) (ids : List String) :
    ((answered answer ids).flatMap fun answer => piece answer.1 answer.2) =
      ids.flatMap fun id => ((answer id).toOption.map (piece id)).getD [] := by
  induction ids with
  | nil => rfl
  | cons id ids ih =>
      rw [List.flatMap_cons, ← ih, answered, List.filterMap_cons]
      cases answer id with
      | ok result => rfl
      | error message => rfl

theorem locatedRecords_answered : locatedRecords ops (answered answer arrival) =
    arrival.flatMap (searchPiece ops (1 < (answered answer arrival).length) answer) := by
  calc locatedRecords ops (answered answer arrival)
      = arrival.flatMap fun id => ((answer id).toOption.map
          (locate ops (1 < (answered answer arrival).length) id)).getD [] :=
        flatMap_answered answer (locate ops (1 < (answered answer arrival).length)) arrival
    _ = arrival.flatMap (searchPiece ops (1 < (answered answer arrival).length) answer) := by
        congr 1
        funext id
        rw [searchPiece]
        cases answer id with
        | ok records => rfl
        | error message => rfl

theorem machine_of_mem_searchPiece {useRrf : Bool} {id : String} {item : LocatedRecord Score}
    (h : item ∈ searchPiece ops useRrf answer id) : item.machine = id := by
  rw [searchPiece] at h
  split at h
  · obtain ⟨entry, -, rfl⟩ := List.mem_map.mp h
    rfl
  · cases h

/-- What a federated search shows when its answers arrive in some order. -/
theorem shownItems_federatedSearch (hids : selectedMachineIds config requested = .ok ids)
    (harrival : arrival.Perm ids) :
    shownItems (federatedSearch ops config requested limit answer arrival) =
      if answered answer ids = [] then none
      else some (((arrival.flatMap (searchPiece ops (1 < (answered answer ids).length)
        answer)).insertionSort fun left right => byScore left.key right.key).take limit) := by
  have hperm : (answered answer arrival).Perm (answered answer ids) := answered_perm harrival
  rw [federatedSearch, hids]
  simp only [Except.bind]
  rw [mergeSearches, receive_map, ← hperm.length_eq, ← locatedRecords_answered]
  by_cases hnone : answered answer ids = []
  · rw [if_pos hnone, if_pos (List.Perm.eq_nil (hnone ▸ hperm))]
    rfl
  · rw [if_neg hnone, if_neg]
    · rfl
    · intro hempty
      rw [hempty] at hperm
      exact hnone hperm.nil_eq.symm

/-- A federated search shows the same list in every order of arrival exactly if ties of
different machines stand behind the limit. -/
theorem federatedSearch_order_iff (hids : selectedMachineIds config requested = .ok ids) :
    (∀ first second : List String, first.Perm ids → second.Perm ids →
      shownItems (federatedSearch ops config requested limit answer first) =
        shownItems (federatedSearch ops config requested limit answer second)) ↔
    TiesCutOff LocatedRecord.key limit (fun left right => left.machine ≠ right.machine)
      (locatedRecords ops (answered answer ids)) := by
  have hnodup : (ids.map id).Nodup := by
    rw [List.map_id, (selectedMachineIds_eq_ok hids).1]
    exact nodup_requestedIds config requested
  have hcut := forall_perm_take_insertionSort_iff
    (fun left right : LocatedRecord Score => byScore left.key right.key)
    (searchPiece ops (1 < (answered answer ids).length) answer) id id LocatedRecord.machine limit
    hnodup fun name _ item hitem => machine_of_mem_searchPiece hitem
  by_cases hnone : answered answer ids = []
  · rw [hnone]
    apply iff_of_true
    · intro first second hfirst hsecond
      rw [shownItems_federatedSearch hids hfirst, shownItems_federatedSearch hids hsecond,
        if_pos hnone, if_pos hnone]
    · intro left hleft
      cases hleft
  · rw [TiesCutOff, locatedRecords_answered]
    simp only [List.map_id, tied_byScore_iff, id_eq] at hcut
    rw [← hcut]
    constructor
    · intro hall first second hfirst hsecond
      have hsame := hall first second hfirst hsecond
      rw [shownItems_federatedSearch hids hfirst, shownItems_federatedSearch hids hsecond,
        if_neg hnone, if_neg hnone] at hsame
      exact Option.some.inj hsame
    · intro hall first second hfirst hsecond
      rw [shownItems_federatedSearch hids hfirst, shownItems_federatedSearch hids hsecond,
        if_neg hnone, if_neg hnone, hall first second hfirst hsecond]

end Search

/-! ## Usage -/

section Usage

variable {Cost : Type} {zero : Cost} {add : Cost → Cost → Cost} {config : UserConfig}
  {requested ids arrival : List String} {costMode : CostMode}
  {answer : String → Except String (UsageReportWire Cost)}

/-- The rows by source and the details of a report, if there is one. -/
def shownUsage (result : Except String (UsageReportWire Cost)) :
    Option (List (UsageSummary Cost) × List Json) :=
  result.toOption.map fun report => (report.bySource, report.details)

/-- The rows of one machine. -/
def usageRows (multi : Bool) (answer : String → Except String (UsageReportWire Cost))
    (id : String) : List (UsageSummary Cost) :=
  ((answer id).toOption.map fun report => report.bySource.map (qualifyRow multi id)).getD []

/-- The details of one machine. -/
def usageDetails (answer : String → Except String (UsageReportWire Cost)) (id : String) :
    List Json :=
  ((answer id).toOption.map fun report => report.details.map (noteMachine id)).getD []

theorem foldl_absorbReport (add : Cost → Cost → Cost) (multi : Bool)
    (reports : List (String × UsageReportWire Cost))
    (merged : UsageReportWire Cost) :
    let result := reports.foldl
      (fun merged (machine, report) => absorbReport add multi merged machine report) merged
    result.bySource = merged.bySource ++
        (reports.flatMap fun report => report.2.bySource.map (qualifyRow multi report.1)) ∧
      result.details = merged.details ++
        reports.flatMap fun report => report.2.details.map (noteMachine report.1) := by
  induction reports generalizing merged with
  | nil => exact ⟨(List.append_nil _).symm, (List.append_nil _).symm⟩
  | cons report reports ih =>
      obtain ⟨hrows, hdetails⟩ := ih (absorbReport add multi merged report.1 report.2)
      constructor
      · rw [List.foldl_cons, hrows, List.flatMap_cons, ← List.append_assoc]
        rfl
      · rw [List.foldl_cons, hdetails, List.flatMap_cons, ← List.append_assoc]
        rfl

theorem length_answered_add_refused {α : Type} (answer : String → Except String α)
    (ids : List String) : (answered answer ids).length + (refused answer ids).length =
      ids.length := by
  induction ids with
  | nil => rfl
  | cons id ids ih =>
      rw [answered, refused, List.filterMap_cons, List.filterMap_cons, ← answered, ← refused]
      cases answer id with
      | ok result =>
          simp only [Except.toOption, Option.map_some, List.length_cons]
          omega
      | error message =>
          simp only [Except.toOption, Option.map_none, List.length_cons]
          omega

/-- What a usage report shows when its answers arrive in some order. -/
theorem shownUsage_federatedUsage (hids : selectedMachineIds config requested = .ok ids)
    (harrival : arrival.Perm ids) :
    shownUsage (federatedUsage zero add config requested costMode answer arrival) =
      if answered answer ids = [] then none
      else some (arrival.flatMap (usageRows (1 < ids.length) answer),
        arrival.flatMap (usageDetails answer)) := by
  have hperm : (answered answer arrival).Perm (answered answer ids) := answered_perm harrival
  rw [federatedUsage, hids]
  simp only [Except.bind]
  rw [receive_map]
  by_cases hnone : answered answer ids = []
  · rw [if_pos hnone, if_pos (List.Perm.eq_nil (hnone ▸ hperm))]
    rfl
  · rw [if_neg hnone, if_neg]
    · have hlength := length_answered_add_refused answer arrival
      rw [harrival.length_eq] at hlength
      simp only [Except.map, shownUsage, Except.toOption, Option.map_some, mergeUsageReports,
        hlength]
      have hmerged := foldl_absorbReport add (1 < ids.length) (answered answer arrival)
      have hrows := flatMap_answered answer (fun id report =>
        report.bySource.map (qualifyRow (1 < ids.length) id)) arrival
      have hdetails := flatMap_answered answer (fun id report =>
        report.details.map (noteMachine id)) arrival
      rw [(hmerged _).1, (hmerged _).2, hrows, hdetails]
      rfl
    · intro hempty
      rw [hempty] at hperm
      exact hnone hperm.nil_eq.symm

/-- A name without a slash is read back from a qualified name. -/
theorem eq_of_append_slash {left right more other : String} (hleft : '/' ∉ left.toList)
    (hright : '/' ∉ right.toList) (h : left ++ "/" ++ more = right ++ "/" ++ other) :
    left = right := by
  have hread : ∀ name rest : String, '/' ∉ name.toList →
      (name ++ "/" ++ rest).toList.takeWhile (· ≠ '/') = name.toList := by
    intro name rest hname
    have htext : (name ++ "/" ++ rest).toList = name.toList ++ '/' :: rest.toList := by
      simp [String.toList_append]
    rw [htext, List.takeWhile_append_of_pos]
    · simp
    · intro c hc
      rw [decide_eq_true_eq]
      rintro rfl
      exact hname hc
  apply String.toList_injective
  rw [← hread left more hleft, ← hread right other hright, h]

/-- Rows that name their machines are in one order only. -/
theorem usageRows_commute_iff {left right : String} {first second : UsageReportWire Cost}
    (hleft : answer left = .ok first) (hright : answer right = .ok second) (hne : left ≠ right)
    (hslashLeft : '/' ∉ left.toList) (hslashRight : '/' ∉ right.toList) :
    usageRows true answer left ++ usageRows true answer right =
        usageRows true answer right ++ usageRows true answer left ↔
      first.bySource = [] ∨ second.bySource = [] := by
  simp only [usageRows, hleft, hright, Except.toOption, Option.map_some, Option.getD_some]
  cases first.bySource with
  | nil => simp
  | cons row rows =>
      cases second.bySource with
      | nil => simp
      | cons other others =>
          apply iff_of_false
          · intro h
            rw [List.map_cons, List.map_cons, List.cons_append, List.cons_append,
              List.cons.injEq] at h
            exact hne (eq_of_append_slash hslashLeft hslashRight
              (congrArg UsageSummary.source h.1))
          · simp

/-- A usage report shows the same rows and details in every order of arrival exactly if of any
two machines one has no rows, and their details commute. -/
theorem federatedUsage_order_iff (hids : selectedMachineIds config requested = .ok ids) :
    (∀ first second : List String, first.Perm ids → second.Perm ids →
      shownUsage (federatedUsage zero add config requested costMode answer first) =
        shownUsage (federatedUsage zero add config requested costMode answer second)) ↔
    ∀ left ∈ ids, ∀ right ∈ ids, left ≠ right → ∀ first second,
      answer left = .ok first → answer right = .ok second →
        (first.bySource = [] ∨ second.bySource = []) ∧
          first.details.map (noteMachine left) ++ second.details.map (noteMachine right) =
            second.details.map (noteMachine right) ++ first.details.map (noteMachine left) := by
  have hchecked := (selectedMachineIds_eq_ok hids).2
  have hdetails : ∀ left right first second, answer left = .ok first → answer right = .ok second →
      (usageDetails answer left ++ usageDetails answer right =
        usageDetails answer right ++ usageDetails answer left ↔
      first.details.map (noteMachine left) ++ second.details.map (noteMachine right) =
        second.details.map (noteMachine right) ++ first.details.map (noteMachine left)) := by
    intro left right first second hleft hright
    simp only [usageDetails, hleft, hright, Except.toOption, Option.map_some, Option.getD_some]
  constructor
  · intro hall left hleft right hright hne first second hfirst hsecond
    have hsome : answered answer ids ≠ [] := by
      intro hnone
      have hmem : (left, first) ∈ answered answer ids := by
        rw [answered, List.mem_filterMap]
        exact ⟨left, hleft, by rw [hfirst]; rfl⟩
      rw [hnone] at hmem
      cases hmem
    have hmulti : decide (1 < ids.length) = true := by
      obtain ⟨rest, hrest⟩ := exists_perm_first_two hleft hright hne
      rw [hrest.length_eq, decide_eq_true_eq, List.length_cons, List.length_cons]
      omega
    have hshown : ∀ arrived : List String, arrived.Perm ids →
        arrived.flatMap (usageRows true answer) = ids.flatMap (usageRows true answer) ∧
          arrived.flatMap (usageDetails answer) = ids.flatMap (usageDetails answer) := by
      intro arrived harrived
      have hsame := hall arrived ids harrived (List.Perm.refl ids)
      rw [shownUsage_federatedUsage hids harrived,
        shownUsage_federatedUsage hids (List.Perm.refl ids), if_neg hsome, if_neg hsome,
        hmulti] at hsame
      exact Prod.ext_iff.mp (Option.some.inj hsame)
    constructor
    · rw [← usageRows_commute_iff hfirst hsecond hne (slash_notMem_of_checkSelected
        (hchecked left hleft)) (slash_notMem_of_checkSelected (hchecked right hright))]
      exact forall_perm_flatMap_iff.mp (fun arrived harrived => (hshown arrived harrived).1)
        left hleft right hright
    · rw [← hdetails left right first second hfirst hsecond]
      exact forall_perm_flatMap_iff.mp (fun arrived harrived => (hshown arrived harrived).2)
        left hleft right hright
  · intro hcut first second hfirst hsecond
    rw [shownUsage_federatedUsage hids hfirst, shownUsage_federatedUsage hids hsecond]
    have hrows : ∀ left ∈ ids, ∀ right ∈ ids,
        usageRows (1 < ids.length) answer left ++ usageRows (1 < ids.length) answer right =
          usageRows (1 < ids.length) answer right ++ usageRows (1 < ids.length) answer left := by
      intro left hleft right hright
      by_cases hne : left = right
      · rw [hne]
      cases hone : answer left with
      | error message => simp [usageRows, hone, Except.toOption]
      | ok one =>
          cases hother : answer right with
          | error message => simp [usageRows, hother, Except.toOption]
          | ok other =>
              obtain hnil | hnil := (hcut left hleft right hright hne one other hone hother).1
              · simp [usageRows, hone, hnil, Except.toOption]
              · simp [usageRows, hother, hnil, Except.toOption]
    have hnotes : ∀ left ∈ ids, ∀ right ∈ ids,
        usageDetails answer left ++ usageDetails answer right =
          usageDetails answer right ++ usageDetails answer left := by
      intro left hleft right hright
      by_cases hne : left = right
      · rw [hne]
      cases hone : answer left with
      | error message => simp [usageDetails, hone, Except.toOption]
      | ok one =>
          cases hother : answer right with
          | error message => simp [usageDetails, hother, Except.toOption]
          | ok other =>
              rw [hdetails left right one other hone hother]
              exact (hcut left hleft right hright hne one other hone hother).2
    rw [flatMap_eq_of_commute hfirst hrows, flatMap_eq_of_commute hsecond hrows,
      flatMap_eq_of_commute hfirst hnotes, flatMap_eq_of_commute hsecond hnotes]

end Usage

/-! ## Hybrid search -/

section Hybrid

variable {Score : Type} [LinearOrder Score] {ops : ScoreOps Score} {options : QueryOptions}

omit [LinearOrder Score] in
theorem map_fst_addScore (docId : Nat) (amount : Score) (scores : List (Nat × Score)) :
    (addScore ops docId amount scores).map Prod.fst =
      if docId ∈ scores.map Prod.fst then scores.map Prod.fst
      else scores.map Prod.fst ++ [docId] := by
  induction scores with
  | nil => rfl
  | cons entry rest ih =>
      obtain ⟨other, score⟩ := entry
      rw [addScore]
      by_cases heq : other = docId
      · rw [if_pos heq, if_pos (by simp [heq])]
        rfl
      · rw [if_neg heq, List.map_cons, ih]
        by_cases hmem : docId ∈ rest.map Prod.fst
        · rw [if_pos hmem, if_pos (by simp only [List.map_cons, List.mem_cons, hmem, or_true])]
          rfl
        · rw [if_neg hmem, if_neg]
          · rfl
          · simp only [List.map_cons, List.mem_cons, not_or]
            exact ⟨fun hback => heq hback.symm, hmem⟩

/-- Every document has one score, and a record is stored under its own number. -/
structure Fusion.Keyed (fusion : Fusion Score) : Prop where
  nodup : (fusion.scores.map Prod.fst).Nodup
  stored : ∀ docId record, fusion.records.get docId = some record → record.docId = docId

omit [LinearOrder Score] in
theorem Fusion.Keyed.addScore {fusion : Fusion Score} (h : fusion.Keyed) (docId : Nat)
    (amount : Score) : ((addScore ops docId amount fusion.scores).map Prod.fst).Nodup := by
  rw [map_fst_addScore]
  split
  · exact h.nodup
  · next hnew =>
    rw [List.nodup_append']
    exact ⟨h.nodup, List.nodup_singleton docId, List.disjoint_singleton.mpr hnew⟩

omit [LinearOrder Score] in
theorem Fusion.Keyed.insert {fusion : Fusion Score} (h : fusion.Keyed) (record : Record) :
    ∀ docId found, (fusion.records.insert record.docId record).get docId = some found →
      found.docId = docId := by
  intro docId found hget
  rw [HashTable.get_insert] at hget
  split at hget
  · next heq =>
    rw [← Option.some.inj hget, heq]
  · exact h.stored docId found hget

omit [LinearOrder Score] in
theorem fuse_keyed (lexical semantic : List Record) :
    (fuse ops options lexical semantic).Keyed := by
  rw [fuse]
  apply List.foldlRecOn
  · apply List.foldlRecOn
    · exact ⟨List.nodup_nil, fun docId record hget => by cases hget⟩
    · intro fusion h hit _
      rw [Fusion.lexical]
      split
      · exact ⟨h.addScore hit.1.docId _, h.insert hit.1⟩
      · exact h
  · intro fusion h hit _
    refine ⟨h.addScore hit.1.docId _, ?_⟩
    intro docId record hget
    rw [Fusion.semantic] at hget
    dsimp only at hget
    split at hget
    · exact h.stored docId record hget
    · exact h.insert hit.1 docId record hget

/-- A hybrid search gives the same list in every order of its hash map exactly if ties stand
behind the limit. -/
theorem hybridSearch_order_iff {fusion : Fusion Score} (hkeyed : fusion.Keyed)
    (minScore : Option Score) (limit : Nat) (regroup : Record → String) :
    (∀ first second : List (Nat × Score), first.Perm fusion.scores →
      second.Perm fusion.scores →
        hybridSearch ops options minScore limit regroup fusion.records first =
          hybridSearch ops options minScore limit regroup fusion.records second) ↔
    TiesCutOff resultKey limit (fun left right => left.2.docId ≠ right.2.docId)
      (fusion.scores.filterMap (scoredRecord ops options minScore fusion.records)) := by
  have howner : ∀ entry ∈ fusion.scores, ∀ result ∈
      (scoredRecord ops options minScore fusion.records entry).toList,
      ({ result.2 with project := regroup result.2 } : Record).docId = entry.1 := by
    intro entry _ result hresult
    rw [Option.mem_toList, scoredRecord, Option.filter_eq_some_iff,
      Option.map_eq_some_iff] at hresult
    obtain ⟨⟨record, hrecord, rfl⟩, -⟩ := hresult
    exact hkeyed.stored entry.1 record hrecord
  have hcut := forall_perm_take_insertionSort_iff
    (fun left right : Score × Record => byScore (resultKey left) (resultKey right))
    (fun entry => (scoredRecord ops options minScore fusion.records entry).toList) Prod.fst
    (fun result : Score × Record => (result.1, { result.2 with project := regroup result.2 }))
    (fun result : Score × Record => result.2.docId) limit hkeyed.nodup howner
  simp only [tied_byScore_iff, ← List.filterMap_eq_flatMap_toList] at hcut
  exact hcut

end Hybrid

/-! ## All three -/

/-- The list of a federated search, the rows and details of a merged usage report and the list
of a hybrid search do not depend on the order of arrival or enumeration exactly if ties of
different machines or documents stand behind the limit, and of any two machines one has no
rows and their details commute. -/
theorem results_independent_of_scheduling_iff {Score Cost : Type} [LinearOrder Score]
    (ops : ScoreOps Score) (zero : Cost) (add : Cost → Cost → Cost) {config : UserConfig}
    {requested ids : List String} (hids : selectedMachineIds config requested = .ok ids)
    (limit : Nat) (costMode : CostMode)
    (found : String → Except String (List (Score × Record)))
    (reported : String → Except String (UsageReportWire Cost))
    (options : QueryOptions) (minScore : Option Score) (regroup : Record → String)
    (lexical semantic : List Record) :
    ((∀ first second : List String, first.Perm ids → second.Perm ids →
        shownItems (federatedSearch ops config requested limit found first) =
          shownItems (federatedSearch ops config requested limit found second)) ↔
      TiesCutOff LocatedRecord.key limit (fun left right => left.machine ≠ right.machine)
        (locatedRecords ops (answered found ids))) ∧
    ((∀ first second : List String, first.Perm ids → second.Perm ids →
        shownUsage (federatedUsage zero add config requested costMode reported first) =
          shownUsage (federatedUsage zero add config requested costMode reported second)) ↔
      ∀ left ∈ ids, ∀ right ∈ ids, left ≠ right → ∀ first second,
        reported left = .ok first → reported right = .ok second →
          (first.bySource = [] ∨ second.bySource = []) ∧
            first.details.map (noteMachine left) ++ second.details.map (noteMachine right) =
              second.details.map (noteMachine right) ++ first.details.map (noteMachine left)) ∧
    ((∀ first second : List (Nat × Score),
        first.Perm (fuse ops options lexical semantic).scores →
        second.Perm (fuse ops options lexical semantic).scores →
          hybridSearch ops options minScore limit regroup
              (fuse ops options lexical semantic).records first =
            hybridSearch ops options minScore limit regroup
              (fuse ops options lexical semantic).records second) ↔
      TiesCutOff resultKey limit (fun left right => left.2.docId ≠ right.2.docId)
        ((fuse ops options lexical semantic).scores.filterMap
          (scoredRecord ops options minScore (fuse ops options lexical semantic).records))) := by
  refine ⟨federatedSearch_order_iff hids, federatedUsage_order_iff hids, ?_⟩
  exact hybridSearch_order_iff (fuse_keyed lexical semantic) minScore limit regroup

/-- Scores in units of the last place of `1/61`, in which the first ranks are exact. -/
def sampleOps : ScoreOps Nat where
  zero := 0
  add left right := left + right
  reciprocalRank rank := (2 ^ 29 + (61 + rank) / 2) / (61 + rank)
  applyRecency score _ := score

def sampleConfig : UserConfig where
  machines := [{ id := "mini", ssh := some "mini.lan" }]

/-- Each machine has one hit, and both are of one time. -/
def sampleFound (_ : String) : Except String (List (Nat × Record)) :=
  .ok [(5, { ts := 1700000000000, text := "hit" })]

theorem results_independent_of_scheduling_iff_two :
    selectedMachineIds sampleConfig [] = .ok ["local", "mini"] ∧
    ((∀ first second : List String, first.Perm ["local", "mini"] →
        second.Perm ["local", "mini"] →
        shownItems (federatedSearch sampleOps sampleConfig [] 1 sampleFound first) =
          shownItems (federatedSearch sampleOps sampleConfig [] 1 sampleFound second)) ↔
      TiesCutOff LocatedRecord.key 1 (fun left right => left.machine ≠ right.machine)
        (locatedRecords sampleOps (answered sampleFound ["local", "mini"]))) := by
  have hids : selectedMachineIds sampleConfig [] = .ok ["local", "mini"] := by decide +kernel
  have hall := results_independent_of_scheduling_iff sampleOps (0 : Nat) (· + ·) hids 1 .auto
    sampleFound (fun _ => .error "unreachable") {} none Record.project [] []
  exact ⟨hids, hall.1⟩

/-- The one hit that is shown is that of the machine that answers first. -/
theorem first_answer_wins_ties :
    ¬ ∀ first second : List String, first.Perm ["local", "mini"] →
      second.Perm ["local", "mini"] →
        shownItems (federatedSearch sampleOps sampleConfig [] 1 sampleFound first) =
          shownItems (federatedSearch sampleOps sampleConfig [] 1 sampleFound second) := by
  intro h
  exact absurd (h ["local", "mini"] ["mini", "local"] (by decide) (by decide)) (by decide +kernel)

end Memex.Machine
