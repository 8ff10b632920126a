import Memex.Usage.FactTables

/-! # Facts that do not depend on what was there before

A file is passed over when its stored digest is the new one. The triggers leave a digest only as
long as the rows are those it was made from, so the rows that are passed over are the ones that
would be inserted. -/

namespace Memex.Usage

open Overlay MarkedRows Transaction

variable {D : Type} {host : FactHost D} {filter : SourceKind}

/-- The events of a file in their order. -/
def ofFile (path : String) (events : List UsageEventView) : List UsageEventView :=
  events.filter fun event => event.sourcePath = path

section Contributions

variable {events : List UsageEventView} {path : String}

theorem ofFile_append (first second : List UsageEventView) :
    ofFile path (first ++ second) = ofFile path first ++ ofFile path second :=
  List.filter_append ..

/-- A run of events of one file. -/
def OneFile (run : List UsageEventView) : Prop :=
  ∀ event ∈ run, ∀ first ∈ run.head?, event.sourcePath = first.sourcePath

theorem ofFile_of_oneFile {first : UsageEventView} {rest : List UsageEventView}
    (h : OneFile (first :: rest)) :
    ofFile path (first :: rest) = if path = first.sourcePath then first :: rest else [] := by
  have hall : ∀ event ∈ first :: rest, event.sourcePath = first.sourcePath :=
    fun event hevent => h event hevent first rfl
  split
  next hsame =>
    apply List.filter_eq_self.mpr
    intro event hevent
    rw [hall event hevent, hsame, decide_eq_true rfl]
  next hother =>
    apply List.filter_eq_nil_iff.mpr
    intro event hevent
    rw [hall event hevent, decide_eq_true_eq]
    exact Ne.symm hother

theorem oneFile_of_isChain {run : List UsageEventView}
    (h : run.IsChain fun left right => decide (left.sourcePath = right.sourcePath) = true) :
    OneFile run := by
  cases run with
  | nil =>
      intro event hevent
      cases hevent
  | cons first rest =>
      intro event hevent head hhead
      obtain rfl := Option.some.inj hhead
      induction rest generalizing first with
      | nil =>
          obtain rfl := List.mem_singleton.mp hevent
          rfl
      | cons second rest ih =>
          rw [List.isChain_cons_cons, decide_eq_true_eq] at h
          obtain rfl | hrest := List.mem_cons.mp hevent
          · rfl
          · rw [h.1]
            exact ih second h.2 hrest rfl

/-- What has been contributed by the runs so far. -/
theorem lookup_foldl_addRun {runs : List (List UsageEventView)}
    {contributed : Table String (List UsageEventView)} (hruns : ∀ run ∈ runs, OneFile run) :
    ((runs.foldl addRun contributed).lookup path).getD [] =
      (contributed.lookup path).getD [] ++ ofFile path runs.flatten := by
  induction runs generalizing contributed with
  | nil => rw [List.foldl_nil, List.flatten_nil, ofFile, List.filter_nil, List.append_nil]
  | cons run rest ih =>
      rw [List.foldl_cons, ih fun other hother => hruns other (List.mem_cons_of_mem run hother),
        List.flatten_cons, ofFile_append, ← List.append_assoc]
      cases run with
      | nil => exact congrArg (· ++ _) (List.append_nil _).symm
      | cons first others =>
          rw [addRun, ofFile_of_oneFile (hruns _ (List.mem_cons_self ..)), lookup_insert_ite]
          split
          next hsame => rw [Option.getD_some, hsame]
          next => rw [List.append_nil]

theorem lookup_addRun_ne_nil {contributed : Table String (List UsageEventView)}
    {run : List UsageEventView} (h : ∀ path, contributed.lookup path ≠ some []) (path : String) :
    (addRun contributed run).lookup path ≠ some [] := by
  cases run with
  | nil => exact h path
  | cons first rest =>
      rw [addRun, lookup_insert_ite]
      split
      · simp
      · exact h path

theorem lookup_foldl_addRun_ne_nil {runs : List (List UsageEventView)}
    {contributed : Table String (List UsageEventView)}
    (h : ∀ path, contributed.lookup path ≠ some []) (path : String) :
    (runs.foldl addRun contributed).lookup path ≠ some [] := by
  induction runs generalizing contributed with
  | nil => exact h path
  | cons run rest ih => exact ih (lookup_addRun_ne_nil h)

/-- A file has contributed its events, if it has any. -/
theorem lookup_contributions (events : List UsageEventView) (path : String) :
    (contributions events).lookup path =
      if ofFile path events = [] then none else some (ofFile path events) := by
  have hruns : ∀ run ∈ events.splitBy fun left right => left.sourcePath = right.sourcePath,
      OneFile run := fun run hrun => oneFile_of_isChain (List.isChain_of_mem_splitBy hrun)
  have hevents := @lookup_foldl_addRun path _ ∅ hruns
  rw [List.flatten_splitBy, Finmap.lookup_empty, Option.getD_none, List.nil_append] at hevents
  have hsome : (contributions events).lookup path ≠ some [] :=
    lookup_foldl_addRun_ne_nil (fun _ => by rw [Finmap.lookup_empty]; simp) path
  change ((contributions events).lookup path).getD [] = ofFile path events at hevents
  rw [← hevents]
  cases hlookup : (contributions events).lookup path with
  | none => rw [Option.getD_none, if_pos rfl]
  | some contributed =>
      rw [hlookup] at hsome
      rw [Option.getD_some, if_neg fun hnil => hsome (congrArg some hnil)]

theorem mem_contributions : path ∈ contributions events ↔ ofFile path events ≠ [] := by
  rw [← Finmap.lookup_isSome, lookup_contributions]
  split
  next h => simp [h]
  next h => simp [h]

theorem getD_contributions (events : List UsageEventView) (path : String) :
    ((contributions events).lookup path).getD [] = ofFile path events := by
  rw [lookup_contributions]
  split
  next h => rw [h, Option.getD_none]
  next => rw [Option.getD_some]

theorem hashOf_eq (host : FactHost D) (events : List UsageEventView) (path : String) :
    hashOf host events path =
    if ofFile path events = [] then none
    else some (host.digest ((ofFile path events).map CachedUsageEvent.fromEvent)) := by
  rw [hashOf, lookup_contributions]
  split
  · rfl
  · rfl

end Contributions

section Rows

variable {events : List UsageEventView} {content : FactContent D} {path : String}
  {source : SourceKind} {rowIdx : Nat}

/-- The rows of a file that has these events. -/
def factRows (host : FactHost D) (source : SourceKind) (events : List UsageEventView)
    (rowIdx : Nat) : Option FactRow :=
  events[rowIdx]?.map (factRow host source)

/-- A digest is that of the events that the rows were made from. -/
def Describes (host : FactHost D) (file : SourceKind × String) (digest : D)
    (rows : Nat → Option FactRow) : Prop :=
  ∃ events, host.digest (events.map CachedUsageEvent.fromEvent) = digest ∧
    rows = factRows host file.1 events

/-- The columns come from what is serialized. -/
theorem factRow_congr {event other : UsageEventView}
    (h : CachedUsageEvent.fromEvent event = CachedUsageEvent.fromEvent other) :
    factRow host source event = factRow host source other := by
  obtain ⟨⟩ := event
  obtain ⟨⟩ := other
  simp only [CachedUsageEvent.fromEvent, CachedUsageEvent.mk.injEq] at h
  obtain ⟨rfl, rfl, rfl, rfl, rfl, rfl, rfl, rfl, rfl, rfl, rfl, rfl, rfl, rfl, rfl, rfl, rfl⟩ := h
  rfl

theorem factRows_congr {others : List UsageEventView}
    (h : events.map CachedUsageEvent.fromEvent = others.map CachedUsageEvent.fromEvent) :
    factRows host source events = factRows host source others := by
  funext rowIdx
  have hplace := congrArg (fun cached => cached[rowIdx]?) h
  simp only [List.getElem?_map] at hplace
  rw [factRows, factRows]
  cases hfirst : events[rowIdx]? with
  | none =>
      rw [hfirst, Option.map_none] at hplace
      rw [Option.map_eq_none_iff.mp hplace.symm]
  | some event =>
      rw [hfirst, Option.map_some] at hplace
      obtain ⟨other, hother, hsame⟩ := Option.map_eq_some_iff.mp hplace.symm
      rw [hother, Option.map_some, Option.map_some, factRow_congr hsame]

/-- A digest that describes rows describes no others. -/
theorem Describes.unique {file : SourceKind × String} {digest : D} {rows : Nat → Option FactRow}
    (hdigest : Function.Injective host.digest) (h : Describes host file digest rows)
    (hsame : digest = host.digest (events.map CachedUsageEvent.fromEvent)) :
    rows = factRows host file.1 events := by
  obtain ⟨others, hothers, rfl⟩ := h
  exact factRows_congr (hdigest (hothers.trans hsame))

theorem mem_factPaths : path ∈ factPaths filter content ↔
    ∃ rowIdx, content.facts.rowsOf (filter, path) rowIdx ≠ none := by
  simp only [factPaths, Finset.mem_image, Finset.mem_filter, Finmap.mem_keys, Marked.rowsOf, ne_eq,
    Finmap.lookup_eq_none, not_not]
  constructor
  · rintro ⟨⟨⟨source, _⟩, rowIdx⟩, ⟨hmem, rfl⟩, rfl⟩
    exact ⟨rowIdx, hmem⟩
  · rintro ⟨rowIdx, hmem⟩
    exact ⟨((filter, path), rowIdx), ⟨hmem, rfl⟩, rfl⟩

theorem rowsOf_of_notMem (h : path ∉ factPaths filter content) :
    content.facts.rowsOf (filter, path) rowIdx = none := by
  by_contra hsome
  exact h (mem_factPaths.mpr ⟨rowIdx, hsome⟩)

end Rows

section Statements

variable {events : List UsageEventView} {content : FactContent D} {path : String}
  {source : SourceKind} {rowIdx : Nat}

/-- The statement drops the digest of every file whose rows it changes. -/
def Drops (statement : Statement D) : Prop :=
  ∀ content next, statement content = some next → Marked.Keeps content.facts next.facts

theorem drops_deleteFacts (filter : SourceKind) (path : String) :
    Drops (deleteFacts filter path : Statement D) := by
  intro content next h
  obtain rfl := Option.some.inj h
  exact Marked.keeps_deleteGroup

theorem drops_insertFact (host : FactHost D) (filter : SourceKind) (rowIdx : Nat)
    (event : UsageEventView) : Drops (insertFact host filter rowIdx event) := by
  intro content next h
  obtain ⟨facts, hfacts, rfl⟩ := Option.map_eq_some_iff.mp h
  exact Marked.keeps_insertRow hfacts

theorem drops_writeFactSync (host : FactHost D) (filter : SourceKind)
    (fingerprint : List (String × Nat × Int)) (warnings : List String) (generation : String) :
    Drops (writeFactSync host filter fingerprint warnings generation) := by
  intro content next h
  obtain rfl := Option.some.inj h
  exact Marked.Keeps.refl _

theorem keeps_runAll {statements : List (Statement D)} {next : FactContent D}
    (hdrops : ∀ statement ∈ statements, Drops statement)
    (h : runAll statements content = some next) : Marked.Keeps content.facts next.facts := by
  induction statements generalizing content with
  | nil =>
      obtain rfl := Option.some.inj h
      exact Marked.Keeps.refl _
  | cons statement rest ih =>
      obtain ⟨middle, hmiddle, hrest⟩ := Option.bind_eq_some_iff.mp h
      have hfirst := hdrops statement (List.mem_cons_self ..) content middle hmiddle
      exact hfirst.trans
        (ih (fun other hother => hdrops other (List.mem_cons_of_mem _ hother)) hrest)

theorem drops_of_mem_deletes {filter : SourceKind} {paths : List String} :
    ∀ statement ∈ paths.map (deleteFacts (D := D) filter), Drops statement := by
  intro statement hstatement
  obtain ⟨path, -, rfl⟩ := List.mem_map.mp hstatement
  exact drops_deleteFacts filter path

theorem drops_of_mem_inserts {host : FactHost D} {filter : SourceKind} :
    ∀ statement ∈ insertFactEvents host filter events, Drops statement := by
  intro statement hstatement
  obtain ⟨numbered, -, rfl⟩ := List.mem_map.mp hstatement
  exact drops_insertFact host filter numbered.1 numbered.2

/-- The files that are deleted have no rows left, and the others keep theirs. -/
theorem runAll_deletes (filter : SourceKind) (paths : List String) (content : FactContent D) :
    ∃ next, runAll (paths.map (deleteFacts filter)) content = some next ∧
      ∀ source path rowIdx, next.facts.rowsOf (source, path) rowIdx =
        if source = filter ∧ path ∈ paths then none
        else content.facts.rowsOf (source, path) rowIdx := by
  induction paths generalizing content with
  | nil => exact ⟨content, rfl, by simp⟩
  | cons first rest ih =>
      obtain ⟨next, hnext, hrows⟩ :=
        ih { content with facts := content.facts.deleteGroup (filter, first) }
      refine ⟨next, hnext, ?_⟩
      intro source path rowIdx
      rw [hrows, Marked.rowsOf_deleteGroup]
      simp only [Prod.mk.injEq, List.mem_cons]
      grind

/-- The next position of a file. -/
def nextIdx (perFile : Table String Nat) (path : String) : Nat := (perFile.lookup path).getD 0

theorem nextIdx_insert (perFile : Table String Nat) (path other : String) (next : Nat) :
    nextIdx (perFile.insert path next) other =
      if other = path then next else nextIdx perFile other := by
  rw [nextIdx, lookup_insert_ite]
  split
  · rfl
  · rfl

theorem factRows_cons (event : UsageEventView) (events : List UsageEventView) (rowIdx : Nat) :
    factRows host source (event :: events) rowIdx =
      if rowIdx = 0 then some (factRow host source event)
      else factRows host source events (rowIdx - 1) := by
  cases rowIdx with
  | zero => rfl
  | succ rowIdx => rfl

/-- Events are inserted at the next positions of their files, if these are free. -/
theorem runAll_numbered (host : FactHost D) (filter : SourceKind) (events : List UsageEventView)
    (perFile : Table String Nat) (content : FactContent D)
    (hfree : ∀ path, ofFile path events ≠ [] → ∀ rowIdx, nextIdx perFile path ≤ rowIdx →
      content.facts.rowsOf (filter, path) rowIdx = none) :
    ∃ next, runAll ((numberFrom perFile events).map fun numbered =>
        insertFact host filter numbered.1 numbered.2) content = some next ∧
      ∀ source path rowIdx, next.facts.rowsOf (source, path) rowIdx =
        (if source = filter ∧ nextIdx perFile path ≤ rowIdx then
            factRows host filter (ofFile path events) (rowIdx - nextIdx perFile path)
          else none).or (content.facts.rowsOf (source, path) rowIdx) := by
  induction events generalizing perFile content with
  | nil =>
      refine ⟨content, rfl, ?_⟩
      intro source path rowIdx
      have hnone : factRows host filter (ofFile path []) (rowIdx - nextIdx perFile path) = none :=
        rfl
      rw [hnone, ite_self, Option.none_or]
  | cons event rest ih =>
      have hown : ofFile event.sourcePath (event :: rest) =
          event :: ofFile event.sourcePath rest := List.filter_cons_of_pos (by simp)
      have hother : ∀ path, path ≠ event.sourcePath →
          ofFile path (event :: rest) = ofFile path rest := by
        intro path hne
        apply List.filter_cons_of_neg
        simp [Ne.symm hne]
      have hplace : content.facts.rowsOf (filter, event.sourcePath)
          (nextIdx perFile event.sourcePath) = none :=
        hfree _ (by rw [hown]; exact List.cons_ne_nil _ _) _ (Nat.le_refl _)
      have hinsert := Marked.insertRow_of_free (factRow host filter event) hplace
      generalize hrows : content.facts.rows.insert _ _ = rows at hinsert
      have hrow : ∀ source path rowIdx, rows.lookup ((source, path), rowIdx) =
          if (source, path) = (filter, event.sourcePath) ∧
              rowIdx = nextIdx perFile event.sourcePath then some (factRow host filter event)
          else content.facts.rowsOf (source, path) rowIdx := by
        intro source path rowIdx
        rw [← hrows]
        exact Marked.rowsOf_put _ content.facts.marks _ _
      obtain ⟨next, hnext, hlookup⟩ := ih
        (perFile.insert event.sourcePath (nextIdx perFile event.sourcePath + 1))
        { content with facts :=
          { rows, marks := content.facts.marks.erase (filter, event.sourcePath) } } (by
          intro path hsome rowIdx hle
          rw [nextIdx_insert] at hle
          rw [Marked.rowsOf, hrow]
          by_cases hsame : path = event.sourcePath
          · subst hsame
            rw [if_pos rfl] at hle
            rw [if_neg fun hat => by omega]
            exact hfree _ (by rw [hown]; exact List.cons_ne_nil _ _) _ (by omega)
          · rw [if_neg hsame] at hle
            rw [if_neg fun hat => hsame (congrArg Prod.snd hat.1)]
            exact hfree path (by rw [hother path hsame]; exact hsome) rowIdx hle)
      refine ⟨next, ?_, ?_⟩
      · have hfirst : insertFact host filter (nextIdx perFile event.sourcePath) event content =
            some { content with facts :=
              { rows, marks := content.facts.marks.erase (filter, event.sourcePath) } } := by
          rw [insertFact, hinsert, Option.map_some]
        rw [numberFrom, List.map_cons, runAll_cons]
        exact (congrArg (Option.bind · _) hfirst).trans hnext
      · intro source path rowIdx
        rw [hlookup, nextIdx_insert, Marked.rowsOf, hrow]
        by_cases hsource : source = filter
        · subst hsource
          by_cases hsame : path = event.sourcePath
          · subst hsame
            rw [hown, factRows_cons]
            obtain hless | hequal | hmore :=
              Nat.lt_trichotomy rowIdx (nextIdx perFile event.sourcePath)
            · simp only [if_true, true_and, Nat.not_le_of_lt hless, if_false, Option.none_or]
              rw [if_neg (by omega), if_neg (by omega), Option.none_or]
            · subst hequal
              rw [if_pos rfl, if_neg (by omega), if_pos ⟨rfl, rfl⟩, if_pos ⟨rfl, Nat.le_refl _⟩,
                Nat.sub_self, if_pos rfl]
              rfl
            · rw [if_pos rfl, if_pos ⟨rfl, hmore⟩, if_neg (by omega), if_pos ⟨rfl, hmore.le⟩,
                if_neg (by omega), Nat.sub_sub]
          · simp only [hsame, hother path hsame, Prod.mk.injEq, and_false, false_and, if_false]
        · simp only [hsource, Prod.mk.injEq, false_and, if_false]

/-- The rows after all events of a list have been inserted into files without rows. -/
theorem runAll_insertFactEvents (host : FactHost D) (filter : SourceKind)
    (events : List UsageEventView) (content : FactContent D)
    (hfree : ∀ path, ofFile path events ≠ [] → ∀ rowIdx,
      content.facts.rowsOf (filter, path) rowIdx = none) :
    ∃ next, runAll (insertFactEvents host filter events) content = some next ∧
      ∀ source path rowIdx, next.facts.rowsOf (source, path) rowIdx =
        (if source = filter then factRows host filter (ofFile path events) rowIdx
          else none).or (content.facts.rowsOf (source, path) rowIdx) := by
  obtain ⟨next, hnext, hrows⟩ := runAll_numbered host filter events ∅ content
    fun path hsome rowIdx _ => hfree path hsome rowIdx
  refine ⟨next, hnext, ?_⟩
  intro source path rowIdx
  have hzero : nextIdx ∅ path = 0 := by
    rw [nextIdx, Finmap.lookup_empty, Option.getD_none]
  rw [hrows, hzero]
  simp only [Nat.zero_le, and_true, Nat.sub_zero]

/-- Digests are set for files whose rows they describe. -/
theorem runAll_digests (host : FactHost D) (filter : SourceKind) (events : List UsageEventView)
    (paths : List String) (content : FactContent D)
    (hsound : content.facts.Sound (Describes host))
    (hrows : ∀ path ∈ paths,
      content.facts.rowsOf (filter, path) = factRows host filter (ofFile path events)) :
    ∃ next, runAll (paths.filterMap fun path =>
        (hashOf host events path).map (insertDigest filter path)) content = some next ∧
      next.facts.rows = content.facts.rows ∧ next.facts.Sound (Describes host) := by
  induction paths generalizing content with
  | nil => exact ⟨content, rfl, rfl, hsound⟩
  | cons path rest ih =>
      have hothers := fun other hother => hrows other (List.mem_cons_of_mem path hother)
      have hhash := hashOf_eq host events path
      by_cases hnone : ofFile path events = []
      · rw [if_pos hnone] at hhash
        rw [List.filterMap_cons_none (by rw [hhash]; rfl)]
        exact ih content hsound hothers
      · rw [if_neg hnone] at hhash
        rw [List.filterMap_cons_some (by rw [hhash]; rfl)]
        have hdescribed := hrows path (List.mem_cons_self ..)
        have hmarked : (content.facts.setMark (filter, path) (host.digest
            ((ofFile path events).map CachedUsageEvent.fromEvent))).Sound (Describes host) :=
          hsound.setMark ⟨ofFile path events, rfl, hdescribed⟩
        obtain ⟨next, hnext, hsame, hlast⟩ := ih
          { content with facts := content.facts.setMark (filter, path) _ } hmarked hothers
        exact ⟨next, hnext, hsame, hlast⟩

end Statements

section Replacement

variable [DecidableEq D] {events : List UsageEventView} {content : FactContent D} {path : String}
  {source : SourceKind} {rowIdx : Nat}

theorem mem_changedPaths : path ∈ changedPaths host filter events content ↔
    (ofFile path events ≠ [] ∧
        previousDigest filter content path ≠ hashOf host events path) ∨
      path ∈ factPaths filter content ∧ ofFile path events = [] := by
  rw [changedPaths, Finset.mem_union, Finset.mem_filter, Finset.mem_filter, Finmap.mem_keys,
    mem_contributions, ne_eq, not_not]

/-- A file that is passed over has the rows that its events would be inserted with. -/
theorem rowsOf_unchanged (hdigest : Function.Injective host.digest)
    (hsound : content.facts.Sound (Describes host))
    (h : path ∉ changedPaths host filter events content) :
    content.facts.rowsOf (filter, path) = factRows host filter (ofFile path events) := by
  rw [mem_changedPaths, not_or, not_and, not_and, not_not] at h
  obtain ⟨hsame, hvanished⟩ := h
  by_cases hnone : ofFile path events = []
  · rw [hnone]
    funext rowIdx
    exact rowsOf_of_notMem fun hmem => hvanished hmem hnone
  · have hstored := hsame hnone
    rw [hashOf_eq, if_neg hnone, previousDigest] at hstored
    split at hstored
    · exact (hsound (filter, path) _ hstored).unique hdigest rfl
    · cases hstored

theorem ofFile_ofFile (path other : String) (events : List UsageEventView) :
    ofFile path (ofFile other events) = if other = path then ofFile path events else [] := by
  rw [ofFile, ofFile, List.filter_filter]
  split
  next hsame =>
    subst hsame
    rw [ofFile]
    simp only [Bool.and_self]
  next hother =>
    apply List.filter_eq_nil_iff.mpr
    intro event _ hboth
    rw [Bool.and_eq_true, decide_eq_true_eq, decide_eq_true_eq] at hboth
    exact hother (hboth.2.symm.trans hboth.1)

theorem ofFile_flatMap {paths : List String} (hnodup : paths.Nodup) :
    ofFile path (paths.flatMap fun path => ((contributions events).lookup path).getD []) =
      if path ∈ paths then ofFile path events else [] := by
  induction paths with
  | nil => rfl
  | cons first rest ih =>
      obtain ⟨hfirst, hrest⟩ := List.nodup_cons.mp hnodup
      rw [List.flatMap_cons, ofFile_append, ih hrest, getD_contributions, ofFile_ofFile]
      by_cases hsame : first = path
      · subst hsame
        rw [if_pos rfl, if_neg hfirst, List.append_nil, if_pos (List.mem_cons_self ..)]
      · have hmem : path ∈ first :: rest ↔ path ∈ rest := by
          rw [List.mem_cons, or_iff_right (Ne.symm hsame)]
        rw [if_neg hsame, List.nil_append]
        simp only [hmem]

/-- The events that are inserted are those of the changed files. -/
theorem ofFile_inserted (walk : SetWalk) (changed : Finset String) :
    ofFile path (if (contributions events).keys ⊆ changed then events
      else (walk.paths changed).flatMap fun path => ((contributions events).lookup path).getD []) =
      if path ∈ changed then ofFile path events else [] := by
  split
  next hall =>
    split
    · rfl
    next hnot =>
      by_contra hsome
      exact hnot (hall (Finmap.mem_keys.mpr (mem_contributions.mpr hsome)))
  next =>
    rw [ofFile_flatMap (walk.nodup changed)]
    simp only [walk.mem_paths]

/-- The statements run to their end. Afterwards each file of the source has the rows of its
events, other sources have theirs as before, and the digests still describe the rows. -/
theorem runAll_replaceStatements (filter : SourceKind) (events : List UsageEventView)
    (hdigest : Function.Injective host.digest)
    (hsound : content.facts.Sound (Describes host)) (fingerprint : List (String × Nat × Int))
    (warnings : List String) (generation : String) :
    ∃ next, runAll (replaceStatements host filter events fingerprint warnings generation content)
        content = some next ∧ next.facts.Sound (Describes host) ∧
      ∀ source path rowIdx, next.facts.rowsOf (source, path) rowIdx =
        if source = filter then factRows host filter (ofFile path events) rowIdx
        else content.facts.rowsOf (source, path) rowIdx := by
  obtain ⟨deleted, hdeleted, hdelRows⟩ := runAll_deletes filter
    (host.walk.paths (changedPaths host filter events content)) content
  simp only [host.walk.mem_paths] at hdelRows
  have hown := fun path => @ofFile_inserted events path host.walk
    (changedPaths host filter events content)
  rw [replaceStatements]
  revert hown
  generalize (ite ((contributions events).keys ⊆ changedPaths host filter events content) events
    ((host.walk.paths (changedPaths host filter events content)).flatMap
      fun path => ((contributions events).lookup path).getD [])) = inserted
  intro hown
  obtain ⟨added, hadded, haddRows⟩ := runAll_insertFactEvents host filter inserted deleted
    (by
      intro path hsome rowIdx
      have hchanged : path ∈ changedPaths host filter events content := by
        by_contra hnot
        rw [hown, if_neg hnot] at hsome
        exact hsome rfl
      rw [hdelRows, if_pos ⟨rfl, hchanged⟩])
  have hrows : ∀ source path rowIdx, added.facts.rowsOf (source, path) rowIdx =
      if source = filter then factRows host filter (ofFile path events) rowIdx
      else content.facts.rowsOf (source, path) rowIdx := by
    intro source path rowIdx
    rw [haddRows, hdelRows, hown]
    by_cases hsource : source = filter
    · subst hsource
      by_cases hchanged : path ∈ changedPaths host source events content
      · simp only [hchanged, and_self, if_true, Option.or_none]
      · simp only [hchanged, and_false, if_true, if_false, rowsOf_unchanged hdigest hsound hchanged]
        rfl
    · simp only [hsource, false_and, if_false, Option.none_or]
  obtain ⟨marked, hmarked, hsame, hlast⟩ := runAll_digests host filter events
    (host.walk.paths (changedPaths host filter events content)) added
    ((hsound.keeps (keeps_runAll drops_of_mem_deletes hdeleted)).keeps
      (keeps_runAll drops_of_mem_inserts hadded)) (by
      intro path _
      funext rowIdx
      rw [hrows, if_pos rfl])
  obtain ⟨synced, hsynced, hfacts⟩ : ∃ synced,
      runAll [writeFactSync host filter fingerprint warnings generation] marked = some synced ∧
        synced.facts = marked.facts := ⟨_, rfl, rfl⟩
  refine ⟨synced, ?_, hfacts ▸ hlast, ?_⟩
  · rw [runAll_append, hdeleted, Option.bind_some, runAll_append, hadded, Option.bind_some,
      runAll_append, hmarked, Option.bind_some, hsynced]
  · intro source path rowIdx
    rw [← hrows, hfacts]
    exact congrArg (fun rows => Finmap.lookup ((source, path), rowIdx) rows) hsame

omit [DecidableEq D] in
/-- Rebuilding runs to its end with the same rows. -/
theorem runAll_rebuildStatements (host : FactHost D) (filter : SourceKind)
    (events : List UsageEventView) (content : FactContent D) :
    ∃ rebuilt, runAll (rebuildStatements host filter events content) content = some rebuilt ∧
      ∀ source path rowIdx, rebuilt.facts.rowsOf (source, path) rowIdx =
        if source = filter then factRows host filter (ofFile path events) rowIdx
        else content.facts.rowsOf (source, path) rowIdx := by
  obtain ⟨deleted, hdeleted, hdelRows⟩ := runAll_deletes filter
    (host.walk.paths (factPaths filter content)) content
  simp only [host.walk.mem_paths] at hdelRows
  have hnone : ∀ path rowIdx, deleted.facts.rowsOf (filter, path) rowIdx = none := by
    intro path rowIdx
    rw [hdelRows]
    split
    · rfl
    next hnot => exact rowsOf_of_notMem fun hmem => hnot ⟨rfl, hmem⟩
  obtain ⟨added, hadded, haddRows⟩ := runAll_insertFactEvents host filter events deleted
    fun path _ rowIdx => hnone path rowIdx
  refine ⟨added, ?_, ?_⟩
  · rw [rebuildStatements, runAll_append, hdeleted, Option.bind_some, hadded]
  · intro source path rowIdx
    rw [haddRows]
    by_cases hsource : source = filter
    · subst hsource
      rw [if_pos rfl, if_pos rfl, hnone, Option.or_none]
    · rw [if_neg hsource, if_neg hsource, Option.none_or, hdelRows,
        if_neg fun hdel => hsource hdel.1]

end Replacement

section Histories

variable [DecidableEq D]

/-- What is written to the tables: by the program, or row by row over another connection. -/
inductive FactWrite (D : Type) where
  | replaced (filter : SourceKind) (events : List UsageEventView)
      (fingerprint : List (String × Nat × Int)) (warnings : List String) (generation : String)
      (fault : Option Nat)
  | upserted (filter : SourceKind) (removedPaths : List String) (events : List UsageEventView)
      (fingerprint : List (String × Nat × Int)) (warnings : List String) (generation : String)
      (fault : Option Nat)
  | invalidated (filter : SourceKind)
  | rowInserted (file : SourceKind × String) (rowIdx : Nat) (row : FactRow)
  | rowUpdated (file : SourceKind × String) (rowIdx : Nat) (row : FactRow)
  | rowDeleted (file : SourceKind × String) (rowIdx : Nat)
  | digestDeleted (file : SourceKind × String)

def FactWrite.apply (host : FactHost D) (content : FactContent D) : FactWrite D → FactContent D
  | .replaced filter events fingerprint warnings generation fault =>
      (replacePartitionFacts host filter events fingerprint warnings generation fault content).1
  | .upserted filter removedPaths events fingerprint warnings generation fault =>
      (upsertFileFacts host filter removedPaths events fingerprint warnings generation fault
        content).1
  | .invalidated filter => invalidateFacts filter content
  | .rowInserted file rowIdx row =>
      ((content.facts.insertRow file rowIdx row).map fun facts => { content with facts }).getD
        content
  | .rowUpdated file rowIdx row =>
      { content with facts := content.facts.updateRow file rowIdx row }
  | .rowDeleted file rowIdx => { content with facts := content.facts.deleteRow file rowIdx }
  | .digestDeleted file => { content with facts := content.facts.dropMark file }

variable {content : FactContent D}

/-- A replacement ends with digests that describe the rows, or changes nothing. -/
theorem sound_replacePartitionFacts (hdigest : Function.Injective host.digest)
    (h : content.facts.Sound (Describes host)) {events : List UsageEventView}
    {fingerprint : List (String × Nat × Int)} {warnings : List String} {generation : String}
    {fault : Option Nat} :
    (replacePartitionFacts host filter events fingerprint warnings generation fault
      content).1.facts.Sound (Describes host) := by
  obtain ⟨next, hnext, hlast, -⟩ := runAll_replaceStatements filter events
    hdigest h fingerprint warnings generation
  rw [replacePartitionFacts]
  obtain ⟨copy, hcopy, hcommit⟩ | hcommit := commitAll_cases
    (replaceStatements host filter events fingerprint warnings generation content) fault content
  · rw [hnext] at hcopy
    obtain rfl := Option.some.inj hcopy
    rw [hcommit]
    exact hlast
  · rw [hcommit]
    exact h

omit [DecidableEq D] in
/-- Files that are written otherwise have no digest afterwards. -/
theorem sound_upsertFileFacts (h : content.facts.Sound (Describes host))
    {removedPaths : List String} {events : List UsageEventView}
    {fingerprint : List (String × Nat × Int)} {warnings : List String} {generation : String}
    {fault : Option Nat} :
    (upsertFileFacts host filter removedPaths events fingerprint warnings generation fault
      content).1.facts.Sound (Describes host) := by
  rw [upsertFileFacts]
  obtain ⟨next, hnext, hcommit⟩ | hcommit := commitAll_cases
    (removedPaths.map (deleteFacts filter) ++ (insertFactEvents host filter events ++
      [writeFactSync host filter fingerprint warnings generation])) fault content
  · rw [hcommit]
    apply h.keeps
    apply keeps_runAll _ hnext
    intro statement hstatement
    obtain hdelete | hrest := List.mem_append.mp hstatement
    · exact drops_of_mem_deletes statement hdelete
    · obtain hinsert | hsync := List.mem_append.mp hrest
      · exact drops_of_mem_inserts statement hinsert
      · obtain rfl := List.mem_singleton.mp hsync
        exact drops_writeFactSync host filter fingerprint warnings generation
  · rw [hcommit]
    exact h

theorem sound_apply (hdigest : Function.Injective host.digest)
    (h : content.facts.Sound (Describes host)) (write : FactWrite D) :
    (write.apply host content).facts.Sound (Describes host) := by
  cases write with
  | replaced => exact sound_replacePartitionFacts hdigest h
  | upserted filter removedPaths events fingerprint warnings generation fault =>
      exact sound_upsertFileFacts h
  | invalidated => exact h
  | rowInserted file rowIdx row =>
      rw [FactWrite.apply]
      cases hinsert : content.facts.insertRow file rowIdx row with
      | none => exact h
      | some facts => exact h.keeps (Marked.keeps_insertRow hinsert)
  | rowUpdated => exact h.keeps Marked.keeps_updateRow
  | rowDeleted => exact h.keeps Marked.keeps_deleteRow
  | digestDeleted => exact h.keeps Marked.keeps_dropMark

/-- Whatever has been written, the digests that are left describe the rows. -/
theorem sound_history (hdigest : Function.Injective host.digest) (history : List (FactWrite D)) :
    (history.foldl (FactWrite.apply host) {}).facts.Sound (Describes host) := by
  have hrun : ∀ content : FactContent D, content.facts.Sound (Describes host) →
      (history.foldl (FactWrite.apply host) content).facts.Sound (Describes host) := by
    induction history with
    | nil => exact fun _ h => h
    | cons write rest ih => exact fun content h => ih _ (sound_apply hdigest h write)
  exact hrun {} Marked.sound_empty

end Histories

/-- A replacement does not depend on what the tables held: where each digest describes the rows
of its file, as it does after every history of writes, the table is the one that is built anew.
A replacement that fails leaves the content as it was, and it fails by a fault only. -/
theorem replace_partition_facts_rebuilds [DecidableEq D] (host : FactHost D)
    (hdigest : Function.Injective host.digest) :
    (∀ history : List (FactWrite D),
      (history.foldl (FactWrite.apply host) {}).facts.Sound (Describes host)) ∧
      ∀ content : FactContent D, content.facts.Sound (Describes host) →
        ∀ filter events fingerprint warnings generation fault,
          let result := replacePartitionFacts host filter events fingerprint warnings generation
            fault content
          (result.2 = true → ∃ rebuilt,
              runAll (rebuildStatements host filter events content) content = some rebuilt ∧
                result.1.facts.rows = rebuilt.facts.rows) ∧
            (result.2 = false → result.1 = content) ∧ (fault = none → result.2 = true) := by
  refine ⟨fun history => sound_history hdigest history, ?_⟩
  intro content hsound filter events fingerprint warnings generation fault
  obtain ⟨next, hnext, -, hrows⟩ := runAll_replaceStatements filter events
    hdigest hsound fingerprint warnings generation
  refine ⟨?_, ?_, ?_⟩
  · intro hcommitted
    obtain ⟨copy, hcopy, hcommit⟩ | hcommit := commitAll_cases
      (replaceStatements host filter events fingerprint warnings generation content) fault content
    · rw [hnext] at hcopy
      obtain rfl := Option.some.inj hcopy
      obtain ⟨rebuilt, hrebuilt, hrebuiltRows⟩ :=
        runAll_rebuildStatements host filter events content
      refine ⟨rebuilt, hrebuilt, ?_⟩
      rw [replacePartitionFacts, hcommit]
      refine Finmap.ext_lookup ?_
      rintro ⟨⟨source, path⟩, rowIdx⟩
      exact (hrows source path rowIdx).trans (hrebuiltRows source path rowIdx).symm
    · rw [replacePartitionFacts, hcommit] at hcommitted
      cases hcommitted
  · intro hfailed
    obtain ⟨copy, -, hcommit⟩ | hcommit := commitAll_cases
      (replaceStatements host filter events fingerprint warnings generation content) fault content
    · rw [replacePartitionFacts, hcommit] at hfailed
      cases hfailed
    · rw [replacePartitionFacts, hcommit]
  · rintro rfl
    rw [replacePartitionFacts, commitAll_none hnext]

/-- A host whose digest is the serialized events themselves. -/
def plainHost : FactHost (List CachedUsageEvent) where
  digest := id
  keptReal := some
  freshness _ _ := ""
  parserVersion _ := 1
  walk :=
    { paths := fun set => ((set.image String.toList).sort).map String.ofList
      nodup := fun set => (Finset.sort_nodup _ _).map fun _ _ => String.ofList_injective
      mem_paths := fun set path => by
        rw [List.mem_map]
        constructor
        · rintro ⟨chars, hchars, rfl⟩
          obtain ⟨found, hfound, rfl⟩ := Finset.mem_image.mp ((Finset.mem_sort _).mp hchars)
          rwa [String.ofList_toList]
        · intro hpath
          refine ⟨path.toList, ?_, String.ofList_toList⟩
          exact (Finset.mem_sort _).mpr (Finset.mem_image_of_mem _ hpath) }

/-- One event of a file. -/
def oneEvent (session : String) : UsageEventView where
  source := "claude"
  sourcePath := "file"
  sourceRecordId := none
  sessionId := some session
  requestId := none
  messageId := none
  timestampMs := 1
  project := none
  provider := none
  model := none
  tokens := .disjoint 1 0 0 1
  sourceCostUsd := none
  costAuthoritative := false
  dedupeConfidence := "exact"
  conservativeUndercount := false
  cacheChainExcluded := false
  sidechain := false
  permissionReview := false
  sourceOrder := 0

/-- The event of another file. -/
def eventOf (path session : String) : UsageEventView :=
  { oneEvent session with sourcePath := path }

def storedEvents : List UsageEventView :=
  [eventOf "kept" "a", eventOf "changed" "b", eventOf "vanished" "c", eventOf "kept" "d"]

/-- What fills empty tables: the rows of three files and their digests. -/
def firstStatements : List (Statement (List CachedUsageEvent)) :=
  insertFactEvents plainHost .claude storedEvents ++
    ["kept", "changed", "vanished"].filterMap fun path =>
      (hashOf plainHost storedEvents path).map (insertDigest .claude path)

def storedFacts : FactContent (List CachedUsageEvent) :=
  (runAll firstStatements {}).getD {}

theorem sound_storedFacts : storedFacts.facts.Sound (Describes plainHost) := by
  obtain ⟨added, hadded, hrows⟩ := runAll_insertFactEvents plainHost .claude storedEvents {}
    fun _ _ _ => Finmap.lookup_empty _
  obtain ⟨marked, hmarked, -, hsound⟩ := runAll_digests plainHost .claude storedEvents
    ["kept", "changed", "vanished"] added
    (Marked.sound_empty.keeps (keeps_runAll drops_of_mem_inserts hadded)) (by
      intro path _
      funext rowIdx
      rw [hrows, if_pos rfl]
      exact Option.or_none)
  have hstored : storedFacts = marked := by
    rw [storedFacts, firstStatements, runAll_append, hadded, Option.bind_some, hmarked,
      Option.getD_some]
  rw [hstored]
  exact hsound

def laterEvents : List UsageEventView :=
  [eventOf "kept" "a", eventOf "changed" "e", eventOf "kept" "d", eventOf "changed" "b"]

/-- One file is passed over, the rows of another are replaced, and those of a third are gone. -/
theorem replace_partition_facts_rebuilds_three :
    changedPaths plainHost .claude laterEvents storedFacts = {"changed", "vanished"} ∧
      ∃ rebuilt,
        runAll (rebuildStatements plainHost .claude laterEvents storedFacts) storedFacts =
            some rebuilt ∧
          (replacePartitionFacts plainHost .claude laterEvents [] [] "second" none
            storedFacts).1.facts.rows = rebuilt.facts.rows := by
  obtain ⟨-, hreplace⟩ := replace_partition_facts_rebuilds plainHost Function.injective_id
  obtain ⟨hcommitted, -, hnever⟩ := hreplace storedFacts sound_storedFacts .claude laterEvents [] []
    "second" none
  refine ⟨?_, hcommitted (hnever rfl)⟩
  decide +kernel

/-- A digest of other rows than those that are there. -/
def mislabelled : FactContent (List CachedUsageEvent) where
  facts :=
    { rows := Finmap.singleton ((.claude, "file"), 0) (factRow plainHost .claude (oneEvent "old"))
      marks := Finmap.singleton (.claude, "file") [CachedUsageEvent.fromEvent (oneEvent "new")] }

/-- Where a digest was written to the table beside its rows the old rows stay. -/
theorem mislabelled_rows_stay :
    ¬ ∀ content : FactContent (List CachedUsageEvent), ∃ rebuilt,
      runAll (rebuildStatements plainHost .claude [oneEvent "new"] content) content =
          some rebuilt ∧
        (replacePartitionFacts plainHost .claude [oneEvent "new"] [] [] "" none
          content).1.facts.rows = rebuilt.facts.rows := by
  intro h
  obtain ⟨rebuilt, hrebuilt, hsame⟩ := h mislabelled
  obtain ⟨expected, hexpected, hrows⟩ :=
    runAll_rebuildStatements plainHost .claude [oneEvent "new"] mislabelled
  obtain rfl := Option.some.inj (hrebuilt.symm.trans hexpected)
  have hnew : rebuilt.facts.rows.lookup ((.claude, "file"), 0) =
      some (factRow plainHost .claude (oneEvent "new")) := hrows .claude "file" 0
  have hold : (replacePartitionFacts plainHost .claude [oneEvent "new"] [] [] "" none
      mislabelled).1.facts.rows.lookup ((.claude, "file"), 0) =
        some (factRow plainHost .claude (oneEvent "old")) := by
    decide +kernel
  rw [hsame, hnew] at hold
  revert hold
  decide

end Memex.Usage
