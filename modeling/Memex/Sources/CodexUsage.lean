import Mathlib.Data.List.Induction
import Memex.Lib.Overlay
import Memex.Sources.Json
import Memex.Usage.Events

/-! # Codex usage counters

`UsageCounter` of `sources/codex.rs`: the token counts of a Codex log are cumulative, repeated,
and sometimes of several streams at once. The counter turns them into what each adds. -/

namespace Memex.Codex

open Sources Usage Overlay

/-- The kinds of tokens that are counted. -/
inductive Component where
  | input
  | cached
  | output
  | reasoning
  deriving DecidableEq

structure UsageTokens where
  input : Nat := 0
  cached : Nat := 0
  output : Nat := 0
  reasoning : Nat := 0
  deriving DecidableEq, Repr, Inhabited

namespace UsageTokens

def part (tokens : UsageTokens) : Component → Nat
  | .input => tokens.input
  | .cached => tokens.cached
  | .output => tokens.output
  | .reasoning => tokens.reasoning

def ofParts (parts : Component → Nat) : UsageTokens where
  input := parts .input
  cached := parts .cached
  output := parts .output
  reasoning := parts .reasoning

@[simp] theorem part_ofParts (parts : Component → Nat) (component : Component) :
    (ofParts parts).part component = parts component := by
  cases component <;> rfl

theorem ext_parts {left right : UsageTokens}
    (h : ∀ component, left.part component = right.part component) : left = right := by
  cases left
  cases right
  simp only [mk.injEq]
  exact ⟨h .input, h .cached, h .output, h .reasoning⟩

@[simp] theorem part_default (component : Component) :
    (default : UsageTokens).part component = 0 := by
  cases component <;> rfl

def add (left right : UsageTokens) : UsageTokens :=
  ofParts fun component => saturatingAdd (left.part component) (right.part component)

/-- `saturating_sub` on each component. -/
def sub (left right : UsageTokens) : UsageTokens :=
  ofParts fun component => left.part component - right.part component

def min (left right : UsageTokens) : UsageTokens :=
  ofParts fun component => Min.min (left.part component) (right.part component)

def max (left right : UsageTokens) : UsageTokens :=
  ofParts fun component => Max.max (left.part component) (right.part component)

def atLeast (left right : UsageTokens) : Bool :=
  right.input ≤ left.input && right.cached ≤ left.cached && right.output ≤ left.output &&
    right.reasoning ≤ left.reasoning

def atMost (left right : UsageTokens) : Bool := right.atLeast left

theorem atLeast_iff {left right : UsageTokens} :
    left.atLeast right = true ↔ ∀ component, right.part component ≤ left.part component := by
  simp only [atLeast, Bool.and_eq_true, decide_eq_true_eq]
  constructor
  · rintro ⟨⟨⟨hinput, hcached⟩, houtput⟩, hreasoning⟩ component
    cases component with
    | input => exact hinput
    | cached => exact hcached
    | output => exact houtput
    | reasoning => exact hreasoning
  · exact fun h => ⟨⟨⟨h .input, h .cached⟩, h .output⟩, h .reasoning⟩

/-- The tokens are numbers of 64 bits. -/
def Fits (tokens : UsageTokens) : Prop := ∀ component, tokens.part component < 2 ^ 64

end UsageTokens

section Inherited

/-- A file that the usage of another depends on, as it was found. -/
structure UsageDependency where
  path : String
  nativePath : List UInt8
  size : Nat
  mtimeNs : Int
  fileExists : Bool

/-- `ParentData`: the times of the snapshots of a parent session, the maxima up to each, and when
each total was first seen, with what the parent depends on. -/
structure ParentIndex (D : Type) where
  deps : List D
  times : List Nat := []
  prefixMax : List UsageTokens := []
  earliest : Table UsageTokens Nat := ∅

def ParentIndex.isInherited {D : Type} (parent : ParentIndex D) (tokens : UsageTokens)
    (cutoffMs : Nat) : Bool :=
  (parent.earliest.lookup tokens).any fun first => first ≤ cutoffMs

structure InheritedSeed where
  parent : ParentIndex UsageDependency
  cutoffMs : Nat

end Inherited

structure UsageCounter where
  counted : UsageTokens := default
  rawBaseline : UsageTokens := default
  watermark : UsageTokens := default
  seen : List UsageTokens := []
  inherited : List InheritedSeed := []
  divergent : Bool := false
  interleaved : Bool := false

namespace UsageCounter

/-- `seen` keeps the last 64 totals. -/
def remember (seen : List UsageTokens) (total : UsageTokens) : List UsageTokens :=
  if seen.getLast? = some total then seen
  else if 64 < (seen ++ [total]).length then (seen ++ [total]).drop 1
  else seen ++ [total]

def isInherited (counter : UsageCounter) (total : UsageTokens) : Bool :=
  counter.inherited.any fun seed => seed.parent.isInherited total seed.cutoffMs

/-- `contained_usage` on one component. -/
def containedPart (current watermark counted : Nat) : Nat :=
  if watermark ≤ current then current - Max.max watermark counted else current - counted

def containedUsage (current watermark counted : UsageTokens) : UsageTokens :=
  .ofParts fun component => containedPart (current.part component) (watermark.part component)
    (counted.part component)

/-- What a snapshot with a total or a last adds, of which it has at least one. -/
def delta (counter : UsageCounter) (last total : Option UsageTokens) : UsageTokens :=
  let baseline := counter.watermark.max counter.rawBaseline
  match last, total with
  | some last, some total =>
    if counter.interleaved then last.min (containedUsage total baseline counter.counted)
    else if !counter.divergent && total.atLeast baseline && (total.sub baseline).atMost last then
      total.sub baseline
    else last
  | none, some total =>
    if counter.interleaved || counter.divergent then
      containedUsage total baseline counter.counted
    else total.sub baseline
  | some last, none => last
  | none, none => default

/-- A total that is not above the watermark belongs to another stream. -/
def observe (counter : UsageCounter) (total : Option UsageTokens) : UsageCounter :=
  { counter with
    interleaved := counter.interleaved || total.any fun total => !total.atLeast counter.watermark }

/-- The counter after something was added. -/
def advance (counter : UsageCounter) (total : Option UsageTokens) (delta : UsageTokens) :
    UsageCounter :=
  let counted := counter.counted.add delta
  match total with
  | some total =>
    { counter with
      counted, rawBaseline := total, divergent := counter.divergent || total ≠ counted
      watermark := counter.watermark.max total, seen := remember counter.seen total }
  | none =>
    { counter with counted, rawBaseline := counted, watermark := counter.watermark.max counted }

/-- The total was counted before, or by the parent of the session. -/
def repeats (counter : UsageCounter) (total : UsageTokens) : Bool :=
  counter.seen.contains total || counter.isInherited total

def account (counter : UsageCounter) (last total : Option UsageTokens) :
    UsageCounter × UsageTokens :=
  if total.any counter.repeats then (counter, default)
  else
    let counter := counter.observe total
    if last = none ∧ total = none then (counter, default)
    else
      let added := counter.delta last total
      (counter.advance total added, added)

end UsageCounter

/-- A token count of a log; what is zero is left out. -/
structure Snapshot where
  last : Option UsageTokens
  total : Option UsageTokens

/-- The counter and the deltas of a session without a parent. -/
def accountAll (snapshots : List Snapshot) : UsageCounter × List UsageTokens :=
  snapshots.foldl (fun state snapshot =>
    let next := state.1.account snapshot.last snapshot.total
    (next.1, state.2 ++ [next.2])) ({}, [])

namespace UsageCounter

variable {counter : UsageCounter} {last total : Option UsageTokens}
  {tokens : UsageTokens}

section Account

/-- What a snapshot does that is no repetition: it is counted in the counter that has seen it. -/
theorem account_of_not_repeats (hnew : total.any counter.repeats = false)
    (hsome : ¬ (last = none ∧ total = none)) :
    counter.account last total =
      ((counter.observe total).advance total ((counter.observe total).delta last total),
        (counter.observe total).delta last total) := by
  rw [account, hnew]
  simp [hsome]

theorem account_of_repeats (hrepeats : counter.repeats tokens = true) :
    counter.account last (some tokens) = (counter, default) := by
  simp [account, hrepeats]

theorem account_none : counter.account none none = (counter, default) := by
  simp [account, observe]

/-- A delta is within the `last` of its snapshot. -/
theorem delta_le_last {last : UsageTokens} (component : Component) :
    (counter.delta (some last) total).part component ≤ last.part component := by
  cases total with
  | none => exact Nat.le_refl _
  | some total =>
      rw [delta]
      split
      · rw [UsageTokens.min, UsageTokens.part_ofParts]
        exact Nat.min_le_left _ _
      · split
        next h =>
          rw [Bool.and_eq_true, UsageTokens.atMost, UsageTokens.atLeast_iff] at h
          exact h.2 component
        next => exact Nat.le_refl _

theorem account_le_last {last : UsageTokens} (component : Component) :
    (counter.account (some last) total).2.part component ≤ last.part component := by
  rw [account]
  split
  · rw [UsageTokens.part_default]
    exact Nat.zero_le _
  · rw [if_neg fun h => (nomatch h.1)]
    exact delta_le_last component

end Account

section Books

/-- What the counter knows of the totals it was shown, where nothing is inherited. -/
structure Books (shown : List UsageTokens) (counter : UsageCounter) : Prop where
  inherited : counter.inherited = []
  below : ∀ total ∈ shown, counter.watermark.atLeast total = true
  baseline : counter.watermark.atLeast counter.rawBaseline = true
  /-- In a single stream a total that reaches the watermark is the last one. -/
  latest : counter.interleaved = false → ∀ total ∈ shown,
    total.atLeast counter.watermark = true → total ∈ counter.seen
  seen : ∀ total ∈ counter.seen, total ∈ shown

theorem mem_remember_self (seen : List UsageTokens) (total : UsageTokens) :
    total ∈ remember seen total := by
  rw [remember]
  split
  next h => exact List.mem_of_getLast? h
  next h =>
    split
    next hlong =>
      rw [List.drop_append_of_le_length]
      · exact List.mem_append_right _ (List.mem_singleton_self _)
      · simp at hlong
        omega
    next => exact List.mem_append_right _ (List.mem_singleton_self _)

theorem mem_of_mem_remember {seen : List UsageTokens} {total other : UsageTokens}
    (h : other ∈ remember seen total) : other ∈ seen ∨ other = total := by
  rw [remember] at h
  split at h
  · exact Or.inl h
  · have hmem : other ∈ seen ++ [total] := by
      split at h
      · exact List.mem_of_mem_drop h
      · exact h
    obtain hmem | hmem := List.mem_append.mp hmem
    · exact Or.inl hmem
    · exact Or.inr (List.mem_singleton.mp hmem)

theorem Books.new : Books [] {} where
  inherited := rfl
  below _ h := absurd h List.not_mem_nil
  baseline := rfl
  latest _ _ h := absurd h List.not_mem_nil
  seen _ h := absurd h List.not_mem_nil

theorem atLeast_max_left (left right : UsageTokens) : (left.max right).atLeast left = true := by
  apply UsageTokens.atLeast_iff.mpr
  intro component
  rw [UsageTokens.max, UsageTokens.part_ofParts]
  exact Nat.le_max_left _ _

theorem atLeast_max_right (left right : UsageTokens) : (left.max right).atLeast right = true := by
  apply UsageTokens.atLeast_iff.mpr
  intro component
  rw [UsageTokens.max, UsageTokens.part_ofParts]
  exact Nat.le_max_right _ _

theorem atLeast_trans {first second third : UsageTokens} (h : first.atLeast second = true)
    (h' : second.atLeast third = true) : first.atLeast third = true := by
  apply UsageTokens.atLeast_iff.mpr
  intro component
  exact (UsageTokens.atLeast_iff.mp h' component).trans (UsageTokens.atLeast_iff.mp h component)

theorem atLeast_antisymm {left right : UsageTokens} (h : left.atLeast right = true)
    (h' : right.atLeast left = true) : left = right := by
  apply UsageTokens.ext_parts
  intro component
  exact Nat.le_antisymm (UsageTokens.atLeast_iff.mp h' component)
    (UsageTokens.atLeast_iff.mp h component)

/-- A snapshot with a total that is counted. -/
theorem Books.advance_some {shown : List UsageTokens} (h : Books shown counter)
    (added : UsageTokens) :
    Books (shown ++ [tokens]) ((counter.observe (some tokens)).advance (some tokens) added) where
  inherited := h.inherited
  below total hmem := by
    obtain hmem | hmem := List.mem_append.mp hmem
    · exact atLeast_trans (atLeast_max_left _ _) (h.below total hmem)
    · obtain rfl := List.mem_singleton.mp hmem
      exact atLeast_max_right _ _
  baseline := atLeast_max_right _ _
  latest hsingle total hmem hreaches := by
    have hobserved : counter.interleaved = false ∧ tokens.atLeast counter.watermark = true := by
      have hor : (counter.interleaved || !tokens.atLeast counter.watermark) = false := hsingle
      simpa using hor
    have hself : tokens ∈ remember counter.seen tokens := mem_remember_self _ _
    obtain hmem | hmem := List.mem_append.mp hmem
    · have hle := atLeast_trans hreaches (atLeast_max_right _ _)
      have hge := atLeast_trans hobserved.2 (h.below total hmem)
      rw [atLeast_antisymm hle hge]
      exact hself
    · obtain rfl := List.mem_singleton.mp hmem
      exact hself
  seen total hmem := by
    obtain hmem | rfl := mem_of_mem_remember hmem
    · exact List.mem_append_left _ (h.seen total hmem)
    · exact List.mem_append_right _ (List.mem_singleton_self _)

/-- A snapshot without a total. -/
theorem Books.advance_none {shown : List UsageTokens} (h : Books shown counter)
    (added : UsageTokens) : Books shown ((counter.observe none).advance none added) where
  inherited := h.inherited
  below total hmem := atLeast_trans (atLeast_max_left _ _) (h.below total hmem)
  baseline := atLeast_max_right _ _
  latest hsingle total hmem hreaches := by
    have hbefore : counter.interleaved = false := by
      have hor : (counter.interleaved || false) = false := hsingle
      simpa using hor
    exact h.latest hbefore total hmem (atLeast_trans hreaches (atLeast_max_left _ _))
  seen := h.seen

theorem Books.repeats_iff {shown : List UsageTokens} (h : Books shown counter) :
    counter.repeats tokens = true ↔ tokens ∈ counter.seen := by
  simp [repeats, isInherited, h.inherited]

theorem Books.congr {shown others : List UsageTokens} (h : Books shown counter)
    (hsame : ∀ total, total ∈ others ↔ total ∈ shown) : Books others counter where
  inherited := h.inherited
  below total hmem := h.below total ((hsame total).mp hmem)
  baseline := h.baseline
  latest hsingle total hmem := h.latest hsingle total ((hsame total).mp hmem)
  seen total hmem := (hsame total).mpr (h.seen total hmem)

/-- One snapshot. -/
theorem Books.account {shown : List UsageTokens} (h : Books shown counter) :
    Books (shown ++ total.toList) (counter.account last total).1 := by
  by_cases hboth : last = none ∧ total = none
  · obtain ⟨rfl, rfl⟩ := hboth
    rw [account_none]
    simpa using h
  · cases hnew : total.any counter.repeats with
    | true =>
        cases total with
        | none => cases hnew
        | some tokens =>
            have hrepeats : counter.repeats tokens = true := hnew
            have hshown : tokens ∈ shown := h.seen tokens (h.repeats_iff.mp hrepeats)
            rw [account_of_repeats hrepeats]
            apply h.congr
            intro total
            rw [Option.toList_some, List.mem_append, List.mem_singleton]
            exact ⟨fun hor => hor.elim id fun heq => heq ▸ hshown, Or.inl⟩
    | false =>
        rw [account_of_not_repeats hnew hboth]
        cases total with
        | none => simpa using h.advance_none _
        | some tokens => exact h.advance_some _

/-- What a total that was shown before adds is at most what it is above the counted sum. -/
theorem Books.replay_le {shown : List UsageTokens} (h : Books shown counter)
    (hmem : tokens ∈ shown) (component : Component) :
    (counter.account last (some tokens)).2.part component ≤
      tokens.part component - counter.counted.part component := by
  cases hnew : counter.repeats tokens with
  | true =>
      rw [account_of_repeats hnew, UsageTokens.part_default]
      exact Nat.zero_le _
  | false =>
      have hobserved : (counter.observe (some tokens)).interleaved = true := by
        rw [observe, Bool.or_eq_true]
        cases hsingle : counter.interleaved with
        | true => exact Or.inl rfl
        | false =>
            right
            simp only [Option.any_some, Bool.not_eq_true']
            by_contra hreaches
            have hseen := h.latest hsingle tokens hmem (Bool.eq_true_of_not_eq_false hreaches)
            rw [h.repeats_iff.mpr hseen] at hnew
            cases hnew
      have hcontained : (containedUsage tokens (counter.watermark.max counter.rawBaseline)
          counter.counted).part component ≤
          tokens.part component - counter.counted.part component := by
        rw [containedUsage, UsageTokens.part_ofParts, containedPart]
        split
        · have hle : counter.counted.part component ≤ Max.max
              ((counter.watermark.max counter.rawBaseline).part component)
              (counter.counted.part component) := Nat.le_max_right _ _
          omega
        · exact Nat.le_refl _
      rw [@account_of_not_repeats counter last (some tokens) hnew (by simp)]
      cases last with
      | none =>
          rw [delta, hobserved]
          exact hcontained
      | some last =>
          rw [delta, hobserved, if_pos rfl, UsageTokens.min, UsageTokens.part_ofParts]
          exact (Nat.min_le_right _ _).trans hcontained

end Books

section Totals

/-- Where only totals are shown, all of them up to the watermark is counted. -/
structure OnlyTotals (counter : UsageCounter) : Prop where
  counted : counter.counted = counter.watermark

/-- A new total adds what it has above the watermark. -/
theorem part_delta_none {shown : List UsageTokens} (h : Books shown counter)
    (honly : OnlyTotals counter) (component : Component) :
    ((counter.observe (some tokens)).delta none (some tokens)).part component =
      tokens.part component - counter.watermark.part component := by
  have hbase : (counter.watermark.max counter.rawBaseline).part component =
      counter.watermark.part component := by
    rw [UsageTokens.max, UsageTokens.part_ofParts]
    exact Nat.max_eq_left (UsageTokens.atLeast_iff.mp h.baseline component)
  have hcounted : counter.counted.part component = counter.watermark.part component := by
    rw [honly.counted]
  rw [delta]
  split
  · rw [containedUsage, UsageTokens.part_ofParts, containedPart]
    rw [show (counter.observe (some tokens)).watermark = counter.watermark from rfl,
      show (counter.observe (some tokens)).rawBaseline = counter.rawBaseline from rfl,
      show (counter.observe (some tokens)).counted = counter.counted from rfl, hbase, hcounted]
    split
    · rw [Nat.max_self]
    · rfl
  · rw [UsageTokens.sub, UsageTokens.part_ofParts]
    exact congrArg (tokens.part component - ·) hbase

/-- A snapshot with a total only leaves all up to the new watermark counted. -/
theorem OnlyTotals.account {shown : List UsageTokens} (h : Books shown counter)
    (honly : OnlyTotals counter) (hfits : ∀ total ∈ shown ++ [tokens], total.Fits)
    (hwatermark : counter.watermark.Fits) :
    OnlyTotals (counter.account none (some tokens)).1 ∧
      (counter.account none (some tokens)).1.watermark = counter.watermark.max tokens ∧
      ∀ component, (counter.account none (some tokens)).2.part component =
        tokens.part component - counter.watermark.part component := by
  cases hnew : counter.repeats tokens with
  | true =>
      have hbelow := h.below tokens (h.seen tokens (h.repeats_iff.mp hnew))
      rw [account_of_repeats hnew]
      refine ⟨honly, ?_, ?_⟩
      · apply UsageTokens.ext_parts
        intro component
        rw [UsageTokens.max, UsageTokens.part_ofParts]
        exact (Nat.max_eq_left (UsageTokens.atLeast_iff.mp hbelow component)).symm
      · intro component
        rw [UsageTokens.part_default]
        exact (Nat.sub_eq_zero_of_le (UsageTokens.atLeast_iff.mp hbelow component)).symm
  | false =>
      rw [@account_of_not_repeats counter none (some tokens) hnew (by simp)]
      refine ⟨⟨?_⟩, rfl, fun component => part_delta_none h honly component⟩
      apply UsageTokens.ext_parts
      intro component
      have hadded : ((counter.observe (some tokens)).delta none (some tokens)).part component =
          tokens.part component - counter.watermark.part component :=
        part_delta_none h honly component
      have hcounted : counter.counted.part component = counter.watermark.part component := by
        rw [honly.counted]
      have htotal := hfits tokens (List.mem_append_right _ (List.mem_singleton_self _)) component
      have hmark := hwatermark component
      simp only [advance, observe, UsageTokens.add, UsageTokens.max, UsageTokens.part_ofParts]
      simp only [observe] at hadded
      rw [hadded, hcounted, saturatingAdd]
      simp only [Nat.max_def, Nat.min_def]
      split <;> split <;> omega

end Totals

section Window

/-- A total stands among the last ones, with at most so many after it. -/
def Recent (seen : List UsageTokens) (total : UsageTokens) (distance : Nat) : Prop :=
  ∃ front back, seen = front ++ total :: back ∧ back.length ≤ distance

theorem Recent.mem {seen : List UsageTokens} {distance : Nat} (h : Recent seen tokens distance) :
    tokens ∈ seen := by
  obtain ⟨front, back, rfl, -⟩ := h
  exact List.mem_append_right _ List.mem_cons_self

theorem recent_remember_self (seen : List UsageTokens) (total : UsageTokens) :
    Recent (remember seen total) total 0 := by
  rw [remember]
  split
  next hlast =>
    obtain ⟨front, hseen⟩ := List.getLast?_eq_some_iff.mp hlast
    exact ⟨front, [], hseen, Nat.le_refl 0⟩
  next =>
    split
    next hlong =>
      refine ⟨seen.drop 1, [], ?_, Nat.le_refl 0⟩
      apply List.drop_append_of_le_length
      rw [List.length_append, List.length_singleton] at hlong
      omega
    next => exact ⟨seen, [], rfl, Nat.le_refl 0⟩

/-- A total leaves the window only once 64 others stand after it. -/
theorem Recent.remember {seen : List UsageTokens} {distance : Nat}
    (h : Recent seen tokens distance) (hdistance : distance < 63) (other : UsageTokens) :
    Recent (remember seen other) tokens (distance + 1) := by
  obtain ⟨front, back, rfl, hback⟩ := h
  rw [UsageCounter.remember]
  split
  · exact ⟨front, back, rfl, Nat.le_succ_of_le hback⟩
  · have hlength : (back ++ [other]).length ≤ distance + 1 := by
      rw [List.length_append, List.length_singleton]
      omega
    split
    next hlong =>
      cases front with
      | nil =>
          simp only [List.nil_append, List.cons_append, List.length_cons] at hlong
          omega
      | cons first front =>
          exact ⟨front, back ++ [other], by simp, hlength⟩
    next => exact ⟨front, back ++ [other], by simp, hlength⟩

/-- The window after a snapshot. -/
theorem seen_account (counter : UsageCounter) (last total : Option UsageTokens) :
    (counter.account last total).1.seen = counter.seen ∨
      ∃ tokens, total = some tokens ∧
        (counter.account last total).1.seen = remember counter.seen tokens := by
  rw [account]
  split
  · exact Or.inl rfl
  · split
    · exact Or.inl rfl
    · cases total with
      | none => exact Or.inl rfl
      | some tokens => exact Or.inr ⟨tokens, rfl, rfl⟩

end Window

end UsageCounter


/-- The totals that were shown. -/
def totalsOf (snapshots : List Snapshot) : List UsageTokens := snapshots.filterMap Snapshot.total

section Runs

open UsageCounter

theorem accountAll_concat (before : List Snapshot) (snapshot : Snapshot) :
    accountAll (before ++ [snapshot]) =
      (((accountAll before).1.account snapshot.last snapshot.total).1,
        (accountAll before).2 ++
          [((accountAll before).1.account snapshot.last snapshot.total).2]) := by
  rw [accountAll, List.foldl_append]
  rfl

theorem totalsOf_concat (before : List Snapshot) (snapshot : Snapshot) :
    totalsOf (before ++ [snapshot]) = totalsOf before ++ snapshot.total.toList := by
  rw [totalsOf, List.filterMap_append]
  cases h : snapshot.total <;> simp [totalsOf, h]

/-- The books are kept in every run. -/
theorem books_accountAll (snapshots : List Snapshot) :
    Books (totalsOf snapshots) (accountAll snapshots).1 := by
  induction snapshots using List.reverseRecOn with
  | nil => exact Books.new
  | append_singleton before snapshot ih =>
      rw [accountAll_concat, totalsOf_concat]
      exact ih.account

/-- The largest of some totals in one component. -/
def largest (totals : List UsageTokens) (component : Component) : Nat :=
  (totals.map (UsageTokens.part · component)).foldr Max.max 0

theorem largest_concat (totals : List UsageTokens) (total : UsageTokens) (component : Component) :
    largest (totals ++ [total]) component =
      Max.max (largest totals component) (total.part component) := by
  induction totals with
  | nil => simp [largest]
  | cons first rest ih =>
      have hcons : ∀ totals, largest (first :: totals) component =
          Max.max (first.part component) (largest totals component) := fun _ => rfl
      rw [List.cons_append, hcons, hcons, ih, Nat.max_assoc]

theorem largest_lt {totals : List UsageTokens} (h : ∀ total ∈ totals, total.Fits)
    (component : Component) : largest totals component < 2 ^ 64 := by
  induction totals with
  | nil => exact Nat.two_pow_pos 64
  | cons first rest ih =>
      apply Nat.max_lt.mpr
      constructor
      · exact h first List.mem_cons_self component
      · exact ih fun total hmem => h total (List.mem_cons_of_mem _ hmem)

/-- The tokens that were added in one component. -/
def summed (deltas : List UsageTokens) (component : Component) : Nat :=
  (deltas.map (UsageTokens.part · component)).sum

/-- Where only totals are shown, the sum of what they add is the largest of them. -/
theorem totals_accountAll {snapshots : List Snapshot}
    (hlast : ∀ snapshot ∈ snapshots, snapshot.last = none)
    (hfits : ∀ total ∈ totalsOf snapshots, total.Fits) :
    OnlyTotals (accountAll snapshots).1 ∧
      (∀ component, (accountAll snapshots).1.watermark.part component =
        largest (totalsOf snapshots) component) ∧
      ∀ component, summed (accountAll snapshots).2 component =
        largest (totalsOf snapshots) component := by
  induction snapshots using List.reverseRecOn with
  | nil => exact ⟨⟨rfl⟩, fun component => by cases component <;> rfl, fun _ => rfl⟩
  | append_singleton before snapshot ih =>
      have hbefore : ∀ other ∈ before, other.last = none :=
        fun other hmem => hlast other (List.mem_append_left _ hmem)
      have hnone := hlast snapshot (List.mem_append_right _ (List.mem_singleton_self _))
      rw [totalsOf_concat] at hfits ⊢
      obtain ⟨honly, hmark, hsum⟩ := ih hbefore
        fun total hmem => hfits total (List.mem_append_left _ hmem)
      rw [accountAll_concat, hnone]
      cases htotal : snapshot.total with
      | none =>
          rw [account_none, Option.toList_none, List.append_nil]
          refine ⟨honly, hmark, fun component => ?_⟩
          rw [← hsum component]
          simp [summed]
      | some total =>
          rw [htotal] at hfits
          have hwatermark : (accountAll before).1.watermark.Fits := by
            intro component
            rw [hmark]
            exact largest_lt (fun total hmem => hfits total (List.mem_append_left _ hmem)) component
          obtain ⟨honly', hmark', hadded⟩ :=
            honly.account (books_accountAll before) hfits hwatermark
          refine ⟨honly', fun component => ?_, fun component => ?_⟩
          · rw [hmark', Option.toList_some, largest_concat, ← hmark, UsageTokens.max,
              UsageTokens.part_ofParts]
          · have hnew := hadded component
            rw [hmark] at hnew
            have hgrow : summed ((accountAll before).2 ++
                [((accountAll before).1.account none (some total)).2]) component =
                summed (accountAll before).2 component +
                  (total.part component - largest (totalsOf before) component) := by
              rw [← hnew]
              simp [summed]
            rw [hgrow, Option.toList_some, largest_concat, hsum]
            omega

/-- A total that was counted is in the window as long as at most 63 others were shown. -/
theorem recent_accountAll {early late : List Snapshot} {counted : Snapshot} {total : UsageTokens}
    (htotal : counted.total = some total)
    (hnew : (accountAll early).1.repeats total = false)
    (hlate : (totalsOf late).length ≤ 63) :
    Recent (accountAll (early ++ [counted] ++ late)).1.seen total (totalsOf late).length := by
  induction late using List.reverseRecOn with
  | nil =>
      rw [List.append_nil, accountAll_concat, htotal]
      rw [@account_of_not_repeats _ _ (some total) hnew (by simp)]
      exact recent_remember_self _ _
  | append_singleton late snapshot ih =>
      rw [totalsOf_concat, List.length_append] at hlate ⊢
      have hrecent := ih (by omega)
      rw [← List.append_assoc, accountAll_concat]
      obtain hsame | ⟨tokens, hsome, hseen⟩ := seen_account
        (accountAll (early ++ [counted] ++ late)).1 snapshot.last snapshot.total
      · obtain ⟨front, back, hseen, hback⟩ := hrecent
        exact ⟨front, back, hsame.trans hseen, by omega⟩
      · rw [hsome, Option.toList_some, List.length_singleton] at hlate ⊢
        dsimp only
        rw [← hsome, hseen]
        exact hrecent.remember (by omega) tokens

/-- What a snapshot adds after others. -/
def added (before : List Snapshot) (snapshot : Snapshot) : UsageTokens :=
  ((accountAll before).1.account snapshot.last snapshot.total).2

/-- A snapshot adds no more than its `last`. One whose total was shown before adds no more than
the total is above the counted sum, and nothing as long as at most 63 totals were shown since it
was counted. Where only totals are shown, the sum of what they add is the largest of them. -/
theorem codex_usage_counted_once (before : List Snapshot) (snapshot : Snapshot) :
    (∀ last ∈ snapshot.last, ∀ component,
        (added before snapshot).part component ≤ last.part component) ∧
      (∀ total ∈ snapshot.total, total ∈ totalsOf before → ∀ component,
        (added before snapshot).part component ≤
          total.part component - (accountAll before).1.counted.part component) ∧
      (∀ total ∈ snapshot.total, ∀ early counted late, before = early ++ [counted] ++ late →
        counted.total = some total → (accountAll early).1.repeats total = false →
          (totalsOf late).length ≤ 63 → added before snapshot = default) ∧
      ((∀ shown ∈ before, shown.last = none) → (∀ total ∈ totalsOf before, total.Fits) →
        ∀ component, summed (accountAll before).2 component =
          largest (totalsOf before) component) := by
  obtain ⟨last, total⟩ := snapshot
  refine ⟨?_, ?_, ?_, ?_⟩
  · rintro last ⟨⟩ component
    exact account_le_last component
  · rintro total ⟨⟩ hmem component
    exact (books_accountAll before).replay_le hmem component
  · rintro total ⟨⟩ early counted late rfl htotal hnew hlate
    have hseen := (recent_accountAll htotal hnew hlate).mem
    rw [added]
    dsimp only
    rw [account_of_repeats ((books_accountAll _).repeats_iff.mpr hseen)]
  · intro hlast hfits
    exact (totals_accountAll hlast hfits).2.2

/-- A snapshot of input tokens. -/
def inputCount (last total : Nat) : Snapshot where
  last := some { input := last }
  total := some { input := total }

/-- After 64 further totals of a stream whose first total was far above its `last`, the first
snapshot is counted once more. -/
theorem distant_replay_counts_again :
    added ((List.range 65).map fun index => inputCount 1 (1000 + index)) (inputCount 1 1000) =
      { input := 1 } := by
  decide +kernel

end Runs

end Memex.Codex
