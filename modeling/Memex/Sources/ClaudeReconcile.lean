import Mathlib.Data.List.Count
import Memex.Lib.FirstBest
import Memex.Sources.ClaudeUsage

/-! # Claude events that were logged twice

Of the copies of one response the first best is kept, and of the copies of one message those of
the main conversation. What `reconcile_usage` keeps is told here by the events alone. -/

namespace Memex.Sources.Claude

open Usage FirstBest

section Choice

/-- The comparison is by the sidechain flag, the place, the tokens and the line, in this order. -/
theorem ranks_chooseUsage : Ranks chooseUsage where
  total left right := by
    simp only [chooseUsage]
    grind
  trans first second third h h' := by
    simp only [chooseUsage] at *
    grind

/-- A copy of the main conversation is better than one of a sidechain. -/
theorem sidechain_of_chooseUsage {left right : UsageEvent} (h : chooseUsage left right = true)
    (hleft : left.sidechain = true) : right.sidechain = true := by
  by_contra hright
  rw [Bool.not_eq_true] at hright
  rw [chooseUsage] at h
  simp [hleft, hright] at h

end Choice

/-- The message and the request of a Claude event that has both. -/
def pairOf (event : UsageEvent) : Option (String × String) :=
  if event.source = "claude" then
    match event.messageId, event.requestId with
    | some message, some request => some (message, request)
    | _, _ => none
  else none

/-- A Claude event of a message. -/
def isOfMessage (message : String) (event : UsageEvent) : Bool :=
  event.source = "claude" && event.messageId = some message

/-- The copies of a response. -/
def copies (events : List UsageEvent) (pair : String × String) : List UsageEvent :=
  events.filter fun event => pairOf event = some pair

/-- The first of the copies of a response that no other is better than. -/
def firstBestCopy (events : List UsageEvent) (pair : String × String) : Option UsageEvent :=
  (copies events pair).find? fun event => (copies events pair).all (chooseUsage event)

/-- A sidechain copy of a message that the main conversation has as well. -/
def superseded (events : List UsageEvent) (event : UsageEvent) : Bool :=
  event.source = "claude" && event.sidechain && event.messageId.any fun message =>
    events.any fun other => isOfMessage message other && !other.sidechain

section Pass

abbrev Entry := UsageEvent × Nat

/-- The entry of a response that is kept. -/
def bestEntry (entries : List Entry) (pair : String × String) : Option Entry :=
  champion (fun left right => chooseUsage left.1 right.1)
    (entries.filter fun entry => pairOf entry.1 = some pair)

theorem ExactPass.offer_none {pass : ExactPass} {entry : Entry} (h : pairOf entry.1 = none) :
    pass.offer entry = pass := by
  obtain ⟨event, index⟩ := entry
  simp only [pairOf] at h
  simp only [ExactPass.offer]
  by_cases hsource : event.source = "claude"
  · rw [if_neg (not_not.mpr hsource)]
    rw [if_pos hsource] at h
    cases hmessage : event.messageId with
    | none => rfl
    | some message =>
        cases hrequest : event.requestId with
        | none => rfl
        | some request =>
            rw [hmessage, hrequest] at h
            cases h
  · rw [if_pos hsource]

theorem ExactPass.offer_some {pass : ExactPass} {entry : Entry} {pair : String × String}
    (h : pairOf entry.1 = some pair) :
    pass.offer entry =
      match pass.best.lookup pair with
      | some (previous, kept) =>
          if chooseUsage kept entry.1 then { pass with dropped := entry.2 :: pass.dropped }
          else
            { best := (pair, entry.2, entry.1) :: pass.best
              dropped := previous :: pass.dropped }
      | none => { pass with best := (pair, entry.2, entry.1) :: pass.best } := by
  obtain ⟨event, index⟩ := entry
  simp only [pairOf] at h
  simp only [ExactPass.offer]
  by_cases hsource : event.source = "claude"
  · rw [if_neg (not_not.mpr hsource)]
    rw [if_pos hsource] at h
    cases hmessage : event.messageId with
    | none =>
        rw [hmessage] at h
        cases h
    | some message =>
        cases hrequest : event.requestId with
        | none =>
            rw [hmessage, hrequest] at h
            cases h
        | some request =>
            rw [hmessage, hrequest] at h
            obtain rfl := Option.some.inj h
            rfl
  · rw [if_neg hsource] at h
    cases h

/-- What the first loop knows of the entries it has seen. -/
structure ExactPass.Knows (pass : ExactPass) (entries : List Entry) : Prop where
  best : ∀ pair, pass.best.lookup pair =
    (bestEntry entries pair).map fun entry => (entry.2, entry.1)
  dropped : ∀ entry ∈ entries, (entry.2 ∈ pass.dropped ↔
    ∃ pair, pairOf entry.1 = some pair ∧ bestEntry entries pair ≠ some entry)

theorem bestEntry_concat (entries : List Entry) (entry : Entry) (pair : String × String) :
    bestEntry (entries ++ [entry]) pair =
      if pairOf entry.1 = some pair then
        offer (fun left right : Entry => chooseUsage left.1 right.1) (bestEntry entries pair) entry
      else bestEntry entries pair := by
  rw [bestEntry, List.filter_append, List.filter_singleton]
  split
  next h =>
    rw [decide_eq_true h, cond_true, champion_concat]
    rfl
  next h =>
    rw [decide_eq_false h, cond_false, List.append_nil]
    rfl

theorem pairOf_of_bestEntry {entries : List Entry} {entry : Entry} {pair : String × String}
    (h : bestEntry entries pair = some entry) :
    entry ∈ entries ∧ pairOf entry.1 = some pair := by
  have hmem := List.mem_filter.mp (mem_of_champion h)
  exact ⟨hmem.1, of_decide_eq_true hmem.2⟩

/-- One more entry, at a place of its own. -/
theorem ExactPass.Knows.offer {pass : ExactPass} {entries : List Entry} {entry : Entry}
    (h : pass.Knows entries) (hnodup : ((entries ++ [entry]).map Prod.snd).Nodup)
    (hpast : ∀ index ∈ pass.dropped, index ∈ entries.map Prod.snd) :
    (pass.offer entry).Knows (entries ++ [entry]) ∧
      ∀ index ∈ (pass.offer entry).dropped, index ∈ (entries ++ [entry]).map Prod.snd := by
  rw [List.map_append] at hnodup
  have hnew : entry.2 ∉ entries.map Prod.snd :=
    fun hmem => (List.nodup_append'.mp hnodup).2.2 hmem (List.mem_singleton_self _)
  have hunique : ∀ left ∈ entries, ∀ right ∈ entries, left.2 = right.2 → left = right :=
    fun left hleft right hright => List.inj_on_of_nodup_map
      (List.nodup_append'.mp hnodup).1 hleft hright
  have hother : ∀ other ∈ entries, other.2 ≠ entry.2 :=
    fun other hmem heq => hnew (heq ▸ List.mem_map_of_mem hmem)
  have hpast' : ∀ index ∈ pass.dropped, index ∈ (entries ++ [entry]).map Prod.snd := by
    intro index hmem
    rw [List.map_append]
    exact List.mem_append_left _ (hpast index hmem)
  have hlast : entry.2 ∈ (entries ++ [entry]).map Prod.snd :=
    List.mem_map_of_mem (List.mem_append_right _ (List.mem_singleton_self _))
  have hundropped : entry.2 ∉ pass.dropped := fun hdropped => hnew (hpast _ hdropped)
  cases hpair : pairOf entry.1 with
  | none =>
      rw [ExactPass.offer_none hpair]
      have hsame : ∀ pair, bestEntry (entries ++ [entry]) pair = bestEntry entries pair := by
        intro pair
        rw [bestEntry_concat, if_neg]
        rw [hpair]
        exact fun hfalse => (nomatch hfalse)
      refine ⟨⟨fun pair => by rw [hsame, h.best], fun other hmem => ?_⟩, hpast'⟩
      obtain hmem | hmem := List.mem_append.mp hmem
      · simp only [hsame]
        exact h.dropped other hmem
      · obtain rfl := List.mem_singleton.mp hmem
        refine iff_of_false hundropped ?_
        rintro ⟨pair, hsome, -⟩
        rw [hpair] at hsome
        cases hsome
  | some pair =>
      have hapart : ∀ other, other ≠ pair →
          bestEntry (entries ++ [entry]) other = bestEntry entries other := by
        intro other hne
        rw [bestEntry_concat, if_neg]
        rw [hpair]
        exact fun heq => hne (Option.some.inj heq).symm
      have hnow : bestEntry (entries ++ [entry]) pair =
          FirstBest.offer (fun left right : Entry => chooseUsage left.1 right.1)
            (bestEntry entries pair) entry := by
        rw [bestEntry_concat, if_pos hpair]
      have hlookup : ∀ other, other ≠ pair →
          ((pair, entry.2, entry.1) :: pass.best).lookup other = pass.best.lookup other := by
        intro other hne
        rw [List.lookup_cons, beq_eq_false_iff_ne.mpr hne]
      rw [ExactPass.offer_some hpair, h.best]
      cases hbest : bestEntry entries pair with
      | none =>
          rw [hbest] at hnow
          refine ⟨⟨fun other => ?_, fun other hmem => ?_⟩, hpast'⟩
          · by_cases hne : other = pair
            · rw [hne, hnow]
              exact List.lookup_cons_self
            · rw [hapart other hne, ← h.best]
              exact hlookup other hne
          · obtain hmem | hmem := List.mem_append.mp hmem
            · refine (h.dropped other hmem).trans (exists_congr fun third => and_congr_right ?_)
              intro hthird
              rw [hapart]
              rintro rfl
              have hempty := champion_eq_none.mp hbest
              have hin : other ∈ entries.filter fun entry => pairOf entry.1 = some third :=
                List.mem_filter.mpr ⟨hmem, decide_eq_true hthird⟩
              rw [hempty] at hin
              cases hin
            · obtain rfl := List.mem_singleton.mp hmem
              refine iff_of_false hundropped ?_
              rintro ⟨third, hthird, hne⟩
              obtain rfl := Option.some.inj (hpair.symm.trans hthird)
              exact hne hnow
      | some kept =>
          obtain ⟨hkept, hkeptPair⟩ := pairOf_of_bestEntry hbest
          rw [hbest, FirstBest.offer.eq_def] at hnow
          rw [Option.map_some]
          dsimp only at hnow ⊢
          by_cases hwins : chooseUsage kept.1 entry.1 = true
          · rw [if_pos hwins] at hnow ⊢
            have hsame : ∀ other, bestEntry (entries ++ [entry]) other =
                bestEntry entries other := by
              intro other
              by_cases hne : other = pair
              · rw [hne, hnow, hbest]
              · exact hapart other hne
            refine ⟨⟨fun other => by rw [hsame, h.best], fun other hmem => ?_⟩, ?_⟩
            · simp only [hsame, List.mem_cons]
              obtain hmem | hmem := List.mem_append.mp hmem
              · rw [or_iff_right (hother other hmem)]
                exact h.dropped other hmem
              · obtain rfl := List.mem_singleton.mp hmem
                refine iff_of_true (Or.inl rfl) ⟨pair, hpair, ?_⟩
                rw [hbest]
                rintro ⟨⟩
                exact hother _ hkept rfl
            · intro index hmem
              obtain rfl | hmem := List.mem_cons.mp hmem
              · exact hlast
              · exact hpast' index hmem
          · rw [if_neg hwins] at hnow ⊢
            refine ⟨⟨fun other => ?_, fun other hmem => ?_⟩, ?_⟩
            · by_cases hne : other = pair
              · rw [hne, hnow]
                exact List.lookup_cons_self
              · rw [hapart other hne, ← h.best]
                exact hlookup other hne
            · rw [List.mem_cons]
              obtain hmem | hmem := List.mem_append.mp hmem
              · rw [h.dropped other hmem]
                constructor
                · rintro (heq | ⟨third, hthird, hne⟩)
                  · obtain rfl := hunique _ hmem _ hkept heq
                    refine ⟨pair, hkeptPair, ?_⟩
                    rw [hnow]
                    rintro ⟨⟩
                    exact hother _ hmem rfl
                  · refine ⟨third, hthird, ?_⟩
                    by_cases hthirdPair : third = pair
                    · rw [hthirdPair, hnow]
                      rintro ⟨⟩
                      exact hother _ hmem rfl
                    · rw [hapart third hthirdPair]
                      exact hne
                · rintro ⟨third, hthird, hne⟩
                  by_cases hthirdPair : third = pair
                  · by_cases hsame : other.2 = kept.2
                    · exact Or.inl hsame
                    · refine Or.inr ⟨third, hthird, ?_⟩
                      rw [hthirdPair, hbest]
                      rintro ⟨⟩
                      exact hsame rfl
                  · rw [hapart third hthirdPair] at hne
                    exact Or.inr ⟨third, hthird, hne⟩
              · obtain rfl := List.mem_singleton.mp hmem
                refine iff_of_false ?_ ?_
                · rintro (heq | hdropped)
                  · exact hother kept hkept heq.symm
                  · exact hundropped hdropped
                · rintro ⟨third, hthird, hne⟩
                  obtain rfl := Option.some.inj (hpair.symm.trans hthird)
                  exact hne hnow
            · intro index hmem
              obtain rfl | hmem := List.mem_cons.mp hmem
              · rw [List.map_append]
                exact List.mem_append_left _ (List.mem_map_of_mem hkept)
              · exact hpast' index hmem

theorem ExactPass.knows_foldl {entries : List Entry}
    (hnodup : (entries.map Prod.snd).Nodup) :
    (entries.foldl ExactPass.offer {}).Knows entries ∧
      ∀ index ∈ (entries.foldl ExactPass.offer {}).dropped, index ∈ entries.map Prod.snd := by
  induction entries using List.reverseRecOn with
  | nil =>
      refine ⟨⟨fun _ => rfl, fun _ hmem => absurd hmem List.not_mem_nil⟩, ?_⟩
      exact fun _ hmem => absurd hmem List.not_mem_nil
  | append_singleton before entry ih =>
      have hbefore : (before.map Prod.snd).Nodup := by
        rw [List.map_append] at hnodup
        exact hnodup.of_append_left
      obtain ⟨hknows, hpast⟩ := ih hbefore
      rw [List.foldl_append]
      exact hknows.offer hnodup hpast

end Pass

section Kept

variable {events : List UsageEvent} {entry : Entry} {event : UsageEvent}

/-- An entry is kept by the first loop unless it is a copy that is not the best. -/
def keepsCopy (events : List UsageEvent) (entry : Entry) : Bool :=
  (pairOf entry.1).all fun pair => bestEntry events.zipIdx pair = some entry

/-- The entries that the first loop keeps. -/
def keptEntries (events : List UsageEvent) : List Entry :=
  events.zipIdx.filter (keepsCopy events)

theorem nodup_zipIdx (events : List UsageEvent) : (events.zipIdx.map Prod.snd).Nodup := by
  rw [List.zipIdx_map_snd]
  exact List.nodup_range'

theorem keptEntries_eq (events : List UsageEvent) :
    (events.zipIdx.filter fun entry =>
      entry.2 ∉ (events.zipIdx.foldl ExactPass.offer {}).dropped) = keptEntries events := by
  apply List.filter_congr
  intro entry hmem
  have hdropped := (ExactPass.knows_foldl (nodup_zipIdx events)).1.dropped entry hmem
  rw [keepsCopy, Bool.eq_iff_iff, decide_eq_true_iff, hdropped]
  cases hpair : pairOf entry.1 with
  | none => simp
  | some pair => simp

/-- The best entry of a pair is the first best copy, with its place. -/
theorem map_bestEntry (events : List UsageEvent) (pair : String × String) :
    (bestEntry events.zipIdx pair).map Prod.fst = firstBestCopy events pair := by
  have hcopies : (events.zipIdx.filter fun entry => pairOf entry.1 = some pair).map Prod.fst =
      copies events pair := by
    rw [copies]
    conv_rhs => rw [← List.zipIdx_map_fst 0 events, List.filter_map]
    rfl
  rw [bestEntry, ← champion_map Prod.fst, hcopies, champion_eq_find? ranks_chooseUsage]
  rfl

/-- The best copy of a response is one of its copies and no copy is better. -/
theorem firstBestCopy_spec {pair : String × String} {best : UsageEvent}
    (h : firstBestCopy events pair = some best) :
    best ∈ events ∧ pairOf best = some pair ∧
      ∀ other ∈ events, pairOf other = some pair → chooseUsage best other = true := by
  have hmem := List.mem_filter.mp (List.mem_of_find?_eq_some h)
  refine ⟨hmem.1, of_decide_eq_true hmem.2, fun other hother hpair => ?_⟩
  have hall := List.find?_some h
  rw [List.all_eq_true] at hall
  exact hall other (List.mem_filter.mpr ⟨hother, decide_eq_true hpair⟩)

theorem exists_firstBestCopy {pair : String × String} (hmem : event ∈ events)
    (hpair : pairOf event = some pair) : ∃ best, firstBestCopy events pair = some best := by
  rw [← Option.isSome_iff_exists, firstBestCopy, ← champion_eq_find? ranks_chooseUsage]
  apply champion_isSome
  apply List.ne_nil_of_mem
  exact List.mem_filter.mpr ⟨hmem, decide_eq_true hpair⟩

theorem messageId_of_pairOf {pair : String × String} (h : pairOf event = some pair) :
    event.source = "claude" ∧ event.messageId = some pair.1 := by
  rw [pairOf] at h
  split at h
  next hsource =>
    split at h
    next message request hmessage hrequest =>
      obtain rfl := Option.some.inj h
      exact ⟨hsource, hmessage⟩
    · cases h
  · cases h

theorem mem_keptEntries_iff :
    event ∈ (keptEntries events).map Prod.fst ↔
      event ∈ events ∧ ∀ pair, pairOf event = some pair →
        firstBestCopy events pair = some event := by
  constructor
  · intro hmem
    obtain ⟨entry, hentry, rfl⟩ := List.mem_map.mp hmem
    obtain ⟨hzip, hkeeps⟩ := List.mem_filter.mp hentry
    refine ⟨List.fst_mem_of_mem_zipIdx hzip, fun pair hpair => ?_⟩
    rw [keepsCopy, hpair] at hkeeps
    rw [← map_bestEntry, of_decide_eq_true hkeeps]
    rfl
  · rintro ⟨hmem, hbest⟩
    cases hpair : pairOf event with
    | none =>
        rw [← List.zipIdx_map_fst 0 events] at hmem
        obtain ⟨entry, hentry, rfl⟩ := List.mem_map.mp hmem
        apply List.mem_map_of_mem
        refine List.mem_filter.mpr ⟨hentry, ?_⟩
        rw [keepsCopy, hpair]
        rfl
    | some pair =>
        have hfirst := hbest pair hpair
        rw [← map_bestEntry] at hfirst
        obtain ⟨entry, hentry, rfl⟩ := Option.map_eq_some_iff.mp hfirst
        apply List.mem_map_of_mem
        refine List.mem_filter.mpr ⟨(pairOf_of_bestEntry hentry).1, ?_⟩
        rw [keepsCopy, hpair]
        exact decide_eq_true hentry

/-- A message that the main conversation has is kept of it. -/
theorem exists_kept_main {message : String} {other : UsageEvent} (hmem : other ∈ events)
    (hmessage : isOfMessage message other = true) (hmain : other.sidechain = false) :
    ∃ kept ∈ (keptEntries events).map Prod.fst,
      isOfMessage message kept = true ∧ kept.sidechain = false := by
  cases hpair : pairOf other with
  | none =>
      refine ⟨other, mem_keptEntries_iff.mpr ⟨hmem, fun pair hsome => ?_⟩, hmessage, hmain⟩
      rw [hpair] at hsome
      cases hsome
  | some pair =>
      obtain ⟨best, hbest⟩ := exists_firstBestCopy hmem hpair
      obtain ⟨hbestMem, hbestPair, hwins⟩ := firstBestCopy_spec hbest
      have hsame : other.messageId = best.messageId := by
        rw [(messageId_of_pairOf hpair).2, (messageId_of_pairOf hbestPair).2]
      refine ⟨best, mem_keptEntries_iff.mpr ⟨hbestMem, fun third hthird => ?_⟩, ?_, ?_⟩
      · rw [← Option.some.inj (hbestPair.symm.trans hthird)]
        exact hbest
      · rw [isOfMessage, Bool.and_eq_true, decide_eq_true_iff, decide_eq_true_iff] at hmessage ⊢
        exact ⟨(messageId_of_pairOf hbestPair).1, hsame ▸ hmessage.2⟩
      · by_contra hside
        have hother := sidechain_of_chooseUsage (hwins other hmem hpair)
          ((Bool.not_eq_false _).mp hside)
        rw [hmain] at hother
        cases hother

theorem two_le_length {α : Type*} {left right : α} {items : List α} (hleft : left ∈ items)
    (hright : right ∈ items) (hne : left ≠ right) : 2 ≤ items.length := by
  match items with
  | [] => cases hleft
  | [item] =>
      rw [List.mem_singleton] at hleft hright
      exact absurd (hleft.trans hright.symm) hne
  | _ :: _ :: _ => simp

theorem mem_messageGroup {kept : List Entry} {message : String} {other : UsageEvent} :
    other ∈ messageGroup kept message ↔
      other ∈ kept.map Prod.fst ∧ isOfMessage message other = true := by
  constructor
  · intro hmem
    obtain ⟨entry, hentry, rfl⟩ := List.mem_map.mp hmem
    obtain ⟨hkept, hmessage⟩ := List.mem_filter.mp hentry
    exact ⟨List.mem_map_of_mem hkept, hmessage⟩
  · rintro ⟨hmem, hmessage⟩
    obtain ⟨entry, hentry, rfl⟩ := List.mem_map.mp hmem
    exact List.mem_map_of_mem (List.mem_filter.mpr ⟨hentry, hmessage⟩)

/-- The second loop drops the superseded copies among those that the first one keeps. -/
theorem isSidechainCopy_iff (hmem : event ∈ (keptEntries events).map Prod.fst) :
    isSidechainCopy (keptEntries events) event = true ↔ superseded events event = true := by
  simp only [isSidechainCopy, superseded, Bool.and_eq_true, decide_eq_true_iff,
    Option.any_eq_true, List.any_eq_true, Bool.not_eq_true']
  constructor
  · rintro ⟨hsource, message, hmessage, ⟨-, other, hother, hmain⟩, hside⟩
    obtain ⟨hkept, hsame⟩ := mem_messageGroup.mp hother
    exact ⟨⟨hsource, hside⟩, message, hmessage, other, (mem_keptEntries_iff.mp hkept).1,
      hsame, hmain⟩
  · rintro ⟨⟨hsource, hside⟩, message, hmessage, other, hother, hsame, hmain⟩
    obtain ⟨kept, hkept, hkeptMessage, hkeptMain⟩ := exists_kept_main hother hsame hmain
    have hgroup : kept ∈ messageGroup (keptEntries events) message :=
      mem_messageGroup.mpr ⟨hkept, hkeptMessage⟩
    have hself : event ∈ messageGroup (keptEntries events) message := by
      refine mem_messageGroup.mpr ⟨hmem, ?_⟩
      rw [isOfMessage, Bool.and_eq_true]
      exact ⟨decide_eq_true hsource, decide_eq_true hmessage⟩
    refine ⟨hsource, message, hmessage, ⟨?_, kept, hgroup, hkeptMain⟩, hside⟩
    apply two_le_length hself hgroup
    rintro rfl
    rw [hside] at hkeptMain
    cases hkeptMain

/-- What is left of the events. -/
theorem reconcileUsage_eq (events : List UsageEvent) :
    reconcileUsage events =
      ((keptEntries events).map Prod.fst).filter fun event => !superseded events event := by
  rw [reconcileUsage, keptEntries_eq, List.filter_map]
  congr 1
  apply List.filter_congr
  intro entry hmem
  have hcopy := isSidechainCopy_iff (List.mem_map_of_mem (f := Prod.fst) hmem)
  exact congrArg not (Bool.eq_iff_iff.mpr hcopy)

theorem mem_reconcileUsage_iff :
    event ∈ reconcileUsage events ↔ event ∈ events ∧ superseded events event = false ∧
      ∀ pair, pairOf event = some pair → firstBestCopy events pair = some event := by
  rw [reconcileUsage_eq, List.mem_filter, mem_keptEntries_iff, Bool.not_eq_true']
  tauto

/-- Of the copies of a response at most one is left. -/
theorem copies_reconcileUsage_le (events : List UsageEvent) (pair : String × String) :
    (copies (reconcileUsage events) pair).length ≤ 1 := by
  let isCopy : UsageEvent → Bool := fun event => pairOf event = some pair
  have hkept : ((keptEntries events).filter fun entry => isCopy entry.1).length ≤ 1 := by
    have hnodup : ((keptEntries events).filter fun entry => isCopy entry.1).Nodup :=
      ((nodup_zipIdx events).of_map _).filter _ |>.filter _
    cases hbest : bestEntry events.zipIdx pair with
    | none =>
        have hempty : ((keptEntries events).filter fun entry => isCopy entry.1) = [] := by
          rw [List.filter_eq_nil_iff]
          intro entry hmem hcopy
          have hkeeps := (List.mem_filter.mp hmem).2
          rw [keepsCopy, of_decide_eq_true hcopy, Option.all_some, hbest] at hkeeps
          simp at hkeeps
        simp [hempty]
    | some best =>
        have hsame : ∀ entry ∈ (keptEntries events).filter fun entry => isCopy entry.1,
            entry = best := by
          intro entry hmem
          obtain ⟨hentry, hcopy⟩ := List.mem_filter.mp hmem
          have hkeeps := (List.mem_filter.mp hentry).2
          rw [keepsCopy, of_decide_eq_true hcopy, Option.all_some, hbest] at hkeeps
          exact (Option.some.inj (of_decide_eq_true hkeeps)).symm
        rw [List.eq_replicate_of_mem hsame] at hnodup
        exact List.nodup_replicate.mp hnodup
  calc (copies (reconcileUsage events) pair).length
      ≤ (((keptEntries events).map Prod.fst).filter isCopy).length := by
        rw [reconcileUsage_eq]
        exact (List.filter_sublist.filter isCopy).length_le
    _ = ((keptEntries events).filter fun entry => isCopy entry.1).length := by
        rw [List.filter_map, List.length_map]
        rfl
    _ ≤ 1 := hkept

theorem pairOf_eq_none (h : event.source ≠ "claude" ∨ event.messageId = none) :
    pairOf event = none := by
  rw [pairOf]
  obtain h | h := h
  · rw [if_neg h]
  · rw [h]
    split <;> rfl

theorem superseded_eq_false (h : event.source ≠ "claude" ∨ event.messageId = none) :
    superseded events event = false := by
  obtain h | h := h
  · simp [superseded, h]
  · simp [superseded, h]

/-- How often an event without a pair is left. -/
theorem count_reconcileUsage_of_none (hpair : pairOf event = none) :
    (reconcileUsage events).count event =
      if superseded events event = true then 0 else events.count event := by
  split
  next hsuperseded =>
    rw [List.count_eq_zero, mem_reconcileUsage_iff, hsuperseded]
    rintro ⟨-, hfalse, -⟩
    cases hfalse
  next hstays =>
    have hkeeps : ((keptEntries events).map Prod.fst).count event = events.count event := by
      conv_rhs => rw [← List.zipIdx_map_fst 0 events]
      rw [List.count_eq_countP, List.count_eq_countP, List.countP_map, List.countP_map, keptEntries,
        List.countP_filter]
      apply List.countP_congr
      intro entry _
      simp only [Function.comp, Bool.and_eq_true, beq_iff_eq, and_iff_left_iff_imp]
      rintro rfl
      rw [keepsCopy, hpair]
      rfl
    rw [reconcileUsage_eq, List.count_filter, hkeeps]
    rw [Bool.not_eq_true', ← Bool.not_eq_true]
    exact hstays

/-- How often a copy is left. -/
theorem count_reconcileUsage_of_some {pair : String × String} (hpair : pairOf event = some pair) :
    (reconcileUsage events).count event = if event ∈ reconcileUsage events then 1 else 0 := by
  split
  next hmem =>
    apply Nat.le_antisymm
    · calc (reconcileUsage events).count event
          = (copies (reconcileUsage events) pair).count event := by
            rw [copies, List.count_filter]
            exact decide_eq_true hpair
        _ ≤ (copies (reconcileUsage events) pair).length := List.count_le_length
        _ ≤ 1 := copies_reconcileUsage_le events pair
    · exact List.count_pos_iff.mpr hmem
  next hnot => exact List.count_eq_zero.mpr hnot

/-- A message keeps one of its events. -/
theorem exists_of_message {message : String} (hmem : event ∈ events)
    (hmessage : event.messageId = some message) :
    ∃ kept ∈ reconcileUsage events,
      kept.source = event.source ∧ kept.messageId = some message := by
  by_cases hsource : event.source = "claude"
  · by_cases hmain : ∃ other ∈ events, isOfMessage message other = true ∧ other.sidechain = false
    · obtain ⟨other, hother, hsame, hmain⟩ := hmain
      obtain ⟨kept, hkept, hkeptMessage, hkeptMain⟩ := exists_kept_main hother hsame hmain
      obtain ⟨hin, hbest⟩ := mem_keptEntries_iff.mp hkept
      rw [isOfMessage, Bool.and_eq_true, decide_eq_true_iff, decide_eq_true_iff] at hkeptMessage
      refine ⟨kept, mem_reconcileUsage_iff.mpr ⟨hin, ?_, hbest⟩, ?_, hkeptMessage.2⟩
      · simp [superseded, hkeptMain]
      · rw [hkeptMessage.1, hsource]
    · have hstays : ∀ other, other.messageId = some message →
          superseded events other = false := by
        intro other hother
        rw [superseded, hother, Option.any_some, List.any_eq_false.mpr, Bool.and_false]
        intro third hthird hboth
        rw [Bool.and_eq_true, Bool.not_eq_true'] at hboth
        exact hmain ⟨third, hthird, hboth.1, hboth.2⟩
      cases hpair : pairOf event with
      | none =>
          refine ⟨event, mem_reconcileUsage_iff.mpr ⟨hmem, hstays event hmessage, ?_⟩,
            rfl, hmessage⟩
          intro pair hsome
          rw [hpair] at hsome
          cases hsome
      | some pair =>
          obtain ⟨best, hbest⟩ := exists_firstBestCopy hmem hpair
          obtain ⟨hbestMem, hbestPair, -⟩ := firstBestCopy_spec hbest
          have hsame : best.messageId = some message := by
            rw [(messageId_of_pairOf hbestPair).2, ← (messageId_of_pairOf hpair).2, hmessage]
          refine ⟨best, mem_reconcileUsage_iff.mpr ⟨hbestMem, hstays best hsame, ?_⟩, ?_, hsame⟩
          · intro third hthird
            obtain rfl := Option.some.inj (hbestPair.symm.trans hthird)
            exact hbest
          · rw [(messageId_of_pairOf hbestPair).1, hsource]
  · refine ⟨event, mem_reconcileUsage_iff.mpr ⟨hmem, ?_, ?_⟩, rfl, hmessage⟩
    · exact superseded_eq_false (Or.inl hsource)
    · intro pair hsome
      rw [pairOf_eq_none (Or.inl hsource)] at hsome
      cases hsome

/-- A sublist that has every item as often is the list. -/
theorem eq_of_sublist_of_count {α : Type*} [DecidableEq α] {part items : List α}
    (h : part.Sublist items) (hcount : ∀ item, part.count item = items.count item) :
    part = items :=
  h.eq_of_length (List.perm_iff_count.mpr hcount).length_eq

/-- An event that the reconciliation leaves alone: of another source, or without a message. -/
def isUntouched (event : UsageEvent) : Bool :=
  event.source ≠ "claude" || event.messageId = none

theorem isUntouched_iff :
    isUntouched event = true ↔ event.source ≠ "claude" ∨ event.messageId = none := by
  rw [isUntouched, Bool.or_eq_true, decide_eq_true_iff, decide_eq_true_iff]

/-- The events that are left alone stay, in their order. -/
theorem filter_isUntouched (events : List UsageEvent) :
    (reconcileUsage events).filter isUntouched = events.filter isUntouched := by
  apply eq_of_sublist_of_count ((reconcileUsage_sublist events).filter _)
  intro event
  by_cases hevent : isUntouched event = true
  · have huntouched := isUntouched_iff.mp hevent
    rw [List.count_filter hevent, List.count_filter hevent,
      count_reconcileUsage_of_none (pairOf_eq_none huntouched),
      superseded_eq_false huntouched]
    rfl
  · have hnone : ∀ list : List UsageEvent, (list.filter isUntouched).count event = 0 := by
      intro list
      rw [List.count_eq_zero]
      exact fun hmem => hevent (List.mem_filter.mp hmem).2
    rw [hnone, hnone]

/-- Reconciled events stay as they are. -/
theorem reconcileUsage_reconcileUsage (events : List UsageEvent) :
    reconcileUsage (reconcileUsage events) = reconcileUsage events := by
  apply eq_of_sublist_of_count (reconcileUsage_sublist _)
  intro event
  by_cases hmem : event ∈ reconcileUsage events
  · have hstays : superseded (reconcileUsage events) event = false := by
      have hbefore := (mem_reconcileUsage_iff.mp hmem).2.1
      by_contra hsuperseded
      rw [Bool.not_eq_false] at hsuperseded
      rw [← Bool.not_eq_true] at hbefore
      apply hbefore
      simp only [superseded, Bool.and_eq_true, Option.any_eq_true, List.any_eq_true]
        at hsuperseded ⊢
      obtain ⟨hside, message, hmessage, other, hother, hboth⟩ := hsuperseded
      exact ⟨hside, message, hmessage, other, (mem_reconcileUsage_iff.mp hother).1, hboth⟩
    cases hpair : pairOf event with
    | none =>
        rw [count_reconcileUsage_of_none hpair, hstays]
        rfl
    | some pair =>
        have hbest : firstBestCopy (reconcileUsage events) pair = some event := by
          obtain ⟨best, hbest⟩ := exists_firstBestCopy hmem hpair
          obtain ⟨hbestMem, hbestPair, -⟩ := firstBestCopy_spec hbest
          have hfirst := (mem_reconcileUsage_iff.mp hmem).2.2 pair hpair
          have hsame := (mem_reconcileUsage_iff.mp hbestMem).2.2 pair hbestPair
          rw [hbest, ← hsame, hfirst]
        have hagain : event ∈ reconcileUsage (reconcileUsage events) := by
          refine mem_reconcileUsage_iff.mpr ⟨hmem, hstays, fun third hthird => ?_⟩
          obtain rfl := Option.some.inj (hpair.symm.trans hthird)
          exact hbest
        rw [count_reconcileUsage_of_some hpair, count_reconcileUsage_of_some hpair,
          if_pos hmem, if_pos hagain]
  · have hgone : event ∉ reconcileUsage (reconcileUsage events) :=
      fun hagain => hmem ((reconcileUsage_sublist _).subset hagain)
    rw [List.count_eq_zero.mpr hmem, List.count_eq_zero.mpr hgone]

/-- The copy of a response that is left, if any is. -/
def keptCopy (events : List UsageEvent) (pair : String × String) : Option UsageEvent :=
  (firstBestCopy events pair).filter fun event => !superseded events event

theorem keptCopy_eq_some_iff {pair : String × String} :
    keptCopy events pair = some event ↔
      event ∈ reconcileUsage events ∧ pairOf event = some pair := by
  rw [keptCopy, Option.filter_eq_some_iff, mem_reconcileUsage_iff, Bool.not_eq_true']
  constructor
  · rintro ⟨hbest, hstays⟩
    obtain ⟨hmem, hpair, -⟩ := firstBestCopy_spec hbest
    refine ⟨⟨hmem, hstays, fun third hthird => ?_⟩, hpair⟩
    obtain rfl := Option.some.inj (hpair.symm.trans hthird)
    exact hbest
  · rintro ⟨⟨-, hstays, hbest⟩, hpair⟩
    exact ⟨hbest pair hpair, hstays⟩

theorem superseded_of_perm {other : List UsageEvent} (h : other.Perm events)
    (event : UsageEvent) : superseded other event = superseded events event := by
  rw [superseded, superseded]
  congr 2
  funext message
  exact h.any_eq

/-- The events in another order leave the same ones if and only if they leave the same copy of
every response. -/
theorem reconcileUsage_perm_iff {other : List UsageEvent} (h : other.Perm events) :
    (reconcileUsage other).Perm (reconcileUsage events) ↔
      ∀ pair, keptCopy other pair = keptCopy events pair := by
  constructor
  · intro hperm pair
    ext event
    rw [keptCopy_eq_some_iff, keptCopy_eq_some_iff, hperm.mem_iff]
  · intro hsame
    apply List.perm_iff_count.mpr
    intro event
    cases hpair : pairOf event with
    | none =>
        rw [count_reconcileUsage_of_none hpair, count_reconcileUsage_of_none hpair,
          superseded_of_perm h, h.count_eq]
    | some pair =>
        have hmem : event ∈ reconcileUsage other ↔ event ∈ reconcileUsage events := by
          have hleft := @keptCopy_eq_some_iff other event pair
          have hright := @keptCopy_eq_some_iff events event pair
          rw [hsame pair] at hleft
          tauto
        rw [count_reconcileUsage_of_some hpair, count_reconcileUsage_of_some hpair]
        simp only [hmem]

/-- No two different copies of a response are equally good. -/
def NoTies (events : List UsageEvent) : Prop :=
  ∀ left ∈ events, ∀ right ∈ events, (pairOf left).isSome = true → pairOf left = pairOf right →
    chooseUsage left right = true → chooseUsage right left = true → left = right

/-- Where no two different copies of a response are equally good, the order does not matter. -/
theorem keptCopy_of_perm {other : List UsageEvent} (h : other.Perm events)
    (hties : NoTies events) (pair : String × String) :
    keptCopy other pair = keptCopy events pair := by
  have hbest : firstBestCopy other pair = firstBestCopy events pair := by
    cases hother : firstBestCopy other pair with
    | none =>
        symm
        rw [Option.eq_none_iff_forall_ne_some]
        intro best hbest
        obtain ⟨hmem, hpair, -⟩ := firstBestCopy_spec hbest
        obtain ⟨copy, hcopy⟩ := exists_firstBestCopy (h.mem_iff.mpr hmem) hpair
        rw [hother] at hcopy
        cases hcopy
    | some first =>
        obtain ⟨hfirst, hfirstPair, hfirstWins⟩ := firstBestCopy_spec hother
        have hfirstMem := h.mem_iff.mp hfirst
        obtain ⟨best, hbest⟩ := exists_firstBestCopy hfirstMem hfirstPair
        obtain ⟨hmem, hpair, hwins⟩ := firstBestCopy_spec hbest
        rw [hbest]
        refine congrArg some (hties first hfirstMem best hmem ?_ ?_ ?_ ?_)
        · rw [hfirstPair]
          rfl
        · rw [hfirstPair, hpair]
        · exact hfirstWins best (h.mem_iff.mpr hmem) hpair
        · exact hwins first hfirstMem hfirstPair
  rw [keptCopy, keptCopy, hbest]
  congr 1
  funext event
  rw [superseded_of_perm h]

/-- At most one copy of a response and at least one event of a message stay, what is neither
stays untouched, a second run drops nothing, and the order of the events matters only where two
different copies of a response are equally good and the other one comes first. -/
theorem reconcile_usage_result (events : List UsageEvent) :
    (∀ pair, (copies (reconcileUsage events) pair).length ≤ 1) ∧
    (∀ event ∈ events, ∀ message, event.messageId = some message →
      ∃ kept ∈ reconcileUsage events,
        kept.source = event.source ∧ kept.messageId = some message) ∧
    (reconcileUsage events).filter isUntouched = events.filter isUntouched ∧
    reconcileUsage (reconcileUsage events) = reconcileUsage events ∧
    ∀ other, other.Perm events →
      ((reconcileUsage other).Perm (reconcileUsage events) ↔
        ∀ pair, keptCopy other pair = keptCopy events pair) ∧
      (NoTies events → (reconcileUsage other).Perm (reconcileUsage events)) := by
  refine ⟨copies_reconcileUsage_le events, fun event hmem message => exists_of_message hmem,
    filter_isUntouched events, reconcileUsage_reconcileUsage events, fun other hperm => ?_⟩
  have hiff := reconcileUsage_perm_iff hperm
  exact ⟨hiff, fun hties => hiff.mpr (keptCopy_of_perm hperm hties)⟩

/-- A response that is logged in two transcripts at the same line. -/
def copyIn (path session : String) : UsageEvent :=
  { source := "claude"
    sourcePath := path
    sourceRecordId := some "line:0"
    sessionId := some session
    requestId := some "request"
    messageId := some "message"
    timestampMs := 0
    project := none
    provider := some "anthropic"
    model := none
    tokens := TokenBuckets.disjoint 1 0 0 1
    sourceCostUsd := none
    costAuthoritative := false
    dedupeConfidence := "exact"
    conservativeUndercount := false
    cacheChainExcluded := false
    sidechain := false
    permissionReview := false
    sourceOrder := 0 }

/-- A copy at a later line is kept wherever its transcript is read. -/
theorem reconcile_usage_result_two :
    let first := copyIn "/projects/first.jsonl" "first"
    let second := { copyIn "/projects/second.jsonl" "second" with sourceOrder := 1 }
    reconcileUsage [first, second] = [second] ∧
      (reconcileUsage [second, first]).Perm (reconcileUsage [first, second]) := by
  intro first second
  have hties : NoTies [first, second] := by
    unfold NoTies
    decide +kernel
  exact ⟨by decide +kernel,
    ((reconcile_usage_result [first, second]).2.2.2.2 [second, first] (by decide +kernel)).2
      hties⟩

/-- Which of two equally good copies is kept is a matter of which comes first. -/
theorem equal_copies_keep_first :
    let first := copyIn "/projects/first.jsonl" "first"
    let second := copyIn "/projects/second.jsonl" "second"
    [second, first].Perm [first, second] ∧
      ¬ (reconcileUsage [second, first]).Perm (reconcileUsage [first, second]) := by
  decide +kernel

end Kept

end Memex.Sources.Claude
