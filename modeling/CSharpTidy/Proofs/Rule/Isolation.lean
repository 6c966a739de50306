import CSharpTidy.Proofs.Rule.Verdict

/-!
# Rules do not touch one another

A run is put together from shares, one for each pair of a document and an active rule. Shares carry the
places of their pair, in the input and among the registered rules, since two rules may go by one name
and a document may be given twice. Which rules stand beside one in the rule set changes only which other
shares there are, so a rule is taken out of a report by leaving out the shares at its place.
-/

namespace CSharpTidy

/-- What one rule says of one document, and where the two stand: in the input, and among the rules as
they were registered. -/
structure Share where
  document : Nat
  rule : Nat
  verdict : Verdict

namespace Share

/-- Of two shares, the one that is told first: by document, and then by rule. -/
def Precedes (first second : Share) : Prop :=
  first.document < second.document ∨
    first.document = second.document ∧ first.rule < second.rule

/-- The share holds what the rule at its place gives on the document at its place: its findings, in its
order and with the severities that the settings give them, or else the one failure. -/
def IsOf (ruleSet : RuleSet) (documents : List Document) (share : Share) : Prop :=
  ∃ document rule, documents[share.document]? = some document ∧
    ruleSet.rules[share.rule]? = some rule ∧
    ((∃ found, rule.evaluate document = .ok found ∧
        share.verdict = .evaluated (found.map fun finding =>
          { finding with
            severity := ruleSet.settings.severityFor finding.rule finding.severity })) ∨
      ∃ fault, rule.evaluate document = .error fault ∧
        share.verdict = .failed ⟨rule.id, document.id, fault.message⟩)

end Share

/-- The report that tells shares one after the other. -/
def Report.ofShares (shares : List Share) : Report where
  findings := shares.flatMap fun share => share.verdict.findings
  failures := shares.filterMap fun share => share.verdict.failure?
  cancelled := false

namespace RuleSet

variable {ruleSet : RuleSet} {documents : List Document} {share : Share}

def placed (ruleSet : RuleSet) : List (Rule × Nat) :=
  ruleSet.rules.zipIdx.filter fun entry => !ruleSet.settings.isDisabled entry.1.id

/-- What the active rules say of documents, by document and then by rule. -/
def shares (ruleSet : RuleSet) (documents : List Document) : List Share :=
  documents.zipIdx.flatMap fun (document, place) =>
    ruleSet.placed.map fun (rule, index) =>
      ⟨place, index, ruleSet.evaluatePair false document rule⟩

/-- The rule set without the rule that was registered at a place. -/
def without (ruleSet : RuleSet) (index : Nat) : RuleSet :=
  { ruleSet with rules := ruleSet.rules.eraseIdx index }

theorem mem_placed_iff {entry : Rule × Nat} : entry ∈ ruleSet.placed ↔
    ruleSet.rules[entry.2]? = some entry.1 ∧ ruleSet.settings.isDisabled entry.1.id = false := by
  rw [placed, List.mem_filter, List.mem_zipIdx_iff_getElem?, Bool.not_eq_true']

theorem mem_shares_iff : share ∈ ruleSet.shares documents ↔
    ∃ document rule, documents[share.document]? = some document ∧
      (rule, share.rule) ∈ ruleSet.placed ∧
      share.verdict = ruleSet.evaluatePair false document rule := by
  simp only [shares, List.mem_flatMap, List.mem_map, Prod.exists, List.mem_zipIdx_iff_getElem?]
  constructor
  · rintro ⟨document, place, hdocument, rule, index, hrule, rfl⟩
    exact ⟨document, rule, hdocument, hrule, rfl⟩
  · rintro ⟨document, rule, hdocument, hrule, hverdict⟩
    exact ⟨document, share.document, hdocument, rule, share.rule, hrule, by rw [← hverdict]⟩

theorem isOf_of_mem_shares (hshare : share ∈ ruleSet.shares documents) :
    share.IsOf ruleSet documents := by
  obtain ⟨document, rule, hdocument, hrule, hverdict⟩ := mem_shares_iff.mp hshare
  refine ⟨document, rule, hdocument, (mem_placed_iff.mp hrule).1, ?_⟩
  rw [hverdict]
  cases hevaluate : rule.evaluate document with
  | ok found => exact .inl ⟨found, rfl, by rw [evaluatePair, hevaluate]; rfl⟩
  | error fault => exact .inr ⟨fault, rfl, by rw [evaluatePair, hevaluate]; rfl⟩

theorem exists_share_iff {place index : Nat} :
    (∃ share ∈ ruleSet.shares documents, share.document = place ∧ share.rule = index) ↔
      place < documents.length ∧
        ∃ rule, ruleSet.rules[index]? = some rule ∧
          ruleSet.settings.isDisabled rule.id = false := by
  constructor
  · rintro ⟨share, hshare, rfl, rfl⟩
    obtain ⟨document, rule, hdocument, hrule, -⟩ := mem_shares_iff.mp hshare
    exact ⟨(List.getElem?_eq_some_iff.mp hdocument).1, rule, mem_placed_iff.mp hrule⟩
  · rintro ⟨hplace, rule, hrule⟩
    exact ⟨⟨place, index, ruleSet.evaluatePair false documents[place] rule⟩,
      mem_shares_iff.mpr ⟨documents[place], rule, List.getElem?_eq_getElem hplace,
        mem_placed_iff.mpr hrule, rfl⟩, rfl, rfl⟩

theorem pairwise_zipIdx {α : Type} (items : List α) :
    items.zipIdx.Pairwise fun first second => first.2 < second.2 := by
  have hindices : (items.zipIdx.map Prod.snd).Pairwise (· < ·) := by
    rw [List.zipIdx_map_snd]
    exact List.pairwise_lt_range'
  exact List.pairwise_map.mp hindices

theorem pairwise_shares (ruleSet : RuleSet) (documents : List Document) :
    (ruleSet.shares documents).Pairwise Share.Precedes := by
  rw [shares, List.pairwise_flatMap]
  constructor
  · rintro ⟨document, place⟩ -
    refine List.pairwise_map.mpr ?_
    exact ((pairwise_zipIdx ruleSet.rules).sublist List.filter_sublist).imp
      fun hlt => .inr ⟨rfl, hlt⟩
  · refine (pairwise_zipIdx documents).imp fun {first second} hlt => ?_
    intro share hshare other hother
    obtain ⟨-, -, rfl⟩ := List.mem_map.mp hshare
    obtain ⟨-, -, rfl⟩ := List.mem_map.mp hother
    exact .inl hlt

theorem map_fst_filter_zipIdx {α : Type} (items : List α) (start index : Nat) :
    ((items.zipIdx start).filter fun entry => entry.2 != start + index).map Prod.fst =
      items.eraseIdx index := by
  induction items generalizing start index with
  | nil => rfl
  | cons item items ih =>
      cases index with
      | zero =>
          have hkept : ∀ entry ∈ items.zipIdx (start + 1), (entry.2 != start + 0) = true := by
            intro entry hentry
            have hle := (List.mem_zipIdx hentry).1
            simp only [bne_iff_ne]
            omega
          rw [List.zipIdx_cons, List.filter_cons_of_neg (by simp), List.filter_eq_self.mpr hkept,
            List.zipIdx_map_fst, List.eraseIdx_cons_zero]
      | succ index =>
          have hshift : start + (index + 1) = start + 1 + index := by omega
          rw [List.zipIdx_cons, List.filter_cons_of_pos (by simp), List.map_cons, hshift, ih,
            List.eraseIdx_cons_succ]

/-- A share is the same whichever rules stand beside its own: those of some of the registered rules are
the shares at the places of these. -/
theorem verdicts_of_places (ruleSet : RuleSet) (documents : List Document) (kept : Nat → Bool) :
    verdicts { ruleSet with
        rules := (ruleSet.rules.zipIdx.filter fun entry => kept entry.2).map Prod.fst }
      false documents =
      ((ruleSet.shares documents).filter fun share => kept share.rule).map Share.verdict := by
  have hactive : active { ruleSet with
      rules := (ruleSet.rules.zipIdx.filter fun entry => kept entry.2).map Prod.fst } =
      (ruleSet.placed.filter fun entry => kept entry.2).map Prod.fst := by
    rw [active, placed, List.filter_map, List.filter_filter, List.filter_filter]
    simp only [Function.comp_def, Bool.and_comm]
  conv_lhs => rw [verdicts, hactive, ← documents.zipIdx_map_fst 0, List.flatMap_map]
  rw [shares, List.filter_flatMap, List.map_flatMap]
  refine List.flatMap_congr fun entry _ => ?_
  rw [List.filter_map, List.map_map, List.map_map]
  rfl

/-- A run in which no verdict is skipped is told share by share. -/
theorem run_eq_ofShares {other : RuleSet} {shares : List Share}
    (hverdicts : other.verdicts false documents = shares.map Share.verdict)
    (hshares : ∀ share ∈ shares, share.IsOf ruleSet documents) :
    other.run documents = Report.ofShares shares := by
  have hskipped : shares.any (fun share => share.verdict.isSkipped) = false := by
    rw [List.any_eq_false]
    intro share hshare
    obtain ⟨document, rule, -, -, ⟨found, -, hverdict⟩ | ⟨fault, -, hverdict⟩⟩ :=
      hshares share hshare
    · rw [hverdict]
      simp [Verdict.isSkipped]
    · rw [hverdict]
      simp [Verdict.isSkipped]
  rw [RuleSet.run, runUnless, hverdicts, foldl_addVerdict, List.flatMap_map, List.filterMap_map,
    List.any_map, Function.comp_def, Function.comp_def, hskipped]
  rfl

/-- Every pair of a document and an active rule has its share in the report of a run, its findings or
its one failure, and there is nothing else in it; the shares are told by document, as they were given,
and then by rule, as they were registered. Without one of the rules, the report is told by the same shares
less those of that rule. -/
theorem run_tells_shares (ruleSet : RuleSet) (documents : List Document) :
    ruleSet.run documents = Report.ofShares (ruleSet.shares documents) ∧
      (ruleSet.shares documents).Pairwise Share.Precedes ∧
      (∀ place index,
        (∃ share ∈ ruleSet.shares documents, share.document = place ∧ share.rule = index) ↔
          place < documents.length ∧
            ∃ rule, ruleSet.rules[index]? = some rule ∧
              ruleSet.settings.isDisabled rule.id = false) ∧
      (∀ share ∈ ruleSet.shares documents, share.IsOf ruleSet documents) ∧
      ∀ index, (ruleSet.without index).run documents =
        Report.ofShares ((ruleSet.shares documents).filter fun share => share.rule != index) := by
  have hisOf : ∀ share ∈ ruleSet.shares documents, share.IsOf ruleSet documents :=
    fun share => isOf_of_mem_shares
  refine ⟨?_, pairwise_shares ruleSet documents, fun place index => exists_share_iff, hisOf, ?_⟩
  · have hall := verdicts_of_places ruleSet documents fun _ => true
    rw [List.filter_true, List.filter_true, List.zipIdx_map_fst] at hall
    exact run_eq_ofShares hall hisOf
  · intro index
    have hothers := verdicts_of_places ruleSet documents fun place => place != index
    have herase := map_fst_filter_zipIdx ruleSet.rules 0 index
    rw [Nat.zero_add] at herase
    rw [herase] at hothers
    exact run_eq_ofShares hothers fun share hshare => hisOf share (List.mem_of_mem_filter hshare)

end RuleSet

end CSharpTidy
