import AgentTestHarness.PyJson
import Mathlib.Data.Char
import Mathlib.Data.List.Lex
import Mathlib.Data.List.Sort
import Mathlib.Data.List.Dedup
import Mathlib.Tactic.Tauto

/-! Selection of test scenarios by tag options. A `-t` option is a comma-separated list of
tags, each possibly negated; the documentation reads the commas as OR and several options
as AND. -/
namespace AgentTestHarness.Scenarios
open PyText PyJson

structure Scenario where
  name : Text
  tags : List Text
  deriving DecidableEq

structure Feature where
  name : Text
  tags : List Text
  scenarios : List Scenario
  deriving DecidableEq

/-- A scenario object that was kept, with the tags it is given for display. -/
structure KeptScenario where
  scenario : Scenario
  tags : List Text
  deriving DecidableEq

structure KeptFeature where
  feature : Feature
  tags : List Text
  scenarios : List KeptScenario
  deriving DecidableEq

/-- Add the leading '@' to one tag of an option when it is not given. -/
def prefixTag : Text → Except PyError Text
  | [] => .error .indexError
  | c :: t =>
    if c = '~' then
      match t with
      | [] => .error .indexError
      | d :: _ => .ok (if d = '@' then '~' :: t else '~' :: '@' :: t)
    else .ok (if c = '@' then c :: t else '@' :: c :: t)

def prefixOption (topt : Text) : Except PyError Text :=
  ((topt.splitOn ',').mapM prefixTag).map [','].intercalate

def excludes (tlst : List Text) : Bool := tlst.head?.bind List.head? == some '~'

/-- The polarity of a whole option is that of its first tag. -/
def selected (tagOptions featureTags : List Text) : Bool :=
  (tagOptions.map (·.splitOn ',')).foldl
    (fun result tlst =>
      let exclude := excludes tlst
      let result := if exclude && (featureTags.map ('~' :: ·)).any tlst.contains
        then result && false else result
      if !exclude && !(tlst.any featureTags.contains) then result && false else result)
    true

def relevantTags (tagOptions : List Text) : List Text :=
  (tagOptions.flatMap (·.splitOn ',')).filter fun x => x.head? != some '~'

/-- Matches `@T\d{3}.*`, a test id. -/
def isTestId : Text → Bool
  | '@' :: 'T' :: a :: b :: c :: _ => isDecimal a && isDecimal b && isDecimal c
  | _ => false

/-- The relevant tags of a scenario are sorted and duplicate-free behind its test ids. -/
def scenarioTags (relevant : List Text) (f : Feature) (s : Scenario) : List Text :=
  s.tags.filter isTestId ++
    (relevant.dedup.filter ((f.tags ++ s.tags).contains ·)).insertionSort (· ≤ ·)

def selectFeature (tagOptions : List Text) (f : Feature) : KeptFeature :=
  let relevant := relevantTags tagOptions
  ⟨f, relevant.dedup.filter (f.tags.contains ·),
    (f.scenarios.filter fun s => selected tagOptions (f.tags ++ s.tags)).map fun s =>
      ⟨s, scenarioTags relevant f s⟩⟩

/-- Without options everything is returned as it is. -/
def selectFeatures (features : List Feature) (tagOptions : List Text) :
    Except PyError (List KeptFeature) :=
  if tagOptions = [] then
    .ok (features.map fun f => ⟨f, f.tags, f.scenarios.map fun s => ⟨s, s.tags⟩⟩)
  else
    match tagOptions.mapM prefixOption with
    | .error e => .error e
    | .ok tagOptions =>
        .ok ((features.map (selectFeature tagOptions)).filter (·.scenarios ≠ []))

/-! What the documentation says an option means. -/

/-- One alternative of an option. -/
structure Alternative where
  negated : Bool
  tag : Text
  deriving DecidableEq

def withAt (t : Text) : Text := if t.head? = some '@' then t else '@' :: t

def readAlternative (t : Text) : Alternative :=
  if t.head? = some '~' then ⟨true, withAt t.tail⟩ else ⟨false, withAt t⟩

def alternatives (topt : Text) : List Alternative := (topt.splitOn ',').map readAlternative

def Alternative.Holds (a : Alternative) (tags : List Text) : Prop :=
  if a.negated then a.tag ∉ tags else a.tag ∈ tags

/-- An option is the disjunction of its alternatives. -/
def Satisfies (tags : List Text) (topt : Text) : Prop := ∃ a ∈ alternatives topt, a.Holds tags

/-- The options together are a conjunction. -/
def SatisfiesAll (tags : List Text) (tagOptions : List Text) : Prop :=
  ∀ topt ∈ tagOptions, Satisfies tags topt

instance (a : Alternative) (tags : List Text) : Decidable (a.Holds tags) :=
  inferInstanceAs (Decidable (if a.negated then a.tag ∉ tags else a.tag ∈ tags))

instance (tags : List Text) (topt : Text) : Decidable (Satisfies tags topt) :=
  inferInstanceAs (Decidable (∃ a ∈ alternatives topt, a.Holds tags))

instance (tags tagOptions : List Text) : Decidable (SatisfiesAll tags tagOptions) :=
  inferInstanceAs (Decidable (∀ topt ∈ tagOptions, Satisfies tags topt))

/-- The features with a satisfying scenario, each with just its satisfying scenarios. -/
def documentedSelection (features : List Feature) (tagOptions : List Text) :
    List (Feature × List Scenario) :=
  (features.map fun f =>
    (f, f.scenarios.filter fun s => SatisfiesAll (f.tags ++ s.tags) tagOptions)).filter (·.2 ≠ [])

def KeptFeature.selection (k : KeptFeature) : Feature × List Scenario :=
  (k.feature, k.scenarios.map (·.scenario))

def SelectsAsDocumented (features : List Feature) (tagOptions : List Text) : Prop :=
  (selectFeatures features tagOptions).map (·.map (·.selection)) =
    .ok (documentedSelection features tagOptions)

/-- Every tag of the option is nonempty, also behind a '~'. -/
def WellFormed (topt : Text) : Prop := ∀ t ∈ topt.splitOn ',', t ≠ [] ∧ t ≠ ['~']

instance (topt : Text) : Decidable (WellFormed topt) :=
  inferInstanceAs (Decidable (∀ t ∈ topt.splitOn ',', t ≠ [] ∧ t ≠ ['~']))

def leadNegated (topt : Text) : Bool := (alternatives topt).head?.any (·.negated)

/-- The alternative as the code spells it. -/
def Alternative.written (a : Alternative) : Text := if a.negated then '~' :: a.tag else a.tag

/-- The option holds, but behind a leading negation a negated tag is present, or behind a
leading tag no alternative is present as it is spelled. -/
def Misread (tags : List Text) (topt : Text) : Prop :=
  Satisfies tags topt ∧
    if leadNegated topt then ∃ a ∈ alternatives topt, a.negated = true ∧ a.tag ∈ tags
    else ∀ a ∈ alternatives topt, a.written ∉ tags

/-- The option does not hold, but behind a leading tag some alternative is present as it is
spelled: a scenario tag that itself begins with '~'. -/
def WronglyMet (tags : List Text) (topt : Text) : Prop :=
  ¬ Satisfies tags topt ∧ leadNegated topt = false ∧ ∃ a ∈ alternatives topt, a.written ∈ tags

/-- No option spoils the verdict on these tags: where all options hold none is misread, and
a wrongly met option stands beside one that is rightly or wrongly unmet. -/
structure ReadRight (tagOptions tags : List Text) : Prop where
  met : SatisfiesAll tags tagOptions → ∀ topt ∈ tagOptions, ¬ Misread tags topt
  unmet : ∀ topt ∈ tagOptions, WronglyMet tags topt →
    ∃ other ∈ tagOptions, Misread tags other ∨ ¬ Satisfies tags other ∧ ¬ WronglyMet tags other

/-! How the code reads a well-formed option. -/

theorem prefixTag_eq {t : Text} (h : t ≠ []) (h' : t ≠ ['~']) :
    prefixTag t = .ok (readAlternative t).written := by
  cases t with
  | nil => exact absurd rfl h
  | cons c t =>
    rcases eq_or_ne c '~' with rfl | hc
    · cases t with
      | nil => exact absurd rfl h'
      | cons d t =>
        rcases eq_or_ne d '@' with rfl | hd
        · simp [prefixTag, readAlternative, withAt, Alternative.written]
        · simp [prefixTag, readAlternative, withAt, Alternative.written, hd]
    · rcases eq_or_ne c '@' with rfl | ha
      · simp [prefixTag, readAlternative, withAt, Alternative.written]
      · simp [prefixTag, readAlternative, withAt, Alternative.written, hc, ha]

theorem head?_withAt (t : Text) : (withAt t).head? = some '@' := by
  unfold withAt
  split
  · assumption
  · rfl

theorem head?_tag (t : Text) : (readAlternative t).tag.head? = some '@' := by
  unfold readAlternative
  split <;> exact head?_withAt _

/-- A written alternative begins with '~' just when it is negated. -/
theorem head?_written (t : Text) :
    (readAlternative t).written.head? = some '~' ↔ (readAlternative t).negated = true := by
  have htag := head?_tag t
  unfold Alternative.written
  cases (readAlternative t).negated with
  | true => simp
  | false => simp [htag]

theorem comma_not_mem_written {t : Text} (h : ',' ∉ t) : ',' ∉ (readAlternative t).written := by
  have hat : ∀ u : Text, ',' ∉ u → ',' ∉ withAt u := by
    intro u hu
    unfold withAt
    split
    · exact hu
    · simpa using hu
  have htail : ',' ∉ t.tail := fun hm => h (List.mem_of_mem_tail hm)
  unfold readAlternative Alternative.written
  split
  · simpa using hat _ htail
  · simpa using hat _ h

/-- The option as the code rewrites it. -/
def normalised (topt : Text) : Text := [','].intercalate ((alternatives topt).map (·.written))

theorem prefixOption_eq {topt : Text} (h : WellFormed topt) :
    prefixOption topt = .ok (normalised topt) := by
  unfold prefixOption
  rw [mapM_eq_map fun t ht => prefixTag_eq (h t ht).1 (h t ht).2]
  simp [normalised, alternatives, Except.map, Function.comp_def]

theorem splitOn_normalised (topt : Text) :
    (normalised topt).splitOn ',' = (alternatives topt).map (·.written) := by
  refine List.splitOn_intercalate ',' ?_ (by simp [alternatives])
  intro l hl
  simp only [alternatives, List.map_map, List.mem_map, Function.comp_apply] at hl
  obtain ⟨t, ht, rfl⟩ := hl
  exact comma_not_mem_written (not_mem_of_mem_splitOn ht)

/-- What the loop over the options asks of the tags of one option. -/
def Accepts (featureTags tlst : List Text) : Prop :=
  if excludes tlst then ∀ ft ∈ featureTags, '~' :: ft ∉ tlst else ∃ t ∈ tlst, t ∈ featureTags

theorem foldl_selected (featureTags : List Text) (options : List (List Text)) (result : Bool) :
    options.foldl
      (fun result tlst =>
        let exclude := excludes tlst
        let result := if exclude && (featureTags.map ('~' :: ·)).any tlst.contains
          then result && false else result
        if !exclude && !(tlst.any featureTags.contains) then result && false else result)
      result = true ↔ result = true ∧ ∀ tlst ∈ options, Accepts featureTags tlst := by
  induction options generalizing result with
  | nil => simp
  | cons tlst options ih =>
    rw [List.foldl_cons, ih, List.forall_mem_cons, ← and_assoc]
    refine and_congr_left' ?_
    unfold Accepts
    cases excludes tlst with
    | true => simp; tauto
    | false => simp; tauto

theorem selected_iff (tagOptions featureTags : List Text) :
    selected tagOptions featureTags = true ↔
      ∀ topt ∈ tagOptions, Accepts featureTags (topt.splitOn ',') := by
  unfold selected
  rw [foldl_selected]
  simp

theorem excludes_normalised (topt : Text) :
    excludes ((normalised topt).splitOn ',') = leadNegated topt := by
  rw [splitOn_normalised, excludes, leadNegated, alternatives]
  cases h : topt.splitOn ',' with
  | nil => exact absurd h (List.splitOn_ne_nil _ _)
  | cons t ts =>
    have := head?_written t
    cases hn : (readAlternative t).negated with
    | true => simp [this.mpr hn, hn]
    | false =>
      rw [hn] at this
      simpa [hn] using this

theorem tilde_mem_written {topt : Text} {ft : Text} :
    '~' :: ft ∈ (alternatives topt).map (·.written) ↔
      ∃ a ∈ alternatives topt, a.negated = true ∧ a.tag = ft := by
  simp only [alternatives, List.mem_map, exists_exists_and_eq_and]
  refine exists_congr fun t => and_congr_right fun _ => ?_
  have hhead := head?_written t
  constructor
  · intro h
    have hneg := hhead.mp (by rw [h]; rfl)
    rw [Alternative.written, if_pos hneg, List.cons.injEq] at h
    exact ⟨hneg, h.2⟩
  · rintro ⟨hneg, rfl⟩
    rw [Alternative.written, if_pos hneg]

theorem accepts_normalised (tags : List Text) (topt : Text) :
    Accepts tags ((normalised topt).splitOn ',') ↔
      if leadNegated topt then ∀ a ∈ alternatives topt, a.negated = true → a.tag ∉ tags
      else ∃ a ∈ alternatives topt, a.written ∈ tags := by
  unfold Accepts
  rw [excludes_normalised, splitOn_normalised]
  cases leadNegated topt with
  | true =>
    simp only [if_true, tilde_mem_written]
    constructor
    · intro h a ha hneg hmem
      exact h a.tag hmem ⟨a, ha, hneg, rfl⟩
    · rintro h ft hmem ⟨a, ha, hneg, rfl⟩
      exact h a ha hneg hmem
  | false => simp

/-- A leading negation that is accepted holds. -/
theorem satisfies_of_leadNegated {tags : List Text} {topt : Text} (lead : leadNegated topt = true)
    (h : ∀ a ∈ alternatives topt, a.negated = true → a.tag ∉ tags) : Satisfies tags topt := by
  unfold leadNegated at lead
  cases halts : alternatives topt with
  | nil => simp [halts] at lead
  | cons a alts =>
    have hneg : a.negated = true := by simpa [halts] using lead
    have ha : a ∈ alternatives topt := halts ▸ List.mem_cons_self
    exact ⟨a, ha, by simpa [Alternative.Holds, hneg] using h a ha hneg⟩

theorem accepts_iff (tags : List Text) (topt : Text) :
    Accepts tags ((normalised topt).splitOn ',') ↔
      Satisfies tags topt ∧ ¬ Misread tags topt ∨ WronglyMet tags topt := by
  rw [accepts_normalised]
  unfold Misread WronglyMet
  cases hlead : leadNegated topt with
  | true =>
    simp only [if_true]
    constructor
    · intro h
      refine .inl ⟨satisfies_of_leadNegated hlead h, ?_⟩
      rintro ⟨-, a, ha, hneg, hmem⟩
      exact h a ha hneg hmem
    · rintro (⟨hs, hm⟩ | ⟨-, hfalse, -⟩)
      · intro a ha hneg hmem
        exact hm ⟨hs, a, ha, hneg, hmem⟩
      · exact absurd hfalse (by simp)
  | false =>
    have hex : (∃ a ∈ alternatives topt, a.written ∈ tags) ↔
        ¬ ∀ a ∈ alternatives topt, a.written ∉ tags := by
      simp
    simp only [Bool.false_eq_true, if_false, true_and, hex]
    generalize (∀ a ∈ alternatives topt, a.written ∉ tags) = unspelled
    tauto

/-- The code's verdict on a scenario is the documented one just when no option spoils it. -/
theorem selected_iff_satisfiesAll_iff (tagOptions tags : List Text) :
    (selected (tagOptions.map normalised) tags = true ↔ SatisfiesAll tags tagOptions) ↔
      ReadRight tagOptions tags := by
  have hsel : selected (tagOptions.map normalised) tags = true ↔
      ∀ topt ∈ tagOptions, Satisfies tags topt ∧ ¬ Misread tags topt ∨ WronglyMet tags topt := by
    rw [selected_iff]
    simp only [List.forall_mem_map, accepts_iff]
  rw [hsel]
  constructor
  · intro same
    refine ⟨fun all topt ht misread => ?_, fun topt ht wrong => ?_⟩
    · rcases same.mpr all topt ht with h | h
      · exact h.2 misread
      · exact h.1 (all topt ht)
    · by_contra none
      refine wrong.1 (same.mp (fun other ho => ?_) topt ht)
      have := not_exists.mp none other
      tauto
  · intro right
    constructor
    · intro h topt ht
      rcases h topt ht with h' | wrong
      · exact h'.1
      · obtain ⟨other, ho, hother⟩ := right.unmet topt ht wrong
        rcases h other ho with ⟨hs, hm⟩ | hw
        · rcases hother with misread | unmet
          · exact absurd misread hm
          · exact absurd hs unmet.1
        · rcases hother with misread | unmet
          · exact absurd misread.1 hw.1
          · exact absurd hw unmet.2
    · intro all topt ht
      exact .inl ⟨all topt ht, right.met all topt ht⟩

/-- Only plain tags, or a single alternative: the options the documentation gives. -/
def Plain (topt : Text) : Prop :=
  (∀ a ∈ alternatives topt, a.negated = false) ∨ ∃ a, alternatives topt = [a]

theorem not_misread_of_plain {topt : Text} (plain : Plain topt) (tags : List Text) :
    ¬ Misread tags topt := by
  rintro ⟨⟨a, ha, holds⟩, misread⟩
  cases hneg : a.negated with
  | true =>
    obtain ⟨b, hb⟩ : ∃ b, alternatives topt = [b] :=
      plain.resolve_left fun h => absurd (h a ha) (by simp [hneg])
    obtain rfl : a = b := by simpa [hb] using ha
    have hout : a.tag ∉ tags := by simpa [Alternative.Holds, hneg] using holds
    simp [leadNegated, hb, hneg, hout] at misread
  | false =>
    have hin : a.tag ∈ tags := by simpa [Alternative.Holds, hneg] using holds
    have hlead : leadNegated topt = false := by
      rcases plain with h | ⟨b, hb⟩
      · unfold leadNegated
        cases halts : alternatives topt with
        | nil => rfl
        | cons b bs => simpa using h b (halts ▸ List.mem_cons_self)
      · obtain rfl : a = b := by simpa [hb] using ha
        simp [leadNegated, hb, hneg]
    rw [hlead] at misread
    exact misread a ha (by simpa [Alternative.written, hneg] using hin)

theorem not_wronglyMet {tags : List Text} (h : ∀ t ∈ tags, t.head? ≠ some '~') (topt : Text) :
    ¬ WronglyMet tags topt := by
  rintro ⟨unmet, -, a, ha, hmem⟩
  refine unmet ⟨a, ha, ?_⟩
  have hspelled := h _ hmem
  unfold Alternative.written at hspelled hmem
  split at hmem
  · next hneg => simp [hneg] at hspelled
  · next hneg => simpa [Alternative.Holds, hneg] using hmem

/-- The options the documentation gives are read right, on tags that begin with no '~'. -/
theorem readRight_of_plain {tagOptions tags : List Text}
    (plain : ∀ topt ∈ tagOptions, Plain topt) (h : ∀ t ∈ tags, t.head? ≠ some '~') :
    ReadRight tagOptions tags :=
  ⟨fun _ topt ht => not_misread_of_plain (plain topt ht) tags,
    fun topt _ wrong => absurd wrong (not_wronglyMet h topt)⟩

theorem selectFeatures_eq {features : List Feature} {tagOptions : List Text}
    (hne : tagOptions ≠ []) (h : ∀ topt ∈ tagOptions, WellFormed topt) :
    (selectFeatures features tagOptions).map (·.map (·.selection)) =
      .ok ((features.map fun f => (f, f.scenarios.filter fun s =>
        selected (tagOptions.map normalised) (f.tags ++ s.tags))).filter (·.2 ≠ [])) := by
  unfold selectFeatures
  rw [if_neg hne, mapM_eq_map fun topt ht => prefixOption_eq (h topt ht)]
  simp only [Except.map, List.filter_map, List.map_map]
  congr 1
  simp [selectFeature, KeptFeature.selection, Function.comp_def]

theorem mem_picked {features : List Feature} {p : Feature → Scenario → Bool} {f : Feature}
    {l : List Scenario} :
    (f, l) ∈ (features.map fun f => (f, f.scenarios.filter (p f))).filter (·.2 ≠ []) ↔
      f ∈ features ∧ f.scenarios.filter (p f) = l ∧ l ≠ [] := by
  simp only [List.mem_filter, List.mem_map, Prod.mk.injEq, decide_eq_true_eq]
  constructor
  · rintro ⟨⟨g, hg, rfl, rfl⟩, hne⟩
    exact ⟨hg, rfl, hne⟩
  · rintro ⟨hf, rfl, hne⟩
    exact ⟨⟨f, hf, rfl, rfl⟩, hne⟩

/-- Two ways to pick scenarios keep the same ones just when they agree on every scenario. -/
theorem picked_eq_iff (features : List Feature) (p q : Feature → Scenario → Bool) :
    (features.map fun f => (f, f.scenarios.filter (p f))).filter (·.2 ≠ []) =
        (features.map fun f => (f, f.scenarios.filter (q f))).filter (·.2 ≠ []) ↔
      ∀ f ∈ features, ∀ s ∈ f.scenarios, p f s = q f s := by
  constructor
  · intro same f hf s hs
    have hfilter : f.scenarios.filter (p f) = f.scenarios.filter (q f) := by
      rcases eq_or_ne (f.scenarios.filter (p f)) [] with hp | hp
      · rcases eq_or_ne (f.scenarios.filter (q f)) [] with hq | hq
        · rw [hp, hq]
        · have := mem_picked.mpr ⟨hf, rfl, hq⟩
          rw [← same] at this
          exact (mem_picked.mp this).2.1
      · have := mem_picked.mpr ⟨hf, rfl, hp⟩
        rw [same] at this
        exact (mem_picked.mp this).2.1.symm
    have hmem : s ∈ f.scenarios.filter (p f) ↔ s ∈ f.scenarios.filter (q f) := by rw [hfilter]
    exact Bool.eq_iff_iff.mpr (by simpa [hs] using hmem)
  · intro agree
    congr 1
    refine List.map_congr_left fun f hf => ?_
    rw [List.filter_congr (agree f hf)]

theorem readRight_nil (tags : List Text) : ReadRight [] tags :=
  ⟨fun _ _ h => absurd h List.not_mem_nil, fun _ h => absurd h List.not_mem_nil⟩

theorem selects_without_options (features : List Feature) :
    SelectsAsDocumented features [] ↔ ∀ f ∈ features, f.scenarios ≠ [] := by
  have hcode : (selectFeatures features []).map (·.map (·.selection)) =
      .ok (features.map fun f => (f, f.scenarios)) := by
    simp [selectFeatures, Except.map, KeptFeature.selection, Function.comp_def]
  have hdoc : documentedSelection features [] =
      (features.map fun f => (f, f.scenarios)).filter (·.2 ≠ []) := by
    simp [documentedSelection, SatisfiesAll]
  rw [SelectsAsDocumented, hcode, hdoc, Except.ok.injEq, eq_comm, List.filter_eq_self]
  simp

/-- The selection is the documented one just when on no scenario an option spoils the
verdict and, without options, every feature has a scenario. -/
theorem selects_as_documented_iff (features : List Feature) (tagOptions : List Text)
    (h : ∀ topt ∈ tagOptions, WellFormed topt) :
    SelectsAsDocumented features tagOptions ↔
      (tagOptions = [] → ∀ f ∈ features, f.scenarios ≠ []) ∧
        ∀ f ∈ features, ∀ s ∈ f.scenarios, ReadRight tagOptions (f.tags ++ s.tags) := by
  rcases eq_or_ne tagOptions [] with rfl | hne
  · rw [selects_without_options]
    simp [readRight_nil]
  · rw [SelectsAsDocumented, selectFeatures_eq hne h, documentedSelection, Except.ok.injEq,
      picked_eq_iff features (fun f s => selected (tagOptions.map normalised) (f.tags ++ s.tags))
        fun f s => decide (SatisfiesAll (f.tags ++ s.tags) tagOptions)]
    simp only [hne, false_imp_iff, true_and]
    refine forall₂_congr fun f _ => forall₂_congr fun s _ => ?_
    rw [← selected_iff_satisfiesAll_iff, Bool.eq_iff_iff, decide_eq_true_iff]

/-- An option of plain tags and an option of plain negations next to each other. -/
theorem selects_as_documented_smoke :
    let features : List Feature := [⟨"Issue".toList, ["@RFC0036".toList],
      [⟨"first".toList, ["@T001".toList]⟩, ⟨"second".toList, ["@wip".toList]⟩]⟩]
    SelectsAsDocumented features ["RFC0036,@RFC0037".toList, "~@wip".toList] := by
  intro features
  refine (selects_as_documented_iff features _ (by decide)).mpr ⟨by simp, ?_⟩
  intro f hf s hs
  rw [← selected_iff_satisfiesAll_iff]
  revert s f
  decide

/-- A scenario without the negated tag is dropped when a plain tag comes first. -/
theorem negated_second_alternative_ignored :
    let features : List Feature :=
      [⟨"Issue".toList, [], [⟨"first".toList, ["@T001".toList]⟩]⟩]
    ¬ SelectsAsDocumented features ["@RFC0036,~@wip".toList] := by
  intro features
  unfold SelectsAsDocumented
  decide

end AgentTestHarness.Scenarios
