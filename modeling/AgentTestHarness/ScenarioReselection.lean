import AgentTestHarness.Scenarios

/-! The selection applied to its own result. The first application has rewritten the tags of
the features and the scenarios it keeps, and the second one decides on these. -/
namespace AgentTestHarness.Scenarios
open PyText PyJson

def KeptScenario.rewritten (s : KeptScenario) : Scenario := ⟨s.scenario.name, s.tags⟩

/-- The feature object that the first application leaves in its result. -/
def KeptFeature.rewritten (k : KeptFeature) : Feature :=
  ⟨k.feature.name, k.tags, k.scenarios.map (·.rewritten)⟩

def AtTagged (f : Feature) : Prop :=
  (∀ t ∈ f.tags, t.head? = some '@') ∧ ∀ s ∈ f.scenarios, ∀ t ∈ s.tags, t.head? = some '@'

instance (f : Feature) : Decidable (AtTagged f) :=
  inferInstanceAs (Decidable (_ ∧ _))

theorem mem_relevantTags {tagOptions : List Text} {topt t : Text} (ho : topt ∈ tagOptions)
    (ht : t ∈ topt.splitOn ',') (hat : t.head? = some '@') : t ∈ relevantTags tagOptions := by
  simp only [relevantTags, List.mem_filter, List.mem_flatMap]
  exact ⟨⟨topt, ho, ht⟩, by simp [hat]⟩

theorem mem_keptTags {relevant tags : List Text} {t : Text} :
    t ∈ relevant.dedup.filter (tags.contains ·) ↔ t ∈ relevant ∧ t ∈ tags := by
  simp [List.mem_filter, List.mem_dedup]

theorem mem_scenarioTags {relevant : List Text} {f : Feature} {s : Scenario} {t : Text} :
    t ∈ scenarioTags relevant f s ↔
      (t ∈ s.tags ∧ isTestId t = true) ∨ (t ∈ relevant ∧ t ∈ f.tags ++ s.tags) := by
  rw [scenarioTags, List.mem_append, List.mem_insertionSort, mem_keptTags, List.mem_filter]

/-- The tags the second application decides on for a scenario. -/
def tagsAgain (relevant : List Text) (f : Feature) (s : Scenario) : List Text :=
  relevant.dedup.filter (f.tags.contains ·) ++ scenarioTags relevant f s

theorem tagsAgain_subset (relevant : List Text) (f : Feature) (s : Scenario) :
    ∀ t ∈ tagsAgain relevant f s, t ∈ f.tags ++ s.tags := by
  intro t ht
  rw [tagsAgain, List.mem_append, mem_keptTags, mem_scenarioTags] at ht
  rcases ht with ⟨-, hf⟩ | ⟨hs, -⟩ | ⟨-, hfs⟩
  · exact List.mem_append_left _ hf
  · exact List.mem_append_right _ hs
  · exact hfs

theorem relevant_mem_tagsAgain {relevant : List Text} {f : Feature} {s : Scenario} {t : Text}
    (hr : t ∈ relevant) (ht : t ∈ f.tags ++ s.tags) : t ∈ tagsAgain relevant f s :=
  List.mem_append_right _ (mem_scenarioTags.mpr (.inr ⟨hr, ht⟩))

/-- What is accepted stays accepted on fewer tags as long as none of the option's is lost. -/
theorem Accepts.of_subset {tags tags' tlst : List Text} (h : Accepts tags tlst)
    (hsub : ∀ t ∈ tags', t ∈ tags) (hkeep : ∀ t ∈ tlst, t ∈ tags → t ∈ tags') :
    Accepts tags' tlst := by
  unfold Accepts at h ⊢
  split
  · next hex =>
    rw [if_pos hex] at h
    intro ft hft
    exact h ft (hsub ft hft)
  · next hex =>
    rw [if_neg hex] at h
    obtain ⟨t, ht, hmem⟩ := h
    exact ⟨t, ht, hkeep t ht hmem⟩

/-- A selected scenario is selected again: the tags that an option can ask for are relevant
tags, which the rewriting keeps, and it brings in no tag that was not there. -/
theorem selected_again {tagOptions : List Text} {f : Feature} {s : Scenario}
    (hat : ∀ t ∈ f.tags ++ s.tags, t.head? = some '@')
    (h : selected tagOptions (f.tags ++ s.tags) = true) :
    selected tagOptions (tagsAgain (relevantTags tagOptions) f s) = true := by
  rw [selected_iff] at h ⊢
  intro topt ho
  refine (h topt ho).of_subset (tagsAgain_subset _ f s) fun t ht hmem => ?_
  exact relevant_mem_tagsAgain (mem_relevantTags ho ht (hat t hmem)) hmem

theorem selectFeature_again {tagOptions : List Text} {f : Feature} (hat : AtTagged f) :
    (selectFeature tagOptions (selectFeature tagOptions f).rewritten).selection =
      ((selectFeature tagOptions f).rewritten, (selectFeature tagOptions f).rewritten.scenarios) := by
  rw [KeptFeature.selection, selectFeature, Prod.mk.injEq, List.map_map]
  refine ⟨rfl, ?_⟩
  simp only [Function.comp_def, List.map_id']
  rw [List.filter_eq_self]
  intro s hs
  simp only [KeptFeature.rewritten, selectFeature, List.map_map, List.mem_map, List.mem_filter,
    Function.comp_apply] at hs
  obtain ⟨s, ⟨hs, hsel⟩, rfl⟩ := hs
  refine selected_again (fun t ht => ?_) hsel
  rcases List.mem_append.mp ht with ht | ht
  · exact hat.1 t ht
  · exact hat.2 s hs t ht

theorem selectFeature_again_ne {tagOptions : List Text} {f : Feature} (hat : AtTagged f)
    (hne : (selectFeature tagOptions f).scenarios ≠ []) :
    (selectFeature tagOptions (selectFeature tagOptions f).rewritten).scenarios ≠ [] := by
  have hagain : (selectFeature tagOptions (selectFeature tagOptions f).rewritten).selection =
      ((selectFeature tagOptions f).rewritten, (selectFeature tagOptions f).rewritten.scenarios) :=
    selectFeature_again hat
  have hsel := congrArg Prod.snd hagain
  intro hnil
  rw [KeptFeature.selection, hnil, KeptFeature.rewritten] at hsel
  exact hne (List.map_eq_nil_iff.mp hsel.symm)

theorem prefixOptions_ok {tagOptions : List Text} (h : ∀ topt ∈ tagOptions, WellFormed topt) :
    tagOptions.mapM prefixOption = .ok (tagOptions.map normalised) :=
  mapM_eq_map fun topt ht => prefixOption_eq (h topt ht)

/-- On nonempty alternatives the selection has a result, and applied to its own result it
keeps the same features and the same scenarios in the same order. -/
theorem select_features_idempotent (features : List Feature) (tagOptions : List Text)
    (hat : ∀ f ∈ features, AtTagged f) :
    ((∀ topt ∈ tagOptions, WellFormed topt) →
      ∃ kept, selectFeatures features tagOptions = .ok kept) ∧
    ∀ kept, selectFeatures features tagOptions = .ok kept →
      (selectFeatures (kept.map (·.rewritten)) tagOptions).map (·.map (·.selection)) =
        .ok (kept.map fun k => (k.rewritten, k.rewritten.scenarios)) := by
  constructor
  · intro hwf
    unfold selectFeatures
    rw [prefixOptions_ok hwf]
    split <;> exact ⟨_, rfl⟩
  · intro kept hkept
    unfold selectFeatures at hkept ⊢
    split at hkept
    · next hnil => simp [hnil, Except.map, KeptFeature.selection, Function.comp_def]
    · next hne =>
      rw [if_neg hne]
      cases hpre : tagOptions.mapM prefixOption with
      | error e => simp [hpre] at hkept
      | ok opts =>
        simp only [hpre, Except.ok.injEq] at hkept
        have hkeeps : ∀ k ∈ kept, (selectFeature opts k.rewritten).selection =
            (k.rewritten, k.rewritten.scenarios) ∧
            (selectFeature opts k.rewritten).scenarios ≠ [] := by
          intro k hk
          rw [← hkept, List.mem_filter, List.mem_map] at hk
          obtain ⟨⟨f, hf, rfl⟩, hne⟩ := hk
          exact ⟨selectFeature_again (hat f hf),
            selectFeature_again_ne (hat f hf) (by simpa using hne)⟩
        have hall : ((kept.map (·.rewritten)).map (selectFeature opts)).filter
            (·.scenarios ≠ []) = (kept.map (·.rewritten)).map (selectFeature opts) := by
          rw [List.filter_eq_self]
          intro again hagain
          rw [List.map_map, List.mem_map] at hagain
          obtain ⟨k, hk, rfl⟩ := hagain
          simpa using (hkeeps k hk).2
        simp only [Except.map, Except.ok.injEq]
        rw [hall, List.map_map, List.map_map]
        exact List.map_congr_left fun k hk => (hkeeps k hk).1

/-- The second scenario is dropped by the negated tag; the first loses its other tag. -/
theorem select_features_idempotent_smoke :
    let features : List Feature := [⟨"Issue".toList, ["@RFC0036".toList, "@AIP10".toList],
      [⟨"first".toList, ["@T001".toList, "@other".toList]⟩,
        ⟨"second".toList, ["@wip".toList]⟩]⟩]
    let tagOptions := ["RFC0036,@RFC0037".toList, "~@wip".toList]
    ∃ kept, selectFeatures features tagOptions = .ok kept ∧
      (selectFeatures (kept.map (·.rewritten)) tagOptions).map (·.map (·.selection)) =
        .ok (kept.map fun k => (k.rewritten, k.rewritten.scenarios)) := by
  intro features tagOptions
  have h := select_features_idempotent features tagOptions (by decide)
  obtain ⟨kept, hkept⟩ := h.1 (by decide)
  exact ⟨kept, hkept, h.2 kept hkept⟩

end AgentTestHarness.Scenarios
