import AgentTestHarness.SameAsYesterday
import AgentTestHarness.JsonRoundTrip

/-! The New-KGR file when the directory may list the result files in any order and when a
retried scenario has left several results of one test identity. -/
namespace AgentTestHarness.SameAsYesterday
open PyText OrderedDict PyJson JsonText JsonReading JsonWriting JsonRoundTrip

def kgrMembers (d : Dict Str Str) : List (Str × Json) := d.entries.map fun e => (e.1, .str e.2)

/-- The text of the file that is written at the end of a run. -/
def newKgrFile (kgr : Dict Str Str) (files : List ResultFile) : Text :=
  dumps (.obj (kgrMembers (sameAsYesterday kgr files).newKgrResults))

/-- What the next run reads of a KGR file. -/
def ReadsKgr (text : Text) (kgr : Dict Str Str) : Prop := loads text = .ok (.obj (kgrMembers kgr))

/-- Whatever the order of the files and whatever KGR the run is compared with, the files
written hold the same map. -/
def OrderFree (files : List ResultFile) : Prop :=
  ∀ kgr kgr' l l', l.Perm files → l'.Perm files →
    ∃ d d', ReadsKgr (newKgrFile kgr l) d ∧ ReadsKgr (newKgrFile kgr' l') d' ∧
      ∀ fullName, d.get? fullName = d'.get? fullName

/-- The comparison with the file just written, in any order of the files, ends well. -/
def RerunPasses (files : List ResultFile) : Prop :=
  ∀ kgr l l', l.Perm files → l'.Perm files →
    ∃ d, ReadsKgr (newKgrFile kgr l) d ∧ exitCode (sameAsYesterday d l') = 0

/-- Even the order of the members is the same in every file that can be written. -/
def SameText (files : List ResultFile) : Prop :=
  ∀ kgr kgr' l l', l.Perm files → l'.Perm files → newKgrFile kgr l = newKgrFile kgr' l'

/-- All results of one test identity have one status. -/
def Consistent (files : List ResultFile) : Prop :=
  ∀ r ∈ currentResults files, ∀ r' ∈ currentResults files,
    testFullName r = testFullName r' → r.status = r'.status

def SingleOutcome (files : List ResultFile) : Prop :=
  ∀ r ∈ currentResults files, ∀ r' ∈ currentResults files,
    testFullName r = testFullName r' ∧ r.status = r'.status

/-- The strings of a result are what `json.loads` gives. -/
structure Loaded (r : Result) : Prop where
  fullName : Unpaired r.fullName
  name : Unpaired r.name
  status : Unpaired r.status

instance (files : List ResultFile) : Decidable (Consistent files) :=
  inferInstanceAs (Decidable (∀ r ∈ currentResults files, ∀ r' ∈ currentResults files,
    testFullName r = testFullName r' → r.status = r'.status))

/-! The file read back. -/

theorem unpaired_append_cons {a b : Str} (c : Char) (ha : Unpaired a) (hb : Unpaired b) :
    Unpaired (a ++ .ch c :: b) := by
  induction a with
  | nil => exact ⟨False.elim, hb⟩
  | cons p a ih =>
    refine ⟨fun hhigh q hq => ?_, ih ha.2⟩
    cases a with
    | nil =>
      obtain rfl : CodePoint.ch c = q := by simpa using hq
      exact id
    | cons p' a => exact ha.1 hhigh q hq

theorem unpaired_testFullName {r : Result} (h : Loaded r) : Unpaired (testFullName r) := by
  have hname : Unpaired (r.fullName ++ (":" : Str) ++ r.name) := by
    rw [List.append_assoc]
    exact unpaired_append_cons ':' h.fullName h.name
  unfold testFullName
  cases r.parameters with
  | none => exact hname
  | some parameters =>
    dsimp only
    rw [List.append_assoc, List.append_assoc]
    refine unpaired_append_cons '(' hname ?_
    have hclose : (")" : Str) = ofText [')'] := rfl
    rw [hclose, ofText, ofText, ← List.map_append]
    exact unpaired_ofText _

/-- The last result recorded under a name counts. -/
theorem foldl_record_cases (results : List Result) (d : Dict Str Str) (fullName : Str) :
    (fullName ∉ results.map testFullName ∧
        (results.foldl record d).get? fullName = d.get? fullName) ∨
      ∃ r ∈ results, testFullName r = fullName ∧
        (results.foldl record d).get? fullName = some r.status := by
  induction results using List.reverseRecOn with
  | nil => exact .inl ⟨List.not_mem_nil, rfl⟩
  | append_singleton results r ih =>
    simp only [List.foldl_append, List.foldl_cons, List.foldl_nil, record, Dict.get?_set]
    split
    · next h => exact .inr ⟨r, by simp, h.symm, rfl⟩
    · next h =>
      rcases ih with ⟨hout, heq⟩ | ⟨q, hq, hname, heq⟩
      · exact .inl ⟨by simpa [hout] using h, heq⟩
      · exact .inr ⟨q, List.mem_append_left _ hq, hname, heq⟩

/-- The map built by a run, which the KGR it is compared with does not enter. -/
def newResults (files : List ResultFile) : Dict Str Str :=
  (currentResults files).foldl record Dict.empty

theorem newKgrResults_eq_newResults (kgr : Dict Str Str) (files : List ResultFile) :
    (sameAsYesterday kgr files).newKgrResults = newResults files :=
  newKgrResults_eq kgr files _

theorem newResults_get? {files : List ResultFile} {fullName status : Str}
    (h : (newResults files).get? fullName = some status) :
    ∃ r ∈ currentResults files, testFullName r = fullName ∧ r.status = status := by
  rcases foldl_record_cases (currentResults files) Dict.empty fullName with
    ⟨-, hnone⟩ | ⟨r, hr, hname, hsome⟩
  · rw [newResults, hnone] at h
    cases h
  · rw [newResults, hsome, Option.some.injEq] at h
    exact ⟨r, hr, hname, h⟩

theorem newResults_of_mem {files : List ResultFile} {r : Result} (h : r ∈ currentResults files) :
    ∃ q ∈ currentResults files, testFullName q = testFullName r ∧
      (newResults files).get? (testFullName r) = some q.status := by
  rcases foldl_record_cases (currentResults files) Dict.empty (testFullName r) with
    ⟨hout, -⟩ | hlast
  · exact absurd (List.mem_map_of_mem h) hout
  · exact hlast

theorem loadable_newResults {files : List ResultFile}
    (h : ∀ r ∈ currentResults files, Loaded r) :
    Loadable (.obj (kgrMembers (newResults files))) := by
  refine ⟨?_, loadableMembers_iff.mpr fun m hm => ?_⟩
  · rw [kgrMembers, List.map_map]
    exact (newResults files).nodup
  · obtain ⟨e, he, rfl⟩ := List.mem_map.mp hm
    obtain ⟨r, hr, hname, hstatus⟩ :=
      newResults_get? (lookup_of_mem (newResults files).nodup he)
    exact ⟨hname ▸ unpaired_testFullName (h r hr), hstatus ▸ (h r hr).status⟩

theorem kgrMembers_injective {d d' : Dict Str Str} (h : kgrMembers d = kgrMembers d') :
    d = d' := by
  have hentries : d.entries = d'.entries :=
    List.map_injective_iff.mpr (fun e e' he => by simpa [Prod.ext_iff] using he) h
  cases d
  cases d'
  cases hentries
  rfl

theorem currentResults_perm {l files : List ResultFile} (h : l.Perm files) (r : Result) :
    r ∈ currentResults l ↔ r ∈ currentResults files :=
  ((h.filter _).map _).mem_iff

/-- The file is read back as the map of the run that wrote it. -/
theorem readsKgr_iff {files l : List ResultFile} (h : ∀ r ∈ currentResults files, Loaded r)
    (perm : l.Perm files) (kgr d : Dict Str Str) :
    ReadsKgr (newKgrFile kgr l) d ↔ d = newResults l := by
  have hl : ∀ r ∈ currentResults l, Loaded r := fun r hr =>
    h r ((currentResults_perm perm r).mp hr)
  rw [ReadsKgr, newKgrFile, newKgrResults_eq_newResults, loads_dumps (loadable_newResults hl)]
  simp only [Except.ok.injEq, Json.obj.injEq]
  exact ⟨fun hd => (kgrMembers_injective hd).symm, fun hd => by rw [hd]⟩

/-! The file of a consistent set of results, and of any other. -/

theorem consistent_get? {files l : List ResultFile} (hc : Consistent files)
    (perm : l.Perm files) {r : Result} (hr : r ∈ currentResults files) :
    (newResults l).get? (testFullName r) = some r.status := by
  obtain ⟨q, hq, hname, hsome⟩ := newResults_of_mem ((currentResults_perm perm r).mpr hr)
  rw [hsome, hc q ((currentResults_perm perm q).mp hq) r hr hname]

theorem rerunPasses_iff {files : List ResultFile} (h : ∀ r ∈ currentResults files, Loaded r) :
    RerunPasses files ↔ Consistent files := by
  constructor
  · intro passes r hr r' hr' hname
    obtain ⟨d, hd, hexit⟩ := passes Dict.empty files files (.refl _) (.refl _)
    have hconfirmed := (exitCode_eq_zero d files).mp hexit
    have hr := hconfirmed r hr
    have hr' := hconfirmed r' hr'
    rw [Confirmed, hname] at hr
    rw [Confirmed, hr, Option.some.injEq] at hr'
    exact hr'
  · intro hc kgr l l' perm perm'
    refine ⟨newResults l, (readsKgr_iff h perm kgr _).mpr rfl, (exitCode_eq_zero _ _).mpr ?_⟩
    intro r hr
    exact consistent_get? hc perm ((currentResults_perm perm' r).mp hr)

/-- Any of the results can be the last one that the directory lists. -/
theorem exists_last {files : List ResultFile} {r : Result} (hr : r ∈ currentResults files) :
    ∃ l : List ResultFile, l.Perm files ∧
      (newResults l).get? (testFullName r) = some r.status := by
  obtain ⟨f, hf, rfl⟩ := List.mem_map.mp hr
  obtain ⟨hf, hresult⟩ := List.mem_filter.mp hf
  obtain ⟨a, b, rfl⟩ := List.append_of_mem hf
  refine ⟨a ++ b ++ [f], ?_, ?_⟩
  · rw [List.append_assoc]
    exact (List.perm_append_singleton f b).append_left a
  · simp [newResults, currentResults, hresult, record]

theorem orderFree_iff {files : List ResultFile} (h : ∀ r ∈ currentResults files, Loaded r) :
    OrderFree files ↔ Consistent files := by
  constructor
  · intro free r hr r' hr' hname
    obtain ⟨l, perm, hlast⟩ := exists_last hr
    obtain ⟨l', perm', hlast'⟩ := exists_last hr'
    obtain ⟨d, d', hd, hd', same⟩ := free Dict.empty Dict.empty l l' perm perm'
    rw [(readsKgr_iff h perm _ _).mp hd, (readsKgr_iff h perm' _ _).mp hd'] at same
    rw [← same, ← hname, hlast, Option.some.injEq] at hlast'
    exact hlast'
  · intro hc kgr kgr' l l' perm perm'
    refine ⟨newResults l, newResults l', (readsKgr_iff h perm kgr _).mpr rfl,
      (readsKgr_iff h perm' kgr' _).mpr rfl, fun fullName => ?_⟩
    have hsame : ∀ {l l' : List ResultFile}, l.Perm files → l'.Perm files → ∀ status,
        (newResults l).get? fullName = some status →
          (newResults l').get? fullName = some status := by
      intro l l' perm perm' status hget
      obtain ⟨r, hr, rfl, rfl⟩ := newResults_get? hget
      exact consistent_get? hc perm' ((currentResults_perm perm r).mp hr)
    exact Option.ext fun status => ⟨hsame perm perm' status, hsame perm' perm status⟩

/-! The order of the members. -/

theorem head?_foldl_record {results : List Result} {d : Dict Str Str} {k : Str}
    (h : d.keys.head? = some k) : (results.foldl record d).keys.head? = some k := by
  induction results generalizing d with
  | nil => exact h
  | cons r results ih =>
    refine ih ?_
    rw [Dict.keys, record, Dict.set, keys_assign]
    split
    · exact h
    · rw [List.head?_append_of_ne_nil, ← Dict.keys, h]
      rintro hnil
      rw [Dict.keys, hnil] at h
      cases h

/-- Any of the results can be the first one that the directory lists. -/
theorem exists_first {files : List ResultFile} {r : Result} (hr : r ∈ currentResults files) :
    ∃ l : List ResultFile, l.Perm files ∧ (newResults l).keys.head? = some (testFullName r) := by
  obtain ⟨f, hf, rfl⟩ := List.mem_map.mp hr
  obtain ⟨hf, hresult⟩ := List.mem_filter.mp hf
  obtain ⟨a, b, rfl⟩ := List.append_of_mem hf
  refine ⟨f :: (a ++ b), List.perm_middle.symm, ?_⟩
  have hcons : currentResults (f :: (a ++ b)) = f.results :: currentResults (a ++ b) := by
    simp [currentResults, hresult]
  rw [newResults, hcons, List.foldl_cons]
  exact head?_foldl_record rfl

theorem entries_of_single {n s : Str} {results : List Result}
    (h : ∀ r ∈ results, testFullName r = n ∧ r.status = s) {d : Dict Str Str}
    (hd : d.entries = [(n, s)]) : (results.foldl record d).entries = [(n, s)] := by
  induction results generalizing d with
  | nil => exact hd
  | cons r results ih =>
    obtain ⟨hn, hs⟩ := h r List.mem_cons_self
    refine ih (fun q hq => h q (List.mem_cons_of_mem _ hq)) ?_
    rw [record, hn, hs]
    change assign n s d.entries = [(n, s)]
    rw [hd, assign, if_pos rfl]

theorem newResults_of_single {files : List ResultFile} {n s : Str}
    (hne : currentResults files ≠ [])
    (h : ∀ r ∈ currentResults files, testFullName r = n ∧ r.status = s) :
    (newResults files).entries = [(n, s)] := by
  obtain ⟨r, results, hcons⟩ := List.exists_cons_of_ne_nil hne
  rw [newResults, hcons, List.foldl_cons]
  rw [hcons] at h
  obtain ⟨hn, hs⟩ := h r List.mem_cons_self
  refine entries_of_single (fun q hq => h q (List.mem_cons_of_mem _ hq)) ?_
  rw [record, Dict.set, hn, hs]
  rfl

theorem sameText_iff {files : List ResultFile} (h : ∀ r ∈ currentResults files, Loaded r) :
    SameText files ↔ SingleOutcome files := by
  constructor
  · intro same r hr r' hr'
    have hmaps : ∀ {l l' : List ResultFile}, l.Perm files → l'.Perm files →
        newResults l = newResults l' := by
      intro l l' perm perm'
      refine (readsKgr_iff h perm' Dict.empty _).mp ?_
      rw [← same Dict.empty Dict.empty l l' perm perm']
      exact (readsKgr_iff h perm Dict.empty _).mpr rfl
    have hname : testFullName r = testFullName r' := by
      obtain ⟨l, perm, hfirst⟩ := exists_first hr
      obtain ⟨l', perm', hfirst'⟩ := exists_first hr'
      rw [hmaps perm perm', hfirst', Option.some.injEq] at hfirst
      exact hfirst.symm
    obtain ⟨l, perm, hlast⟩ := exists_last hr
    obtain ⟨l', perm', hlast'⟩ := exists_last hr'
    rw [hmaps perm perm', hname, hlast', Option.some.injEq] at hlast
    exact ⟨hname, hlast.symm⟩
  · intro single kgr kgr' l l' perm perm'
    have hentries : ∀ {l : List ResultFile}, l.Perm files → ∀ {r : Result},
        r ∈ currentResults files → (newResults l).entries = [(testFullName r, r.status)] := by
      intro l perm r hr
      refine newResults_of_single (fun hnil => ?_) fun q hq => ?_
      · have hr := (currentResults_perm perm r).mpr hr
        rw [hnil] at hr
        cases hr
      · exact single q ((currentResults_perm perm q).mp hq) r hr
    have hmembers : (newResults l).entries = (newResults l').entries := by
      cases hfiles : currentResults files with
      | nil =>
        have hnil : ∀ {l : List ResultFile}, l.Perm files → currentResults l = [] :=
          fun perm => List.eq_nil_iff_forall_not_mem.mpr fun q hq =>
            absurd ((currentResults_perm perm q).mp hq) (by simp [hfiles])
        rw [newResults, newResults, hnil perm, hnil perm']
      | cons r results =>
        have hr : r ∈ currentResults files := hfiles ▸ List.mem_cons_self
        rw [hentries perm hr, hentries perm' hr]
    rw [newKgrFile, newKgrFile, newKgrResults_eq_newResults, newKgrResults_eq_newResults,
      kgrMembers, kgrMembers, hmembers]

/-- The New-KGR file depends only on the set of files and makes the next run pass just when
all results of one test identity have one status. Its members stand in the order of the
directory, so that as a text it depends on the set of files only for a single outcome. -/
theorem new_kgr_stable_iff (files : List ResultFile)
    (h : ∀ r ∈ currentResults files, Loaded r) :
    (OrderFree files ∧ RerunPasses files ↔ Consistent files) ∧
      (SameText files ↔ SingleOutcome files) := by
  rw [orderFree_iff h, rerunPasses_iff h, and_self_iff]
  exact ⟨Iff.rfl, sameText_iff h⟩

/-- A result of a scenario without parameters. -/
def plainResult (name status : String) : Result := ⟨("Feature" : String), name, none, status⟩

theorem loaded_plainResult (name status : String) : Loaded (plainResult name status) :=
  ⟨unpaired_ofText _, unpaired_ofText _, unpaired_ofText _⟩

/-- Two tests, one of them run twice with the same status. -/
theorem new_kgr_stable_smoke :
    let files : List ResultFile := [⟨"1-result.json".toList, plainResult "a" "passed"⟩,
      ⟨"2-result.json".toList, plainResult "b" "failed"⟩,
      ⟨"3-result.json".toList, plainResult "a" "passed"⟩]
    OrderFree files ∧ RerunPasses files := by
  intro files
  refine (new_kgr_stable_iff files fun r hr => ?_).1.mpr (by decide)
  obtain ⟨f, hf, rfl⟩ := List.mem_map.mp hr
  simp only [files, List.mem_filter, List.mem_cons, List.not_mem_nil, or_false] at hf
  rcases hf with ⟨rfl | rfl | rfl, -⟩ <;> exact loaded_plainResult _ _

/-- A scenario that failed and passed when it was retried: the file depends on which of the
two results the directory lists last, and the next run differs from it in the other one. -/
theorem retried_result_unstable :
    let files : List ResultFile := [⟨"1-result.json".toList, plainResult "a" "failed"⟩,
      ⟨"2-result.json".toList, plainResult "a" "passed"⟩]
    ¬ (OrderFree files ∧ RerunPasses files) ∧ ¬ OrderFree files ∧ ¬ RerunPasses files := by
  intro files
  have hloaded : ∀ r ∈ currentResults files, Loaded r := by
    intro r hr
    obtain ⟨f, hf, rfl⟩ := List.mem_map.mp hr
    simp only [files, List.mem_filter, List.mem_cons, List.not_mem_nil, or_false] at hf
    rcases hf with ⟨rfl | rfl, -⟩ <;> exact loaded_plainResult _ _
  have hnot : ¬ Consistent files := by decide
  exact ⟨fun both => hnot ((rerunPasses_iff hloaded).mp both.2),
    fun free => hnot ((orderFree_iff hloaded).mp free),
    fun passes => hnot ((rerunPasses_iff hloaded).mp passes)⟩

end AgentTestHarness.SameAsYesterday
