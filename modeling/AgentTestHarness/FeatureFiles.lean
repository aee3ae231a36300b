import AgentTestHarness.Scenarios
import Mathlib.Data.List.ReduceOption

/-! Reading feature files line by line with one line of memory, against what the lines are in
Gherkin. -/
namespace AgentTestHarness.FeatureFiles
open PyText PyJson
open Scenarios (Scenario Feature)

/-! Python strings. -/

/-- `str.split` without a separator. -/
def split (t : Text) : List Text := (t.splitOnP isWhitespace).filter fun w => w ≠ []

inductive ReadError
  | assertionError
  | attributeError
  | valueError
  deriving DecidableEq

/-- `str.index`. -/
def index (line : Text) (c : Char) : Except ReadError ℕ :=
  if c ∈ line then .ok (line.idxOf c) else .error .valueError

/-! The code. -/

structure Reading where
  feature : Option Feature
  lastLine : Option Text
  deriving DecidableEq

def splitLast : Option Text → Except ReadError (List Text)
  | none => .error .attributeError
  | some lastLine => .ok (split lastLine)

def readLine (r : Reading) (rawLine : Text) : Except ReadError Reading :=
  let line := strip rawLine
  if "Feature".toList <+: line then
    match r.feature with
    | some _ => .error .assertionError
    | none => do
      let colidx ← index line ':'
      let name := strip (line.drop (colidx + 1))
      let ftags ← splitLast r.lastLine
      .ok ⟨some ⟨name, ftags, []⟩, some line⟩
  else if "Scenario".toList <+: line then
    match r.feature with
    | none => .error .assertionError
    | some feature => do
      let colidx ← index line ':'
      let name := strip (line.drop (colidx + 1))
      let stags ← splitLast r.lastLine
      .ok ⟨some { feature with scenarios := feature.scenarios ++ [⟨name, stags⟩] }, some line⟩
  else .ok { r with lastLine := some line }

/-- One file, as the list of its lines. -/
def readFeature (lines : List Text) : Except ReadError (Option Feature) := do
  let r ← lines.foldlM readLine ⟨none, none⟩
  .ok (r.feature.filter fun feature => feature.scenarios ≠ [])

/-- The files in the order of their paths. -/
def readFeatures (files : List (List Text)) : Except ReadError (List Feature) := do
  let features ← files.mapM readFeature
  .ok features.reduceOption

/-! The lines of a Gherkin file. -/

inductive Keyword
  | feature
  | scenario
  | scenarioOutline
  deriving DecidableEq

def Keyword.text : Keyword → Text
  | .feature => "Feature".toList
  | .scenario => "Scenario".toList
  | .scenarioOutline => "Scenario Outline".toList

/-- What a line is. Steps, table rows, descriptions, doc strings and all other headers are
`other`. -/
inductive Kind
  | blank
  | comment
  | tags (tags comment : List Text)
  | header (keyword : Keyword) (title : Text)
  | other
  deriving DecidableEq

/-- A line with its kind; a comment goes from a word with '#' to the end of the line. -/
def Kind.Fits (line : Text) : Kind → Prop
  | .blank => line = []
  | .comment => line.head? = some '#'
  | .tags ts rest => line.head? = some '@' ∧ split line = ts ++ rest ∧
      (∀ t ∈ ts, t.head? = some '@') ∧ ∀ w ∈ rest.head?, w.head? = some '#'
  | .header keyword title => ∃ rest, line = keyword.text ++ ':' :: rest ∧ title = strip rest
  | .other => line ≠ []

structure Line where
  text : Text
  kind : Kind
  fits : kind.Fits (strip text)

structure Entries where
  pending : List Text
  found : List Scenario

/-- Tags wait for the next header; blank lines and comments do not matter to them. -/
def Entries.next (e : Entries) (l : Line) : Entries := match l.kind with
  | .blank => e
  | .comment => e
  | .tags ts _ => { e with pending := e.pending ++ ts }
  | .header _ title => ⟨[], e.found ++ [⟨title, e.pending⟩]⟩
  | .other => { e with pending := [] }

def entries (ls : List Line) : Entries := ls.foldl Entries.next ⟨[], []⟩

/-- The tags of the block that ends with the lines. -/
def blockTags (ls : List Line) : List Text := (entries ls).pending

/-- The first entry is the feature, the others are its scenarios. -/
def featureOf : List Scenario → Option Feature
  | [] => none
  | f :: scenarios => some ⟨f.name, f.tags, scenarios⟩

/-- What is to be read; a feature without scenarios has no entry. -/
def expectedFeature (ls : List Line) : Option Feature :=
  (featureOf (entries ls).found).filter fun feature => feature.scenarios ≠ []

/-- Something holds of each line and the lines above it. -/
def EachLine (P : List Line → Line → Prop) (ls : List Line) : Prop :=
  ∀ above l, above ++ [l] <+: ls → P above l

/-- The first header is the feature's, and no other. -/
def WellFormed (ls : List Line) : Prop :=
  (entries ls).found ≠ [] ∧ EachLine (fun above l => ∀ keyword title,
    l.kind = .header keyword title → (keyword = .feature ↔ (entries above).found = [])) ls

/-! When the two agree. -/

def NoLookAlike (_ : List Line) (l : Line) : Prop :=
  l.kind = .other → ¬ "Feature".toList <+: strip l.text ∧ ¬ "Scenario".toList <+: strip l.text

def HasLineAbove (above : List Line) (l : Line) : Prop :=
  ∀ keyword title, l.kind = .header keyword title → above ≠ []

/-- Directly above a header there is a blank line, or tags without a comment, and no tags of the
same block come before that. -/
def OneLineBlock (above : List Line) (l : Line) : Prop :=
  ∀ keyword title, l.kind = .header keyword title → ∃ before last, above = before ++ [last] ∧
    blockTags before = [] ∧ (last.kind = .blank ∨ ∃ ts, last.kind = .tags ts [])

structure Readable (ls : List Line) : Prop where
  noLookAlike : EachLine NoLookAlike ls
  hasLineAbove : EachLine HasLineAbove ls
  oneLineBlock : 1 < (entries ls).found.length → EachLine OneLineBlock ls

/-! Words. -/

theorem head_strip {t : Text} {c : Char} (h : (strip t).head? = some c) :
    isWhitespace c = false := by
  obtain ⟨cs, hcs⟩ := List.head?_eq_some_iff.mp h
  obtain ⟨rest, hrest⟩ := List.rdropWhile_prefix isWhitespace (l := t.dropWhile isWhitespace)
  have hhead := List.head?_dropWhile_not isWhitespace t
  rw [← hrest, ← strip, hcs] at hhead
  simpa using hhead

theorem split_cons {c : Char} (h : isWhitespace c = false) (t : Text) :
    ∃ w ws, split (c :: t) = (c :: w) :: ws := by
  obtain ⟨w, ws, hws⟩ := List.exists_cons_of_ne_nil (List.splitOnP_ne_nil isWhitespace t)
  refine ⟨w, ws.filter fun w => w ≠ [], ?_⟩
  rw [split, List.splitOnP_cons_eq_if_modifyHead, h, hws]
  simp

/-- The first word of a line begins as the line does. -/
theorem split_strip {t : Text} {c : Char} (h : (strip t).head? = some c) :
    ∃ w ws, split (strip t) = (c :: w) :: ws := by
  obtain ⟨cs, hcs⟩ := List.head?_eq_some_iff.mp h
  rw [hcs]
  exact split_cons (head_strip h) cs

theorem split_strip_ne_nil {t : Text} (h : strip t ≠ []) : split (strip t) ≠ [] := by
  obtain ⟨c, cs, hcs⟩ := List.exists_cons_of_ne_nil h
  obtain ⟨w, ws, hws⟩ := split_strip (t := t) (c := c) (by rw [hcs]; rfl)
  rw [hws]
  exact List.cons_ne_nil _ _

/-! Entries. -/

theorem entries_append (ls : List Line) (l : Line) :
    entries (ls ++ [l]) = (entries ls).next l := List.foldl_append

theorem blockTags_append (ls : List Line) (l : Line) :
    blockTags (ls ++ [l]) = ((entries ls).next l).pending :=
  congrArg Entries.pending (entries_append ls l)

theorem head_of_blockTags (ls : List Line) : ∀ t ∈ blockTags ls, t.head? = some '@' := by
  induction ls using List.reverseRecOn with
  | nil => exact List.forall_mem_nil _
  | append_singleton ls l ih =>
    rw [blockTags_append, Entries.next]
    have hfits := l.fits
    cases hkind : l.kind with
    | blank => exact ih
    | comment => exact ih
    | tags ts rest =>
      rw [hkind] at hfits
      exact List.forall_mem_append.mpr ⟨ih, hfits.2.2.1⟩
    | header keyword title => exact List.forall_mem_nil _
    | other => exact List.forall_mem_nil _

/-- The words of a line of tags are the tags of its block just if the block begins with the line
and no comment ends it. -/
theorem tags_eq_iff {pending tags rest : List Text}
    (hat : ∀ t ∈ pending ++ tags, t.head? = some '@')
    (hcomment : ∀ w ∈ rest.head?, w.head? = some '#') :
    tags ++ rest = pending ++ tags ↔ pending = [] ∧ rest = [] := by
  constructor
  · intro h
    have hrest : rest = [] := by
      cases rest with
      | nil => rfl
      | cons w ws =>
        have hw := hat w (h ▸ List.mem_append_right _ List.mem_cons_self)
        rw [hcomment w rfl] at hw
        exact absurd hw (by decide)
    subst hrest
    rw [List.append_nil] at h
    exact ⟨List.self_eq_append_left.mp h, rfl⟩
  · rintro ⟨rfl, rfl⟩
    rw [List.append_nil, List.nil_append]

/-- The words directly above are the tags of the block just if the block is that one line. -/
theorem words_above_iff (before : List Line) (last : Line) :
    split (strip last.text) = blockTags (before ++ [last]) ↔
      blockTags before = [] ∧ (last.kind = .blank ∨ ∃ ts, last.kind = .tags ts []) := by
  rw [blockTags_append, Entries.next]
  have hfits := last.fits
  cases hkind : last.kind with
  | blank =>
    rw [hkind] at hfits
    rw [show strip last.text = [] from hfits]
    simp only [true_or, and_true]
    exact eq_comm
  | comment =>
    rw [hkind] at hfits
    obtain ⟨w, ws, hws⟩ := split_strip (show (strip last.text).head? = some '#' from hfits)
    refine iff_of_false (fun h => ?_) (by simp)
    have hmem : ('#' :: w) ∈ blockTags before := by
      have hblock : split (strip last.text) = blockTags before := h
      rw [← hblock, hws]
      exact List.mem_cons_self
    exact absurd (head_of_blockTags before _ hmem) (by simp)
  | tags ts rest =>
    rw [hkind] at hfits
    obtain ⟨-, hsplit, htags, hcomment⟩ := hfits
    have hat := List.forall_mem_append.mpr ⟨head_of_blockTags before, htags⟩
    rw [hsplit]
    refine (tags_eq_iff hat hcomment).trans (and_congr_right fun _ => ?_)
    simp
  | header keyword title =>
    rw [hkind] at hfits
    obtain ⟨rest, hline, -⟩ := hfits
    refine iff_of_false (split_strip_ne_nil ?_) (by simp)
    rw [hline]
    simp
  | other =>
    rw [hkind] at hfits
    exact iff_of_false (split_strip_ne_nil hfits) (by simp)

theorem eachLine_nil (P : List Line → Line → Prop) : EachLine P [] := by
  intro above l h
  simp at h

theorem eachLine_append {P : List Line → Line → Prop} {ls : List Line} {l : Line} :
    EachLine P (ls ++ [l]) ↔ EachLine P ls ∧ P ls l := by
  constructor
  · exact fun h => ⟨fun above k hk => h above k (hk.trans (List.prefix_append _ _)),
      h ls l List.prefix_rfl⟩
  · rintro ⟨hls, hl⟩ above k hk
    rcases List.prefix_concat_iff.mp hk with heq | hk
    · obtain ⟨rfl, hkl⟩ := List.append_inj' heq rfl
      obtain rfl := List.singleton_inj.mp hkl
      exact hl
    · exact hls above k hk

/-! One line. -/

def LooksLikeHeader (line : Text) : Prop :=
  "Feature".toList <+: line ∨ "Scenario".toList <+: line

def titleOf (line : Text) : Text := strip (line.drop (line.idxOf ':' + 1))

theorem featureOf_injective : Function.Injective featureOf := by
  intro cs ds h
  cases cs with
  | nil =>
    cases ds with
    | nil => rfl
    | cons d ds => cases h
  | cons c cs =>
    cases ds with
    | nil => cases h
    | cons d ds =>
      obtain ⟨hname, htags, rfl⟩ := Feature.mk.inj (Option.some.inj h)
      cases c
      cases d
      cases hname
      cases htags
      rfl

theorem not_looksLikeHeader {line : Text} {c : Char} (hF : c ≠ 'F') (hS : c ≠ 'S')
    (h : line.head? = some c) : ¬ LooksLikeHeader line := by
  obtain ⟨cs, rfl⟩ := List.head?_eq_some_iff.mp h
  rintro (hp | hp)
  · exact hF (List.cons_prefix_cons.mp hp).1.symm
  · exact hS (List.cons_prefix_cons.mp hp).1.symm

theorem splitLast_ok {lastLine : Option Text} {ws : List Text} (h : splitLast lastLine = .ok ws) :
    ∃ last, lastLine = some last ∧ ws = split last := by
  cases lastLine with
  | none => cases h
  | some last => exact ⟨last, rfl, (Except.ok.inj h).symm⟩

theorem index_ok {line : Text} {c : Char} {n : ℕ} (h : index line c = .ok n) :
    n = line.idxOf c := by
  unfold index at h
  split at h
  · exact (Except.ok.inj h).symm
  · cases h

/-- A line that looks like a header gives an entry with the words of the line above; the others
are just remembered. -/
theorem readLine_cases {r r' : Reading} {raw : Text} (h : readLine r raw = .ok r') :
    r'.lastLine = some (strip raw) ∧
      (¬ LooksLikeHeader (strip raw) ∧ r'.feature = r.feature ∨
        LooksLikeHeader (strip raw) ∧ ∃ last, r.lastLine = some last ∧ ∀ cs,
          r.feature = featureOf cs →
            r'.feature = featureOf (cs ++ [⟨titleOf (strip raw), split last⟩])) := by
  unfold readLine at h
  dsimp only at h
  split at h
  · next hfeature =>
    split at h
    · cases h
    · next hnone =>
      obtain ⟨colidx, hindex, h⟩ := bind_eq_ok h
      obtain ⟨ftags, hsplit, h⟩ := bind_eq_ok h
      obtain ⟨last, hlast, rfl⟩ := splitLast_ok hsplit
      obtain rfl := index_ok hindex
      obtain rfl := Except.ok.inj h
      refine ⟨rfl, .inr ⟨.inl hfeature, last, hlast, fun cs hcs => ?_⟩⟩
      obtain rfl : cs = [] := featureOf_injective (hcs.symm.trans hnone)
      rfl
  · next hfeature =>
    split at h
    · next hscenario =>
      split at h
      · cases h
      · next feature hsome =>
        obtain ⟨colidx, hindex, h⟩ := bind_eq_ok h
        obtain ⟨stags, hsplit, h⟩ := bind_eq_ok h
        obtain ⟨last, hlast, rfl⟩ := splitLast_ok hsplit
        obtain rfl := index_ok hindex
        obtain rfl := Except.ok.inj h
        refine ⟨rfl, .inr ⟨.inr hscenario, last, hlast, fun cs hcs => ?_⟩⟩
        rw [hsome] at hcs
        cases cs with
        | nil => cases hcs
        | cons c cs =>
          obtain rfl := Option.some.inj hcs
          rfl
    · next hscenario =>
      obtain rfl := Except.ok.inj h
      exact ⟨rfl, .inl ⟨fun hlike => hlike.elim hfeature hscenario, rfl⟩⟩

theorem readLine_plain (r : Reading) {raw : Text} (h : ¬ LooksLikeHeader (strip raw)) :
    readLine r raw = .ok { r with lastLine := some (strip raw) } := by
  rw [LooksLikeHeader, not_or] at h
  rw [readLine, if_neg h.1, if_neg h.2]

theorem colon_notMem_keyword (keyword : Keyword) : ':' ∉ keyword.text := by
  cases keyword
  all_goals decide

theorem index_header (keyword : Keyword) (rest : Text) :
    index (keyword.text ++ ':' :: rest) ':' = .ok keyword.text.length := by
  rw [index, if_pos (by simp), List.idxOf_append_of_notMem (colon_notMem_keyword keyword)]
  simp

theorem titleOf_header (keyword : Keyword) (rest : Text) :
    titleOf (keyword.text ++ ':' :: rest) = strip rest := by
  rw [titleOf, List.idxOf_append_of_notMem (colon_notMem_keyword keyword), List.idxOf_cons_self,
    Nat.add_zero, ← List.drop_drop, List.drop_left]
  rfl

theorem feature_prefix_header (keyword : Keyword) (rest : Text) :
    "Feature".toList <+: keyword.text ++ ':' :: rest ↔ keyword = .feature := by
  have hF : ('F' : Char) ≠ 'S' := by decide
  cases keyword with
  | feature => exact iff_of_true (List.prefix_append _ _) rfl
  | scenario => exact iff_of_false (fun h => hF (List.cons_prefix_cons.mp h).1) (by decide)
  | scenarioOutline => exact iff_of_false (fun h => hF (List.cons_prefix_cons.mp h).1) (by decide)

theorem scenario_prefix_header {keyword : Keyword} (h : keyword ≠ .feature) (rest : Text) :
    "Scenario".toList <+: keyword.text ++ ':' :: rest := by
  cases keyword with
  | feature => exact absurd rfl h
  | scenario => exact List.prefix_append _ _
  | scenarioOutline => exact ⟨" Outline".toList ++ ':' :: rest, rfl⟩

/-- What looks like a header in a well formed line is a header or one of the other lines. -/
theorem looksLikeHeader_iff (l : Line) : LooksLikeHeader (strip l.text) ↔
    (∃ keyword title, l.kind = .header keyword title) ∨ ¬ NoLookAlike [] l := by
  have hfits := l.fits
  rw [NoLookAlike]
  cases hkind : l.kind with
  | blank =>
    rw [hkind] at hfits
    rw [show strip l.text = [] from hfits]
    simp [LooksLikeHeader]
  | comment =>
    rw [hkind] at hfits
    exact iff_of_false (not_looksLikeHeader (by decide) (by decide) hfits) (by simp)
  | tags ts rest =>
    rw [hkind] at hfits
    exact iff_of_false (not_looksLikeHeader (by decide) (by decide) hfits.1) (by simp)
  | header keyword title =>
    rw [hkind] at hfits
    obtain ⟨rest, hline, -⟩ := hfits
    refine iff_of_true ?_ (.inl ⟨keyword, title, rfl⟩)
    rw [hline, LooksLikeHeader, feature_prefix_header]
    exact or_iff_not_imp_left.mpr fun h => scenario_prefix_header h rest
  | other =>
    simp only [reduceCtorEq, exists_false, false_or, LooksLikeHeader, forall_const]
    tauto

/-- A header is read if there is a line above and it is the first just if it is the feature's. -/
theorem readLine_header (r : Reading) {l : Line} {cs : List Scenario} {keyword : Keyword}
    {title last : Text} (hcs : r.feature = featureOf cs) (hkind : l.kind = .header keyword title)
    (horder : keyword = .feature ↔ cs = []) (hlast : r.lastLine = some last) :
    ∃ r', readLine r l.text = .ok r' := by
  have hfits := l.fits
  rw [hkind] at hfits
  obtain ⟨rest, hline, -⟩ := hfits
  unfold readLine
  simp only [hline, feature_prefix_header, hlast, splitLast, index_header]
  by_cases hfeature : keyword = .feature
  · rw [if_pos hfeature, hcs, horder.mp hfeature]
    exact ⟨_, rfl⟩
  · rw [if_neg hfeature, if_pos (scenario_prefix_header hfeature rest), hcs]
    obtain ⟨c, cs, rfl⟩ := List.exists_cons_of_ne_nil fun h => hfeature (horder.mpr h)
    exact ⟨_, rfl⟩

/-! All lines. -/

def readLines (ls : List Line) : Except ReadError Reading :=
  (ls.map Line.text).foldlM readLine ⟨none, none⟩

theorem readLines_append (ls : List Line) (l : Line) :
    readLines (ls ++ [l]) = readLines ls >>= fun r => readLine r l.text := by
  simp [readLines]

/-- What was read of some lines, against what they are: an entry for each header, and one more
for each other line that looks like one. -/
structure Agrees (ls : List Line) (r : Reading) (cs : List Scenario) : Prop where
  feature : r.feature = featureOf cs
  lastLine : r.lastLine = ls.getLast?.map fun l => strip l.text
  hasLineAbove : EachLine HasLineAbove ls
  length_le : (entries ls).found.length ≤ cs.length
  length_eq : cs.length = (entries ls).found.length ↔ EachLine NoLookAlike ls
  eq_found : cs = (entries ls).found ↔ EachLine NoLookAlike ls ∧ EachLine OneLineBlock ls

theorem agrees_nil : Agrees [] ⟨none, none⟩ [] where
  feature := rfl
  lastLine := rfl
  hasLineAbove := eachLine_nil _
  length_le := Nat.zero_le _
  length_eq := iff_of_true rfl (eachLine_nil _)
  eq_found := iff_of_true rfl ⟨eachLine_nil _, eachLine_nil _⟩

/-- A line that does not look like a header changes no entry. -/
theorem Agrees.plain {ls : List Line} {r : Reading} {cs : List Scenario} (h : Agrees ls r cs)
    {l : Line} (hplain : ¬ LooksLikeHeader (strip l.text)) :
    Agrees (ls ++ [l]) { r with lastLine := some (strip l.text) } cs := by
  rw [looksLikeHeader_iff, not_or, not_not] at hplain
  obtain ⟨hheader, hother⟩ := hplain
  have hnone : ∀ keyword title, l.kind ≠ .header keyword title :=
    fun keyword title hkind => hheader ⟨keyword, title, hkind⟩
  have hfound : (entries (ls ++ [l])).found = (entries ls).found := by
    rw [entries_append, Entries.next]
    cases hkind : l.kind with
    | header keyword title => exact absurd hkind (hnone keyword title)
    | blank | comment | tags _ _ | other => rfl
  have hlook : NoLookAlike ls l := hother
  have habove : HasLineAbove ls l := fun keyword title hkind => absurd hkind (hnone _ _)
  have hblock : OneLineBlock ls l := fun keyword title hkind => absurd hkind (hnone _ _)
  refine ⟨h.feature, by simp, eachLine_append.mpr ⟨h.hasLineAbove, habove⟩, ?_, ?_, ?_⟩
  · rw [hfound]
    exact h.length_le
  · rw [hfound, h.length_eq, eachLine_append, and_iff_left hlook]
  · rw [hfound, h.eq_found, eachLine_append, eachLine_append, and_iff_left hlook,
      and_iff_left hblock]

theorem oneLineBlock_iff {above : List Line} {l last : Line} {keyword : Keyword} {title : Text}
    (hkind : l.kind = .header keyword title) (hlast : above.getLast? = some last) :
    OneLineBlock above l ↔ split (strip last.text) = blockTags above := by
  obtain ⟨before, rfl⟩ := List.getLast?_eq_some_iff.mp hlast
  rw [words_above_iff]
  constructor
  · intro h
    obtain ⟨before', last', heq, hblock⟩ := h keyword title hkind
    obtain ⟨rfl, hsame⟩ := List.append_inj' heq rfl
    obtain rfl := List.singleton_inj.mp hsame
    exact hblock
  · exact fun h _ _ _ => ⟨before, last, rfl, h⟩

/-- A line that looks like a header adds an entry with the words above, which is right if it is
one and these are the tags of its block. -/
theorem Agrees.header {ls : List Line} {r r' : Reading} {cs : List Scenario} (h : Agrees ls r cs)
    {l : Line} {lastLine : Text} (hlike : LooksLikeHeader (strip l.text))
    (hlast : r.lastLine = some lastLine) (hline : r'.lastLine = some (strip l.text))
    (hfeature : r'.feature = featureOf (cs ++ [⟨titleOf (strip l.text), split lastLine⟩])) :
    Agrees (ls ++ [l]) r' (cs ++ [⟨titleOf (strip l.text), split lastLine⟩]) := by
  obtain ⟨last, hgetLast, rfl⟩ := Option.map_eq_some_iff.mp (h.lastLine.symm.trans hlast)
  have hne : ls ≠ [] := by
    rintro rfl
    cases hgetLast
  have habove : HasLineAbove ls l := fun _ _ _ => hne
  have hlines : r'.lastLine = (ls ++ [l]).getLast?.map fun l => strip l.text := by
    rw [hline]
    simp
  have habove' := eachLine_append.mpr ⟨h.hasLineAbove, habove⟩
  rcases (looksLikeHeader_iff l).mp hlike with ⟨keyword, title, hkind⟩ | hother
  · have hfound : (entries (ls ++ [l])).found =
        (entries ls).found ++ [⟨title, blockTags ls⟩] := by
      rw [entries_append, Entries.next, hkind]
      rfl
    have htitle : titleOf (strip l.text) = title := by
      have hfits := l.fits
      rw [hkind] at hfits
      obtain ⟨rest, hheader, htitle⟩ := hfits
      rw [hheader, titleOf_header, htitle]
    have hlook : NoLookAlike ls l := fun hkind' => by
      rw [hkind] at hkind'
      cases hkind'
    refine ⟨hfeature, hlines, habove', ?_, ?_, ?_⟩
    · rw [hfound, List.length_append, List.length_append]
      exact Nat.add_le_add_right h.length_le 1
    · rw [hfound, List.length_append, List.length_append, eachLine_append, and_iff_left hlook,
        ← h.length_eq]
      exact Nat.add_right_cancel_iff
    · rw [hfound, eachLine_append, eachLine_append, and_iff_left hlook, ← and_assoc,
        ← h.eq_found, oneLineBlock_iff hkind hgetLast, htitle]
      constructor
      · intro heq
        obtain ⟨hcs, hentry⟩ := List.append_inj' heq rfl
        exact ⟨hcs, (Scenario.mk.inj (List.singleton_inj.mp hentry)).2⟩
      · rintro ⟨rfl, hwords⟩
        rw [hwords]
  · have hfound : (entries (ls ++ [l])).found = (entries ls).found := by
      rw [NoLookAlike, Classical.not_imp] at hother
      rw [entries_append, Entries.next, hother.1]
    have hlonger : (entries (ls ++ [l])).found.length <
        (cs ++ [Scenario.mk (titleOf (strip l.text)) (split (strip last.text))]).length := by
      rw [hfound, List.length_append]
      exact Nat.lt_succ_of_le h.length_le
    have hlook : ¬ EachLine NoLookAlike (ls ++ [l]) :=
      fun heach => hother (eachLine_append.mp heach).2
    refine ⟨hfeature, hlines, habove', hlonger.le, ?_, ?_⟩
    · exact iff_of_false hlonger.ne' hlook
    · refine iff_of_false (fun heq => ?_) fun heach => hlook heach.1
      exact hlonger.ne' (congrArg List.length heq)

theorem agrees_of_readLines {ls : List Line} {r : Reading} (h : readLines ls = .ok r) :
    ∃ cs, Agrees ls r cs := by
  induction ls using List.reverseRecOn generalizing r with
  | nil =>
    obtain rfl := Except.ok.inj h
    exact ⟨[], agrees_nil⟩
  | append_singleton ls l ih =>
    rw [readLines_append] at h
    obtain ⟨prior, hprior, h⟩ := bind_eq_ok h
    obtain ⟨cs, hcs⟩ := ih hprior
    rcases readLine_cases h with ⟨hline, ⟨hplain, -⟩ | ⟨hlike, lastLine, hlast, hfeature⟩⟩
    · rw [readLine_plain prior hplain] at h
      obtain rfl := Except.ok.inj h
      exact ⟨cs, hcs.plain hplain⟩
    · exact ⟨_, hcs.header hlike hlast hline (hfeature cs hcs.feature)⟩

/-- A file is read to its end if no other line looks like a header and each header has a line
above it. -/
theorem readLines_ok {ls : List Line} (order : EachLine (fun above l => ∀ keyword title,
    l.kind = .header keyword title → (keyword = .feature ↔ (entries above).found = [])) ls)
    (noLookAlike : EachLine NoLookAlike ls) (hasLineAbove : EachLine HasLineAbove ls) :
    ∃ r, readLines ls = .ok r := by
  induction ls using List.reverseRecOn with
  | nil => exact ⟨_, rfl⟩
  | append_singleton ls l ih =>
    rw [eachLine_append] at order noLookAlike hasLineAbove
    obtain ⟨r, hr⟩ := ih order.1 noLookAlike.1 hasLineAbove.1
    obtain ⟨cs, hcs⟩ := agrees_of_readLines hr
    rw [readLines_append, hr]
    by_cases hlike : LooksLikeHeader (strip l.text)
    · rcases (looksLikeHeader_iff l).mp hlike with ⟨keyword, title, hkind⟩ | hother
      · have hlength := hcs.length_eq.mpr noLookAlike.1
        have hempty : cs = [] ↔ (entries ls).found = [] := by
          rw [← List.length_eq_zero_iff, hlength, List.length_eq_zero_iff]
        have horder : keyword = .feature ↔ cs = [] :=
          (order.2 keyword title hkind).trans hempty.symm
        have hlast : r.lastLine = some (strip (ls.getLast (hasLineAbove.2 _ _ hkind)).text) := by
          rw [hcs.lastLine, List.getLast?_eq_some_getLast]
          rfl
        exact readLine_header r hcs.feature hkind horder hlast
      · exact absurd noLookAlike.2 hother
    · exact ⟨_, readLine_plain r hlike⟩

/-- A feature is kept if it has an entry besides its own. -/
theorem kept_eq (cs : List Scenario) :
    ((featureOf cs).filter fun feature => feature.scenarios ≠ []) =
      if 1 < cs.length then featureOf cs else none := by
  cases cs with
  | nil => rfl
  | cons f cs =>
    cases cs with
    | nil => rfl
    | cons c cs => simp [featureOf]

theorem readFeature_ok {ls : List Line} {feature : Option Feature}
    (h : readFeature (ls.map Line.text) = .ok feature) :
    ∃ r cs, readLines ls = .ok r ∧ Agrees ls r cs ∧
      feature = if 1 < cs.length then featureOf cs else none := by
  obtain ⟨r, hr, h⟩ := bind_eq_ok h
  obtain ⟨cs, hcs⟩ := agrees_of_readLines hr
  refine ⟨r, cs, hr, hcs, ?_⟩
  rw [← kept_eq, ← hcs.feature]
  exact (Except.ok.inj h).symm

/-- One file is read right just if it is readable. -/
theorem readFeature_iff {ls : List Line} (wellFormed : WellFormed ls) :
    readFeature (ls.map Line.text) = .ok (expectedFeature ls) ↔ Readable ls := by
  have hpos := List.length_pos_of_ne_nil wellFormed.1
  constructor
  · intro h
    obtain ⟨r, cs, hr, hcs, hfeature⟩ := readFeature_ok h
    rw [expectedFeature, kept_eq] at hfeature
    have hle := hcs.length_le
    by_cases hmany : 1 < (entries ls).found.length
    · rw [if_pos hmany, if_pos (hmany.trans_le hle)] at hfeature
      obtain ⟨hlook, hblock⟩ := hcs.eq_found.mp (featureOf_injective hfeature).symm
      exact ⟨hlook, hcs.hasLineAbove, fun _ => hblock⟩
    · rw [if_neg hmany] at hfeature
      have hone : ¬ 1 < cs.length := by
        intro hlt
        rw [if_pos hlt] at hfeature
        cases cs with
        | nil => cases hlt
        | cons c cs => cases hfeature
      have hlength : cs.length = (entries ls).found.length := by omega
      exact ⟨hcs.length_eq.mp hlength, hcs.hasLineAbove, fun hlt => absurd hlt hmany⟩
  · rintro ⟨hlook, habove, hblock⟩
    obtain ⟨r, hr⟩ := readLines_ok wellFormed.2 hlook habove
    obtain ⟨cs, hcs⟩ := agrees_of_readLines hr
    have hread : readFeature (ls.map Line.text) =
        .ok (r.feature.filter fun feature => feature.scenarios ≠ []) := by
      rw [readFeature, ← readLines, hr]
      rfl
    rw [hread, hcs.feature, expectedFeature, kept_eq, kept_eq, hcs.length_eq.mpr hlook]
    by_cases hmany : 1 < (entries ls).found.length
    · rw [if_pos hmany, if_pos hmany, hcs.eq_found.mpr ⟨hlook, hblock hmany⟩]
    · rw [if_neg hmany, if_neg hmany]

/-! All files. -/

theorem isSome_of_expected {ls : List Line} {feature : Option Feature}
    (h : readFeature (ls.map Line.text) = .ok feature) (hexpected : (expectedFeature ls).isSome) :
    feature.isSome := by
  obtain ⟨r, cs, -, hcs, rfl⟩ := readFeature_ok h
  rw [expectedFeature, kept_eq] at hexpected
  have hle := hcs.length_le
  by_cases hmany : 1 < (entries ls).found.length
  · rw [if_pos hmany] at hexpected
    rw [if_pos (hmany.trans_le hle)]
    cases cs with
    | nil => exact absurd (hmany.trans_le hle) (Nat.not_lt_zero 1)
    | cons c cs => rfl
  · rw [if_neg hmany] at hexpected
    cases hexpected

/-- The files that are read give at least the features expected, and these just if each file
gives its own. -/
theorem features_of_mapM {docs : List (List Line)} {features : List (Option Feature)}
    (h : (docs.map fun ls => ls.map Line.text).mapM readFeature = .ok features) :
    (docs.filterMap expectedFeature).length ≤ features.reduceOption.length ∧
      (features.reduceOption = docs.filterMap expectedFeature →
        ∀ ls ∈ docs, readFeature (ls.map Line.text) = .ok (expectedFeature ls)) := by
  induction docs generalizing features with
  | nil => exact ⟨Nat.zero_le _, fun _ => List.forall_mem_nil _⟩
  | cons ls docs ih =>
    rw [List.map_cons, List.mapM_cons] at h
    obtain ⟨feature, hfeature, h⟩ := bind_eq_ok h
    obtain ⟨rest, hrest, h⟩ := bind_eq_ok h
    obtain rfl := Except.ok.inj h
    obtain ⟨hle, hrest⟩ := ih hrest
    have hsome := isSome_of_expected hfeature
    rw [List.forall_mem_cons, hfeature]
    cases feature with
    | none =>
      have hnone : expectedFeature ls = none := by
        cases he : expectedFeature ls with
        | none => rfl
        | some f => exact absurd (hsome (he ▸ rfl)) (by decide)
      rw [List.reduceOption_cons_of_none, List.filterMap_cons_none hnone]
      exact ⟨hle, fun heq => ⟨by rw [hnone], hrest heq⟩⟩
    | some f =>
      rw [List.reduceOption_cons_of_some]
      cases he : expectedFeature ls with
      | none =>
        rw [List.filterMap_cons_none he]
        refine ⟨Nat.le_succ_of_le hle, fun heq => ?_⟩
        rw [← heq, List.length_cons] at hle
        omega
      | some g =>
        rw [List.filterMap_cons_some he]
        refine ⟨Nat.succ_le_succ hle, fun heq => ?_⟩
        obtain ⟨rfl, htail⟩ := List.cons.inj heq
        exact ⟨rfl, hrest htail⟩

/-- The feature files are read right just if each is readable. -/
theorem readFeatures_iff {docs : List (List Line)} (wellFormed : ∀ ls ∈ docs, WellFormed ls) :
    readFeatures (docs.map fun ls => ls.map Line.text) = .ok (docs.filterMap expectedFeature) ↔
      ∀ ls ∈ docs, Readable ls := by
  have heach : (∀ ls ∈ docs, Readable ls) ↔
      ∀ ls ∈ docs, readFeature (ls.map Line.text) = .ok (expectedFeature ls) :=
    forall₂_congr fun ls hls => (readFeature_iff (wellFormed ls hls)).symm
  rw [heach]
  constructor
  · intro h
    obtain ⟨features, hfeatures, h⟩ := bind_eq_ok h
    exact (features_of_mapM hfeatures).2 (Except.ok.inj h)
  · intro h
    have hmap : (docs.map fun ls => ls.map Line.text).mapM readFeature =
        .ok (docs.map expectedFeature) := by
      rw [List.mapM_map]
      exact mapM_eq_map h
    rw [readFeatures, hmap]
    simp [List.reduceOption, bind, Except.bind]

def tagLine : Line :=
  ⟨"@RFC0160 @AIP10\n".toList, .tags ["@RFC0160".toList, "@AIP10".toList] [], by decide +kernel,
    by decide +kernel, by decide, fun _ h => by cases h⟩

def featureLine : Line :=
  ⟨"Feature: Connection\n".toList, .header .feature "Connection".toList, " Connection".toList,
    by decide +kernel, by decide +kernel⟩

def blankLine : Line := ⟨"\n".toList, .blank, (by decide +kernel : strip "\n".toList = [])⟩

def scenarioLine : Line :=
  ⟨"   Scenario: Establish a connection\n".toList, .header .scenario "Establish a connection".toList,
    " Establish a connection".toList, by decide +kernel, by decide +kernel⟩

/-- A file with one scenario. -/
def oneScenario (middle : List Line) : List Line :=
  [tagLine] ++ [featureLine] ++ middle ++ [scenarioLine]

theorem wellFormed_oneScenario {middle : List Line}
    (plain : ∀ l ∈ middle, ∀ keyword title, l.kind ≠ .header keyword title) :
    WellFormed (oneScenario middle) := by
  have hmiddle : (entries ([tagLine] ++ [featureLine] ++ middle)).found ≠ [] ∧
      EachLine (fun above l => ∀ keyword title, l.kind = .header keyword title →
        (keyword = .feature ↔ (entries above).found = []))
        ([tagLine] ++ [featureLine] ++ middle) := by
    induction middle using List.reverseRecOn with
    | nil =>
      refine ⟨List.cons_ne_nil _ _, ?_⟩
      rw [List.append_nil, eachLine_append, ← List.nil_append [tagLine], eachLine_append]
      refine ⟨⟨eachLine_nil _, fun keyword title h => by cases h⟩, fun keyword title h => ?_⟩
      obtain ⟨rfl, -⟩ := Kind.header.inj h
      decide
    | append_singleton middle l ih =>
      rw [List.forall_mem_append, List.forall_mem_singleton] at plain
      obtain ⟨hfound, heach⟩ := ih plain.1
      rw [← List.append_assoc]
      refine ⟨?_, eachLine_append.mpr ⟨heach, fun _ _ h => absurd h (plain.2 _ _)⟩⟩
      rw [entries_append, Entries.next]
      cases hkind : l.kind with
      | header keyword title => exact absurd hkind (plain.2 _ _)
      | blank | comment | tags _ _ | other => exact hfound
  refine ⟨?_, eachLine_append.mpr ⟨hmiddle.2, fun keyword title h => ?_⟩⟩
  · rw [oneScenario, entries_append]
    exact List.append_ne_nil_of_right_ne_nil _ (List.cons_ne_nil _ _)
  · obtain ⟨rfl, -⟩ := Kind.header.inj h
    exact iff_of_false (by decide) hmiddle.1

theorem blank_above_iff :
    readFeatures ([oneScenario [blankLine]].map fun ls => ls.map Line.text) =
      .ok ([oneScenario [blankLine]].filterMap expectedFeature) ↔
      ∀ ls ∈ [oneScenario [blankLine]], Readable ls := by
  refine readFeatures_iff (List.forall_mem_singleton.mpr (wellFormed_oneScenario ?_))
  rintro l hl keyword title hkind
  obtain rfl := List.mem_singleton.mp hl
  cases hkind

/-- The tags of the scenario are on two lines. -/
theorem two_tag_lines_misread :
    ¬ ∀ docs : List (List Line), (∀ ls ∈ docs, WellFormed ls) →
      readFeatures (docs.map fun ls => ls.map Line.text) =
        .ok (docs.filterMap expectedFeature) := by
  intro h
  have hread := h [oneScenario [tagLine, tagLine]] (List.forall_mem_singleton.mpr
    (wellFormed_oneScenario fun l hl keyword title hkind => by
      rcases List.mem_pair.mp hl with rfl | rfl
      · cases hkind
      · cases hkind))
  exact absurd hread (by decide +kernel)

end AgentTestHarness.FeatureFiles
