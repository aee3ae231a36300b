import AgentTestHarness.JsonText
import Mathlib.Data.List.TakeWhile

/-! `json.loads`: the parser, which finds the tree of a text, and the proof that it finds
exactly the trees that render to the text. -/
namespace AgentTestHarness.JsonReading
open PyText OrderedDict PyJson JsonText

def spaces (s : Text) : Text := s.takeWhile isSpace

def afterSpaces (s : Text) : Text := s.dropWhile isSpace

/-- A member name in quotes and the colon behind it. -/
def parseLabel (s : Text) : Option (Label × Text) :=
  let r := afterSpaces s
  if r.head? = some '"' then
    (scanString r.tail).bind fun (raw, r) =>
      let u := afterSpaces r
      if u.head? = some ':' then
        some (⟨spaces s, raw, spaces r, spaces u.tail⟩, afterSpaces u.tail)
      else none
  else none

mutual
def parseTree : ℕ → Text → Option (Tree × Text)
  | 0, _ => none
  | n + 1, s =>
    if s.head? = some '"' then (scanString s.tail).map fun (raw, r) => (.string raw, r)
    else if s.head? = some '[' then
      let r := afterSpaces s.tail
      if r.head? = some ']' then some (.emptyArray (spaces s.tail), r.tail)
      else (parseItems n s.tail).map fun (items, r) => (.array items, r)
    else if s.head? = some '{' then
      let r := afterSpaces s.tail
      if r.head? = some '}' then some (.emptyObject (spaces s.tail), r.tail)
      else (parseMembers n s.tail).map fun (members, r) => (.object members, r)
    else
      let w := s.takeWhile fun c => !endsWord c
      if w = [] then none else some (.word w, s.dropWhile fun c => !endsWord c)
def parseItems : ℕ → Text → Option (Items × Text)
  | 0, _ => none
  | n + 1, s =>
    (parseTree n (afterSpaces s)).bind fun (t, r) =>
      let u := afterSpaces r
      if u.head? = some ']' then some (.last (spaces s) t (spaces r), u.tail)
      else if u.head? = some ',' then
        (parseItems n u.tail).map fun (rest, r') => (.more (spaces s) t (spaces r) rest, r')
      else none
def parseMembers : ℕ → Text → Option (Members × Text)
  | 0, _ => none
  | n + 1, s =>
    (parseLabel s).bind fun (label, s) =>
      (parseTree n s).bind fun (t, r) =>
        let u := afterSpaces r
        if u.head? = some '}' then some (.last label t (spaces r), u.tail)
        else if u.head? = some ',' then
          (parseMembers n u.tail).map fun (rest, r') => (.more label t (spaces r) rest, r')
        else none
end

/-- A whole text: one tree between whitespace. -/
structure Document where
  before : Text
  tree : Tree
  after : Text

def Document.render (d : Document) : Text := d.before ++ d.tree.render ++ d.after

structure Document.Lexical (d : Document) : Prop where
  before : Pad d.before
  tree : d.tree.Lexical
  after : Pad d.after

/-- Twice the length is enough fuel: a tree in brackets takes two calls. -/
def parse (s : Text) : Option Document :=
  (parseTree (2 * s.length + 1) (afterSpaces s)).bind fun (t, r) =>
    if afterSpaces r = [] then some ⟨spaces s, t, r⟩ else none

def loads (s : Text) : Except PyError Json :=
  match (parse s).bind fun d => d.tree.value with
  | some v => .ok v
  | none => .error .jsonDecodeError

/-! What is parsed renders to the text. -/

theorem spaces_append_afterSpaces (s : Text) : spaces s ++ afterSpaces s = s :=
  List.takeWhile_append_dropWhile

theorem pad_spaces (s : Text) : Pad (spaces s) := fun _ hc => List.mem_takeWhile_imp hc

theorem cons_tail_of_head? {s : Text} {c : Char} (h : s.head? = some c) : c :: s.tail = s := by
  cases s with
  | nil => simp at h
  | cons d s => simpa using h.symm

/-- Up to the first character that is no space. -/
theorem spaces_append_cons {r : Text} {c : Char} (h : (afterSpaces r).head? = some c) :
    spaces r ++ c :: (afterSpaces r).tail = r := by
  rw [cons_tail_of_head? h, spaces_append_afterSpaces]

theorem scanString_cons {c : Char} (hquote : c ≠ '"') (hescape : c ≠ '\\') (r : Text) :
    scanString (c :: r) = (scanString r).map fun (raw, rest) => (c :: raw, rest) :=
  scanString.eq_4 c r hquote fun _ _ h _ => hescape h

theorem scanString_append_plain {w : Text} (h : ∀ c ∈ w, c ≠ '"' ∧ c ≠ '\\') (rest : Text) :
    scanString (w ++ rest) = (scanString rest).map fun (raw, r) => (w ++ raw, r) := by
  induction w with
  | nil => simp
  | cons c w ih =>
    obtain ⟨⟨hquote, hescape⟩, hw⟩ := List.forall_mem_cons.mp h
    rw [List.cons_append, scanString_cons hquote hescape, ih hw, Option.map_map]
    rfl

/-- A raw text without quotes and backslashes is closed by the first quote. -/
theorem closed_of_plain {raw : Text} (h : ∀ c ∈ raw, c ≠ '"' ∧ c ≠ '\\') : Closed raw := by
  intro rest
  rw [scanString_append_plain h]
  simp [scanString]

/-- A character that begins no escape stands for itself, unless it is a control character. -/
theorem pieces_cons {c : Char} (h : c ≠ '\\') (rest : Text) :
    pieces (c :: rest) = if c < ' ' then none else (pieces rest).map (.lit c :: ·) := by
  have hcons : pieces (c :: rest) =
      if c < ' ' ∨ c = '\\' then none else (pieces rest).map (.lit c :: ·) := by
    refine pieces.eq_4 c rest ?_ ?_
    · rintro _ _ _ _ _ rfl
      exact absurd rfl h
    · rintro _ _ rfl
      exact absurd rfl h
  simpa only [h, or_false] using hcons

theorem scanString_append {s raw rest : Text} (h : scanString s = some (raw, rest)) :
    s = raw ++ '"' :: rest ∧ Closed raw := by
  fun_induction scanString s generalizing raw rest with
  | case1 => simp at h
  | case2 r =>
    obtain ⟨rfl, rfl⟩ := by simpa using h
    exact ⟨rfl, fun _ => rfl⟩
  | case3 e r ih =>
    obtain ⟨⟨raw', rest'⟩, hscan, hpair⟩ := Option.map_eq_some_iff.mp h
    obtain ⟨rfl, rfl⟩ := by simpa using hpair
    obtain ⟨rfl, closed⟩ := ih hscan
    exact ⟨rfl, fun rest => by simp [scanString, closed rest]⟩
  | case4 c r hquote hescape ih =>
    obtain ⟨⟨raw', rest'⟩, hscan, hpair⟩ := Option.map_eq_some_iff.mp h
    obtain ⟨rfl, rfl⟩ := by simpa using hpair
    have hc : c ≠ '\\' := by
      rintro rfl
      cases r with
      | nil => simp [scanString] at hscan
      | cons e r => exact hescape e r rfl rfl
    obtain ⟨rfl, closed⟩ := ih hscan
    refine ⟨rfl, fun rest => ?_⟩
    rw [List.cons_append, scanString_cons (fun he => hquote (he ▸ rfl)) hc, closed rest]
    rfl

theorem parseLabel_sound {s r : Text} {label : Label} (h : parseLabel s = some (label, r)) :
    s = label.render ++ r ∧ label.Lexical := by
  unfold parseLabel at h
  dsimp only at h
  split at h
  · next hquote =>
    obtain ⟨⟨raw, r₁⟩, hscan, h⟩ := Option.bind_eq_some_iff.mp h
    dsimp only at h
    split at h
    · next hcolon =>
      obtain ⟨rfl, rfl⟩ := by simpa using h
      obtain ⟨htail, closed⟩ := scanString_append hscan
      refine ⟨?_, pad_spaces _, closed, pad_spaces _, pad_spaces _⟩
      have hs : spaces s ++ '"' :: (raw ++ '"' :: r₁) = s := by
        rw [← htail, spaces_append_cons hquote]
      have hr := spaces_append_cons hcolon
      have hu := spaces_append_afterSpaces (afterSpaces r₁).tail
      calc s = spaces s ++ '"' :: (raw ++ '"' :: r₁) := hs.symm
        _ = spaces s ++ '"' :: (raw ++ '"' :: (spaces r₁ ++ ':' ::
              (spaces (afterSpaces r₁).tail ++ afterSpaces (afterSpaces r₁).tail))) := by
            rw [hu, hr]
        _ = _ := by simp [Label.render, quoted]
    · exact absurd h (by simp)
  · exact absurd h (by simp)

/-- What a parser leaves behind follows what it found. -/
theorem parse_sound (n : ℕ) :
    (∀ s t r, parseTree n s = some (t, r) → s = t.render ++ r ∧ t.Lexical) ∧
    (∀ s items r, parseItems n s = some (items, r) →
      s = items.render ++ ']' :: r ∧ items.Lexical) ∧
    (∀ s members r, parseMembers n s = some (members, r) →
      s = members.render ++ '}' :: r ∧ members.Lexical) := by
  induction n with
  | zero => exact ⟨by simp [parseTree], by simp [parseItems], by simp [parseMembers]⟩
  | succ n ih =>
    obtain ⟨ihTree, ihItems, ihMembers⟩ := ih
    refine ⟨fun s t r h => ?_, fun s items r h => ?_, fun s members r h => ?_⟩
    · unfold parseTree at h
      split at h
      · next hquote =>
        obtain ⟨⟨raw, r'⟩, hscan, hpair⟩ := Option.map_eq_some_iff.mp h
        obtain ⟨rfl, rfl⟩ := by simpa using hpair
        obtain ⟨htail, closed⟩ := scanString_append hscan
        refine ⟨?_, closed⟩
        rw [← cons_tail_of_head? hquote, htail]
        simp [Tree.render, quoted]
      · split at h
        · next hopen =>
          dsimp only at h
          split at h
          · next hclose =>
            obtain ⟨rfl, rfl⟩ := by simpa using h
            refine ⟨?_, pad_spaces _⟩
            simp only [Tree.render, List.cons_append, List.append_assoc, List.nil_append]
            rw [spaces_append_cons hclose, cons_tail_of_head? hopen]
          · obtain ⟨⟨items, r'⟩, hitems, hpair⟩ := Option.map_eq_some_iff.mp h
            obtain ⟨rfl, rfl⟩ := by simpa using hpair
            obtain ⟨htail, lexical⟩ := ihItems _ _ _ hitems
            refine ⟨?_, lexical⟩
            rw [← cons_tail_of_head? hopen, htail]
            simp [Tree.render]
        · split at h
          · next hopen =>
            dsimp only at h
            split at h
            · next hclose =>
              obtain ⟨rfl, rfl⟩ := by simpa using h
              refine ⟨?_, pad_spaces _⟩
              simp only [Tree.render, List.cons_append, List.append_assoc, List.nil_append]
              rw [spaces_append_cons hclose, cons_tail_of_head? hopen]
            · obtain ⟨⟨members, r'⟩, hmembers, hpair⟩ := Option.map_eq_some_iff.mp h
              obtain ⟨rfl, rfl⟩ := by simpa using hpair
              obtain ⟨htail, lexical⟩ := ihMembers _ _ _ hmembers
              refine ⟨?_, lexical⟩
              rw [← cons_tail_of_head? hopen, htail]
              simp [Tree.render]
          · dsimp only at h
            split at h
            · exact absurd h (by simp)
            · next hword =>
              obtain ⟨rfl, rfl⟩ := by simpa using h
              refine ⟨List.takeWhile_append_dropWhile.symm, hword, fun c hc => ?_⟩
              simpa using List.mem_takeWhile_imp hc
    · unfold parseItems at h
      obtain ⟨⟨t, r'⟩, htree, h⟩ := Option.bind_eq_some_iff.mp h
      obtain ⟨htext, lexical⟩ := ihTree _ _ _ htree
      have hs : spaces s ++ (t.render ++ r') = s := by rw [← htext, spaces_append_afterSpaces]
      dsimp only at h
      split at h
      · next hclose =>
        obtain ⟨rfl, rfl⟩ := by simpa using h
        refine ⟨?_, pad_spaces _, lexical, pad_spaces _⟩
        simp only [Items.render, List.append_assoc]
        rw [spaces_append_cons hclose, hs]
      · split at h
        · next hcomma =>
          obtain ⟨⟨rest, r''⟩, hrest, hpair⟩ := Option.map_eq_some_iff.mp h
          obtain ⟨rfl, rfl⟩ := by simpa using hpair
          obtain ⟨htail, lexicalRest⟩ := ihItems _ _ _ hrest
          refine ⟨?_, pad_spaces _, lexical, pad_spaces _, lexicalRest⟩
          simp only [Items.render, List.append_assoc, List.cons_append]
          rw [← htail, spaces_append_cons hcomma, hs]
        · exact absurd h (by simp)
    · unfold parseMembers at h
      obtain ⟨⟨label, s'⟩, hlabel, h⟩ := Option.bind_eq_some_iff.mp h
      obtain ⟨⟨t, r'⟩, htree, h⟩ := Option.bind_eq_some_iff.mp h
      obtain ⟨hs, lexicalLabel⟩ := parseLabel_sound hlabel
      obtain ⟨htext, lexical⟩ := ihTree _ _ _ htree
      dsimp only at h htext
      split at h
      · next hclose =>
        obtain ⟨rfl, rfl⟩ := by simpa using h
        refine ⟨?_, lexicalLabel, lexical, pad_spaces _⟩
        simp only [Members.render, List.append_assoc]
        rw [spaces_append_cons hclose, ← htext, hs]
      · split at h
        · next hcomma =>
          obtain ⟨⟨rest, r''⟩, hrest, hpair⟩ := Option.map_eq_some_iff.mp h
          obtain ⟨rfl, rfl⟩ := by simpa using hpair
          obtain ⟨htail, lexicalRest⟩ := ihMembers _ _ _ hrest
          refine ⟨?_, lexicalLabel, lexical, pad_spaces _, lexicalRest⟩
          simp only [Members.render, List.append_assoc, List.cons_append]
          rw [← htail, spaces_append_cons hcomma, ← htext, hs]
        · exact absurd h (by simp)

/-- A parsed text is the rendering of its document. -/
theorem parse_render {s : Text} {d : Document} (h : parse s = some d) :
    s = d.render ∧ d.Lexical := by
  obtain ⟨⟨t, r⟩, htree, h⟩ := Option.bind_eq_some_iff.mp h
  obtain ⟨htext, lexical⟩ := (parse_sound _).1 _ _ _ htree
  dsimp only at h
  split at h
  · next hend =>
    obtain rfl := by simpa using h
    have hr : spaces r = r := by
      have := spaces_append_afterSpaces r
      rwa [hend, List.append_nil] at this
    refine ⟨?_, pad_spaces s, lexical, hr ▸ pad_spaces r⟩
    simp only [Document.render, List.append_assoc]
    rw [← htext, spaces_append_afterSpaces]
  · exact absurd h (by simp)

/-! What renders to the text is parsed. -/

mutual
/-- The depth of the calls that parse a tree. -/
def treeFuel : Tree → ℕ
  | .word _ | .string _ | .emptyArray _ | .emptyObject _ => 1
  | .array items => itemsFuel items + 1
  | .object members => membersFuel members + 1
def itemsFuel : Items → ℕ
  | .last _ t _ => treeFuel t + 1
  | .more _ t _ rest => treeFuel t + itemsFuel rest + 1
def membersFuel : Members → ℕ
  | .last _ t _ => treeFuel t + 1
  | .more _ t _ rest => treeFuel t + membersFuel rest + 1
end

mutual
theorem treeFuel_le : (t : Tree) → t.Lexical → treeFuel t ≤ 2 * t.render.length
  | .word w, h => by
    have := List.length_pos_of_ne_nil h.1
    simp only [treeFuel, Tree.render]
    omega
  | .string raw, _ => by
    simp only [treeFuel, Tree.render, quoted, List.length_append, List.length_cons]
    omega
  | .emptyArray pad, _ => by
    simp only [treeFuel, Tree.render, List.length_append, List.length_cons]
    omega
  | .emptyObject pad, _ => by
    simp only [treeFuel, Tree.render, List.length_append, List.length_cons]
    omega
  | .array items, h => by
    have := itemsFuel_le items h
    simp only [treeFuel, Tree.render, List.length_append, List.length_cons, List.length_nil]
    omega
  | .object members, h => by
    have := membersFuel_le members h
    simp only [treeFuel, Tree.render, List.length_append, List.length_cons, List.length_nil]
    omega
theorem itemsFuel_le : (items : Items) → items.Lexical →
    itemsFuel items ≤ 2 * items.render.length + 1
  | .last before t after, h => by
    have := treeFuel_le t h.2.1
    simp only [itemsFuel, Items.render, List.length_append]
    omega
  | .more before t after rest, h => by
    have := treeFuel_le t h.2.1
    have := itemsFuel_le rest h.2.2.2
    simp only [itemsFuel, Items.render, List.length_append, List.length_cons]
    omega
theorem membersFuel_le : (members : Members) → members.Lexical →
    membersFuel members ≤ 2 * members.render.length + 1
  | .last label t after, h => by
    have := treeFuel_le t h.2.1
    simp only [membersFuel, Members.render, List.length_append]
    omega
  | .more label t after rest, h => by
    have := treeFuel_le t h.2.1
    have := membersFuel_le rest h.2.2.2
    simp only [membersFuel, Members.render, List.length_append, List.length_cons]
    omega
end

/-- Where a word may end. -/
def Boundary (r : Text) : Prop := ∀ c ∈ r.head?, endsWord c = true

def NoSpace (r : Text) : Prop := ∀ c ∈ r.head?, isSpace c = false

theorem takeWhile_eq_nil {p : Char → Bool} {r : Text} (h : ∀ c ∈ r.head?, p c = false) :
    r.takeWhile p = [] ∧ r.dropWhile p = r := by
  cases r with
  | nil => simp
  | cons c r =>
    have hc : p c = false := h c rfl
    simp [hc]

theorem spaces_pad_append {pad r : Text} (hpad : Pad pad) (hr : NoSpace r) :
    spaces (pad ++ r) = pad ∧ afterSpaces (pad ++ r) = r := by
  obtain ⟨htake, hdrop⟩ := takeWhile_eq_nil hr
  unfold spaces afterSpaces
  rw [List.takeWhile_append_of_pos hpad, List.dropWhile_append_of_pos hpad, htake, hdrop,
    List.append_nil]
  exact ⟨rfl, rfl⟩

theorem isSpace_of_endsWord {c : Char} (h : endsWord c = false) : isSpace c = false := by
  cases hc : isSpace c with
  | false => rfl
  | true => simp [endsWord, hc] at h

/-- The first character of a tree is no space and no closing bracket. -/
theorem render_head {t : Tree} (h : t.Lexical) :
    ∃ c s, t.render = c :: s ∧ isSpace c = false ∧ c ≠ ']' ∧ c ≠ '}' := by
  cases t with
  | word w =>
    obtain ⟨hne, hw⟩ := h
    cases w with
    | nil => exact absurd rfl hne
    | cons c w =>
      have hc := hw c List.mem_cons_self
      refine ⟨c, w, rfl, isSpace_of_endsWord hc, ?_, ?_⟩
      · rintro rfl
        exact absurd hc (by decide)
      · rintro rfl
        exact absurd hc (by decide)
  | string raw => exact ⟨_, _, rfl, by decide⟩
  | emptyArray pad => exact ⟨_, _, rfl, by decide⟩
  | array items => exact ⟨_, _, rfl, by decide⟩
  | emptyObject pad => exact ⟨_, _, rfl, by decide⟩
  | object members => exact ⟨_, _, rfl, by decide⟩

theorem noSpace_render {t : Tree} (h : t.Lexical) (r : Text) : NoSpace (t.render ++ r) := by
  obtain ⟨c, s, hs, hc, -⟩ := render_head h
  rw [hs]
  intro d hd
  obtain rfl : c = d := by simpa using hd
  exact hc

theorem parseLabel_render {label : Label} (h : label.Lexical) {r : Text} (hr : NoSpace r) :
    parseLabel (label.render ++ r) = some (label, r) := by
  have hquote : NoSpace ('"' :: (label.raw ++ '"' :: (label.afterKey ++ ':' ::
      (label.beforeValue ++ r)))) := by
    intro c hc
    obtain rfl : '"' = c := by simpa using hc
    decide
  have hcolon : NoSpace (':' :: (label.beforeValue ++ r)) := by
    intro c hc
    obtain rfl : ':' = c := by simpa using hc
    decide
  have htext : label.render ++ r = label.before ++ '"' :: (label.raw ++ '"' ::
      (label.afterKey ++ ':' :: (label.beforeValue ++ r))) := by
    simp [Label.render, quoted]
  have hraw := h.raw (label.afterKey ++ ':' :: (label.beforeValue ++ r))
  unfold parseLabel
  rw [htext, (spaces_pad_append h.before hquote).1, (spaces_pad_append h.before hquote).2]
  simp [hraw, (spaces_pad_append h.afterKey hcolon).1, (spaces_pad_append h.afterKey hcolon).2,
    (spaces_pad_append h.beforeValue hr).1, (spaces_pad_append h.beforeValue hr).2]

theorem noSpace_cons {c : Char} (h : isSpace c = false) (r : Text) : NoSpace (c :: r) := by
  intro d hd
  obtain rfl : c = d := by simpa using hd
  exact h

theorem boundary_pad {pad : Text} (hpad : Pad pad) {c : Char} (hc : endsWord c = true) (r : Text) :
    Boundary (pad ++ c :: r) := by
  intro d hd
  cases pad with
  | nil =>
    obtain rfl : c = d := by simpa using hd
    exact hc
  | cons e pad =>
    obtain rfl : e = d := by simpa using hd
    simp [endsWord, hpad e List.mem_cons_self]

theorem word_append {w r : Text} (hw : ∀ c ∈ w, endsWord c = false) (hr : Boundary r) :
    (w ++ r).takeWhile (fun c => !endsWord c) = w ∧
      (w ++ r).dropWhile (fun c => !endsWord c) = r := by
  have hpos : ∀ c ∈ w, (!endsWord c) = true := fun c hc => by simp [hw c hc]
  obtain ⟨htake, hdrop⟩ := takeWhile_eq_nil (p := fun c => !endsWord c) (r := r)
    fun c hc => by simp [hr c hc]
  rw [List.takeWhile_append_of_pos hpos, List.dropWhile_append_of_pos hpos, htake, hdrop,
    List.append_nil]
  exact ⟨rfl, rfl⟩

theorem items_head {items : Items} (h : items.Lexical) (r : Text) :
    (afterSpaces (items.render ++ r)).head? ≠ some ']' := by
  have hfirst : ∀ before t u, Pad before → Tree.Lexical t →
      (afterSpaces (before ++ (t.render ++ u))).head? ≠ some ']' := by
    intro before t u hbefore lexical
    rw [(spaces_pad_append hbefore (noSpace_render lexical _)).2]
    obtain ⟨c, s, hs, -, hc, -⟩ := render_head lexical
    simpa [hs] using hc
  cases items with
  | last before t after => simpa [Items.render] using hfirst before t (after ++ r) h.1 h.2.1
  | more before t after rest =>
    simpa [Items.render] using hfirst before t (after ++ ',' :: (rest.render ++ r)) h.1 h.2.1

theorem members_head {members : Members} (h : members.Lexical) (r : Text) :
    (afterSpaces (members.render ++ r)).head? ≠ some '}' := by
  have hfirst : ∀ (label : Label) u, Pad label.before →
      (afterSpaces (label.render ++ u)).head? ≠ some '}' := by
    intro label u hbefore
    have htext : label.render ++ u = label.before ++ '"' :: (label.raw ++ '"' ::
        (label.afterKey ++ ':' :: (label.beforeValue ++ u))) := by
      simp [Label.render, quoted]
    rw [htext, (spaces_pad_append hbefore (noSpace_cons (by decide) _)).2]
    simp
  cases members with
  | last label t after =>
    simpa [Members.render] using hfirst label (t.render ++ (after ++ r)) h.1.before
  | more label t after rest =>
    simpa [Members.render] using
      hfirst label (t.render ++ (after ++ ',' :: (rest.render ++ r))) h.1.before

/-- With enough fuel a well-formed tree is found again, whatever follows. -/
theorem parse_complete (n : ℕ) :
    (∀ t r, t.Lexical → treeFuel t ≤ n → Boundary r →
      parseTree n (t.render ++ r) = some (t, r)) ∧
    (∀ items r, items.Lexical → itemsFuel items ≤ n →
      parseItems n (items.render ++ ']' :: r) = some (items, r)) ∧
    (∀ members r, members.Lexical → membersFuel members ≤ n →
      parseMembers n (members.render ++ '}' :: r) = some (members, r)) := by
  induction n with
  | zero =>
    refine ⟨fun t r _ h => ?_, fun items r _ h => ?_, fun members r _ h => ?_⟩
    · cases t <;> simp [treeFuel] at h
    · cases items <;> simp [itemsFuel] at h
    · cases members <;> simp [membersFuel] at h
  | succ n ih =>
    obtain ⟨ihTree, ihItems, ihMembers⟩ := ih
    refine ⟨fun t r lexical hfuel hr => ?_, fun items r lexical hfuel => ?_,
      fun members r lexical hfuel => ?_⟩
    · cases t with
      | word w =>
        obtain ⟨hne, hw⟩ := lexical
        obtain ⟨htake, hdrop⟩ := word_append hw hr
        have hhead : ∀ d, endsWord d = true → (w ++ r).head? ≠ some d := by
          intro d hd
          cases w with
          | nil => exact absurd rfl hne
          | cons c w =>
            intro h
            obtain rfl : c = d := by simpa using h
            simp [hd] at hw
        unfold parseTree
        rw [Tree.render, if_neg (hhead _ (by decide)), if_neg (hhead _ (by decide)),
          if_neg (hhead _ (by decide)), htake, hdrop]
        simp [hne]
      | string raw =>
        have hraw : scanString (raw ++ '"' :: r) = some (raw, r) := lexical r
        simp [parseTree, Tree.render, quoted, hraw]
      | emptyArray pad =>
        obtain ⟨hspaces, hafter⟩ := spaces_pad_append lexical
          (noSpace_cons (c := ']') (by decide) r)
        simp [parseTree, Tree.render, hspaces, hafter]
      | emptyObject pad =>
        obtain ⟨hspaces, hafter⟩ := spaces_pad_append lexical
          (noSpace_cons (c := '}') (by decide) r)
        simp [parseTree, Tree.render, hspaces, hafter]
      | array items =>
        have hitems := ihItems items r lexical (by simp only [treeFuel] at hfuel; omega)
        have hhead := items_head lexical (']' :: r)
        simp [parseTree, Tree.render, hitems, hhead]
      | object members =>
        have hmembers := ihMembers members r lexical (by simp only [treeFuel] at hfuel; omega)
        have hhead := members_head lexical ('}' :: r)
        simp [parseTree, Tree.render, hmembers, hhead]
    · cases items with
      | last before t after =>
        obtain ⟨hbefore, ht, hafter⟩ := lexical
        have htree := ihTree t (after ++ ']' :: r) ht
          (by simp only [itemsFuel] at hfuel; omega) (boundary_pad hafter (by decide) r)
        obtain ⟨hsb, hab⟩ := spaces_pad_append hbefore
          (noSpace_render ht (after ++ ']' :: r))
        obtain ⟨hsa, haa⟩ := spaces_pad_append hafter (noSpace_cons (c := ']') (by decide) r)
        simp [parseItems, Items.render, hsb, hab, htree, hsa, haa]
      | more before t after rest =>
        obtain ⟨hbefore, ht, hafter, hrest⟩ := lexical
        simp only [itemsFuel] at hfuel
        have htree := ihTree t (after ++ ',' :: (rest.render ++ ']' :: r)) ht (by omega)
          (boundary_pad hafter (by decide) _)
        have hitems := ihItems rest r hrest (by omega)
        obtain ⟨hsb, hab⟩ := spaces_pad_append hbefore
          (noSpace_render ht (after ++ ',' :: (rest.render ++ ']' :: r)))
        obtain ⟨hsa, haa⟩ := spaces_pad_append hafter
          (noSpace_cons (c := ',') (by decide) (rest.render ++ ']' :: r))
        simp [parseItems, Items.render, hsb, hab, htree, hsa, haa, hitems]
    · cases members with
      | last label t after =>
        obtain ⟨hlabel, ht, hafter⟩ := lexical
        have htree := ihTree t (after ++ '}' :: r) ht
          (by simp only [membersFuel] at hfuel; omega) (boundary_pad hafter (by decide) r)
        have hname := parseLabel_render hlabel (noSpace_render ht (after ++ '}' :: r))
        obtain ⟨hsa, haa⟩ := spaces_pad_append hafter (noSpace_cons (c := '}') (by decide) r)
        simp [parseMembers, Members.render, hname, htree, hsa, haa]
      | more label t after rest =>
        obtain ⟨hlabel, ht, hafter, hrest⟩ := lexical
        simp only [membersFuel] at hfuel
        have htree := ihTree t (after ++ ',' :: (rest.render ++ '}' :: r)) ht (by omega)
          (boundary_pad hafter (by decide) _)
        have hmembers := ihMembers rest r hrest (by omega)
        have hname := parseLabel_render hlabel
          (noSpace_render ht (after ++ ',' :: (rest.render ++ '}' :: r)))
        obtain ⟨hsa, haa⟩ := spaces_pad_append hafter
          (noSpace_cons (c := ',') (by decide) (rest.render ++ '}' :: r))
        simp [parseMembers, Members.render, hname, htree, hsa, haa, hmembers]

/-- A well-formed document is the parse of its text. -/
theorem parse_of_render {d : Document} (h : d.Lexical) : parse d.render = some d := by
  obtain ⟨before, t, after⟩ := d
  obtain ⟨hbefore, ht, hafter⟩ := h
  have hend : spaces after = after ∧ afterSpaces after = [] := by
    have := spaces_pad_append hafter (r := []) (by simp [NoSpace])
    simpa using this
  have hboundary : Boundary after := by
    intro c hc
    simp [endsWord, hafter c (List.mem_of_mem_head? hc)]
  obtain ⟨hsb, hab⟩ := spaces_pad_append hbefore (noSpace_render ht after)
  have hfuel := treeFuel_le t ht
  have htree := (parse_complete (2 * (before ++ (t.render ++ after)).length + 1)).1 t after ht
    (by simp only [List.length_append]; omega) hboundary
  unfold parse
  simp only [Document.render, List.append_assoc]
  rw [hab, htree, hsb]
  simp [hend.2]

/-- What `json.loads` gives is the value of the tree. -/
theorem loads_render {d : Document} (h : d.Lexical) {v : Json} :
    loads d.render = .ok v ↔ d.tree.value = some v := by
  simp only [loads, parse_of_render h, Option.bind_some]
  cases d.tree.value with
  | none => simp
  | some w => simp

theorem loads_ok {s : Text} {v : Json} (h : loads s = .ok v) :
    ∃ d : Document, s = d.render ∧ d.Lexical ∧ d.tree.value = some v := by
  unfold loads at h
  split at h
  · next hv =>
    obtain ⟨d, hd, htree⟩ := Option.bind_eq_some_iff.mp hv
    obtain ⟨hs, lexical⟩ := parse_render hd
    exact ⟨d, hs, lexical, by rw [htree, ← Except.ok.inj h]⟩
  · exact absurd h (by simp)

end AgentTestHarness.JsonReading
