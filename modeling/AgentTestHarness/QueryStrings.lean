import AgentTestHarness.PercentEncoding

/-! Query strings: parameters between ampersands, each with the name and the value on the two sides
of its first equals sign. -/
namespace AgentTestHarness.QueryStrings
open PyText PercentEncoding

/-- A plus sign stands for a space. -/
def unquotePlus (s : Text) : Text := unquote (s.map fun c => if c = '+' then ' ' else c)

def parseParameter (piece : Text) : Text × Text :=
  (unquotePlus (piece.takeWhile (· != '=')), unquotePlus ((piece.dropWhile (· != '=')).drop 1))

/-- Blank values are kept, as a server keeps them. -/
def parseQuery (query : Text) : List (Text × Text) :=
  ((query.splitOn '&').filter (· ≠ [])).map parseParameter

def writeParameter (p : Text × Text) : Text := p.1 ++ '=' :: p.2

def writeQuery (ps : List (Text × Text)) : Text := ['&'].intercalate (ps.map writeParameter)

theorem writeQuery_singleton (p : Text × Text) : writeQuery [p] = p.1 ++ '=' :: p.2 := by
  rw [writeQuery, List.map_singleton, List.intercalate_singleton, writeParameter]

theorem writeQuery_cons_cons (p q : Text × Text) (ps : List (Text × Text)) :
    writeQuery (p :: q :: ps) = p.1 ++ '=' :: p.2 ++ '&' :: writeQuery (q :: ps) := by
  simp only [writeQuery, writeParameter, List.map_cons, List.intercalate_cons_cons,
    List.append_assoc, List.singleton_append]

/-- A text that means itself in a query. -/
def Plain (s : Text) : Prop := ∀ c ∈ s, c ≠ '&' ∧ c ≠ '=' ∧ c ≠ '%' ∧ c ≠ '+'

instance (s : Text) : Decidable (Plain s) := inferInstanceAs (Decidable (∀ c ∈ s, _))

theorem Plain.append {s t : Text} (hs : Plain s) (ht : Plain t) : Plain (s ++ t) :=
  List.forall_mem_append.mpr ⟨hs, ht⟩

theorem unquotePlus_of_plain {s : Text} (h : Plain s) : unquotePlus s = s := by
  have hmap : (s.map fun c => if c = '+' then ' ' else c) = s := by
    have hid : ∀ c ∈ s, (if c = '+' then ' ' else c) = c := fun c hc => if_neg (h c hc).2.2.2
    rw [List.map_congr_left hid, List.map_id']
  rw [unquotePlus, hmap]
  exact unquote_of_plain fun hc => (h _ hc).2.2.1 rfl

theorem parseParameter_name {name : Text} (hname : Plain name) (value : Text) :
    parseParameter (name ++ '=' :: value) = (name, unquotePlus value) := by
  have hstop : ∀ c ∈ name, (c != '=') = true := fun c hc => by simpa using (hname c hc).2.1
  unfold parseParameter
  rw [List.takeWhile_append_of_pos hstop, List.dropWhile_append_of_pos hstop]
  simp [unquotePlus_of_plain hname]

theorem parseParameter_write {p : Text × Text} (hname : Plain p.1) (hvalue : Plain p.2) :
    parseParameter (writeParameter p) = p := by
  rw [writeParameter, parseParameter_name hname, unquotePlus_of_plain hvalue]

/-- The first name is read, whatever follows it. -/
theorem parseQuery_first {name : Text} (hname : Plain name) (value : Text) :
    ∃ v ps, parseQuery (name ++ '=' :: value) = (name, v) :: ps := by
  have hstart : '&' ∉ name ++ ['='] := by
    intro hmem
    rcases List.mem_append.mp hmem with hmem | hmem
    · exact (hname _ hmem).1 rfl
    · exact absurd (List.mem_singleton.mp hmem) (by decide)
  obtain ⟨rest, pieces, hpieces⟩ : ∃ rest pieces, (name ++ '=' :: value).splitOn '&' =
      (name ++ '=' :: rest) :: pieces := by
    by_cases hvalue : '&' ∈ value
    · obtain ⟨v, w, rfl, hv⟩ := List.eq_append_cons_of_mem hvalue
      have hpiece : '&' ∉ name ++ '=' :: v := by
        rw [List.append_cons]
        exact fun hmem => (List.mem_append.mp hmem).elim hstart hv
      exact ⟨v, w.splitOn '&',
        by simpa using List.splitOn_append_cons_self_of_not_mem hpiece w⟩
    · refine ⟨value, [], List.splitOn_eq_singleton ?_⟩
      rw [List.append_cons]
      exact fun hmem => (List.mem_append.mp hmem).elim hstart hvalue
  have hfilter : ((name ++ '=' :: rest) :: pieces).filter (· ≠ []) =
      (name ++ '=' :: rest) :: pieces.filter (· ≠ []) :=
    List.filter_cons_of_pos (by simp)
  refine ⟨unquotePlus rest, (pieces.filter (· ≠ [])).map parseParameter, ?_⟩
  rw [parseQuery, hpieces, hfilter, List.map_cons, parseParameter_name hname]

/-- What is written from plain names and values is read back. -/
theorem parseQuery_writeQuery {ps : List (Text × Text)}
    (h : ∀ p ∈ ps, Plain p.1 ∧ Plain p.2) : parseQuery (writeQuery ps) = ps := by
  cases ps with
  | nil => rfl
  | cons p ps =>
    have hpieces : ∀ piece ∈ (p :: ps).map writeParameter, '&' ∉ piece ∧ piece ≠ [] := by
      refine List.forall_mem_map.mpr fun q hq => ⟨fun hmem => ?_, by simp [writeParameter]⟩
      obtain ⟨hname, hvalue⟩ := h q hq
      rcases List.mem_append.mp hmem with hmem | hmem
      · exact (hname _ hmem).1 rfl
      · rcases List.mem_cons.mp hmem with heq | hmem
        · exact absurd heq (by decide)
        · exact (hvalue _ hmem).1 rfl
    have hsplit : (writeQuery (p :: ps)).splitOn '&' = (p :: ps).map writeParameter :=
      List.splitOn_intercalate '&' (fun piece hp => (hpieces piece hp).1) (by simp)
    have hfilter : ((p :: ps).map writeParameter).filter (· ≠ []) =
        (p :: ps).map writeParameter :=
      List.filter_eq_self.mpr fun piece hp => decide_eq_true (hpieces piece hp).2
    rw [parseQuery, hsplit, hfilter, List.map_map]
    have hid : ∀ q ∈ p :: ps, (parseParameter ∘ writeParameter) q = q := fun q hq =>
      parseParameter_write (h q hq).1 (h q hq).2
    rw [List.map_congr_left hid, List.map_id']

end AgentTestHarness.QueryStrings
