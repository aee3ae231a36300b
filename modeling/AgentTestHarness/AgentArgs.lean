import AgentTestHarness.CommandLine
import AgentTestHarness.PyJson

/-! The default arguments with which the ACA-Py backchannel starts its agent, and their removal
where a configuration file names the same options. -/
namespace AgentTestHarness.AgentArgs
open PyText PyJson CommandLine

/-- An element of the list of arguments. The members of a tuple are strings, except that the
wallet type may be any value of the extra arguments. -/
inductive Item
  | text (s : Str)
  | tuple (xs : List Json)
  deriving DecidableEq

/-- The configuration and the credentials of the database, as JSON texts. -/
structure Postgres where
  config : Str
  creds : Str

/-- What is read of the backchannel and of the environment; `provisions` tells whether the
version of ACA-Py as a float is above 56. -/
structure Setting where
  label : Str
  adminPort : Str
  walletType : Json
  walletName : Str
  walletKey : Str
  provisions : Bool
  genesisData : Option Str
  storageType : Option Str
  postgres : Option Postgres
  webhookUrl : Option Str
  tailsServerUrl : Option Str
  aipConfig : ℤ
  emitNewDidcommPrefix : Bool
  emitNewDidcommMimeType : Bool
  logLevel : Option Str

def pair (name : Str) (value : Json) : Item := .tuple [.str name, value]

/-- An option that is set where its string is neither missing nor empty. -/
def ifGiven (name : Str) (value : Option Str) : List Item :=
  match value with
  | none => []
  | some s => if s = [] then [] else [pair name (.str s)]

def firstArgs (s : Setting) : List Item :=
  [pair "--label" (.str s.label),
    .tuple [.str "--admin", .str "0.0.0.0", .str s.adminPort],
    .text "--admin-insecure-mode",
    .text "--public-invites",
    pair "--wallet-type" s.walletType,
    pair "--wallet-name" (.str s.walletName),
    pair "--wallet-key" (.str s.walletKey),
    .text "--monitor-revocation-notification",
    .text "--requests-through-public-did",
    .text "--notify-revocation",
    .text "--open-mediation",
    .text "--enable-undelivered-queue",
    .text "--preserve-exchange-records"]

def pluginArgs : List Item :=
  [.text "--plugin", .text "connections", .text "--plugin", .text "issue_credential",
    .text "--plugin", .text "present_proof"]

def postgresArgs : Option Postgres → List Item
  | none => []
  | some p => [pair "--wallet-storage-type" (.str "postgres_storage"),
      pair "--wallet-storage-config" (.str p.config),
      pair "--wallet-storage-creds" (.str p.creds)]

def laterArgs (s : Setting) : List Item :=
  (if s.provisions then [.tuple [.str "--auto-provision", .str "--recreate-wallet"]] else []) ++
  ifGiven "--genesis-transactions" s.genesisData ++
  ifGiven "--storage-type" s.storageType ++
  postgresArgs s.postgres ++
  ifGiven "--webhook-url" s.webhookUrl ++
  [pair "--tails-server-base-url" (.str (s.tailsServerUrl.getD
    "https://tails-server-test.pathfinder.gov.bc.ca"))] ++
  (if 20 ≤ s.aipConfig ∨ s.emitNewDidcommPrefix then [.text "--emit-new-didcomm-prefix"]
    else []) ++
  (if 20 ≤ s.aipConfig ∨ s.emitNewDidcommMimeType then [.text "--emit-new-didcomm-mime-type"]
    else []) ++
  [pair "--plugin-config" (.str "/data-mount/plugin-config.yml"),
    pair "--log-level" (.str (s.logLevel.getD "ERROR"))]

/-- The list before the configuration file is read. -/
def defaultArgs (s : Setting) : List Item := firstArgs s ++ pluginArgs ++ laterArgs s

/-- The option that a key of the file stands for. -/
def optionName (key : Str) : Str := ("--" : Str) ++ key

/-- `item in tup`, which on a string asks for a substring. -/
def Item.contains (item : Str) : Item → Bool
  | .text s => decide (item <:+: s)
  | .tuple xs => xs.any fun x => decide (x = .str item)

def Item.isTuple : Item → Bool
  | .text _ => false
  | .tuple _ => true

def removeItem (result : List Item) (item : Str) : List Item :=
  if result.any fun tup => tup.isTuple && tup.contains item then
    result.filter fun tup => !tup.contains item
  else result

/-- The body of the loop over the items of the file; `"--" + key` fails unless it is a string. -/
def removeKey (result : List Item) (key : Json) : Except PyError (List Item) :=
  match key with
  | .str key => .ok (removeItem result (optionName key))
  | _ => .error .typeError

/-- What the file holds: a mapping, of which only the keys are read, some other value, or text
that is not YAML. -/
inductive ConfigData
  | mapping (keys : List Json)
  | other
  | yamlError

structure ConfigFile where
  path : Str
  data : ConfigData

/-- An error of the YAML text is printed and otherwise ignored. -/
def readConfig (result : List Item) : ConfigData → Except PyError (List Item)
  | .mapping keys => keys.foldlM removeKey result
  | .other => .error .attributeError
  | .yamlError => .ok result

def getAgentArgs (s : Setting) (config : Option ConfigFile) : Except PyError (List Item) :=
  match config with
  | none => .ok (defaultArgs s)
  | some file => do
    let result ← readConfig (defaultArgs s) file.data
    .ok (result ++ [pair "--arg-file" (.str file.path)])

mutual
def flattenValue : Json → List Json
  | .arr xs => flattenValues xs
  | x => [x]
def flattenValues : List Json → List Json
  | [] => []
  | x :: xs => flattenValue x ++ flattenValues xs
end

def Item.flatten : Item → List Json
  | .text s => [.str s]
  | .tuple xs => flattenValues xs

def flatten (args : List Item) : List Json := args.flatMap Item.flatten

/-- An argument that names an option. -/
def isOption : Json → Bool
  | .str s => decide (("--" : Str) <+: s)
  | _ => false

/-! What a configuration file asks for. -/

def names (x : Json) : Json → Bool
  | .str key => decide (x = .str (optionName key))
  | _ => false

def namedBy (keys : List Json) (x : Json) : Bool := keys.any (names x)

/-- Just the default options that no key names are left, with their values, before the file. -/
def RespectsConfig (s : Setting) (path : Str) (keys : List Json) : Prop :=
  ∀ result, getAgentArgs s (some ⟨path, .mapping keys⟩) = .ok result →
    flatten result = line ((options isOption (flatten (defaultArgs s))).filter
      fun o => !namedBy keys o.1) ++ [.str "--arg-file", .str path]

/-- The elements that the loop over the keys takes out of the list: a tuple with the option of
some key as a member, and a string around the option of a key that finds such a tuple when its
turn comes. -/
def Removed (args : List Item) (ks : List Str) : Item → Prop
  | .tuple xs => ∃ k ∈ ks, .str (optionName k) ∈ xs
  | .text t => ∃ before k after, ks = before ++ k :: after ∧ optionName k <:+: t ∧
      ∃ xs, .tuple xs ∈ args ∧ .str (optionName k) ∈ xs ∧
        ∀ k' ∈ before, .str (optionName k') ∉ xs

/-- Tuples and flags are removed just when the keys name their options, and the plugins, whose
values are elements of their own, are not named. -/
structure Separable (s : Setting) (ks : List Str) : Prop where
  tuples : ∀ xs, .tuple xs ∈ defaultArgs s → ∀ x ∈ flattenValues xs, isOption x = true →
    ((∃ k ∈ ks, x = .str (optionName k)) ↔ Removed (defaultArgs s) ks (.tuple xs))
  flags : ∀ t, .text t ∈ defaultArgs s → isOption (.str t) = true →
    ((∃ k ∈ ks, t = optionName k) ↔ Removed (defaultArgs s) ks (.text t))
  plugin : ("plugin" : Str) ∉ ks

theorem namedBy_iff {ks : List Str} {x : Json} :
    namedBy (ks.map .str) x = true ↔ ∃ k ∈ ks, x = .str (optionName k) := by
  simp [namedBy, names]

/-! What the loop removes. -/

theorem contains_text {item t : Str} : (Item.text t).contains item = true ↔ item <:+: t := by
  simp [Item.contains]

theorem contains_tuple {item : Str} {xs : List Json} :
    (Item.tuple xs).contains item = true ↔ .str item ∈ xs := by
  simp [Item.contains]

theorem any_tuple_iff {args : List Item} {item : Str} :
    (args.any fun tup => tup.isTuple && tup.contains item) = true ↔
      ∃ xs, .tuple xs ∈ args ∧ .str item ∈ xs := by
  rw [List.any_eq_true]
  constructor
  · rintro ⟨tup, htup, h⟩
    cases tup with
    | text t => simp [Item.isTuple] at h
    | tuple xs => exact ⟨xs, htup, by simpa [Item.isTuple, contains_tuple] using h⟩
  · rintro ⟨xs, hxs, hitem⟩
    exact ⟨.tuple xs, hxs, by simpa [Item.isTuple, contains_tuple] using hitem⟩

/-- Whether one key removes an element. -/
def removes (args : List Item) (item : Str) (e : Item) : Bool :=
  (args.any fun tup => tup.isTuple && tup.contains item) && e.contains item

theorem removeItem_eq (args : List Item) (item : Str) :
    removeItem args item = args.filter fun e => !removes args item e := by
  unfold removeItem removes
  split
  · next h => simp only [h, Bool.true_and]
  · next h =>
    rw [Bool.not_eq_true] at h
    simp [h]

theorem tuple_mem_removeItem {args : List Item} {item : Str} {xs : List Json} :
    .tuple xs ∈ removeItem args item ↔ .tuple xs ∈ args ∧ .str item ∉ xs := by
  rw [removeItem_eq, List.mem_filter]
  refine and_congr_right fun hxs => ?_
  rw [Bool.not_eq_true', Bool.eq_false_iff, removes, ne_eq, Bool.and_eq_true, any_tuple_iff,
    contains_tuple, not_and]
  exact ⟨fun h hitem => h ⟨xs, hxs, hitem⟩ hitem, fun h _ => h⟩

theorem removed_cons {args : List Item} {k : Str} {ks : List Str} {e : Item} (he : e ∈ args) :
    Removed args (k :: ks) e ↔
      removes args (optionName k) e = true ∨ Removed (removeItem args (optionName k)) ks e := by
  cases e with
  | tuple xs =>
    have hfirst : removes args (optionName k) (.tuple xs) = true ↔ .str (optionName k) ∈ xs := by
      rw [removes, Bool.and_eq_true, any_tuple_iff, contains_tuple]
      exact ⟨And.right, fun h => ⟨⟨xs, he, h⟩, h⟩⟩
    simp only [Removed, hfirst, List.exists_mem_cons_iff]
  | text t =>
    have hfirst : removes args (optionName k) (.text t) = true ↔
        (∃ xs, .tuple xs ∈ args ∧ .str (optionName k) ∈ xs) ∧ optionName k <:+: t := by
      rw [removes, Bool.and_eq_true, any_tuple_iff, contains_text]
    simp only [Removed, hfirst, tuple_mem_removeItem]
    constructor
    · rintro ⟨before, j, after, hks, hsub, xs, hxs, hj, hbefore⟩
      cases before with
      | nil =>
        obtain ⟨rfl, rfl⟩ := List.cons.inj hks
        exact .inl ⟨⟨xs, hxs, hj⟩, hsub⟩
      | cons i before =>
        obtain ⟨rfl, rfl⟩ := List.cons.inj hks
        rw [List.forall_mem_cons] at hbefore
        exact .inr ⟨before, j, after, rfl, hsub, xs, ⟨hxs, hbefore.1⟩, hj, hbefore.2⟩
    · rintro (⟨⟨xs, hxs, hk⟩, hsub⟩ | ⟨before, j, after, rfl, hsub, xs, ⟨hxs, hk⟩, hj, hbefore⟩)
      · exact ⟨[], k, ks, rfl, hsub, xs, hxs, hk, fun _ h => absurd h List.not_mem_nil⟩
      · exact ⟨k :: before, j, after, rfl, hsub, xs, hxs, hj, List.forall_mem_cons.mpr ⟨hk, hbefore⟩⟩

/-- The loop over the keys keeps the elements that are not removed. -/
theorem foldl_removeItem (ks : List Str) (args : List Item) :
    ∃ kept : Item → Bool,
      ks.foldl (fun result k => removeItem result (optionName k)) args = args.filter kept ∧
        ∀ e ∈ args, (kept e = true ↔ ¬ Removed args ks e) := by
  induction ks generalizing args with
  | nil =>
    refine ⟨fun _ => true, by simp, fun e _ => iff_of_true rfl ?_⟩
    cases e with
    | tuple xs => simp [Removed]
    | text t => simp [Removed]
  | cons k ks ih =>
    obtain ⟨kept, heq, hkept⟩ := ih (removeItem args (optionName k))
    refine ⟨fun e => !removes args (optionName k) e && kept e, ?_, fun e he => ?_⟩
    · rw [List.foldl_cons, heq, removeItem_eq, List.filter_filter]
      exact List.filter_congr fun e _ => Bool.and_comm _ _
    · rw [removed_cons he, not_or, Bool.and_eq_true, Bool.not_eq_true', Bool.eq_false_iff]
      refine and_congr_right fun hstays => hkept e ?_
      rw [removeItem_eq, List.mem_filter]
      exact ⟨he, by simpa using hstays⟩

theorem foldlM_removeKey {keys : List Json} {args result : List Item}
    (h : keys.foldlM removeKey args = .ok result) : ∃ ks : List Str, keys = ks.map .str ∧
      result = ks.foldl (fun result k => removeItem result (optionName k)) args := by
  induction keys generalizing args with
  | nil => exact ⟨[], rfl, (Except.ok.inj h).symm⟩
  | cons key keys ih =>
    rw [List.foldlM_cons] at h
    obtain ⟨next, hnext, h⟩ := bind_eq_ok h
    cases key with
    | str k =>
      obtain rfl := Except.ok.inj hnext
      obtain ⟨ks, rfl, rfl⟩ := ih h
      exact ⟨k :: ks, rfl, rfl⟩
    | null | bool _ | int _ | float _ | arr _ | obj _ => cases hnext

theorem foldlM_removeKey_str (ks : List Str) (args : List Item) :
    (ks.map Json.str).foldlM removeKey args =
      .ok (ks.foldl (fun result k => removeItem result (optionName k)) args) := by
  induction ks generalizing args with
  | nil => rfl
  | cons k ks ih => exact ih (removeItem args (optionName k))

/-! The list in groups that begin with the name of an option. -/

/-- An element with the values that follow it as strings of their own. -/
structure Group where
  head : Item
  values : List Str

namespace Group

def items (g : Group) : List Item := g.head :: g.values.map .text

def flat (g : Group) : List Json := g.head.flatten ++ g.values.map .str

structure WellFormed (g : Group) : Prop where
  begins : ∃ name rest, g.head.flatten = name :: rest ∧ isOption name = true
  values : ∀ v ∈ g.values, ¬ ("--" : Str) <:+: v

/-- What is left of a group when the elements that are not kept are removed. -/
def left (kept : Item → Bool) (g : Group) : List Json :=
  (if kept g.head then g.head.flatten else []) ++ g.values.map .str

/-- What is left of a group when the options that are not wanted are removed. -/
def asked (wanted : Json → Bool) (g : Group) : List Json :=
  line ((options isOption g.flat).filter fun o => wanted o.1)

/-- The element is kept just when its options are wanted, and not removed before values. -/
structure Uniform (kept : Item → Bool) (wanted : Json → Bool) (g : Group) : Prop where
  head : ∀ x ∈ g.head.flatten, isOption x = true → wanted x = kept g.head
  values : kept g.head = false → g.values = []

variable {g : Group}

theorem WellFormed.filter_values (wf : g.WellFormed) :
    (g.values.map Json.str).filter isOption = [] := by
  refine List.filter_eq_nil_iff.mpr fun x hx => ?_
  obtain ⟨v, hv, rfl⟩ := List.mem_map.mp hx
  simpa [isOption] using fun h : ("--" : Str) <+: v => wf.values v hv h.isInfix

theorem WellFormed.begins_flat (wf : g.WellFormed) : BeginsWithName isOption g.flat := by
  obtain ⟨name, rest, hflat, hname⟩ := wf.begins
  intro x hx
  rw [flat, hflat] at hx
  obtain rfl : name = x := by simpa using hx
  exact hname

theorem WellFormed.names_flat (wf : g.WellFormed) :
    (options isOption g.flat).map Prod.fst = g.head.flatten.filter isOption := by
  rw [names_options, flat, List.filter_append, wf.filter_values, List.append_nil]

theorem WellFormed.names_left (wf : g.WellFormed) (kept : Item → Bool) :
    (g.left kept).filter isOption =
      if kept g.head then g.head.flatten.filter isOption else [] := by
  rw [left, List.filter_append, wf.filter_values, List.append_nil]
  split <;> rfl

theorem WellFormed.names_asked (wf : g.WellFormed) (wanted : Json → Bool) :
    (g.asked wanted).filter isOption = (g.head.flatten.filter isOption).filter wanted := by
  have hos : ∀ o ∈ (options isOption g.flat).filter fun o => wanted o.1,
      isOption o.1 = true ∧ ∀ v ∈ o.2, isOption v = false :=
    fun o ho => mem_options (List.mem_filter.mp ho).1
  rw [asked, ← names_options, options_line hos, ← wf.names_flat, List.filter_map]
  rfl

/-- A group whose options are all wanted, or all unwanted, is left as a whole or not at all. -/
theorem WellFormed.asked_of_head (wf : g.WellFormed) {wanted : Json → Bool} {keep : Bool}
    (h : ∀ x ∈ g.head.flatten, isOption x = true → wanted x = keep) :
    g.asked wanted = if keep then g.flat else [] := by
  have hwanted : ∀ o ∈ options isOption g.flat, wanted o.1 = keep := by
    intro o ho
    have hmem : o.1 ∈ g.head.flatten.filter isOption :=
      wf.names_flat ▸ List.mem_map_of_mem ho
    exact h o.1 (List.mem_filter.mp hmem).1 (List.mem_filter.mp hmem).2
  rw [asked]
  cases keep with
  | true => rw [List.filter_eq_self.mpr hwanted, line_options wf.begins_flat, if_pos rfl]
  | false =>
    rw [List.filter_eq_nil_iff.mpr fun o ho => by simp [hwanted o ho]]
    rfl

end Group

/-- Concatenations are equal only part by part if each part of one is a sublist of the other. -/
theorem eq_of_flatMap_eq {α β : Type*} {F G : α → List β} {l : List α}
    (hsub : ∀ a ∈ l, (F a).Sublist (G a)) (h : l.flatMap F = l.flatMap G) :
    ∀ a ∈ l, F a = G a := by
  induction l with
  | nil => exact fun a ha => absurd ha List.not_mem_nil
  | cons a l ih =>
    rw [List.forall_mem_cons] at hsub ⊢
    have hrest : (l.flatMap F).length ≤ (l.flatMap G).length := by
      have : (l.flatMap F).Sublist (l.flatMap G) := by
        clear h ih
        induction l with
        | nil => exact List.Sublist.slnil
        | cons b l ih =>
          have hl := List.forall_mem_cons.mp hsub.2
          exact hl.1.append (ih ⟨hsub.1, hl.2⟩)
      exact this.length_le
    have hlen := congrArg List.length h
    rw [List.flatMap_cons, List.flatMap_cons, List.length_append, List.length_append] at hlen
    have hfirst := hsub.1.length_le
    have heq : F a = G a := hsub.1.eq_of_length (by omega)
    rw [List.flatMap_cons, List.flatMap_cons, heq] at h
    exact ⟨heq, ih hsub.2 (List.append_cancel_left h)⟩

/-- Removing elements removes the unwanted options just when every group is uniform. -/
theorem left_eq_asked_iff {gs : List Group} (wf : ∀ g ∈ gs, g.WellFormed) (kept : Item → Bool)
    (wanted : Json → Bool) :
    gs.flatMap (Group.left kept) = gs.flatMap (Group.asked wanted) ↔
      ∀ g ∈ gs, g.Uniform kept wanted := by
  constructor
  · intro h
    have hnames := congrArg (List.filter isOption) h
    rw [List.filter_flatMap, List.filter_flatMap] at hnames
    -- an option that is left is wanted
    have hkept : ∀ g ∈ gs, kept g.head = true → ∀ x ∈ g.head.flatten, isOption x = true →
        wanted x = true := by
      intro g hg hkeep x hx hname
      have hmem : x ∈ gs.flatMap fun g => (g.left kept).filter isOption := by
        refine List.mem_flatMap.mpr ⟨g, hg, ?_⟩
        rw [(wf g hg).names_left, if_pos hkeep]
        exact List.mem_filter.mpr ⟨hx, hname⟩
      rw [hnames] at hmem
      obtain ⟨g', hg', hx'⟩ := List.mem_flatMap.mp hmem
      rw [(wf g' hg').names_asked] at hx'
      exact (List.mem_filter.mp hx').2
    have hparts := eq_of_flatMap_eq (fun g hg => ?_) hnames
    · have hhead : ∀ g ∈ gs, ∀ x ∈ g.head.flatten, isOption x = true →
          wanted x = kept g.head := by
        intro g hg x hx hname
        cases hkeep : kept g.head with
        | true => exact hkept g hg hkeep x hx hname
        | false =>
          have hnil := hparts g hg
          rw [(wf g hg).names_left, (wf g hg).names_asked, hkeep] at hnil
          have hnone := List.filter_eq_nil_iff.mp hnil.symm x (List.mem_filter.mpr ⟨hx, hname⟩)
          simpa using hnone
      have hwhole := eq_of_flatMap_eq (F := Group.asked wanted) (G := Group.left kept)
        (fun g hg => ?_) h.symm
      · intro g hg
        refine ⟨hhead g hg, fun hremoved => ?_⟩
        have heq := hwhole g hg
        rw [(wf g hg).asked_of_head (hhead g hg), Group.left, hremoved] at heq
        simpa using heq
      · rw [(wf g hg).asked_of_head (hhead g hg), Group.left]
        split
        · exact List.Sublist.refl _
        · exact List.nil_sublist _
    · rw [(wf g hg).names_left, (wf g hg).names_asked]
      split
      · next hkeep =>
        rw [List.filter_eq_self.mpr fun x hx =>
          hkept g hg hkeep x (List.mem_filter.mp hx).1 (List.mem_filter.mp hx).2]
      · exact List.nil_sublist _
  · intro uniform
    refine List.flatMap_congr fun g hg => ?_
    rw [(wf g hg).asked_of_head (uniform g hg).head, Group.left]
    cases hkeep : kept g.head with
    | true => rfl
    | false => simp [(uniform g hg).values hkeep]

/-! The groups of the default arguments. -/

def groups (s : Setting) : List Group :=
  (firstArgs s).map (⟨·, []⟩) ++
    [⟨.text "--plugin", ["connections"]⟩, ⟨.text "--plugin", ["issue_credential"]⟩,
      ⟨.text "--plugin", ["present_proof"]⟩] ++
    (laterArgs s).map (⟨·, []⟩)

theorem defaultArgs_eq (s : Setting) : defaultArgs s = (groups s).flatMap Group.items := by
  simp [defaultArgs, groups, pluginArgs, List.flatMap_map, Group.items]

def Begins (e : Item) : Prop := ∃ name rest, e.flatten = name :: rest ∧ isOption name = true

theorem begins_text {t : Str} (h : isOption (.str t) = true) : Begins (.text t) := ⟨_, _, rfl, h⟩

theorem begins_tuple {t : Str} {xs : List Json} (h : isOption (.str t) = true) :
    Begins (.tuple (.str t :: xs)) := ⟨_, _, rfl, h⟩

theorem begins_ifGiven {name : Str} (h : isOption (.str name) = true) (value : Option Str) :
    ∀ e ∈ ifGiven name value, Begins e := by
  intro e he
  unfold ifGiven at he
  split at he
  · cases he
  · split at he
    · cases he
    · obtain rfl := List.mem_singleton.mp he
      exact begins_tuple h

theorem begins_firstArgs (s : Setting) : ∀ e ∈ firstArgs s, Begins e := by
  simp only [firstArgs, pair, List.forall_mem_cons]
  exact ⟨begins_tuple (by decide), begins_tuple (by decide), begins_text (by decide),
    begins_text (by decide), begins_tuple (by decide), begins_tuple (by decide),
    begins_tuple (by decide), begins_text (by decide), begins_text (by decide),
    begins_text (by decide), begins_text (by decide), begins_text (by decide),
    begins_text (by decide), fun e he => absurd he List.not_mem_nil⟩

theorem begins_laterArgs (s : Setting) : ∀ e ∈ laterArgs s, Begins e := by
  have hcond : ∀ (P : Prop) [Decidable P] (e' : Item), Begins e' →
      ∀ e ∈ (if P then [e'] else []), Begins e := by
    intro P _ e' h e he
    split at he
    · exact List.mem_singleton.mp he ▸ h
    · cases he
  have hpostgres : ∀ e ∈ postgresArgs s.postgres, Begins e := by
    cases s.postgres with
    | none => exact fun e he => absurd he List.not_mem_nil
    | some p =>
      simp only [postgresArgs, pair, List.forall_mem_cons]
      exact ⟨begins_tuple (by decide), begins_tuple (by decide), begins_tuple (by decide),
        fun e he => absurd he List.not_mem_nil⟩
  simp only [laterArgs, pair, List.forall_mem_append, List.forall_mem_cons]
  exact ⟨⟨⟨⟨⟨⟨⟨⟨hcond _ _ (begins_tuple (by decide)), begins_ifGiven (by decide) _⟩,
    begins_ifGiven (by decide) _⟩, hpostgres⟩, begins_ifGiven (by decide) _⟩,
    begins_tuple (by decide), fun e he => absurd he List.not_mem_nil⟩,
    hcond _ _ (begins_text (by decide))⟩, hcond _ _ (begins_text (by decide))⟩,
    begins_tuple (by decide), begins_tuple (by decide), fun e he => absurd he List.not_mem_nil⟩

/-- Every element but the plugins is a group of its own. -/
theorem mem_groups {s : Setting} {g : Group} (h : g ∈ groups s) :
    Begins g.head ∧ (g.values = [] ∨
      g.head = .text "--plugin" ∧
        ∃ v ∈ (["connections", "issue_credential", "present_proof"] : List Str),
          g.values = [v]) := by
  simp only [groups, List.mem_append, List.mem_map, List.mem_cons, List.not_mem_nil,
    or_false] at h
  rcases h with (⟨e, he, rfl⟩ | rfl | rfl | rfl) | ⟨e, he, rfl⟩
  · exact ⟨begins_firstArgs s e he, .inl rfl⟩
  · exact ⟨begins_text (by decide), .inr ⟨rfl, _, by simp, rfl⟩⟩
  · exact ⟨begins_text (by decide), .inr ⟨rfl, _, by simp, rfl⟩⟩
  · exact ⟨begins_text (by decide), .inr ⟨rfl, _, by simp, rfl⟩⟩
  · exact ⟨begins_laterArgs s e he, .inl rfl⟩

theorem groups_wellFormed {s : Setting} {g : Group} (h : g ∈ groups s) : g.WellFormed := by
  obtain ⟨hbegins, hvalues⟩ := mem_groups h
  refine ⟨hbegins, fun v hv => ?_⟩
  rcases hvalues with hnil | ⟨-, w, hw, hvalues⟩
  · rw [hnil] at hv
    cases hv
  · rw [hvalues, List.mem_singleton] at hv
    have hplain : ∀ w ∈ (["connections", "issue_credential", "present_proof"] : List Str),
        ¬ ("--" : Str) <:+: w := by decide
    exact hv ▸ hplain w hw

theorem head_mem {s : Setting} {g : Group} (h : g ∈ groups s) : g.head ∈ defaultArgs s := by
  rw [defaultArgs_eq]
  exact List.mem_flatMap.mpr ⟨g, h, List.mem_cons_self⟩

theorem value_mem {s : Setting} {g : Group} (h : g ∈ groups s) {v : Str} (hv : v ∈ g.values) :
    .text v ∈ defaultArgs s := by
  rw [defaultArgs_eq]
  exact List.mem_flatMap.mpr ⟨g, h, List.mem_cons_of_mem _ (List.mem_map_of_mem hv)⟩

/-- An element with an option name is the head of its group. -/
theorem exists_group {s : Setting} {e : Item} (he : e ∈ defaultArgs s) {x : Json}
    (hx : x ∈ e.flatten) (hname : isOption x = true) : ∃ g ∈ groups s, g.head = e := by
  rw [defaultArgs_eq] at he
  obtain ⟨g, hg, he⟩ := List.mem_flatMap.mp he
  rcases List.mem_cons.mp he with rfl | he
  · exact ⟨g, hg, rfl⟩
  · obtain ⟨v, hv, rfl⟩ := List.mem_map.mp he
    obtain rfl : x = .str v := by simpa [Item.flatten] using hx
    have hinfix : ("--" : Str) <:+: v := (of_decide_eq_true hname).isInfix
    exact absurd hinfix ((groups_wellFormed hg).values v hv)

/-- A string without dashes is around no option. -/
theorem not_removed_value {args : List Item} {ks : List Str} {v : Str}
    (h : ¬ ("--" : Str) <:+: v) : ¬ Removed args ks (.text v) := by
  rintro ⟨before, k, after, -, hsub, -⟩
  exact h ((List.prefix_append _ _).isInfix.trans hsub)

theorem flatten_texts (vs : List Str) : (vs.map Item.text).flatMap Item.flatten = vs.map .str := by
  rw [List.flatMap_map, List.map_eq_flatMap]
  rfl

theorem flatten_groups (gs : List Group) :
    flatten (gs.flatMap Group.items) = gs.flatMap Group.flat := by
  rw [flatten, List.flatMap_assoc]
  refine List.flatMap_congr fun g _ => ?_
  rw [Group.items, List.flatMap_cons, flatten_texts, Group.flat]

theorem options_groups {gs : List Group} (wf : ∀ g ∈ gs, g.WellFormed) :
    options isOption (gs.flatMap Group.flat) =
      gs.flatMap fun g => options isOption g.flat := by
  induction gs with
  | nil => rfl
  | cons g gs ih =>
    rw [List.forall_mem_cons] at wf
    have hbegins : BeginsWithName isOption (gs.flatMap Group.flat) := by
      cases gs with
      | nil => exact fun x hx => absurd hx (by simp)
      | cons g' gs =>
        obtain ⟨name, rest, hflat, hname⟩ := (wf.2 g' List.mem_cons_self).begins
        intro x hx
        rw [List.flatMap_cons, Group.flat, hflat] at hx
        obtain rfl : name = x := by simpa using hx
        exact hname
    rw [List.flatMap_cons, options_append hbegins, ih wf.2, List.flatMap_cons]

theorem asked_groups {gs : List Group} (wf : ∀ g ∈ gs, g.WellFormed) (wanted : Json → Bool) :
    line ((options isOption (flatten (gs.flatMap Group.items))).filter fun o => wanted o.1) =
      gs.flatMap (Group.asked wanted) := by
  rw [flatten_groups, options_groups wf, List.filter_flatMap, line, List.flatMap_assoc]
  rfl

theorem left_groups {gs : List Group} {kept : Item → Bool}
    (hvalues : ∀ g ∈ gs, ∀ v ∈ g.values, kept (.text v) = true) :
    flatten ((gs.flatMap Group.items).filter kept) = gs.flatMap (Group.left kept) := by
  rw [List.filter_flatMap, flatten, List.flatMap_assoc]
  refine List.flatMap_congr fun g hg => ?_
  have hall : (g.values.map Item.text).filter kept = g.values.map Item.text := by
    refine List.filter_eq_self.mpr fun e he => ?_
    obtain ⟨v, hv, rfl⟩ := List.mem_map.mp he
    exact hvalues g hg v hv
  rw [Group.items, List.filter_cons, hall, Group.left]
  split
  · rw [List.flatMap_cons, flatten_texts]
  · rw [flatten_texts, List.nil_append]

theorem optionName_injective {k k' : Str} (h : optionName k = optionName k') : k = k' :=
  List.append_cancel_left h

/-- The groups are uniform just when the keys can be separated from the other options. -/
theorem uniform_iff_separable {s : Setting} {ks : List Str} {kept : Item → Bool}
    (hkept : ∀ e ∈ defaultArgs s, (kept e = true ↔ ¬ Removed (defaultArgs s) ks e)) :
    (∀ g ∈ groups s, g.Uniform kept fun x => !namedBy (ks.map .str) x) ↔ Separable s ks := by
  have hwanted : ∀ {x e}, e ∈ defaultArgs s →
      ((!namedBy (ks.map .str) x) = kept e ↔
        ((∃ k ∈ ks, x = .str (optionName k)) ↔ Removed (defaultArgs s) ks e)) := by
    intro x e he
    rw [Bool.eq_iff_iff, hkept e he, Bool.not_eq_true', Bool.eq_false_iff, ne_eq, namedBy_iff,
      not_iff_not]
  constructor
  · intro uniform
    have hhead : ∀ e ∈ defaultArgs s, ∀ x ∈ e.flatten, isOption x = true →
        ((∃ k ∈ ks, x = .str (optionName k)) ↔ Removed (defaultArgs s) ks e) := by
      intro e he x hx hname
      obtain ⟨g, hg, rfl⟩ := exists_group he hx hname
      exact (hwanted he).mp ((uniform g hg).head x hx hname)
    refine ⟨fun xs hxs => hhead _ hxs, fun t ht hname => ?_, fun hplugin => ?_⟩
    · simpa using hhead _ ht (.str t) (by simp [Item.flatten]) hname
    · have hg : (⟨.text "--plugin", ["connections"]⟩ : Group) ∈ groups s := by simp [groups]
      have hmem := head_mem hg
      have hremoved := (hhead _ hmem (.str "--plugin") (by simp [Item.flatten]) (by decide)).mp
        ⟨"plugin", hplugin, rfl⟩
      have hnot : kept (.text "--plugin") = false := by
        rw [← Bool.not_eq_true, hkept _ hmem]
        exact not_not_intro hremoved
      exact absurd ((uniform _ hg).values hnot) (by simp)
  · intro separable g hg
    have hmem := head_mem hg
    refine ⟨fun x hx hname => (hwanted hmem).mpr ?_, fun hnot => ?_⟩
    · cases hhead : g.head with
      | tuple xs =>
        rw [hhead] at hx hmem
        exact separable.tuples xs hmem x hx hname
      | text t =>
        rw [hhead] at hx hmem
        obtain rfl : x = .str t := by simpa [Item.flatten] using hx
        simpa using separable.flags t hmem hname
    · rcases (mem_groups hg).2 with hnil | ⟨hhead, -⟩
      · exact hnil
      · rw [hhead] at hnot hmem
        have hremoved : Removed (defaultArgs s) ks (.text "--plugin") := by
          by_contra h
          exact absurd (((hkept _ hmem).mpr h).symm.trans hnot) (by simp)
        obtain ⟨k, hk, hname⟩ := (separable.flags _ hmem (by decide)).mpr hremoved
        obtain rfl : ("plugin" : Str) = k :=
          optionName_injective (show optionName "plugin" = _ from hname)
        exact absurd hk separable.plugin

/-- Exactly the default options named by a key are gone just when the keys, if all of them are
strings, can be separated from the other options. -/
theorem respects_config_iff (s : Setting) (path : Str) (keys : List Json) :
    RespectsConfig s path keys ↔ ∀ ks : List Str, keys = ks.map .str → Separable s ks := by
  have hiff : ∀ ks : List Str, RespectsConfig s path (ks.map .str) ↔ Separable s ks := by
    intro ks
    obtain ⟨kept, hfold, hkept⟩ := foldl_removeItem ks (defaultArgs s)
    have hargs : getAgentArgs s (some ⟨path, .mapping (ks.map .str)⟩) =
        .ok ((defaultArgs s).filter kept ++ [pair "--arg-file" (.str path)]) := by
      have hread : readConfig (defaultArgs s) (.mapping (ks.map .str)) =
          .ok ((defaultArgs s).filter kept) := by
        rw [readConfig, foldlM_removeKey_str, hfold]
      rw [getAgentArgs, hread]
      rfl
    have hvalues : ∀ g ∈ groups s, ∀ v ∈ g.values, kept (.text v) = true := fun g hg v hv =>
      (hkept _ (value_mem hg hv)).mpr (not_removed_value ((groups_wellFormed hg).values v hv))
    have hwf : ∀ g ∈ groups s, g.WellFormed := fun g hg => groups_wellFormed hg
    rw [← uniform_iff_separable hkept, ← left_eq_asked_iff hwf, RespectsConfig, hargs]
    simp only [Except.ok.injEq, forall_eq']
    rw [flatten, List.flatMap_append, ← flatten, defaultArgs_eq, left_groups hvalues,
      asked_groups hwf fun x => !namedBy (ks.map .str) x]
    exact List.append_left_inj _
  constructor
  · rintro h ks rfl
    exact (hiff ks).mp h
  · intro h result hresult
    obtain ⟨args, hargs, -⟩ := bind_eq_ok hresult
    obtain ⟨ks, rfl, -⟩ := foldlM_removeKey hargs
    exact (hiff ks).mpr (h ks rfl) result hresult

/-- The arguments of a backchannel without anything set in its environment. -/
def plainSetting : Setting where
  label := "acme"
  adminPort := "9023"
  walletType := .str "askar"
  walletName := "acme123456"
  walletKey := "acme123456"
  provisions := true
  genesisData := none
  storageType := some "askar"
  postgres := none
  webhookUrl := some "http://localhost:9022/webhooks"
  tailsServerUrl := none
  aipConfig := 10
  emitNewDidcommPrefix := false
  emitNewDidcommMimeType := false
  logLevel := none

/-- The key `admin` takes the flag `--admin-insecure-mode` out with it, and the key `plugin`
leaves all three plugins. -/
theorem admin_and_plugin_not_respected :
    ¬ RespectsConfig plainSetting "/config.yml" [.str "admin"] ∧
      ¬ RespectsConfig plainSetting "/config.yml" [.str "plugin"] := by
  refine ⟨fun respects => ?_, fun respects => ?_⟩
  · have hflag := congrArg (fun line => decide (.str "--admin-insecure-mode" ∈ line))
      (respects _ rfl)
    revert hflag
    decide +kernel
  · have hplugin := congrArg (fun line => decide (.str "--plugin" ∈ line)) (respects _ rfl)
    revert hplugin
    decide +kernel

end AgentTestHarness.AgentArgs
