import Mathlib.Data.List.Basic
import Mathlib.Data.List.TakeWhile

/-! Command lines. An option is a name with the arguments that follow it up to the next name;
what is a name is a parameter. -/
namespace AgentTestHarness.CommandLine

variable {α : Type*} (isName : α → Bool)

/-- The arguments before the first name. -/
def leading (args : List α) : List α := args.takeWhile fun x => !isName x

def options : List α → List (α × List α)
  | [] => []
  | x :: args => if isName x then (x, leading isName args) :: options args else options args

/-- The options written one after the other. -/
def line (os : List (α × List α)) : List α := os.flatMap fun o => o.1 :: o.2

def BeginsWithName (args : List α) : Prop := ∀ x ∈ args.head?, isName x = true

variable {isName}

theorem leading_cons (x : α) (args : List α) :
    leading isName (x :: args) = if isName x then [] else x :: leading isName args := by
  cases h : isName x with
  | true => simp [leading, h]
  | false => simp [leading, h]

theorem leading_eq_nil {args : List α} (h : BeginsWithName isName args) :
    leading isName args = [] := by
  cases args with
  | nil => rfl
  | cons x args => rw [leading_cons, if_pos (h x rfl)]

theorem leading_append {args more : List α} (h : BeginsWithName isName more) :
    leading isName (args ++ more) = leading isName args := by
  induction args with
  | nil => exact leading_eq_nil h
  | cons x args ih => rw [List.cons_append, leading_cons, leading_cons, ih]

theorem options_append {args more : List α} (h : BeginsWithName isName more) :
    options isName (args ++ more) = options isName args ++ options isName more := by
  induction args with
  | nil => rfl
  | cons x args ih =>
    rw [List.cons_append, options, options, leading_append h, ih]
    split <;> rfl

/-- Arguments without a name in front add no option. -/
theorem options_skip {args : List α} (h : ∀ x ∈ args, isName x = false) (more : List α) :
    options isName (args ++ more) = options isName more := by
  induction args with
  | nil => rfl
  | cons x args ih =>
    rw [List.cons_append, options, if_neg (by simp [h x List.mem_cons_self]),
      ih fun y hy => h y (List.mem_cons_of_mem _ hy)]

theorem leading_append_line (args : List α) :
    leading isName args ++ line (options isName args) = args := by
  induction args with
  | nil => rfl
  | cons x args ih =>
    rw [leading_cons, options]
    split
    · rw [line, List.flatMap_cons, List.nil_append, List.cons_append]
      exact congrArg (x :: ·) ih
    · exact congrArg (x :: ·) ih

/-- A command line that begins with a name is given by its options. -/
theorem line_options {args : List α} (h : BeginsWithName isName args) :
    line (options isName args) = args := by
  have hargs : leading isName args ++ line (options isName args) = args :=
    leading_append_line args
  rwa [leading_eq_nil h, List.nil_append] at hargs

theorem options_line {os : List (α × List α)}
    (h : ∀ o ∈ os, isName o.1 = true ∧ ∀ v ∈ o.2, isName v = false) :
    options isName (line os) = os := by
  induction os with
  | nil => rfl
  | cons o os ih =>
    obtain ⟨hname, hvalues⟩ := h o List.mem_cons_self
    have hrest := ih fun p hp => h p (List.mem_cons_of_mem _ hp)
    have hbegins : BeginsWithName isName (line os) := by
      cases os with
      | nil => exact fun x hx => absurd hx (by simp [line])
      | cons p os =>
        intro x hx
        obtain rfl : p.1 = x := by simpa [line] using hx
        exact (h p (by simp)).1
    have hlead : leading isName o.2 = o.2 :=
      List.takeWhile_eq_self_iff.mpr fun v hv => by simp [hvalues v hv]
    have hcons : line (o :: os) = o.1 :: (o.2 ++ line os) := by simp [line]
    rw [hcons, options, if_pos hname, leading_append hbegins, hlead, options_skip hvalues, hrest]

theorem mem_options {args : List α} {o : α × List α} (h : o ∈ options isName args) :
    isName o.1 = true ∧ ∀ v ∈ o.2, isName v = false := by
  induction args with
  | nil => cases h
  | cons x args ih =>
    rw [options] at h
    split at h
    · next hx =>
      rcases List.mem_cons.mp h with rfl | h
      · exact ⟨hx, fun v hv => by simpa using List.mem_takeWhile_imp hv⟩
      · exact ih h
    · exact ih h

theorem names_options (args : List α) :
    (options isName args).map Prod.fst = args.filter isName := by
  induction args with
  | nil => rfl
  | cons x args ih =>
    rw [options, List.filter_cons, ← ih]
    split <;> rfl

end AgentTestHarness.CommandLine
