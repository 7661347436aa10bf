import StackIr.Proofs.Failure
import StackIr.Template.Decode

/-! # Values with aliases of what encloses them

    The value of a list or mapping that has an alias of itself inside is looked for to a limited
    depth.  The limit cannot be seen from outside: decoding follows such an alias like any other
    (`decodeValue_selfAlias`), and it has no end exactly if it comes to none at any depth
    (`decodeValue_eq_endless_iff`).

    What is found to some depth is also found to a greater one.  As long as more is found, one
    more of the numbered lists and mappings has a value, so there is nothing more to be found
    when the depth is greater than their number. -/

namespace StackIr

/-! ## More of a result -/

/-- `x` has not come to an end yet, or is `y`. -/
def Approximates {α : Type} (x y : Except Stop α) : Prop :=
  x = .error .endless ∨ x = y

namespace Approximates

variable {α β : Type} {x y z : Except Stop α}

theorem refl (x : Except Stop α) : Approximates x x :=
  .inr rfl

theorem trans (hxy : Approximates x y) (hyz : Approximates y z) : Approximates x z := by
  rcases hxy with hx | rfl
  · exact .inl hx
  · exact hyz

theorem bind {f g : α → Except Stop β} (h : Approximates x y)
    (hf : ∀ a, Approximates (f a) (g a)) : Approximates (x >>= f) (y >>= g) := by
  rcases h with rfl | rfl
  · exact .inl rfl
  · cases x with
    | error stop => exact .refl _
    | ok a => exact hf a

theorem map (h : Approximates x y) (f : α → β) : Approximates (x.map f) (y.map f) := by
  rcases h with rfl | rfl
  · exact .inl rfl
  · exact .refl _

end Approximates

namespace Template

open Yaml (Node Scope Collection Comments)

section lists

variable (enclosing : Nat → Except Stop Value)

theorem itemsWith_eq_mapM (items : List Node) :
    itemsWith enclosing items = items.mapM (valueWith enclosing) := by
  induction items with
  | nil => rfl
  | cons n rest ih => rw [itemsWith, List.mapM_cons, ih]

theorem fieldsWith_eq_mapM (entries : List (Node × Node)) :
    fieldsWith enclosing entries =
      entries.mapM fun entry => (valueWith enclosing entry.2).map (entry.1.text, ·) := by
  induction entries with
  | nil => rfl
  | cons entry rest ih =>
    obtain ⟨key, n⟩ := entry
    rw [fieldsWith, List.mapM_cons, ih]
    cases valueWith enclosing n with
    | error stop => rfl
    | ok v => rfl

end lists

mutual

/-- The more is known of what encloses a node, the more of its value is. -/
theorem approximates_valueWith {f g : Nat → Except Stop Value}
    (h : ∀ number, Approximates (f number) (g number)) (n : Node) :
    Approximates (valueWith f n) (valueWith g n) := by
  match n with
  | .scalar header text => exact .refl _
  | .sequence header items =>
    rw [valueWith, valueWith]
    exact (approximates_itemsWith h items).map _
  | .mapping header entries =>
    rw [valueWith, valueWith]
    exact (approximates_fieldsWith h entries).map _
  | .alias line name comments target =>
    rw [valueWith, valueWith]
    exact approximates_valueWith h target
  | .selfAlias line name comments number =>
    rw [valueWith, valueWith]
    exact h number

theorem approximates_itemsWith {f g : Nat → Except Stop Value}
    (h : ∀ number, Approximates (f number) (g number)) (items : List Node) :
    Approximates (itemsWith f items) (itemsWith g items) := by
  match items with
  | [] => exact .refl _
  | n :: ns =>
    rw [itemsWith, itemsWith]
    refine (approximates_valueWith h n).bind fun v => ?_
    exact (approximates_itemsWith h ns).bind fun vs => .refl _

theorem approximates_fieldsWith {f g : Nat → Except Stop Value}
    (h : ∀ number, Approximates (f number) (g number)) (entries : List (Node × Node)) :
    Approximates (fieldsWith f entries) (fieldsWith g entries) := by
  match entries with
  | [] => exact .refl _
  | (key, n) :: rest =>
    rw [fieldsWith, fieldsWith]
    refine (approximates_valueWith h n).bind fun v => ?_
    exact (approximates_fieldsWith h rest).bind fun fields => .refl _

end

/-! ## Greater depths -/

section depth

variable (scope : Scope)

theorem approximates_valueWithin_succ (depth number : Nat) :
    Approximates (valueWithin scope depth number) (valueWithin scope (depth + 1) number) := by
  induction depth generalizing number with
  | zero => exact .inl rfl
  | succ depth ih => exact approximates_valueWith ih _

/-- At this depth all is found that can be. -/
def Exhausted (depth : Nat) : Prop :=
  valueWithin scope (depth + 1) = valueWithin scope depth

variable {scope}

theorem Exhausted.add {depth : Nat} (h : Exhausted scope depth) (more : Nat) :
    valueWithin scope (depth + more) = valueWithin scope depth := by
  induction more with
  | zero => rfl
  | succ more ih =>
    funext number
    calc valueWithin scope (depth + more + 1) number
        = valueWith (valueWithin scope (depth + more)) (scope.node number) := rfl
      _ = valueWith (valueWithin scope depth) (scope.node number) := by rw [ih]
      _ = valueWithin scope depth number := congrFun h number

theorem Exhausted.succ {depth : Nat} (h : Exhausted scope depth) : Exhausted scope (depth + 1) :=
  (h.add 2).trans (h.add 1).symm

variable (scope)

/-- Whether a computation has not come to an end. -/
def isEndless {α : Type} : Except Stop α → Bool
  | .error .endless => true
  | _ => false

@[simp] theorem isEndless_iff {α : Type} {x : Except Stop α} :
    isEndless x = true ↔ x = .error .endless := by
  match x with
  | .error .endless => simp [isEndless]
  | .error (.failed failure) => simp [isEndless]
  | .ok a => simp [isEndless]

/-- The lists and mappings whose values are not found at a depth. -/
def unfinished (depth : Nat) : Scope :=
  scope.filter fun entry => isEndless (valueWithin scope depth entry.1)

variable {scope}

/-- If nothing more is found of what was not, all is found. -/
theorem exhausted_of_unfinished {depth : Nat}
    (h : ∀ entry ∈ unfinished scope (depth + 1),
      isEndless (valueWithin scope (depth + 2) entry.1) = true) :
    Exhausted scope (depth + 1) := by
  funext number
  cases hfind : scope.lookup number with
  | none =>
    -- a number that is not there stands for an empty list, which is found at once
    have hnode : scope.node number = Collection.empty.node := by
      rw [Scope.node, Scope.collection, hfind]
      rfl
    rw [valueWithin, valueWithin, hnode]
    rfl
  | some c =>
    have hmem : (number, c) ∈ scope := by
      obtain ⟨before, after, hscope, -⟩ := List.lookup_eq_some_iff.1 hfind
      rw [hscope]
      simp
    rcases approximates_valueWithin_succ scope (depth + 1) number with hendless | heq
    · have hopen := h (number, c) (List.mem_filter.2 ⟨hmem, isEndless_iff.2 hendless⟩)
      rw [isEndless_iff.1 hopen, hendless]
    · exact heq.symm

/-- With each step all is found, or fewer are left. -/
theorem exhausted_or_fewer (depth : Nat) :
    Exhausted scope (depth + 1) ∨
      (unfinished scope (depth + 2)).length < (unfinished scope (depth + 1)).length := by
  have hsub : unfinished scope (depth + 2) = (unfinished scope (depth + 1)).filter fun entry =>
      isEndless (valueWithin scope (depth + 2) entry.1) := by
    rw [unfinished, unfinished, List.filter_filter]
    refine List.filter_congr fun entry _ => ?_
    -- what is not found at a depth is not found at a smaller one
    rcases approximates_valueWithin_succ scope (depth + 1) entry.1 with hendless | heq
    · rw [hendless]
      simp [isEndless]
    · rw [heq, Bool.and_self]
  by_cases h : ∀ entry ∈ unfinished scope (depth + 1),
      isEndless (valueWithin scope (depth + 2) entry.1) = true
  · exact .inl (exhausted_of_unfinished h)
  · rw [hsub]
    refine .inr (List.length_filter_lt_length_iff_exists.2 ?_)
    simpa using h

theorem exhausted_or_few (depth : Nat) :
    Exhausted scope (depth + 1) ∨
      (unfinished scope (depth + 1)).length + depth ≤ scope.length := by
  induction depth with
  | zero => exact .inr (List.length_filter_le _ _)
  | succ depth ih =>
    rcases ih with hall | hfew
    · exact .inl hall.succ
    · rcases @exhausted_or_fewer scope depth with hall | hfewer
      · exact .inl hall.succ
      · right
        show (unfinished scope (depth + 2)).length + (depth + 1) ≤ scope.length
        omega

theorem exhausted_length (scope : Scope) : Exhausted scope (scope.length + 1) := by
  rcases @exhausted_or_few scope scope.length with hall | hfew
  · exact hall
  · rcases @exhausted_or_fewer scope scope.length with hall | hfewer
    · exact hall
    · omega

end depth

/-! ## Decoding -/

section decoding

variable {scope : Scope}

theorem enclosingValue_eq (number : Nat) :
    enclosingValue scope number = decodeValue scope (scope.node number) :=
  (congrFun (exhausted_length scope) number).symm

/-- An alias inside its target has the value of the target. -/
theorem decodeValue_selfAlias (line : Nat) (name : String) (comments : Comments) (number : Nat) :
    decodeValue scope (.selfAlias line name comments number) =
      decodeValue scope (scope.node number) := by
  rw [← enclosingValue_eq, decodeValue, valueWith]

theorem approximates_enclosingValue (depth number : Nat) :
    Approximates (valueWithin scope depth number) (enclosingValue scope number) := by
  have hmore : ∀ more, Approximates (valueWithin scope depth number)
      (valueWithin scope (depth + more) number) := by
    intro more
    induction more with
    | zero => exact .refl _
    | succ more ih => exact ih.trans (approximates_valueWithin_succ scope _ number)
  -- the limit is deep enough, and so is a depth beyond it
  have hlimit : valueWithin scope (depth + (scope.length + 1)) = enclosingValue scope := by
    rw [Nat.add_comm, (exhausted_length scope).add depth, enclosingValue]
  exact hlimit ▸ hmore (scope.length + 1)

/-- A value is that of the node at the end of all aliases. -/
@[simp] theorem decodeValue_resolve (n : Node) :
    decodeValue scope (n.resolve scope) = decodeValue scope n := by
  match n with
  | .scalar h text => rfl
  | .sequence h items => rfl
  | .mapping h entries => rfl
  | .alias line name comments target =>
    rw [Node.resolve, decodeValue_resolve target, decodeValue, valueWith]
  | .selfAlias line name comments number => rw [Node.resolve, decodeValue_selfAlias]

/-- Decoding has no end exactly if it comes to none, however deep it goes. -/
theorem decodeValue_eq_endless_iff {n : Node} :
    decodeValue scope n = .error .endless ↔
      ∀ depth, valueWith (valueWithin scope depth) n = .error .endless := by
  constructor
  · intro h depth
    rcases approximates_valueWith (approximates_enclosingValue depth) n with hendless | heq
    · exact hendless
    · exact heq.trans h
  · intro h
    exact h (scope.length + 1)

end decoding

/-! ## Other nodes in a scope -/

section mapNodes

variable {f : Node → Node} (hf : ∀ n, n.isCollection = true → (f n).isCollection = true)

/-- A scope with other lists and mappings in place of its own. -/
def mapNodes (scope : Scope) : Scope :=
  scope.map fun entry => (entry.1, ⟨f entry.2.node, hf _ entry.2.isCollection⟩)

@[simp] theorem length_mapNodes (scope : Scope) : (mapNodes hf scope).length = scope.length :=
  List.length_map _

theorem node_mapNodes (hempty : f Collection.empty.node = Collection.empty.node) (scope : Scope)
    (number : Nat) : (mapNodes hf scope).node number = f (scope.node number) := by
  have hlookup : (mapNodes hf scope).lookup number =
      (scope.lookup number).map fun c => ⟨f c.node, hf _ c.isCollection⟩ := by
    induction scope with
    | nil => rfl
    | cons entry rest ih =>
      rw [show mapNodes hf (entry :: rest) = (entry.1, _) :: mapNodes hf rest from rfl,
        List.lookup_cons, List.lookup_cons, ih]
      split
      · rfl
      · rfl
  rw [Scope.node, Scope.collection, hlookup, Scope.node, Scope.collection]
  cases scope.lookup number with
  | none => exact hempty.symm
  | some c => rfl

end mapNodes

end Template

end StackIr
