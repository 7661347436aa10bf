import StackIr.Ir.Assembly
import StackIr.Proofs.Failure
import StackIr.Proofs.Json.Unambiguous

/-! # Expressions are told apart by their text

    An expression is written with its kind first, so that two expressions with one text have one
    constructor, and then the same parts.  The keys of an object come from the template and may be
    those of the encoding itself, but they stand one level below it.

    The numbers of a program that counts and floating point numbers are left out: written as
    text, they may look like a whole number. -/

namespace StackIr

open Json (Shape shape shapeItems shapeMembers)

/-! ## Members that may be left out -/

namespace Json

@[simp] theorem map_fst_shapeMembers (members : List (String × Json)) :
    (shapeMembers members).map Prod.fst = members.map Prod.fst := by
  induction members with
  | nil => rfl
  | cons member members ih => rw [shapeMembers, List.map_cons, List.map_cons, ih]

theorem key_of_mem_textMember {key name s : String}
    (h : name ∈ (textMember key s).map Prod.fst) : name = key := by
  unfold textMember at h
  split at h
  · cases h
  · simpa using h

/-- Whether a member was left out can be told if no later one has its key. -/
theorem textMember_inj {key s s' : String} {members members' : List (String × Json)}
    (hkey : key ∉ members.map Prod.fst) (hkey' : key ∉ members'.map Prod.fst)
    (h : shapeMembers (textMember key s ++ members) =
      shapeMembers (textMember key s' ++ members')) :
    s = s' ∧ shapeMembers members = shapeMembers members' := by
  -- a member that is there on one side only would be the first with its key on the other
  have hleft : ∀ {t : String} {ms ms' : List (String × Json)}, key ∉ ms.map Prod.fst →
      shapeMembers ms ≠ shapeMembers ((key, .string t) :: ms') := by
    intro t ms ms' hms heq
    rw [← map_fst_shapeMembers, heq, map_fst_shapeMembers] at hms
    exact hms (List.mem_cons_self ..)
  by_cases hs : s.isEmpty = true <;> by_cases hs' : s'.isEmpty = true
  · rw [textMember, if_pos hs, textMember, if_pos hs'] at h
    rw [String.isEmpty_iff.1 hs, String.isEmpty_iff.1 hs']
    exact ⟨rfl, h⟩
  · rw [textMember, if_pos hs, textMember, if_neg hs'] at h
    exact absurd h (hleft hkey)
  · rw [textMember, if_neg hs, textMember, if_pos hs'] at h
    exact absurd h.symm (hleft hkey')
  · rw [textMember, if_neg hs, textMember, if_neg hs', List.singleton_append,
      List.singleton_append, shapeMembers, shapeMembers, shape, shape] at h
    simp only [List.cons.injEq, Prod.mk.injEq, Shape.string.injEq, true_and] at h
    exact h

/-- Items are told by their shapes one by one. -/
theorem eq_of_shapeItems_map_eq {α : Type} {f : α → Json} {xs ys : List α}
    (hinj : ∀ x ∈ xs, ∀ y ∈ ys, shape (f x) = shape (f y) → x = y)
    (h : shapeItems (xs.map f) = shapeItems (ys.map f)) : xs = ys := by
  induction xs generalizing ys with
  | nil =>
    cases ys with
    | nil => rfl
    | cons y ys => cases h
  | cons x xs ih =>
    cases ys with
    | nil => cases h
    | cons y ys =>
      simp only [List.map_cons, shapeItems, List.cons.injEq] at h
      have hfirst : x = y := hinj x (List.mem_cons_self ..) y (List.mem_cons_self ..) h.1
      have hrest : xs = ys := ih (fun x hx y hy =>
        hinj x (List.mem_cons_of_mem _ hx) y (List.mem_cons_of_mem _ hy)) h.2
      rw [hfirst, hrest]

/-- A list that may be absent is told by its shape if its items are. -/
theorem eq_of_shape_arrayOrNull_eq {α : Type} {f : α → Json} {a b : Option (List α)}
    (hinj : ∀ x ∈ a.getD [], ∀ y ∈ b.getD [], shape (f x) = shape (f y) → x = y)
    (h : shape (arrayOrNull f a) = shape (arrayOrNull f b)) : a = b := by
  cases a with
  | none =>
    cases b with
    | none => rfl
    | some ys => rw [arrayOrNull, arrayOrNull, shape, shape] at h; cases h
  | some xs =>
    cases b with
    | none => rw [arrayOrNull, arrayOrNull, shape, shape] at h; cases h
    | some ys =>
      rw [arrayOrNull, arrayOrNull, shape, shape] at h
      have hlists : xs = ys := eq_of_shapeItems_map_eq hinj (Shape.array.inj h)
      rw [hlists]

end Json

/-! ## Scalars and names -/

namespace Primitive

/-- Nulls, booleans and the whole numbers of templates. -/
def isPlain : Primitive → Bool
  | .null | .bool _ | .int _ => true
  | .count _ | .float _ => false

/-- The plain scalars that are no numbers. -/
def fixed : List Primitive :=
  [.null, .bool true, .bool false]

theorem mem_fixed_or_int {p : Primitive} (h : p.isPlain = true) : p ∈ fixed ∨ ∃ i, p = .int i := by
  cases p with
  | null => exact .inl (by decide)
  | bool b =>
    cases b
    · exact .inl (by decide)
    · exact .inl (by decide)
  | int i => exact .inr ⟨i, rfl⟩
  | _ => cases h

/-- The text of a scalar. -/
def word : Primitive → List Char
  | .null => "null".toList
  | .bool b => if b then "true".toList else "false".toList
  | .int i | .count i => Json.intText i
  | .float x => (Decimal.Layout.json.render x).toList

@[simp] theorem shape_toJson (p : Primitive) : shape p.toJson = .word p.word := by
  cases p with
  | _ => rw [toJson, shape, word]

/-- A digit or a sign. -/
def startsNumber (c : Char) : Bool :=
  c.isDigit || c == '-'

theorem head?_intText (i : Int) : (Json.intText i).head?.all startsNumber = true := by
  unfold Json.intText
  split
  · rfl
  · cases hdigits : Nat.toDigits 10 i.natAbs with
    | nil => rfl
    | cons c digits =>
      have hc : c.isDigit = true :=
        Json.isDigit_of_mem_toDigits c (hdigits ▸ List.mem_cons_self ..)
      rw [List.head?_cons, Option.all_some, startsNumber, hc, Bool.true_or]

/-- Plain scalars with one text are the same. -/
theorem eq_of_shape_eq {p q : Primitive} (hp : p.isPlain = true) (hq : q.isPlain = true)
    (h : shape p.toJson = shape q.toJson) : p = q := by
  have hfixed : ∀ p ∈ fixed, ∀ q ∈ fixed, p.word = q.word → p = q := by decide
  have hletter : ∀ p ∈ fixed, p.word.head?.all startsNumber = false := by decide
  rw [shape_toJson, shape_toJson] at h
  have hword : p.word = q.word := Shape.word.inj h
  -- a whole number starts with a digit or a sign, and no other plain scalar does
  rcases mem_fixed_or_int hp with hp | ⟨i, rfl⟩ <;> rcases mem_fixed_or_int hq with hq | ⟨j, rfl⟩
  · exact hfixed p hp q hq hword
  · have := hletter p hp
    rw [hword, word, head?_intText] at this
    cases this
  · have := hletter q hq
    rw [← hword, word, head?_intText] at this
    cases this
  · rw [Json.intText_injective hword]

end Primitive

namespace Origin

/-- The origins that have a name of their own. -/
def named : List Origin :=
  [.parameter, .resource, .pseudoParameter, .condition, .mapping]

theorem mem_named_or_other (a : Origin) : a ∈ named ∨ ∃ n, a = .other n := by
  cases a with
  | other n => exact .inr ⟨n, rfl⟩
  | _ => exact .inl (by decide)

theorem name_injective : Function.Injective name := by
  have hnamed : ∀ a ∈ named, ∀ b ∈ named, a.name = b.name → a = b := by decide
  have hstart : ∀ a ∈ named, a.name.toList.head? ≠ some 'O' := by decide
  have hother : ∀ n : Int, (other n).name.toList.head? = some 'O' := by
    intro n
    rw [name]
    simp
  intro a b h
  -- no named origin starts with the letter of the others
  rcases mem_named_or_other a with ha | ⟨n, rfl⟩ <;> rcases mem_named_or_other b with hb | ⟨m, rfl⟩
  · exact hnamed a ha b hb h
  · exact absurd (h ▸ hother m) (hstart a ha)
  · exact absurd (h ▸ hother n) (hstart b hb)
  · have hlists := congrArg String.toList h
    simp only [name, String.toList_append, String.toList_ofList] at hlists
    rw [List.append_left_inj, List.append_right_inj] at hlists
    rw [Json.intText_injective hlists]

end Origin

namespace Ir

namespace Expr

mutual

/-- Whether all scalars of an expression are plain. -/
def isPlain : Expr → Bool
  | .string _ => true
  | .scalar p => p.isPlain
  | .list items => itemsPlain items
  | .object fields => fieldsPlain fields
  | .sub _ bound => fieldsPlain bound
  | .ref _ _ => true
  | .getAtt _ _ => true
  | .intrinsic _ args => args.isPlain

def itemsPlain : List Expr → Bool
  | [] => true
  | e :: es => e.isPlain && itemsPlain es

def fieldsPlain : List (String × Expr) → Bool
  | [] => true
  | (_, e) :: rest => e.isPlain && fieldsPlain rest

end

/-- The text of the kind that an expression is written with. -/
def kindText : Expr → String
  | .string _ => "string"
  | .scalar _ => "scalar"
  | .list _ => "list"
  | .object _ => "object"
  | .sub _ _ => "sub"
  | .ref _ _ => "ref"
  | .getAtt _ _ => "getAtt"
  | .intrinsic _ _ => "intrinsic"

/-- The member for the variables of a substitution string, left out if there are none. -/
def variablesMember : List (String × Expr) → List (String × Json)
  | [] => []
  | b :: bs => [("variables", .array (boundJson (b :: bs)))]

theorem toJson_sub (tokens : List (Substitution.Token String)) (bound : List (String × Expr)) :
    toJson (.sub tokens bound) = .object (("kind", .string "sub") ::
      ("tokens", tokensJson tokens) :: variablesMember bound) := by
  cases bound with
  | nil => rw [toJson]; rfl
  | cons b bs => rw [toJson]; rfl

/-- An expression is written with its kind first. -/
@[simp] theorem shape_toJson (e : Expr) :
    ∃ rest, shape e.toJson = .object (("kind", .string e.kindText) :: rest) := by
  cases e with
  | sub tokens bound => exact ⟨_, by rw [toJson_sub, shape, shapeMembers, shape, kindText]⟩
  | _ => exact ⟨_, by rw [toJson, shape, shapeMembers, shape, kindText]⟩

theorem kindText_eq_of_shape_eq {e e' : Expr} (h : shape e.toJson = shape e'.toJson) :
    e.kindText = e'.kindText := by
  obtain ⟨rest, hrest⟩ := shape_toJson e
  obtain ⟨rest', hrest'⟩ := shape_toJson e'
  rw [hrest, hrest'] at h
  simp only [Shape.object.injEq, Shape.string.injEq, List.cons.injEq, Prod.mk.injEq,
    true_and] at h
  exact h.1

theorem token_eq_of_shape_eq {t t' : Substitution.Token String}
    (h : shape (tokenJson t) = shape (tokenJson t')) : t = t' := by
  cases t with
  | literal text =>
    cases t' with
    | literal text' => simpa [tokenJson, shape, shapeMembers] using h
    | var name' => simp [tokenJson, shape, shapeMembers] at h
  | var name =>
    cases t' with
    | literal text' => simp [tokenJson, shape, shapeMembers] at h
    | var name' => simpa [tokenJson, shape, shapeMembers] using h

theorem tokens_eq_of_shape_eq {ts ts' : List (Substitution.Token String)}
    (h : shape (tokensJson ts) = shape (tokensJson ts')) : ts = ts' := by
  cases ts with
  | nil =>
    cases ts' with
    | nil => rfl
    | cons t' ts' => simp [tokensJson, shape] at h
  | cons t ts =>
    cases ts' with
    | nil => simp [tokensJson, shape] at h
    | cons t' ts' =>
      refine Json.eq_of_shapeItems_map_eq (fun _ _ _ _ => token_eq_of_shape_eq) ?_
      simpa [tokensJson, shape] using h

/-- The variables are told whether or not their member was left out. -/
theorem shapeItems_boundJson_eq {bound bound' : List (String × Expr)}
    (h : shapeMembers (variablesMember bound) = shapeMembers (variablesMember bound')) :
    shapeItems (boundJson bound) = shapeItems (boundJson bound') := by
  cases bound with
  | nil =>
    cases bound' with
    | nil => rfl
    | cons var' rest' => simp [variablesMember, shapeMembers] at h
  | cons var rest =>
    cases bound' with
    | nil => simp [variablesMember, shapeMembers] at h
    | cons var' rest' => simpa [variablesMember, shapeMembers, shape] using h

mutual

/-- Plain expressions with one shape are the same. -/
theorem eq_of_shape_eq (e e' : Expr) (he : e.isPlain = true) (he' : e'.isPlain = true)
    (h : shape e.toJson = shape e'.toJson) : e = e' := by
  -- the kind comes first, so both have one constructor, and then their parts are compared
  cases e with
  | string s =>
    cases e' with
    | string s' => simpa [toJson, shape, shapeMembers] using h
    | _ => exact absurd (kindText_eq_of_shape_eq h) (by simp [kindText])
  | scalar p =>
    cases e' with
    | scalar p' =>
      simp only [toJson, shape, shapeMembers, Shape.object.injEq, List.cons.injEq, Prod.mk.injEq,
        true_and, and_true] at h
      rw [Primitive.eq_of_shape_eq he he' h]
    | _ => exact absurd (kindText_eq_of_shape_eq h) (by simp [kindText])
  | list items =>
    cases e' with
    | list items' =>
      simp only [toJson, shape, shapeMembers, Shape.object.injEq, Shape.array.injEq,
        List.cons.injEq, Prod.mk.injEq, true_and, and_true] at h
      rw [items_eq_of_shape_eq items items' he he' h]
    | _ => exact absurd (kindText_eq_of_shape_eq h) (by simp [kindText])
  | object fields =>
    cases e' with
    | object fields' =>
      simp only [toJson, shape, shapeMembers, Shape.object.injEq,
        List.cons.injEq, Prod.mk.injEq, true_and, and_true] at h
      rw [fields_eq_of_shape_eq fields fields' he he' h]
    | _ => exact absurd (kindText_eq_of_shape_eq h) (by simp [kindText])
  | sub tokens bound =>
    cases e' with
    | sub tokens' bound' =>
      simp only [toJson_sub, shape, shapeMembers, Shape.object.injEq, List.cons.injEq,
        Prod.mk.injEq, true_and] at h
      obtain ⟨htokens, hvariables⟩ := h
      rw [tokens_eq_of_shape_eq htokens,
        bound_eq_of_shape_eq bound bound' he he' (shapeItems_boundJson_eq hvariables)]
    | _ => exact absurd (kindText_eq_of_shape_eq h) (by simp [kindText])
  | ref name origin =>
    cases e' with
    | ref name' origin' =>
      simp only [toJson, shape, shapeMembers, Shape.object.injEq, Shape.string.injEq,
        List.cons.injEq, Prod.mk.injEq, true_and, and_true] at h
      rw [h.1, Origin.name_injective h.2]
    | _ => exact absurd (kindText_eq_of_shape_eq h) (by simp [kindText])
  | getAtt resource attr =>
    cases e' with
    | getAtt resource' attr' => simpa [toJson, shape, shapeMembers] using h
    | _ => exact absurd (kindText_eq_of_shape_eq h) (by simp [kindText])
  | intrinsic fn args =>
    cases e' with
    | intrinsic fn' args' =>
      simp only [toJson, shape, shapeMembers, Shape.object.injEq, Shape.string.injEq,
        List.cons.injEq, Prod.mk.injEq, true_and, and_true] at h
      rw [h.1, eq_of_shape_eq args args' he he' h.2]
    | _ => exact absurd (kindText_eq_of_shape_eq h) (by simp [kindText])
termination_by structural e

theorem items_eq_of_shape_eq (items items' : List Expr) (he : itemsPlain items = true)
    (he' : itemsPlain items' = true)
    (h : shapeItems (itemsJson items) = shapeItems (itemsJson items')) : items = items' := by
  cases items with
  | nil =>
    cases items' with
    | nil => rfl
    | cons e' es' => simp [itemsJson, shapeItems] at h
  | cons e es =>
    cases items' with
    | nil => simp [itemsJson, shapeItems] at h
    | cons e' es' =>
      simp only [itemsPlain, Bool.and_eq_true] at he he'
      simp only [itemsJson, shapeItems, List.cons.injEq] at h
      rw [eq_of_shape_eq e e' he.1 he'.1 h.1, items_eq_of_shape_eq es es' he.2 he'.2 h.2]
termination_by structural items

theorem fields_eq_of_shape_eq (fields fields' : List (String × Expr))
    (he : fieldsPlain fields = true) (he' : fieldsPlain fields' = true)
    (h : shapeMembers (fieldsJson fields) = shapeMembers (fieldsJson fields')) :
    fields = fields' := by
  cases fields with
  | nil =>
    cases fields' with
    | nil => rfl
    | cons field' rest' => simp [fieldsJson, shapeMembers] at h
  | cons field rest =>
    cases fields' with
    | nil => simp [fieldsJson, shapeMembers] at h
    | cons field' rest' =>
      obtain ⟨key, value⟩ := field
      obtain ⟨key', value'⟩ := field'
      simp only [fieldsPlain, Bool.and_eq_true] at he he'
      simp only [fieldsJson, shapeMembers, List.cons.injEq, Prod.mk.injEq] at h
      obtain ⟨⟨rfl, hvalue⟩, hrest⟩ := h
      rw [eq_of_shape_eq value value' he.1 he'.1 hvalue,
        fields_eq_of_shape_eq rest rest' he.2 he'.2 hrest]
termination_by structural fields

theorem bound_eq_of_shape_eq (bound bound' : List (String × Expr))
    (he : fieldsPlain bound = true) (he' : fieldsPlain bound' = true)
    (h : shapeItems (boundJson bound) = shapeItems (boundJson bound')) :
    bound = bound' := by
  cases bound with
  | nil =>
    cases bound' with
    | nil => rfl
    | cons var' rest' => simp [boundJson, shapeItems] at h
  | cons var rest =>
    cases bound' with
    | nil => simp [boundJson, shapeItems] at h
    | cons var' rest' =>
      obtain ⟨name, value⟩ := var
      obtain ⟨name', value'⟩ := var'
      simp only [fieldsPlain, Bool.and_eq_true] at he he'
      simp only [boundJson, shapeItems, shape, shapeMembers, Shape.object.injEq, Shape.string.injEq,
        List.cons.injEq, Prod.mk.injEq, true_and, and_true] at h
      obtain ⟨⟨rfl, hvalue⟩, hrest⟩ := h
      rw [eq_of_shape_eq value value' he.1 he'.1 hvalue,
        bound_eq_of_shape_eq rest rest' he.2 he'.2 hrest]
termination_by structural bound

end

@[simp] theorem unsupported?_tokensJson (tokens : List (Substitution.Token String)) :
    (tokensJson tokens).unsupported? = none := by
  have hitems : Json.unsupportedItem? (tokens.map tokenJson) = none := by
    induction tokens with
    | nil => rfl
    | cons token tokens ih =>
      rw [List.map_cons, Json.unsupportedItem?, ih]
      cases token with
      | literal text => rfl
      | var name => rfl
  unfold tokensJson
  split
  · rfl
  · exact hitems

mutual

/-- Plain expressions have a text. -/
theorem unsupported?_toJson (e : Expr) (he : e.isPlain = true) : e.toJson.unsupported? = none := by
  cases e with
  | string s => rfl
  | scalar p =>
    rw [isPlain] at he
    cases p with
    | count i => cases he
    | float x => cases he
    | _ => rfl
  | list items =>
    rw [isPlain] at he
    simp [toJson, Json.unsupported?, Json.unsupportedMember?, unsupportedItem?_itemsJson items he]
  | object fields =>
    rw [isPlain] at he
    simp [toJson, Json.unsupported?, Json.unsupportedMember?,
      unsupportedMember?_fieldsJson fields he]
  | sub tokens bound =>
    rw [isPlain] at he
    have htokens : (tokensJson tokens).unsupported? = none := unsupported?_tokensJson tokens
    have hbound := unsupportedItem?_boundJson bound he
    rw [toJson_sub, Json.unsupported?, Json.unsupportedMember?, Json.unsupportedMember?, htokens]
    cases bound with
    | nil => rfl
    | cons var rest =>
      rw [variablesMember, Json.unsupportedMember?, Json.unsupported?, hbound]
      rfl
  | ref name origin => rfl
  | getAtt resource attr => rfl
  | intrinsic fn args =>
    rw [isPlain] at he
    simp [toJson, Json.unsupported?, Json.unsupportedMember?, unsupported?_toJson args he]
termination_by structural e

theorem unsupportedItem?_itemsJson (items : List Expr) (he : itemsPlain items = true) :
    Json.unsupportedItem? (itemsJson items) = none := by
  cases items with
  | nil => rfl
  | cons e es =>
    obtain ⟨he, hes⟩ := Bool.and_eq_true_iff.1 he
    rw [itemsJson, Json.unsupportedItem?, unsupported?_toJson e he,
      unsupportedItem?_itemsJson es hes, Option.none_or]
termination_by structural items

theorem unsupportedMember?_fieldsJson (fields : List (String × Expr))
    (he : fieldsPlain fields = true) : Json.unsupportedMember? (fieldsJson fields) = none := by
  cases fields with
  | nil => rfl
  | cons field rest =>
    obtain ⟨key, e⟩ := field
    obtain ⟨he, hrest⟩ := Bool.and_eq_true_iff.1 he
    rw [fieldsJson, Json.unsupportedMember?, unsupported?_toJson e he,
      unsupportedMember?_fieldsJson rest hrest, Option.none_or]
termination_by structural fields

theorem unsupportedItem?_boundJson (bound : List (String × Expr))
    (he : fieldsPlain bound = true) : Json.unsupportedItem? (boundJson bound) = none := by
  cases bound with
  | nil => rfl
  | cons var rest =>
    obtain ⟨name, e⟩ := var
    obtain ⟨he, hrest⟩ := Bool.and_eq_true_iff.1 he
    simp [boundJson, Json.unsupportedItem?, Json.unsupported?, Json.unsupportedMember?,
      unsupported?_toJson e he, unsupportedItem?_boundJson rest hrest]
termination_by structural bound

end

end Expr

/-! ## Outputs -/

namespace OutputInstruction

/-- Whether all scalars of an output are plain. -/
def isPlain (o : OutputInstruction) : Bool :=
  o.exported.all Expr.isPlain && o.value.all Expr.isPlain

/-- The members for the name under which an output is exported and for its value. -/
def lowered (o : OutputInstruction) : List (String × Json) :=
  (o.exported.map fun e => ("export", e.toJson)).toList ++
    [("value", (o.value.map Expr.toJson).getD .null)]

theorem toJson_eq (o : OutputInstruction) :
    o.toJson = .object (("name", .string o.name) ::
      (Json.textMember "description" o.description ++
        (Json.textMember "condition" o.condition ++ o.lowered))) := by
  obtain ⟨name, description, condition, exported, value⟩ := o
  cases exported with
  | none => simp [toJson, lowered]
  | some e => simp [toJson, lowered]

theorem keys_lowered (o : OutputInstruction) : ∀ key ∈ o.lowered.map Prod.fst,
    key = "export" ∨ key = "value" := by
  unfold lowered
  cases o.exported with
  | none => simp
  | some e => simp

theorem value_eq_of_shape_eq {v v' : Option Expr} (hv : v.all Expr.isPlain = true)
    (hv' : v'.all Expr.isPlain = true)
    (h : shape ((v.map Expr.toJson).getD .null) = shape ((v'.map Expr.toJson).getD .null)) :
    v = v' := by
  cases v with
  | none =>
    cases v' with
    | none => rfl
    | some e' =>
      obtain ⟨rest, hrest⟩ := Expr.shape_toJson e'
      rw [Option.map_none, Option.getD_none, Option.map_some, Option.getD_some, hrest, shape] at h
      cases h
  | some e =>
    cases v' with
    | none =>
      obtain ⟨rest, hrest⟩ := Expr.shape_toJson e
      rw [Option.map_none, Option.getD_none, Option.map_some, Option.getD_some, hrest, shape] at h
      cases h
    | some e' => rw [Expr.eq_of_shape_eq e e' hv hv' h]

theorem lowered_eq_of_shape_eq {o o' : OutputInstruction} (ho : o.isPlain = true)
    (ho' : o'.isPlain = true) (h : shapeMembers o.lowered = shapeMembers o'.lowered) :
    o.exported = o'.exported ∧ o.value = o'.value := by
  obtain ⟨hexport, hvalue⟩ := Bool.and_eq_true_iff.1 ho
  obtain ⟨hexport', hvalue'⟩ := Bool.and_eq_true_iff.1 ho'
  unfold lowered at h
  cases hexported : o.exported with
  | none =>
    cases hexported' : o'.exported with
    | none =>
      simp only [hexported, hexported', Option.map_none, Option.toList_none, List.nil_append,
        shapeMembers, List.cons.injEq, Prod.mk.injEq, true_and, and_true] at h
      exact ⟨rfl, value_eq_of_shape_eq hvalue hvalue' h⟩
    | some e' => simp [hexported, hexported', shapeMembers] at h
  | some e =>
    cases hexported' : o'.exported with
    | none => simp [hexported, hexported', shapeMembers] at h
    | some e' =>
      simp only [hexported, hexported', Option.map_some, Option.toList_some,
        List.singleton_append, shapeMembers, List.cons.injEq, Prod.mk.injEq, true_and,
        and_true] at h
      rw [hexported] at hexport
      rw [hexported'] at hexport'
      exact ⟨by rw [Expr.eq_of_shape_eq e e' hexport hexport' h.1],
        value_eq_of_shape_eq hvalue hvalue' h.2⟩

/-- Plain outputs with one shape are the same. -/
theorem eq_of_shape_eq {o o' : OutputInstruction} (ho : o.isPlain = true)
    (ho' : o'.isPlain = true) (h : shape o.toJson = shape o'.toJson) : o = o' := by
  have habsent : ∀ (key : String) (o : OutputInstruction), key ≠ "export" → key ≠ "value" →
      key ∉ o.lowered.map Prod.fst := by
    intro key o hexport hvalue hmem
    rcases keys_lowered o key hmem with rfl | rfl
    · exact hexport rfl
    · exact hvalue rfl
  have hdescription : ∀ o : OutputInstruction,
      "description" ∉ (Json.textMember "condition" o.condition ++ o.lowered).map Prod.fst := by
    intro o
    rw [List.map_append, List.mem_append, not_or]
    refine ⟨fun hmem => ?_, habsent _ o (by decide) (by decide)⟩
    exact absurd (Json.key_of_mem_textMember hmem) (by decide)
  rw [toJson_eq, toJson_eq, shape, shape, Shape.object.injEq, shapeMembers, shapeMembers,
    List.cons.injEq, Prod.mk.injEq, shape, shape, Shape.string.injEq] at h
  obtain ⟨⟨-, hname⟩, hrest⟩ := h
  obtain ⟨hdescr, hrest⟩ := Json.textMember_inj (hdescription o) (hdescription o') hrest
  obtain ⟨hcondition, hrest⟩ := Json.textMember_inj (habsent _ o (by decide) (by decide))
    (habsent _ o' (by decide) (by decide)) hrest
  obtain ⟨hexported, hvalue⟩ := lowered_eq_of_shape_eq ho ho' hrest
  cases o
  cases o'
  simp_all

end OutputInstruction

/-- Whether all scalars of the outputs are plain. -/
def outputsPlain (ir : Ir) : Bool :=
  (ir.outputs.getD []).all OutputInstruction.isPlain

/-- Representations with one shape have the same outputs if these are plain. -/
theorem outputs_eq_of_shape_eq {ir ir' : Ir} (hir : ir.outputsPlain = true)
    (hir' : ir'.outputsPlain = true) (h : shape ir.toJson = shape ir'.toJson) :
    ir.outputs = ir'.outputs := by
  rw [toJson, toJson, shape, shape, Shape.object.injEq] at h
  obtain ⟨-, hsections⟩ := Json.textMember_inj (by simp) (by simp) h
  simp only [shapeMembers, List.cons.injEq, Prod.mk.injEq, true_and, and_true] at hsections
  refine Json.eq_of_shape_arrayOrNull_eq (fun o ho o' ho' hshape => ?_) hsections.2.2.2.2.1
  exact OutputInstruction.eq_of_shape_eq (List.all_eq_true.1 hir o ho)
    (List.all_eq_true.1 hir' o' ho') hshape

/-- The compact text of an expression tells the expression, and that of a representation tells
    its outputs, as long as their scalars are nulls, booleans and whole numbers.  So if two
    representations with different outputs have one fingerprint, two texts have one hash.  Only
    expressions whose documents are too deep have no text. -/
theorem encoding_separates :
    (∀ e : Expr, e.isPlain = true →
      ((∃ text, e.encode = .ok text) ↔ e.toJson.depth ≤ Json.levelLimit)) ∧
    (∀ (e e' : Expr) (text text' : String), e.isPlain = true → e'.isPlain = true →
      e.encode = .ok text → e'.encode = .ok text' →
      Text.Utf8.encode text = Text.Utf8.encode text' → e = e') ∧
    (∀ (ir ir' : Ir) (h : UInt64), ir.outputsPlain = true → ir'.outputsPlain = true →
      ir.outputs ≠ ir'.outputs → ir.fingerprint = .ok h → ir'.fingerprint = .ok h →
      ∃ text text', ir.encode = .ok text ∧ ir'.encode = .ok text' ∧
        Text.Utf8.encode text ≠ Text.Utf8.encode text' ∧
        Fingerprint.hash (Text.Utf8.encode text) = h ∧
        Fingerprint.hash (Text.Utf8.encode text') = h) := by
  refine ⟨fun e he => ?_, fun e e' text text' he he' hencode hencode' hbytes => ?_,
    fun ir ir' h hir hir' hne hfingerprint hfingerprint' => ?_⟩
  · simp only [Expr.encode, Json.textUnless_eq_ok_iff, exists_and_left, exists_eq, and_true]
    rw [Expr.refusal?, Json.refusal?_eq_none_iff, Expr.unsupported?_toJson e he]
    simp
  · exact Expr.eq_of_shape_eq e e' he he' (Json.shape_eq_of_text_eq hencode hencode' hbytes)
  · obtain ⟨text, htext, hhash⟩ := map_eq_ok_iff.1 hfingerprint
    obtain ⟨text', htext', hhash'⟩ := map_eq_ok_iff.1 hfingerprint'
    refine ⟨text, text', htext, htext', fun hbytes => ?_, hhash, hhash'⟩
    exact hne (outputs_eq_of_shape_eq hir hir' (Json.shape_eq_of_text_eq
      (mapError_eq_ok_iff.1 htext) (mapError_eq_ok_iff.1 htext') hbytes))

/-- An object that imitates a reference, and the reference: both have a text, and the texts
    differ. -/
theorem encoding_separates_imitation :
    let e : Expr := .object [("kind", .string "ref"), ("name", .string "A"),
      ("origin", .string "Resource")]
    let e' : Expr := .ref "A" .resource
    ∃ text text', e.encode = .ok text ∧ e'.encode = .ok text' ∧
      Text.Utf8.encode text ≠ Text.Utf8.encode text' := by
  intro e e'
  obtain ⟨hencodes, hseparates, -⟩ := encoding_separates
  obtain ⟨text, htext⟩ := (hencodes e rfl).2 (by decide)
  obtain ⟨text', htext'⟩ := (hencodes e' rfl).2 (by decide)
  refine ⟨text, text', htext, htext', fun hbytes => ?_⟩
  exact Expr.noConfusion (hseparates e e' text text' rfl rfl htext htext' hbytes)

end Ir

end StackIr
