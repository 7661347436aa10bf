import StackIr.Json.Basic

/-! # Nesting

    How deep arrays and objects are nested, and what documents are refused for it.  A document
    whose parts are all encoded on their own is refused for the same reasons as one that is
    encoded at once and then read again: only which of several reasons is given differs. -/

namespace StackIr.Json

mutual

/-- How deep arrays and objects are nested. -/
def depth : Json → Nat
  | .array items => itemsDepth items + 1
  | .object members => membersDepth members + 1
  | _ => 0

def itemsDepth : List Json → Nat
  | [] => 0
  | item :: items => max (depth item) (itemsDepth items)

def membersDepth : List (String × Json) → Nat
  | [] => 0
  | (_, value) :: members => max (depth value) (membersDepth members)

end

/-! ## Brackets -/

mutual

/-- There is a bracket with so many others around it if the document is deeper. -/
@[simp] theorem bracketAt?_eq_none_iff (j : Json) (level : Nat) :
    j.bracketAt? level = none ↔ j.depth ≤ level := by
  match j, level with
  | .array items, 0 => simp [bracketAt?, depth]
  | .object members, 0 => simp [bracketAt?, depth]
  | .array items, level + 1 =>
    rw [bracketAt?, depth, bracketAtItem?_eq_none_iff items level, Nat.add_le_add_iff_right]
  | .object members, level + 1 =>
    rw [bracketAt?, depth, bracketAtMember?_eq_none_iff members level, Nat.add_le_add_iff_right]
  | .null, _ | .bool _, _ | .int _, _ | .float _, _ | .string _, _ => simp [bracketAt?, depth]

@[simp] theorem bracketAtItem?_eq_none_iff (items : List Json) (level : Nat) :
    bracketAtItem? items level = none ↔ itemsDepth items ≤ level := by
  match items with
  | [] => simp [bracketAtItem?, itemsDepth]
  | item :: items =>
    rw [bracketAtItem?, itemsDepth, Option.or_eq_none_iff, bracketAt?_eq_none_iff item level,
      bracketAtItem?_eq_none_iff items level, Nat.max_le]

@[simp] theorem bracketAtMember?_eq_none_iff (members : List (String × Json)) (level : Nat) :
    bracketAtMember? members level = none ↔ membersDepth members ≤ level := by
  match members with
  | [] => simp [bracketAtMember?, membersDepth]
  | (key, value) :: members =>
    rw [bracketAtMember?, membersDepth, Option.or_eq_none_iff, bracketAt?_eq_none_iff value level,
      bracketAtMember?_eq_none_iff members level, Nat.max_le]

end

@[simp] theorem tooDeep?_eq_none_iff (j : Json) : j.tooDeep? = none ↔ j.depth ≤ levelLimit := by
  rw [tooDeep?, Option.map_eq_none_iff, bracketAt?_eq_none_iff]

/-! ## Refusals -/

@[simp] theorem numberRefusal?_eq_none_iff (j : Json) :
    j.numberRefusal? = none ↔ j.unsupported? = none := by
  rw [numberRefusal?, Option.map_eq_none_iff]

mutual

/-- A document without a reason to be refused has finite numbers and is not too deep.  Its parts
    are less deep than it is. -/
@[simp] theorem refusal?_eq_none_iff (j : Json) :
    j.refusal? = none ↔ j.unsupported? = none ∧ j.depth ≤ levelLimit := by
  match j with
  | .null | .bool _ | .int _ | .string _ => simp [refusal?, unsupported?, depth]
  | .float x => simp [refusal?, unsupported?, depth]
  | .array items =>
    rw [refusal?, unsupported?, Option.or_eq_none_iff, refusalOfItem?_eq_none_iff items,
      tooDeep?_eq_none_iff, and_assoc, depth]
    exact and_congr_right fun _ => by omega
  | .object members =>
    rw [refusal?, unsupported?, Option.or_eq_none_iff, refusalOfMember?_eq_none_iff members,
      tooDeep?_eq_none_iff, and_assoc, depth]
    exact and_congr_right fun _ => by omega

@[simp] theorem refusalOfItem?_eq_none_iff (items : List Json) :
    refusalOfItem? items = none ↔
      unsupportedItem? items = none ∧ itemsDepth items ≤ levelLimit := by
  match items with
  | [] => simp [refusalOfItem?, unsupportedItem?, itemsDepth]
  | item :: items =>
    rw [refusalOfItem?, unsupportedItem?, itemsDepth, Option.or_eq_none_iff, Option.or_eq_none_iff,
      refusal?_eq_none_iff item, refusalOfItem?_eq_none_iff items, Nat.max_le]
    exact and_and_and_comm

theorem refusalOfMember?_eq_none_iff (members : List (String × Json)) :
    refusalOfMember? members = none ↔
      unsupportedMember? members = none ∧ membersDepth members ≤ levelLimit := by
  match members with
  | [] => simp [refusalOfMember?, unsupportedMember?, membersDepth]
  | (key, value) :: members =>
    rw [refusalOfMember?, unsupportedMember?, membersDepth, Option.or_eq_none_iff,
      Option.or_eq_none_iff, refusal?_eq_none_iff value, refusalOfMember?_eq_none_iff members,
      Nat.max_le]
    exact and_and_and_comm

end

@[simp] theorem textUnless_eq_ok_iff {refusal : Option Refusal} {text : List Char} {s : String} :
    textUnless refusal text = .ok s ↔ refusal = none ∧ s = String.ofList text := by
  cases refusal with
  | none => simp [textUnless, eq_comm]
  | some r => simp [textUnless]

end StackIr.Json
