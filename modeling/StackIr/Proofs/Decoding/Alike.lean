import StackIr.Proofs.Decoding.Aliases
import StackIr.Proofs.Lowering.VisitOrder

/-! # Nodes that say the same

    `Alike` relates nodes of two documents that are the same but for where they stand and, if the
    order is free, for the order of entries with distinct keys.  Decoding gives the same for both,
    or has no result for both.  If the order is not free it has none for the same reason, and the
    failures are the same but for the lines that they name; otherwise each is that of the first
    member that fails.

    Where aliases stand inside their targets, what two nodes say has no end.  They say the same if
    some assumption on which numbers mean the same is borne out by the nodes that have these
    numbers (`Consistent`).  The values of two such nodes are compared from one side at a time:
    what is found of the first to some depth is found of the second (`Below`). -/

namespace StackIr

/-! ## Outcomes up to lines -/

/-- Failures that differ only in the lines that they name. -/
inductive Failure.UpToLines : Failure → Failure → Prop where
  | refl (f : Failure) : UpToLines f f
  | document {line line' : Option Nat} {problem : String} :
      UpToLines (.cause (.document ⟨line, problem⟩)) (.cause (.document ⟨line', problem⟩))
  | template {line line' : Nat} {problem : Template.Problem} :
      UpToLines (.cause (.template (.at line problem))) (.cause (.template (.at line' problem)))
  | context (note : String) {f g : Failure} : UpToLines f g →
      UpToLines (.context note f) (.context note g)
  | line {line line' : Nat} {f g : Failure} : UpToLines f g →
      UpToLines (.context ("line " ++ Nat.repr line) f) (.context ("line " ++ Nat.repr line') g)

/-- Both fail, with failures that differ only in the lines that they name, or neither ends. -/
inductive Stop.UpToLines : Stop → Stop → Prop where
  | failed {f g : Failure} : f.UpToLines g → UpToLines (.failed f) (.failed g)
  | endless : UpToLines .endless .endless

theorem Stop.UpToLines.refl (stop : Stop) : stop.UpToLines stop := by
  cases stop with
  | failed failure => exact .failed (.refl failure)
  | endless => exact .endless

theorem Stop.UpToLines.context {f g : Stop} (h : f.UpToLines g) (note : String) :
    (f.context note).UpToLines (g.context note) := by
  cases h with
  | failed h => exact .failed (.context note h)
  | endless => exact .endless

/-- Both computations succeed, with results that are related, or neither has a result.  Unless
    the order is free, the reason is the same up to lines. -/
inductive Agree {α β : Type} (free : Bool) (R : α → β → Prop) :
    Except Stop α → Except Stop β → Prop where
  | ok {a : α} {b : β} : R a b → Agree free R (.ok a) (.ok b)
  | error {f g : Stop} : (free = false → f.UpToLines g) → Agree free R (.error f) (.error g)

namespace Agree

variable {α β γ δ : Type} {free : Bool} {R : α → β → Prop} {S : γ → δ → Prop} {x : Except Stop α}
  {y : Except Stop β}

theorem refl (x : Except Stop α) : Agree free Eq x x := by
  cases x with
  | error stop => exact .error fun _ => .refl stop
  | ok a => exact .ok rfl

theorem of_sameOutcome (hfree : free = true) (h : SameOutcome R x y) : Agree free R x y := by
  cases h with
  | ok hab => exact .ok hab
  | error => exact .error fun hbound => absurd (hfree.symm.trans hbound) (by decide)

theorem sameOutcome (h : Agree free R x y) : SameOutcome R x y := by
  cases h with
  | ok hab => exact .ok hab
  | error => exact .error

theorem weaken (h : Agree false R x y) : Agree free R x y := by
  cases h with
  | ok hab => exact .ok hab
  | error hsame => exact .error fun _ => hsame rfl

theorem bind (h : Agree free R x y) {f : α → Except Stop γ} {g : β → Except Stop δ}
    (hf : ∀ a b, R a b → Agree free S (f a) (g b)) : Agree free S (x >>= f) (y >>= g) := by
  cases h with
  | ok hab => exact hf _ _ hab
  | error hsame => exact .error hsame

theorem map (h : Agree free R x y) {f : α → γ} {g : β → δ} (hf : ∀ a b, R a b → S (f a) (g b)) :
    Agree free S (x.map f) (y.map g) := by
  cases h with
  | ok hab => exact .ok (hf _ _ hab)
  | error hsame => exact .error hsame

theorem noting (h : Agree free R x y) (note : String) :
    Agree free R (Stop.noting note x) (Stop.noting note y) := by
  cases h with
  | ok hab => exact .ok hab
  | error hsame => exact .error fun hfree => (hsame hfree).context note

end Agree

/-- If the first computation has a result, so has the second, and the two are related.  Unless
    the order is free, they also fail alike, or the first has not come to an end. -/
inductive Below {α β : Type} (free : Bool) (R : α → β → Prop) :
    Except Stop α → Except Stop β → Prop where
  | ok {a : α} {b : β} : R a b → Below free R (.ok a) (.ok b)
  | error {f g : Stop} : f.UpToLines g → Below free R (.error f) (.error g)
  | unknown {f : Stop} {y : Except Stop β} : (free = false → f = .endless) →
      Below free R (.error f) y

namespace Below

variable {α β γ δ : Type} {free : Bool} {R : α → β → Prop} {S : γ → δ → Prop} {x : Except Stop α}
  {y : Except Stop β}

theorem of_agree (h : Agree false R x y) : Below free R x y := by
  cases h with
  | ok hab => exact .ok hab
  | error hsame => exact .error (hsame rfl)

theorem bind (h : Below free R x y) {f : α → Except Stop γ} {g : β → Except Stop δ}
    (hf : ∀ a b, R a b → Below free S (f a) (g b)) : Below free S (x >>= f) (y >>= g) := by
  cases h with
  | ok hab => exact hf _ _ hab
  | error hsame => exact .error hsame
  | unknown hstop => exact .unknown hstop

theorem map (h : Below free R x y) {f : α → γ} {g : β → δ} (hf : ∀ a b, R a b → S (f a) (g b)) :
    Below free S (x.map f) (y.map g) := by
  cases h with
  | ok hab => exact .ok (hf _ _ hab)
  | error hsame => exact .error hsame
  | unknown hstop => exact .unknown hstop

theorem imp {S : α → β → Prop} (h : Below free R x y) (hS : ∀ a b, R a b → S a b) :
    Below free S x y := by
  cases h with
  | ok hab => exact .ok (hS _ _ hab)
  | error hsame => exact .error hsame
  | unknown hstop => exact .unknown hstop

/-- Where the order is free only results count. -/
theorem of_ok (hfree : free = true) (h : ∀ a, x = .ok a → ∃ b, y = .ok b ∧ R a b) :
    Below free R x y := by
  cases x with
  | error stop => exact .unknown fun hbound => absurd (hfree.symm.trans hbound) (by decide)
  | ok a =>
    obtain ⟨b, rfl, hab⟩ := h a rfl
    exact .ok hab

theorem exists_of_ok {a : α} (h : Below free R (.ok a) y) : ∃ b, y = .ok b ∧ R a b := by
  cases h with
  | ok hab => exact ⟨_, rfl, hab⟩

section trans

variable {T : β → γ → Prop} {U : α → γ → Prop} {z : Except Stop γ}

theorem of_sameOutcome (hfree : free = true) (hxy : SameOutcome R x y) (hyz : Below free T y z)
    (hU : ∀ a b c, R a b → T b c → U a c) : Below free U x z := by
  refine .of_ok hfree ?_
  rintro a rfl
  cases hxy with
  | ok hab =>
    obtain ⟨c, hc, hbc⟩ := hyz.exists_of_ok
    exact ⟨c, hc, hU _ _ _ hab hbc⟩

theorem trans_sameOutcome (hfree : free = true) (hxy : Below free R x y) (hyz : SameOutcome T y z)
    (hU : ∀ a b c, R a b → T b c → U a c) : Below free U x z := by
  refine .of_ok hfree ?_
  rintro a rfl
  obtain ⟨b, rfl, hab⟩ := hxy.exists_of_ok
  cases hyz with
  | ok hbc => exact ⟨_, rfl, hU _ _ _ hab hbc⟩

end trans

/-- Computations that are below each other agree. -/
theorem agree (h : Below free R x y) (h' : Below free (fun b a => R a b) y x) :
    Agree free R x y := by
  cases h with
  | ok hab => exact .ok hab
  | error hsame => exact .error fun _ => hsame
  | unknown hstop =>
    cases h' with
    | error hsame =>
      refine .error fun hbound => ?_
      -- only what does not end is the same as what does not
      cases hstop hbound
      cases hsame
      exact .endless
    | unknown hstop' =>
      refine .error fun hbound => ?_
      cases hstop hbound
      cases hstop' hbound
      exact .endless

end Below

namespace Template

open Yaml (Node Header Comments Scope)

/-- The same problem of two nodes. -/
theorem agree_faultAt {α β : Type} {free : Bool} {R : α → β → Prop} (n n' : Node) (problem : Problem) :
    Agree free R (.error (faultAt n problem)) (.error (faultAt n' problem)) :=
  .error fun _ => .failed .template

/-! ## Nodes that say the same -/

section alike

variable (free : Bool) (scope scope' : Scope) (same : Nat → Nat → Prop)

mutual

/-- Nodes that differ in lines, anchors and comments only, in aliases that stand for a copy, and,
    if the order is free, in the order of entries.  `same` tells which numbers are taken to stand
    for nodes that say the same. -/
inductive AlikeBy : Node → Node → Prop where
  | scalar {h h' : Header} {text : String} : h.tag = h'.tag →
      AlikeBy (.scalar h text) (.scalar h' text)
  | sequence {h h' : Header} {items items' : List Node} : h.tag = h'.tag →
      AlikeItems items items' → AlikeBy (.sequence h items) (.sequence h' items')
  | mapping {h h' : Header} {entries entries' : List (Node × Node)} : h.tag = h'.tag →
      AlikeEntries entries entries' → AlikeBy (.mapping h entries) (.mapping h' entries')
  | aliasLeft {line : Nat} {name : String} {comments : Comments} {target n : Node} :
      AlikeBy target n → AlikeBy (.alias line name comments target) n
  | aliasRight {line : Nat} {name : String} {comments : Comments} {n target : Node} :
      AlikeBy n target → AlikeBy n (.alias line name comments target)
  | enclosingLeft {line : Nat} {name : String} {comments : Comments} {number : Nat} {n : Node} :
      AlikeBy (scope.node number) n → AlikeBy (.selfAlias line name comments number) n
  | enclosingRight {line : Nat} {name : String} {comments : Comments} {number : Nat} {n : Node} :
      AlikeBy n (scope'.node number) → AlikeBy n (.selfAlias line name comments number)
  | enclosing {line line' : Nat} {name name' : String} {comments comments' : Comments}
      {number number' : Nat} : same number number' →
      AlikeBy (.selfAlias line name comments number) (.selfAlias line' name' comments' number')

inductive AlikeItems : List Node → List Node → Prop where
  | nil : AlikeItems [] []
  | cons {n n' : Node} {ns ns' : List Node} : AlikeBy n n' → AlikeItems ns ns' →
      AlikeItems (n :: ns) (n' :: ns')

inductive AlikeEntries : List (Node × Node) → List (Node × Node) → Prop where
  | nil : AlikeEntries [] []
  | cons {key key' n n' : Node} {rest rest' : List (Node × Node)} : key.text = key'.text →
      AlikeBy n n' → AlikeEntries rest rest' → AlikeEntries ((key, n) :: rest) ((key', n') :: rest')
  | permuteLeft {entries middle entries' : List (Node × Node)} : free = true →
      (entries.map fun entry => entry.1.text).Nodup → entries.Perm middle →
      AlikeEntries middle entries' → AlikeEntries entries entries'
  | permuteRight {entries middle entries' : List (Node × Node)} : free = true →
      (entries'.map fun entry => entry.1.text).Nodup → entries'.Perm middle →
      AlikeEntries entries middle → AlikeEntries entries entries'

end

/-- Numbers that are taken to stand for nodes that say the same do so. -/
def Consistent : Prop :=
  ∀ number number', same number number' →
    AlikeBy free scope scope' same (scope.node number) (scope'.node number')

/-- Nodes of two documents that say the same. -/
def Alike (n n' : Node) : Prop :=
  ∃ same, Consistent free scope scope' same ∧ AlikeBy free scope scope' same n n'

end alike

section refl

variable (free : Bool) (scope : Scope)

mutual

theorem AlikeBy.refl (n : Node) : AlikeBy free scope scope Eq n n := by
  match n with
  | .scalar h text => exact .scalar rfl
  | .sequence h items => exact .sequence rfl (AlikeItems.refl items)
  | .mapping h entries => exact .mapping rfl (AlikeEntries.refl entries)
  | .alias line name comments target => exact .aliasLeft (.aliasRight (AlikeBy.refl target))
  | .selfAlias line name comments number => exact .enclosing rfl

theorem AlikeItems.refl (items : List Node) : AlikeItems free scope scope Eq items items := by
  match items with
  | [] => exact .nil
  | n :: ns => exact .cons (AlikeBy.refl n) (AlikeItems.refl ns)

theorem AlikeEntries.refl (entries : List (Node × Node)) :
    AlikeEntries free scope scope Eq entries entries := by
  match entries with
  | [] => exact .nil
  | (key, n) :: rest => exact .cons rfl (AlikeBy.refl n) (AlikeEntries.refl rest)

end

variable {free scope} in
/-- Nodes of one document whose aliases inside their targets are the same. -/
theorem Alike.of_alikeBy {n n' : Node} (h : AlikeBy free scope scope Eq n n') :
    Alike free scope scope n n' :=
  ⟨Eq, fun _ _ hnumber => hnumber ▸ AlikeBy.refl free scope _, h⟩

theorem Alike.refl (n : Node) : Alike free scope scope n n :=
  .of_alikeBy (AlikeBy.refl free scope n)

end refl

section symm

variable {free : Bool} {scope scope' : Scope} {same : Nat → Nat → Prop}

mutual

theorem AlikeBy.symm {n n' : Node} (h : AlikeBy free scope scope' same n n') :
    AlikeBy free scope' scope (fun number' number => same number number') n' n := by
  match h with
  | .scalar htag => exact .scalar htag.symm
  | .sequence htag hitems => exact .sequence htag.symm hitems.symm
  | .mapping htag hentries => exact .mapping htag.symm hentries.symm
  | .aliasLeft htarget => exact .aliasRight htarget.symm
  | .aliasRight htarget => exact .aliasLeft htarget.symm
  | .enclosingLeft hnode => exact .enclosingRight hnode.symm
  | .enclosingRight hnode => exact .enclosingLeft hnode.symm
  | .enclosing hsame => exact .enclosing hsame

theorem AlikeItems.symm {items items' : List Node}
    (h : AlikeItems free scope scope' same items items') :
    AlikeItems free scope' scope (fun number' number => same number number') items' items := by
  match h with
  | .nil => exact .nil
  | .cons hn hns => exact .cons hn.symm hns.symm

theorem AlikeEntries.symm {entries entries' : List (Node × Node)}
    (h : AlikeEntries free scope scope' same entries entries') :
    AlikeEntries free scope' scope (fun number' number => same number number') entries'
      entries := by
  match h with
  | .nil => exact .nil
  | .cons hkey hn hrest => exact .cons hkey.symm hn.symm hrest.symm
  | .permuteLeft hfree hdistinct hperm hrest => exact .permuteRight hfree hdistinct hperm hrest.symm
  | .permuteRight hfree hdistinct hperm hrest => exact .permuteLeft hfree hdistinct hperm hrest.symm

end

theorem Consistent.symm (h : Consistent free scope scope' same) :
    Consistent free scope' scope fun number' number => same number number' :=
  fun number' number hsame => (h number number' hsame).symm

end symm

/-! ### Nodes that are no aliases -/

section direct

variable {free : Bool} {scope scope' : Scope} {same : Nat → Nat → Prop} {n n' : Node}

/-- Nodes that say the same and are no aliases. -/
inductive AlikeDirect (free : Bool) (scope scope' : Scope) (same : Nat → Nat → Prop) :
    Node → Node → Prop where
  | scalar {h h' : Header} {text : String} : h.tag = h'.tag →
      AlikeDirect free scope scope' same (.scalar h text) (.scalar h' text)
  | sequence {h h' : Header} {items items' : List Node} : h.tag = h'.tag →
      AlikeItems free scope scope' same items items' →
      AlikeDirect free scope scope' same (.sequence h items) (.sequence h' items')
  | mapping {h h' : Header} {entries entries' : List (Node × Node)} : h.tag = h'.tag →
      AlikeEntries free scope scope' same entries entries' →
      AlikeDirect free scope scope' same (.mapping h entries) (.mapping h' entries')

theorem AlikeDirect.alikeBy (h : AlikeDirect free scope scope' same n n') :
    AlikeBy free scope scope' same n n' := by
  cases h with
  | scalar htag => exact .scalar htag
  | sequence htag hitems => exact .sequence htag hitems
  | mapping htag hentries => exact .mapping htag hentries

theorem AlikeBy.direct (h : AlikeBy free scope scope' same n n') (hn : Direct n) (hn' : Direct n') :
    AlikeDirect free scope scope' same n n' := by
  cases h with
  | scalar htag => exact .scalar htag
  | sequence htag hitems => exact .sequence htag hitems
  | mapping htag hentries => exact .mapping htag hentries
  | aliasLeft _ => exact hn.elim
  | aliasRight _ => exact hn'.elim
  | enclosingLeft _ => exact hn.elim
  | enclosingRight _ => exact hn'.elim
  | enclosing _ => exact hn.elim

theorem resolve_of_direct (hn : Direct n) : n.resolve scope = n := by
  match n with
  | .scalar h text => rfl
  | .sequence h items => rfl
  | .mapping h entries => rfl

theorem direct_node (scope : Scope) (number : Nat) : Direct (scope.node number) :=
  direct_of_isCollection (scope.collection number).isCollection

@[simp] theorem resolve_node (scope : Scope) (number : Nat) :
    (scope.node number).resolve scope = scope.node number :=
  resolve_of_direct (direct_node scope number)

/-- What two aliases stand for is alike. -/
theorem AlikeBy.resolve (hsame : Consistent free scope scope' same) {n n' : Node}
    (h : AlikeBy free scope scope' same n n') :
    AlikeDirect free scope scope' same (n.resolve scope) (n'.resolve scope') := by
  match h with
  | .scalar htag => exact .scalar htag
  | .sequence htag hitems => exact .sequence htag hitems
  | .mapping htag hentries => exact .mapping htag hentries
  | .aliasLeft htarget => exact htarget.resolve hsame
  | .aliasRight htarget => exact htarget.resolve hsame
  | .enclosingLeft hnode =>
    have hresolved := hnode.resolve hsame
    rwa [resolve_node] at hresolved
  | .enclosingRight hnode =>
    have hresolved := hnode.resolve hsame
    rwa [resolve_node] at hresolved
  | .enclosing hnumbers => exact (hsame _ _ hnumbers).direct (direct_node ..) (direct_node ..)

end direct

/-! ## Values -/

section scalars

variable {free : Bool}

/-- Where a scalar stands matters only for the line of its failure. -/
theorem agree_scalarFault {α : Type} (n n' : Node) (x : Except Yaml.Fault α) :
    Agree free Eq (scalarFault n x) (scalarFault n' x) := by
  cases x with
  | error fault => exact .error fun _ => .failed (.line (.refl _))
  | ok a => exact .ok rfl

theorem agree_scalarValue (n n' : Node) (tag text : String) :
    Agree free Eq (scalarValue n tag text) (scalarValue n' tag text) := by
  unfold scalarValue
  split
  · exact .refl _
  split
  · exact (agree_scalarFault n n' _).map fun _ _ h => by rw [h]
  split
  · exact (agree_scalarFault n n' _).map fun _ _ h => by rw [h]
  split
  · exact (agree_scalarFault n n' _).map fun _ _ h => by rw [h]
  · exact .refl _

theorem agree_shortScalar (n n' : Node) (fn text : String) :
    Agree free Eq (shortScalar n fn text) (shortScalar n' fn text) := by
  unfold shortScalar
  split
  · split
    · exact .refl _
    · exact agree_faultAt n n' _
  · exact .refl _

end scalars

/-- Pairs that make the same fields, whatever fields are there before. -/
def SameFields (pairs pairs' : List (String × Value)) : Prop :=
  ∀ fields, pairs.foldl (fun fields pair => Fields.insert pair.1 pair.2 fields) fields =
    pairs'.foldl (fun fields pair => Fields.insert pair.1 pair.2 fields) fields

theorem SameFields.ofPairs_eq {pairs pairs' : List (String × Value)} (h : SameFields pairs pairs') :
    Value.ofPairs pairs = Value.ofPairs pairs' :=
  congrArg Value.object (h [])

theorem SameFields.symm {pairs pairs' : List (String × Value)} (h : SameFields pairs pairs') :
    SameFields pairs' pairs :=
  fun fields => (h fields).symm

theorem SameFields.trans {first second third : List (String × Value)} (h : SameFields first second)
    (h' : SameFields second third) : SameFields first third :=
  fun fields => (h fields).trans (h' fields)

/-- Entries with distinct keys may be read in any order. -/
theorem sameFields_of_perm (enclosing : Nat → Except Stop Value)
    {entries entries' : List (Node × Node)}
    (hdistinct : (entries.map fun entry => entry.1.text).Nodup) (hperm : entries.Perm entries') :
    SameOutcome SameFields (fieldsWith enclosing entries) (fieldsWith enclosing entries') := by
  rw [fieldsWith_eq_mapM, fieldsWith_eq_mapM]
  -- the pairs are the same in another order, and no key comes twice
  refine (SameOutcome.mapM_perm _ hperm).imp fun pairs pairs' hpairs _ hsame => ?_
  refine Fields.foldl_insert_perm hsame ?_
  rwa [map_fst_of_mapM hpairs]

section values

variable {free : Bool} {scope scope' : Scope} {same : Nat → Nat → Prop}
  {enclosing : Nat → Except Stop Value}

/-- What is found of the values of numbered nodes is found of those of nodes that say the same. -/
def Covered (free : Bool) (scope scope' : Scope) (same : Nat → Nat → Prop)
    (enclosing : Nat → Except Stop Value) : Prop :=
  ∀ number n', AlikeBy free scope scope' same (scope.node number) n' →
    Below free Eq (enclosing number) (decodeValue scope' n')

mutual

theorem AlikeBy.below_valueWith (hsame : Consistent free scope scope' same)
    (hcovered : Covered free scope scope' same enclosing) {n n' : Node}
    (h : AlikeBy free scope scope' same n n') :
    Below free Eq (valueWith enclosing n) (decodeValue scope' n') := by
  match h with
  | .scalar htag =>
    rw [decodeValue, valueWith, valueWith, htag]
    split
    · exact .of_agree (agree_shortScalar ..)
    · exact .of_agree (agree_scalarValue ..)
  | .sequence htag hitems =>
    rw [decodeValue, valueWith, valueWith, htag]
    exact (hitems.below_itemsWith hsame hcovered).map fun _ _ hvs => by rw [hvs]
  | .mapping htag hentries =>
    rw [decodeValue, valueWith, valueWith, htag]
    exact (hentries.below_fieldsWith hsame hcovered).map
      fun _ _ hfields => by rw [hfields.ofPairs_eq]
  | .aliasLeft htarget =>
    rw [valueWith]
    exact htarget.below_valueWith hsame hcovered
  | .aliasRight htarget =>
    rw [decodeValue, valueWith.eq_def (enclosingValue scope') (.alias ..)]
    exact htarget.below_valueWith hsame hcovered
  | .enclosingLeft hnode =>
    rw [valueWith]
    exact hcovered _ _ hnode
  | .enclosingRight hnode =>
    rw [decodeValue_selfAlias]
    exact hnode.below_valueWith hsame hcovered
  | .enclosing hnumbers =>
    rw [valueWith, decodeValue_selfAlias]
    exact hcovered _ _ (hsame _ _ hnumbers)

theorem AlikeItems.below_itemsWith (hsame : Consistent free scope scope' same)
    (hcovered : Covered free scope scope' same enclosing) {items items' : List Node}
    (h : AlikeItems free scope scope' same items items') :
    Below free Eq (itemsWith enclosing items) (itemsWith (enclosingValue scope') items') := by
  match h with
  | .nil => exact .ok rfl
  | .cons hn hns =>
    rw [itemsWith, itemsWith]
    refine (hn.below_valueWith hsame hcovered).bind fun v v' hv => ?_
    refine (hns.below_itemsWith hsame hcovered).bind fun vs vs' hvs => ?_
    rw [hv, hvs]
    exact .ok rfl

theorem AlikeEntries.below_fieldsWith (hsame : Consistent free scope scope' same)
    (hcovered : Covered free scope scope' same enclosing) {entries entries' : List (Node × Node)}
    (h : AlikeEntries free scope scope' same entries entries') :
    Below free SameFields (fieldsWith enclosing entries)
      (fieldsWith (enclosingValue scope') entries') := by
  match h with
  | .nil => exact .ok fun _ => rfl
  | .cons hkey hn hrest =>
    rw [fieldsWith, fieldsWith]
    refine (hn.below_valueWith hsame hcovered).bind fun v v' hv => ?_
    refine (hrest.below_fieldsWith hsame hcovered).bind fun fields fields' hfields => ?_
    rw [hkey, hv]
    exact .ok fun before => hfields _
  | .permuteLeft hfree hdistinct hperm hrest =>
    exact .of_sameOutcome hfree (sameFields_of_perm enclosing hdistinct hperm)
      (hrest.below_fieldsWith hsame hcovered) fun _ _ _ => SameFields.trans
  | .permuteRight hfree hdistinct hperm hrest =>
    have hmoved := (sameFields_of_perm (enclosingValue scope') hdistinct hperm).symm
    exact (hrest.below_fieldsWith hsame hcovered).trans_sameOutcome hfree hmoved
      fun _ _ _ hfields hmoved => hfields.trans hmoved.symm

end

/-- The deeper a value is looked into, the deeper its nodes are. -/
theorem covered_valueWithin (hsame : Consistent free scope scope' same) (depth : Nat) :
    Covered free scope scope' same (valueWithin scope depth) := by
  induction depth with
  | zero => exact fun _ _ _ => .unknown fun _ => rfl
  | succ depth ih => exact fun _ _ hnode => hnode.below_valueWith hsame ih

/-- Nodes that are alike have the same value. -/
theorem Alike.agree_decodeValue {n n' : Node} (h : Alike free scope scope' n n') :
    Agree free Eq (decodeValue scope n) (decodeValue scope' n') := by
  obtain ⟨same, hsame, hn⟩ := h
  have hbelow := hn.below_valueWith hsame (covered_valueWithin hsame (scope.length + 1))
  have habove := hn.symm.below_valueWith hsame.symm
    (covered_valueWithin hsame.symm (scope'.length + 1))
  exact Below.agree hbelow (habove.imp fun _ _ => Eq.symm)

end values

/-! ## Texts -/

section texts

variable {free : Bool} {scope scope' : Scope} {same : Nat → Nat → Prop} {n n' : Node}

theorem AlikeItems.agree_itemTexts (hsame : Consistent free scope scope' same)
    {items items' : List Node} (h : AlikeItems free scope scope' same items items') :
    Agree free Eq (itemTexts scope items) (itemTexts scope' items') := by
  cases h with
  | nil => exact .refl _
  | @cons n n' ns ns' hn hns =>
    have hrest := hns.agree_itemTexts hsame
    have hresolved := hn.resolve hsame
    rw [itemTexts, itemTexts]
    generalize n.resolve scope = m at hresolved ⊢
    generalize n'.resolve scope' = m' at hresolved ⊢
    cases hresolved with
    | scalar _ => exact hrest.map fun _ _ htexts => by rw [htexts]
    | _ => exact agree_faultAt _ _ _

variable (h : Alike free scope scope' n n') (hn : Direct n) (hn' : Direct n')

include h hn hn'

theorem Alike.text_eq : n.text = n'.text := by
  obtain ⟨same, hsame, hby⟩ := h
  cases hby.direct hn hn' with
  | scalar _ => rfl
  | sequence _ _ => rfl
  | mapping _ _ => rfl

theorem Alike.agree_texts : Agree free Eq (texts scope n) (texts scope' n') := by
  obtain ⟨same, hsame, hby⟩ := h
  cases hby.direct hn hn' with
  | scalar _ => exact agree_faultAt _ _ _
  | sequence _ hitems => exact hitems.agree_itemTexts hsame
  | mapping _ _ => exact agree_faultAt _ _ _

theorem Alike.agree_rawText : Agree free Eq (rawText scope n) (rawText scope' n') := by
  obtain ⟨same, hsame, hby⟩ := h
  cases hby.direct hn hn' with
  | scalar _ => exact .refl _
  | sequence _ hitems => exact (hitems.agree_itemTexts hsame).map fun _ _ htexts => by rw [htexts]
  | mapping _ _ => exact agree_faultAt _ _ _

theorem Alike.agree_decodeLeaf : Agree free Eq (decodeLeaf scope n) (decodeLeaf scope' n') := by
  obtain ⟨same, hsame, hby⟩ := h
  cases hby.direct hn hn' with
  | scalar htag =>
    simp only [decodeLeaf, Node.tag, htag]
    split
    · exact (agree_scalarFault _ _ _).map fun _ _ h => by rw [h]
    split
    · exact (agree_scalarFault _ _ _).map fun _ _ h => by rw [h]
    split
    · exact (agree_scalarFault _ _ _).map fun _ _ h => by rw [h]
    split
    · exact .refl _
    · exact agree_faultAt _ _ _
  | sequence _ hitems => exact (hitems.agree_itemTexts hsame).map fun _ _ htexts => by rw [htexts]
  | mapping htag _ =>
    simp only [decodeLeaf, Node.tag, htag]
    exact agree_faultAt _ _ _

end texts

/-! ## Members -/

section members

variable {α : Type} {free : Bool} {scope scope' : Scope} {R : String → Node → Node → Prop}
  {n n' : Node}

/-- Mappings with the same keys in the same order and related values, or no mappings at all. -/
def SameMembers (free : Bool) (scope scope' : Scope) (R : String → Node → Node → Prop)
    (n n' : Node) : Prop :=
  Agree free (List.Forall₂ fun entry entry' => entry.1 = entry'.1 ∧ R entry.1 entry.2 entry'.2)
    (entriesOf scope n) (entriesOf scope' n')

theorem direct_of_entriesOf {entries : List (String × Node)} (h : entriesOf scope n = .ok entries) :
    ∀ entry ∈ entries, Direct entry.2 :=
  fun entry hmem => (direct_of_mem_entriesOf (keysAgree_false scope n) h entry hmem).1

/-- A decoder that reads the members of a mapping one after the other has the same outcome on
    two mappings if each of its steps does. -/
theorem SameMembers.agree_foldMembers (h : SameMembers free scope scope' R n n')
    {member member' : α → String → Node → Except Stop α}
    (hmember : ∀ state key m m', Direct m → Direct m' → R key m m' →
      Agree free Eq (member state key m) (member' state key m')) (start : α) :
    Agree free Eq (foldMembers scope n member start) (foldMembers scope' n' member' start) := by
  have hdirect := @direct_of_entriesOf scope n
  have hdirect' := @direct_of_entriesOf scope' n'
  unfold SameMembers at h
  unfold foldMembers
  generalize entriesOf scope n = read at h hdirect ⊢
  generalize entriesOf scope' n' = read' at h hdirect' ⊢
  cases h with
  | error hsame => exact .error hsame
  | @ok entries entries' hall =>
    have hentry := hdirect rfl
    have hentry' := hdirect' rfl
    clear hdirect hdirect'
    show Agree free Eq (entries.foldlM _ start) (entries'.foldlM _ start)
    -- the state so far is the same on both sides, and the next member keeps it so
    induction hall generalizing start with
    | nil => exact .refl _
    | @cons entry entry' rest rest' hfirst _ ih =>
      obtain ⟨key, m⟩ := entry
      obtain ⟨key', m'⟩ := entry'
      obtain ⟨rfl, hm⟩ := hfirst
      obtain ⟨hone, hrest⟩ := List.forall_mem_cons.1 hentry
      obtain ⟨hone', hrest'⟩ := List.forall_mem_cons.1 hentry'
      rw [List.foldlM_cons, List.foldlM_cons]
      refine (hmember start key m m' hone hone' hm).bind fun state state' hstate => ?_
      rw [hstate]
      exact ih state' hrest hrest'

theorem AlikeEntries.forall₂ {same : Nat → Nat → Prop} (hsame : Consistent false scope scope' same)
    {entries entries' : List (Node × Node)}
    (h : AlikeEntries false scope scope' same entries entries') :
    List.Forall₂ (fun entry entry' =>
        entry.1 = entry'.1 ∧ Alike false scope scope' entry.2 entry'.2)
      (entries.map fun entry => (entry.1.text, entry.2.resolve scope))
      (entries'.map fun entry => (entry.1.text, entry.2.resolve scope')) := by
  match h with
  | .nil => exact .nil
  | .cons hkey hn hrest =>
    exact .cons ⟨hkey, same, hsame, (hn.resolve hsame).alikeBy⟩ (hrest.forall₂ hsame)

/-- Where the order is not free, a mapping has the same members. -/
theorem Alike.sameMembers (h : Alike false scope scope' n n') :
    SameMembers false scope scope' (fun _ => Alike false scope scope') n n' := by
  obtain ⟨same, hsame, hby⟩ := h
  have hresolved := hby.resolve hsame
  unfold SameMembers entriesOf
  generalize n.resolve scope = m at hresolved ⊢
  generalize n'.resolve scope' = m' at hresolved ⊢
  cases hresolved with
  | mapping _ hentries => exact .ok (hentries.forall₂ hsame)
  | _ => exact agree_faultAt _ _ _

theorem SameMembers.imp {S : String → Node → Node → Prop} (h : SameMembers free scope scope' R n n')
    (hS : ∀ key m m', R key m m' → S key m m') : SameMembers free scope scope' S n n' := by
  unfold SameMembers at h ⊢
  generalize entriesOf scope n = read at h ⊢
  generalize entriesOf scope' n' = read' at h ⊢
  cases h with
  | ok hall => exact .ok (hall.imp fun _ _ hentry => ⟨hentry.1, hS _ _ _ hentry.2⟩)
  | error hsame => exact .error hsame

end members

/-! ## Declarations -/

section declarations

variable {free : Bool} {scope scope' : Scope} {n n' : Node}

theorem Alike.agree_parameterMember (h : Alike free scope scope' n n') (hn : Direct n)
    (hn' : Direct n')
    (p : Parameter) (key : String) :
    Agree free Eq (parameterMember scope p key n) (parameterMember scope' p key n') := by
  unfold parameterMember
  rw [h.text_eq hn hn']
  split
  · exact .refl _
  split
  · exact .refl _
  split
  · exact (h.agree_rawText hn hn').map fun _ _ htext => by rw [htext]
  split
  · exact (h.agree_texts hn hn').map fun _ _ htexts => by rw [htexts]
  split
  · split
    · exact .refl _
    · exact agree_faultAt _ _ _
  · exact .refl _

theorem Alike.agree_resourceMember (h : Alike free scope scope' n n') (hn : Direct n)
    (hn' : Direct n')
    (r : Resource) (key : String) :
    Agree free Eq (resourceMember scope r key n) (resourceMember scope' r key n') := by
  unfold resourceMember
  rw [h.text_eq hn hn']
  split
  · exact .refl _
  split
  · refine h.agree_decodeValue.bind fun v v' hv => ?_
    rw [hv]
    split
    · exact .refl _
    · exact .refl _
    · exact agree_faultAt _ _ _
  split
  · have htexts := (h.agree_texts hn hn').map (S := Eq)
      (f := fun names => { r with dependsOn := some names })
      (g := fun names => { r with dependsOn := some names }) fun _ _ hnames => by rw [hnames]
    obtain ⟨same, hsame, hby⟩ := h
    -- a scalar names one dependency and never fails; all other nodes are read as lists of texts
    cases hby.direct hn hn' with
    | scalar _ => exact .refl _
    | _ => exact htexts
  · exact .refl _

theorem Alike.agree_exportMember (h : Alike free scope scope' n n') (o : Output) (key : String) :
    Agree free Eq (exportMember scope o key n) (exportMember scope' o key n') := by
  unfold exportMember
  split
  · exact h.agree_decodeValue.map fun _ _ hv => by rw [hv]
  · exact .refl _

/-- How the members of an output are related: the order may be free in the values of the output
    and of its export. -/
def OutputAlike (free : Bool) (scope scope' : Scope) (key : String) (n n' : Node) : Prop :=
  if key = "Export" then SameMembers free scope scope' (fun _ => Alike free scope scope') n n'
  else Alike free scope scope' n n'

theorem Alike.outputAlike (h : Alike false scope scope' n n') (key : String) :
    OutputAlike false scope scope' key n n' := by
  unfold OutputAlike
  split
  · exact h.sameMembers
  · exact h

theorem OutputAlike.agree_outputMember {key : String} (h : OutputAlike free scope scope' key n n')
    (hn : Direct n) (hn' : Direct n') (state : Output × Bool) :
    Agree free Eq (outputMember scope state key n) (outputMember scope' state key n') := by
  obtain ⟨o, hasValue⟩ := state
  unfold OutputAlike at h
  split at h
  · rename_i hkey
    subst hkey
    rw [outputMember_export, outputMember_export]
    refine (h.agree_foldMembers (fun o key m m' _ _ hm =>
      hm.agree_exportMember o key) o).bind fun o o' ho => ?_
    rw [ho]
    exact .refl _
  · rename_i hkey
    unfold outputMember
    dsimp only
    rw [if_neg hkey, if_neg hkey, h.text_eq hn hn']
    split
    · exact h.agree_decodeValue.map fun _ _ hv => by rw [hv]
    · exact .refl _

theorem Alike.agree_decodeParameter (h : Alike false scope scope' n n') (name : String) :
    Agree false Eq (decodeParameter scope name n) (decodeParameter scope' name n') := by
  have hmembers := h.sameMembers.agree_foldMembers (fun p key m m' hm hm' halike =>
    halike.agree_parameterMember hm hm' p key) {}
  refine (hmembers.noting _).bind fun p p' hp => ?_
  rw [hp]
  split
  · exact agree_faultAt _ _ _
  · exact .refl _

theorem SameMembers.agree_decodeResource
    (h : SameMembers free scope scope' (fun _ => Alike free scope scope') n n') (name : String) :
    Agree free Eq (decodeResource scope name n) (decodeResource scope' name n') := by
  have hmembers := h.agree_foldMembers (fun r key m m' hm hm' halike =>
    halike.agree_resourceMember hm hm' r key) {}
  refine (hmembers.noting _).bind fun r r' hr => ?_
  rw [hr]
  split
  · exact agree_faultAt _ _ _
  · exact .refl _

theorem SameMembers.agree_decodeOutput
    (h : SameMembers free scope scope' (OutputAlike free scope scope') n n') (name : String) :
    Agree free Eq (decodeOutput scope name n) (decodeOutput scope' name n') := by
  have hmembers := h.agree_foldMembers (fun state _ m m' hm hm' hmember =>
    hmember.agree_outputMember hm hm' state) ({}, false)
  refine (hmembers.noting _).bind fun state state' hstate => ?_
  rw [hstate]
  obtain ⟨o, hasValue⟩ := state'
  dsimp only
  split
  · exact agree_faultAt _ _ _
  · exact .refl _

theorem Alike.agree_decodeCondition (h : Alike free scope scope' n n') (name : String) :
    Agree free Eq (decodeCondition scope name n) (decodeCondition scope' name n') :=
  h.agree_decodeValue.noting _

theorem Alike.agree_decodeRow (h : Alike false scope scope' n n') (table : LookupTable)
    (outer : String) :
    Agree false Eq (decodeRow scope table outer n) (decodeRow scope' table outer n') := by
  have hstep : ∀ (table : LookupTable) (inner : String) (m m' : Node), Direct m → Direct m' →
      Alike false scope scope' m m' →
      Agree false Eq
        (Stop.noting (outer ++ "." ++ inner) (decodeLeaf scope m) >>= fun v =>
          pure (table.set outer inner v))
        (Stop.noting (outer ++ "." ++ inner) (decodeLeaf scope' m') >>= fun v =>
          pure (table.set outer inner v)) := by
    intro table inner m m' hm hm' halike
    refine ((halike.agree_decodeLeaf hm hm').noting _).bind fun v v' hv => ?_
    rw [hv]
    exact .refl _
  exact h.sameMembers.agree_foldMembers hstep (table.addOuter outer)

theorem Alike.agree_decodeTable (h : Alike false scope scope' n n') (name : String) :
    Agree false Eq (decodeTable scope name n) (decodeTable scope' name n') :=
  (h.sameMembers.agree_foldMembers (fun table outer _ _ _ _ halike =>
    halike.agree_decodeRow table outer) _).noting _

end declarations

/-! ## Templates -/

section templates

variable {α : Type} {free : Bool} {scope scope' : Scope} {R : String → Node → Node → Prop}
  {n n' root root' : Node}

theorem SameMembers.agree_decodeSection (h : SameMembers free scope scope' R n n')
    {decode decode' : String → Node → Except Stop α}
    (hdecode : ∀ name m m', R name m m' → Agree free Eq (decode name m) (decode' name m'))
    (s : Section α) : Agree free Eq (decodeSection scope decode s n)
      (decodeSection scope' decode' s n') := by
  rw [decodeSection_eq, decodeSection_eq]
  refine (h.agree_foldMembers (fun declared name m m' _ _ hm => ?_) _).bind
    fun declared declared' hdeclared => ?_
  · refine (hdecode name m m' hm).bind fun a a' ha => ?_
    rw [ha]
    exact .refl _
  · rw [hdeclared]
    exact .refl _

/-- How the entries of a template are related.  The order may be free in conditions, below the
    members of resources, and in the values of outputs and of their exports. -/
def EntryAlike (free : Bool) (scope scope' : Scope) (key : String) (n n' : Node) : Prop :=
  if key = "Conditions" then SameMembers free scope scope' (fun _ => Alike free scope scope') n n'
  else if key = "Resources" then
    SameMembers free scope scope'
      (fun _ => SameMembers free scope scope' fun _ => Alike free scope scope') n n'
  else if key = "Outputs" then
    SameMembers free scope scope'
      (fun _ => SameMembers free scope scope' (OutputAlike free scope scope')) n n'
  else Alike false scope scope' n n'

theorem Alike.entryAlike (h : Alike false scope scope' n n') (key : String) :
    EntryAlike false scope scope' key n n' := by
  unfold EntryAlike
  split
  · exact h.sameMembers
  split
  · exact h.sameMembers.imp fun _ _ _ hm => hm.sameMembers
  split
  · exact h.sameMembers.imp fun _ _ _ hm => hm.sameMembers.imp fun key _ _ hmember =>
      hmember.outputAlike key
  · exact h

theorem EntryAlike.agree_decodeEntry {key : String} (h : EntryAlike free scope scope' key n n')
    (hn : Direct n) (hn' : Direct n') (t : Template) :
    Agree free Eq (decodeEntry scope t key n) (decodeEntry scope' t key n') := by
  unfold EntryAlike at h
  unfold decodeEntry
  -- three sections have entries of their own kind of relation; the others are alike as they stand
  by_cases hconditions : key = "Conditions"
  · rw [if_pos hconditions] at h
    subst hconditions
    simp only [String.reduceEq, ↓reduceIte]
    exact ((h.agree_decodeSection (fun name _ _ hm => hm.agree_decodeCondition name)
      t.conditions).map fun _ _ hs => by rw [hs]).noting _
  by_cases hresources : key = "Resources"
  · rw [if_neg hconditions, if_pos hresources] at h
    subst hresources
    simp only [String.reduceEq, ↓reduceIte]
    exact ((h.agree_decodeSection (fun name _ _ hm => hm.agree_decodeResource name)
      t.resources).map fun _ _ hs => by rw [hs]).noting _
  by_cases houtputs : key = "Outputs"
  · rw [if_neg hconditions, if_neg hresources, if_pos houtputs] at h
    subst houtputs
    simp only [String.reduceEq, ↓reduceIte]
    exact ((h.agree_decodeSection (fun name _ _ hm => hm.agree_decodeOutput name)
      t.outputs).map fun _ _ hs => by rw [hs]).noting _
  rw [if_neg hconditions, if_neg hresources, if_neg houtputs] at h
  simp only [h.text_eq hn hn', if_neg hconditions, if_neg hresources, if_neg houtputs]
  split
  · exact .refl _
  refine Agree.noting (Agree.weaken ?_) _
  split
  · exact (h.sameMembers.agree_decodeSection
      (fun name _ _ hm => hm.agree_decodeParameter name) t.parameters).map
        fun _ _ hs => by rw [hs]
  split
  · exact (h.sameMembers.agree_decodeSection
      (fun name _ _ hm => hm.agree_decodeTable name) t.mappings).map
        fun _ _ hs => by rw [hs]
  · exact .refl _

/-- A template is read like the members of a declaration. -/
theorem SameMembers.agree_template
    (h : SameMembers free scope scope' (EntryAlike free scope scope') root root') :
    Agree free Eq (foldMembers scope root (decodeEntry scope) Template.blank)
      (foldMembers scope' root' (decodeEntry scope') Template.blank) :=
  h.agree_foldMembers (fun t _ _ _ hm hm' hmember => hmember.agree_decodeEntry hm hm' t) Template.blank

theorem parse_of_ofBytes? {bytes : List UInt8} {document : Yaml.Document}
    (h : Yaml.Document.ofBytes? bytes = .ok (some document)) :
    parse bytes = ofNode document.scope document.root := by
  unfold parse
  -- the reader is never run here
  generalize Yaml.Document.ofBytes? bytes = read at h ⊢
  subst h
  rfl

theorem parse_of_ofBytes?_error {bytes : List UInt8} {fault : Yaml.Fault}
    (h : Yaml.Document.ofBytes? bytes = .error fault) :
    parse bytes =
      .error (.failed (.context "could not parse template" (.cause (.document fault)))) := by
  unfold parse
  generalize Yaml.Document.ofBytes? bytes = read at h ⊢
  subst h
  rfl

end templates

end Template

end StackIr
