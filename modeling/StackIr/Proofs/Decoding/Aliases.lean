import StackIr.Proofs.Decoding.ShortForms

/-! # Aliases

    An alias stands for the node that it refers to.  `inline` puts a copy of that node in place
    of every alias, and decoding a template does not see the difference, not even in its
    failures.  Only the aliases inside their targets stay, since a copy would have them again.

    Keys are the exception.  The text of a key is taken from the key itself, and the text of an
    alias is its name.  A template with an alias for a key is read as if the name stood there,
    so copies may take the place of such aliases only where they have that text. -/

namespace StackIr.Template

open Yaml (Node Header Scope)

/-! ## Copies in place of aliases -/

mutual

/-- A node with a copy of its target in place of every alias.  Keys are left as they are unless
    `keys` holds. -/
def inline (keys : Bool) : Node → Node
  | .scalar h text => .scalar h text
  | .sequence h items => .sequence h (inlineItems keys items)
  | .mapping h entries => .mapping h (inlineEntries keys entries)
  | .alias _ _ _ target => inline keys target
  | .selfAlias line name comments number => .selfAlias line name comments number

def inlineItems (keys : Bool) : List Node → List Node
  | [] => []
  | n :: ns => inline keys n :: inlineItems keys ns

def inlineEntries (keys : Bool) : List (Node × Node) → List (Node × Node)
  | [] => []
  | (key, n) :: rest =>
    (if keys then inline keys key else key, inline keys n) :: inlineEntries keys rest

end

theorem isCollection_inline (keys : Bool) (n : Node) (hn : n.isCollection = true) :
    (inline keys n).isCollection = true := by
  match n with
  | .sequence h items => rfl
  | .mapping h entries => rfl

/-- A scope with copies in place of aliases. -/
def inlineScope (keys : Bool) : Scope → Scope :=
  mapNodes (isCollection_inline keys)

@[simp] theorem node_inlineScope (keys : Bool) (scope : Scope) (number : Nat) :
    (inlineScope keys scope).node number = inline keys (scope.node number) :=
  node_mapNodes (isCollection_inline keys) rfl scope number

/-- A node that is no alias. -/
def Direct : Node → Prop
  | .alias .. => False
  | .selfAlias .. => False
  | _ => True

theorem direct_of_isCollection {n : Node} (hn : n.isCollection = true) : Direct n := by
  match n with
  | .sequence h items => trivial
  | .mapping h entries => trivial

theorem direct_resolve (scope : Scope) (n : Node) : Direct (n.resolve scope) := by
  cases n with
  | scalar h text => trivial
  | sequence h items => trivial
  | mapping h entries => trivial
  | «alias» line name comments target => exact direct_resolve scope target
  | selfAlias line name comments number =>
    exact direct_of_isCollection (scope.collection number).isCollection

/-- At the end of all aliases stands a copy of what stood there. -/
@[simp] theorem resolve_inline (keys : Bool) (scope : Scope) (n : Node) :
    (inline keys n).resolve (inlineScope keys scope) = inline keys (n.resolve scope) := by
  cases n with
  | scalar h text => rfl
  | sequence h items => rfl
  | mapping h entries => rfl
  | «alias» line name comments target =>
    rw [inline, Node.resolve]
    exact resolve_inline keys scope target
  | selfAlias line name comments number => exact node_inlineScope keys scope number

theorem text_inline (keys : Bool) {n : Node} (hn : Direct n) : (inline keys n).text = n.text := by
  match n with
  | .scalar h text => rfl
  | .sequence h items => rfl
  | .mapping h entries => rfl

theorem faultAt_inline (keys : Bool) {n : Node} (hn : Direct n) (problem : Problem) :
    faultAt (inline keys n) problem = faultAt n problem := by
  match n with
  | .scalar h text => rfl
  | .sequence h items => rfl
  | .mapping h entries => rfl

/-! ## Keys -/

/-- If copies are put in place of keys, every key of a mapping that decoding comes to has the
    text of its copy. -/
def KeysAgree (scope : Scope) (keys : Bool) (n : Node) : Prop :=
  ∀ h entries, Reached scope (.mapping h entries) n →
    ∀ key value, (key, value) ∈ entries → keys = true → (inline keys key).text = key.text

namespace KeysAgree

variable {scope : Scope} {keys : Bool}

theorem of_item {h : Header} {items : List Node}
    (hkeys : KeysAgree scope keys (.sequence h items)) : ∀ n ∈ items, KeysAgree scope keys n :=
  fun _ hmem header entries hreached => hkeys header entries (.item hmem hreached)

theorem of_value {h : Header} {entries : List (Node × Node)}
    (hkeys : KeysAgree scope keys (.mapping h entries)) :
    ∀ key n, (key, n) ∈ entries → KeysAgree scope keys n :=
  fun _ _ hmem header entries hreached => hkeys header entries (.value hmem hreached)

theorem of_target {line : Nat} {name : String} {comments : Yaml.Comments} {n : Node}
    (hkeys : KeysAgree scope keys (.alias line name comments n)) : KeysAgree scope keys n :=
  fun header entries hreached => hkeys header entries (.target hreached)

theorem of_enclosing {line : Nat} {name : String} {comments : Yaml.Comments} {number : Nat}
    (hkeys : KeysAgree scope keys (.selfAlias line name comments number)) :
    KeysAgree scope keys (scope.node number) :=
  fun header entries hreached => hkeys header entries (.enclosing hreached)

theorem resolve {n : Node} (hkeys : KeysAgree scope keys n) :
    KeysAgree scope keys (n.resolve scope) := by
  match n with
  | .scalar h text => exact hkeys
  | .sequence h items => exact hkeys
  | .mapping h entries => exact hkeys
  | .alias line name comments target => exact hkeys.of_target.resolve
  | .selfAlias line name comments number => exact hkeys.of_enclosing

/-- The text of a key stays the same. -/
theorem text_key {key : Node} (h : keys = true → (inline keys key).text = key.text) :
    (if keys then inline keys key else key).text = key.text := by
  split
  · exact h ‹_›
  · rfl

end KeysAgree

/-- Where keys are left alone nothing is asked of them. -/
theorem keysAgree_false (scope : Scope) (n : Node) : KeysAgree scope false n :=
  fun _ _ _ _ _ _ hkeys => absurd hkeys (by decide)

variable {scope : Scope} {keys : Bool}

/-! ## Values -/

section values

variable {enclosing enclosing' : Nat → Except Stop Value}

mutual

theorem valueWith_inline
    (henclosing : ∀ number, KeysAgree scope keys (scope.node number) →
      enclosing' number = enclosing number) (n : Node) (h : KeysAgree scope keys n) :
    valueWith enclosing' (inline keys n) = valueWith enclosing n := by
  match n with
  | .scalar header text => rw [inline, valueWith, valueWith]
  | .sequence header items =>
    rw [inline, valueWith, valueWith, itemsWith_inline henclosing items h.of_item]
  | .mapping header entries =>
    have hkeys := h header entries .self
    rw [inline, valueWith, valueWith, fieldsWith_inline henclosing entries h.of_value hkeys]
  | .alias line name comments target =>
    rw [inline, valueWith]
    exact valueWith_inline henclosing target h.of_target
  | .selfAlias line name comments number =>
    rw [inline, valueWith, valueWith]
    exact henclosing number h.of_enclosing

theorem itemsWith_inline
    (henclosing : ∀ number, KeysAgree scope keys (scope.node number) →
      enclosing' number = enclosing number) (items : List Node)
    (h : ∀ n ∈ items, KeysAgree scope keys n) :
    itemsWith enclosing' (inlineItems keys items) = itemsWith enclosing items := by
  match items with
  | [] => rfl
  | n :: ns =>
    obtain ⟨hn, hns⟩ := List.forall_mem_cons.1 h
    rw [inlineItems, itemsWith, itemsWith, valueWith_inline henclosing n hn,
      itemsWith_inline henclosing ns hns]

theorem fieldsWith_inline
    (henclosing : ∀ number, KeysAgree scope keys (scope.node number) →
      enclosing' number = enclosing number) (entries : List (Node × Node))
    (h : ∀ key n, (key, n) ∈ entries → KeysAgree scope keys n)
    (hkeys : ∀ key n, (key, n) ∈ entries → keys = true → (inline keys key).text = key.text) :
    fieldsWith enclosing' (inlineEntries keys entries) = fieldsWith enclosing entries := by
  match entries with
  | [] => rfl
  | (key, n) :: rest =>
    have hn : KeysAgree scope keys n := h key n (List.mem_cons_self ..)
    have hkey := KeysAgree.text_key (hkeys key n (List.mem_cons_self ..))
    have hrest := fieldsWith_inline henclosing rest
      (fun k m hmem => h k m (List.mem_cons_of_mem _ hmem))
      (fun k m hmem => hkeys k m (List.mem_cons_of_mem _ hmem))
    rw [inlineEntries, fieldsWith, fieldsWith, valueWith_inline henclosing n hn, hrest, hkey]

end

end values

theorem valueWithin_inline (depth number : Nat) (h : KeysAgree scope keys (scope.node number)) :
    valueWithin (inlineScope keys scope) depth number = valueWithin scope depth number := by
  induction depth generalizing number with
  | zero => rfl
  | succ depth ih =>
    rw [valueWithin, valueWithin, node_inlineScope]
    exact valueWith_inline ih _ h

theorem decodeValue_inline (n : Node) (h : KeysAgree scope keys n) :
    decodeValue (inlineScope keys scope) (inline keys n) = decodeValue scope n := by
  refine valueWith_inline (fun number hnumber => ?_) n h
  rw [enclosingValue, enclosingValue, inlineScope, length_mapNodes]
  exact valueWithin_inline _ number hnumber

/-! ## Texts -/

@[simp] theorem itemTexts_inlineItems (items : List Node) :
    itemTexts (inlineScope keys scope) (inlineItems keys items) = itemTexts scope items := by
  induction items with
  | nil => rfl
  | cons n ns ih =>
    rw [inlineItems, itemTexts, itemTexts, resolve_inline, ih]
    -- an item is no alias any more, and a copy of what it stands for
    have hdirect := direct_resolve scope n
    generalize n.resolve scope = direct at hdirect
    cases direct with
    | scalar h text => rfl
    | sequence h items => rfl
    | mapping h entries => rfl
    | «alias» line name comments target => cases hdirect
    | selfAlias line name comments number => cases hdirect

/-- A decoder of direct nodes that does not see aliases. -/
def Transparent {α : Type} (scope : Scope) (keys : Bool) (decode : Scope → Node → α) : Prop :=
  ∀ n, Direct n → KeysAgree scope keys n →
    decode (inlineScope keys scope) (inline keys n) = decode scope n

theorem transparent_texts : Transparent scope keys texts := by
  intro n hn _
  match n with
  | .scalar h text => rfl
  | .sequence h items => exact itemTexts_inlineItems items
  | .mapping h entries => rfl

theorem transparent_rawText : Transparent scope keys rawText := by
  intro n hn _
  match n with
  | .scalar h text => rfl
  | .sequence h items => rw [inline, rawText, rawText, itemTexts_inlineItems]
  | .mapping h entries => rfl

theorem transparent_decodeLeaf : Transparent scope keys decodeLeaf := by
  intro n hn _
  match n with
  | .scalar h text => rfl
  | .sequence h items =>
    show (itemTexts _ (inlineItems keys items)).map _ = (itemTexts scope items).map _
    rw [itemTexts_inlineItems]
  | .mapping h entries => rfl

/-! ## Entries -/

theorem map_inlineEntries (entries : List (Node × Node))
    (hkeys : ∀ key n, (key, n) ∈ entries → keys = true → (inline keys key).text = key.text) :
    (inlineEntries keys entries).map
        (fun entry => (entry.1.text, entry.2.resolve (inlineScope keys scope))) =
      (entries.map fun entry => (entry.1.text, entry.2.resolve scope)).map
        fun entry => (entry.1, inline keys entry.2) := by
  induction entries with
  | nil => rfl
  | cons entry rest ih =>
    obtain ⟨key, value⟩ := entry
    have hkey := KeysAgree.text_key (hkeys key value (List.mem_cons_self ..))
    have hrest := ih fun k m hmem => hkeys k m (List.mem_cons_of_mem _ hmem)
    rw [inlineEntries, List.map_cons, hrest, hkey, resolve_inline]
    rfl

/-- The entries of a mapping have the same keys, and copies for values. -/
theorem entriesOf_inline (n : Node) (h : KeysAgree scope keys n) :
    entriesOf (inlineScope keys scope) (inline keys n) =
      (entriesOf scope n).map (List.map fun entry => (entry.1, inline keys entry.2)) := by
  have hdirect := direct_resolve scope n
  have hresolved := h.resolve
  unfold entriesOf
  rw [resolve_inline]
  match n.resolve scope, hdirect, hresolved with
  | .scalar header text, _, _ => rfl
  | .sequence header items, _, _ => rfl
  | .mapping header entries, _, hresolved =>
    exact congrArg Except.ok (map_inlineEntries entries (hresolved header entries .self))

theorem direct_of_mem_entriesOf {n : Node} (h : KeysAgree scope keys n)
    {entries : List (String × Node)} (hentries : entriesOf scope n = .ok entries) :
    ∀ entry ∈ entries, Direct entry.2 ∧ KeysAgree scope keys entry.2 := by
  unfold entriesOf at hentries
  have hresolved := h.resolve
  split at hentries
  · rename_i header nodes hmapping
    rw [hmapping] at hresolved
    cases hentries
    intro entry hmem
    obtain ⟨⟨key, value⟩, hvalue, rfl⟩ := List.mem_map.1 hmem
    exact ⟨direct_resolve scope value, (hresolved.of_value key value hvalue).resolve⟩
  · cases hentries

/-- A decoder that reads the members of a mapping one after the other does not see aliases if
    none of its steps does. -/
theorem foldMembers_inline {α : Type} (member : Scope → α → String → Node → Except Stop α)
    (hmember : ∀ state key, Transparent scope keys fun scope => member scope state key) {n : Node}
    (h : KeysAgree scope keys n) (start : α) :
    foldMembers (inlineScope keys scope) (inline keys n) (member (inlineScope keys scope)) start =
      foldMembers scope n (member scope) start := by
  unfold foldMembers
  rw [entriesOf_inline n h]
  cases hentries : entriesOf scope n with
  | error stop => rfl
  | ok entries =>
    have hdirect := direct_of_mem_entriesOf h hentries
    -- the entries are read from the front; the state that a member leaves is the start of the rest
    clear hentries
    show List.foldlM _ start (entries.map _) = List.foldlM _ start entries
    induction entries generalizing start with
    | nil => rfl
    | cons entry rest ih =>
      obtain ⟨hentry, hrest⟩ := List.forall_mem_cons.1 hdirect
      have hfirst := hmember start entry.1 entry.2 hentry.1 hentry.2
      rw [List.map_cons, List.foldlM_cons, List.foldlM_cons]
      dsimp only at hfirst ⊢
      rw [hfirst]
      congr 1
      funext state
      exact ih state hrest

/-! ## Declarations -/

theorem transparent_parameterMember (p : Parameter) (key : String) :
    Transparent scope keys fun scope => parameterMember scope p key := by
  intro n hn h
  dsimp only [parameterMember]
  rw [text_inline keys hn, transparent_rawText n hn h, transparent_texts n hn h,
    faultAt_inline keys hn]

theorem transparent_resourceMember (r : Resource) (key : String) :
    Transparent scope keys fun scope => resourceMember scope r key := by
  intro n hn h
  dsimp only [resourceMember]
  rw [text_inline keys hn, decodeValue_inline n h, transparent_texts n hn h, faultAt_inline keys hn]
  match n with
  | .scalar header text => rfl
  | .sequence header items => rfl
  | .mapping header entries => rfl

theorem transparent_exportMember (o : Output) (key : String) :
    Transparent scope keys fun scope => exportMember scope o key := by
  intro n hn h
  dsimp only [exportMember]
  rw [decodeValue_inline n h]

/-- The members of an export are read like those of a declaration. -/
theorem outputMember_export (o : Output) (hasValue : Bool) (n : Node) :
    outputMember scope (o, hasValue) "Export" n =
      foldMembers scope n (exportMember scope) o >>= fun o => pure (o, hasValue) := by
  rw [foldMembers, bind_assoc]
  rfl

theorem transparent_outputMember (state : Output × Bool) (key : String) :
    Transparent scope keys fun scope => outputMember scope state key := by
  intro n hn h
  obtain ⟨o, hasValue⟩ := state
  -- an export is read like a declaration of its own, all other members at once
  dsimp only
  by_cases hkey : key = "Export"
  · subst hkey
    rw [outputMember_export, outputMember_export,
      foldMembers_inline exportMember transparent_exportMember h]
  · unfold outputMember
    dsimp only
    rw [if_neg hkey, if_neg hkey, text_inline keys hn, decodeValue_inline n h]

theorem transparent_decodeParameter (name : String) :
    Transparent scope keys fun scope => decodeParameter scope name := by
  intro n hn h
  dsimp only [decodeParameter]
  rw [foldMembers_inline parameterMember transparent_parameterMember h, faultAt_inline keys hn]

theorem transparent_decodeResource (name : String) :
    Transparent scope keys fun scope => decodeResource scope name := by
  intro n hn h
  dsimp only [decodeResource]
  rw [foldMembers_inline resourceMember transparent_resourceMember h, faultAt_inline keys hn]

theorem transparent_decodeOutput (name : String) :
    Transparent scope keys fun scope => decodeOutput scope name := by
  intro n hn h
  dsimp only [decodeOutput]
  rw [foldMembers_inline outputMember transparent_outputMember h, faultAt_inline keys hn]

theorem transparent_decodeCondition (name : String) :
    Transparent scope keys fun scope => decodeCondition scope name := by
  intro n _ h
  dsimp only [decodeCondition]
  rw [decodeValue_inline n h]

theorem transparent_decodeRow (table : LookupTable) (outer : String) :
    Transparent scope keys fun scope => decodeRow scope table outer := by
  intro n _ h
  refine foldMembers_inline (fun scope (table : LookupTable) inner leaf =>
    Stop.noting (outer ++ "." ++ inner) (decodeLeaf scope leaf) >>= fun v =>
      pure (table.set outer inner v)) (fun table inner leaf hleaf hkeys => ?_) h _
  dsimp only
  rw [transparent_decodeLeaf leaf hleaf hkeys]

theorem transparent_decodeTable (name : String) :
    Transparent scope keys fun scope => decodeTable scope name := by
  intro n _ h
  dsimp only [decodeTable]
  rw [foldMembers_inline decodeRow transparent_decodeRow h]

/-! ## Templates -/

/-- The declarations of a section are read like the members of a declaration. -/
theorem decodeSection_eq {α : Type} (decode : String → Node → Except Stop α) (s : Section α)
    (n : Node) :
    decodeSection scope decode s n =
      foldMembers scope n (fun declared name m => decode name m >>= fun a =>
        pure (declared.insert name a)) (s.getD .empty) >>= fun declared => pure (some declared) := by
  rw [decodeSection, foldMembers, bind_assoc]

theorem decodeSection_inline {α : Type} (decode : Scope → String → Node → Except Stop α)
    (hdecode : ∀ name, Transparent scope keys fun scope => decode scope name) (s : Section α)
    {n : Node} (h : KeysAgree scope keys n) :
    decodeSection (inlineScope keys scope) (decode (inlineScope keys scope)) s (inline keys n) =
      decodeSection scope (decode scope) s n := by
  rw [decodeSection_eq, decodeSection_eq]
  congr 1
  refine foldMembers_inline (fun scope (declared : OrderedMap α) name m =>
    decode scope name m >>= fun a => pure (declared.insert name a))
    (fun declared name m hm hkeys => ?_) h _
  exact congrArg (· >>= fun a => pure (declared.insert name a)) (hdecode name m hm hkeys)

theorem transparent_decodeEntry (t : Template) (key : String) :
    Transparent scope keys fun scope => decodeEntry scope t key := by
  intro n hn h
  dsimp only [decodeEntry]
  rw [text_inline keys hn, decodeSection_inline decodeParameter transparent_decodeParameter _ h,
    decodeSection_inline decodeTable transparent_decodeTable _ h,
    decodeSection_inline decodeCondition transparent_decodeCondition _ h,
    decodeSection_inline decodeResource transparent_decodeResource _ h,
    decodeSection_inline decodeOutput transparent_decodeOutput _ h]

theorem ofNode_inline_eq (root : Node) (h : KeysAgree scope keys root) :
    ofNode (inlineScope keys scope) (inline keys root) = ofNode scope root := by
  unfold ofNode
  have hdirect := direct_resolve scope root
  have hkeys := h.resolve
  rw [resolve_inline]
  match root.resolve scope, hdirect, hkeys with
  | .mapping header entries, _, hkeys =>
    exact foldMembers_inline decodeEntry transparent_decodeEntry hkeys _
  | .scalar header text, _, _ => rfl
  | .sequence header items, _, _ => rfl

/-- Aliases that are no keys are transparent: a template is decoded alike, or fails alike, with
    copies in place of them.  Where every key has the text of its copy, this is so of all
    aliases. -/
theorem ofNode_inline (scope : Scope) (root : Node) :
    ofNode (inlineScope false scope) (inline false root) = ofNode scope root ∧
      (KeysAgree scope true root →
        ofNode (inlineScope true scope) (inline true root) = ofNode scope root) :=
  ⟨ofNode_inline_eq root (keysAgree_false scope root), ofNode_inline_eq root⟩

/-- A scalar of the first line that is a string. -/
def stringNode (text : String) : Node :=
  .scalar { line := 1, anchor := none, tag := "!!str" } text

/-- A template with a condition whose name is an alias of the text of its description. -/
def aliasedCondition (name : String) : Node :=
  let header : Header := { line := 1, anchor := none, tag := "!!map" }
  let description : Node := .scalar { line := 1, anchor := some name, tag := "!!str" } "Name"
  .mapping header
    [ (stringNode "Description", description),
      (stringNode "Conditions",
        .mapping header [(.alias 1 name {} description, stringNode "text")]) ]

/-- An alias with the text of its target for a name may be a key.  Under another name it
    declares another condition than its target would. -/
theorem ofNode_inline_aliasedCondition :
    ofNode [] (inline true (aliasedCondition "Name")) = ofNode [] (aliasedCondition "Name") ∧
      (ofNode [] (aliasedCondition "Other")).map (fun t => Section.names t.conditions) =
        .ok ["Other"] ∧
      (ofNode [] (inline true (aliasedCondition "Other"))).map
        (fun t => Section.names t.conditions) = .ok ["Name"] := by
  refine ⟨(ofNode_inline [] (aliasedCondition "Name")).2 ?_, by rfl, by rfl⟩
  intro h entries hreached key value hmem _
  -- the two mappings of the template, and no other node, have keys
  cases hreached with
  | self =>
    rcases List.mem_cons.1 hmem with heq | hmem
    · cases heq
      rfl
    · cases List.mem_singleton.1 hmem
      rfl
  | value hvalue hn =>
    rcases List.mem_cons.1 hvalue with heq | hvalue
    · cases heq
      cases hn
    · cases List.mem_singleton.1 hvalue
      cases hn with
      | self =>
        cases List.mem_singleton.1 hmem
        rfl
      | value hvalue hn =>
        cases List.mem_singleton.1 hvalue
        cases hn

end StackIr.Template
