import StackIr.Proofs.Rendering.Flow
import StackIr.Proofs.Yaml.Building
import StackIr.Yaml.Node.Printer

/-! # From tokens to nodes

    `Tells` relates a node to what JSON text says, and `Says` to a JSON document.  The main
    statements say that the tokens of JSON text, and those of a document in block style, are
    read as a node that says the document.  If the tokens of JSON text end too early, the fault
    that they end with is reported. -/

namespace StackIr.Json

open Yaml Yaml.Build

/-! ## What a node says -/

mutual

/-- A node without anchor, comments and aliases that says a document.  The tag of a number is
    the one that its text implies. -/
inductive Says : Node → Json → Prop where
  | null {line : Nat} : Says (.scalar ⟨line, none, "!!null", {}⟩ "null") .null
  | bool {line : Nat} {b : Bool} :
      Says (.scalar ⟨line, none, "!!bool", {}⟩ (if b then "true" else "false")) (.bool b)
  | int {line : Nat} {i : Int} :
      Says (.scalar ⟨line, none, Meaning.implicitTag (String.ofList (intText i)), {}⟩
        (String.ofList (intText i))) (.int i)
  | float {line : Nat} {x : Binary64} :
      Says (.scalar ⟨line, none, Meaning.implicitTag (Decimal.Layout.json.render x), {}⟩
        (Decimal.Layout.json.render x)) (.float x)
  | string {line : Nat} {s : String} : Says (.scalar ⟨line, none, "!!str", {}⟩ s) (.string s)
  | array {line : Nat} {nodes : List Node} {items : List Json} : SaysItems nodes items →
      Says (.sequence ⟨line, none, "!!seq", {}⟩ nodes) (.array items)
  | object {line : Nat} {entries : List (Node × Node)} {members : List (String × Json)} :
      SaysMembers entries members → Says (.mapping ⟨line, none, "!!map", {}⟩ entries) (.object members)

/-- Nodes that say the items of an array. -/
inductive SaysItems : List Node → List Json → Prop where
  | nil : SaysItems [] []
  | cons {node : Node} {item : Json} {nodes : List Node} {items : List Json} : Says node item →
      SaysItems nodes items → SaysItems (node :: nodes) (item :: items)

/-- Entries that say the members of an object, key by key. -/
inductive SaysMembers : List (Node × Node) → List (String × Json) → Prop where
  | nil : SaysMembers [] []
  | cons {key value : Node} {name : String} {item : Json} {entries : List (Node × Node)}
      {members : List (String × Json)} : Says key (.string name) → Says value item →
      SaysMembers entries members → SaysMembers ((key, value) :: entries) ((name, item) :: members)

end

mutual

/-- A node without anchor, comments and aliases for what JSON text says. -/
inductive Tells : Node → Shape → Prop where
  | word {line : Nat} {w : List Char} :
      Tells (.scalar ⟨line, none, plainTag (String.ofList w), {}⟩ (String.ofList w)) (.word w)
  | string {line : Nat} {s : String} : Tells (.scalar ⟨line, none, "!!str", {}⟩ s) (.string s)
  | array {line : Nat} {nodes : List Node} {items : List Shape} : TellsItems nodes items →
      Tells (.sequence ⟨line, none, "!!seq", {}⟩ nodes) (.array items)
  | object {line : Nat} {entries : List (Node × Node)} {members : List (String × Shape)} :
      TellsMembers entries members → Tells (.mapping ⟨line, none, "!!map", {}⟩ entries) (.object members)

inductive TellsItems : List Node → List Shape → Prop where
  | nil : TellsItems [] []
  | cons {node : Node} {item : Shape} {nodes : List Node} {items : List Shape} : Tells node item →
      TellsItems nodes items → TellsItems (node :: nodes) (item :: items)

inductive TellsMembers : List (Node × Node) → List (String × Shape) → Prop where
  | nil : TellsMembers [] []
  | cons {key value : Node} {name : String} {item : Shape} {entries : List (Node × Node)}
      {members : List (String × Shape)} : Tells key (.string name) → Tells value item →
      TellsMembers entries members → TellsMembers ((key, value) :: entries) ((name, item) :: members)

end

theorem Says.foot {node : Node} {j : Json} (h : Says node j) : node.foot = [] := by
  cases h <;> rfl

theorem Tells.foot {node : Node} {v : Shape} (h : Tells node v) : node.foot = [] := by
  cases h <;> rfl

/-! ## Scalars -/

/-- A style in which a text is read as a string. -/
def Quotes (s : String) (style : ScalarStyle) : Prop :=
  style = .plain → Meaning.implicitTag s = "!!str" ∧ s ≠ "<<"

/-- The token of a value that is no array or object, in a style for texts. -/
def scalarKind (style : ScalarStyle) : Json → TokenKind
  | .null => .scalar "null" .plain
  | .bool b => .scalar (if b then "true" else "false") .plain
  | .int i => .scalar (String.ofList (intText i)) .plain
  | .float x => .scalar (Decimal.Layout.json.render x) .plain
  | .string s => .scalar s style
  | _ => .streamEnd

theorem IsWord.ne_merge {w : List Char} (h : IsWord w) : String.ofList w ≠ "<<" := by
  intro heq
  have hw : w = ['<', '<'] := by simpa using congrArg String.toList heq
  have hchar := h.chars '<' (by simp [hw])
  revert hchar
  decide

theorem plainTag_of_isWord {w : List Char} (h : IsWord w) :
    plainTag (String.ofList w) = Meaning.implicitTag (String.ofList w) :=
  if_neg h.ne_merge

/-- The token of a scalar is read as a node that says it. -/
theorem readNode_scalarKind {r : Reading} {j : Json} {style : ScalarStyle} {ts rest : List Token}
    {fuel : Nat} {block indentless : Bool} (h : Bears ts [scalarKind style j]) (hdepth : depth j = 0)
    (hfinite : j.unsupported? = none) (hstyle : ∀ s, j = .string s → Quotes s style)
    (hfuel : ts.length ≤ fuel) :
    ∃ node, readNode fuel block indentless (quiet r (ts ++ rest)) = .ok (node, quiet r rest) ∧
      Says node j := by
  obtain ⟨t, rfl, hkind, hbare⟩ := h.singleton_inv
  obtain ⟨fuel, rfl⟩ : ∃ n, fuel = n + 1 := ⟨fuel - 1, by simp at hfuel; omega⟩
  cases j with
  | null => exact ⟨_, readNode_scalar fuel hbare hkind, .null⟩
  | bool b =>
    refine ⟨_, readNode_scalar fuel hbare hkind, ?_⟩
    cases b <;> exact .bool
  | int i =>
    refine ⟨_, readNode_scalar fuel hbare hkind, ?_⟩
    rw [if_pos rfl, plainTag_of_isWord (isWord_intText i)]
    exact .int
  | float x =>
    have hx : x.isFinite = true := by simpa [unsupported?] using hfinite
    have htag := plainTag_of_isWord (isWord_render hx)
    rw [String.ofList_toList] at htag
    refine ⟨_, readNode_scalar fuel hbare hkind, ?_⟩
    rw [if_pos rfl, htag]
    exact .float
  | string s =>
    refine ⟨_, readNode_scalar fuel hbare hkind, ?_⟩
    have htag : (if style = .plain then plainTag s else "!!str") = "!!str" := by
      split
      · rename_i hplain
        obtain ⟨himplied, hmerge⟩ := hstyle s rfl hplain
        rw [plainTag, if_neg hmerge, himplied]
      · rfl
    rw [htag]
    exact .string
  | array items => simp [depth] at hdepth
  | object members => simp [depth] at hdepth

/-! ## Flow collections -/

theorem Shape.opens (v : Shape) : OpensNode v.kinds := by
  cases v with
  | word w => exact .intro (.scalar _ _)
  | string text => exact .intro (.scalar _ _)
  | array items => exact .intro .flowSequence
  | object members => exact .intro .flowMapping

section

variable {r : Reading}

/-- The key of an entry. -/
theorem readNode_key {t k v u : Token} {name : String} {style : ScalarStyle} (us : List Token)
    (fuel : Nat) (block indentless : Bool) (h : IsEntry t k v u) (hk : k.kind = .scalar name style)
    (hstyle : Quotes name style) (hfuel : 0 < fuel) :
    ∃ key, readNode fuel block indentless (quiet r (k :: v :: u :: us)) =
      .ok (key, quiet r (v :: u :: us)) ∧ Says key (.string name) := by
  have hbears : Bears [k] [scalarKind style (.string name)] :=
    ⟨by simpa [scalarKind] using hk, by simpa using h.bare.2.1⟩
  exact readNode_scalarKind hbears rfl rfl (fun s hs => by cases hs; exact hstyle) hfuel

/-- A member is read up to its value. -/
theorem readFlowMapping_member {first : Bool} {commas entry : List Token} {u : Token} {name : String}
    (us : List Token) (fuel start : Nat) (sofar : List (Node × Node))
    (hcommas : Bears commas (if first then [] else [.flowEntry]))
    (hentry : Bears entry [.key, .scalar name .doubleQuoted, .value]) (hu : StartsNode u.kind)
    (bu : u.comments = []) :
    ∃ key, Tells key (.string name) ∧
      readFlowMapping (fuel + 2) start first sofar (quiet r (commas ++ (entry ++ u :: us))) =
        (readNode (fuel + 1) false false >>= fun value =>
          readFlowMapping (fuel + 1) start false (lowerFoot key value :: sofar)) (quiet r (u :: us)) := by
  rw [← List.append_nil [TokenKind.key, _, _]] at hentry
  obtain ⟨t, k, v, ts, rfl, hnil, hk, hisEntry⟩ := hentry.entry_inv
  obtain rfl := hnil.nil_inv
  have hstart := hisEntry u hu bu
  refine ⟨.scalar ⟨k.line + 1, none, "!!str", {}⟩ name, .string, ?_⟩
  exact readFlowMapping_entry hcommas hstart (readNode_scalar fuel hstart.bare.2.1 hk)

mutual

/-- The tokens of JSON text are read as a node that says the same. -/
theorem readNode_kinds (v : Shape) {ts : List Token} (rest : List Token) (fuel : Nat)
    (block indentless : Bool) (h : Bears ts v.kinds) (hfuel : ts.length ≤ fuel) :
    ∃ node, readNode fuel block indentless (quiet r (ts ++ rest)) = .ok (node, quiet r rest) ∧
      Tells node v := by
  match v with
  | .word w =>
    obtain ⟨t, rfl, ht, bt⟩ := h.singleton_inv
    obtain ⟨fuel, rfl⟩ : ∃ n, fuel = n + 1 := ⟨fuel - 1, by simp at hfuel; omega⟩
    exact ⟨_, readNode_scalar fuel bt ht, .word⟩
  | .string text =>
    obtain ⟨t, rfl, ht, bt⟩ := h.singleton_inv
    obtain ⟨fuel, rfl⟩ : ∃ n, fuel = n + 1 := ⟨fuel - 1, by simp at hfuel; omega⟩
    exact ⟨_, readNode_scalar fuel bt ht, .string⟩
  | .array items =>
    obtain ⟨t, ts, rfl, ht, bt, h⟩ := h.cons_inv
    obtain ⟨fuel, rfl⟩ : ∃ n, fuel = n + 1 := ⟨fuel - 1, by simp at hfuel; omega⟩
    obtain ⟨nodes, hnodes, htells⟩ := readFlow_items items true rest fuel t.line [] h
      (by simpa using hfuel)
    exact ⟨_, (readNode_opening bt ht .flowSequence).trans (collectionNode_quiet hnodes),
      .array htells⟩
  | .object members =>
    obtain ⟨t, ts, rfl, ht, bt, h⟩ := h.cons_inv
    obtain ⟨fuel, rfl⟩ : ∃ n, fuel = n + 1 := ⟨fuel - 1, by simp at hfuel; omega⟩
    obtain ⟨entries, hentries, htells⟩ := readFlow_members members true rest fuel t.line [] h
      (by simpa using hfuel)
    exact ⟨_, (readNode_opening bt ht .flowMapping).trans (collectionNode_quiet hentries),
      .object htells⟩

theorem readFlow_items (items : List Shape) (first : Bool) {ts : List Token} (rest : List Token)
    (fuel start : Nat) (sofar : List Node)
    (h : Bears ts (Shape.itemKinds first items ++ [.flowSequenceEnd])) (hfuel : ts.length ≤ fuel) :
    ∃ nodes, readFlowSequence fuel start first sofar (quiet r (ts ++ rest)) =
        .ok ((sofar.reverse ++ nodes, {}), quiet r rest) ∧ TellsItems nodes items := by
  match items with
  | [] =>
    obtain ⟨t, rfl, ht, bt⟩ := h.singleton_inv
    obtain ⟨fuel, rfl⟩ : ∃ n, fuel = n + 1 := ⟨fuel - 1, by simp at hfuel; omega⟩
    refine ⟨[], ?_, .nil⟩
    rw [List.append_nil]
    exact readFlowSequence_end bt ht
  | item :: items =>
    rw [Shape.itemKinds, List.append_assoc, List.append_assoc] at h
    obtain ⟨commas, ts, rfl, hcommas, h⟩ := h.append_inv
    obtain ⟨us, vs, rfl, hitem, hitems⟩ := h.append_inv
    obtain ⟨u, us, rfl, hu, bu⟩ := hitem.opens_inv item.opens
    obtain ⟨fuel, rfl⟩ : ∃ n, fuel = n + 1 := ⟨fuel - 1, by simp at hfuel; omega⟩
    have hlength := hitems.length_eq
    simp only [List.length_cons, List.length_append, List.length_nil] at hfuel hlength
    obtain ⟨node, hnode, htells⟩ := readNode_kinds item (vs ++ rest) fuel false false hitem
      (by simp; omega)
    obtain ⟨nodes, hnodes, htells'⟩ := readFlow_items items false rest fuel start (node :: sofar)
      hitems (by omega)
    refine ⟨node :: nodes, ?_, .cons htells htells'⟩
    simp only [List.append_assoc, List.cons_append] at hnode ⊢
    rw [readFlowSequence_item hcommas bu hu, bind_ok hnode, hnodes]
    simp

theorem readFlow_members (members : List (String × Shape)) (first : Bool) {ts : List Token}
    (rest : List Token) (fuel start : Nat) (sofar : List (Node × Node))
    (h : Bears ts (Shape.memberKinds first members ++ [.flowMappingEnd])) (hfuel : ts.length ≤ fuel) :
    ∃ entries, readFlowMapping fuel start first sofar (quiet r (ts ++ rest)) =
        .ok ((sofar.reverse ++ entries, {}), quiet r rest) ∧ TellsMembers entries members := by
  match members with
  | [] =>
    obtain ⟨t, rfl, ht, bt⟩ := h.singleton_inv
    obtain ⟨fuel, rfl⟩ : ∃ n, fuel = n + 1 := ⟨fuel - 1, by simp at hfuel; omega⟩
    refine ⟨[], ?_, .nil⟩
    rw [List.append_nil]
    exact readFlowMapping_end bt ht
  | (name, value) :: members =>
    rw [Shape.memberKinds, List.append_assoc, List.append_assoc, List.append_assoc] at h
    obtain ⟨commas, ts, rfl, hcommas, h⟩ := h.append_inv
    obtain ⟨entry, ts, rfl, hentry, h⟩ := h.append_inv
    obtain ⟨us, vs, rfl, hvalue, hmembers⟩ := h.append_inv
    obtain ⟨u, us, rfl, hu, bu⟩ := hvalue.opens_inv value.opens
    have hlength := hentry.length_eq
    simp only [List.length_cons, List.length_append, List.length_nil] at hfuel hlength
    obtain ⟨fuel, rfl⟩ : ∃ n, fuel = n + 2 := ⟨fuel - 2, by omega⟩
    obtain ⟨key, hname, hkey⟩ := readFlowMapping_member (r := r) (us ++ (vs ++ rest)) fuel start sofar
      hcommas hentry hu bu
    obtain ⟨node, hnode, htells⟩ := readNode_kinds value (vs ++ rest) (fuel + 1) false false hvalue
      (by simp; omega)
    obtain ⟨entries, hentries, htells'⟩ := readFlow_members members false rest (fuel + 1) start
      ((key, node) :: sofar) hmembers (by omega)
    refine ⟨(key, node) :: entries, ?_, .cons hname htells htells'⟩
    simp only [List.append_assoc, List.cons_append] at hnode hkey ⊢
    rw [hkey, bind_ok hnode, lowerFoot_eq htells.foot, hentries]
    simp

end

end

/-! ## Tokens that end too early -/

section

variable {r : Reading} {fault : Fault}

theorem readNode_nil {block indentless : Bool} {fuel : Nat} (hfault : r.fault = some fault)
    (hfuel : 0 < fuel) : readNode fuel block indentless (quiet r []) = .error fault := by
  obtain ⟨fuel, rfl⟩ : ∃ n, fuel = n + 1 := ⟨fuel - 1, by omega⟩
  rw [readNode]
  exact bind_error (peek_nil hfault)

mutual

/-- Where the tokens of JSON text end too early, the fault that they end with is reported. -/
theorem readNode_fault (v : Shape) {ts : List Token} (fuel : Nat) (block indentless : Bool)
    (hfault : r.fault = some fault) (h : Begins ts v.kinds) (hshort : ts.length < v.kinds.length)
    (hfuel : 2 * ts.length < fuel) : readNode fuel block indentless (quiet r ts) = .error fault := by
  cases ts with
  | nil => exact readNode_nil hfault hfuel
  | cons t ts =>
    obtain ⟨fuel, rfl⟩ : ∃ n, fuel = n + 1 := ⟨fuel - 1, by omega⟩
    have hfuel' : 2 * ts.length + 1 < fuel := by
      rw [List.length_cons] at hfuel
      omega
    match v with
    | .word w => simp [Shape.kinds] at hshort
    | .string text => simp [Shape.kinds] at hshort
    | .array items =>
      obtain ⟨ht, bt, h⟩ := h.cons_inv
      have hitems := h.of_concat (Nat.lt_of_succ_lt_succ hshort)
      rw [readNode_opening bt ht .flowSequence]
      exact collectionNode_error
        (readFlow_items_fault items true fuel t.line [] hfault hitems hfuel')
    | .object members =>
      obtain ⟨ht, bt, h⟩ := h.cons_inv
      have hmembers := h.of_concat (Nat.lt_of_succ_lt_succ hshort)
      rw [readNode_opening bt ht .flowMapping]
      exact collectionNode_error
        (readFlow_members_fault members true fuel t.line [] hfault hmembers hfuel')

theorem readFlow_items_fault (items : List Shape) (first : Bool) {ts : List Token} (fuel start : Nat)
    (sofar : List Node) (hfault : r.fault = some fault)
    (h : Begins ts (Shape.itemKinds first items)) (hfuel : 2 * ts.length + 1 < fuel) :
    readFlowSequence fuel start first sofar (quiet r ts) = .error fault := by
  obtain ⟨fuel, rfl⟩ : ∃ n, fuel = n + 1 := ⟨fuel - 1, by omega⟩
  match items with
  | [] =>
    rw [readFlowSequence]
    exact bind_error (flowEnds_fault hfault (.inl h.eq_nil) (by simp))
  | item :: items =>
    rw [Shape.itemKinds] at h
    -- the tokens end before the comma, in the item, or in the items after it
    rcases h.append_inv with ⟨hcommas, hshort⟩ | ⟨commas, ts, rfl, hcommas, h⟩
    · rw [readFlowSequence]
      exact bind_error (flowEnds_fault hfault (.inl (eq_nil_of_lt_commas hshort)) (by simp))
    rw [List.length_append] at hfuel
    rcases h.append_inv with ⟨hitem, hshort⟩ | ⟨us, vs, rfl, hitem, hitems⟩
    · cases ts with
      | nil =>
        rw [List.append_nil, readFlowSequence]
        exact bind_error (flowEnds_fault hfault (.inr hcommas) (by simp))
      | cons u us =>
        obtain ⟨hu, bu⟩ := hitem.opens_inv item.opens
        rw [readFlowSequence_item hcommas bu hu]
        exact bind_error (readNode_fault item fuel false false hfault hitem hshort (by omega))
    · obtain ⟨u, us, rfl, hu, bu⟩ := hitem.opens_inv item.opens
      simp only [List.length_cons, List.length_append] at hfuel
      obtain ⟨node, hnode, -⟩ := readNode_kinds item vs fuel false false hitem (by simp; omega)
      rw [List.cons_append] at hnode ⊢
      rw [readFlowSequence_item hcommas bu hu, bind_ok hnode]
      exact readFlow_items_fault items false fuel start _ hfault hitems (by omega)

theorem readFlow_members_fault (members : List (String × Shape)) (first : Bool) {ts : List Token}
    (fuel start : Nat) (sofar : List (Node × Node)) (hfault : r.fault = some fault)
    (h : Begins ts (Shape.memberKinds first members)) (hfuel : 2 * ts.length + 1 < fuel) :
    readFlowMapping fuel start first sofar (quiet r ts) = .error fault := by
  obtain ⟨fuel, rfl⟩ : ∃ n, fuel = n + 1 := ⟨fuel - 1, by omega⟩
  match members with
  | [] =>
    rw [readFlowMapping]
    exact bind_error (flowEnds_fault hfault (.inl h.eq_nil) (by simp))
  | (name, value) :: members =>
    rw [Shape.memberKinds] at h
    -- the tokens end before the comma, in the key, in the value, or in the members after it
    rcases h.append_inv with ⟨hcommas, hshort⟩ | ⟨commas, ts, rfl, hcommas, h⟩
    · rw [readFlowMapping]
      exact bind_error (flowEnds_fault hfault (.inl (eq_nil_of_lt_commas hshort)) (by simp))
    rw [List.length_append] at hfuel
    rcases h.append_inv with ⟨hentry, -⟩ | ⟨entry, ws, rfl, hentry, h⟩
    · exact readFlowMapping_entry_fault hfault hcommas hentry (by omega)
    rw [List.length_append] at hfuel
    rcases h.append_inv with ⟨hvalue, hshort⟩ | ⟨us, vs, rfl, hvalue, hmembers⟩
    · cases ws with
      | nil =>
        rw [List.append_nil]
        exact readFlowMapping_entry_fault hfault hcommas hentry.begins (by omega)
      | cons u us =>
        obtain ⟨hu, bu⟩ := hvalue.opens_inv value.opens
        rw [List.length_cons] at hfuel
        obtain ⟨fuel, rfl⟩ : ∃ n, fuel = n + 1 := ⟨fuel - 1, by omega⟩
        obtain ⟨key, -, hkey⟩ := readFlowMapping_member (r := r) us fuel start sofar hcommas
          hentry hu bu
        rw [hkey]
        exact bind_error
          (readNode_fault value (fuel + 1) false false hfault hvalue hshort (by simp; omega))
    · obtain ⟨u, us, rfl, hu, bu⟩ := hvalue.opens_inv value.opens
      simp only [List.length_cons, List.length_append] at hfuel
      obtain ⟨fuel, rfl⟩ : ∃ n, fuel = n + 1 := ⟨fuel - 1, by omega⟩
      obtain ⟨key, -, hkey⟩ := readFlowMapping_member (r := r) (us ++ vs) fuel start sofar hcommas
        hentry hu bu
      obtain ⟨node, hnode, -⟩ := readNode_kinds value vs (fuel + 1) false false hvalue (by simp; omega)
      rw [List.cons_append] at hnode ⊢
      rw [hkey, bind_ok hnode]
      exact readFlow_members_fault members false (fuel + 1) start _ hfault hmembers (by omega)

end

end

/-! ## Documents of the same shape -/

mutual

/-- A node for the shape of a document says the document. -/
theorem says_of_tells (j : Json) {node : Node} (h : Tells node (shape j))
    (hfinite : j.unsupported? = none) : Says node j := by
  match j with
  | .null =>
    cases h with
    | word => exact .null
  | .bool b =>
    cases h with
    | word =>
      cases b
      · exact @Says.bool _ false
      · exact @Says.bool _ true
  | .int i =>
    cases h with
    | word =>
      rw [plainTag_of_isWord (isWord_intText i)]
      exact .int
  | .float x =>
    cases h with
    | word =>
      have hx : x.isFinite = true := by simpa [unsupported?] using hfinite
      rw [plainTag_of_isWord (isWord_render hx), String.ofList_toList]
      exact .float
  | .string str =>
    cases h with
    | string => exact .string
  | .array items =>
    cases h with
    | array hitems => exact .array (saysItems_of_tells items hitems hfinite)
  | .object members =>
    cases h with
    | object hmembers => exact .object (saysMembers_of_tells members hmembers hfinite)

theorem saysItems_of_tells (items : List Json) {nodes : List Node}
    (h : TellsItems nodes (shapeItems items)) (hfinite : unsupportedItem? items = none) :
    SaysItems nodes items := by
  match items with
  | [] =>
    cases h with
    | nil => exact .nil
  | item :: items =>
    simp only [unsupportedItem?, Option.or_eq_none_iff] at hfinite
    cases h with
    | cons hitem hitems =>
      exact .cons (says_of_tells item hitem hfinite.1) (saysItems_of_tells items hitems hfinite.2)

theorem saysMembers_of_tells (members : List (String × Json)) {entries : List (Node × Node)}
    (h : TellsMembers entries (shapeMembers members)) (hfinite : unsupportedMember? members = none) :
    SaysMembers entries members := by
  match members with
  | [] =>
    cases h with
    | nil => exact .nil
  | (key, value) :: members =>
    simp only [unsupportedMember?, Option.or_eq_none_iff] at hfinite
    cases h with
    | cons hkey hvalue hmembers =>
      cases hkey
      exact .cons .string (says_of_tells value hvalue hfinite.1)
        (saysMembers_of_tells members hmembers hfinite.2)

end

/-- The tokens of JSON text are read as a node that says the document. -/
theorem readNode_flow {r : Reading} (j : Json) {ts : List Token} (rest : List Token) (fuel : Nat)
    (block indentless : Bool) (h : Bears ts (shape j).kinds) (hfinite : j.unsupported? = none)
    (hfuel : ts.length ≤ fuel) :
    ∃ node, readNode fuel block indentless (quiet r (ts ++ rest)) = .ok (node, quiet r rest) ∧
      Says node j := by
  obtain ⟨node, hnode, htells⟩ := readNode_kinds (shape j) rest fuel block indentless h hfuel
  exact ⟨node, hnode, says_of_tells j htells hfinite⟩

/-! ## Block collections -/

/-- Whether a key is written on one line before its colon. -/
def isSimpleKey (key : String) : Bool :=
  !Presentation.hasBreaks key.toList && key.utf8ByteSize ≤ 128

/-- The style of a text in a document in block style. -/
def textStyle (s : String) (simpleKey : Bool) : ScalarStyle :=
  Presentation.style s.toList (decide (Meaning.implicitTag s ≠ "!!str")) simpleKey

theorem quotes_textStyle {s : String} (h : s ≠ "<<") (simpleKey : Bool) :
    Quotes s (textStyle s simpleKey) := by
  intro hplain
  refine ⟨?_, h⟩
  by_contra himplied
  simp only [textStyle, Presentation.style, ne_eq, himplied, not_false_eq_true, decide_true,
    if_true] at hplain
  split_ifs at hplain

theorem ne_merge_of_legibleText {s : String} (h : legibleText s = true) : s ≠ "<<" := by
  simp only [legibleText, Bool.and_eq_true, bne_iff_ne] at h
  exact h.1.2

mutual

/-- The tokens of a document in block style. -/
def blockKinds : Json → List TokenKind
  | .null => [.scalar "null" .plain]
  | .bool b => [.scalar (if b then "true" else "false") .plain]
  | .int i => [.scalar (String.ofList (intText i)) .plain]
  | .float x => [.scalar (Decimal.Layout.json.render x) .plain]
  | .string s => [.scalar s (textStyle s false)]
  | .array [] => [.flowSequenceStart, .flowSequenceEnd]
  | .array (item :: items) =>
    .blockSequenceStart :: .blockEntry :: (blockKinds item ++ (blockItems items ++ [.blockEnd]))
  | .object [] => [.flowMappingStart, .flowMappingEnd]
  | .object ((key, value) :: members) =>
    .blockMappingStart :: ([.key, .scalar key (textStyle key (isSimpleKey key)), .value] ++
      (blockKinds value ++ (blockMembers members ++ [.blockEnd])))

/-- The tokens of items, each after a dash. -/
def blockItems : List Json → List TokenKind
  | [] => []
  | item :: items => .blockEntry :: (blockKinds item ++ blockItems items)

/-- The tokens of members. -/
def blockMembers : List (String × Json) → List TokenKind
  | [] => []
  | (key, value) :: members =>
    [.key, .scalar key (textStyle key (isSimpleKey key)), .value] ++
      (blockKinds value ++ blockMembers members)

end

theorem blockKinds_of_depth {j : Json} (h : depth j = 0) :
    ∃ style, blockKinds j = [scalarKind style j] ∧ ∀ s, j = .string s → style = textStyle s false := by
  cases j with
  | array items => simp [depth] at h
  | object members => simp [depth] at h
  | string s => exact ⟨textStyle s false, rfl, fun _ hs => by cases hs; rfl⟩
  | _ => exact ⟨.plain, rfl, fun _ hs => by cases hs⟩

/-- The tokens of an array or object with something in it are those of its items or
    members. -/
theorem blockKinds_array (item : Json) (items : List Json) :
    blockKinds (.array (item :: items)) =
      .blockSequenceStart :: (blockItems (item :: items) ++ [.blockEnd]) := by
  simp [blockKinds, blockItems]

theorem blockKinds_object (key : String) (value : Json) (members : List (String × Json)) :
    blockKinds (.object ((key, value) :: members)) =
      .blockMappingStart :: (blockMembers ((key, value) :: members) ++ [.blockEnd]) := by
  simp [blockKinds, blockMembers]

theorem opens_blockKinds (j : Json) : OpensNode (blockKinds j) := by
  cases j with
  | array items =>
    cases items with
    | nil => exact .intro .flowSequence
    | cons item items => exact .intro .blockSequence
  | object members =>
    rcases members with _ | ⟨⟨key, value⟩, members⟩
    · exact .intro .flowMapping
    · exact .intro .blockMapping
  | _ => exact .intro (.scalar _ _)

section

variable {r : Reading}

mutual

/-- The tokens of a document in block style are read as a node that says it. -/
theorem readNode_block (j : Json) {ts : List Token} (rest : List Token) (fuel : Nat)
    (indentless : Bool) (h : Bears ts (blockKinds j)) (hlegible : legible j = true)
    (hfinite : j.unsupported? = none) (hfuel : ts.length ≤ fuel) :
    ∃ node, readNode fuel true indentless (quiet r (ts ++ rest)) = .ok (node, quiet r rest) ∧
      Says node j := by
  -- five of the cases are scalars, which are read alike
  have hscalar : depth j = 0 → ∃ node,
      readNode fuel true indentless (quiet r (ts ++ rest)) = .ok (node, quiet r rest) ∧
        Says node j := by
    intro hzero
    obtain ⟨style, hkinds, hstyle⟩ := blockKinds_of_depth hzero
    rw [hkinds] at h
    refine readNode_scalarKind h hzero hfinite ?_ hfuel
    rintro s rfl
    rw [hstyle s rfl]
    exact quotes_textStyle (ne_merge_of_legibleText hlegible) false
  cases j with
  | null => exact hscalar rfl
  | bool b => exact hscalar rfl
  | int i => exact hscalar rfl
  | float x => exact hscalar rfl
  | string s => exact hscalar rfl
  | array items =>
    cases items with
    -- a collection with nothing in it is written in flow style
    | nil => exact readNode_flow (.array []) rest fuel true indentless h rfl hfuel
    | cons item items =>
      rw [blockKinds_array] at h
      obtain ⟨t, ts, rfl, ht, bt, h⟩ := h.cons_inv
      obtain ⟨fuel, rfl⟩ : ∃ n, fuel = n + 1 := ⟨fuel - 1, by simp at hfuel; omega⟩
      obtain ⟨nodes, hnodes, hmeans⟩ := readBlock_items (item :: items) rest fuel t.line [] h hlegible
        hfinite (by simpa using hfuel)
      exact ⟨_, (readNode_opening bt ht .blockSequence).trans (collectionNode_quiet hnodes),
        .array hmeans⟩
  | object members =>
    rcases members with _ | ⟨⟨name, value⟩, members⟩
    · exact readNode_flow (.object []) rest fuel true indentless h rfl hfuel
    · rw [blockKinds_object] at h
      obtain ⟨t, ts, rfl, ht, bt, h⟩ := h.cons_inv
      obtain ⟨fuel, rfl⟩ : ∃ n, fuel = n + 1 := ⟨fuel - 1, by simp at hfuel; omega⟩
      obtain ⟨entries, hentries, hmeans⟩ := readBlock_members ((name, value) :: members) rest fuel
        t.line [] h hlegible hfinite (by simpa using hfuel)
      exact ⟨_, (readNode_opening bt ht .blockMapping).trans (collectionNode_quiet hentries),
        .object hmeans⟩

theorem readBlock_items (items : List Json) {ts : List Token} (rest : List Token) (fuel start : Nat)
    (sofar : List Node) (h : Bears ts (blockItems items ++ [.blockEnd]))
    (hlegible : legibleItems items = true) (hfinite : unsupportedItem? items = none)
    (hfuel : ts.length ≤ fuel) :
    ∃ nodes, readBlockSequence fuel start sofar (quiet r (ts ++ rest)) =
        .ok ((sofar.reverse ++ nodes, {}), quiet r rest) ∧ SaysItems nodes items := by
  cases items with
  | nil =>
    obtain ⟨t, rfl, ht, bt⟩ := h.singleton_inv
    obtain ⟨fuel, rfl⟩ : ∃ n, fuel = n + 1 := ⟨fuel - 1, by simp at hfuel; omega⟩
    refine ⟨[], ?_, .nil⟩
    rw [List.append_nil]
    exact readBlockSequence_end bt ht
  | cons item items =>
    simp only [legibleItems, Bool.and_eq_true] at hlegible
    simp only [unsupportedItem?, Option.or_eq_none_iff] at hfinite
    rw [blockItems, List.cons_append, List.append_assoc] at h
    obtain ⟨t, ts, rfl, ht, bt, h⟩ := h.cons_inv
    obtain ⟨us, vs, rfl, hitem, hitems⟩ := h.append_inv
    obtain ⟨u, us, rfl, hu, bu⟩ := hitem.opens_inv (opens_blockKinds item)
    obtain ⟨fuel, rfl⟩ : ∃ n, fuel = n + 1 := ⟨fuel - 1, by simp at hfuel; omega⟩
    simp only [List.length_cons, List.length_append] at hfuel
    obtain ⟨node, hnode, hmeans⟩ := readNode_block item (vs ++ rest) fuel false hitem hlegible.1
      hfinite.1 (by simp; omega)
    obtain ⟨nodes, hnodes, hmeans'⟩ := readBlock_items items rest fuel start (node :: sofar) hitems
      hlegible.2 hfinite.2 (by omega)
    refine ⟨node :: nodes, ?_, .cons hmeans hmeans'⟩
    rw [List.cons_append, List.append_assoc, List.append_cons, ← List.reverse_cons]
    exact (readBlockSequence_item bt ht bu hu hnode).trans hnodes

theorem readBlock_members (members : List (String × Json)) {ts : List Token} (rest : List Token)
    (fuel start : Nat) (sofar : List (Node × Node)) (h : Bears ts (blockMembers members ++ [.blockEnd]))
    (hlegible : legibleMembers members = true) (hfinite : unsupportedMember? members = none)
    (hfuel : ts.length ≤ fuel) :
    ∃ entries, readBlockMapping fuel start sofar (quiet r (ts ++ rest)) =
        .ok ((sofar.reverse ++ entries, {}), quiet r rest) ∧ SaysMembers entries members := by
  rcases members with _ | ⟨⟨name, value⟩, members⟩
  · obtain ⟨t, rfl, ht, bt⟩ := h.singleton_inv
    obtain ⟨fuel, rfl⟩ : ∃ n, fuel = n + 1 := ⟨fuel - 1, by simp at hfuel; omega⟩
    refine ⟨[], ?_, .nil⟩
    rw [List.append_nil]
    exact readBlockMapping_end bt ht
  · simp only [legibleMembers, legibleKey, Bool.and_eq_true] at hlegible
    simp only [unsupportedMember?, Option.or_eq_none_iff] at hfinite
    rw [blockMembers, List.append_assoc, List.append_assoc] at h
    obtain ⟨t, k, v, us, rfl, h, hk, hentry⟩ := h.entry_inv
    obtain ⟨us, vs, rfl, hvalue, hmembers⟩ := h.append_inv
    obtain ⟨u, us, rfl, hu, bu⟩ := hvalue.opens_inv (opens_blockKinds value)
    obtain ⟨fuel, rfl⟩ : ∃ n, fuel = n + 1 := ⟨fuel - 1, by simp at hfuel; omega⟩
    simp only [List.length_cons, List.length_append] at hfuel
    obtain ⟨key, hkey, hmeansKey⟩ := readNode_key (us ++ (vs ++ rest)) fuel true true (hentry u hu bu) hk
      (quotes_textStyle (ne_merge_of_legibleText hlegible.1.1.1) _) (by omega)
    obtain ⟨node, hnode, hmeans⟩ := readNode_block value (vs ++ rest) fuel true hvalue hlegible.1.2
      hfinite.1 (by simp; omega)
    obtain ⟨entries, hentries, hmeans'⟩ := readBlock_members members rest fuel start
      ((key, node) :: sofar) hmembers hlegible.2 hfinite.2 (by omega)
    refine ⟨(key, node) :: entries, ?_, .cons hmeansKey hmeans hmeans'⟩
    simp only [List.cons_append, List.append_assoc]
    rw [List.append_cons, ← List.reverse_cons]
    exact (readBlockMapping_entry (hentry u hu bu) hmeansKey.foot hmeans.foot hkey hnode).trans hentries

end

end

/-! ## Documents -/

/-- A document without comments that says a JSON document. -/
structure SaysDocument (d : Document) (j : Json) : Prop where
  root : Says d.root j
  head : d.head = []
  foot : d.foot = []

/-- A document whose tokens end before its root does. -/
theorem ofInput?_fault {v : Shape} {input : Input} {tokens : List Token} {fault : Fault}
    (hscan : scan input = ⟨tokens, some fault⟩) (h : Begins tokens v.kinds) :
    Document.ofInput? input = .error fault := by
  have hdocument : readDocument (quiet { tokens := [], fault := some fault } tokens) = .error fault := by
    rw [readDocument]
    cases tokens with
    | nil => exact bind_error (peek_nil rfl)
    | cons u us =>
      obtain ⟨hu, bu⟩ := h.opens_inv v.opens
      rw [bind_ok (peek_quiet bu), if_neg hu.ne_streamEnd]
      rw [← List.append_nil v.kinds] at h
      rcases h.append_inv with ⟨hcut, hshort⟩ | ⟨ts, rest, heq, hts, hrest⟩
      · refine bind_error ((readRoot_quiet hu bu).trans (bind_error ?_))
        exact readNode_fault v _ true false rfl hcut hshort (by omega)
      · obtain rfl := hrest.eq_nil
        rw [List.append_nil] at heq
        subst heq
        obtain ⟨node, hnode, -⟩ := readNode_kinds v []
          (2 * (u :: us).length + 4) true false hts (by omega)
        rw [List.append_nil] at hnode
        rw [bind_ok ((readRoot_quiet hu bu).trans (bind_ok hnode))]
        exact bind_error (peek_nil rfl)
  have hrun : Build.readDocument.run { tokens := tokens, fault := some fault } = _ := hdocument
  simp only [Document.ofInput?, hscan, hrun, bind, Except.bind]

/-- What JSON text is read as: a document without comments that says the same, unless brackets
    are nested too deep. -/
theorem Scanned.ofInput? {input : Input} {v : Shape} (h : Scanned input v) :
    v.depth ≤ Scanner.depthLimit ∧
        (∃ node, Document.ofInput? input = .ok (some { root := node }) ∧ Tells node v) ∨
      Scanner.depthLimit < v.depth ∧ ∃ line,
        Document.ofInput? input = .error ⟨line, "exceeded max depth of 10000"⟩ := by
  rcases h with ⟨hdepth, hscan⟩ | ⟨hdepth, tokens, fault, hscan, hproblem, hbare, hkinds⟩
  · exact .inl ⟨hdepth, ofInput?_root hscan v.opens fun r rest fuel h hfuel =>
      readNode_kinds v rest fuel true false h hfuel⟩
  · obtain ⟨line, problem⟩ := fault
    obtain rfl : problem = _ := hproblem
    exact .inr ⟨hdepth, line, ofInput?_fault hscan ⟨hkinds, hbare⟩⟩

end StackIr.Json
