import Mathlib.Data.List.Basic
import StackIr.Yaml.Node.Build

/-! # Building nodes from tokens

    What reading each kind of node does where no comments and no anchors come with the tokens.
    The state of reading is then the list of tokens that are left (`quiet`).  If the tokens end
    too early, the fault that they end with is reported. -/

namespace StackIr.Yaml.Build

/-- The tag of a plain scalar. -/
def plainTag (text : String) : String :=
  if text = "<<" then "!!merge" else Meaning.implicitTag text

/-! ## Tokens -/

/-- Tokens of given kinds without comments. -/
structure Bears (ts : List Token) (kinds : List TokenKind) : Prop where
  kinds : ts.map Token.kind = kinds
  bare : ∀ t ∈ ts, t.comments = []

theorem Bears.cons_inv {ts : List Token} {kind : TokenKind} {kinds : List TokenKind}
    (h : Bears ts (kind :: kinds)) :
    ∃ t ts', ts = t :: ts' ∧ t.kind = kind ∧ t.comments = [] ∧ Bears ts' kinds := by
  obtain ⟨t, ts', rfl, hkind, hkinds⟩ := List.map_eq_cons_iff.1 h.kinds
  exact ⟨t, ts', rfl, hkind, h.bare t (List.mem_cons_self ..), hkinds,
    fun u hu => h.bare u (List.mem_cons_of_mem _ hu)⟩

theorem Bears.append_inv {ts : List Token} {kinds kinds' : List TokenKind}
    (h : Bears ts (kinds ++ kinds')) :
    ∃ us vs, ts = us ++ vs ∧ Bears us kinds ∧ Bears vs kinds' := by
  obtain ⟨us, vs, rfl, hus, hvs⟩ := List.map_eq_append_iff.1 h.kinds
  exact ⟨us, vs, rfl, ⟨hus, fun t ht => h.bare t (List.mem_append_left _ ht)⟩, hvs,
    fun t ht => h.bare t (List.mem_append_right _ ht)⟩

theorem Bears.length_eq {ts : List Token} {kinds : List TokenKind} (h : Bears ts kinds) :
    ts.length = kinds.length := by
  rw [← h.kinds, List.length_map]

theorem Bears.nil_inv {ts : List Token} (h : Bears ts []) : ts = [] :=
  List.map_eq_nil_iff.1 h.kinds

theorem Bears.singleton_inv {ts : List Token} {kind : TokenKind} (h : Bears ts [kind]) :
    ∃ t, ts = [t] ∧ t.kind = kind ∧ t.comments = [] := by
  obtain ⟨t, ts, rfl, ht, bt, hnil⟩ := h.cons_inv
  obtain rfl := hnil.nil_inv
  exact ⟨t, rfl, ht, bt⟩

/-- Tokens without comments whose kinds are the first of some. -/
structure Begins (ts : List Token) (kinds : List TokenKind) : Prop where
  kinds : ts.map Token.kind <+: kinds
  bare : ∀ t ∈ ts, t.comments = []

theorem Begins.cons_inv {t : Token} {ts : List Token} {kind : TokenKind} {kinds : List TokenKind}
    (h : Begins (t :: ts) (kind :: kinds)) : t.kind = kind ∧ t.comments = [] ∧ Begins ts kinds := by
  obtain ⟨hkind, hkinds⟩ := List.cons_prefix_cons.1 h.kinds
  obtain ⟨hbare, hbares⟩ := List.forall_mem_cons.1 h.bare
  exact ⟨hkind, hbare, hkinds, hbares⟩

theorem Begins.eq_nil {ts : List Token} (h : Begins ts []) : ts = [] :=
  List.map_eq_nil_iff.1 (List.prefix_nil.1 h.kinds)

/-- Tokens end in the first part or in the second. -/
theorem Begins.append_inv {ts : List Token} {kinds kinds' : List TokenKind}
    (h : Begins ts (kinds ++ kinds')) :
    Begins ts kinds ∧ ts.length < kinds.length ∨
      ∃ us vs, ts = us ++ vs ∧ Bears us kinds ∧ Begins vs kinds' := by
  by_cases hlength : ts.length < kinds.length
  · refine .inl ⟨⟨?_, h.bare⟩, hlength⟩
    exact List.prefix_of_prefix_length_le h.kinds (List.prefix_append ..) (by simp; omega)
  · obtain ⟨more, hmore⟩ := List.prefix_of_prefix_length_le (List.prefix_append kinds kinds') h.kinds
      (by simp; omega)
    obtain ⟨us, vs, rfl, hus, hvs⟩ := List.map_eq_append_iff.1 hmore.symm
    have hkinds := h.kinds
    rw [List.map_append, hus] at hkinds
    exact .inr ⟨us, vs, rfl, ⟨hus, fun t ht => h.bare t (List.mem_append_left _ ht)⟩,
      (List.prefix_append_right_inj _).1 hkinds, fun t ht => h.bare t (List.mem_append_right _ ht)⟩

theorem Bears.begins {ts : List Token} {kinds : List TokenKind} (h : Bears ts kinds) :
    Begins ts kinds :=
  ⟨h.kinds ▸ List.prefix_rfl, h.bare⟩

/-- Where the last token is missing, the tokens begin those before it. -/
theorem Begins.of_concat {ts : List Token} {kinds : List TokenKind} {kind : TokenKind}
    (h : Begins ts (kinds ++ [kind])) (hlength : ts.length < (kinds ++ [kind]).length) :
    Begins ts kinds := by
  refine ⟨(List.prefix_concat_iff.1 h.kinds).resolve_left ?_, h.bare⟩
  intro heq
  have hsame := congrArg List.length heq
  rw [List.length_map] at hsame
  omega

/-! ## Reading without comments -/

/-- The state of reading with some tokens left and no comments. -/
def quiet (r : Reading) (ts : List Token) : Reading :=
  { r with tokens := ts, comments := {}, stem := [] }

section

variable {r : Reading} {t : Token} {ts : List Token}

theorem bind_ok {α β : Type} {x : Build α} {f : α → Build β} {u v : Reading} {a : α}
    (h : x u = .ok (a, v)) : (x >>= f) u = f a v := by
  simp only [bind, StateT.bind, h, Except.bind]

theorem bind_error {α β : Type} {x : Build α} {f : α → Build β} {u : Reading} {fault : Fault}
    (h : x u = .error fault) : (x >>= f) u = .error fault := by
  simp only [bind, StateT.bind, h, Except.bind]

/-- Where the tokens end, the fault that they end with is reported. -/
theorem peek_nil {fault : Fault} (hfault : r.fault = some fault) :
    peek (quiet r []) = .error fault := by
  show Except.error (r.fault.getD _) = _
  rw [hfault]
  rfl

theorem peek_quiet (ht : t.comments = []) : peek (quiet r (t :: ts)) = .ok (t, quiet r (t :: ts)) := by
  obtain ⟨mark, kind, comments⟩ := t
  obtain rfl : comments = [] := ht
  rfl

@[simp] theorem advance_quiet : advance (quiet r (t :: ts)) = .ok ((), quiet r ts) :=
  rfl

@[simp] theorem takeComments_quiet : takeComments (quiet r ts) = .ok ({}, quiet r ts) :=
  rfl

@[simp] theorem takeStem_quiet : takeStem (quiet r ts) = .ok ({}, quiet r ts) :=
  rfl

theorem readProperties_quiet (ht : t.comments = []) (hanchor : ∀ name, t.kind ≠ .anchor name)
    (htag : ∀ handle suffix, t.kind ≠ .tag handle suffix) :
    readProperties (quiet r (t :: ts)) = .ok (⟨t.line, none, ""⟩, quiet r (t :: ts)) := by
  rw [readProperties, bind_ok (peek_quiet ht)]
  obtain ⟨mark, kind, comments⟩ := t
  cases kind with
  | anchor name => exact absurd rfl (hanchor name)
  | tag handle suffix => exact absurd rfl (htag handle suffix)
  | _ => rfl

/-- Before the first item or entry of a collection in flow style there is no comma, and before
    the others there is one. -/
theorem Bears.comma_cases {commas : List Token} {first : Bool}
    (h : Bears commas (if first then [] else [.flowEntry])) :
    commas = [] ∧ first = true ∨
      ∃ t, commas = [t] ∧ first = false ∧ t.kind = .flowEntry ∧ t.comments = [] := by
  cases first with
  | true => exact .inl ⟨h.nil_inv, rfl⟩
  | false =>
    obtain ⟨t, rfl, ht, bt⟩ := h.singleton_inv
    exact .inr ⟨t, rfl, rfl, ht, bt⟩

theorem eq_nil_of_lt_commas {ts : List Token} {first : Bool}
    (h : ts.length < (if first then [] else [TokenKind.flowEntry]).length) : ts = [] := by
  cases first with
  | true => cases h
  | false => exact List.length_eq_zero_iff.1 (Nat.lt_one_iff.1 h)

/-- The tokens that a node without properties starts with. -/
inductive StartsNode : TokenKind → Prop where
  | scalar (text : String) (style : ScalarStyle) : StartsNode (.scalar text style)
  | flowSequence : StartsNode .flowSequenceStart
  | flowMapping : StartsNode .flowMappingStart
  | blockSequence : StartsNode .blockSequenceStart
  | blockMapping : StartsNode .blockMappingStart

theorem StartsNode.ne_streamEnd {kind : TokenKind} (h : StartsNode kind) : kind ≠ .streamEnd := by
  rintro rfl
  cases h

/-- The tokens of a node, as far as reading the first of them tells. -/
inductive OpensNode : List TokenKind → Prop where
  | intro {kind : TokenKind} {kinds : List TokenKind} : StartsNode kind → OpensNode (kind :: kinds)

theorem Bears.opens_inv {kinds : List TokenKind} (h : Bears ts kinds) (hopens : OpensNode kinds) :
    ∃ u us, ts = u :: us ∧ StartsNode u.kind ∧ u.comments = [] := by
  cases hopens with
  | intro hstart =>
    obtain ⟨u, us, rfl, rfl, hbare, _⟩ := h.cons_inv
    exact ⟨u, us, rfl, hstart, hbare⟩

theorem Begins.opens_inv {kinds : List TokenKind} (h : Begins (t :: ts) kinds) (hopens : OpensNode kinds) :
    StartsNode t.kind ∧ t.comments = [] := by
  cases hopens with
  | intro hstart =>
    obtain ⟨rfl, hbare, _⟩ := h.cons_inv
    exact ⟨hstart, hbare⟩

/-! ## Nodes -/

/-- A scalar without properties. -/
theorem readNode_scalar {block indentless : Bool} {text : String} {style : ScalarStyle} (fuel : Nat)
    (ht : t.comments = []) (hkind : t.kind = .scalar text style) :
    readNode (fuel + 1) block indentless (quiet r (t :: ts)) =
      .ok (.scalar ⟨t.line + 1, none, if style = .plain then plainTag text else "!!str", {}⟩ text,
        quiet r ts) := by
  rw [readNode, bind_ok (peek_quiet ht)]
  simp only [hkind]
  rw [bind_ok (readProperties_quiet ht (by simp [hkind]) (by simp [hkind])), bind_ok (peek_quiet ht)]
  simp only [hkind]
  rw [bind_ok advance_quiet, bind_ok takeComments_quiet]
  rfl

@[simp] theorem announce_quiet : announce none (quiet r ts) = .ok (r.started, quiet r ts) :=
  rfl

section

variable {α : Type} {implied : String} {make : Header → List α → Collection} {line : Nat}
  {read : Build (List α × Comments)}

/-- A collection without properties is made of what is read. -/
theorem collectionNode_quiet {parts : List α} {rest : List Token}
    (hread : read (quiet r ts) = .ok ((parts, {}), quiet r rest)) :
    collectionNode implied make ⟨line, none, ""⟩ [] read (quiet r ts) =
      .ok ((make ⟨line + 1, none, implied, {}⟩ parts).node, quiet r rest) := by
  rw [collectionNode, bind_ok announce_quiet, bind_ok hread]
  rfl

theorem collectionNode_error {fault : Fault} (hread : read (quiet r ts) = .error fault) :
    collectionNode implied make ⟨line, none, ""⟩ [] read (quiet r ts) = .error fault := by
  rw [collectionNode, bind_ok announce_quiet]
  exact bind_error hread

end

/-- The tokens that open a collection, and how the collection is read behind them. -/
inductive Opening (fuel line : Nat) : (block : Bool) → TokenKind → Build Node → Prop where
  | flowSequence {block : Bool} : Opening fuel line block .flowSequenceStart
      (sequenceNode ⟨line, none, ""⟩ [] (readFlowSequence fuel line true []))
  | flowMapping {block : Bool} : Opening fuel line block .flowMappingStart
      (mappingNode ⟨line, none, ""⟩ [] (readFlowMapping fuel line true []))
  | blockSequence : Opening fuel line true .blockSequenceStart
      (sequenceNode ⟨line, none, ""⟩ [] (readBlockSequence fuel line []))
  | blockMapping : Opening fuel line true .blockMappingStart
      (mappingNode ⟨line, none, ""⟩ [] (readBlockMapping fuel line []))

theorem readNode_opening {block indentless : Bool} {fuel : Nat} {kind : TokenKind}
    {read : Build Node}
    (ht : t.comments = []) (hkind : t.kind = kind) (h : Opening fuel t.line block kind read) :
    readNode (fuel + 1) block indentless (quiet r (t :: ts)) = read (quiet r ts) := by
  rw [readNode]
  obtain ⟨mark, _, comments⟩ := t
  obtain rfl : comments = [] := ht
  cases hkind
  cases h <;> rfl

/-! ## Items and entries -/

section

variable {close : TokenKind} {message : String} {start : Nat} {first : Bool} {commas : List Token}

theorem flowEnds_close (ht : t.comments = []) (hkind : t.kind = close) :
    flowEnds close message start first (quiet r (t :: ts)) = .ok (true, quiet r (t :: ts)) := by
  rw [flowEnds, bind_ok (peek_quiet ht), if_pos hkind]
  rfl

/-- The comma is passed over. -/
theorem flowEnds_part (hcommas : Bears commas (if first then [] else [.flowEntry]))
    (ht : t.comments = []) (hend : t.kind ≠ close) (hclose : close ≠ .flowEntry) :
    flowEnds close message start first (quiet r (commas ++ t :: ts)) =
      .ok (false, quiet r (t :: ts)) := by
  rw [flowEnds]
  rcases hcommas.comma_cases with ⟨rfl, rfl⟩ | ⟨u, rfl, rfl, hu, bu⟩
  · rw [List.nil_append, bind_ok (peek_quiet ht), if_neg hend]
    simp only [Bool.not_true, Bool.false_eq_true, if_false]
    rw [bind_ok (peek_quiet ht), decide_eq_false hend]
    rfl
  · rw [List.singleton_append, bind_ok (peek_quiet bu), if_neg (hu ▸ hclose.symm)]
    simp only [Bool.not_false, if_true, hu]
    rw [bind_ok advance_quiet, bind_ok (peek_quiet ht), decide_eq_false hend]
    rfl

/-- The tokens end before the next part. -/
theorem flowEnds_fault {fault : Fault} (hfault : r.fault = some fault)
    (hcommas : commas = [] ∨ Bears commas (if first then [] else [.flowEntry]))
    (hclose : close ≠ .flowEntry) :
    flowEnds close message start first (quiet r commas) = .error fault := by
  rw [flowEnds]
  rcases hcommas with rfl | hcommas
  · exact bind_error (peek_nil hfault)
  · rcases hcommas.comma_cases with ⟨rfl, rfl⟩ | ⟨t, rfl, rfl, ht, bt⟩
    · exact bind_error (peek_nil hfault)
    · rw [bind_ok (peek_quiet bt), if_neg (ht ▸ hclose.symm)]
      simp only [Bool.not_false, if_true, ht]
      rw [bind_ok advance_quiet]
      exact bind_error (peek_nil hfault)

end

section

variable {u : Token} {us rest : List Token} {node : Node} {sofar : List Node} {start fuel : Nat}

theorem readFlowSequence_end {first : Bool} (ht : t.comments = [])
    (hkind : t.kind = .flowSequenceEnd) :
    readFlowSequence (fuel + 1) start first sofar (quiet r (t :: ts)) =
      .ok ((sofar.reverse, {}), quiet r ts) := by
  rw [readFlowSequence, bind_ok (flowEnds_close ht hkind), if_pos rfl, bind_ok advance_quiet,
    bind_ok takeComments_quiet]
  rfl

theorem StartsNode.ne_flowSequenceEnd (h : StartsNode u.kind) : u.kind ≠ .flowSequenceEnd := by
  generalize u.kind = kind at h
  cases h <;> simp

theorem readFlowSequence_item {first : Bool} {commas : List Token}
    (hcommas : Bears commas (if first then [] else [.flowEntry])) (hu : u.comments = [])
    (hstart : StartsNode u.kind) :
    readFlowSequence (fuel + 1) start first sofar (quiet r (commas ++ u :: us)) =
      (readNode fuel false false >>= fun node => readFlowSequence fuel start false (node :: sofar))
        (quiet r (u :: us)) := by
  rw [readFlowSequence, bind_ok (flowEnds_part hcommas hu hstart.ne_flowSequenceEnd (by simp))]
  simp only [Bool.false_eq_true, if_false]
  rw [bind_ok (peek_quiet hu)]
  generalize u.kind = kind at hstart ⊢
  cases hstart <;> rfl

theorem readBlockSequence_end (ht : t.comments = []) (hkind : t.kind = .blockEnd) :
    readBlockSequence (fuel + 1) start sofar (quiet r (t :: ts)) =
      .ok ((sofar.reverse, {}), quiet r ts) := by
  rw [readBlockSequence, bind_ok (peek_quiet ht)]
  simp only [hkind]
  rw [bind_ok advance_quiet]
  rfl

theorem readBlockSequence_item (ht : t.comments = []) (hkind : t.kind = .blockEntry)
    (hu : u.comments = []) (hstart : StartsNode u.kind)
    (hread : readNode fuel true false (quiet r (u :: us)) = .ok (node, quiet r rest)) :
    readBlockSequence (fuel + 1) start sofar (quiet r (t :: u :: us)) =
      readBlockSequence fuel start (node :: sofar) (quiet r rest) := by
  rw [readBlockSequence, bind_ok (peek_quiet ht)]
  simp only [hkind]
  rw [bind_ok (show passDash (quiet r (t :: u :: us)) = .ok ((), quiet r (u :: us)) from rfl),
    bind_ok (peek_quiet hu)]
  generalize u.kind = kind at hstart ⊢
  cases hstart <;> exact bind_ok hread

end

section

variable {k v u : Token} {us rest : List Token} {key value : Node} {sofar : List (Node × Node)}
  {start fuel : Nat}

theorem raiseFoot_eq (hkey : key.foot = []) : raiseFoot key sofar = (key, sofar) := by
  cases sofar with
  | nil => rfl
  | cons entry sofar => simp [raiseFoot, hkey]

theorem lowerFoot_eq (hvalue : value.foot = []) : lowerFoot key value = (key, value) := by
  simp [lowerFoot, hvalue]

theorem readFlowMapping_end {first : Bool} (ht : t.comments = [])
    (hkind : t.kind = .flowMappingEnd) :
    readFlowMapping (fuel + 1) start first sofar (quiet r (t :: ts)) =
      .ok ((sofar.reverse, {}), quiet r ts) := by
  rw [readFlowMapping, bind_ok (flowEnds_close ht hkind), if_pos rfl, bind_ok advance_quiet,
    bind_ok takeComments_quiet]
  rfl

/-- The tokens of a key, a colon and the start of a value. -/
structure IsEntry (t k v u : Token) : Prop where
  key : t.kind = .key
  scalar : ∃ name style, k.kind = .scalar name style
  value : v.kind = .value
  start : StartsNode u.kind
  bare : t.comments = [] ∧ k.comments = [] ∧ v.comments = [] ∧ u.comments = []

/-- The three tokens before a value and the first of the value. -/
theorem Bears.entry_inv {ts : List Token} {name : String} {style : ScalarStyle}
    {kinds : List TokenKind} (h : Bears ts ([.key, .scalar name style, .value] ++ kinds)) :
    ∃ t k v us, ts = t :: k :: v :: us ∧ Bears us kinds ∧ k.kind = .scalar name style ∧
      ∀ u, StartsNode u.kind → u.comments = [] → IsEntry t k v u := by
  obtain ⟨t, ts, rfl, ht, bt, h⟩ := h.cons_inv
  obtain ⟨k, ts, rfl, hk, bk, h⟩ := h.cons_inv
  obtain ⟨v, ts, rfl, hv, bv, h⟩ := h.cons_inv
  exact ⟨t, k, v, ts, rfl, h, hk, fun u hu bu => ⟨ht, ⟨name, style, hk⟩, hv, hu, bt, bk, bv, bu⟩⟩

theorem readFlowMapping_entry {first : Bool} {commas : List Token}
    (hcommas : Bears commas (if first then [] else [.flowEntry])) (h : IsEntry t k v u)
    (hkey : readNode fuel false false (quiet r (k :: v :: u :: us)) = .ok (key, quiet r (v :: u :: us))) :
    readFlowMapping (fuel + 1) start first sofar (quiet r (commas ++ t :: k :: v :: u :: us)) =
      (readNode fuel false false >>= fun value =>
        readFlowMapping fuel start false (lowerFoot key value :: sofar)) (quiet r (u :: us)) := by
  obtain ⟨htk, ⟨name, style, hk⟩, hv, hu, bt, bk, bv, bu⟩ := h
  rw [readFlowMapping, bind_ok (flowEnds_part hcommas bt (by simp [htk]) (by simp))]
  simp only [Bool.false_eq_true, if_false]
  rw [bind_ok (peek_quiet bt)]
  simp only [htk]
  rw [bind_ok advance_quiet, bind_ok (peek_quiet bk)]
  simp only [hk]
  rw [bind_ok hkey, bind_ok (peek_quiet bv)]
  simp only [hv, if_true]
  rw [bind_ok advance_quiet, bind_ok (peek_quiet bu)]
  generalize u.kind = kind at hu ⊢
  cases hu <;> rfl

/-- The tokens end before the value of an entry. -/
theorem readFlowMapping_entry_fault {first : Bool} {commas : List Token} {fault : Fault} {name : String}
    {style : ScalarStyle} (hfault : r.fault = some fault)
    (hcommas : Bears commas (if first then [] else [.flowEntry]))
    (hts : Begins ts [.key, .scalar name style, .value]) (hfuel : 0 < fuel) :
    readFlowMapping (fuel + 1) start first sofar (quiet r (commas ++ ts)) = .error fault := by
  rw [readFlowMapping]
  -- one case for each of the places where the tokens can end: at the key, its text and the colon
  cases ts with
  | nil =>
    rw [List.append_nil]
    exact bind_error (flowEnds_fault hfault (.inr hcommas) (by simp))
  | cons t ts =>
    obtain ⟨ht, bt, hts⟩ := hts.cons_inv
    rw [bind_ok (flowEnds_part hcommas bt (by simp [ht]) (by simp))]
    simp only [Bool.false_eq_true, if_false]
    rw [bind_ok (peek_quiet bt)]
    simp only [ht]
    rw [bind_ok advance_quiet]
    cases ts with
    | nil => exact bind_error (peek_nil hfault)
    | cons k ts =>
      obtain ⟨hk, bk, hts⟩ := hts.cons_inv
      obtain ⟨fuel, rfl⟩ : ∃ n, fuel = n + 1 := ⟨fuel - 1, by omega⟩
      rw [bind_ok (peek_quiet bk)]
      simp only [hk]
      rw [bind_ok (readNode_scalar fuel bk hk)]
      cases ts with
      | nil => exact bind_error (peek_nil hfault)
      | cons v ts =>
        obtain ⟨hv, bv, hts⟩ := hts.cons_inv
        obtain rfl := hts.eq_nil
        rw [bind_ok (peek_quiet bv)]
        simp only [hv, if_true]
        rw [bind_ok advance_quiet]
        exact bind_error (peek_nil hfault)

theorem readBlockMapping_end (ht : t.comments = []) (hkind : t.kind = .blockEnd) :
    readBlockMapping (fuel + 1) start sofar (quiet r (t :: ts)) =
      .ok ((sofar.reverse, {}), quiet r ts) := by
  rw [readBlockMapping, bind_ok (peek_quiet ht)]
  simp only [hkind]
  rw [bind_ok advance_quiet, bind_ok takeComments_quiet]
  cases sofar <;> rfl

theorem readBlockMapping_entry (h : IsEntry t k v u) (hfoot : key.foot = []) (hfoot' : value.foot = [])
    (hkey : readNode fuel true true (quiet r (k :: v :: u :: us)) = .ok (key, quiet r (v :: u :: us)))
    (hvalue : readNode fuel true true (quiet r (u :: us)) = .ok (value, quiet r rest)) :
    readBlockMapping (fuel + 1) start sofar (quiet r (t :: k :: v :: u :: us)) =
      readBlockMapping fuel start ((key, value) :: sofar) (quiet r rest) := by
  obtain ⟨htk, ⟨name, style, hk⟩, hv, hu, bt, bk, bv, bu⟩ := h
  rw [readBlockMapping, bind_ok (peek_quiet bt)]
  simp only [htk]
  rw [bind_ok advance_quiet, bind_ok (peek_quiet bk)]
  simp only [hk]
  rw [bind_ok hkey, raiseFoot_eq hfoot, bind_ok (peek_quiet bv)]
  simp only [hv, if_true]
  rw [bind_ok advance_quiet, bind_ok (peek_quiet bu), ← lowerFoot_eq hfoot']
  generalize u.kind = kind at hu ⊢
  cases hu <;> exact bind_ok hvalue

end

end

/-! ## Documents -/

/-- The root of a document that starts at once. -/
theorem readRoot_quiet {fault : Option Fault} {u : Token} {us : List Token} (hu : StartsNode u.kind)
    (bu : u.comments = []) :
    readRoot (quiet { tokens := [], fault := fault } (u :: us)) =
      (readNode (2 * (u :: us).length + 4) true false >>= fun node => pure (node, []))
        (quiet { tokens := [], fault := fault, handles := commonHandles } (u :: us)) := by
  rw [readRoot, bind_ok (a := quiet { tokens := [], fault := fault } (u :: us)) rfl,
    bind_ok (peek_quiet bu)]
  generalize u.kind = kind at hu ⊢
  cases hu <;> exact (bind_ok rfl).trans (bind_ok rfl)

/-- A document whose tokens are those of a root. -/
theorem ofInput?_root {P : Node → Prop} {input : Input} {kinds : List TokenKind}
    (hscan : ∃ tokens, scan input = ⟨tokens, none⟩ ∧ (∀ t ∈ tokens, t.comments = []) ∧
      tokens.map Token.kind = kinds ++ [.streamEnd])
    (hopens : OpensNode kinds)
    (hread : ∀ {ts : List Token} (r : Reading) (rest : List Token) (fuel : Nat), Bears ts kinds →
      ts.length ≤ fuel → ∃ node,
        readNode fuel true false (quiet r (ts ++ rest)) = .ok (node, quiet r rest) ∧ P node) :
    ∃ node, Document.ofInput? input = .ok (some { root := node }) ∧ P node := by
  obtain ⟨tokens, hscan, hbare, hkinds⟩ := hscan
  have hbears : Bears tokens (kinds ++ [.streamEnd]) := ⟨hkinds, hbare⟩
  obtain ⟨ts, es, htokens, hts, hes⟩ := hbears.append_inv
  obtain ⟨e, rfl, _, he⟩ := hes.singleton_inv
  obtain ⟨u, us, rfl, hu, bu⟩ := hts.opens_inv hopens
  obtain ⟨node, hnode, hmeans⟩ := hread { tokens := [], fault := none, handles := commonHandles } [e]
    (2 * (u :: us ++ [e]).length + 4) hts (by simp; omega)
  refine ⟨node, ?_, hmeans⟩
  subst htokens
  have hdocument : readDocument (quiet { tokens := [], fault := none } (u :: us ++ [e])) =
      .ok (some { root := node }, quiet { tokens := [], fault := none, handles := commonHandles } [e]) := by
    rw [List.cons_append] at hnode ⊢
    rw [readDocument, bind_ok (peek_quiet bu), if_neg hu.ne_streamEnd,
      bind_ok ((readRoot_quiet hu bu).trans (bind_ok hnode))]
    exact (bind_ok (peek_quiet he)).trans (bind_ok takeComments_quiet)
  have hrun : Build.readDocument.run { tokens := u :: us ++ [e], fault := none } = _ := hdocument
  simp only [Document.ofInput?, hscan, hrun, bind, Except.bind, pure, Except.pure]

end StackIr.Yaml.Build
