import StackIr.Proofs.Decoding.Alike
import StackIr.Proofs.Json.Reading

/-! # JSON templates

    What a JSON text means does not depend on its whitespace and on the spelling of its strings:
    two legible texts that say the same are the same template, or fail alike.  What they say goes
    into nodes that differ only in their lines, and decoding looks at lines only to name them in
    failures. -/

namespace StackIr.Json

open Template

/-! ## Nodes for the same text -/

mutual

theorem Tells.alike (v : Shape) {n n' : Yaml.Node} (h : Tells n v) (h' : Tells n' v) :
    AlikeBy false [] [] Eq n n' := by
  match v with
  | .word w =>
    cases h
    cases h'
    exact .scalar rfl
  | .string text =>
    cases h
    cases h'
    exact .scalar rfl
  | .array items =>
    cases h with
    | array hitems =>
      cases h' with
      | array hitems' => exact .sequence rfl (hitems.alike items hitems')
  | .object members =>
    cases h with
    | object hmembers =>
      cases h' with
      | object hmembers' => exact .mapping rfl (hmembers.alike members hmembers')

theorem TellsItems.alike (items : List Shape) {nodes nodes' : List Yaml.Node}
    (h : TellsItems nodes items) (h' : TellsItems nodes' items) :
    AlikeItems false [] [] Eq nodes nodes' := by
  match items with
  | [] =>
    cases h
    cases h'
    exact .nil
  | item :: items =>
    cases h with
    | cons hitem hitems =>
      cases h' with
      | cons hitem' hitems' => exact .cons (hitem.alike item hitem') (hitems.alike items hitems')

theorem TellsMembers.alike (members : List (String × Shape))
    {entries entries' : List (Yaml.Node × Yaml.Node)} (h : TellsMembers entries members)
    (h' : TellsMembers entries' members) :
    AlikeEntries false [] [] Eq entries entries' := by
  match members with
  | [] =>
    cases h
    cases h'
    exact .nil
  | (name, value) :: members =>
    cases h with
    | cons hkey hvalue hmembers =>
      cases h' with
      | cons hkey' hvalue' hmembers' =>
        -- a key is a quoted string, of which only the text is compared
        have hname : ∀ {key : Yaml.Node}, Tells key (.string name) → key.text = name := by
          intro key hkey
          cases hkey
          rfl
        exact .cons ((hname hkey).trans (hname hkey').symm) (hvalue.alike value hvalue')
          (hmembers.alike members hmembers')

end

/-! ## Templates -/

/-- Nodes for an object are decoded to the same template. -/
theorem Tells.agree_ofNode {members : List (String × Shape)} {n n' : Yaml.Node}
    (h : Tells n (.object members)) (h' : Tells n' (.object members)) :
    Agree false Eq (ofNode [] n) (ofNode [] n') := by
  have halike : Alike false [] [] n n' := .of_alikeBy (h.alike _ h')
  have hentries := halike.sameMembers.imp fun key _ _ hentry => hentry.entryAlike key
  have hfold := hentries.agree_template
  -- A node for an object is a mapping, so the template is read from its members.
  cases h
  cases h'
  exact hfold

theorem ReadAs.agree_parse {bytes bytes' : List UInt8} {members : List (String × Shape)}
    (h : ReadAs bytes (.object members)) (h' : ReadAs bytes' (.object members)) :
    Agree false Eq (parse bytes) (parse bytes') := by
  rcases h with ⟨hdepth, n, hread, htells⟩ | ⟨hdeep, line, hread⟩
  · rcases h' with ⟨-, n', hread', htells'⟩ | ⟨hdeep, -⟩
    · rw [parse_of_ofBytes? hread, parse_of_ofBytes? hread']
      exact htells.agree_ofNode htells'
    · -- whether brackets are nested too deep is told by what both texts say
      omega
  · rcases h' with ⟨hdepth, -⟩ | ⟨-, line', hread'⟩
    · omega
    · rw [parse_of_ofBytes?_error hread, parse_of_ofBytes?_error hread']
      exact .error fun _ => .failed (.context _ .document)

/-- A text without aliases is a template or fails. -/
theorem ReadAs.ends_parse {bytes : List UInt8} {v : Shape} (h : ReadAs bytes v) :
    Ends (parse bytes) := by
  rcases h with ⟨-, n, hread, -⟩ | ⟨-, line, hread⟩
  · rw [parse_of_ofBytes? hread]
    exact ends_ofNode ends_decodeValue_nil n
  · rw [parse_of_ofBytes?_error hread]
    exact FailsOnly.error nofun

/-- Two legible texts that say the same, in whatever whitespace and spelling, are read alike and
    are the same template, or fail with the same failure up to lines.  The only texts that are
    refused as documents are those whose brackets are nested too deep, and then both are. -/
theorem parse_anySpelling {a b : ObjectText} (hshape : a.shape = b.shape) (ha : a.legible = true)
    (hb : b.legible = true) :
    ReadAs a.bytes a.shape ∧ ReadAs b.bytes a.shape ∧
      ((∃ t, parse a.bytes = .ok t ∧ parse b.bytes = .ok t) ∨
        ∃ f g, parse a.bytes = .error (.failed f) ∧ parse b.bytes = .error (.failed g) ∧
          f.UpToLines g) := by
  have hreadA : ReadAs a.bytes a.shape := ObjectText.readAs ha
  have hreadB : ReadAs b.bytes a.shape := by
    rw [hshape]
    exact ObjectText.readAs hb
  refine ⟨hreadA, hreadB, ?_⟩
  have hagree : Agree false Eq (parse a.bytes) (parse b.bytes) := ReadAs.agree_parse hreadA hreadB
  have hends := hreadA.ends_parse.ne_endless
  generalize parse a.bytes = x at hagree hends ⊢
  generalize parse b.bytes = y at hagree ⊢
  cases hagree with
  | @ok t t' heq => exact .inl ⟨t, rfl, by rw [heq]⟩
  | error hsame =>
    cases hsame rfl with
    | @failed f g hlines => exact .inr ⟨f, g, rfl, rfl, hlines⟩
    | endless => exact absurd rfl hends

/-! ## Three spellings of one text -/

/-- Every character as itself, where that is possible. -/
def plainly (s : String) : List Piece :=
  s.toList.filterMap fun c : Char =>
    if h : 0x20 ≤ c.toNat ∧ c ≠ '"' ∧ c ≠ '\\' then some (.raw c h) else none

instance (digits : List Char) (n : Nat) : Decidable (IsHex digits n) :=
  inferInstanceAs (Decidable (_ ∧ _))

/-- Every character by its number, where that is possible. -/
def inNumbers (s : String) : List Piece :=
  s.toList.filterMap fun c : Char =>
    if h : IsHex (Text.hex 4 c.toNat) c.toNat then some (.number (Text.hex 4 c.toNat) c h) else none

/-- Minus one and a half. -/
def minusOneAndAHalf : Number where
  negative := true
  whole := ⟨['1'], by decide, List.all_iff_forall_prop.1 (by decide)⟩
  leading := by decide
  fraction := some ⟨['5'], by decide, List.all_iff_forall_prop.1 (by decide)⟩
  exponent := none

def Space.none : Space :=
  ⟨[], List.forall_mem_nil _⟩

/-- A template with a slash and a line separator in its description, and a condition. -/
def slashText (spell : String → List Piece) (slash : Piece) (gap : Space) : ObjectText where
  before := .none
  members :=
    .cons gap (spell "Description") .none gap (.string (spell "a" ++ slash :: spell "b\u2028c")) gap
      (.cons gap (spell "Conditions") .none gap
        (.object (.cons gap (spell "C") .none gap
          (.array (.cons gap (.word (.bool true)) gap
            (.cons gap (.word (.number minusOneAndAHalf)) gap (.nil gap)))) gap (.nil gap))) gap
        (.nil gap))
  after := gap

/-- No whitespace, and every character as itself. -/
def tightText : ObjectText :=
  slashText plainly (.raw '/' (by decide)) .none

/-- Line breaks between tokens, and every character by its number. -/
def spreadText : ObjectText :=
  slashText inNumbers (.number ['0', '0', '2', 'F'] '/' (by decide))
    ⟨[' ', '\r', '\n', ' '], List.all_iff_forall_prop.1 (by decide)⟩

/-- The slash is escaped. -/
def escapedText : ObjectText :=
  slashText plainly (.letter '/' '/' (by decide)) .none

/-- Two of the spellings are the same template.  The third says the same and is refused. -/
theorem parse_anySpelling_slash :
    (tightText.chars ≠ spreadText.chars ∧ tightText.shape = spreadText.shape ∧
      tightText.legible = true ∧ spreadText.legible = true ∧
      ∃ t, parse tightText.bytes = .ok t ∧ parse spreadText.bytes = .ok t) ∧
    (escapedText.shape = tightText.shape ∧ escapedText.legible = false ∧
      ∃ f, parse escapedText.bytes = .error f) := by
  have hshape : tightText.shape = spreadText.shape := rfl
  have htight : tightText.legible = true := by decide +kernel
  have hspread : spreadText.legible = true := by decide +kernel
  have hok : (parse tightText.bytes).isOk = true := by decide +kernel
  have hrefused : (parse escapedText.bytes).isOk = false := by decide +kernel
  refine ⟨⟨by decide +kernel, hshape, htight, hspread, ?_⟩, rfl, by decide +kernel, ?_⟩
  · obtain ⟨-, -, hsame | ⟨f, g, hf, -⟩⟩ := parse_anySpelling hshape htight hspread
    · exact hsame
    · rw [hf] at hok
      cases hok
  · generalize parse escapedText.bytes = x at hrefused ⊢
    cases x with
    | error f => exact ⟨f, rfl⟩
    | ok t => cases hrefused

end StackIr.Json
