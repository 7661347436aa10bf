import StackIr.Ir.Outputs
import StackIr.Proofs.Lowering.Judgment
import StackIr.Proofs.OrderedMap

/-! # Instructions of outputs

    The instruction of an output carries the output's own declarations, with its value and
    the name of its export lowered. -/

namespace StackIr.Ir

variable {refs : Resolver}

/-- An export that is given is lowered. -/
theorem lowers_of_lowerExport {v : Value} {e : Expr} (h : lowerExport refs v = .ok (some e)) :
    Lowers refs v e := by
  unfold lowerExport at h
  split at h
  · cases h
  · obtain ⟨e', he', hsome⟩ := map_eq_ok_iff.1 h
    cases hsome
    exact lower_eq_ok_iff.1 (noting_eq_ok_iff.1 he')

/-- An instruction carries what its output declares, and its condition is a condition. -/
structure OutputInstruction.Describes (refs : Resolver) (out : OutputInstruction) (o : Output) :
    Prop where
  description : out.description = o.description
  condition : out.condition = o.condition
  declared : o.condition = "" ∨ refs.isCondition o.condition = true
  value : ∃ e, out.value = some e ∧ Lowers refs o.value e
  exported : lowerExport refs o.exportName = .ok out.exported

theorem lowerOutput_eq_ok {name : String} {o : Output} {out : OutputInstruction}
    (h : lowerOutput refs name o = .ok out) : out.name = name ∧ out.Describes refs o := by
  unfold lowerOutput at h
  obtain ⟨_, hcondition, h⟩ := bind_eq_ok_iff.1 h
  obtain ⟨value, hvalue, h⟩ := bind_eq_ok_iff.1 h
  obtain ⟨exported, hexported, h⟩ := bind_eq_ok_iff.1 h
  cases h
  exact ⟨rfl, rfl, rfl, checkCondition_eq_ok_iff.1 hcondition,
    ⟨value, rfl, lower_eq_ok_iff.1 hvalue⟩, hexported⟩

/-- Every output has its instruction, in the order of the outputs. -/
theorem forall₂_of_lowerOutputList {entries : List (String × Output)}
    {outs : List OutputInstruction} (h : lowerOutputList refs entries = .ok outs) :
    List.Forall₂ (fun entry out => out.name = entry.1 ∧ out.Describes refs entry.2) entries outs := by
  induction entries generalizing outs with
  | nil =>
    cases h
    exact List.Forall₂.nil
  | cons entry rest ih =>
    unfold lowerOutputList at h
    obtain ⟨first, hfirst, h⟩ := bind_eq_ok_iff.1 h
    obtain ⟨more, hmore, h⟩ := bind_eq_ok_iff.1 h
    cases h
    exact List.Forall₂.cons (lowerOutput_eq_ok (noting_eq_ok_iff.1 hfirst)) (ih hmore)

/-- Every instruction is that of an output of its name. -/
theorem describes_of_lowerOutputs {s : Section Output} {outs : Option (List OutputInstruction)}
    (h : lowerOutputs refs s = .ok outs) {out : OutputInstruction} (hout : out ∈ outs.getD []) :
    ∃ o, (out.name, o) ∈ Section.entries s ∧ out.Describes refs o := by
  cases s with
  | none =>
    cases h
    cases hout
  | some outputs =>
    unfold lowerOutputs at h
    obtain ⟨list, hlist, rfl⟩ := map_eq_ok_iff.1 h
    obtain ⟨⟨name, o⟩, hmem, hname, hdescribes⟩ :=
      exists_mem_of_forall₂ (forall₂_of_lowerOutputList hlist) hout
    exact ⟨o, hname ▸ hmem, hdescribes⟩

end StackIr.Ir
