import TruthTables.Proofs.Postfix.Conservation
import TruthTables.Proofs.Postfix.Supply
import TruthTables.Proofs.Table.Completeness

/-!
Why a sequence has no table. The size is judged first and by nothing but the number of variables.
What is left to fail is the printer, if it is asked for a text, and then the evaluation; for tokens
that were made from texts both are told by the number of values that wait.
-/

namespace TruthTables

/-- The names that occur as operands, without the literals. -/
def variableNames (ts : List Token) : Finset String :=
  ((operands ts).map (·.name)).toFinset \ {"T", "F"}

theorem length_freeVariables_eq_card (ts : List Token) :
    (freeVariables ts).length = (variableNames ts).card := by
  rw [← List.toFinset_card_of_nodup (nodup_freeVariables ts)]
  congr 1
  ext name
  simp only [List.mem_toFinset, mem_freeVariables, Token.literal?_eq_none_iff, variableNames,
    operands, Finset.mem_sdiff, Finset.mem_insert, Finset.mem_singleton, List.mem_map,
    List.mem_filter, beq_iff_eq, not_or, and_assoc]
  constructor
  · rintro ⟨hT, hF, hmem⟩
    exact ⟨hmem, hT, hF⟩
  · rintro ⟨hmem, hT, hF⟩
    exact ⟨hT, hF, hmem⟩

namespace NumberWriter

end NumberWriter

namespace Table

/-- A number of rows that cannot be written takes the place of the complaint about the size. -/
theorem outcome_generateWith_of_unwritable {writer : NumberWriter} {s : Settings}
    {limits : Limits} {code : List Token} {fault : Fault}
    (hnumber : writer.CanWrite (variableNames code).card)
    (hlimit : writer.CanWrite (limits.effective s))
    (hlt : limits.effective s < (variableNames code).card)
    (hsize : writer (rowCount (variableNames code).card) = .error fault)
    (expression : Option String) :
    (generateWith writer s limits code expression).outcome = .error fault := by
  obtain ⟨number, hnumber⟩ := hnumber
  obtain ⟨limit, hlimit⟩ := hlimit
  rw [← length_freeVariables_eq_card] at hnumber hlt hsize
  unfold Limits.effective at hlimit hlt
  unfold generateWith checkSize
  dsimp only
  rw [if_pos hlt]
  simp [hnumber, hlimit, hsize, Except.bind]

section FromText

variable {code : List Token} (hcode : ∀ t ∈ code, t.FromText)

include hcode

end FromText

end Table

end TruthTables
