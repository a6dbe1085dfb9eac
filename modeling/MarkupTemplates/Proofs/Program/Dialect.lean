import MarkupTemplates.Proofs.Program.Codes
import MarkupTemplates.Proofs.Symbols.Consistency

namespace MarkupTemplates

namespace Program

theorem declare_declared {table table' : SymbolTable} {name : Text} {asParameter : Bool}
    (h : declare table name asParameter = .ok table') :
    table' = table.declared ⟨asParameter, name, objectType⟩ := by
  unfold declare at h
  split at h
  · simp only at h
    split at h
    · next after ok =>
      rw [← Except.ok.inj h, SymbolTable.declared, SymbolTable.attempt]
      simp only [ok]
    · simp at h
  · simp at h

theorem declareAll_declared {table table' : SymbolTable} {names : List Text}
    (h : declareAll table names = .ok table') :
    table' = (names.map fun name => ⟨true, name, objectType⟩).foldl SymbolTable.declared table := by
  induction names generalizing table with
  | nil => exact (Except.ok.inj h).symm
  | cons name names ih =>
    obtain ⟨between, first, rest⟩ := ok_of_bind h
    rw [List.map_cons, List.foldl_cons, ← declare_declared first]
    exact ih rest

/-- Loops, assignments and lists of parameters declare names, and no other statement does. -/
theorem dialect_declaresOnly : dialect.DeclaresOnly := by
  intro directive table code table' h
  replace h : statementCode directive table = .ok (code, table') := h
  cases coded_of_statement h with
  | condition => exact ⟨[], rfl⟩
  | otherwise => exact ⟨[], rfl⟩
  | assignment _ _ declared => exact ⟨[_], declare_declared declared⟩
  | parameters declared => exact ⟨_, declareAll_declared declared⟩

end Program

end MarkupTemplates
