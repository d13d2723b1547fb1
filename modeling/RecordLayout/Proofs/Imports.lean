import RecordLayout.Proofs.FieldTexts
import RecordLayout.Proofs.SampleRecords

/-!
# Imports

The code of a record starts with its imports. They are exactly what the code behind them needs: the scalar access if a
statement calls it, the names that stand for unsigned numbers if a field has them, and the other record types of the
fields, each once and in the order of their bytes.
-/

namespace RecordLayout

/-! ### The order of bytes -/

namespace Bytes

variable {c d : Char}

end Bytes

namespace Code

/-! ### Sorted names -/

/-- No word of the text starts with an `r`. -/
def Quiet (text : String) : Prop := (' ' :: text.toList).IsChain fun x y => ¬(x = ' ' ∧ y = 'r')

instance : DecidablePred Quiet := fun _ => inferInstanceAs (Decidable (List.IsChain _ _))

namespace Quiet

variable {s t : String}

theorem append (hs : Quiet s) (ht : Quiet t) : Quiet (s ++ t) := by
  obtain ⟨hhead, hchain⟩ := List.isChain_cons.mp ht
  unfold Quiet
  rw [String.toList_append, ← List.cons_append, List.isChain_append]
  exact ⟨hs, hchain, fun x _ y hy ⟨_, hr⟩ => hhead y hy ⟨rfl, hr⟩⟩

theorem indent (hs : Quiet s) (depth : Nat) : Quiet (indent depth s) := by
  unfold Code.indent
  split
  · decide
  · refine append ?_ hs
    unfold Quiet
    rw [String.toList_ofList, ← List.replicate_succ]
    refine (List.pairwise_of_forall_mem_list fun x _ y hy ⟨_, hr⟩ => ?_).isChain
    rw [List.eq_of_mem_replicate hy] at hr
    cases hr

end Quiet

def readLines (d : RecordDef) : List String := d.fields.flatMap fun f => f.readStatement.lines

/-- The line imports the items from a module. -/
inductive Uses (path : String) : List String → String → Prop
  | one (item : String) : Uses path [item] ("use " ++ path ++ "::" ++ item ++ ";")
  | several (items : List String) (h : 2 ≤ items.length) :
    Uses path items ("use " ++ path ++ "::\x7b" ++ String.intercalate ", " items ++ "\x7d;")

end Code

end RecordLayout
