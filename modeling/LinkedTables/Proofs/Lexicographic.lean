import Mathlib

/-!
# Sequences of one length in lexicographic order

Two searches of the library write sequences down in lexicographic order, the one for tables in reach
and the one for joined rows, and both make longer sequences of shorter ones by adding an entry
behind.  Behind sequences of one length that are in order nothing that is added matters
(`lex_append`).
-/

namespace LinkedTables

variable {α : Type} {r : α → α → Prop} {xs ys : List α}

/-- **What stands behind sequences of one length** does not change their order. -/
lemma lex_append (h : List.Lex r xs ys) (hlength : xs.length = ys.length) (us vs : List α) :
    List.Lex r (xs ++ us) (ys ++ vs) := by
  induction h with
  | nil => simp at hlength
  | cons _ ih => exact .cons (ih (by simpa using hlength))
  | rel hr => exact .rel hr

/-- Behind one sequence the entry that is added decides. -/
lemma lex_append_singleton {a b : α} (h : r a b) (xs : List α) :
    List.Lex r (xs ++ [a]) (xs ++ [b]) :=
  List.Lex.append_left r (.rel h) xs

end LinkedTables
