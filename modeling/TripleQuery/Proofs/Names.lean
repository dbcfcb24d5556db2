import Mathlib.Data.List.Nodup
import TripleQuery.Variable

/-!
# Generated names

No two generated names are the same (`generated_injective`), because no two numbers have the same
digits.
-/

namespace TripleQuery.Variable

theorem repr_injective {m n : Nat} (h : m.repr = n.repr) : m = n := by
  have hdigits := congrArg String.toList h
  rw [Nat.toList_repr, Nat.toList_repr] at hdigits
  have hvalue := congrArg (Nat.ofDigitChars 10 · 0) hdigits
  simpa using hvalue

theorem generated_injective {i j : Nat} (h : generated i = generated j) : i = j := by
  have hlist := congrArg String.toList h
  simp only [generated, String.toList_append, List.append_cancel_left_eq] at hlist
  exact repr_injective (String.toList_inj.1 hlist)

theorem nodup_generatedNames (count : Nat) : (generatedNames count).Nodup :=
  List.Nodup.map (fun _ _ => generated_injective) List.nodup_range

end TripleQuery.Variable
