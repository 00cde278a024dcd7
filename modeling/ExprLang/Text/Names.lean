/-!
# Lists of names

Names are listed in the order of their code points, each once.
-/

namespace ExprLang

/-- Names in the order of their code points. -/
def sortNames (names : List String) : List String :=
  names.mergeSort fun a b => !decide (b < a)

/-- Names in the order of their code points, without repetitions. -/
def sortedNames (names : List String) : List String :=
  (sortNames names).eraseDups

end ExprLang
