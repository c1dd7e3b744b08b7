/-!
# Greedy picks

Taking the best element out of a list, again and again, is what both analyses of a suite do.
Before each pick the list is put in order; elements of the same rank stay in the order in which the
pick before has left them.
-/

namespace BenchCover

variable {α : Type}

/-- **A list with its best elements first.**  Elements neither of which comes before the other keep
their order. -/
def ranked (before : α → α → Bool) (l : List α) : List α :=
  l.mergeSort fun a b => !before b a

/-- Ranking a list only moves its elements. -/
theorem perm_ranked (before : α → α → Bool) (l : List α) : (ranked before l).Perm l :=
  List.mergeSort_perm l _

/-- What is left after a pick is one element shorter. -/
theorem length_of_ranked {before : α → α → Bool} {l others : List α} {best : α}
    (h : ranked before l = best :: others) : l.length = others.length + 1 := by
  rw [← (perm_ranked before l).length_eq, h, List.length_cons]

end BenchCover
