import BenchCover.Graph.Walk
import BenchCover.Proofs.Distinct

/-!
# Changing a graph

What adding a function and setting a call do to the functions and to the calls of a graph.  A
function with a known id and a call with an unknown end change nothing.

`forall₂_setCallIn` is about the place of a call: if the calls of a graph are told by their ends,
one after the other, then so they are after a call is set.  Its ends are the next ones if they are
new, and otherwise stay where they are.
-/

namespace BenchCover

namespace CallGraph

variable {g next : CallGraph} {f : Function} {call : Call}

/-! ## Adding a function -/

/-- A function with a new id goes to the end. -/
lemma functions_addFunction (hnew : f.id ∉ g.ids) :
    (g.addFunction f).functions = g.functions ++ [f] := by
  rw [addFunction, dif_neg hnew]

lemma calls_addFunction (g : CallGraph) (f : Function) : (g.addFunction f).calls = g.calls := by
  rw [addFunction]
  split_ifs <;> rfl

lemma addFunction_of_mem (hknown : f.id ∈ g.ids) : g.addFunction f = g := by
  rw [addFunction, dif_pos hknown]

lemma mem_functions_addFunction (g : CallGraph) (f : Function) {other : Function}
    (hother : other ∈ (g.addFunction f).functions) : other ∈ g.functions ∨ other = f := by
  rw [addFunction] at hother
  split at hother
  · exact Or.inl hother
  · simpa using hother

lemma mem_ids_addFunction (g : CallGraph) (f : Function) {id : FunctionId} :
    id ∈ (g.addFunction f).ids ↔ id ∈ g.ids ∨ id = f.id := by
  rw [addFunction]
  split
  case isTrue hpresent =>
    refine ⟨Or.inl, fun h => h.elim (fun hid => hid) ?_⟩
    rintro rfl
    exact hpresent
  case isFalse => simp [ids]

/-! ## Setting a call -/

/-- A call between functions of the graph is set, and changes no function. -/
lemma exists_setCall (hcaller : call.caller ∈ g.ids) (hcallee : call.callee ∈ g.ids) :
    ∃ next, g.setCall call = .ok next ∧ next.functions = g.functions := by
  rw [setCall, dif_pos hcaller, dif_pos hcallee]
  exact ⟨_, rfl, rfl⟩

/-- What setting a call changes. -/
lemma eq_of_setCall (hset : g.setCall call = .ok next) :
    next.functions = g.functions ∧ next.calls = setCallIn call g.calls := by
  rw [setCall] at hset
  split_ifs at hset
  obtain rfl := Except.ok.inj hset
  exact ⟨rfl, rfl⟩

lemma mem_ids_of_setCall (hset : g.setCall call = .ok next) :
    call.caller ∈ g.ids ∧ call.callee ∈ g.ids := by
  rw [setCall] at hset
  split_ifs at hset with hcaller hcallee
  exact ⟨hcaller, hcallee⟩

/-- **A call is refused** for its caller, or else for its callee. -/
lemma setCall_eq_error_iff {fault : MissingEnd} : g.setCall call = .error fault ↔
    (call.caller ∉ g.ids ∧ fault = ⟨.caller, call.caller⟩) ∨
      (call.caller ∈ g.ids ∧ call.callee ∉ g.ids ∧ fault = ⟨.callee, call.callee⟩) := by
  rw [setCall]
  split_ifs with hcaller hcallee
  · simp [hcaller, hcallee]
  · simp [hcaller, hcallee, eq_comm]
  · simp [hcaller, eq_comm]

lemma withCall_of_ok (hset : g.setCall call = .ok next) : g.withCall call = next := by
  rw [withCall, hset]

/-- A call that is refused leaves the graph as it is. -/
lemma withCall_of_error {fault : MissingEnd} (hset : g.setCall call = .error fault) :
    g.withCall call = g := by
  rw [withCall, hset]

lemma functions_withCall (g : CallGraph) (call : Call) :
    (g.withCall call).functions = g.functions := by
  cases hset : g.setCall call with
  | error fault => rw [withCall_of_error hset]
  | ok next => rw [withCall_of_ok hset, (eq_of_setCall hset).1]

/-- A call with new ends goes to the end. -/
lemma setCallIn_of_notMem {calls : List Call} (hnew : call.ends ∉ calls.map (·.ends)) :
    setCallIn call calls = calls ++ [call] := by
  induction calls with
  | nil => rfl
  | cons other rest ih =>
    rw [List.map_cons, List.mem_cons, not_or] at hnew
    rw [setCallIn, if_neg (Ne.symm hnew.1), ih hnew.2, List.cons_append]

/-- Setting a call keeps what its ends tell, if the calls are told by their ends. -/
lemma forall₂_setCallIn {ε : Type} [BEq ε] [LawfulBEq ε] {R R' : ε → Call → Prop} {ends : List ε}
    {calls : List Call} {e : ε} (h : List.Forall₂ R ends calls) (hends : ends.Nodup)
    (hkey : ∀ e' other, R e' other → (other.ends = call.ends ↔ e' = e)) (hcall : R' e call)
    (hother : ∀ e' other, e' ≠ e → R e' other → R' e' other) :
    List.Forall₂ R' (if e ∈ ends then ends else ends ++ [e]) (setCallIn call calls) := by
  induction h with
  | nil => exact .cons hcall .nil
  | @cons e' other ends calls hfirst hrest ih =>
    obtain ⟨hnew, hends⟩ := List.nodup_cons.1 hends
    rw [setCallIn]
    by_cases hsame : e' = e
    · subst hsame
      rw [if_pos List.mem_cons_self, if_pos ((hkey e' other hfirst).2 rfl)]
      exact .cons hcall (forall₂_imp_of_notMem hrest hnew fun e' other hne => hother e' other hne)
    · rw [if_neg (mt (hkey e' other hfirst).1 hsame)]
      have hmem : e ∈ e' :: ends ↔ e ∈ ends := by simp [Ne.symm hsame]
      have htail := ih hends
      by_cases he : e ∈ ends
      · rw [if_pos he] at htail
        rw [if_pos (hmem.2 he)]
        exact .cons (hother e' other hsame hfirst) htail
      · rw [if_neg he] at htail
        rw [if_neg (mt hmem.1 he)]
        exact .cons (hother e' other hsame hfirst) htail

end CallGraph

end BenchCover
