import BenchCover.Proofs.Function.Registry
import BenchCover.Proofs.Graph.Distance

/-!
# Call graphs by name

In a graph that was read with a registry, a function is told by its name as well as by its id.  So
what calls lead to can be said without ids.

* `CallGraph.CallsNamed` — a call joins the functions of two names.
* `CallGraph.NamedSteps` — a chain of calls leads from one name to another.

Chains between functions are chains between their names (`NamedBy.steps_iff`), and depths are told
by names (`NamedBy.depth_eq`).  Hence graphs with the same names and with the same calls between
names agree on both, however their functions are numbered and in whatever order functions and calls
were added (`SameCalls.namedSteps_iff`, `SameCalls.depth_eq`).
-/

namespace BenchCover

namespace CallGraph

variable {g g' : CallGraph} {registry registry' : Registry} {f h f' : Function}
  {a b c name : String} {n : ℕ}

def names (g : CallGraph) : List String :=
  g.functions.map (·.name)

lemma mem_names_iff : name ∈ g.names ↔ ∃ f ∈ g.functions, f.name = name :=
  List.mem_map

/-- **A call between names.** -/
def CallsNamed (g : CallGraph) (a b : String) : Prop :=
  ∃ f ∈ g.functions, ∃ h ∈ g.functions, f.name = a ∧ h.name = b ∧ h.id ∈ g.callees f.id

/-- **A chain of calls between names**, with the number of calls in it. -/
inductive NamedSteps (g : CallGraph) (a : String) : ℕ → String → Prop
  | start : NamedSteps g a 0 a
  | call {n : ℕ} {b c : String} : NamedSteps g a n b → g.CallsNamed b c → NamedSteps g a (n + 1) c

/-- A function that no other one calls, by name. -/
def NamedRoot (g : CallGraph) (a : String) : Prop :=
  a ∈ g.names ∧ ∀ b, ¬ g.CallsNamed b a

/-! ## Names and functions -/

namespace NamedBy

/-- Functions of a graph are told apart by their names. -/
lemma eq_of_name_eq (hg : g.NamedBy registry) (hf : f ∈ g.functions) (hh : h ∈ g.functions)
    (hsame : f.name = h.name) : f = h :=
  eq_of_id_eq hf hh (Registry.id_unique (hg f hf) (hsame ▸ hg h hh))

lemma callsNamed_iff (hg : g.NamedBy registry) (hf : f ∈ g.functions) (hh : h ∈ g.functions) :
    g.CallsNamed f.name h.name ↔ h.id ∈ g.callees f.id := by
  constructor
  · rintro ⟨f', hf', h', hh', hsame, hsame', hcallee⟩
    obtain rfl := hg.eq_of_name_eq hf' hf hsame
    obtain rfl := hg.eq_of_name_eq hh' hh hsame'
    exact hcallee
  · exact fun hcallee => ⟨f, hf, h, hh, rfl, rfl, hcallee⟩

/-- **Chains of calls by name.** -/
theorem steps_iff (hg : g.NamedBy registry) (hf : f ∈ g.functions) (hh : h ∈ g.functions) :
    g.Steps f.id n h.id ↔ g.NamedSteps f.name n h.name := by
  constructor
  · intro hsteps
    generalize hid : h.id = id at hsteps
    induction hsteps generalizing h with
    | start =>
      obtain rfl := eq_of_id_eq hh hf hid
      exact .start
    | call _ hcallee ih =>
      obtain ⟨k, hk, rfl⟩ := mem_ids_iff.1 (mem_ids_of_mem_callees_left hcallee)
      exact (ih hk rfl).call ((hg.callsNamed_iff hk hh).2 (hid ▸ hcallee))
  · intro hsteps
    generalize hname : h.name = name at hsteps
    induction hsteps generalizing h with
    | start =>
      obtain rfl := hg.eq_of_name_eq hh hf hname
      exact .start
    | call _ hcalls ih =>
      obtain ⟨k, hk, h', hh', rfl, hname', hcallee⟩ := hcalls
      obtain rfl := hg.eq_of_name_eq hh' hh (hname'.trans hname.symm)
      exact (ih hk rfl).call hcallee

lemma reaches_iff (hg : g.NamedBy registry) (hf : f ∈ g.functions) (hh : h ∈ g.functions) :
    g.Reaches f.id h.id ↔ ∃ n, g.NamedSteps f.name n h.name :=
  exists_congr fun _ => hg.steps_iff hf hh

lemma isRoot_iff (hg : g.NamedBy registry) (hf : f ∈ g.functions) :
    g.IsRoot f.id ↔ g.NamedRoot f.name := by
  constructor
  · rintro ⟨-, hnone⟩
    refine ⟨List.mem_map_of_mem hf, ?_⟩
    rintro b ⟨k, hk, f', hf', rfl, hsame, hcallee⟩
    obtain rfl := hg.eq_of_name_eq hf' hf hsame
    obtain ⟨call, hcall, hends⟩ := mem_callees.1 hcallee
    exact hnone call hcall (congrArg Prod.snd hends)
  · rintro ⟨-, hnone⟩
    refine ⟨List.mem_map_of_mem hf, fun call hcall hcallee => ?_⟩
    obtain ⟨k, hk, hcaller⟩ := mem_ids_iff.1 (g.caller_mem call hcall)
    refine hnone k.name ((hg.callsNamed_iff hk hf).2 (mem_callees.2 ⟨call, hcall, ?_⟩))
    rw [Call.ends, hcallee, hcaller]

/-- **The depth of a function by name.** -/
theorem depth_eq (hg : g.NamedBy registry) (hf : f ∈ g.functions) :
    g.depth f.id
      = sInf {d : ℕ∞ | ∃ n : ℕ, d = n ∧ ∃ root, g.NamedRoot root ∧ g.NamedSteps root n f.name} := by
  rw [depth]
  congr 1
  ext d
  refine exists_congr fun n => and_congr_right fun _ => ?_
  constructor
  · rintro ⟨root, hroot, hsteps⟩
    obtain ⟨k, hk, rfl⟩ := mem_ids_iff.1 hroot.1
    exact ⟨k.name, (hg.isRoot_iff hk).1 hroot, (hg.steps_iff hk hf).1 hsteps⟩
  · rintro ⟨root, hroot, hsteps⟩
    obtain ⟨k, hk, rfl⟩ := mem_names_iff.1 hroot.1
    exact ⟨k.id, (hg.isRoot_iff hk).2 hroot, (hg.steps_iff hk hf).2 hsteps⟩

end NamedBy

/-! ## Graphs with the same calls -/

/-- **Graphs with the same calls**, by the names of the functions that they join. -/
def SameCalls (g g' : CallGraph) : Prop :=
  ∀ a b, g.CallsNamed a b ↔ g'.CallsNamed a b

namespace SameCalls

lemma symm (hcalls : g.SameCalls g') : g'.SameCalls g :=
  fun a b => (hcalls a b).symm

lemma namedSteps_iff (hcalls : g.SameCalls g') : g.NamedSteps a n b ↔ g'.NamedSteps a n b := by
  have hforward : ∀ {g g' : CallGraph} {b : String}, g.SameCalls g' → g.NamedSteps a n b →
      g'.NamedSteps a n b := by
    intro g g' b hcalls hsteps
    induction hsteps with
    | start => exact .start
    | call _ hcall ih => exact ih.call ((hcalls _ _).1 hcall)
  exact ⟨hforward hcalls, hforward hcalls.symm⟩

/-- **Functions are equally deep** in graphs with the same names and calls. -/
lemma depth_eq (hcalls : g.SameCalls g') (hnames : ∀ name, name ∈ g.names ↔ name ∈ g'.names)
    (hg : g.NamedBy registry) (hg' : g'.NamedBy registry') (hf : f ∈ g.functions)
    (hf' : f' ∈ g'.functions) (hsame : f.name = f'.name) : g.depth f.id = g'.depth f'.id := by
  rw [hg.depth_eq hf, hg'.depth_eq hf', hsame]
  simp only [NamedRoot, hnames, hcalls _ _, hcalls.namedSteps_iff]

end SameCalls

end CallGraph

end BenchCover
